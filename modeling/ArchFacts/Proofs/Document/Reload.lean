import ArchFacts.Proofs.Document.Fill
import ArchFacts.Proofs.Store.RoundTrip

/-!
# Loading, saving and loading

The store that a text describes is filled by the document of the text, from no store. So it obeys
the rules on stores, its relations are resolved and have both ends, and each has just the attributes
that the blocks of the document add for its ends (`attributes_of_ofText`). Relations that share both
ends have the same, whatever their kinds, and that is what a text can say: the text of the store
reads back as the store (`ofText_render_ofText`).
-/

namespace ArchFacts

/-- A block is meant for relations by their ends. -/
theorem Block.onEdge_congr {b : Block} {key key' : EdgeKey} (hsource : key.source = key'.source)
    (hdest : key.dest = key'.dest) (a : Attributes) : b.onEdge key a = b.onEdge key' a := by
  rw [onEdge, onEdge, hsource, hdest]

/-- What a document fills no store with has the attributes that the document adds. -/
theorem Document.attributes_fill_empty {config : Config} {d : Document} {key : EdgeKey} {e : Edge}
    (h : (d.fill config ∅).edges[key]? = some e) :
    e.attributes = d.blocks.foldl (fun a b => b.onEdge key a) ∅ := by
  rw [getElem?_fill_edges Store.coherent_empty] at h
  obtain ⟨e', he', h⟩ := Option.bind_eq_some_iff.1 h
  have hbare : e'.attributes = ∅ := by
    rcases getElem?_link_cases Store.coherent_empty he' with he' | ⟨-, hbare⟩
    · rw [Store.edges_empty, Std.ExtTreeMap.getElem?_empty] at he'
      cases he'
    · exact hbare
  split at h
  · cases h
    rw [hbare]
  · cases h

namespace Store

section
variable {config : Config} {text : String} {s : Store}

/-- The store that a text describes obeys the rules on stores, and each of its relations is resolved
and has both ends. -/
theorem ofText_spec (h : ofText config text = .ok s) :
    s.Coherent ∧ s.WellFormed ∧
      ∀ {key : EdgeKey} {e}, s.edges[key]? = some e → e.resolved = true ∧ s.hasEnds key = true := by
  obtain ⟨⟨report, s'⟩, hload, rfl⟩ := map_eq_ok_iff.1 h
  have hsteps : Steps Attributes.Proper ∅ s' := .load Attributes.rule_proper coherent_empty hload
  exact ⟨Steps.coherent hsteps coherent_empty,
    Steps.wellFormed hsteps coherent_empty wellFormed_empty,
    grounded_empty.load coherent_empty hload⟩

/-- Relations between the same two entities have the same attributes in the store that a text
describes. -/
theorem attributes_of_ofText (h : ofText config text = .ok s) {key key' : EdgeKey} {e e' : Edge}
    (he : s.edges[key]? = some e) (he' : s.edges[key']? = some e')
    (hsource : key.source = key'.source) (hdest : key.dest = key'.dest) :
    e.attributes = e'.attributes := by
  obtain ⟨⟨report, s'⟩, hload, rfl⟩ := map_eq_ok_iff.1 h
  obtain ⟨d, -, rfl⟩ := Document.exists_parse_of_load hload
  rw [Document.attributes_fill_empty he, Document.attributes_fill_empty he']
  simp only [Block.onEdge_congr hsource hdest]

/-- The text of the store that some text describes reads back as this store. -/
theorem ofText_render_again {generated : String} (h : ofText config text = .ok s)
    (hv : config.validate = .ok ()) (hf : config.entityRelation ≠ "FACT")
    (hs : config.entityRelation ≠ "SCHEME") (hg : '\n' ∉ generated.toList) :
    ofText config (s.render config generated) = .ok s := by
  obtain ⟨hc, hw, hall⟩ := ofText_spec h
  refine ofText_render_of_pairAttributes hc hw hall (fun e he => ?_) hv hf hs hg
  refine pairAttributes_of_forall_eq hc hw he fun kind e' he' => ?_
  exact attributes_of_ofText h he' ((mem_edgeList hc).1 he) rfl rfl

/-- **What was loaded and saved is loaded as it was.** The text of the store that some text
describes reads back as this store, whatever the first text said twice, in vain or about other
parents. All relations between two entities have the same attributes in it. -/
theorem ofText_render_ofText {generated : String} (h : ofText config text = .ok s)
    (hv : config.validate = .ok ()) (hf : config.entityRelation ≠ "FACT")
    (hs : config.entityRelation ≠ "SCHEME") (hg : '\n' ∉ generated.toList) :
    ofText config (s.render config generated) = .ok s ∧
      ∀ e ∈ s.edgeList, ∀ e' ∈ s.edgeList, e.source = e'.source → e.dest = e'.dest →
        e.attributes = e'.attributes := by
  obtain ⟨hc, -, -⟩ := ofText_spec h
  have huniform : ∀ e ∈ s.edgeList, ∀ e' ∈ s.edgeList, e.source = e'.source → e.dest = e'.dest →
      e.attributes = e'.attributes := fun e he e' he' =>
    attributes_of_ofText h ((mem_edgeList hc).1 he) ((mem_edgeList hc).1 he')
  exact ⟨ofText_render_again h hv hf hs hg, huniform⟩

/-- A text that declares one id as a file and as a function, and writes kinds in two ways. It names
two parents of an object, of which only the second is declared, and states two relations from the
file to the object, to which two blocks give values under one key. -/
def tangledText : String :=
  String.join <| [
    "FACT TUPLE :", "$INSTANCE f function", "$INSTANCE f cFile", "$INSTANCE o variable",
    "$INSTANCE s cSubSystem", "contain ghost o", "contain s o", "call f o", "reference f o",
    "call f ghost", "FACT ATTRIBUTE :", "(f o) \x7b line = ( 9 1 ) \x7d", "f \x7b label = F \x7d",
    "(f o) \x7b line = ( 2 9 ) \x7d", "(f ghost) \x7b line = 4 \x7d"].map (· ++ "\n")

theorem ofText_render_ofText_tangled : ∃ s, ofText {} tangledText = .ok s ∧
    Config.validate {} = .ok () ∧ ofText {} (s.render {} "then") = .ok s ∧
      ∀ e ∈ s.edgeList, ∀ e' ∈ s.edgeList, e.source = e'.source → e.dest = e'.dest →
        e.attributes = e'.attributes := by
  have hok : (Document.parse {} tangledText).isOk = true := by
    rw [Document.parse, tangledText, String.toList_join]
    decide +kernel
  obtain ⟨d, hparse⟩ := exists_of_isOk hok
  obtain ⟨report, hload, -⟩ := Document.load_eq_ok hparse ∅
  have h : ofText {} tangledText = .ok (d.fill {} ∅) := by
    rw [ofText, hload]
    rfl
  exact ⟨_, h, Config.validate_default,
    ofText_render_ofText h Config.validate_default (by decide) (by decide) (by decide)⟩

end

end Store

end ArchFacts
