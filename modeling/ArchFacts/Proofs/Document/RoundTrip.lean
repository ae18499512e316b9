import ArchFacts.Proofs.Document.Line
import ArchFacts.Proofs.Document.Statements

/-!
# Written documents read back

A reader of lines is seen through what it will make of the lines to come: the section it is in,
whether tuples have been seen, and what has been stated so far (`View`). Each part of a written
document takes the reader from one view to the next (`Reads`). Together they take it from the start
to the statements of the document, so a document that is built and that the settings know reads back
as itself, its attributes being added anew, entry by entry (`parse_render_of_built`). Attributes
that are proper stay what they are; a value that stands twice under a key is read once
(`parse_render_repeatedValue`).
-/

namespace ArchFacts

/-- What settings that are accepted guarantee. -/
theorem Config.of_validate {config : Config} (h : config.validate = .ok ()) :
    (∀ c ∈ config.entityRelation.toList, Text.isBlank c = false) ∧
      EdgeKind.ofTag? config.entityRelation = none := by
  unfold validate at h
  split at h
  · cases h
  · next hp =>
    unfold problem? at hp
    split at hp
    · cases hp
    · next hword =>
      split at hp
      · cases hp
      · next hkind =>
        simp only [Bool.or_eq_true, List.any_eq_true, not_or, not_exists, not_and,
          Bool.not_eq_true] at hword
        exact ⟨hword.2, by simpa using hkind⟩

/-- The settings in which nothing is chosen are accepted. -/
theorem Config.validate_default : Config.validate {} = .ok () := by
  have hp : Config.problem? {} = none := by decide
  rw [validate, hp]

namespace Document

/-- A document whose attributes have been added anew, entry by entry. -/
def rebuilt (d : Document) : Document := { d with blocks := d.blocks.map Block.rebuilt }

/-- Adding proper attributes anew gives them back. -/
theorem rebuilt_eq {d : Document} (h : ∀ b ∈ d.blocks, b.attributes.Proper) : d.rebuilt = d := by
  have hblocks : d.blocks.map Block.rebuilt = d.blocks.map id :=
    List.map_congr_left fun b hb => by rw [Block.rebuilt, Attributes.empty_merge (h b hb)]; rfl
  rw [rebuilt, hblocks, List.map_id]

/-! ## What the reader makes of several lines -/

/-- What matters of a reader outside comments. -/
structure View where
  current : Option Header
  seenTuples : Bool
  /-- What has been stated, without lines. -/
  statements : List Statement

/-- Whether a reader is outside comments and looks like this. -/
structure Progress.Shows (p : Progress) (v : View) : Prop where
  inComment : p.inComment = false
  current : p.current = v.current
  seenTuples : p.seenTuples = v.seenTuples
  statements : p.statements.toList.map Statement.unlined = v.statements

/-- Whether some lines take every reader that shows one view to a reader that shows another. -/
def Reads (config : Config) (lines : List (List Char)) (v v' : View) : Prop :=
  ∀ p : Progress, p.Shows v →
    ∃ p', lines.foldlM (Progress.next config) p = .ok p' ∧ p'.Shows v'

section
variable {config : Config} {line : List Char} {lines lines' : List (List Char)} {v v' v'' : View}

theorem Reads.nil : Reads config [] v v := fun p hp => ⟨p, rfl, hp⟩

theorem Reads.append (h : Reads config lines v v') (h' : Reads config lines' v' v'') :
    Reads config (lines ++ lines') v v'' := by
  intro p hp
  obtain ⟨p', hread, hp'⟩ := h p hp
  obtain ⟨p'', hread', hp''⟩ := h' p' hp'
  exact ⟨p'', by rw [List.foldlM_append, hread, ok_bind, hread'], hp''⟩

/-- Lines that are read one after the other. -/
theorem Reads.cons (h : Reads config [line] v v') (h' : Reads config lines v' v'') :
    Reads config (line :: lines) v v'' :=
  h.append h'

/-- A line is read as what the reader makes of it. -/
theorem Reads.single (h : ∀ p : Progress, p.Shows v →
    ∃ p', Progress.next config p line = .ok p' ∧ p'.Shows v') : Reads config [line] v v' := by
  intro p hp
  obtain ⟨p', hnext, hp'⟩ := h p hp
  exact ⟨p', by rw [List.foldlM_cons, hnext, ok_bind]; rfl, hp'⟩

/-- Lines of which each says nothing say nothing. -/
theorem Reads.idle (h : ∀ line ∈ lines, Reads config [line] v v) : Reads config lines v v := by
  induction lines with
  | nil => exact .nil
  | cons line lines ih => exact .cons (h line (by simp)) (ih fun l hl => h l (by simp [hl]))

/-- Lines of which each states something state it all. -/
theorem Reads.map {α : Type} {write : α → List Char} {state : α → Statement} {items : List α}
    {current : Option Header} {seen : Bool} {ss : List Statement}
    (h : ∀ a ∈ items, ∀ ss, Reads config [write a] ⟨current, seen, ss⟩
      ⟨current, seen, ss ++ [state a]⟩) :
    Reads config (items.map write) ⟨current, seen, ss⟩
      ⟨current, seen, ss ++ items.map state⟩ := by
  induction items generalizing ss with
  | nil => simpa using Reads.nil
  | cons a items ih =>
    have hrest : Reads config (items.map write) ⟨current, seen, ss ++ [state a]⟩
        ⟨current, seen, (ss ++ [state a]) ++ items.map state⟩ := ih fun b hb => h b (by simp [hb])
    rw [List.append_assoc] at hrest
    exact .cons (h a (by simp) ss) hrest

/-- A line that changes nothing but the count of lines says nothing. -/
theorem Reads.of_next (h : ∀ p : Progress, p.Shows v →
    Progress.next config p line = .ok { p with line := p.line + 1 }) : Reads config [line] v v :=
  .single fun p hp => ⟨_, h p hp, hp.inComment, hp.current, hp.seenTuples, hp.statements⟩

/-- A line that adds a statement to what has been stated. -/
theorem Reads.of_next_push {s : Statement} {state : Nat → Statement}
    (hs : ∀ n, (state n).unlined = s)
    (h : ∀ p : Progress, p.Shows v → Progress.next config p line = .ok { p with
      line := p.line + 1, statements := p.statements.push (state (p.line + 1)) }) :
    Reads config [line] v { v with statements := v.statements ++ [s] } :=
  .single fun p hp => ⟨_, h p hp, hp.inComment, hp.current, hp.seenTuples, by
    simp [hp.statements, hs]⟩

/-! ## The parts of a written document -/

/-- A line comment says nothing, whatever a carriage return at its end. -/
theorem reads_comment (h : ['/', '/'] <+: line) :
    Reads config [Text.dropReturn line] v v := by
  obtain ⟨cs, rfl⟩ := h
  have hline : ∃ cs', Text.dropReturn ('/' :: '/' :: cs) = '/' :: '/' :: cs' := by
    unfold Text.dropReturn
    split
    · cases cs with
      | nil => next hr => simp at hr
      | cons c cs => exact ⟨_, rfl⟩
    · exact ⟨_, rfl⟩
  obtain ⟨cs', hline⟩ := hline
  rw [show ['/', '/'] ++ cs = '/' :: '/' :: cs from rfl, hline]
  exact .of_next fun p hp => Progress.next_comment hp.inComment

theorem reads_empty : Reads config [[]] v v :=
  .of_next fun _ hp => Progress.next_empty hp.inComment

/-- The line of a header takes the reader to its section. -/
theorem reads_header {h : Header} {ss : List Statement} {current : Option Header} {seen : Bool}
    (hscheme : h = .scheme → current ≠ some .scheme) (hseen : h = .attributes → seen = true) :
    Reads config [h.text.toList ++ [' ', ':']] ⟨current, seen, ss⟩
      ⟨some h, seen || h = .tuples, ss⟩ := by
  refine .single ?_
  intro p hp
  have hcurrent : p.current = current := hp.current
  have hseen' : p.seenTuples = seen := hp.seenTuples
  cases h with
  | scheme =>
    refine ⟨{ p with line := p.line + 1, current := some .scheme },
      Progress.next_header hp.inComment ?_ hp.inComment, hp.inComment, rfl, ?_, hp.statements⟩
    · rw [Progress.enter, if_neg (by rw [hcurrent]; exact hscheme rfl)]
    · simpa using hseen'
  | tuples =>
    refine ⟨{ p with line := p.line + 1, current := some .tuples, seenTuples := true },
      Progress.next_header hp.inComment rfl hp.inComment, hp.inComment, rfl, ?_, hp.statements⟩
    simp
  | attributes =>
    refine ⟨{ p with line := p.line + 1, current := some .attributes },
      Progress.next_header hp.inComment ?_ hp.inComment, hp.inComment, rfl, ?_, hp.statements⟩
    · rw [Progress.enter, if_pos (by rw [hseen']; exact hseen rfl)]
    · simpa using hseen'

/-- A line of a scheme says nothing, if no comment and no quoted text begins in it. -/
theorem reads_scheme {seen : Bool} {ss : List Statement} (hd : Header.detect? line = none)
    (hm : Token.hasCommentMark line = false) (hq : '"' ∉ line) :
    Reads config [line] ⟨some .scheme, seen, ss⟩ ⟨some .scheme, seen, ss⟩ :=
  .of_next fun _ hp => Progress.next_scheme hp.current hp.inComment hd
    (Token.inComment_scanFrom hm hq)

/-- What precedes the facts leaves the reader in the scheme, nothing having been stated. -/
theorem reads_preamble (config : Config) (generated : String) :
    Reads config ((preamble config generated).map Text.dropReturn) ⟨none, false, []⟩
      ⟨some .scheme, false, []⟩ := by
  have hhead : Reads config
      ((["// Tuple-Attribute fact base", "// Generated on " ++ generated, "", "SCHEME TUPLE :",
        "// " ++ config.entityRelation ++ " <id> <kind>"].map String.toList).map Text.dropReturn)
      ⟨none, false, []⟩ ⟨some .scheme, false, []⟩ := by
    have hscheme : Text.dropReturn "SCHEME TUPLE :".toList =
        Header.scheme.text.toList ++ [' ', ':'] := by decide
    refine .cons (reads_comment (by decide)) (.cons (reads_comment ?_) (.cons reads_empty
      (.cons (hscheme ▸ reads_header (by simp) (by simp)) (reads_comment ?_))))
    · rw [String.toList_append]
      exact List.IsPrefix.trans (by decide) (List.prefix_append _ _)
    · rw [String.toList_append, String.toList_append, List.append_assoc]
      exact List.IsPrefix.trans (by decide) (List.prefix_append _ _)
  have hnodes : Reads config
      ((NodeKind.all.map fun k => ("$INHERIT " ++ k.tag ++ " $ENTITY").toList).map Text.dropReturn)
      ⟨some .scheme, false, []⟩ ⟨some .scheme, false, []⟩ := by
    refine .idle ?_
    intro line hline
    obtain ⟨_, hk, rfl⟩ := List.mem_map.1 hline
    obtain ⟨k, -, rfl⟩ := List.mem_map.1 hk
    cases k <;> exact reads_scheme (by decide) (by decide) (by decide)
  have hedges : Reads config
      ((EdgeKind.all.map fun k => (k.tag ++ " $ENTITY $ENTITY").toList).map Text.dropReturn)
      ⟨some .scheme, false, []⟩ ⟨some .scheme, false, []⟩ := by
    refine .idle ?_
    intro line hline
    obtain ⟨_, hk, rfl⟩ := List.mem_map.1 hline
    obtain ⟨k, -, rfl⟩ := List.mem_map.1 hk
    cases k <;> exact reads_scheme (by decide) (by decide) (by decide)
  rw [preamble, List.map_append, List.map_append, List.map_append]
  exact ((hhead.append hnodes).append hedges).append reads_empty

/-- The name of a known relation is no word of a header. -/
theorem Known.name_ne {d : Document} {name : String} {pair : Pair} (hk : Known config d.relations)
    (hf : config.entityRelation ≠ "FACT") (hs : config.entityRelation ≠ "SCHEME")
    (h : (name, pair) ∈ d.tuples) : name ≠ "FACT" ∧ name ≠ "SCHEME" := by
  obtain ⟨r, hr, hpair⟩ := List.mem_flatMap.1 h
  obtain ⟨_, _, heq⟩ := List.mem_map.1 hpair
  cases heq
  rcases hk r hr with ⟨hname, _⟩ | htag
  · rw [hname]
    exact ⟨hf, hs⟩
  · constructor <;> (intro hname; rw [hname] at htag; exact absurd htag (by decide))

/-- A pair of a known relation is one that a line may state. -/
theorem Known.tuple {d : Document} {name : String} {pair : Pair} (hk : Known config d.relations)
    (hc : config.validate = .ok ()) (h : (name, pair) ∈ d.tuples) :
    if name = config.entityRelation then (NodeKind.ofTag? pair.second).isSome
    else (EdgeKind.ofTag? name).isSome := by
  obtain ⟨r, hr, hpair⟩ := List.mem_flatMap.1 h
  obtain ⟨pair', hmem, heq⟩ := List.mem_map.1 hpair
  cases heq
  rcases hk r hr with ⟨hname, hkind⟩ | htag
  · rw [if_pos hname]
    exact hkind _ (Std.ExtTreeSet.mem_toList.1 hmem)
  · rw [if_neg]
    · exact htag
    · intro hname
      rw [hname, (Config.of_validate hc).2] at htag
      cases htag

/-- The lines of the section of tuples, one for each pair. -/
theorem tupleLines_eq (d : Document) :
    d.tupleLines = d.tuples.map fun t => renderPair t.1 t.2 := by
  simp [tupleLines, tuples, Relation.tuples, List.map_flatMap, Function.comp_def]

theorem dropReturn_tupleLines (d : Document) :
    d.tupleLines.map Text.dropReturn = d.tuples.map fun t => renderPair t.1 t.2 := by
  rw [tupleLines_eq, List.map_map]
  exact List.map_congr_left fun t _ => dropReturn_renderPair t.1 t.2

/-- The lines of the section of tuples state the pairs of a known document, if none begins like a
header. -/
theorem reads_tupleLines {d : Document} (hc : config.validate = .ok ())
    (hk : Known config d.relations)
    (hd : ∀ t ∈ d.tuples, Header.detect? (renderPair t.1 t.2) = none) :
    Reads config (d.tupleLines.map Text.dropReturn) ⟨some .tuples, true, []⟩
      ⟨some .tuples, true, d.tuples.map fun t => .tuple t.1 t.2 0⟩ := by
  rw [dropReturn_tupleLines]
  refine .map ?_
  intro t hmem ss
  have hstate : ∀ n, (Statement.tuple t.1 t.2 n).unlined = .tuple t.1 t.2 0 := fun _ => rfl
  exact .of_next_push hstate fun p hp =>
    Progress.next_renderPair hp.current hp.inComment (hd t hmem) (hk.tuple hc hmem)

theorem dropReturn_blockLines (blocks : List Block) :
    (blocks.map renderBlock).map Text.dropReturn = blocks.map renderBlock := by
  rw [List.map_map]
  exact List.map_congr_left fun b _ => dropReturn_renderBlock b

/-- The lines of the section of attributes state the blocks, their attributes added anew. -/
theorem reads_blockLines (blocks : List Block) (ss : List Statement) :
    Reads config ((blocks.map renderBlock).map Text.dropReturn) ⟨some .attributes, true, ss⟩
      ⟨some .attributes, true, ss ++ blocks.map fun b => .block b.rebuilt.unlined⟩ := by
  rw [dropReturn_blockLines]
  refine .map ?_
  intro b _ ss
  have hstate : ∀ n, (Statement.block { b.rebuilt with line := n }).unlined =
      .block b.rebuilt.unlined := fun _ => rfl
  exact .of_next_push hstate fun p hp => Progress.next_renderBlock hp.current hp.inComment

/-- The section of attributes states the blocks, whatever section it ends. -/
theorem reads_blockSection {current : Option Header} {ss : List Statement} (blocks : List Block) :
    Reads config ([] :: (Header.attributes.text.toList ++ [' ', ':']) ::
        (blocks.map renderBlock).map Text.dropReturn)
      ⟨current, true, ss⟩
      ⟨some .attributes, true, ss ++ blocks.map fun b => .block b.rebuilt.unlined⟩ :=
  .cons reads_empty (.cons (reads_header (by simp) (by simp)) (reads_blockLines blocks ss))

/-- The lines of a document are those that precede the facts, then its tuples, then its blocks, each
part under its header. -/
theorem dropReturn_renderLines (config : Config) (generated : String) (d : Document) :
    (renderLines config generated d).map Text.dropReturn =
      (preamble config generated).map Text.dropReturn ++
        (Header.tuples.text.toList ++ [' ', ':']) :: d.tupleLines.map Text.dropReturn ++
        [] :: (Header.attributes.text.toList ++ [' ', ':']) ::
          (d.blocks.map renderBlock).map Text.dropReturn := by
  have htuples : Text.dropReturn "FACT TUPLE :".toList =
      Header.tuples.text.toList ++ [' ', ':'] := by decide
  have hattributes : Text.dropReturn "FACT ATTRIBUTE :".toList =
      Header.attributes.text.toList ++ [' ', ':'] := by decide
  rw [renderLines, List.map_append, List.map_append, List.map_cons, List.map_cons, List.map_cons,
    htuples, hattributes]
  rfl

/-- The lines of a document state what the document states, its attributes added anew, if no line of
a tuple begins like a header. -/
theorem reads_renderLines {d : Document} (generated : String) (hc : config.validate = .ok ())
    (hk : Known config d.relations)
    (hd : ∀ t ∈ d.tuples, Header.detect? (renderPair t.1 t.2) = none) :
    Reads config ((renderLines config generated d).map Text.dropReturn) ⟨none, false, []⟩
      ⟨some .attributes, true, d.rebuilt.statements⟩ := by
  have htuples : Reads config
      ((Header.tuples.text.toList ++ [' ', ':']) :: d.tupleLines.map Text.dropReturn)
      ⟨some .scheme, false, []⟩ ⟨some .tuples, true, d.tuples.map fun t => .tuple t.1 t.2 0⟩ :=
    .cons (reads_header (by simp) (by simp)) (reads_tupleLines hc hk hd)
  have hstatements : d.rebuilt.statements = d.tuples.map (fun t => .tuple t.1 t.2 0) ++
      d.blocks.map fun b => .block b.rebuilt.unlined := by
    rw [statements, rebuilt, List.map_map]
    rfl
  rw [dropReturn_renderLines, hstatements]
  exact ((reads_preamble config generated).append htuples).append (reads_blockSection d.blocks)

/-- No line of a written document holds a line end, if the time of writing holds none. -/
theorem newline_not_mem_renderLines {d : Document} {generated : String}
    (hc : config.validate = .ok ()) (hg : '\n' ∉ generated.toList) :
    ∀ line ∈ renderLines config generated d, '\n' ∉ line := by
  have hrelation : '\n' ∉ config.entityRelation.toList := fun hn =>
    absurd ((Config.of_validate hc).1 _ hn) (by decide)
  have hhead : ∀ line ∈ ["// Tuple-Attribute fact base", "// Generated on " ++ generated, "",
      "SCHEME TUPLE :", "// " ++ config.entityRelation ++ " <id> <kind>"].map String.toList,
      '\n' ∉ line := by
    simp [hg, hrelation]
  have hpreamble : ∀ line ∈ preamble config generated, '\n' ∉ line := by
    intro line hline
    simp only [preamble, List.mem_append] at hline
    rcases hline with ((hline | hline) | hline) | hline
    · exact hhead line hline
    · obtain ⟨k, -, rfl⟩ := List.mem_map.1 hline
      cases k <;> decide
    · obtain ⟨k, -, rfl⟩ := List.mem_map.1 hline
      cases k <;> decide
    · rw [List.mem_singleton.1 hline]
      exact List.not_mem_nil
  intro line hline
  simp only [renderLines, tupleLines_eq, List.mem_append, List.mem_cons, List.mem_map] at hline
  rcases hline with (hline | rfl | ⟨t, -, rfl⟩) | rfl | rfl | ⟨b, -, rfl⟩
  · exact hpreamble line hline
  · decide
  · exact newline_not_mem_renderPair t.1 t.2
  · exact List.not_mem_nil
  · decide
  · exact newline_not_mem_renderBlock b

/-- The lines of a written document. -/
theorem lines_render {d : Document} {generated : String} (hc : config.validate = .ok ())
    (hg : '\n' ∉ generated.toList) :
    Text.lines (Text.dropMark (d.render config generated).toList) =
      (renderLines config generated d).map Text.dropReturn := by
  have hmark : ∃ cs, (renderLines config generated d).flatMap (· ++ ['\n']) = '/' :: cs := ⟨_, rfl⟩
  obtain ⟨cs, hcs⟩ := hmark
  rw [render, String.toList_ofList, ← Text.lines_flatMap (newline_not_mem_renderLines hc hg), hcs]
  rfl

/-- A written document reads back as itself, lines apart and its attributes added anew, if no line
of a tuple begins like a header. -/
theorem parse_render_of_detect?_eq_none {d : Document} {generated : String}
    (hc : config.validate = .ok ()) (hg : '\n' ∉ generated.toList) (ht : Tidy d.relations)
    (hk : Known config d.relations)
    (hd : ∀ t ∈ d.tuples, Header.detect? (renderPair t.1 t.2) = none) :
    ∃ d', parse config (d.render config generated) = .ok d' ∧ d'.unlined = d.rebuilt.unlined := by
  have hstart : Progress.Shows {} ⟨none, false, []⟩ := ⟨rfl, rfl, rfl, rfl⟩
  obtain ⟨p, hread, hp⟩ := reads_renderLines generated hc hk hd {} hstart
  refine ⟨ofStatements p.statements.toList, ?_, ?_⟩
  · rw [parse, lines_render hc hg, hread, ok_bind, if_pos hp.seenTuples]
    rfl
  · have htidy : Tidy d.rebuilt.relations := ht
    rw [unlined_ofStatements, hp.statements, ofStatements_statements htidy]

/-- A written document reads back as itself, lines apart and its attributes added anew, if the
entity relation is no word of a header. -/
theorem parse_render {d : Document} {generated : String} (hc : config.validate = .ok ())
    (hf : config.entityRelation ≠ "FACT") (hs : config.entityRelation ≠ "SCHEME")
    (hg : '\n' ∉ generated.toList) (hd : Tidy d.relations) (hk : Known config d.relations) :
    ∃ d', parse config (d.render config generated) = .ok d' ∧ d'.unlined = d.rebuilt.unlined := by
  refine parse_render_of_detect?_eq_none hc hg hd hk fun t hmem => ?_
  obtain ⟨hnf, hns⟩ := hk.name_ne hf hs hmem
  exact Header.detect?_renderPair hnf hns

/-- **A written document reads back.** A document that is built and that the settings know is
restored by reading what is written of it: relations, pairs and targets are what they were, and
attributes are those that adding them anew gives, hence the same if they are proper. -/
theorem parse_render_of_built {d : Document} {generated : String} (hc : config.validate = .ok ())
    (hf : config.entityRelation ≠ "FACT") (hs : config.entityRelation ≠ "SCHEME")
    (hg : '\n' ∉ generated.toList) (hd : d.Built) (hk : Known config d.relations) :
    ∃ d', parse config (d.render config generated) = .ok d' ∧
      d'.relations.map (fun r => (r.name, r.pairs)) =
        d.relations.map (fun r => (r.name, r.pairs)) ∧
      d'.blocks.map (·.target) = d.blocks.map (·.target) ∧
      d'.blocks.map (·.attributes) = d.blocks.map (fun b => (∅ : Attributes).merge b.attributes) ∧
      ((∀ b ∈ d.blocks, b.attributes.Proper) → d'.unlined = d.unlined) := by
  obtain ⟨d', hparse, heq⟩ := parse_render hc hf hs hg hd.tidy hk
  have hrelations := congrArg (fun d : Document => d.relations.map fun r => (r.name, r.pairs)) heq
  have htargets := congrArg (fun d : Document => d.blocks.map (·.target)) heq
  have hattributes := congrArg (fun d : Document => d.blocks.map (·.attributes)) heq
  simp only [unlined, rebuilt, List.map_map] at hrelations htargets hattributes
  exact ⟨d', hparse, hrelations, htargets, hattributes, fun hp => by rw [heq, rebuilt_eq hp]⟩

/-- A document of words that look like headers, comments, escapes and line ends. -/
def awkward : Document :=
  ((∅ : Document).addTuple "$INSTANCE" ⟨"// \"a\"\n\\n", "cFile"⟩).addTuple "call"
    ⟨"FACT TUPLE", ""⟩ |>.addBlock
    { target := .pair "FACT TUPLE" ""
      attributes := ((∅ : Attributes).insert "/*" "\x7d").insert "/*" "= \x7b" }

theorem parse_render_awkward :
    Config.validate {} = .ok () ∧ awkward.Built ∧ Known {} awkward.relations ∧
      ∃ d', parse {} (awkward.render {} "then") = .ok d' ∧
        d'.relations.map (fun r => (r.name, r.pairs)) =
          awkward.relations.map (fun r => (r.name, r.pairs)) ∧
        d'.blocks.map (·.target) = awkward.blocks.map (·.target) ∧
        d'.blocks.map (·.attributes) =
          awkward.blocks.map (fun b => (∅ : Attributes).merge b.attributes) ∧
        ((∀ b ∈ awkward.blocks, b.attributes.Proper) → d'.unlined = awkward.unlined) :=
  have hc : Config.validate {} = .ok () := Config.validate_default
  have hd : awkward.Built := .addBlock _ (.addTuple _ _ _ (.addTuple _ _ _ .empty))
  have hk : Known {} awkward.relations :=
    Known.insertPair (Known.insertPair (by simp [Known]) (.inl ⟨rfl, rfl⟩)) (.inr rfl)
  ⟨hc, hd, hk, parse_render_of_built hc (by decide) (by decide) (by decide) hd hk⟩

/-- A document in which a value stands twice under a key. -/
def repeatedValue : Document :=
  (∅ : Document).addBlock { target := .entity "a", attributes := .ofLists [("k", ["v", "v"])] }

/-- A document need not be restored if a value stands twice under a key, though no list of values
is empty. -/
theorem parse_render_repeatedValue :
    Config.validate {} = .ok () ∧ repeatedValue.Built ∧ Known {} repeatedValue.relations ∧
      (∀ b ∈ repeatedValue.blocks, ∀ key values, (key, values) ∈ b.attributes.toList →
        values ≠ []) ∧
      ¬ ∃ d', parse {} (repeatedValue.render {} "then") = .ok d' ∧
        d'.unlined = repeatedValue.unlined := by
  have hc : Config.validate {} = .ok () := Config.validate_default
  have hd : repeatedValue.Built := .addBlock _ .empty
  have hk : Known {} repeatedValue.relations := by simp [Known, repeatedValue, addBlock]
  have hg : '\n' ∉ "then".toList := by decide
  have hlist : (Attributes.ofLists [("k", ["v", "v"])]).toList = [("k", ["v", "v"])] := rfl
  refine ⟨hc, hd, hk, ?_, ?_⟩
  · intro b hb key values hm
    obtain rfl : b = { target := .entity "a", attributes := .ofLists [("k", ["v", "v"])] } := by
      simpa [repeatedValue, addBlock] using hb
    rw [hlist] at hm
    cases List.mem_singleton.1 hm
    simp
  · rintro ⟨d', hparse, heq⟩
    obtain ⟨d₀, hparse₀, heq₀⟩ := parse_render hc (by decide) (by decide) hg hd.tidy hk
    rw [hparse₀] at hparse
    cases hparse
    rw [heq₀] at heq
    have hmerge := congrArg (fun d : Document => d.blocks.map (·.attributes.values "k")) heq
    have hvalues : (Attributes.ofLists [("k", ["v", "v"])]).values "k" = ["v", "v"] := by
      simp [Attributes.ofLists, Attributes.values]
    simp [repeatedValue, addBlock, rebuilt, unlined, Block.rebuilt, Block.unlined,
      Attributes.values_merge, hvalues, Attributes.addNew] at hmerge

end

end Document

end ArchFacts
