import ArchFacts.Config
import ArchFacts.Document.Basic
import ArchFacts.Proofs.Attributes

/-!
# Documents and their statements

A document that is built pair by pair and block by block (`Document.Built`) lists no relation twice
and none without pairs (`Built.tidy`). So it is the document of its own statements, listed relation
by relation and then block by block, but for the lines it records (`ofStatements_statements`). Lines
do not matter for what a document says; `unlined` forgets them.
-/

namespace ArchFacts

/-- A relation without the line of its first mention. -/
def Relation.unlined (r : Relation) : Relation := { r with line := 0 }

/-- The pairs of a relation, each with the name of the relation. -/
def Relation.tuples (r : Relation) : List (String × Pair) := r.pairs.toList.map (r.name, ·)

/-- A block without its line. -/
def Block.unlined (b : Block) : Block := { b with line := 0 }

/-- A statement without its line. -/
def Statement.unlined : Statement → Statement
  | tuple relation pair _ => tuple relation pair 0
  | block b => block b.unlined

/-- Whether some settings know what a pair says: as a pair of the entity relation it declares an
entity of a known kind, otherwise it is a pair of a relation between entities. -/
def Config.Knows (config : Config) (t : String × Pair) : Prop :=
  if t.1 = config.entityRelation then (NodeKind.ofTag? t.2.second).isSome
  else (EdgeKind.ofTag? t.1).isSome

namespace Document

@[simp] theorem relations_empty : (∅ : Document).relations = [] := rfl

@[simp] theorem blocks_empty : (∅ : Document).blocks = [] := rfl

/-- A document without its lines. -/
def unlined (d : Document) : Document where
  relations := d.relations.map Relation.unlined
  blocks := d.blocks.map Block.unlined

/-- Documents that come from none by adding pairs and blocks. -/
inductive Built : Document → Prop
  | empty : Built ∅
  | addTuple {d : Document} (relation : String) (pair : Pair) (line : Nat) : Built d →
      Built (d.addTuple relation pair line)
  | addBlock {d : Document} (b : Block) : Built d → Built (d.addBlock b)

/-- Whether some settings know what some relations speak of: each is the entity relation, and
declares entities of known kinds, or it is a relation between entities. -/
def Known (config : Config) (rs : List Relation) : Prop :=
  ∀ r ∈ rs,
    (r.name = config.entityRelation ∧ ∀ pair ∈ r.pairs, (NodeKind.ofTag? pair.second).isSome) ∨
    (EdgeKind.ofTag? r.name).isSome

/-- The pairs that a document lists, each with the name of its relation. -/
def tuples (d : Document) : List (String × Pair) := d.relations.flatMap Relation.tuples

/-- What a document states, line by line. -/
def statements (d : Document) : List Statement :=
  d.tuples.map (fun (name, pair) => .tuple name pair 0) ++ d.blocks.map (.block ·.unlined)

section
variable {d : Document} {rs : List Relation} {r : Relation} {name : String} {pair : Pair}
variable {line : Nat}

/-! ## Adding pairs -/

theorem mem_singleton_iff {x : Pair} : x ∈ ({pair} : Std.ExtTreeSet Pair) ↔ x = pair := by
  change x ∈ (∅ : Std.ExtTreeSet Pair).insert pair ↔ x = pair
  rw [Std.ExtTreeSet.mem_insert, Std.LawfulEqCmp.compare_eq_iff_eq, eq_comm]
  simp

/-- The first pair of a relation puts the relation last. -/
theorem insertPair_of_forall_ne (h : ∀ r ∈ rs, r.name ≠ name) :
    insertPair name pair line rs = rs ++ [{ name, pairs := {pair}, line }] := by
  induction rs with
  | nil => rfl
  | cons r rs ih =>
    rw [insertPair, if_neg (h r (by simp)), ih fun r hr => h r (by simp [hr])]
    rfl

/-- A further pair goes to the relation that has the name. -/
theorem insertPair_append (h : ∀ r' ∈ rs, r'.name ≠ r.name) {rs' : List Relation} :
    insertPair r.name pair line (rs ++ r :: rs') =
      rs ++ { r with pairs := r.pairs.insert pair } :: rs' := by
  induction rs with
  | nil => rw [List.nil_append, insertPair, if_pos rfl, List.nil_append]
  | cons r' rs ih =>
    rw [List.cons_append, insertPair, if_neg (h r' (by simp)), ih fun r hr => h r (by simp [hr])]
    rfl

/-- A relation with a name is there, with others before it, or there is none. -/
theorem forall_ne_or_exists_append (name : String) (rs : List Relation) :
    (∀ r ∈ rs, r.name ≠ name) ∨
      ∃ before r after, rs = before ++ r :: after ∧ r.name = name ∧
        ∀ r' ∈ before, r'.name ≠ r.name := by
  induction rs with
  | nil => exact .inl (by simp)
  | cons r rs ih =>
    by_cases hr : r.name = name
    · exact .inr ⟨[], r, rs, rfl, hr, by simp⟩
    · rcases ih with h | ⟨before, r', after, rfl, rfl, h⟩
      · exact .inl (List.forall_mem_cons.2 ⟨hr, h⟩)
      · refine .inr ⟨r :: before, r', after, rfl, rfl, ?_⟩
        simpa [hr] using h

/-- No relation stands twice, and none is without pairs. -/
structure Tidy (rs : List Relation) : Prop where
  distinct : rs.Pairwise (·.name ≠ ·.name)
  nonempty : ∀ r ∈ rs, r.pairs ≠ ∅

/-- Adding a pair leaves relations tidy. -/
theorem Tidy.insertPair (h : Tidy rs) : Tidy (insertPair name pair line rs) := by
  rcases forall_ne_or_exists_append name rs with hne | ⟨before, r, after, rfl, rfl, hne⟩
  · rw [insertPair_of_forall_ne hne]
    refine ⟨List.pairwise_append.2 ⟨h.distinct, by simp, by simpa using hne⟩, ?_⟩
    intro r hr
    rcases List.mem_append.1 hr with hr | hr
    · exact h.nonempty r hr
    · rw [List.mem_singleton.1 hr]
      exact Std.ExtTreeSet.insert_ne_empty (t := ∅)
  · rw [insertPair_append hne]
    have hnames : (before ++ { r with pairs := r.pairs.insert pair } :: after).map (·.name) =
        (before ++ r :: after).map (·.name) := by simp
    refine ⟨?_, ?_⟩
    · have := List.pairwise_map.2 h.distinct
      exact List.pairwise_map.1 (hnames ▸ this)
    · intro r' hr'
      rcases List.mem_append.1 hr' with hr' | hr'
      · exact h.nonempty r' (by simp [hr'])
      · rcases List.mem_cons.1 hr' with rfl | hr'
        · exact Std.ExtTreeSet.insert_ne_empty
        · exact h.nonempty r' (by simp [hr'])

/-- Adding a pair that the settings know leaves relations that they know. -/
theorem Known.insertPair {config : Config} (hk : Known config rs)
    (h : (name = config.entityRelation ∧ (NodeKind.ofTag? pair.second).isSome) ∨
      (EdgeKind.ofTag? name).isSome) : Known config (insertPair name pair line rs) := by
  rcases forall_ne_or_exists_append name rs with hne | ⟨before, r, after, rfl, rfl, hne⟩
  · rw [insertPair_of_forall_ne hne]
    intro r hr
    rcases List.mem_append.1 hr with hr | hr
    · exact hk r hr
    · rw [List.mem_singleton.1 hr]
      rcases h with ⟨hname, hkind⟩ | htag
      · refine .inl ⟨hname, fun x hx => ?_⟩
        rwa [mem_singleton_iff.1 hx]
      · exact .inr htag
  · rw [insertPair_append hne]
    intro r' hr'
    rcases List.mem_append.1 hr' with hr' | hr'
    · exact hk r' (by simp [hr'])
    · rcases List.mem_cons.1 hr' with rfl | hr'
      · rcases h with ⟨hname, hkind⟩ | htag
        · rcases hk r (by simp) with ⟨_, hkinds⟩ | htag
          · refine .inl ⟨hname, fun x hx => ?_⟩
            rcases Std.ExtTreeSet.mem_insert.1 hx with hx | hx
            · rwa [← Std.LawfulEqCmp.eq_of_compare hx]
            · exact hkinds x hx
          · exact .inr htag
        · exact .inr htag
      · exact hk r' (by simp [hr'])

/-- The relations of a document that is built are tidy. -/
theorem Built.tidy (h : d.Built) : Tidy d.relations := by
  induction h with
  | empty => exact ⟨.nil, by simp⟩
  | addTuple _ _ _ _ ih => exact ih.insertPair
  | addBlock _ _ ih => exact ih

/-! ## The document of the statements -/

/-- Adding further pairs to the last relation. -/
theorem foldl_insertPair_last (h : ∀ r' ∈ rs, r'.name ≠ r.name) (pairs : List Pair) :
    pairs.foldl (fun rs pair => insertPair r.name pair 0 rs) (rs ++ [r]) =
      rs ++ [{ r with pairs := r.pairs.insertMany pairs }] := by
  induction pairs generalizing r with
  | nil => simp
  | cons pair pairs ih =>
    rw [List.foldl_cons, insertPair_append h, Std.ExtTreeSet.insertMany_cons]
    exact ih (r := { r with pairs := r.pairs.insert pair }) h

/-- A set is what its elements make when they are added to the first of them. -/
theorem insertMany_eq {s : Std.ExtTreeSet Pair} {pairs : List Pair} (h : s.toList = pair :: pairs) :
    ({pair} : Std.ExtTreeSet Pair).insertMany pairs = s := by
  apply Std.ExtTreeSet.ext_mem
  intro x
  have hx : x ∈ s ↔ x = pair ∨ x ∈ pairs := by
    rw [← Std.ExtTreeSet.mem_toList, h, List.mem_cons]
  rw [Std.ExtTreeSet.mem_insertMany_list, mem_singleton_iff, hx, List.contains_iff_mem]

/-- Adding all pairs of a relation lists the relation last. -/
theorem foldl_insertPair (h : ∀ r' ∈ rs, r'.name ≠ r.name) (hr : r.pairs ≠ ∅) :
    r.pairs.toList.foldl (fun rs pair => insertPair r.name pair 0 rs) rs = rs ++ [r.unlined] := by
  cases hl : r.pairs.toList with
  | nil => exact absurd (Std.ExtTreeSet.toList_eq_nil_iff.1 hl) hr
  | cons pair pairs =>
    rw [List.foldl_cons, insertPair_of_forall_ne h]
    have hlast := foldl_insertPair_last (r := { name := r.name, pairs := {pair} }) h pairs
    rw [insertMany_eq hl] at hlast
    exact hlast

/-- Adding all pairs of some tidy relations lists these relations, in order. -/
theorem foldl_insertPair_relations {rs' : List Relation} (h : Tidy (rs ++ rs')) :
    rs'.foldl (fun rs r => r.pairs.toList.foldl (fun rs pair => insertPair r.name pair 0 rs) rs)
      (rs.map Relation.unlined) = (rs ++ rs').map Relation.unlined := by
  induction rs' generalizing rs with
  | nil => simp
  | cons r rs' ih =>
    have hne : ∀ r' ∈ rs.map Relation.unlined, r'.name ≠ r.name := by
      rw [List.forall_mem_map]
      exact fun r' hr' => (List.pairwise_append.1 h.distinct).2.2 r' hr' r (by simp)
    rw [List.foldl_cons, foldl_insertPair hne (h.nonempty r (by simp))]
    have htidy : Tidy ((rs ++ [r]) ++ rs') := by rwa [List.append_assoc, List.singleton_append]
    simpa using ih htidy

/-- The relations after one more statement. -/
def addStatement (rs : List Relation) : Statement → List Relation
  | .tuple relation pair line => insertPair relation pair line rs
  | .block _ => rs

theorem relations_ofStatements (statements : List Statement) :
    (ofStatements statements).relations = statements.foldl addStatement [] := rfl

/-- A document with tidy relations is the document of its statements, lines apart. -/
theorem ofStatements_statements (h : Tidy d.relations) :
    ofStatements d.statements = d.unlined := by
  have hrelations : d.statements.foldl addStatement [] = d.relations.map Relation.unlined := by
    have hblocks : ∀ (rs : List Relation) (blocks : List Block),
        blocks.foldl (fun rs b => addStatement rs (.block b.unlined)) rs = rs := by
      intro rs blocks
      induction blocks with
      | nil => rfl
      | cons b blocks ih => exact ih
    rw [statements, tuples, List.foldl_append, List.foldl_map, List.foldl_map, hblocks,
      List.foldl_flatMap]
    simp only [Relation.tuples, List.foldl_map]
    exact foldl_insertPair_relations (show Tidy ([] ++ d.relations) from h)
  have hblocks : (ofStatements d.statements).blocks = d.blocks.map Block.unlined := by
    rw [ofStatements, statements, List.filterMap_append, List.filterMap_map, List.filterMap_map]
    simp only [Function.comp_def]
    simp
  rw [← relations_ofStatements] at hrelations
  exact congr (congrArg Document.mk hrelations) hblocks

/-- Adding a pair without its line is adding it and forgetting the line. -/
theorem unlined_insertPair :
    (insertPair name pair line rs).map Relation.unlined =
      insertPair name pair 0 (rs.map Relation.unlined) := by
  induction rs with
  | nil => rfl
  | cons r rs ih =>
    rw [insertPair, List.map_cons, insertPair]
    by_cases hr : r.name = name
    · rw [if_pos hr, if_pos (show r.unlined.name = name from hr)]
      rfl
    · rw [if_neg hr, if_neg (show ¬ r.unlined.name = name from hr), List.map_cons, ih]

/-- Forgetting lines before a document is made of statements is forgetting them after. -/
theorem unlined_ofStatements (statements : List Statement) :
    (ofStatements statements).unlined = ofStatements (statements.map Statement.unlined) := by
  have hrelations : ∀ rs : List Relation, (statements.foldl addStatement rs).map Relation.unlined =
      (statements.map Statement.unlined).foldl addStatement (rs.map Relation.unlined) := by
    induction statements with
    | nil => exact fun _ => rfl
    | cons s statements ih =>
      intro rs
      rw [List.foldl_cons, List.map_cons, List.foldl_cons, ih]
      cases s with
      | tuple name pair line => rw [addStatement, unlined_insertPair]; rfl
      | block b => rfl
  have hblocks : (ofStatements statements).blocks.map Block.unlined =
      (ofStatements (statements.map Statement.unlined)).blocks := by
    clear hrelations
    simp only [ofStatements]
    induction statements with
    | nil => rfl
    | cons s statements ih =>
      cases s with
      | tuple => exact ih
      | block b => exact congrArg (b.unlined :: ·) ih
  exact congr (congrArg Document.mk (hrelations [])) hblocks

end

end Document

end ArchFacts
