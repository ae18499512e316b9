import ArchFacts.Document.Parse
import ArchFacts.Document.Render
import ArchFacts.Proofs.Except
import ArchFacts.Proofs.Token.Scan

/-!
# Written statements read back

The line of a pair and the line of a block are made of written tokens (`renderPair_eq`,
`renderBlock_eq`). Read as a line of its section, the first states the pair again (`tuple?_eq`), and
the second states the block again, its attributes added anew (`block?_eq`).
-/

namespace ArchFacts

/-- The tokens of a target. -/
def Target.kinds : Target → List TokenKind
  | entity id => [.word id]
  | pair source dest => [.openParen, .word source, .word dest, .closeParen]

/-- The tokens of the value of an entry. -/
def valueKinds : List String → List TokenKind
  | [value] => [.word value]
  | values => .openParen :: (values.map .word ++ [.closeParen])

/-- The tokens of an entry. -/
def entryKinds (entry : String × List String) : List TokenKind :=
  .word entry.1 :: .equals :: valueKinds entry.2

/-- The tokens of a block, the brace at its end apart. -/
def Block.kinds (b : Block) : List TokenKind :=
  b.target.kinds ++ .openBrace :: b.attributes.toList.flatMap entryKinds

/-- A block whose attributes have been added anew, entry by entry. -/
def Block.rebuilt (b : Block) : Block :=
  { b with attributes := (∅ : Attributes).merge b.attributes }

/-- Tokens with a space after each. -/
def writtenSpaced (kinds : List TokenKind) : List Char :=
  kinds.flatMap fun kind => kind.written ++ [' ']

section
variable {kinds kinds' : List TokenKind} {kind : TokenKind} {tokens : List Token}

@[simp] theorem writtenSpaced_nil : writtenSpaced [] = [] := rfl

@[simp] theorem writtenSpaced_cons :
    writtenSpaced (kind :: kinds) = kind.written ++ ' ' :: writtenSpaced kinds := by
  simp [writtenSpaced]

@[simp] theorem writtenSpaced_append :
    writtenSpaced (kinds ++ kinds') = writtenSpaced kinds ++ writtenSpaced kinds' :=
  List.flatMap_append

/-- Words are written as word tokens, each with a blank after it. -/
theorem spaced_eq (words : List String) :
    Document.spaced words = writtenSpaced (words.map .word) := by
  rw [Document.spaced, writtenSpaced, List.flatMap_map]
  rfl

/-! ## Lines as written tokens -/

/-- A tuple is written as three word tokens with blanks between them. -/
theorem renderPair_eq (relation : String) (pair : Pair) :
    Document.renderPair relation pair =
      writtenSpaced [.word relation, .word pair.first] ++ (TokenKind.word pair.second).written := by
  simp [Document.renderPair, TokenKind.written]

/-- A key and its values are written as the tokens of the entry, each with a blank after it. -/
theorem renderEntry_eq (key : String) (values : List String) :
    Document.renderEntry key values = writtenSpaced (entryKinds (key, values)) := by
  unfold Document.renderEntry entryKinds
  split
  · simp [spaced_eq, valueKinds, TokenKind.written]
  · next hone =>
    rw [valueKinds]
    · simp [spaced_eq, TokenKind.written]
    · exact hone

/-- With a blank after it, the target of a block is written as its tokens. -/
theorem renderTarget_eq (target : Target) :
    Document.renderTarget target ++ [' '] = writtenSpaced target.kinds := by
  cases target <;> simp [Document.renderTarget, Target.kinds, spaced_eq, TokenKind.written]

/-- A block is written as its tokens, the last of them without a blank. -/
theorem renderBlock_eq (b : Block) :
    Document.renderBlock b = writtenSpaced b.kinds ++ TokenKind.closeBrace.written := by
  have hentries : b.attributes.toList.flatMap (fun entry =>
      Document.renderEntry entry.1 entry.2) =
      writtenSpaced (b.attributes.toList.flatMap entryKinds) := by
    simp only [renderEntry_eq, writtenSpaced, List.flatMap_assoc]
  rw [Document.renderBlock, Block.kinds, hentries, writtenSpaced_append, ← renderTarget_eq]
  simp [TokenKind.written]

/-! ## Tokens of given kinds -/

/-- The first of some tokens, by their kinds. -/
theorem exists_of_map_kind_eq_cons (h : tokens.map (·.kind) = kind :: kinds) :
    ∃ line column rest, tokens = ⟨kind, line, column⟩ :: rest ∧ rest.map (·.kind) = kinds := by
  obtain ⟨⟨_, line, column⟩, rest, rfl, rfl, hrest⟩ := List.map_eq_cons_iff.1 h
  exact ⟨line, column, rest, rfl, hrest⟩

end

namespace Statement

section
variable {config : Config} {line : Nat} {tokens : List Token} {kinds : List TokenKind}
variable {a : Attributes}

/-! ## Pairs -/

/-- Three words state the pair that they were written for, if the settings know the relation. -/
theorem tuple?_eq {relation : String} {pair : Pair}
    (hknown : if relation = config.entityRelation then (NodeKind.ofTag? pair.second).isSome
      else (EdgeKind.ofTag? relation).isSome)
    (h : tokens.map (·.kind) = [.word relation, .word pair.first, .word pair.second]) :
    tuple? config line tokens = .ok (.tuple relation pair line) := by
  obtain ⟨_, _, tokens, rfl, h₁⟩ := exists_of_map_kind_eq_cons h
  obtain ⟨_, _, tokens, rfl, h₂⟩ := exists_of_map_kind_eq_cons h₁
  obtain ⟨_, _, tokens, rfl, h₃⟩ := exists_of_map_kind_eq_cons h₂
  obtain rfl := List.map_eq_nil_iff.1 h₃
  unfold tuple?
  split at hknown
  · next hrel => simp [word, ok_bind, hrel, Option.isSome_iff_ne_none.1 hknown, pure, Except.pure]
  · next hrel => simp [word, ok_bind, hrel, Option.isSome_iff_ne_none.1 hknown, pure, Except.pure]

/-! ## Blocks -/

/-- The values of a list are added in order, and reading goes on after the list. -/
theorem readValues_eq (key : String) {values : List String}
    (h : tokens.map (·.kind) = values.map .word ++ .closeParen :: kinds) :
    ∃ rest : List Token, rest.map (·.kind) = kinds ∧
      readValues key a tokens = readEntries (a.insertAll key values) rest := by
  induction values generalizing a tokens with
  | nil =>
    obtain ⟨_, _, rest, rfl, h₁⟩ := exists_of_map_kind_eq_cons h
    exact ⟨rest, h₁, by simp [readValues, Attributes.insertAll]⟩
  | cons value values ih =>
    obtain ⟨_, _, tokens, rfl, h₁⟩ := exists_of_map_kind_eq_cons h
    obtain ⟨rest, hrest, hread⟩ := ih (a := a.insert key value) h₁
    exact ⟨rest, hrest, by simp [readValues, hread, Attributes.insertAll]⟩

/-- An entry is added, and reading goes on after it. -/
theorem readEntries_entry {entry : String × List String}
    (h : tokens.map (·.kind) = entryKinds entry ++ kinds) :
    ∃ rest : List Token, rest.map (·.kind) = kinds ∧
      readEntries a tokens = readEntries (a.insertAll entry.1 entry.2) rest := by
  obtain ⟨key, values⟩ := entry
  obtain ⟨_, _, tokens, rfl, h₁⟩ := exists_of_map_kind_eq_cons h
  obtain ⟨_, _, tokens, rfl, h₂⟩ := exists_of_map_kind_eq_cons h₁
  by_cases hone : ∃ value, values = [value]
  · obtain ⟨value, rfl⟩ := hone
    obtain ⟨_, _, rest, rfl, h₃⟩ := exists_of_map_kind_eq_cons h₂
    exact ⟨rest, h₃, by simp [readEntries, Attributes.insertAll]⟩
  · have hlist : valueKinds values = .openParen :: (values.map .word ++ [.closeParen]) := by
      rw [valueKinds]
      exact fun value hv => hone ⟨value, hv⟩
    rw [show (key, values).2 = values from rfl, hlist] at h₂
    obtain ⟨_, _, tokens, rfl, h₃⟩ := exists_of_map_kind_eq_cons h₂
    have hvalues : tokens.map (·.kind) = values.map .word ++ .closeParen :: kinds := by
      simpa using h₃
    obtain ⟨rest, hrest, hread⟩ := readValues_eq (a := a) key hvalues
    exact ⟨rest, hrest, by simp [readEntries, hread]⟩

/-- The entries of a block are added in order. -/
theorem readEntries_eq {entries : List (String × List String)}
    (h : tokens.map (·.kind) = entries.flatMap entryKinds ++ [.closeBrace]) :
    readEntries a tokens =
      .ok (entries.foldl (fun a (key, values) => a.insertAll key values) a) := by
  induction entries generalizing a tokens with
  | nil =>
    obtain ⟨_, _, rest, rfl, h₁⟩ := exists_of_map_kind_eq_cons h
    obtain rfl := List.map_eq_nil_iff.1 h₁
    simp [readEntries]
  | cons entry entries ih =>
    rw [List.flatMap_cons, List.append_assoc] at h
    obtain ⟨rest, hrest, hread⟩ := readEntries_entry (a := a) h
    rw [hread, ih hrest, List.foldl_cons]

/-- A target is read as itself, and reading goes on after it. -/
theorem takeTarget_eq {target : Target} (h : tokens.map (·.kind) = target.kinds ++ kinds) :
    ∃ rest : List Token, rest.map (·.kind) = kinds ∧ takeTarget tokens = .ok (target, rest) := by
  cases target with
  | entity id =>
    obtain ⟨_, _, rest, rfl, h₁⟩ := exists_of_map_kind_eq_cons h
    exact ⟨rest, h₁, rfl⟩
  | pair source dest =>
    obtain ⟨_, _, tokens, rfl, h₁⟩ := exists_of_map_kind_eq_cons h
    obtain ⟨_, _, tokens, rfl, h₂⟩ := exists_of_map_kind_eq_cons h₁
    obtain ⟨_, _, tokens, rfl, h₃⟩ := exists_of_map_kind_eq_cons h₂
    obtain ⟨_, _, rest, rfl, h₄⟩ := exists_of_map_kind_eq_cons h₃
    exact ⟨rest, h₄, rfl⟩

/-- The tokens of a block state the block, its attributes added anew. -/
theorem block?_eq {b : Block} (h : tokens.map (·.kind) = b.kinds ++ [.closeBrace]) :
    block? line tokens = .ok (.block { b.rebuilt with line }) := by
  rw [Block.kinds, List.append_assoc] at h
  obtain ⟨rest, hrest, htarget⟩ := takeTarget_eq h
  obtain ⟨_, _, tokens, rfl, h₁⟩ := exists_of_map_kind_eq_cons hrest
  have hread := readEntries_eq (a := ∅) h₁
  rw [block?, htarget]
  simp only [takeMark, if_true, ok_bind, hread]
  rfl

end

end Statement

end ArchFacts
