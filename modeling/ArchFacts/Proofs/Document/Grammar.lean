import ArchFacts.Proofs.Document.Parse

/-!
# The grammar of attribute lines

`Grammar.Line` says which lines of tokens are blocks, and what each of them states: a target, and
the pairs of a key and a value that its entries list, in reading order. The reader follows the
grammar entry by entry, in both directions: an entry is read and reading goes on after it
(`Grammar.Entry.readEntries_eq`), and what is read begins with an entry or is the brace that ends
the block (`exists_entry_of_readEntries`). So a line states a block exactly if the grammar derives
it, and then the block that it derives (`block?_eq_ok_iff`). `attributeLine_exact` adds what the
reader of a text makes of such a line: one more block, or a format error at the line.
-/

namespace ArchFacts

namespace Attributes

/-- Adds values one by one, each under its key. -/
def addPairs (a : Attributes) (pairs : List (String × String)) : Attributes :=
  pairs.foldl (fun a pair => a.insert pair.1 pair.2) a

@[simp] theorem addPairs_nil (a : Attributes) : a.addPairs [] = a := rfl

theorem addPairs_append (a : Attributes) (pairs pairs' : List (String × String)) :
    a.addPairs (pairs ++ pairs') = (a.addPairs pairs).addPairs pairs' := List.foldl_append

/-- The values of one key are added as a list of them is. -/
theorem addPairs_map (a : Attributes) (key : String) (values : List String) :
    a.addPairs (values.map (key, ·)) = a.insertAll key values := List.foldl_map

end Attributes

/-! ## The grammar -/

namespace Grammar

/-- `value := word | ( word* )`, and the values it lists. -/
inductive Value : List TokenKind → List String → Prop
  | word (value : String) : Value [.word value] [value]
  | list (values : List String) : Value (.openParen :: (values.map .word ++ [.closeParen])) values

/-- `entry := word = value`, and the pairs it lists. -/
inductive Entry : List TokenKind → List (String × String) → Prop
  | mk (key : String) {kinds : List TokenKind} {values : List String} (value : Value kinds values) :
    Entry (.word key :: .equals :: kinds) (values.map (key, ·))

/-- `entry*`, and the pairs that the entries list. -/
inductive Entries : List TokenKind → List (String × String) → Prop
  | nil : Entries [] []
  | cons {kinds kinds' : List TokenKind} {pairs pairs' : List (String × String)}
    (entry : Entry kinds pairs) (entries : Entries kinds' pairs') :
    Entries (kinds ++ kinds') (pairs ++ pairs')

/-- `target := word | ( word word )`. -/
inductive OfTarget : List TokenKind → Target → Prop
  | entity (id : String) : OfTarget [.word id] (.entity id)
  | pair (source dest : String) :
    OfTarget [.openParen, .word source, .word dest, .closeParen] (.pair source dest)

/-- `line := target { entry* }`, its target and the pairs that its entries list. -/
inductive Line : List TokenKind → Target → List (String × String) → Prop
  | mk {kinds kinds' : List TokenKind} {target : Target} {pairs : List (String × String)}
    (ofTarget : OfTarget kinds target) (entries : Entries kinds' pairs) :
    Line (kinds ++ .openBrace :: (kinds' ++ [.closeBrace])) target pairs

end Grammar

namespace Statement

section
variable {line : Nat} {tokens : List Token} {kinds kinds' : List TokenKind} {a a' : Attributes}
variable {key : String} {pairs : List (String × String)} {target : Target} {s : Statement}

/-! ## What the grammar derives is read -/

/-- An entry is added, and reading goes on after it. -/
theorem readEntries_of_entry (h : Grammar.Entry kinds pairs)
    (htokens : tokens.map (·.kind) = kinds ++ kinds') :
    ∃ rest : List Token, rest.map (·.kind) = kinds' ∧
      readEntries a tokens = readEntries (a.addPairs pairs) rest := by
  obtain @⟨key, kinds, values, value⟩ := h
  obtain ⟨_, _, tokens, rfl, h₁⟩ := exists_of_map_kind_eq_cons htokens
  obtain ⟨_, _, tokens, rfl, h₂⟩ := exists_of_map_kind_eq_cons h₁
  rw [Attributes.addPairs_map]
  cases value with
  | word value =>
    obtain ⟨_, _, rest, rfl, h₃⟩ := exists_of_map_kind_eq_cons h₂
    exact ⟨rest, h₃, by simp [readEntries, Attributes.insertAll]⟩
  | list values =>
    obtain ⟨_, _, tokens, rfl, h₃⟩ := exists_of_map_kind_eq_cons h₂
    have hvalues : tokens.map (·.kind) = values.map .word ++ .closeParen :: kinds' := by
      simpa using h₃
    obtain ⟨rest, hrest, hread⟩ := readValues_eq (a := a) key hvalues
    exact ⟨rest, hrest, by simp [readEntries, hread]⟩

/-- Entries and the brace after them are read to the end of the line. -/
theorem readEntries_of_entries (h : Grammar.Entries kinds pairs)
    (htokens : tokens.map (·.kind) = kinds ++ [.closeBrace]) :
    readEntries a tokens = .ok (a.addPairs pairs) := by
  induction h generalizing a tokens with
  | nil =>
    obtain ⟨_, _, rest, rfl, h₁⟩ := exists_of_map_kind_eq_cons htokens
    obtain rfl := List.map_eq_nil_iff.1 h₁
    simp [readEntries]
  | cons entry _ ih =>
    rw [List.append_assoc] at htokens
    obtain ⟨rest, hrest, hread⟩ := readEntries_of_entry entry htokens
    rw [hread, ih hrest, Attributes.addPairs_append]

/-- A target is read as itself, and reading goes on after it. -/
theorem takeTarget_of_target (h : Grammar.OfTarget kinds target)
    (htokens : tokens.map (·.kind) = kinds ++ kinds') :
    ∃ rest : List Token, rest.map (·.kind) = kinds' ∧
      takeTarget tokens = .ok (target, rest) := by
  refine takeTarget_eq ?_
  cases h with
  | entity id => exact htokens
  | pair source dest => exact htokens

/-! ## What is read the grammar derives -/

/-- Values are read to the parenthesis that closes their list, and reading goes on after it. -/
theorem exists_values_of_readValues (h : readValues key a tokens = .ok a') :
    ∃ (values : List String) (rest : List Token),
      tokens.map (·.kind) = values.map .word ++ .closeParen :: rest.map (·.kind) ∧
      rest.length < tokens.length ∧ readEntries (a.insertAll key values) rest = .ok a' := by
  induction tokens generalizing a with
  | nil => cases h
  | cons t tokens ih =>
    rw [readValues] at h
    split at h
    · next hkind => exact ⟨[], tokens, by simp [hkind], by simp, h⟩
    · next value hkind =>
      obtain ⟨values, rest, hkinds, hlt, hread⟩ := ih h
      exact ⟨value :: values, rest, by simp [hkind, hkinds], Nat.lt_succ_of_lt hlt, hread⟩
    · cases h

/-- What is read is the brace that ends the block, or begins with an entry. -/
theorem exists_entry_of_readEntries (h : readEntries a tokens = .ok a') :
    tokens.map (·.kind) = [.closeBrace] ∧ a' = a ∨
      ∃ (kinds : List TokenKind) (pairs : List (String × String)) (rest : List Token),
        Grammar.Entry kinds pairs ∧ tokens.map (·.kind) = kinds ++ rest.map (·.kind) ∧
        rest.length < tokens.length ∧ readEntries (a.addPairs pairs) rest = .ok a' := by
  unfold readEntries at h
  split at h
  · cases h
  · next t rest =>
    split at h
    · next hkind => exact .inl ⟨by simp [hkind], (Except.ok.inj h).symm⟩
    · cases h
    · next key _ _ value _ _ rest hkind =>
      refine .inr ⟨_, _, rest, .mk key (.word value), by simp [hkind], by simp; omega, h⟩
    · next key _ _ _ _ rest hkind =>
      obtain ⟨values, rest', hkinds, hlt, hread⟩ := exists_values_of_readValues h
      refine .inr ⟨_, _, rest', .mk key (.list values), by simp [hkind, hkinds], ?_, ?_⟩
      · simp only [List.length_cons]
        omega
      · rwa [Attributes.addPairs_map]
    · cases h
    · cases h
    · cases h

/-- What is read are entries, and the brace that ends the block. -/
theorem exists_entries_of_readEntries (h : readEntries a tokens = .ok a') :
    ∃ (kinds : List TokenKind) (pairs : List (String × String)), Grammar.Entries kinds pairs ∧
      tokens.map (·.kind) = kinds ++ [.closeBrace] ∧ a' = a.addPairs pairs := by
  induction hn : tokens.length using Nat.strongRecOn generalizing tokens a with
  | ind n ih =>
    rcases exists_entry_of_readEntries h with ⟨hkinds, rfl⟩ |
      ⟨kinds, pairs, rest, hentry, hkinds, hlt, hread⟩
    · exact ⟨[], [], .nil, hkinds, rfl⟩
    · obtain ⟨kinds', pairs', hentries, hrest, rfl⟩ := ih rest.length (hn ▸ hlt) hread rfl
      refine ⟨kinds ++ kinds', pairs ++ pairs', .cons hentry hentries, ?_, ?_⟩
      · rw [hkinds, hrest, List.append_assoc]
      · rw [Attributes.addPairs_append]

/-- Only a word is taken as a word. -/
theorem takeWord_eq_ok {wanted : Wanted} {text : String} {rest : List Token}
    (h : takeWord wanted tokens = .ok (text, rest)) :
    tokens.map (·.kind) = .word text :: rest.map (·.kind) := by
  unfold takeWord at h
  split at h
  · cases h
    rfl
  · cases h

/-- Only the mark that is wanted is taken. -/
theorem takeMark_eq_ok {kind : TokenKind} {wanted : Wanted} {rest : List Token}
    (h : takeMark kind wanted tokens = .ok rest) :
    tokens.map (·.kind) = kind :: rest.map (·.kind) := by
  unfold takeMark at h
  split at h
  · split at h
    · next hkind =>
      cases h
      simp [hkind]
    · cases h
  · cases h

/-- What is taken as a target is one. -/
theorem takeTarget_eq_ok {rest : List Token} (h : takeTarget tokens = .ok (target, rest)) :
    ∃ kinds, Grammar.OfTarget kinds target ∧
      tokens.map (·.kind) = kinds ++ rest.map (·.kind) := by
  unfold takeTarget at h
  split at h
  · obtain ⟨⟨source, rest₁⟩, hsource, h⟩ := bind_eq_ok_iff.1 h
    obtain ⟨⟨dest, rest₂⟩, hdest, h⟩ := bind_eq_ok_iff.1 h
    obtain ⟨rest₃, hclose, h⟩ := bind_eq_ok_iff.1 h
    cases h
    refine ⟨_, .pair source dest, ?_⟩
    simp [takeWord_eq_ok hsource, takeWord_eq_ok hdest, takeMark_eq_ok hclose]
  · cases h
    exact ⟨_, .entity _, rfl⟩
  · cases h

/-! ## Lines -/

/-- A line states a block exactly if the grammar derives it, and then the block that it derives. -/
theorem block?_eq_ok_iff : block? line tokens = .ok s ↔
    ∃ target pairs, Grammar.Line (tokens.map (·.kind)) target pairs ∧
      s = .block { target, attributes := (∅ : Attributes).addPairs pairs, line } := by
  constructor
  · intro h
    obtain ⟨⟨target, rest⟩, htarget, h⟩ := bind_eq_ok_iff.1 h
    obtain ⟨rest', hopen, h⟩ := bind_eq_ok_iff.1 h
    obtain ⟨attributes, hread, h⟩ := bind_eq_ok_iff.1 h
    cases h
    obtain ⟨kinds, hof, hkinds⟩ := takeTarget_eq_ok htarget
    obtain ⟨kinds', pairs, hentries, hkinds', rfl⟩ := exists_entries_of_readEntries hread
    refine ⟨target, pairs, ?_, rfl⟩
    rw [hkinds, takeMark_eq_ok hopen, hkinds']
    exact .mk hof hentries
  · rintro ⟨target, pairs, h, rfl⟩
    generalize hkinds : tokens.map (·.kind) = kinds at h
    obtain ⟨hof, hentries⟩ := h
    obtain ⟨rest, hrest, htarget⟩ := takeTarget_of_target hof hkinds
    obtain ⟨_, _, rest, rfl, hentriesEnd⟩ := exists_of_map_kind_eq_cons hrest
    rw [block?, htarget]
    simp only [takeMark, if_true, ok_bind, readEntries_of_entries hentries hentriesEnd]
    rfl

end

end Statement

namespace Document

/-! ## Documents in place -/

/-- Passes on what a part of a line states, or says on which line the problem is. -/
def onLine {α : Type} (line : Nat) (x : Except LineProblem α) :
    ExceptT FactError (StateM Document) α :=
  MonadExcept.ofExcept (x.mapError fun problem => .format line problem.message)

/-- Reads an attribute line, part by part, into a document that is changed in place. What has been
changed stays changed if the line fails. -/
def readBlockInPlace (line : Nat) (tokens : List Token) :
    ExceptT FactError (StateM Document) Unit := do
  let (target, rest) ← onLine line (Statement.takeTarget tokens)
  let rest ← onLine line (Statement.takeMark .openBrace .openBrace rest)
  let attributes ← onLine line (Statement.readEntries ∅ rest)
  modify (·.addBlock { target, attributes, line })

section
variable {line : Nat} {tokens : List Token} {d : Document}

theorem run_onLine_ok {α : Type} {a : α} :
    (onLine line (.ok a)).run.run d = (.ok a, d) := rfl

/-- In place, a line adds the block that it states, and nothing if it fails. -/
theorem run_readBlockInPlace : (readBlockInPlace line tokens).run.run d =
    match Statement.block? line tokens with
    | .ok (.block b) => (.ok (), d.addBlock b)
    | .ok (.tuple ..) => (.ok (), d)
    | .error problem => (.error (.format line problem.message), d) := by
  unfold readBlockInPlace Statement.block?
  cases Statement.takeTarget tokens with
  | error problem => rfl
  | ok target =>
    obtain ⟨target, rest⟩ := target
    rw [run_bind_of_ok run_onLine_ok, ok_bind]
    dsimp only
    cases Statement.takeMark .openBrace .openBrace rest with
    | error problem => rfl
    | ok rest =>
      rw [run_bind_of_ok run_onLine_ok, ok_bind]
      cases Statement.readEntries ∅ rest with
      | error problem => rfl
      | ok attributes => rfl

end

/-! ## Texts -/

/-- A block that is stated last is listed last, and nothing else changes. -/
theorem ofStatements_concat_block (statements : List Statement) (b : Block) :
    ofStatements (statements ++ [.block b]) = (ofStatements statements).addBlock b := by
  simp [ofStatements, addBlock]

namespace Progress

/-- What the lines read so far state. -/
def document (p : Progress) : Document := ofStatements p.statements.toList

/-- The next line stands in a section of attributes, and these are its tokens. -/
structure AttributeLine (p : Progress) (text : List Char) (tokens : List Token) : Prop where
  current : p.current = some .attributes
  noHeader : p.inComment = false → Header.detect? text = none
  scan : (Token.scan .punctuated p.inComment (p.line + 1) text).tokens = .ok tokens
  nonempty : tokens ≠ []

/-- An attribute line adds the statement that its tokens make, or fails with their problem. -/
theorem AttributeLine.next_eq {config : Config} {p : Progress} {text : List Char}
    {tokens : List Token} (h : p.AttributeLine text tokens) :
    next config p text =
      match Statement.block? (p.line + 1) tokens with
      | .ok s => .ok { p with
          line := p.line + 1
          inComment := (Token.scan .punctuated p.inComment (p.line + 1) text).inComment
          statements := p.statements.push s }
      | .error problem => .error (.format (p.line + 1) problem.message) := by
  have hheader : (if p.inComment then none else Header.detect? text) = none := by
    cases hc : p.inComment with
    | true => rfl
    | false => exact h.noHeader hc
  have htokens : tokens.isEmpty = false := by simpa using h.nonempty
  rw [next, readLine]
  simp only [hheader, readBody, h.current, reduceCtorEq, Option.some.injEq, if_true, if_false,
    h.scan, mapError_ok, ok_bind, htokens, Bool.false_eq_true]
  cases Statement.block? (p.line + 1) tokens <;> rfl

end Progress

/-- **Exactly the lines of the grammar are read.** If the grammar derives some tokens, they state
one block: its target is the derived one, and its attributes are the derived pairs, added in reading
order. Read in place, the block is added to the document after all others; read as a line of a text,
it is added to what the lines before it state. If the grammar does not derive the tokens, there is a
problem: in place, a format error on the line of the tokens, which leaves the document as it was;
and the same error where they are a line of a text. -/
theorem attributeLine_exact (line : Nat) (tokens : List Token) :
    (∀ target pairs, Grammar.Line (tokens.map (·.kind)) target pairs →
      let b : Block := { target, attributes := (∅ : Attributes).addPairs pairs, line }
      Statement.block? line tokens = .ok (.block b) ∧
      (∀ d, (readBlockInPlace line tokens).run.run d = (.ok (), d.addBlock b)) ∧
      ∀ config text, ∀ p : Progress, p.line + 1 = line → p.AttributeLine text tokens →
        ∃ p', p.next config text = .ok p' ∧ p'.document = p.document.addBlock b) ∧
    ((∀ target pairs, ¬ Grammar.Line (tokens.map (·.kind)) target pairs) →
      ∃ problem, Statement.block? line tokens = .error problem ∧
      (∀ d, (readBlockInPlace line tokens).run.run d =
        (.error (.format line problem.message), d)) ∧
      ∀ config text, ∀ p : Progress, p.line + 1 = line → p.AttributeLine text tokens →
        p.next config text = .error (.format line problem.message)) := by
  refine ⟨fun target pairs hline => ?_, fun hnone => ?_⟩
  · have hb : Statement.block? line tokens = .ok _ :=
      Statement.block?_eq_ok_iff.2 ⟨target, pairs, hline, rfl⟩
    refine ⟨hb, fun d => by rw [run_readBlockInPlace, hb], ?_⟩
    rintro config text p rfl htext
    rw [htext.next_eq, hb]
    refine ⟨_, rfl, ?_⟩
    rw [Progress.document, Array.toList_push, ofStatements_concat_block]
    rfl
  · cases hb : Statement.block? line tokens with
    | ok s =>
      obtain ⟨target, pairs, hline, -⟩ := Statement.block?_eq_ok_iff.1 hb
      exact absurd hline (hnone target pairs)
    | error problem =>
      refine ⟨problem, rfl, fun d => by rw [run_readBlockInPlace, hb], ?_⟩
      rintro config text p rfl htext
      rw [htext.next_eq, hb]

/-- A line that lists a key twice, and one of its values twice. -/
def repeatedLine : List Char := "a \x7b k = v k = ( w v ) \x7d".toList

def repeatedTokens : List Token :=
  [⟨.word "a", 3, 1⟩, ⟨.openBrace, 3, 3⟩, ⟨.word "k", 3, 5⟩, ⟨.equals, 3, 7⟩, ⟨.word "v", 3, 9⟩,
    ⟨.word "k", 3, 11⟩, ⟨.equals, 3, 13⟩, ⟨.openParen, 3, 15⟩, ⟨.word "w", 3, 17⟩,
    ⟨.word "v", 3, 19⟩, ⟨.closeParen, 3, 21⟩, ⟨.closeBrace, 3, 23⟩]

/-- A line on which a brace stands for the parenthesis that closes a list. -/
def crossedLine : List Char := "a \x7b k = ( v \x7d".toList

def crossedTokens : List Token :=
  [⟨.word "a", 3, 1⟩, ⟨.openBrace, 3, 3⟩, ⟨.word "k", 3, 5⟩, ⟨.equals, 3, 7⟩, ⟨.openParen, 3, 9⟩,
    ⟨.word "v", 3, 11⟩, ⟨.closeBrace, 3, 13⟩]

theorem attributeLine_exact_repeated :
    let p : Progress := { current := some .attributes, seenTuples := true, line := 2 }
    p.AttributeLine repeatedLine repeatedTokens ∧ p.AttributeLine crossedLine crossedTokens ∧
    (∃ b p', b.attributes.toList = [("k", ["v", "w"])] ∧
      p.next {} repeatedLine = .ok p' ∧ p'.document = p.document.addBlock b) ∧
    ∃ problem : LineProblem, p.next {} crossedLine = .error (.format 3 problem.message) := by
  intro p
  have hrepeated : p.AttributeLine repeatedLine repeatedTokens :=
    ⟨rfl, fun _ => by decide +kernel, by decide +kernel, by decide⟩
  have hcrossed : p.AttributeLine crossedLine crossedTokens :=
    ⟨rfl, fun _ => by decide +kernel, by decide +kernel, by decide⟩
  refine ⟨hrepeated, hcrossed, ?_, ?_⟩
  · have hline : Grammar.Line (repeatedTokens.map (·.kind)) (.entity "a")
        [("k", "v"), ("k", "w"), ("k", "v")] :=
      .mk (.entity "a") (.cons (.mk "k" (.word "v")) (.cons (.mk "k" (.list ["w", "v"])) .nil))
    obtain ⟨-, -, hread⟩ := (attributeLine_exact 3 _).1 _ _ hline
    obtain ⟨p', hnext, hdocument⟩ := hread {} repeatedLine p rfl hrepeated
    exact ⟨_, p', by decide +kernel, hnext, hdocument⟩
  · have hnone : ∀ target pairs, ¬ Grammar.Line (crossedTokens.map (·.kind)) target pairs := by
      intro target pairs hline
      have hb : Statement.block? 3 crossedTokens = .ok _ :=
        Statement.block?_eq_ok_iff.2 ⟨target, pairs, hline, rfl⟩
      cases hb
    obtain ⟨problem, -, -, hread⟩ := (attributeLine_exact 3 _).2 hnone
    exact ⟨problem, hread {} crossedLine p rfl hcrossed⟩

end Document

end ArchFacts
