import ArchFacts.Proofs.Document.FirstProblem
import ArchFacts.Proofs.Token.Position

/-!
# No relation line lacks a word

Of its three tokens the reader of a relation line wants that each is a word. The lines of its
section are read without marks, so they hold nothing but words (`Token.StartIn.exists_word`), and no
line at all fails for the want of one: a computation that never does so is `Worded`, and every part
of the reader is (`Progress.worded_readLine`). The message of this problem begins like that of no
other (`LineProblem.exists_of_message_eq`), so no text is refused with it. `positions_faithful` puts
this together with what is known of the places where tokens start.
-/

namespace ArchFacts

/-! ## How messages begin -/

/-- Whether a text begins with some characters. -/
def Begins (front : List Char) (text : String) : Prop := front <+: text.toList

namespace Begins

variable {front front' chars : List Char} {s t : String}

/-- A text that is written out begins with its characters. -/
theorem ofList : Begins chars (String.ofList chars) := by
  simp only [Begins, String.toList_ofList, List.prefix_refl]

/-- What a text begins with is not changed by what follows it. -/
theorem append (h : Begins front s) : Begins front (s ++ t) := by
  rw [Begins, String.toList_append]
  exact h.trans (List.prefix_append _ _)

/-- Characters put before a text come before what it begins with. -/
theorem after (h : Begins front s) : Begins (chars ++ front) (String.ofList chars ++ s) := by
  rw [Begins, String.toList_append, String.toList_ofList]
  exact (List.prefix_append_right_inj chars).2 h

/-- Of two beginnings of one text the shorter begins the longer, so that texts that begin otherwise
are different. -/
theorem prefix_or_prefix (h : Begins front s) (h' : Begins front' s) :
    front <+: front' ∨ front' <+: front :=
  List.prefix_or_prefix_of_prefix h h'

end Begins

namespace LineProblem

/-- The message for the want of something begins with what is wanted, whatever was found. -/
theorem begins_expected {front : List Char} {wanted : Wanted} {found : Option Token}
    (h : Begins front wanted.text) :
    Begins (['e', 'x', 'p', 'e', 'c', 't', 'e', 'd', ' '] ++ front)
      (expected wanted found).message := by
  cases found with
  | none => exact .append (.after h)
  | some t => exact .append (.append (.append (.append (.after h))))

/-- The message for the want of a word of a relation line is that of no other problem. -/
theorem exists_of_message_eq {problem : LineProblem} {found : Option Token}
    (h : problem.message = (expected .word found).message) :
    ∃ found', problem = .expected .word found' := by
  have hword : Begins _ (expected .word found).message := begins_expected .ofList
  rw [← h] at hword
  cases problem with
  | expected wanted found' =>
    cases wanted with
    | word => exact ⟨found', rfl⟩
    | equals key | value key =>
      exact absurd (hword.prefix_or_prefix (begins_expected (.append (.append .ofList))))
        (by decide)
    | _ => exact absurd (hword.prefix_or_prefix (begins_expected .ofList)) (by decide)
  | unclosedBlock | repeatedScheme | attributesBeforeTuples | missingTuples =>
    exact absurd (hword.prefix_or_prefix .ofList) (by decide)
  | unterminatedString => exact absurd (hword.prefix_or_prefix (.append .ofList)) (by decide)
  | tokenCount | unknownNodeKind | unknownRelation | unclosedList =>
    exact absurd (hword.prefix_or_prefix (.append (.append .ofList))) (by decide)
  | trailing =>
    exact absurd (hword.prefix_or_prefix (.append (.append (.append (.append .ofList)))))
      (by decide)

end LineProblem

/-! ## Readers that do not lack words -/

/-- Whether a computation does not fail for the want of a word of a relation line. -/
def Worded {α : Type} (x : Except LineProblem α) : Prop :=
  ∀ found, x ≠ .error (.expected .word found)

namespace Worded

section
variable {α β : Type} {x : Except LineProblem α} {f : α → Except LineProblem β}

theorem ok {a : α} : Worded (.ok a : Except LineProblem α) := by
  rintro found h
  cases h

/-- A computation that fails for another reason. -/
theorem error {problem : LineProblem} (h : ∀ found, problem ≠ .expected .word found) :
    Worded (.error problem : Except LineProblem α) :=
  fun found herror => h found (Except.error.inj herror)

/-- A computation that fails for the want of something else. -/
theorem expected {wanted : Wanted} {found : Option Token} (h : wanted ≠ .word) :
    Worded (.error (.expected wanted found) : Except LineProblem α) :=
  error fun _ hproblem => h (LineProblem.expected.inj hproblem).1

/-- A sequence lacks no word if its parts lack none. -/
theorem bind (hx : Worded x) (hf : ∀ a, x = .ok a → Worded (f a)) : Worded (x >>= f) := by
  cases x with
  | error problem => exact fun found h => hx found (congrArg _ (Except.error.inj h))
  | ok a => exact hf a rfl

end

end Worded

namespace Statement

section
variable {config : Config} {line : Nat} {tokens : List Token} {wanted : Wanted}

/-- A word that is wanted elsewhere than on a relation line. -/
theorem worded_takeWord (h : wanted ≠ .word) : Worded (takeWord wanted tokens) := by
  unfold takeWord
  split
  · exact .ok
  · exact .expected h

/-- A mark that is wanted, and not a word of a relation line. -/
theorem worded_takeMark {kind : TokenKind} (h : wanted ≠ .word) :
    Worded (takeMark kind wanted tokens) := by
  unfold takeMark
  split
  · split
    · exact .ok
    · exact .expected h
  · exact .expected h

/-- The reader of a target wants the words of a target and the marks around them. -/
theorem worded_takeTarget : Worded (takeTarget tokens) := by
  unfold takeTarget
  split
  · refine .bind (worded_takeWord (by decide)) fun _ _ => ?_
    refine .bind (worded_takeWord (by decide)) fun _ _ => ?_
    exact .bind (worded_takeMark (by decide)) fun _ _ => .ok
  · exact .ok
  · exact .expected (by decide)

/-- Neither the entries of a block nor the values of a list are words of a relation line. -/
theorem worded_readEntries_and_readValues : (∀ a, Worded (readEntries a tokens)) ∧
    ∀ key a, Worded (readValues key a tokens) := by
  induction hn : tokens.length using Nat.strongRecOn generalizing tokens with
  | ind n ih =>
    constructor
    · intro a
      unfold readEntries
      split
      · exact .error (by simp)
      · next t rest =>
        split
        · exact .ok
        · exact .error (by simp)
        · exact (ih _ (by simp at hn; omega) rfl).1 _
        · exact (ih _ (by simp at hn; omega) rfl).2 _ _
        · exact .expected (by simp)
        · exact .expected (by simp)
        · exact .expected (by simp)
    · intro key a
      unfold readValues
      split
      · exact .error (by simp)
      · next t rest =>
        split
        · exact (ih _ (by simp at hn; omega) rfl).1 _
        · exact (ih _ (by simp at hn; omega) rfl).2 _ _
        · exact .expected (by simp)

/-- The reader of a block wants nothing that a relation line does. -/
theorem worded_block? : Worded (block? line tokens) := by
  refine .bind worded_takeTarget fun _ _ => ?_
  refine .bind (worded_takeMark (by decide)) fun _ _ => ?_
  exact .bind (worded_readEntries_and_readValues.1 ∅) fun _ _ => .ok

/-- The word of a token is read exactly if the token is one. -/
theorem word_eq_ok_iff {t : Token} {text : String} : word t = .ok text ↔ t.kind = .word text :=
  ⟨word_eq_ok, fun h => by rw [word, h]⟩

/-- A line that holds nothing but words lacks none. -/
theorem worded_tuple? (h : ∀ t ∈ tokens, ∃ text, t.kind = .word text) :
    Worded (tuple? config line tokens) := by
  have hword : ∀ t ∈ tokens, Worded (word t) := by
    intro t ht
    obtain ⟨text, hkind⟩ := h t ht
    rw [word_eq_ok_iff.2 hkind]
    exact .ok
  unfold tuple?
  split
  · next t₁ t₂ t₃ =>
    refine .bind (hword t₁ (by simp)) fun relation _ => ?_
    refine .bind (hword t₂ (by simp)) fun first _ => ?_
    refine .bind (hword t₃ (by simp)) fun second _ => ?_
    split
    · split
      · exact .error (by simp)
      · exact .ok
    · split
      · exact .error (by simp)
      · exact .ok
  · exact .error (by simp)

end

end Statement

namespace Document

namespace Progress

section
variable {config : Config} {p : Progress} {text : List Char}

/-- A header wants no words at all. -/
theorem worded_enter (header : Header) : Worded (enter p header) := by
  cases header with
  | scheme =>
    rw [enter]
    split
    · exact .error (by simp)
    · exact .ok
  | tuples => exact .ok
  | attributes =>
    rw [enter]
    split
    · exact .ok
    · exact .error (by simp)

/-- The scanner fails for the want of a closing quote only. -/
theorem worded_mapError_unterminatedString {α : Type} {x : Except Nat α} :
    Worded (x.mapError .unterminatedString) := by
  rintro found h
  obtain ⟨_, -, hproblem⟩ := mapError_eq_error_iff.1 h
  cases hproblem

/-- The lines of relations are read without marks, and all others want no words of them. -/
theorem worded_readBody : Worded (readBody config p text) := by
  rw [readBody]
  -- the line stands before all sections, or in one of a scheme, of relations or of attributes
  rcases p.current with _ | _ | _ | _
  · simp only [reduceCtorEq, if_false]
    exact .bind worded_mapError_unterminatedString fun _ _ => .ok
  · simp only [reduceCtorEq, Option.some.injEq, if_false, if_true]
    exact .ok
  · simp only [reduceCtorEq, Option.some.injEq, if_false]
    refine .bind worded_mapError_unterminatedString fun tokens htokens => ?_
    split
    · exact .ok
    · refine .bind (Statement.worded_tuple? fun t ht => ?_) fun _ _ => .ok
      have hstarts := Token.startIn_scan (mapError_eq_ok_iff.1 htokens)
      exact hstarts.exists_word ht
  · simp only [reduceCtorEq, Option.some.injEq, if_false, if_true]
    refine .bind worded_mapError_unterminatedString fun tokens htokens => ?_
    split
    · exact .ok
    · exact .bind Statement.worded_block? fun _ _ => .ok

/-- No line is refused for the want of a word of a relation line. -/
theorem worded_readLine : Worded (readLine config p text) := by
  rw [readLine]
  split
  · refine .bind (worded_enter _) fun _ _ => ?_
    exact .bind worded_mapError_unterminatedString fun _ _ => .ok
  · exact worded_readBody

end

end Progress

/-- No text is refused with the message for the want of a word of a relation line. -/
theorem parse_ne_expected_word {config : Config} {text : String} (line : Nat)
    (found : Option Token) :
    parse config text ≠ .error (.format line (LineProblem.expected .word found).message) := by
  intro h
  rcases parse_eq_error_iff.1 h with ⟨_, -, -, herror⟩ | herror
  · obtain ⟨_, hmissing⟩ :=
      LineProblem.exists_of_message_eq (FactError.format.inj herror).2.symm
    cases hmissing
  · obtain ⟨_, l, _, p, -, -, hnext⟩ := foldlM_eq_error_iff.1 herror
    obtain ⟨problem, hproblem, herror⟩ := mapError_eq_error_iff.1 hnext
    obtain ⟨found', rfl⟩ := LineProblem.exists_of_message_eq (FactError.format.inj herror).2
    exact Progress.worded_readLine found' hproblem

/-- **Positions are faithful.** The tokens of a line that is read start at increasing columns of the
line, each outside of comments: a mark at its own character, in the mode that has marks, and a word
at its first character or at a quote that opens, which is not blank. Comments are what is read as
spaces: each character is kept that is outside of them. Without marks all tokens are words, and no
text is refused because a relation line has a mark in the place of a word. -/
theorem positions_faithful :
    (∀ (mode : LexMode) (inComment : Bool) (line : Nat) (text : List Char) (tokens : List Token),
      (Token.scan mode inComment line text).tokens = .ok tokens →
        tokens.Pairwise (·.column < ·.column) ∧
        (∀ t ∈ tokens, 1 ≤ t.column ∧ t.column ≤ text.length ∧
          ∃ c, text[t.column - 1]? = some c ∧
            (Token.regionsOf inComment text)[t.column - 1]? = some (c, .plain) ∧
            t.kind.StartsWith mode c) ∧
        (mode = .words → ∀ t ∈ tokens, ∃ word, t.kind = .word word ∧
          Statement.word t = .ok word)) ∧
    (∀ (inComment : Bool) (text : List Char),
      (Token.blankFrom (if inComment then .comment else .plain) text).text =
        (Token.regionsOf inComment text).map fun x => if x.2 = .comment then ' ' else x.1) ∧
    ∀ (config : Config) (text : String) (line : Nat) (found : Option Token),
      parse config text ≠ .error (.format line (LineProblem.expected .word found).message) := by
  refine ⟨fun mode inComment line text tokens h => ?_, fun _ => Token.text_blankFrom _,
    fun _ _ => parse_ne_expected_word⟩
  have hstarts := Token.startIn_scan h
  refine ⟨hstarts.increasing, fun t ht => hstarts.exists_getElem? ht, ?_⟩
  rintro rfl t ht
  obtain ⟨word, hkind⟩ := hstarts.exists_word ht
  exact ⟨word, hkind, Statement.word_eq_ok_iff.2 hkind⟩

/-- A line that begins inside a comment, with a word of bare and quoted pieces. -/
def mixedLine : List Char := "*/ a\"b \\\"c\"d\x7b\"\" =//z".toList

def mixedTokens : List Token :=
  [⟨.word "ab \"cd", 7, 4⟩, ⟨.openBrace, 7, 13⟩, ⟨.word "", 7, 14⟩, ⟨.equals, 7, 17⟩]

theorem positions_faithful_mixed :
    (Token.scan .punctuated true 7 mixedLine).tokens = .ok mixedTokens ∧
    mixedTokens.Pairwise (·.column < ·.column) ∧
    (∀ t ∈ mixedTokens, ∃ c, mixedLine[t.column - 1]? = some c ∧
      (Token.regionsOf true mixedLine)[t.column - 1]? = some (c, .plain) ∧
      t.kind.StartsWith .punctuated c) ∧
    (Token.blankFrom .comment mixedLine).text = "   a\"b \\\"c\"d\x7b\"\" =   ".toList := by
  have h : (Token.scan .punctuated true 7 mixedLine).tokens = .ok mixedTokens := by decide +kernel
  obtain ⟨hincreasing, hstarts, -⟩ := positions_faithful.1 _ _ _ _ _ h
  refine ⟨h, hincreasing, fun t ht => (hstarts t ht).2.2, ?_⟩
  exact (positions_faithful.2.1 true mixedLine).trans (by decide +kernel)

end Document

end ArchFacts
