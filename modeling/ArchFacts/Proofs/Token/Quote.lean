import ArchFacts.Proofs.Except
import ArchFacts.Proofs.Token.Scan
import Mathlib.Algebra.GroupWithZero.Nat

/-!
# Quotes where they are needed

Words that are written down (`Token.quote`) with a space between each two are read back as these
words, in every mode (`exists_scan_quotes`). Quotes are written only around words that need them. A
word never has more characters than are read for it, and as many only if none of them is a blank, a
mark, a quote or part of a comment (`wordLength_scanFrom_le`, `wordLength_scanFrom_lt`); so a word
that is read back as it stands is one that is written without quotes. Both together are
`quote_exact`.
-/

namespace ArchFacts

namespace Token

/-! ## Words in a row -/

/-- Some texts with a space between each two: all but the last have a space after them. -/
theorem intercalate_concat (texts : List (List Char)) (text : List Char) :
    [' '].intercalate (texts ++ [text]) = texts.flatMap (· ++ [' ']) ++ text := by
  induction texts with
  | nil => simp
  | cons t texts ih =>
    rw [List.cons_append, List.intercalate_cons_of_ne_nil (by simp), ih, List.flatMap_cons,
      List.append_assoc, List.append_assoc, List.append_assoc]

/-- Words that are written with a space between each two are read as these words. -/
theorem exists_scan_quotes (mode : LexMode) (line : Nat) (words : List String) :
    ∃ tokens : List Token, tokens.map (·.kind) = words.map .word ∧
      scan mode false line ([' '].intercalate (words.map fun w => quote w.toList)) =
        { tokens := .ok tokens, inComment := false } := by
  rcases List.eq_nil_or_concat words with rfl | ⟨words, last, rfl⟩
  · exact ⟨[], rfl, rfl⟩
  · have hwords : ∀ kind ∈ words.map TokenKind.word, mode.Knows kind := by simp [LexMode.Knows]
    have hlast : mode.Knows (.word last) := .inr ⟨last, rfl⟩
    obtain ⟨tokens, hkinds, hscan⟩ := exists_scanFrom_written line 1 hwords hlast
    refine ⟨tokens, by simpa using hkinds, ?_⟩
    rw [List.concat_eq_append, List.map_append, List.map_singleton, intercalate_concat, scan,
      ← hscan, List.flatMap_map, List.flatMap_map]
    rfl

/-! ## How long words are -/

/-- The number of characters of a word; a mark has none. -/
def wordLength (t : Token) : Nat :=
  match t.kind with
  | .word text => text.length
  | _ => 0

/-- The number of characters that have been read of the word at a place. -/
def Place.wordLength : Place → Nat
  | .comment => 0
  | .plain word? => word?.elim 0 (·.text.length)
  | .quoted word _ => word.text.length

section
variable {mode : LexMode} {line column : Nat} {word? : Option OpenWord} {s : Scan} {t : Token}
variable {tokens : List Token} {chars rest : List Char}

@[simp] theorem wordLength_comment : Place.comment.wordLength = 0 := rfl

@[simp] theorem wordLength_plain_none : (Place.plain none).wordLength = 0 := rfl

@[simp] theorem wordLength_plain_some (w : OpenWord) :
    (Place.plain (some w)).wordLength = w.text.length := rfl

@[simp] theorem wordLength_quoted (w : OpenWord) (opened : Nat) :
    (Place.quoted w opened).wordLength = w.text.length := rfl

/-- A word that begins here has no characters yet. -/
@[simp] theorem length_text_getD :
    (word?.getD ⟨column, ""⟩).text.length = (Place.plain word?).wordLength := by
  cases word? <;> rfl

theorem exists_of_tokens_cons (h : (s.cons t).tokens = .ok tokens) :
    ∃ rest, s.tokens = .ok rest ∧ tokens = t :: rest := by
  obtain ⟨rest, hrest, rfl⟩ := map_eq_ok_iff.1 h
  exact ⟨rest, hrest, rfl⟩

/-- A word that ends has the characters that have been read of it. -/
theorem exists_of_tokens_consWord (h : (s.consWord line word?).tokens = .ok tokens) :
    ∃ rest, s.tokens = .ok rest ∧ (tokens.map wordLength).sum =
      (Place.plain word?).wordLength + (rest.map wordLength).sum := by
  cases word? with
  | none => exact ⟨tokens, h, by simp⟩
  | some w =>
    obtain ⟨rest, hrest, rfl⟩ := exists_of_tokens_cons h
    exact ⟨rest, hrest, rfl⟩

/-- A mark is no character of a word. -/
theorem wordLength_of_punctuation {c : Char} {kind : TokenKind}
    (h : TokenKind.ofPunctuation? c = some kind) : wordLength ⟨kind, line, column⟩ = 0 := by
  unfold TokenKind.ofPunctuation? at h
  split at h <;> cases h <;> rfl

/-- Only characters that are marks anywhere are marks in a mode. -/
theorem ofPunctuation?_of_punctuation? {c : Char} {kind : TokenKind}
    (h : mode.punctuation? c = some kind) : TokenKind.ofPunctuation? c = some kind := by
  cases mode with
  | words => cases h
  | punctuated => exact h

/-- Words have at most as many characters as are read for them. -/
theorem wordLength_scanFrom_le {place : Place}
    (h : (scanFrom mode line place column chars).tokens = .ok tokens) :
    (tokens.map wordLength).sum ≤ place.wordLength + chars.length := by
  fun_induction scanFrom mode line place column chars generalizing tokens with
  | case1 =>
    cases h
    simp
  | case2 column rest ih =>
    have := ih h
    simp only [wordLength_comment, wordLength_plain_none, List.length_cons] at this ⊢
    omega
  | case3 column c rest hend ih =>
    have := ih h
    simp only [wordLength_comment, List.length_cons] at this ⊢
    omega
  | case4 word? column =>
    obtain ⟨rest, hrest, hsum⟩ := exists_of_tokens_consWord h
    cases hrest
    simp [hsum]
  | case5 word? column c rest hline =>
    obtain ⟨rest, hrest, hsum⟩ := exists_of_tokens_consWord h
    cases hrest
    simp [hsum]
  | case6 word? column rest hline ih =>
    obtain ⟨tokens, htokens, hsum⟩ := exists_of_tokens_consWord h
    have := ih htokens
    simp only [wordLength_comment, List.length_cons] at this ⊢
    omega
  | case7 word? column rest hline ih =>
    have := ih h
    simp only [wordLength_quoted, length_text_getD, List.length_cons] at this ⊢
    omega
  | case8 word? column c rest hcomment hquote hblank hline ih =>
    obtain ⟨tokens, htokens, hsum⟩ := exists_of_tokens_consWord h
    have := ih htokens
    simp only [wordLength_plain_none, List.length_cons] at this ⊢
    omega
  | case9 word? column c rest hcomment hquote hblank kind hkind hline ih =>
    obtain ⟨_, hcons, hsum⟩ := exists_of_tokens_consWord h
    obtain ⟨tokens, htokens, rfl⟩ := exists_of_tokens_cons hcons
    have := ih htokens
    simp only [wordLength_plain_none, List.map_cons, List.sum_cons, List.length_cons,
      wordLength_of_punctuation (ofPunctuation?_of_punctuation? hkind)] at this hsum ⊢
    omega
  | case10 word? column c rest hcomment hquote hblank hkind word word' hline =>
    rename_i ih
    have := ih h
    simp only [word', word, wordLength_plain_some, String.length_push, length_text_getD,
      List.length_cons] at this ⊢
    omega
  | case11 => cases h
  | case12 word opened column rest ih =>
    have := ih h
    simp only [wordLength_plain_some, wordLength_quoted, List.length_cons] at this ⊢
    omega
  | case13 word opened column e rest c hescape ih =>
    have := ih h
    simp only [wordLength_quoted, String.length_push, List.length_cons] at this ⊢
    omega
  | case14 word opened column e rest hescape ih =>
    have := ih h
    simp only [wordLength_quoted, String.length_push, List.length_cons] at this ⊢
    omega
  | case15 word opened column c rest hquote hescape ih =>
    have := ih h
    simp only [wordLength_quoted, String.length_push, List.length_cons] at this ⊢
    omega

/-- A blank, a mark, a quote or the start of a comment is no character of a word. -/
theorem wordLength_scanFrom_cons_lt {c : Char}
    (h : (scanFrom .punctuated line (.plain word?) column (c :: chars)).tokens = .ok tokens)
    (hc : isSpecial c = true ∨
      c = '/' ∧ (chars.head? = some '/' ∨ chars.head? = some '*')) :
    (tokens.map wordLength).sum < (Place.plain word?).wordLength + (c :: chars).length := by
  simp only [isSpecial, Bool.or_eq_true, decide_eq_true_eq, Option.isSome_iff_exists] at hc
  rw [List.length_cons]
  rcases hc with ((hblank | ⟨kind, hkind⟩) | rfl) | ⟨rfl, hhead | hhead⟩
  · rw [scanFrom_blank hblank] at h
    obtain ⟨rest, hrest, hsum⟩ := exists_of_tokens_consWord h
    have := wordLength_scanFrom_le hrest
    simp only [wordLength_plain_none] at this
    omega
  · rw [scanFrom_mark hkind] at h
    obtain ⟨_, hcons, hsum⟩ := exists_of_tokens_consWord h
    obtain ⟨rest, hrest, rfl⟩ := exists_of_tokens_cons hcons
    have := wordLength_scanFrom_le hrest
    simp only [wordLength_plain_none, List.map_cons, List.sum_cons,
      wordLength_of_punctuation hkind] at this hsum
    omega
  · rw [scanFrom_openQuote] at h
    have := wordLength_scanFrom_le h
    simp only [wordLength_quoted, length_text_getD] at this
    omega
  · obtain ⟨rest, rfl⟩ := List.head?_eq_some_iff.1 hhead
    rw [scanFrom_slashes] at h
    obtain ⟨tokens, htokens, hsum⟩ := exists_of_tokens_consWord h
    cases htokens
    simp only [List.map_nil, List.sum_nil] at hsum
    omega
  · obtain ⟨rest, rfl⟩ := List.head?_eq_some_iff.1 hhead
    rw [scanFrom_slashStar] at h
    obtain ⟨tokens, htokens, hsum⟩ := exists_of_tokens_consWord h
    have := wordLength_scanFrom_le htokens
    simp only [wordLength_comment, List.length_cons] at this ⊢
    omega

/-- A text in which not every character is one of a word has fewer characters in words. -/
theorem wordLength_scanFrom_lt
    (h : (scanFrom .punctuated line (.plain word?) column chars).tokens = .ok tokens)
    (hchars : chars.any isSpecial = true ∨ hasCommentMark chars = true) :
    (tokens.map wordLength).sum < (Place.plain word?).wordLength + chars.length := by
  induction chars generalizing word? column with
  | nil => simp [hasCommentMark] at hchars
  | cons c cs ih =>
    by_cases hc : isSpecial c = true ∨ c = '/' ∧ (cs.head? = some '/' ∨ cs.head? = some '*')
    · exact wordLength_scanFrom_cons_lt h hc
    · -- the first character is one of a word, so another is not
      rw [not_or, Bool.not_eq_true, not_and, not_or] at hc
      have hcs : cs.any isSpecial = true ∨ hasCommentMark cs = true := by
        refine hchars.imp (fun hany => by simpa [hc.1] using hany) fun hmark => ?_
        rw [hasCommentMark, Bool.or_eq_true, Bool.and_eq_true, Bool.or_eq_true] at hmark
        simp only [decide_eq_true_eq] at hmark
        exact hmark.resolve_left fun hstart => hstart.2.elim (hc.2 hstart.1).1 (hc.2 hstart.1).2
      rw [scanFrom_char hc.1 hc.2] at h
      have := ih h hcs
      simp only [wordLength_plain_some, String.length_push, length_text_getD] at this
      rw [List.length_cons]
      omega

end

/-- A word that is written without quotes is read as it stands. -/
theorem scan_of_not_needsQuoting {w : String} (line : Nat) (h : needsQuoting w.toList = false) :
    scan .punctuated false line w.toList =
      { tokens := .ok [⟨.word w, line, 1⟩], inComment := false } := by
  have hknows : LexMode.punctuated.Knows (.word w) := .inl rfl
  have hwritten := scanFrom_written line 1 hknows
  rwa [TokenKind.written, quote, if_neg (by simp [h])] at hwritten

/-- A word that is read as it stands is written without quotes. -/
theorem needsQuoting_of_scan {w : String} {line : Nat} {t : Token} (hkind : t.kind = .word w)
    (h : (scan .punctuated false line w.toList).tokens = .ok [t]) :
    needsQuoting w.toList = false := by
  refine Bool.eq_false_iff.2 fun hneeds => ?_
  rw [needsQuoting, Bool.or_assoc, Bool.or_eq_true, List.isEmpty_iff, Bool.or_eq_true] at hneeds
  rcases hneeds with hempty | hchars
  · rw [hempty] at h
    cases h
  · have hlt := wordLength_scanFrom_lt h hchars
    simp [wordLength, hkind, String.length_toList] at hlt

/-- **Quoting is correct and minimal.** Words that are written with a space between each two are
read back, in order, without an error and with no comment left open, in both modes. And a word is
written without quotes exactly if its bare text is read as this one word where there are marks,
without an error and with no comment left open. -/
theorem quote_exact (line : Nat) :
    (∀ (mode : LexMode) (words : List String), ∃ tokens : List Token,
      tokens.map (·.kind) = words.map .word ∧
      scan mode false line ([' '].intercalate (words.map fun w => quote w.toList)) =
        { tokens := .ok tokens, inComment := false }) ∧
    ∀ w : String, needsQuoting w.toList = false ↔ ∃ t : Token, t.kind = .word w ∧
      scan .punctuated false line w.toList = { tokens := .ok [t], inComment := false } := by
  refine ⟨fun mode words => exists_scan_quotes mode line words, fun w => ⟨fun h => ?_, ?_⟩⟩
  · exact ⟨_, rfl, scan_of_not_needsQuoting line h⟩
  · rintro ⟨t, hkind, hscan⟩
    exact needsQuoting_of_scan hkind (by rw [hscan])

end Token

end ArchFacts
