import ArchFacts.Token.Quote
import ArchFacts.Token.Scan

/-!
# Written words read back

A word that is written down (`Token.quote`) is read as one token with this word, in every mode of
reading and whatever the word holds (`scanFrom_quote`); between quotes it is a `QuotedText`, which
is read to the quote that closes it. So a line of words and marks with a space after each but the
last is read as the tokens it was written for, and leaves no comment open
(`exists_scanFrom_written`).
-/

namespace ArchFacts

/-- A token as it is written. -/
def TokenKind.written : TokenKind → List Char
  | word text => Token.quote text.toList
  | openBrace => ['{']
  | closeBrace => ['}']
  | openParen => ['(']
  | closeParen => [')']
  | equals => ['=']

/-- Whether a mode of reading knows a token: words always, marks where there are any. -/
def LexMode.Knows (mode : LexMode) (kind : TokenKind) : Prop :=
  mode = .punctuated ∨ ∃ text, kind = .word text

namespace Token

section
variable {mode : LexMode} {line column : Nat} {word? : Option OpenWord} {c : Char}
variable {rest : List Char}

/-! ## Single characters -/

/-- A blank ends the word before it. -/
theorem scanFrom_blank (hc : Text.isBlank c = true) :
    scanFrom mode line (.plain word?) column (c :: rest) =
      .consWord line word? (scanFrom mode line (.plain none) (column + 1) rest) := by
  have hslash : c ≠ '/' := by rintro rfl; exact absurd hc (by decide)
  have hquote : c ≠ '"' := by rintro rfl; exact absurd hc (by decide)
  have hline : ¬ startsLineComment c rest = true := by simp [startsLineComment, hslash]
  rw [scanFrom_plain hquote fun h => absurd h hslash, if_neg hline, if_pos hc]

/-- A mark ends the word before it and is a token of its own, in the mode that has marks. -/
theorem scanFrom_mark {kind : TokenKind} (hk : TokenKind.ofPunctuation? c = some kind) :
    scanFrom .punctuated line (.plain word?) column (c :: rest) =
      .consWord line word?
        (.cons ⟨kind, line, column⟩
          (scanFrom .punctuated line (.plain none) (column + 1) rest)) := by
  have hslash : c ≠ '/' := by rintro rfl; cases hk
  have hquote : c ≠ '"' := by rintro rfl; cases hk
  have hblank : Text.isBlank c = false := by
    unfold TokenKind.ofPunctuation? at hk
    split at hk <;> cases hk <;> decide
  have hline : ¬ startsLineComment c rest = true := by simp [startsLineComment, hslash]
  rw [scanFrom_plain hquote fun h => absurd h hslash, if_neg hline, if_neg (by simp [hblank]),
    LexMode.punctuation?, hk]

/-- Any other character continues a word or begins one, unless it begins a comment. -/
theorem scanFrom_char (hc : isSpecial c = false)
    (hmark : c = '/' → rest.head? ≠ some '/' ∧ rest.head? ≠ some '*') :
    scanFrom mode line (.plain word?) column (c :: rest) =
      scanFrom mode line (.plain (some { word?.getD ⟨column, ""⟩ with
        text := (word?.getD ⟨column, ""⟩).text.push c })) (column + 1) rest := by
  simp only [isSpecial, Bool.or_eq_false_iff, decide_eq_false_iff_not, Option.isSome_eq_false_iff,
    Option.isNone_iff_eq_none] at hc
  obtain ⟨⟨hblank, hpunct⟩, hquote⟩ := hc
  have hkind : mode.punctuation? c = none := by cases mode <;> simp [LexMode.punctuation?, hpunct]
  have hline : startsLineComment c rest = false := by
    rw [startsLineComment, Bool.and_eq_false_iff, decide_eq_false_iff_not, decide_eq_false_iff_not]
    exact (Decidable.em (c = '/')).elim (fun h => .inr (hmark h).1) .inl
  rw [scanFrom_plain hquote fun h => (hmark h).2, if_neg (by simp [hline]),
    if_neg (by simp [hblank]), hkind]

/-- Two slashes end the word before them, and the line. -/
theorem scanFrom_slashes :
    scanFrom mode line (.plain word?) column ('/' :: '/' :: rest) =
      .consWord line word? { tokens := .ok [], inComment := false } := by
  rw [scanFrom_plain (by decide) (by simp), if_pos (by simp [startsLineComment])]

/-- A slash and a star end the word before them and begin a comment. -/
theorem scanFrom_slashStar :
    scanFrom mode line (.plain word?) column ('/' :: '*' :: rest) =
      .consWord line word? (scanFrom mode line .comment (column + 2) rest) := by
  rw [scanFrom, if_neg (by simp [startsLineComment])]

/-- A quote begins a quoted text, which belongs to the word before it if there is one. -/
theorem scanFrom_openQuote :
    scanFrom mode line (.plain word?) column ('"' :: rest) =
      scanFrom mode line (.quoted (word?.getD ⟨column, ""⟩) column) (column + 1) rest := by
  rw [scanFrom, if_neg (by simp [startsLineComment])]

/-- A quote ends a quoted text, and the word goes on. -/
theorem scanFrom_closeQuote {word : OpenWord} {opened : Nat} :
    scanFrom mode line (.quoted word opened) column ('"' :: rest) =
      scanFrom mode line (.plain (some word)) (column + 1) rest := by
  rw [scanFrom.eq_def]
  rfl

/-- A backslash and a character that can be escaped are read as one character. -/
theorem scanFrom_escape {word : OpenWord} {opened : Nat} {e : Char} (h : unescape? e = some c) :
    scanFrom mode line (.quoted word opened) column ('\\' :: e :: rest) =
      scanFrom mode line (.quoted { word with text := word.text.push c } opened) (column + 2)
        rest := by
  rw [scanFrom.eq_def]
  simp only [h]

/-- Any other backslash is read as itself. -/
theorem scanFrom_backslash {word : OpenWord} {opened : Nat} {e : Char} (h : unescape? e = none) :
    scanFrom mode line (.quoted word opened) column ('\\' :: e :: rest) =
      scanFrom mode line (.quoted { word with text := word.text.push '\\' } opened) (column + 1)
        (e :: rest) := by
  rw [scanFrom.eq_def]
  simp only [h]

/-- A character that neither ends a quoted text nor begins an escape is read as itself. -/
theorem scanFrom_quotedChar {word : OpenWord} {opened : Nat} (hquote : c ≠ '"')
    (hescape : ∀ e rest', c = '\\' → rest = e :: rest' → False) :
    scanFrom mode line (.quoted word opened) column (c :: rest) =
      scanFrom mode line (.quoted { word with text := word.text.push c } opened) (column + 1)
        rest := by
  rw [scanFrom]
  · exact hquote
  · exact hescape

/-! ## Quoted texts -/

/-- The text of a word to which characters have been added. -/
theorem push_append_ofList (text : String) (c : Char) (cs : List Char) :
    text.push c ++ String.ofList cs = text ++ String.ofList (c :: cs) := by
  apply String.toList_inj.1
  simp

/-- What stands between two quotes, and the text that it stands for. -/
inductive QuotedText : List Char → List Char → Prop
  | nil : QuotedText [] []
  | char {c : Char} {body text : List Char} (hquote : c ≠ '"') (hbackslash : c ≠ '\\')
    (h : QuotedText body text) : QuotedText (c :: body) (c :: text)
  | escape {e c : Char} {body text : List Char} (he : unescape? e = some c)
    (h : QuotedText body text) : QuotedText ('\\' :: e :: body) (c :: text)
  | backslash {e : Char} {body text : List Char} (he : unescape? e = none)
    (h : QuotedText (e :: body) text) : QuotedText ('\\' :: e :: body) ('\\' :: text)

/-- A quoted text is read to the quote that closes it. -/
theorem QuotedText.scanFrom_eq {body text : List Char} (h : QuotedText body text) {word : OpenWord}
    {opened : Nat} :
    scanFrom mode line (.quoted word opened) column (body ++ '"' :: rest) =
      scanFrom mode line (.plain (some { word with text := word.text ++ String.ofList text }))
        (column + body.length + 1) rest := by
  induction h generalizing word column with
  | nil =>
    rw [List.nil_append, scanFrom_closeQuote]
    simp
  | char hquote hbackslash h ih =>
    rw [List.cons_append, scanFrom_quotedChar hquote fun _ _ hc => absurd hc hbackslash, ih,
      push_append_ofList, List.length_cons]
    congr 1
    omega
  | escape he h ih =>
    rw [List.cons_append, List.cons_append, scanFrom_escape he, ih, push_append_ofList,
      List.length_cons, List.length_cons]
    congr 1
    omega
  | backslash he h ih =>
    rw [List.cons_append, List.cons_append, scanFrom_backslash he, ← List.cons_append, ih,
      push_append_ofList, List.length_cons (a := '\\')]
    congr 1
    omega

/-- What is written for a word between quotes stands for the word. -/
theorem quotedText_escape (cs : List Char) : QuotedText (cs.flatMap escapeChar) cs := by
  induction cs with
  | nil => exact .nil
  | cons c cs ih =>
    rw [List.flatMap_cons]
    unfold escapeChar
    split
    · exact ih.escape rfl
    · exact ih.escape rfl
    · exact ih.escape rfl
    · exact ih.escape rfl
    · next hquote hbackslash _ _ => exact ih.char hquote hbackslash

/-! ## Words -/

/-- A word without quotes is read to its end. -/
theorem scanFrom_bare {word : List Char} (hne : word ≠ []) (hs : word.any isSpecial = false)
    (hm : hasCommentMark word = false)
    (hrest : rest.head? ≠ some '/' ∧ rest.head? ≠ some '*') :
    scanFrom mode line (.plain word?) column (word ++ rest) =
      scanFrom mode line (.plain (some { word?.getD ⟨column, ""⟩ with
        text := (word?.getD ⟨column, ""⟩).text ++ String.ofList word }))
        (column + word.length) rest := by
  induction word generalizing word? column with
  | nil => exact absurd rfl hne
  | cons c cs ih =>
    simp only [List.any_cons, Bool.or_eq_false_iff] at hs
    rw [hasCommentMark, Bool.or_eq_false_iff] at hm
    have hmark : c = '/' → (cs ++ rest).head? ≠ some '/' ∧ (cs ++ rest).head? ≠ some '*' := by
      rintro rfl
      cases cs with
      | nil => exact hrest
      | cons d ds => simpa using hm.1
    rw [List.cons_append, scanFrom_char hs.1 hmark]
    cases cs with
    | nil =>
      rw [List.nil_append, ← push_append_ofList]
      simp
    | cons d ds =>
      rw [ih (by simp) hs.2 hm.2]
      simp only [Option.getD_some, push_append_ofList, List.length_cons]
      congr 1
      omega

/-- A written word is read as itself, if what follows does not make a comment of its end. -/
theorem scanFrom_quote (word : List Char)
    (hrest : rest.head? ≠ some '/' ∧ rest.head? ≠ some '*') :
    scanFrom mode line (.plain none) column (quote word ++ rest) =
      scanFrom mode line (.plain (some ⟨column, String.ofList word⟩))
        (column + (quote word).length) rest := by
  unfold quote
  by_cases hq : needsQuoting word = true
  · rw [if_pos hq, List.cons_append, List.append_assoc, List.singleton_append, scanFrom_openQuote,
      (quotedText_escape word).scanFrom_eq]
    simp only [Option.getD_none, String.empty_append, List.length_cons, List.length_append,
      List.length_nil]
    congr 1
    omega
  · rw [if_neg hq]
    simp only [needsQuoting, Bool.not_eq_true, Bool.or_eq_false_iff] at hq
    obtain ⟨⟨hempty, hs⟩, hm⟩ := hq
    rw [scanFrom_bare (by rintro rfl; simp at hempty) hs hm hrest]
    simp

/-! ## Comments -/

@[simp] theorem inComment_consWord (s : Scan) :
    (Scan.consWord line word? s).inComment = s.inComment := by
  cases word? <;> rfl

/-- A line without quotes in which no comment begins leaves no comment open. -/
theorem inComment_scanFrom {chars : List Char} (hm : hasCommentMark chars = false)
    (hq : '"' ∉ chars) :
    (scanFrom mode line (.plain word?) column chars).inComment = false := by
  induction chars generalizing word? column with
  | nil => simp [scanFrom]
  | cons c cs ih =>
    rw [hasCommentMark, Bool.or_eq_false_iff] at hm
    have hrest : '"' ∉ cs := List.not_mem_of_not_mem_cons hq
    have hquote : c ≠ '"' := Ne.symm (List.ne_of_not_mem_cons hq)
    have hcomment : c = '/' → cs.head? ≠ some '*' := by
      rintro rfl hstar
      simp [hstar] at hm
    rw [scanFrom_plain hquote hcomment]
    split
    · simp
    · split
      · simp [ih hm.2 hrest]
      · split
        · simp [Scan.cons, ih hm.2 hrest]
        · exact ih hm.2 hrest

end

/-! ## Lines -/

section
variable {mode : LexMode} (line column : Nat)

/-- A written token is read as itself, if a space follows. -/
theorem scanFrom_written_space {kind : TokenKind} (hk : mode.Knows kind) (rest : List Char) :
    ∃ column', scanFrom mode line (.plain none) column (kind.written ++ ' ' :: rest) =
      .cons ⟨kind, line, column⟩ (scanFrom mode line (.plain none) column' rest) := by
  have hspace : Text.isBlank ' ' = true := by decide
  cases kind with
  | word text =>
    refine ⟨column + (quote text.toList).length + 1, ?_⟩
    rw [TokenKind.written, scanFrom_quote _ (by simp), scanFrom_blank hspace, String.ofList_toList]
    rfl
  | _ =>
    obtain rfl : mode = .punctuated := hk.resolve_right (by simp)
    refine ⟨column + 1 + 1, ?_⟩
    rw [TokenKind.written, List.singleton_append, scanFrom_mark rfl, scanFrom_blank hspace]
    rfl

/-- A written token is read as itself, if nothing follows. -/
theorem scanFrom_written {kind : TokenKind} (hk : mode.Knows kind) :
    scanFrom mode line (.plain none) column kind.written =
      { tokens := .ok [⟨kind, line, column⟩], inComment := false } := by
  cases kind with
  | word text =>
    rw [TokenKind.written, ← List.append_nil (quote text.toList), scanFrom_quote _ (by simp),
      String.ofList_toList, scanFrom]
    rfl
  | _ =>
    obtain rfl : mode = .punctuated := hk.resolve_right (by simp)
    rw [TokenKind.written, scanFrom_mark rfl, scanFrom]
    rfl

/-- A line of written tokens with a space after each but the last is read as these tokens. -/
theorem exists_scanFrom_written {kinds : List TokenKind} {last : TokenKind}
    (hk : ∀ kind ∈ kinds, mode.Knows kind) (hlast : mode.Knows last) :
    ∃ tokens : List Token, tokens.map (·.kind) = kinds ++ [last] ∧
      scanFrom mode line (.plain none) column
        (kinds.flatMap (fun kind => kind.written ++ [' ']) ++ last.written) =
        { tokens := .ok tokens, inComment := false } := by
  induction kinds generalizing column with
  | nil => exact ⟨[⟨last, line, column⟩], rfl, scanFrom_written line column hlast⟩
  | cons kind kinds ih =>
    obtain ⟨column', h⟩ := scanFrom_written_space line column (hk kind (by simp))
      (kinds.flatMap (fun kind => kind.written ++ [' ']) ++ last.written)
    obtain ⟨tokens, hkinds, htokens⟩ := ih column' fun kind hmem => hk kind (by simp [hmem])
    refine ⟨⟨kind, line, column⟩ :: tokens, by simp [hkinds], ?_⟩
    rw [List.flatMap_cons, List.append_assoc, List.append_assoc, List.singleton_append, h, htokens]
    rfl

end

end Token

end ArchFacts
