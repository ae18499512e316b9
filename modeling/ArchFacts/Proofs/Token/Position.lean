import ArchFacts.Proofs.Token.Comment

/-!
# Where tokens start

`regionsFrom` says of each character of a line what it is part of, as `blankFrom` does when it puts
spaces in the place of comments (`text_blankFrom`). The tokens of a line are read side by side with
it: at each place of the line, the first token is the word that is open there, if there is one, and
all others start in what is left, in increasing order, each at a plain character with which a token
of its kind can start (`exists_startIn_scanFrom`). For a whole line this is `startIn_scan`.
-/

namespace ArchFacts

/-- Whether a token of this kind can start with a character: a word with a character that is not
blank, be it its own first one or a quote, and a mark with itself, where there are marks. -/
def TokenKind.StartsWith (mode : LexMode) (c : Char) : TokenKind → Prop
  | word text => Text.isBlank c = false ∧ (text.toList.head? = some c ∨ c = '"')
  | kind => mode = .punctuated ∧ ofPunctuation? c = some kind

namespace Token

/-! ## Regions of a line -/

/-- The characters of a part of a line, to its end, each with what it is part of. The quote that
opens a quoted text is still plain, the one that closes it is not. -/
def regionsFrom : Region → List Char → List (Char × Region)
  | _, [] => []
  | .comment, '*' :: '/' :: rest => ('*', .comment) :: ('/', .comment) :: regionsFrom .plain rest
  | .comment, c :: rest => (c, .comment) :: regionsFrom .comment rest
  | .plain, '/' :: '/' :: rest => ('/', .comment) :: ('/', .comment) :: rest.map (·, .comment)
  | .plain, '/' :: '*' :: rest => ('/', .comment) :: ('*', .comment) :: regionsFrom .comment rest
  | .plain, '"' :: rest => ('"', .plain) :: regionsFrom .quoted rest
  | .plain, c :: rest => (c, .plain) :: regionsFrom .plain rest
  | .quoted, '"' :: rest => ('"', .quoted) :: regionsFrom .plain rest
  | .quoted, '\\' :: e :: rest => ('\\', .quoted) :: (e, .quoted) :: regionsFrom .quoted rest
  | .quoted, c :: rest => (c, .quoted) :: regionsFrom .quoted rest

section
variable {mode : LexMode} {line column : Nat} {word? : Option OpenWord} {c : Char}
variable {chars rest : List Char} {region : Region}

theorem map_fst_regionsFrom (region : Region) (chars : List Char) :
    (regionsFrom region chars).map Prod.fst = chars := by
  fun_induction regionsFrom region chars with
  | case1 => rfl
  | case4 rest => simp [Function.comp_def]
  | _ => simp_all

/-- Blanking makes spaces of the characters of comments, and keeps all others. -/
theorem text_blankFrom (region : Region) (chars : List Char) :
    (blankFrom region chars).text =
      (regionsFrom region chars).map fun x => if x.2 = .comment then ' ' else x.1 := by
  fun_induction blankFrom region chars with
  | case5 rest => simp [regionsFrom, spaces, List.replicate_succ, Function.comp_def]
  | _ => simp_all [regionsFrom, Blanked.prepend, spaces]

/-- A character of a comment that does not end it. -/
theorem regionsFrom_comment (hend : ∀ rest', c = '*' → rest = '/' :: rest' → False) :
    regionsFrom .comment (c :: rest) = (c, .comment) :: regionsFrom .comment rest := by
  rw [regionsFrom]
  exact hend

/-- A character that begins neither a comment nor a quoted text. -/
theorem regionsFrom_plain (hline : ¬ startsLineComment c rest = true)
    (hcomment : ∀ rest', c = '/' → rest = '*' :: rest' → False) (hquote : c ≠ '"') :
    regionsFrom .plain (c :: rest) = (c, .plain) :: regionsFrom .plain rest := by
  rw [regionsFrom]
  · rintro _ rfl rfl
    exact hline rfl
  · exact hcomment
  · exact hquote

/-- A character that neither ends a quoted text nor begins an escape. -/
theorem regionsFrom_quoted (hquote : c ≠ '"')
    (hescape : ∀ e rest', c = '\\' → rest = e :: rest' → False) :
    regionsFrom .quoted (c :: rest) = (c, .quoted) :: regionsFrom .quoted rest := by
  rw [regionsFrom]
  · exact hquote
  · exact hescape

/-- A backslash that is read as itself. -/
theorem regionsFrom_backslash {e : Char} (h : unescape? e = none) :
    regionsFrom .quoted ('\\' :: e :: rest) =
      ('\\', .quoted) :: regionsFrom .quoted (e :: rest) := by
  obtain ⟨hquote, hbackslash⟩ := ne_of_unescape?_eq_none h
  rw [regionsFrom_quoted hquote fun _ _ he => absurd he hbackslash]
  rfl

/-! ## Tokens that start in a part of a line -/

/-- Whether tokens start in a part of a line that begins at a column: in increasing order, and each
at a plain character with which a token of its kind can start. -/
structure StartIn (mode : LexMode) (column : Nat) (part : List (Char × Region))
    (tokens : List Token) : Prop where
  increasing : tokens.Pairwise (·.column < ·.column)
  starts : ∀ t ∈ tokens, column ≤ t.column ∧
    ∃ c, part[t.column - column]? = some (c, .plain) ∧ t.kind.StartsWith mode c

namespace StartIn

variable {tokens : List Token} {part : List (Char × Region)} {t : Token}

theorem nil : StartIn mode column part [] := ⟨.nil, nofun⟩

/-- Characters before a part of a line in which no token starts. -/
theorem append (before : List (Char × Region))
    (h : StartIn mode (column + before.length) part tokens) :
    StartIn mode column (before ++ part) tokens := by
  refine ⟨h.increasing, fun t ht => ?_⟩
  obtain ⟨hcolumn, c, hc, hstart⟩ := h.starts t ht
  refine ⟨by omega, c, ?_, hstart⟩
  rw [List.getElem?_append_right (by omega), Nat.sub_sub, hc]

/-- A token that starts with the first character of a part of a line. -/
theorem cons (h : StartIn mode (column + 1) part tokens) (hcolumn : t.column = column)
    (hc : t.kind.StartsWith mode c) : StartIn mode column ((c, .plain) :: part) (t :: tokens) := by
  refine ⟨List.pairwise_cons.2 ⟨fun t' ht' => ?_, h.increasing⟩,
    List.forall_mem_cons.2 ⟨⟨by omega, c, ?_, hc⟩, ?_⟩⟩
  · have := (h.starts t' ht').1
    omega
  · rw [hcolumn, Nat.sub_self]
    rfl
  · exact (append [(c, .plain)] h).starts

end StartIn

end

/-- The word at a place. -/
def Place.word? : Place → Option OpenWord
  | comment => none
  | plain word? => word?
  | quoted word _ => some word

/-- Whether tokens are the word that has begun, if there is one, and `rest`. -/
def Completes (line : Nat) (word? : Option OpenWord) (rest tokens : List Token) : Prop :=
  match word? with
  | none => tokens = rest
  | some w => ∃ more, tokens = ⟨.word (w.text ++ more), line, w.column⟩ :: rest

section
variable {mode : LexMode} {line column : Nat} {word? : Option OpenWord} {c : Char}
variable {tokens rest : List Token} {w : OpenWord} {part : List (Char × Region)}

/-- A word that ends here. -/
theorem completes_of_consWord {s : Scan} (h : (s.consWord line word?).tokens = .ok tokens) :
    ∃ rest, s.tokens = .ok rest ∧ Completes line word? rest tokens := by
  cases word? with
  | none => exact ⟨tokens, h, rfl⟩
  | some w =>
    obtain ⟨rest, hrest, rfl⟩ := exists_of_tokens_cons h
    exact ⟨rest, hrest, "", by rw [String.append_empty]⟩

/-- A word of which more has been read. -/
theorem Completes.of_read {read : String}
    (h : Completes line (some { w with text := w.text ++ read }) rest tokens) :
    Completes line (some w) rest tokens := by
  obtain ⟨more, rfl⟩ := h
  exact ⟨read ++ more, by rw [String.append_assoc]⟩

theorem Completes.of_push
    (h : Completes line (some { w with text := w.text.push c }) rest tokens) :
    Completes line (some w) rest tokens :=
  .of_read (String.append_singleton ▸ h)

/-- The first character read of a word, or the quote before it: the word starts here if none has
begun before. -/
theorem Completes.start (read : String) (hblank : Text.isBlank c = false)
    (hread : read.toList = [c] ∨ c = '"')
    (h : Completes line (some { word?.getD ⟨column, ""⟩ with
      text := (word?.getD ⟨column, ""⟩).text ++ read }) rest tokens)
    (hrest : StartIn mode (column + 1) part rest) :
    ∃ rest', Completes line word? rest' tokens ∧
      StartIn mode column ((c, .plain) :: part) rest' := by
  cases word? with
  | some w => exact ⟨rest, h.of_read, .append [(c, .plain)] hrest⟩
  | none =>
    obtain ⟨more, rfl⟩ := h
    refine ⟨_, rfl, hrest.cons rfl ⟨hblank, hread.imp_left fun hread => ?_⟩⟩
    simp [hread]

/-- A mark starts with itself, in the mode that has marks. -/
theorem startsWith_of_punctuation? {kind : TokenKind} (hkind : mode.punctuation? c = some kind) :
    kind.StartsWith mode c := by
  cases mode with
  | words => cases hkind
  | punctuated =>
    have hmark : TokenKind.ofPunctuation? c = some kind := hkind
    cases kind with
    | word text => simp [TokenKind.ofPunctuation?] at hmark; split at hmark <;> cases hmark
    | _ => exact ⟨rfl, hmark⟩

/-- From a place on, the first token is the word that has begun there, if there is one, and all
others start in what is left of the line. -/
theorem exists_startIn_scanFrom {place : Place} {chars : List Char}
    (h : (scanFrom mode line place column chars).tokens = .ok tokens) :
    ∃ rest, Completes line place.word? rest tokens ∧
      StartIn mode column (regionsFrom place.region chars) rest := by
  fun_induction scanFrom mode line place column chars generalizing tokens with
  | case1 =>
    cases h
    exact ⟨[], rfl, .nil⟩
  | case2 column rest ih =>
    obtain ⟨starts, hword, hstarts⟩ := ih h
    exact ⟨starts, hword, hstarts.append [('*', .comment), ('/', .comment)]⟩
  | case3 column c rest hend ih =>
    obtain ⟨starts, hword, hstarts⟩ := ih h
    refine ⟨starts, hword, ?_⟩
    rw [Place.region, regionsFrom_comment hend]
    exact hstarts.append [(c, .comment)]
  | case4 word? column | case5 word? column c rest hline =>
    obtain ⟨starts, hempty, hword⟩ := completes_of_consWord h
    cases hempty
    exact ⟨[], hword, .nil⟩
  | case6 word? column rest hline ih =>
    obtain ⟨tokens', htokens, hword⟩ := completes_of_consWord h
    obtain ⟨starts, rfl, hstarts⟩ := ih htokens
    exact ⟨_, hword, hstarts.append [('/', .comment), ('*', .comment)]⟩
  | case7 word? column rest hline ih =>
    obtain ⟨starts, hword, hstarts⟩ := ih h
    -- the quote adds nothing to the word, but begins it if there is none
    refine Completes.start "" (by decide) (.inr rfl) ?_ hstarts
    rw [String.append_empty]
    exact hword
  | case8 word? column c rest hcomment hquote hblank hline ih =>
    obtain ⟨tokens', htokens, hword⟩ := completes_of_consWord h
    obtain ⟨starts, rfl, hstarts⟩ := ih htokens
    refine ⟨_, hword, ?_⟩
    rw [Place.region, regionsFrom_plain hline hcomment hquote]
    exact hstarts.append [(c, .plain)]
  | case9 word? column c rest hcomment hquote hblank kind hkind hline ih =>
    obtain ⟨_, hcons, hword⟩ := completes_of_consWord h
    obtain ⟨tokens', htokens, rfl⟩ := exists_of_tokens_cons hcons
    obtain ⟨starts, rfl, hstarts⟩ := ih htokens
    refine ⟨_, hword, ?_⟩
    rw [Place.region, regionsFrom_plain hline hcomment hquote]
    exact hstarts.cons rfl (startsWith_of_punctuation? hkind)
  | case10 word? column c rest hcomment hquote hblank hkind word word' hline =>
    rename_i ih
    obtain ⟨starts, hword, hstarts⟩ := ih h
    rw [Place.region, regionsFrom_plain hline hcomment hquote]
    refine Completes.start (.singleton c) (Bool.eq_false_iff.2 hblank)
      (.inl (String.toList_singleton c)) ?_ hstarts
    rw [String.append_singleton]
    exact hword
  | case11 => cases h
  | case12 word opened column rest ih =>
    obtain ⟨starts, hword, hstarts⟩ := ih h
    exact ⟨starts, hword, hstarts.append [('"', .quoted)]⟩
  | case13 word opened column e rest c hescape ih =>
    obtain ⟨starts, hword, hstarts⟩ := ih h
    exact ⟨starts, hword.of_push, hstarts.append [('\\', .quoted), (e, .quoted)]⟩
  | case14 word opened column e rest hescape ih =>
    obtain ⟨starts, hword, hstarts⟩ := ih h
    refine ⟨starts, hword.of_push, ?_⟩
    rw [Place.region, regionsFrom_backslash hescape]
    exact hstarts.append [('\\', .quoted)]
  | case15 word opened column c rest hquote hescape ih =>
    obtain ⟨starts, hword, hstarts⟩ := ih h
    refine ⟨starts, hword.of_push, ?_⟩
    rw [Place.region, regionsFrom_quoted hquote hescape]
    exact hstarts.append [(c, .quoted)]

/-! ## Tokens of a line -/

/-- The characters of a line, each with what it is part of. -/
def regionsOf (inComment : Bool) (text : List Char) : List (Char × Region) :=
  regionsFrom (if inComment then .comment else .plain) text

theorem startIn_scan {inComment : Bool} {text : List Char}
    (h : (scan mode inComment line text).tokens = .ok tokens) :
    StartIn mode 1 (regionsOf inComment text) tokens := by
  cases inComment <;> (obtain ⟨_, rfl, hstarts⟩ := exists_startIn_scanFrom h; exact hstarts)

namespace StartIn

variable {inComment : Bool} {text : List Char} {t : Token}

/-- A token of a line starts at a character of the line. -/
theorem exists_getElem? (h : StartIn mode 1 (regionsOf inComment text) tokens) (ht : t ∈ tokens) :
    1 ≤ t.column ∧ t.column ≤ text.length ∧ ∃ c, text[t.column - 1]? = some c ∧
      (regionsOf inComment text)[t.column - 1]? = some (c, .plain) ∧ t.kind.StartsWith mode c := by
  obtain ⟨hcolumn, c, hc, hstart⟩ := h.starts t ht
  have htext : text[t.column - 1]? = some c := by
    rw [← map_fst_regionsFrom (if inComment then .comment else .plain) text, List.getElem?_map]
    exact congrArg (Option.map Prod.fst) hc
  obtain ⟨hlt, -⟩ := List.getElem?_eq_some_iff.1 htext
  exact ⟨hcolumn, by omega, c, htext, hc, hstart⟩

/-- Where there are no marks, all tokens are words. -/
theorem exists_word (h : StartIn .words column part tokens) (ht : t ∈ tokens) :
    ∃ text, t.kind = .word text := by
  obtain ⟨-, c, -, hstart⟩ := h.starts t ht
  cases hkind : t.kind with
  | word text => exact ⟨text, rfl⟩
  | _ =>
    rw [hkind] at hstart
    cases hstart.1

end StartIn

end

end Token

end ArchFacts
