import ArchFacts.Proofs.Token.Quote
import Mathlib.Data.List.Forall2
import Mathlib.Data.List.Induction

/-!
# Comments are read as spaces

`blankLines` puts a space in the place of each character of some lines that belongs to a comment. A
line and its blanked form are read side by side: at each place of the line, what is left of it holds
the same tokens as what is left of the blanked form, which never opens a comment
(`readAs_blankFrom`). The only thing to see is that no comment begins in the blanked form, which is
so because each character of it is the one of the line or a space (`head?_blankFrom_plain`). Line by
line, `scanLines_blankLines` follows. `CommentExtent` and `QuotedText` say how far a comment and a
quoted text go; `comments_read_as_spaces` puts all of it together.
-/

namespace ArchFacts

namespace Token

/-! ## Blanking -/

/-- What a character of a line is part of. -/
inductive Region where
  | plain
  | quoted
  | comment
  deriving DecidableEq, Repr

/-- A part of a line, to its end, in which the comments are spaces. -/
structure Blanked where
  text : List Char
  /-- Whether the line leaves a comment open. -/
  inComment : Bool
  deriving DecidableEq, Repr

/-- Characters before a text. -/
def Blanked.prepend (chars : List Char) (b : Blanked) : Blanked :=
  { b with text := chars ++ b.text }

/-- Some spaces in a row. -/
def spaces (n : Nat) : List Char := List.replicate n ' '

/-- Puts a space in the place of each character that belongs to a comment. In a quoted text the
character after a backslash does not end it. -/
def blankFrom : Region → List Char → Blanked
  | .comment, [] => { text := [], inComment := true }
  | .comment, '*' :: '/' :: rest => (blankFrom .plain rest).prepend (spaces 2)
  | .comment, _ :: rest => (blankFrom .comment rest).prepend (spaces 1)
  | _, [] => { text := [], inComment := false }
  | .plain, '/' :: '/' :: rest => { text := spaces (rest.length + 2), inComment := false }
  | .plain, '/' :: '*' :: rest => (blankFrom .comment rest).prepend (spaces 2)
  | .plain, '"' :: rest => (blankFrom .quoted rest).prepend ['"']
  | .plain, c :: rest => (blankFrom .plain rest).prepend [c]
  | .quoted, '"' :: rest => (blankFrom .plain rest).prepend ['"']
  | .quoted, '\\' :: e :: rest => (blankFrom .quoted rest).prepend ['\\', e]
  | .quoted, c :: rest => (blankFrom .quoted rest).prepend [c]

/-- A line and the way it is read. -/
structure Line where
  mode : LexMode
  number : Nat
  text : List Char
  deriving DecidableEq, Repr

/-- What lines hold that are read one after another. -/
def scanLines (inComment : Bool) : List Line → List Scan
  | [] => []
  | l :: lines =>
    let s := scan l.mode inComment l.number l.text
    s :: scanLines s.inComment lines

/-- Lines in which the comments are spaces. -/
def blankLines (inComment : Bool) : List Line → List Line
  | [] => []
  | l :: lines =>
    let b := blankFrom (if inComment then .comment else .plain) l.text
    { l with text := b.text } :: blankLines b.inComment lines

/-! ## Reading a line without its comments -/

/-- What a character at a place is part of. -/
def Place.region : Place → Region
  | comment => .comment
  | plain _ => .plain
  | quoted .. => .quoted

/-- The place at which a line without its comments is read. -/
def Place.blanked : Place → Place
  | comment => plain none
  | place => place

/-- The same tokens, and no comment left open. -/
def Scan.closed (s : Scan) : Scan := { s with inComment := false }

/-- From a place on, a text in which comments are spaces holds the tokens of `s`, which is what the
text with the comments holds, and leaves no comment open. -/
structure Blanked.ReadAs (b : Blanked) (mode : LexMode) (line : Nat) (place : Place) (column : Nat)
    (s : Scan) : Prop where
  scanFrom_eq : scanFrom mode line place column b.text = s.closed
  inComment_eq : b.inComment = s.inComment

section
variable {mode : LexMode} {line column column' : Nat} {word? : Option OpenWord} {c : Char}
variable {place place' : Place} {chars rest : List Char} {b : Blanked} {s : Scan}

@[simp] theorem closed_consWord :
    (Scan.consWord line word? s).closed = .consWord line word? s.closed := by
  cases word? <;> rfl

theorem scanFrom_space : scanFrom mode line (.plain word?) column (' ' :: rest) =
    .consWord line word? (scanFrom mode line (.plain none) (column + 1) rest) :=
  scanFrom_blank (by decide)

namespace Blanked.ReadAs

/-- Spaces end the word before them, and hold nothing else. -/
theorem of_spaces (n : Nat) (inComment : Bool) :
    ReadAs { text := spaces n, inComment } mode line (.plain word?) column
      (.consWord line word? { tokens := .ok [], inComment }) := by
  refine ⟨?_, by simp⟩
  rw [closed_consWord]
  induction n generalizing word? column with
  | zero =>
    rw [spaces, List.replicate_zero, scanFrom]
    rfl
  | succ n ih =>
    rw [spaces, List.replicate_succ, scanFrom_space]
    exact congrArg (Scan.consWord line word?) ih

/-- Characters before a text that hold nothing by themselves. -/
theorem prepend (h : b.ReadAs mode line place' column' s)
    (hchars : scanFrom mode line place column (chars ++ b.text) =
      scanFrom mode line place' column' b.text) :
    (b.prepend chars).ReadAs mode line place column s :=
  ⟨hchars.trans h.scanFrom_eq, h.inComment_eq⟩

/-- Characters before a text that end a word. -/
theorem prepend_consWord (h : b.ReadAs mode line place' column' s)
    (hchars : scanFrom mode line place column (chars ++ b.text) =
      .consWord line word? (scanFrom mode line place' column' b.text)) :
    (b.prepend chars).ReadAs mode line place column (.consWord line word? s) := by
  refine ⟨hchars.trans ?_, h.inComment_eq.trans (inComment_consWord s).symm⟩
  rw [h.scanFrom_eq, closed_consWord]

/-- A character before a text that is a token of its own. -/
theorem prepend_cons {t : Token} (h : b.ReadAs mode line place' column' s)
    (hchars : scanFrom mode line place column (chars ++ b.text) =
      .consWord line word? (.cons t (scanFrom mode line place' column' b.text))) :
    (b.prepend chars).ReadAs mode line place column (.consWord line word? (.cons t s)) := by
  refine ⟨hchars.trans ?_, h.inComment_eq.trans ?_⟩
  · rw [h.scanFrom_eq, closed_consWord]
    rfl
  · rw [inComment_consWord]
    rfl

end Blanked.ReadAs

/-! ## Single characters -/

/-- A character of a comment that does not end it becomes a space. -/
theorem blankFrom_comment (hend : ∀ rest', c = '*' → rest = '/' :: rest' → False) :
    blankFrom .comment (c :: rest) = (blankFrom .comment rest).prepend (spaces 1) := by
  rw [blankFrom]
  exact hend

/-- A character that begins neither a comment nor a quoted text is kept. -/
theorem blankFrom_plain (hline : ¬ startsLineComment c rest = true)
    (hcomment : ∀ rest', c = '/' → rest = '*' :: rest' → False) (hquote : c ≠ '"') :
    blankFrom .plain (c :: rest) = (blankFrom .plain rest).prepend [c] := by
  rw [blankFrom]
  · rintro _ rfl rfl
    exact hline rfl
  · exact hcomment
  · exact hquote

/-- Blanking keeps the next character or makes it a space. -/
theorem head?_blankFrom_plain (chars : List Char) :
    (blankFrom .plain chars).text.head? = chars.head? ∨
      (blankFrom .plain chars).text.head? = some ' ' := by
  unfold blankFrom
  split <;> simp_all [Blanked.prepend, spaces, List.replicate_succ]

/-- No comment begins after blanking at a character at which none began before. -/
theorem scanFrom_plain_blankFrom (hline : ¬ startsLineComment c rest = true)
    (hcomment : ∀ rest', c = '/' → rest = '*' :: rest' → False) (hquote : c ≠ '"')
    (hblank : ¬ Text.isBlank c = true) (hkind : mode.punctuation? c = none) :
    scanFrom mode line (.plain word?) column (c :: (blankFrom .plain rest).text) =
      scanFrom mode line (.plain (some { word?.getD ⟨column, ""⟩ with
        text := (word?.getD ⟨column, ""⟩).text.push c })) (column + 1)
        (blankFrom .plain rest).text := by
  have hline' : ¬ startsLineComment c (blankFrom .plain rest).text = true := by
    rw [startsLineComment] at hline ⊢
    rcases head?_blankFrom_plain rest with hhead | hhead
    · rwa [hhead]
    · simp [hhead]
  have hcomment' : c = '/' → (blankFrom .plain rest).text.head? ≠ some '*' := by
    intro hc hstar
    rcases head?_blankFrom_plain rest with hhead | hhead
    · obtain ⟨rest', rfl⟩ := List.head?_eq_some_iff.1 (hhead ▸ hstar)
      exact hcomment rest' hc rfl
    · simp [hhead] at hstar
  rw [scanFrom_plain hquote hcomment', if_neg hline', if_neg hblank, hkind]

/-- A character that neither ends a quoted text nor begins an escape is kept. -/
theorem blankFrom_quoted (hquote : c ≠ '"')
    (hescape : ∀ e rest', c = '\\' → rest = e :: rest' → False) :
    blankFrom .quoted (c :: rest) = (blankFrom .quoted rest).prepend [c] := by
  rw [blankFrom]
  · exact hquote
  · exact hescape

/-- A character before which a backslash is read as itself neither ends a quoted text nor begins an
escape. -/
theorem ne_of_unescape?_eq_none {e : Char} (h : unescape? e = none) : e ≠ '"' ∧ e ≠ '\\' := by
  constructor
  · rintro rfl
    cases h
  · rintro rfl
    cases h

/-- A backslash that is read as itself is kept, and blanking goes on after it. -/
theorem blankFrom_backslash {e : Char} (h : unescape? e = none) :
    blankFrom .quoted ('\\' :: e :: rest) = (blankFrom .quoted (e :: rest)).prepend ['\\'] := by
  obtain ⟨hquote, hbackslash⟩ := ne_of_unescape?_eq_none h
  rw [blankFrom_quoted hquote fun _ _ he => absurd he hbackslash]
  rfl

/-! ## Lines -/

/-- A line is read the same, after any of its characters, if the comments in it are spaces; and then
it leaves no comment open. -/
theorem readAs_blankFrom (place : Place) (column : Nat) (chars : List Char) :
    (blankFrom place.region chars).ReadAs mode line place.blanked column
      (scanFrom mode line place column chars) := by
  fun_induction scanFrom mode line place column chars with
  | case1 column => exact .of_spaces 0 true
  | case2 column rest ih => exact ih.prepend (scanFrom_space.trans scanFrom_space)
  | case3 column c rest hend ih =>
    rw [Place.region, blankFrom_comment hend]
    exact ih.prepend scanFrom_space
  | case4 word? column => exact .of_spaces 0 false
  | case5 word? column c rest hline =>
    rw [startsLineComment, Bool.and_eq_true, decide_eq_true_eq, decide_eq_true_eq] at hline
    obtain ⟨rfl, hhead⟩ := hline
    obtain ⟨rest, rfl⟩ := List.head?_eq_some_iff.1 hhead
    exact .of_spaces _ false
  | case6 word? column rest hline ih =>
    exact ih.prepend_consWord (scanFrom_space.trans (congrArg _ scanFrom_space))
  | case7 word? column rest hline ih => exact ih.prepend scanFrom_openQuote
  | case8 word? column c rest hcomment hquote hblank hline ih =>
    rw [Place.region, blankFrom_plain hline hcomment hquote]
    exact ih.prepend_consWord (scanFrom_blank hblank)
  | case9 word? column c rest hcomment hquote hblank kind hkind hline ih =>
    rw [Place.region, blankFrom_plain hline hcomment hquote]
    cases mode with
    | words => cases hkind
    | punctuated => exact ih.prepend_cons (scanFrom_mark hkind)
  | case10 word? column c rest hcomment hquote hblank hkind word word' hline =>
    rename_i ih
    rw [Place.region, blankFrom_plain hline hcomment hquote]
    exact ih.prepend (scanFrom_plain_blankFrom hline hcomment hquote hblank hkind)
  | case11 word opened column => exact ⟨by rw [scanFrom.eq_def]; rfl, rfl⟩
  | case12 word opened column rest ih => exact ih.prepend scanFrom_closeQuote
  | case13 word opened column e rest c hescape ih => exact ih.prepend (scanFrom_escape hescape)
  | case14 word opened column e rest hescape ih =>
    rw [Place.region, blankFrom_backslash hescape]
    refine ih.prepend ?_
    -- the character after the backslash is kept, so the backslash is read as itself before it
    obtain ⟨hquote, hbackslash⟩ := ne_of_unescape?_eq_none hescape
    rw [Place.region, blankFrom_quoted hquote fun _ _ h => absurd h hbackslash]
    exact scanFrom_backslash hescape
  | case15 word opened column c rest hquote hescape ih =>
    rw [Place.region, blankFrom_quoted hquote hescape]
    refine ih.prepend (scanFrom_quotedChar hquote ?_)
    intro e rest' hc hrest
    cases rest with
    | nil => cases hrest
    | cons e' rest => exact hescape e' rest hc rfl

end

/-- Lines one after another are read the same if the comments in them are spaces. -/
theorem scanLines_blankLines (inComment : Bool) (lines : List Line) :
    scanLines false (blankLines inComment lines) = (scanLines inComment lines).map Scan.closed := by
  induction lines generalizing inComment with
  | nil => rfl
  | cons l lines ih =>
    have hl : (blankFrom (if inComment then .comment else .plain) l.text).ReadAs l.mode l.number
        (.plain none) 1 (scan l.mode inComment l.number l.text) := by
      cases inComment
      · exact readAs_blankFrom (.plain none) 1 l.text
      · exact readAs_blankFrom .comment 1 l.text
    have hscan : scan l.mode false l.number
        (blankFrom (if inComment then .comment else .plain) l.text).text =
          (scan l.mode inComment l.number l.text).closed := hl.scanFrom_eq
    rw [scanLines, List.map_cons, ← ih, ← hl.inComment_eq, ← hscan]
    simp only [blankLines, scanLines, hscan]
    rfl

/-! ## What is blanked -/

/-- Blanking changes characters to spaces and nothing else. -/
theorem forall₂_blankFrom (region : Region) (chars : List Char) :
    List.Forall₂ (fun b c => b = c ∨ b = ' ') (blankFrom region chars).text chars := by
  fun_induction blankFrom region chars with
  | case1 | case4 => exact .nil
  | case2 rest ih | case6 rest ih => exact .cons (.inr rfl) (.cons (.inr rfl) ih)
  | case3 c rest hend ih => exact .cons (.inr rfl) ih
  | case5 rest =>
    rw [List.forall₂_iff_get]
    simp [spaces]
  | case7 rest ih | case8 c rest _ _ _ ih | case9 rest ih | case11 c rest _ _ ih =>
    exact .cons (.inl rfl) ih
  | case10 e rest ih => exact .cons (.inl rfl) (.cons (.inl rfl) ih)

/-- The same line, in which some characters are spaces. -/
structure Line.Masks (masked l : Line) : Prop where
  mode_eq : masked.mode = l.mode
  number_eq : masked.number = l.number
  text : List.Forall₂ (fun b c => b = c ∨ b = ' ') masked.text l.text

theorem forall₂_blankLines (inComment : Bool) (lines : List Line) :
    List.Forall₂ Line.Masks (blankLines inComment lines) lines := by
  induction lines generalizing inComment with
  | nil => exact .nil
  | cons l lines ih => exact .cons ⟨rfl, rfl, forall₂_blankFrom _ _⟩ (ih _)

/-- What becomes of a text that begins inside a comment. -/
inductive CommentExtent : List Char → Blanked → Prop
  /-- The first end mark ends the comment. -/
  | ends (body rest : List Char) (first : ¬ ['*', '/'] <:+: body ++ ['*']) :
    CommentExtent (body ++ '*' :: '/' :: rest)
      ((blankFrom .plain rest).prepend (spaces (body.length + 2)))
  /-- The comment goes on on the next line. -/
  | goesOn {chars : List Char} (noEnd : ¬ ['*', '/'] <:+: chars) :
    CommentExtent chars { text := spaces chars.length, inComment := true }

/-- Where a comment ends. -/
theorem endMark_prefix_iff {c : Char} {chars : List Char} :
    ['*', '/'] <+: c :: chars ↔ c = '*' ∧ chars.head? = some '/' := by
  cases chars <;> simp [List.cons_prefix_cons, eq_comm]

/-- A character at which a comment does not end is one more of the comment. -/
theorem CommentExtent.cons {c : Char} {chars : List Char} {b : Blanked}
    (h : CommentExtent chars b) (hend : ¬ (c = '*' ∧ chars.head? = some '/')) :
    CommentExtent (c :: chars) (b.prepend (spaces 1)) := by
  cases h with
  | ends body rest first =>
    refine .ends (c :: body) rest ?_
    rw [List.cons_append, List.infix_cons_iff, endMark_prefix_iff]
    rintro (⟨hc, hhead⟩ | hbody)
    · refine hend ⟨hc, ?_⟩
      cases body with
      | nil => simp at hhead
      | cons d body => exact hhead
    · exact first hbody
  | goesOn noEnd =>
    refine .goesOn ?_
    rw [List.infix_cons_iff, endMark_prefix_iff]
    rintro (hfirst | hchars)
    · exact hend hfirst
    · exact noEnd hchars

/-- A comment goes to the first end mark, or over the end of the line. -/
theorem commentExtent_blankFrom (chars : List Char) :
    CommentExtent chars (blankFrom .comment chars) := by
  induction chars with
  | nil => exact .goesOn (by decide)
  | cons c chars ih =>
    by_cases hend : c = '*' ∧ chars.head? = some '/'
    · obtain ⟨rfl, hhead⟩ := hend
      obtain ⟨rest, rfl⟩ := List.head?_eq_some_iff.1 hhead
      exact .ends [] rest (by decide)
    · have hchar : ∀ rest, c = '*' → chars = '/' :: rest → False := by
        rintro rest hc rfl
        exact hend ⟨hc, rfl⟩
      rw [blankFrom_comment hchar]
      exact ih.cons hend

/-! ## Quoted texts -/

/-- Slashes and stars do not begin what begins with another character. -/
theorem marks_prefix_cons_iff {marks rest : List Char} {c : Char}
    (hmarks : ∀ d ∈ marks, d = '/' ∨ d = '*') (hc : c ≠ '/' ∧ c ≠ '*') :
    marks <+: c :: rest ↔ marks = [] := by
  cases marks with
  | nil => simp
  | cons d marks =>
    rw [List.cons_prefix_cons]
    refine iff_of_false ?_ (by simp)
    rintro ⟨rfl, -⟩
    exact (hmarks d (by simp)).elim hc.1 hc.2

/-- Neither a character that can be escaped nor the one that it stands for is a slash or a star. -/
theorem ne_of_unescape?_eq_some {e c : Char} (h : unescape? e = some c) :
    (e ≠ '/' ∧ e ≠ '*') ∧ c ≠ '/' ∧ c ≠ '*' := by
  unfold unescape? at h
  split at h <;> cases h <;> decide

namespace QuotedText

variable {body text rest marks : List Char}

/-- A quoted text is kept as it is. -/
theorem blankFrom_eq (h : QuotedText body text) :
    blankFrom .quoted (body ++ '"' :: rest) = (blankFrom .plain rest).prepend (body ++ ['"']) := by
  induction h with
  | nil => rfl
  | char hquote hbackslash h ih =>
    rw [List.cons_append, blankFrom_quoted hquote fun _ _ hc => absurd hc hbackslash, ih]
    rfl
  | escape he h ih =>
    rw [List.cons_append, List.cons_append, blankFrom, ih]
    rfl
  | backslash he h ih =>
    rw [List.cons_append, List.cons_append, blankFrom_backslash he, ← List.cons_append, ih]
    rfl

/-- Slashes and stars begin what is quoted as they begin the text that it stands for. -/
theorem prefix_iff (h : QuotedText body text) (hmarks : ∀ c ∈ marks, c = '/' ∨ c = '*') :
    marks <+: text ↔ marks <+: body := by
  induction h generalizing marks with
  | nil => rfl
  | char hquote hbackslash h ih =>
    cases marks with
    | nil => simp
    | cons d marks =>
      rw [List.cons_prefix_cons, List.cons_prefix_cons, ih]
      exact fun c hc => hmarks c (List.mem_cons_of_mem _ hc)
  | escape he h ih =>
    rw [marks_prefix_cons_iff hmarks (ne_of_unescape?_eq_some he).2,
      marks_prefix_cons_iff hmarks (by decide)]
  | backslash he h ih =>
    rw [marks_prefix_cons_iff hmarks (by decide), marks_prefix_cons_iff hmarks (by decide)]

/-- Slashes and stars stand in what is quoted as they stand in the text that it stands for. -/
theorem infix_iff (h : QuotedText body text) (hmarks : ∀ c ∈ marks, c = '/' ∨ c = '*') :
    marks <:+: text ↔ marks <:+: body := by
  induction h with
  | nil => rfl
  | char hquote hbackslash h ih =>
    rw [List.infix_cons_iff, List.infix_cons_iff, (h.char hquote hbackslash).prefix_iff hmarks, ih]
  | escape he h ih =>
    obtain ⟨he, hc⟩ := ne_of_unescape?_eq_some he
    have hbackslash : '\\' ≠ '/' ∧ '\\' ≠ '*' := by decide
    simp only [List.infix_cons_iff, marks_prefix_cons_iff hmarks he,
      marks_prefix_cons_iff hmarks hc, marks_prefix_cons_iff hmarks hbackslash, ih]
    simp
  | backslash he h ih =>
    rw [List.infix_cons_iff, (h.backslash he).prefix_iff hmarks, ih, ← List.infix_cons_iff]

end QuotedText

/-- What becomes of a quoted text that ends before `rest`: blanking keeps it, `text` is added to the
word to which it belongs, and runs of slashes and stars, such as the marks of comments, stand in
`text` where they stand between the quotes. -/
structure QuoteEnds (chars body text rest : List Char) : Prop where
  eq : chars = body ++ '"' :: rest
  quotedText : QuotedText body text
  blankFrom_eq : blankFrom .quoted chars = (blankFrom .plain rest).prepend (body ++ ['"'])
  scanFrom_eq (mode : LexMode) (line : Nat) (word : OpenWord) (opened column : Nat) :
    scanFrom mode line (.quoted word opened) column chars =
      scanFrom mode line (.plain (some { word with text := word.text ++ String.ofList text }))
        (column + body.length + 1) rest
  infix_iff (marks : List Char) (h : ∀ c ∈ marks, c = '/' ∨ c = '*') :
    marks <:+: text ↔ marks <:+: body

/-- What becomes of a quoted text that its line leaves open: blanking keeps it, and it is the
problem of the line. -/
structure QuoteLeftOpen (chars : List Char) : Prop where
  blankFrom_eq : blankFrom .quoted chars = { text := chars, inComment := false }
  scanFrom_eq (mode : LexMode) (line : Nat) (word : OpenWord) (opened column : Nat) :
    scanFrom mode line (.quoted word opened) column chars =
      { tokens := .error opened, inComment := false }

theorem QuotedText.quoteEnds {body text : List Char} (h : QuotedText body text)
    (rest : List Char) : QuoteEnds (body ++ '"' :: rest) body text rest :=
  ⟨rfl, h, h.blankFrom_eq, fun _ _ _ _ _ => h.scanFrom_eq, fun _ hmarks => h.infix_iff hmarks⟩

/-- Characters that do not end a quoted text leave it open if those after them do. -/
theorem QuoteLeftOpen.append {rest : List Char} (chars : List Char) (h : QuoteLeftOpen rest)
    (hblank : blankFrom .quoted (chars ++ rest) = (blankFrom .quoted rest).prepend chars)
    (hscan : ∀ mode line word opened column, ∃ word' column',
      scanFrom mode line (.quoted word opened) column (chars ++ rest) =
        scanFrom mode line (.quoted word' opened) column' rest) :
    QuoteLeftOpen (chars ++ rest) := by
  refine ⟨?_, fun mode line word opened column => ?_⟩
  · rw [hblank, h.blankFrom_eq]
    rfl
  · obtain ⟨word', column', hstep⟩ := hscan mode line word opened column
    rw [hstep, h.scanFrom_eq]

/-- A quoted text ends on its line, or the line leaves it open. -/
theorem exists_quotedText_or_leftOpen (chars : List Char) :
    (∃ body text rest, chars = body ++ '"' :: rest ∧ QuotedText body text) ∨
      QuoteLeftOpen chars := by
  have hnil : QuoteLeftOpen [] :=
    ⟨rfl, fun mode line word opened column => by rw [scanFrom.eq_def]⟩
  induction chars using List.twoStepInduction with
  | nil => exact .inr hnil
  | singleton c =>
    by_cases hquote : c = '"'
    · exact .inl ⟨[], [], [], by rw [hquote]; rfl, .nil⟩
    · have hescape : ∀ (e : Char) (rest' : List Char), c = '\\' → [] = e :: rest' → False :=
        fun _ _ _ hnil => by cases hnil
      exact .inr (hnil.append [c] (blankFrom_quoted hquote hescape)
        fun _ _ _ _ _ => ⟨_, _, scanFrom_quotedChar hquote hescape⟩)
  | cons_cons c e chars ih ih' =>
    by_cases hquote : c = '"'
    · exact .inl ⟨[], [], e :: chars, by rw [hquote]; rfl, .nil⟩
    by_cases hbackslash : c = '\\'
    · subst hbackslash
      cases he : unescape? e with
      | some d =>
        rcases ih with ⟨body, text, rest, rfl, h⟩ | hopen
        · exact .inl ⟨_, _, rest, rfl, h.escape he⟩
        · exact .inr (hopen.append ['\\', e] rfl fun _ _ _ _ _ => ⟨_, _, scanFrom_escape he⟩)
      | none =>
        obtain ⟨hequote, hebackslash⟩ := ne_of_unescape?_eq_none he
        rcases ih with ⟨body, text, rest, rfl, h⟩ | hopen
        · exact .inl ⟨_, _, rest, rfl, (h.char hequote hebackslash).backslash he⟩
        · exact .inr (hopen.append ['\\', e] rfl fun _ _ _ _ _ => ⟨_, _,
            (scanFrom_backslash he).trans
              (scanFrom_quotedChar hequote fun _ _ hc => absurd hc hebackslash)⟩)
    · have hescape : ∀ e' rest', c = '\\' → e :: chars = e' :: rest' → False :=
        fun _ _ hc => absurd hc hbackslash
      rcases ih' e with ⟨body, text, rest, hchars, h⟩ | hopen
      · exact .inl ⟨c :: body, _, rest, by rw [hchars]; rfl, h.char hquote hbackslash⟩
      · exact .inr (hopen.append [c] (blankFrom_quoted hquote hescape)
          fun _ _ _ _ _ => ⟨_, _, scanFrom_quotedChar hquote hescape⟩)

/-! ## Comments in lines -/

/-- **Comments are read as spaces.** Put a space in the place of each character of some lines that
belongs to a comment. The lines are read as before, each with the same tokens or the same problem,
and none of them leaves a comment open any more. A comment over several lines goes to the first end
mark after its start; what stands between quotes is no comment, and is read literally. -/
theorem comments_read_as_spaces (lines : List Line) :
    (scanLines false (blankLines false lines)).map (·.tokens) =
      (scanLines false lines).map (·.tokens) ∧
    (∀ s ∈ scanLines false (blankLines false lines), s.inComment = false) ∧
    List.Forall₂ Line.Masks (blankLines false lines) lines ∧
    (∀ chars, CommentExtent chars (blankFrom .comment chars)) ∧
    ∀ chars, (∃ body text rest, QuoteEnds chars body text rest) ∨ QuoteLeftOpen chars := by
  rw [scanLines_blankLines]
  refine ⟨?_, ?_, forall₂_blankLines false lines, commentExtent_blankFrom, fun chars => ?_⟩
  · rw [List.map_map]
    rfl
  · intro s hs
    obtain ⟨s, -, rfl⟩ := List.mem_map.1 hs
    rfl
  · rcases exists_quotedText_or_leftOpen chars with ⟨body, text, rest, rfl, h⟩ | hopen
    · exact .inl ⟨body, text, rest, h.quoteEnds rest⟩
    · exact .inr hopen

/-- Lines with a comment that only seems to end, comments next to words, marks of comments between
quotes, and a quoted text that is left open after the end of a comment. -/
def commentedLines : List Line :=
  [⟨.words, 1, "a/*/ b".toList⟩, ⟨.words, 2, "c **/d\"/* // */\"//e".toList⟩,
    ⟨.punctuated, 3, "\"*//\"=x /*".toList⟩, ⟨.punctuated, 4, "\" */ \"y".toList⟩,
    ⟨.words, 5, "z".toList⟩]

theorem comments_read_as_spaces_commentedLines :
    (blankLines false commentedLines).map (String.ofList ·.text) =
      ["a     ", "     d\"/* // */\"   ", "\"*//\"=x   ", "     \"y", "z"] ∧
    (scanLines false (blankLines false commentedLines)).map (·.tokens) =
      [.ok [⟨.word "a", 1, 1⟩], .ok [⟨.word "d/* // */", 2, 6⟩],
        .ok [⟨.word "*//", 3, 1⟩, ⟨.equals, 3, 6⟩, ⟨.word "x", 3, 7⟩], .error 6,
        .ok [⟨.word "z", 5, 1⟩]] := by
  obtain ⟨htokens, -⟩ := comments_read_as_spaces commentedLines
  exact ⟨by decide +kernel, htokens.trans (by decide +kernel)⟩

end Token

end ArchFacts
