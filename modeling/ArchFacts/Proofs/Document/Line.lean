import ArchFacts.Proofs.Document.Statement

/-!
# The lines of a written document

What the reader of a document does with each kind of line that `Document.render` writes. A text of
lines comes apart into these lines (`lines_flatMap`). No line of a block begins like a header, and
no line of a pair does if its relation is no word of one (`detect?_renderBlock`,
`detect?_renderPair`). Each line that does not adds the statement it was written for
(`next_renderPair`, `next_renderBlock`), and comments and the lines of a scheme add nothing
(`next_silent`, `next_scheme`).
-/

namespace ArchFacts

/-! ## Lines of a text -/

namespace Text

/-- A line end closes the line before it. -/
theorem linesAfter_line {before : List (List Char)} {line l rest : List Char} (h : '\n' ∉ l) :
    linesAfter before line (l ++ '\n' :: rest) =
      linesAfter (dropReturn (line.reverse ++ l) :: before) [] rest := by
  induction l generalizing line with
  | nil => simp [linesAfter]
  | cons c l ih =>
    have hc : c ≠ '\n' := Ne.symm (List.ne_of_not_mem_cons h)
    rw [List.cons_append, linesAfter, if_neg hc, ih (List.not_mem_of_not_mem_cons h)]
    simp

/-- The lines of a text in which each of some lines has a line end. -/
theorem lines_flatMap {ls : List (List Char)} (h : ∀ l ∈ ls, '\n' ∉ l) :
    lines (ls.flatMap (· ++ ['\n'])) = ls.map dropReturn := by
  have key : ∀ before : List (List Char), linesAfter before [] (ls.flatMap (· ++ ['\n'])) =
      before.reverse ++ ls.map dropReturn := by
    induction ls with
    | nil => simp [linesAfter]
    | cons l ls ih =>
      intro before
      rw [List.flatMap_cons, List.append_assoc, List.singleton_append,
        linesAfter_line (h l (by simp)), ih fun l hl => h l (by simp [hl])]
      simp
  exact key []

/-- A line that does not end with a carriage return stays as it is. -/
theorem dropReturn_eq {line : List Char} (h : line.getLast? ≠ some '\r') :
    dropReturn line = line := if_neg h

end Text

/-! ## Written words -/

namespace Token

/-- A word is written between quotes, or as it is and without special characters. -/
theorem quote_cases (word : List Char) :
    quote word = '"' :: (word.flatMap escapeChar ++ ['"']) ∨
      quote word = word ∧ word ≠ [] ∧ ∀ c ∈ word, Text.isBlank c = false := by
  unfold quote
  split
  · exact .inl rfl
  · next hq =>
    simp only [needsQuoting, Bool.or_eq_true, not_or, List.isEmpty_iff, List.any_eq_true,
      not_exists, not_and] at hq
    refine .inr ⟨rfl, hq.1.1, fun c hc => ?_⟩
    have := hq.1.2 c hc
    simp only [isSpecial, Bool.or_eq_true, not_or] at this
    simpa using this.1.1

/-- A written word begins and ends with characters that are not blank, and holds no line end. -/
theorem quote_shape (word : List Char) :
    (∃ c cs, quote word = c :: cs ∧ Text.isBlank c = false) ∧
    (∃ cs c, quote word = cs ++ [c] ∧ Text.isBlank c = false) ∧ '\n' ∉ quote word := by
  rcases quote_cases word with h | ⟨h, hne, hblank⟩
  · rw [h]
    refine ⟨⟨_, _, rfl, by decide⟩, ⟨'"' :: word.flatMap escapeChar, '"', rfl, by decide⟩, ?_⟩
    simp only [List.mem_cons, List.mem_append, List.mem_flatMap, not_or, not_exists, not_and]
    refine ⟨by decide, fun c _ => ?_, by simp⟩
    unfold escapeChar
    split <;> simp_all [eq_comm]
  · rw [h]
    refine ⟨?_, ?_, fun hn => absurd (hblank _ hn) (by decide)⟩
    · obtain ⟨c, cs, rfl⟩ := List.exists_cons_of_ne_nil hne
      exact ⟨c, cs, rfl, hblank c (by simp)⟩
    · exact ⟨word.dropLast, word.getLast hne, (List.dropLast_concat_getLast hne).symm,
        hblank _ (List.getLast_mem hne)⟩

end Token

/-! ## Headers -/

namespace Header

/-- The two words of a header. -/
def words : Header → String × String
  | scheme => ("SCHEME", "TUPLE")
  | tuples => ("FACT", "TUPLE")
  | attributes => ("FACT", "ATTRIBUTE")

theorem text_eq (h : Header) : h.text.toList = h.words.1.toList ++ ' ' :: h.words.2.toList := by
  cases h <;> decide

theorem space_not_mem_words (h : Header) : ' ' ∉ h.words.1.toList := by
  cases h <;> decide

/-- What is left of a list after a part at its front. -/
theorem eq_append_of_isPrefixOf? {xs ys rest : List Char} (h : xs.isPrefixOf? ys = some rest) :
    ys = xs ++ rest := by
  induction xs generalizing ys with
  | nil => exact Option.some.inj h
  | cons x xs ih =>
    cases ys with
    | nil => cases h
    | cons y ys =>
      change (if x == y then xs.isPrefixOf? ys else none) = some rest at h
      split at h
      · next hxy => rw [ih h, eq_of_beq hxy, List.cons_append]
      · cases h

/-- A line that begins with no header opens no section. -/
theorem detect?_eq_none {c : Char} {cs : List Char} (hc : Text.isBlank c = false)
    (h : ∀ header : Header, ¬ header.text.toList <+: c :: cs) : detect? (c :: cs) = none := by
  rw [detect?, List.findSome?_eq_none_iff]
  intro header _
  rw [Option.map_eq_none_iff, List.dropWhile_cons_of_neg (by simp [hc])]
  refine Option.eq_none_iff_forall_ne_some.2 fun rest hrest => h header ⟨rest, ?_⟩
  exact (eq_append_of_isPrefixOf? hrest).symm

/-- Two texts of a first word and a rest are equal only if the words are and the rests are. -/
theorem append_space_inj {xs us ys vs : List Char} (hx : ' ' ∉ xs) (hu : ' ' ∉ us)
    (h : xs ++ ' ' :: ys = us ++ ' ' :: vs) : xs = us ∧ ys = vs := by
  induction xs generalizing us with
  | nil =>
    cases us with
    | nil => exact ⟨rfl, (List.cons.inj h).2⟩
    | cons u us => exact absurd (List.cons.inj h).1 (List.ne_of_not_mem_cons hu)
  | cons x xs ih =>
    cases us with
    | nil => exact absurd (List.cons.inj h).1.symm (List.ne_of_not_mem_cons hx)
    | cons u us =>
      rw [List.cons_append, List.cons_append, List.cons.injEq] at h
      obtain ⟨hxs, hys⟩ :=
        ih (List.not_mem_of_not_mem_cons hx) (List.not_mem_of_not_mem_cons hu) h.2
      exact ⟨by rw [h.1, hxs], hys⟩

/-- A line of a written word and more begins like a header only if this is its first word and the
rest begins like its second. -/
theorem detect?_quote {word rest : List Char}
    (h : ∀ header : Header, header.words.1.toList = word → ¬ header.words.2.toList <+: rest) :
    detect? (Token.quote word ++ ' ' :: rest) = none := by
  obtain ⟨⟨c, cs, hquote, hc⟩, -⟩ := Token.quote_shape word
  have hline : Token.quote word ++ ' ' :: rest = c :: (cs ++ ' ' :: rest) := by rw [hquote]; rfl
  rw [hline]
  refine detect?_eq_none hc fun header => ?_
  rw [← hline]
  rintro ⟨t, ht⟩
  rw [text_eq, List.append_assoc, List.cons_append] at ht
  rcases Token.quote_cases word with hq | ⟨hq, -, hblank⟩
  · rw [hq] at ht
    cases header <;> simp [words] at ht
  · rw [hq] at ht
    have hspace : ' ' ∉ word := fun hm => absurd (hblank _ hm) (by decide)
    obtain ⟨hword, hrest⟩ := append_space_inj (space_not_mem_words header) hspace ht
    exact h header hword ⟨t, hrest⟩

theorem detect?_renderPair {relation : String} {pair : Pair} (hf : relation ≠ "FACT")
    (hs : relation ≠ "SCHEME") : detect? (Document.renderPair relation pair) = none := by
  rw [Document.renderPair, List.append_assoc, List.cons_append]
  refine detect?_quote fun header hword => ?_
  have hrel : header.words.1 = relation := String.toList_inj.1 hword
  cases header
  · exact absurd hrel.symm hs
  · exact absurd hrel.symm hf
  · exact absurd hrel.symm hf

theorem detect?_renderBlock (b : Block) : detect? (Document.renderBlock b) = none := by
  unfold Document.renderBlock
  cases b.target with
  | entity id =>
    rw [Document.renderTarget, List.append_assoc, List.append_assoc, List.cons_append]
    refine detect?_quote fun header _ => ?_
    cases header <;> simp [words]
  | pair source dest =>
    rw [Document.renderTarget, List.append_assoc, List.append_assoc, List.append_assoc,
      List.append_assoc, List.cons_append]
    refine detect?_eq_none (by decide) fun header => ?_
    cases header <;> simp [text]

end Header

/-! ## Lines of written tokens -/

section
variable {kinds : List TokenKind} {last : TokenKind}

/-- A written token ends with a character that is not blank, and holds no line end. -/
theorem TokenKind.written_shape (kind : TokenKind) :
    (∃ cs c, kind.written = cs ++ [c] ∧ Text.isBlank c = false) ∧ '\n' ∉ kind.written := by
  cases kind with
  | word text => exact (Token.quote_shape text.toList).2
  | _ => exact ⟨⟨[], _, rfl, by decide⟩, by decide⟩

theorem newline_not_mem_line : '\n' ∉ writtenSpaced kinds ++ last.written := by
  rw [List.mem_append, not_or]
  refine ⟨?_, last.written_shape.2⟩
  induction kinds with
  | nil => simp
  | cons kind kinds ih => simp [kind.written_shape.2, ih]

/-- A line of written tokens does not end with a carriage return. -/
theorem dropReturn_line :
    Text.dropReturn (writtenSpaced kinds ++ last.written) =
      writtenSpaced kinds ++ last.written := by
  obtain ⟨⟨cs, c, hlast, hc⟩, -⟩ := last.written_shape
  refine Text.dropReturn_eq ?_
  rw [hlast, ← List.append_assoc, List.getLast?_append]
  rintro ⟨⟩
  exact absurd hc (by decide)

/-- A line of written tokens is scanned as these tokens. -/
theorem exists_scan_line {mode : LexMode} (line : Nat) (hk : ∀ kind ∈ kinds, mode.Knows kind)
    (hlast : mode.Knows last) :
    ∃ tokens : List Token, tokens.map (·.kind) = kinds ++ [last] ∧
      Token.scan mode false line (writtenSpaced kinds ++ last.written) =
        { tokens := .ok tokens, inComment := false } :=
  Token.exists_scanFrom_written line 1 hk hlast

end

namespace Document

theorem newline_not_mem_renderPair (relation : String) (pair : Pair) :
    '\n' ∉ renderPair relation pair := by
  rw [renderPair_eq]
  exact newline_not_mem_line

theorem dropReturn_renderPair (relation : String) (pair : Pair) :
    Text.dropReturn (renderPair relation pair) = renderPair relation pair := by
  rw [renderPair_eq, dropReturn_line]

/-- The line of a pair is scanned as three words, in any mode. -/
theorem exists_scan_renderPair (mode : LexMode) (line : Nat) (relation : String) (pair : Pair) :
    ∃ tokens : List Token,
      tokens.map (·.kind) = [.word relation, .word pair.first, .word pair.second] ∧
      Token.scan mode false line (renderPair relation pair) =
        { tokens := .ok tokens, inComment := false } := by
  have hk : ∀ kind ∈ [TokenKind.word relation, .word pair.first], mode.Knows kind := by
    simp [LexMode.Knows]
  rw [renderPair_eq]
  exact exists_scan_line line hk (.inr ⟨pair.second, rfl⟩)

theorem newline_not_mem_renderBlock (b : Block) : '\n' ∉ renderBlock b := by
  rw [renderBlock_eq]
  exact newline_not_mem_line

theorem dropReturn_renderBlock (b : Block) :
    Text.dropReturn (renderBlock b) = renderBlock b := by
  rw [renderBlock_eq, dropReturn_line]

end Document

/-! ## What the reader does with a line -/

namespace Document.Progress

section
variable {config : Config} {p : Progress} {text : List Char}

/-- Outside comments, a line without a header is read in its section. -/
theorem next_eq (hc : p.inComment = false) (ht : Header.detect? text = none) :
    next config p text = (readBody config { p with line := p.line + 1 } text).mapError
      fun problem => .format (p.line + 1) problem.message := by
  rw [next, readLine, if_neg (by simp [hc]), ht]

/-- A line of tuples adds the statement that its tokens make. -/
theorem next_tuples {tokens : List Token} {s : Statement} (hp : p.current = some .tuples)
    (hc : p.inComment = false) (ht : Header.detect? text = none) (hne : tokens ≠ [])
    (hscan : Token.scan .words false (p.line + 1) text =
      { tokens := .ok tokens, inComment := false })
    (hs : Statement.tuple? config (p.line + 1) tokens = .ok s) :
    next config p text =
      .ok { p with line := p.line + 1, statements := p.statements.push s } := by
  have htokens : tokens.isEmpty = false := by simpa using hne
  rw [next_eq hc ht, readBody]
  simp only [hp, hc, Option.some.injEq, reduceCtorEq, if_false, hscan, mapError_ok, ok_bind,
    htokens, Bool.false_eq_true, hs]
  rfl

/-- A line of attributes adds the statement that its tokens make. -/
theorem next_attributes {tokens : List Token} {s : Statement}
    (hp : p.current = some .attributes) (hc : p.inComment = false)
    (ht : Header.detect? text = none) (hne : tokens ≠ [])
    (hscan : Token.scan .punctuated false (p.line + 1) text =
      { tokens := .ok tokens, inComment := false })
    (hs : Statement.block? (p.line + 1) tokens = .ok s) :
    next config p text =
      .ok { p with line := p.line + 1, statements := p.statements.push s } := by
  have htokens : tokens.isEmpty = false := by simpa using hne
  rw [next_eq hc ht, readBody]
  simp only [hp, hc, Option.some.injEq, reduceCtorEq, if_true, if_false, hscan, mapError_ok,
    ok_bind, htokens, Bool.false_eq_true, hs]
  rfl

/-- The line of a pair states the pair, if it does not begin like a header. -/
theorem next_renderPair {relation : String} {pair : Pair} (hp : p.current = some .tuples)
    (hc : p.inComment = false) (ht : Header.detect? (renderPair relation pair) = none)
    (hknown : if relation = config.entityRelation then (NodeKind.ofTag? pair.second).isSome
      else (EdgeKind.ofTag? relation).isSome) :
    next config p (renderPair relation pair) = .ok { p with
      line := p.line + 1
      statements := p.statements.push (.tuple relation pair (p.line + 1)) } := by
  obtain ⟨tokens, hkinds, hscan⟩ := exists_scan_renderPair .words (p.line + 1) relation pair
  have hne : tokens ≠ [] := by rintro rfl; cases hkinds
  exact next_tuples hp hc ht hne hscan
    (Statement.tuple?_eq hknown hkinds)

/-- The line of a block states the block, its attributes added anew. -/
theorem next_renderBlock {b : Block} (hp : p.current = some .attributes)
    (hc : p.inComment = false) :
    next config p (renderBlock b) = .ok { p with
      line := p.line + 1
      statements := p.statements.push (.block { b.rebuilt with line := p.line + 1 }) } := by
  have hk : ∀ kind ∈ b.kinds, LexMode.punctuated.Knows kind := fun _ _ => .inl rfl
  have hlast : LexMode.punctuated.Knows .closeBrace := .inl rfl
  obtain ⟨tokens, hkinds, hscan⟩ := exists_scan_line (p.line + 1) hk hlast
  have hne : tokens ≠ [] := by rintro rfl; simp at hkinds
  rw [← renderBlock_eq] at hscan
  exact next_attributes hp hc (Header.detect?_renderBlock b) hne hscan (Statement.block?_eq hkinds)

/-! ### Lines that state nothing -/

/-- A line on which nothing but a comment or blanks stand states nothing, in any section. -/
theorem next_silent (hc : p.inComment = false) (ht : Header.detect? text = none)
    (hscan : ∀ mode line,
      Token.scan mode false line text = { tokens := .ok [], inComment := false }) :
    next config p text = .ok { p with line := p.line + 1 } := by
  rw [next_eq hc ht, readBody]
  simp only [hc, hscan]
  cases hp : p.current with
  | none => rfl
  | some h => cases h <;> rfl

/-- A line of a scheme that leaves no comment open states nothing. -/
theorem next_scheme (hp : p.current = some .scheme) (hc : p.inComment = false)
    (ht : Header.detect? text = none)
    (hscan : (Token.scan .words false (p.line + 1) text).inComment = false) :
    next config p text = .ok { p with line := p.line + 1 } := by
  rw [next_eq hc ht, readBody]
  simp [hp, hc, hscan]
  rfl

/-- A line that begins with a line comment states nothing. -/
theorem next_comment {cs : List Char} (hc : p.inComment = false) :
    next config p ('/' :: '/' :: cs) = .ok { p with line := p.line + 1 } := by
  refine next_silent hc (Header.detect?_eq_none (by decide) fun header => ?_) fun mode line => ?_
  · cases header <;> simp [Header.text]
  · rw [Token.scan, if_neg Bool.false_ne_true, Token.scanFrom]
    · rfl
    · decide
    · simp

/-- An empty line states nothing. -/
theorem next_empty (hc : p.inComment = false) :
    next config p [] = .ok { p with line := p.line + 1 } :=
  next_silent hc rfl fun _ _ => rfl

/-- The line of a header opens its section, if the section may stand there. -/
theorem next_header {h : Header} {p' : Progress} (hc : p.inComment = false)
    (hp : enter { p with line := p.line + 1 } h = .ok p') (hc' : p'.inComment = false) :
    next config p (h.text.toList ++ [' ', ':']) = .ok p' := by
  have hd : Header.detect? (h.text.toList ++ [' ', ':']) = some (h, [' ', ':']) := by
    cases h <;> decide
  have hscan : Token.scan .words p'.inComment p'.line [' ', ':'] =
      { tokens := .ok [⟨.word ":", p'.line, 2⟩], inComment := false } := by
    rw [Token.scan, hc', if_neg Bool.false_ne_true, Token.scanFrom_blank (by decide),
      show [':'] = (TokenKind.word ":").written by decide,
      Token.scanFrom_written _ _ (.inr ⟨_, rfl⟩)]
    rfl
  rw [next, readLine, if_neg (by simp [hc]), hd]
  simp only [hp, ok_bind, hscan]
  rw [← hc']
  rfl

end

end Document.Progress

end ArchFacts
