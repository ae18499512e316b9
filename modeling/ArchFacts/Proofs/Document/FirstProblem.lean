import ArchFacts.Proofs.Document.Parse

/-!
# The first problem of a text

A text is read line by line, and the reader knows no more than the lines before the one that it
reads. So it fails at the first line that has a problem, and the error says which line that is
(`next_eq_error`, `line_foldlM`); or all lines are read and no section of tuples has started
(`parse_eq_error_iff`). The error is therefore one of every text that begins with the same lines,
and the lines before the problem have none (`parse_first_problem`).
-/

namespace ArchFacts

/-! ## The first lines of a text -/

namespace Text

/-- The lines that have been read come first. -/
theorem linesAfter_eq (before : List (List Char)) (line chars : List Char) :
    linesAfter before line chars = before.reverse ++ linesAfter [] line chars := by
  induction chars generalizing before line with
  | nil =>
    rw [linesAfter, linesAfter]
    split <;> simp
  | cons c rest ih =>
    rw [linesAfter, linesAfter]
    split
    · rw [ih, ih [_]]
      simp
    · rw [ih]

/-- A line feed ends the line, and a carriage return before it is dropped. -/
theorem linesAfter_newline (line rest : List Char) :
    linesAfter [] line ('\n' :: rest) = dropReturn line.reverse :: lines rest := by
  rw [linesAfter, if_pos rfl, linesAfter_eq]
  rfl

theorem linesAfter_char {c : Char} (hc : c ≠ '\n') (line rest : List Char) :
    linesAfter [] line (c :: rest) = linesAfter [] (c :: line) rest := by
  rw [linesAfter, if_neg hc]

/-- The first lines of the rest of a text, the line that has begun among them, are those of a part
at its front. -/
theorem exists_front_linesAfter (line chars : List Char) (n : Nat) :
    ∃ front, front <+: chars ∧
      linesAfter [] line front = (linesAfter [] line chars).take (n + 1) := by
  induction chars generalizing line n with
  | nil =>
    refine ⟨[], List.prefix_refl [], (List.take_of_length_le ?_).symm⟩
    rw [linesAfter]
    split <;> simp
  | cons c rest ih =>
    by_cases hc : c = '\n'
    · subst hc
      cases n with
      | zero => exact ⟨['\n'], by simp, by rw [linesAfter_newline, linesAfter_newline]; rfl⟩
      | succ n =>
        obtain ⟨front, hfront, hlines⟩ := ih [] n
        refine ⟨'\n' :: front, by simpa using hfront, ?_⟩
        rw [linesAfter_newline, linesAfter_newline, List.take_succ_cons, lines, hlines]
        rfl
    · obtain ⟨front, hfront, hlines⟩ := ih (c :: line) n
      exact ⟨c :: front, by simpa using hfront, by
        rw [linesAfter_char hc, linesAfter_char hc, hlines]⟩

/-- The first lines of a text are the lines of a part at its front. -/
theorem exists_front_lines (chars : List Char) (n : Nat) :
    ∃ front, front <+: chars ∧ lines front = (lines chars).take n := by
  cases n with
  | zero => exact ⟨[], List.nil_prefix, rfl⟩
  | succ n => exact exists_front_linesAfter [] chars n

end Text

namespace Document

/-- The lines that are read of a text: those after the byte order mark, if there is one. -/
def linesOf (text : String) : List (List Char) := Text.lines (Text.dropMark text.toList)

/-- The first lines that are read of a text are those of a part at its front. -/
theorem exists_front_linesOf (text : String) (n : Nat) :
    ∃ front : String, front.toList <+: text.toList ∧ linesOf front = (linesOf text).take n := by
  unfold linesOf
  cases htext : text.toList with
  | nil => exact ⟨"", by simp, by simp [Text.dropMark, Text.lines, Text.linesAfter]⟩
  | cons c rest =>
    by_cases hc : c = Text.byteOrderMark
    · obtain ⟨front, hfront, hlines⟩ := Text.exists_front_lines rest n
      refine ⟨String.ofList (c :: front), by simpa using hfront, ?_⟩
      simpa [Text.dropMark, hc] using hlines
    · obtain ⟨front, hfront, hlines⟩ := Text.exists_front_lines (c :: rest) n
      have hmark : Text.dropMark front = front := by
        cases front with
        | nil => rfl
        | cons c' front =>
          obtain rfl : c' = c := (List.cons_prefix_cons.1 hfront).1
          exact if_neg hc
      refine ⟨String.ofList front, by simpa using hfront, ?_⟩
      rw [String.toList_ofList, hmark, hlines]
      simp [Text.dropMark, hc]

/-! ## Where reading fails -/

namespace Progress

section
variable {config : Config} {p p' : Progress} {text : List Char} {ls : List (List Char)}
variable {e : FactError}

/-- A problem is one of the line that is read. -/
theorem next_eq_error (h : next config p text = .error e) :
    ∃ problem : LineProblem, e = .format (p.line + 1) problem.message := by
  obtain ⟨problem, -, rfl⟩ := mapError_eq_error_iff.1 h
  exact ⟨problem, rfl⟩

/-- A line that is read is counted. -/
theorem line_next (h : next config p text = .ok p') : p'.line = p.line + 1 := by
  rw [next, mapError_eq_ok_iff, readLine] at h
  split at h
  · obtain ⟨q, henter, h⟩ := bind_eq_ok_iff.1 h
    obtain ⟨_, _, h⟩ := bind_eq_ok_iff.1 h
    cases h
    exact (enter_eq_ok henter).2.1
  · exact (readBody_cases h).2.1.2

/-- Reading lines counts them. -/
theorem line_foldlM (h : ls.foldlM (next config) p = .ok p') :
    p'.line = p.line + ls.length := by
  induction ls generalizing p with
  | nil =>
    cases h
    rfl
  | cons l ls ih =>
    rw [List.foldlM_cons] at h
    obtain ⟨q, hnext, h⟩ := bind_eq_ok_iff.1 h
    rw [ih h, line_next hnext, List.length_cons]
    omega

end

end Progress

section
variable {config : Config} {text : String} {e : FactError}

/-- Reading fails at a line, or no section of tuples has started when all lines are read. -/
theorem parse_eq_error_iff : parse config text = .error e ↔
    (∃ p, (linesOf text).foldlM (Progress.next config) {} = .ok p ∧ p.seenTuples = false ∧
      e = .format (linesOf text).length LineProblem.missingTuples.message) ∨
    (linesOf text).foldlM (Progress.next config) {} = .error e := by
  rw [parse]
  change ((linesOf text).foldlM (Progress.next config) {} >>= _) = _ ↔ _
  cases hread : (linesOf text).foldlM (Progress.next config) {} with
  | error e' =>
    rw [error_bind, Except.error.injEq, Except.error.injEq]
    exact ⟨.inr, fun h => h.resolve_left fun ⟨_, hp, _⟩ => nomatch hp⟩
  | ok p =>
    have hline : p.line = (linesOf text).length := by simpa using Progress.line_foldlM hread
    rw [ok_bind, hline]
    split
    · next hseen =>
      constructor
      · intro h
        cases h
      · rintro (⟨_, hp, hunseen, -⟩ | hp)
        · cases hp
          rw [hseen] at hunseen
          cases hunseen
        · cases hp
    · next hseen =>
      constructor
      · intro h
        exact .inl ⟨p, rfl, Bool.eq_false_iff.2 hseen, (Except.error.inj h).symm⟩
      · rintro (⟨_, -, -, rfl⟩ | hp)
        · rfl
        · cases hp

/-- A text whose lines have no problem is read, or lacks a section of tuples. -/
theorem parse_of_foldlM {p : Progress}
    (h : (linesOf text).foldlM (Progress.next config) {} = .ok p) :
    (∃ d, parse config text = .ok d) ∨ parse config text =
      .error (.format (linesOf text).length LineProblem.missingTuples.message) := by
  cases hparse : parse config text with
  | ok d => exact .inl ⟨d, rfl⟩
  | error e =>
    rcases parse_eq_error_iff.1 hparse with ⟨_, -, -, rfl⟩ | herror
    · exact .inr rfl
    · rw [h] at herror
      cases herror

/-- **An error names the first line that has a problem, and depends on nothing after it.** If a text
fails, it does so with a format error on some line. Either all lines are read and the section of
tuples is missing; the line is then the last. Or it is one of the lines, every text that begins
with the same lines up to it fails with the same error, and every text that consists of the lines
before it, which is what a part at the front of the text does, is read or lacks just the section of
tuples. -/
theorem parse_first_problem (h : parse config text = .error e) :
    ∃ line detail, e = .format line detail ∧
      ((detail = LineProblem.missingTuples.message ∧ line = (linesOf text).length) ∨
        (1 ≤ line ∧ line ≤ (linesOf text).length) ∧
        (∀ text', (linesOf text').take line = (linesOf text).take line →
          parse config text' = .error e) ∧
        (∃ before : String, before.toList <+: text.toList ∧
          linesOf before = (linesOf text).take (line - 1)) ∧
        ∀ before, linesOf before = (linesOf text).take (line - 1) →
          (∃ d, parse config before = .ok d) ∨ parse config before =
            .error (.format (line - 1) LineProblem.missingTuples.message)) := by
  rcases parse_eq_error_iff.1 h with ⟨_, -, -, rfl⟩ | herror
  · exact ⟨_, _, rfl, .inl ⟨rfl, rfl⟩⟩
  obtain ⟨before, l, after, p, hlines, hbefore, hnext⟩ := foldlM_eq_error_iff.1 herror
  obtain ⟨problem, rfl⟩ := Progress.next_eq_error hnext
  have hline : p.line = before.length := by simpa using Progress.line_foldlM hbefore
  have htake : (linesOf text).take (before.length + 1) = before ++ [l] := by
    rw [hlines, List.take_length_add_append]
    rfl
  have hfront : (linesOf text).take before.length = before := by
    rw [hlines, List.take_left]
  refine ⟨p.line + 1, problem.message, rfl, .inr ⟨⟨by omega, ?_⟩, fun text' htext' => ?_, ?_, ?_⟩⟩
  · rw [hline, hlines]
    simp
  · -- the other text goes on after these lines in its own way
    rw [hline, htake] at htext'
    have hlines' : linesOf text' = before ++ l :: (linesOf text').drop (before.length + 1) := by
      rw [← List.singleton_append, ← List.append_assoc, ← htext', List.take_append_drop]
    refine parse_eq_error_iff.2 (.inr ?_)
    exact foldlM_eq_error_iff.2 ⟨before, l, _, p, hlines', hbefore, hnext⟩
  · exact exists_front_linesOf text (p.line + 1 - 1)
  · intro front hlinesFront
    rw [Nat.add_sub_cancel, hline, hfront] at hlinesFront
    rw [Nat.add_sub_cancel, hline, ← hlinesFront]
    exact parse_of_foldlM (hlinesFront ▸ hbefore)

/-- A text whose third line names an unknown relation, and whose last line has a problem too. -/
def misnamedText : String :=
  "\uFEFFFACT TUPLE :\r\n$INSTANCE q cClass\nteleport q q\ncall q\n"

/-- The first three lines of this text, without its mark and with other line ends. -/
def misnamedFront : String := "FACT TUPLE :\n$INSTANCE q cClass\r\nteleport q q"

theorem parse_first_problem_misnamed :
    let e := FactError.format 3 "unknown relation `teleport`"
    parse {} misnamedText = .error e ∧ parse {} misnamedFront = .error e ∧
    ∃ before : String, before.toList <+: misnamedText.toList ∧
      linesOf before = (linesOf misnamedText).take 2 ∧
      ((∃ d, parse {} before = .ok d) ∨
        parse {} before = .error (.format 2 LineProblem.missingTuples.message)) := by
  have h : parse {} misnamedText = .error (.format 3 "unknown relation `teleport`") := by
    decide +kernel
  obtain ⟨line, detail, heq, hcases⟩ := parse_first_problem h
  cases heq
  rcases hcases with ⟨hmissing, -⟩ | ⟨-, hsame, ⟨before, hprefix, hlines⟩, hbefore⟩
  · exact absurd hmissing (by decide)
  · exact ⟨h, hsame misnamedFront (by decide +kernel), before, hprefix, hlines,
      hbefore before hlines⟩

end

end Document

end ArchFacts
