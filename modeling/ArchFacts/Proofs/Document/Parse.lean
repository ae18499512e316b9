import ArchFacts.Proofs.Document.Facts
import ArchFacts.Proofs.Document.Line

/-!
# What a text that is read states

A line that is read opens a section, says nothing, or adds the one statement that its tokens make
(`next_cases`). So the settings that a text is read under know all its pairs, whatever the settings
are (`parse_knows`), and no relation is listed twice or without pairs (`parse_tidy`).
-/

namespace ArchFacts

/-! ## Statements that are read -/

namespace Statement

section
variable {config : Config} {line : Nat} {tokens : List Token} {s : Statement}

/-- Only a word is read as a word. -/
theorem word_eq_ok {t : Token} {text : String} (h : word t = .ok text) : t.kind = .word text := by
  unfold word at h
  split at h
  · next hkind => rw [hkind, Except.ok.inj h]
  · cases h

/-- Only three words state a pair, which is one that the settings know. -/
theorem of_tuple? (h : tuple? config line tokens = .ok s) :
    ∃ relation pair, s = .tuple relation pair line ∧ config.Knows (relation, pair) ∧
      tokens.map (·.kind) = [.word relation, .word pair.first, .word pair.second] := by
  unfold tuple? at h
  split at h
  · next t₁ t₂ t₃ =>
    obtain ⟨relation, hrelation, h⟩ := bind_eq_ok_iff.1 h
    obtain ⟨first, hfirst, h⟩ := bind_eq_ok_iff.1 h
    obtain ⟨second, hsecond, h⟩ := bind_eq_ok_iff.1 h
    have hkinds : [t₁, t₂, t₃].map (·.kind) = [.word relation, .word first, .word second] := by
      simp [word_eq_ok hrelation, word_eq_ok hfirst, word_eq_ok hsecond]
    have hs : s = .tuple relation ⟨first, second⟩ line ∧
        config.Knows (relation, ⟨first, second⟩) := by
      unfold Config.Knows
      split at h
      · next hrel =>
        split at h
        · cases h
        · next hkind =>
          refine ⟨(Except.ok.inj h).symm, ?_⟩
          simpa [hrel, Option.isSome_iff_ne_none] using hkind
      · next hrel =>
        split at h
        · cases h
        · next hkind =>
          refine ⟨(Except.ok.inj h).symm, ?_⟩
          simpa [hrel, Option.isSome_iff_ne_none] using hkind
    exact ⟨relation, ⟨first, second⟩, hs.1, hs.2, hkinds⟩
  · cases h

/-- An attribute line states a block. -/
theorem of_block? (h : block? line tokens = .ok s) : ∃ b, s = .block b := by
  obtain ⟨⟨target, rest⟩, -, h⟩ := bind_eq_ok_iff.1 h
  obtain ⟨rest, -, h⟩ := bind_eq_ok_iff.1 h
  obtain ⟨attributes, -, h⟩ := bind_eq_ok_iff.1 h
  exact ⟨_, (Except.ok.inj h).symm⟩

end

end Statement

/-! ## Lines that are read -/

namespace Document.Progress

section
variable {config : Config} {p p' : Progress} {text : List Char}

/-- A line that is read in a section adds at most the statement that its tokens make there. -/
theorem readBody_cases (h : readBody config p text = .ok p') :
    (∃ mode, p'.inComment = (Token.scan mode p.inComment p.line text).inComment) ∧
    (p'.seenTuples = p.seenTuples ∧ p'.line = p.line) ∧
    (p'.statements = p.statements ∨
      (∃ b, p'.statements = p.statements.push (.block b)) ∨
      ∃ tokens s, (Token.scan .words p.inComment p.line text).tokens = .ok tokens ∧
        Statement.tuple? config p.line tokens = .ok s ∧
        p'.statements = p.statements.push s) := by
  rw [readBody] at h
  rcases hcurrent : p.current with _ | _ | _ | _
  · simp only [hcurrent, reduceCtorEq, if_false] at h
    obtain ⟨tokens, htokens, h⟩ := bind_eq_ok_iff.1 h
    cases h
    exact ⟨⟨_, rfl⟩, ⟨rfl, rfl⟩, .inl rfl⟩
  · simp only [hcurrent, reduceCtorEq, Option.some.injEq, if_false, if_true] at h
    cases h
    exact ⟨⟨_, rfl⟩, ⟨rfl, rfl⟩, .inl rfl⟩
  · simp only [hcurrent, reduceCtorEq, Option.some.injEq, if_false] at h
    obtain ⟨tokens, htokens, h⟩ := bind_eq_ok_iff.1 h
    split at h
    · cases h
      exact ⟨⟨_, rfl⟩, ⟨rfl, rfl⟩, .inl rfl⟩
    · obtain ⟨s, hs, h⟩ := bind_eq_ok_iff.1 h
      cases h
      exact ⟨⟨_, rfl⟩, ⟨rfl, rfl⟩, .inr (.inr ⟨tokens, s, mapError_eq_ok_iff.1 htokens, hs, rfl⟩)⟩
  · simp only [hcurrent, reduceCtorEq, Option.some.injEq, if_false, if_true] at h
    obtain ⟨tokens, htokens, h⟩ := bind_eq_ok_iff.1 h
    split at h
    · cases h
      exact ⟨⟨_, rfl⟩, ⟨rfl, rfl⟩, .inl rfl⟩
    · obtain ⟨s, hs, h⟩ := bind_eq_ok_iff.1 h
      cases h
      obtain ⟨b, rfl⟩ := Statement.of_block? hs
      exact ⟨⟨_, rfl⟩, ⟨rfl, rfl⟩, .inr (.inl ⟨b, rfl⟩)⟩

/-- The line of a header opens its section. -/
theorem enter_eq_ok {header : Header} (h : enter p header = .ok p') :
    p'.inComment = p.inComment ∧ p'.line = p.line ∧ p'.statements = p.statements ∧
      (p.seenTuples = true → p'.seenTuples = true) := by
  cases header with
  | scheme =>
    rw [enter] at h
    split at h
    · cases h
    · cases h
      exact ⟨rfl, rfl, rfl, id⟩
  | tuples =>
    cases h
    exact ⟨rfl, rfl, rfl, fun _ => rfl⟩
  | attributes =>
    rw [enter] at h
    split at h
    · cases h
      exact ⟨rfl, rfl, rfl, id⟩
    · cases h

/-- A line that is read opens a section, or is read in the section that is open. -/
theorem next_cases (h : next config p text = .ok p') :
    (p.seenTuples = true → p'.seenTuples = true) ∧
    ((∃ header rest, p.inComment = false ∧ Header.detect? text = some (header, rest) ∧
        p'.inComment = (Token.scan .words false (p.line + 1) rest).inComment ∧
        p'.statements = p.statements) ∨
      (p.inComment = false → Header.detect? text = none) ∧
        (∃ mode, p'.inComment = (Token.scan mode p.inComment (p.line + 1) text).inComment) ∧
        (p'.statements = p.statements ∨
          (∃ b, p'.statements = p.statements.push (.block b)) ∨
          ∃ tokens s, (Token.scan .words p.inComment (p.line + 1) text).tokens = .ok tokens ∧
            Statement.tuple? config (p.line + 1) tokens = .ok s ∧
            p'.statements = p.statements.push s)) := by
  rw [next, mapError_eq_ok_iff, readLine] at h
  split at h
  · next header rest hdetect =>
    obtain ⟨q, henter, h⟩ := bind_eq_ok_iff.1 h
    obtain ⟨_, _, h⟩ := bind_eq_ok_iff.1 h
    cases h
    obtain ⟨hcomment, hline, hstatements, hseen⟩ := enter_eq_ok henter
    split at hdetect
    · cases hdetect
    · next hc =>
      have hc : p.inComment = false := by simpa using hc
      refine ⟨hseen, .inl ⟨header, rest, hc, hdetect, ?_, hstatements⟩⟩
      rw [hcomment, hline, hc]
  · next hdetect =>
    obtain ⟨hmode, ⟨hseen, -⟩, hstatements⟩ := readBody_cases h
    refine ⟨fun h => hseen.trans h, .inr ⟨fun hc => ?_, hmode, hstatements⟩⟩
    simpa [hc] using hdetect

/-- A line that is read adds at most one statement, and no pair that the settings do not know. -/
theorem statements_next (h : next config p text = .ok p') :
    p'.statements = p.statements ∨ ∃ s, p'.statements = p.statements.push s ∧
      ∀ relation pair line, s = .tuple relation pair line → config.Knows (relation, pair) := by
  rcases (next_cases h).2 with ⟨_, _, _, _, _, hs⟩ |
    ⟨_, _, hs | ⟨b, hs⟩ | ⟨tokens, s, _, hs, hpush⟩⟩
  · exact .inl hs
  · exact .inl hs
  · exact .inr ⟨_, hs, fun _ _ _ hb => nomatch hb⟩
  · obtain ⟨relation, pair, rfl, hknows, _⟩ := Statement.of_tuple? hs
    refine .inr ⟨_, hpush, fun relation' pair' line' heq => ?_⟩
    cases heq
    exact hknows

end

end Document.Progress

/-! ## Texts that are read -/

namespace Document

section
variable {config : Config} {text : String} {d : Document} {t : String × Pair}

/-- The pairs of the document of some statements are those that are stated. -/
theorem mem_tuples_ofStatements {statements : List Statement} :
    t ∈ (ofStatements statements).tuples ↔ ∃ line, .tuple t.1 t.2 line ∈ statements := by
  have hfold : ∀ rs, t ∈ (statements.foldl addStatement rs).flatMap Relation.tuples ↔
      (∃ line, .tuple t.1 t.2 line ∈ statements) ∨ t ∈ rs.flatMap Relation.tuples := by
    induction statements with
    | nil => simp
    | cons s statements ih =>
      intro rs
      rw [List.foldl_cons, ih]
      cases s with
      | tuple relation pair line =>
        rw [addStatement, mem_tuples_insertPair]
        simp only [List.mem_cons, Statement.tuple.injEq, exists_or, Prod.ext_iff]
        grind
      | block b => simp [addStatement]
  rw [tuples, relations_ofStatements, hfold]
  simp

/-- A text that is read states a list of pairs that the settings know, and blocks. -/
theorem exists_statements_of_parse (h : parse config text = .ok d) :
    ∃ statements, d = ofStatements statements ∧
      ∀ relation pair line, .tuple relation pair line ∈ statements →
        config.Knows (relation, pair) := by
  obtain ⟨p, hread, h⟩ := bind_eq_ok_iff.1 h
  have hknows : ∀ relation pair line, .tuple relation pair line ∈ p.statements →
      config.Knows (relation, pair) := by
    refine foldlM_preserves (P := fun p : Progress => ∀ relation pair line,
      .tuple relation pair line ∈ p.statements → config.Knows (relation, pair)) hread ?_ ?_
    · intro _ _ _ hmem
      cases Array.not_mem_empty _ hmem
    · intro _ _ p p' hp hnext relation pair line hmem
      rcases Progress.statements_next hnext with hs | ⟨s, hs, hknows⟩
      · exact hp relation pair line (hs ▸ hmem)
      · rw [hs, Array.mem_push] at hmem
        exact hmem.elim (hp relation pair line) fun heq => hknows _ _ _ heq.symm
  split at h
  · cases h
    exact ⟨_, rfl, fun relation pair line hmem => hknows relation pair line (by simpa using hmem)⟩
  · cases h

/-- The pairs of a text that is read are known to the settings it is read under. -/
theorem parse_knows (h : parse config text = .ok d) : ∀ t ∈ d.tuples, config.Knows t := by
  obtain ⟨statements, rfl, hknows⟩ := exists_statements_of_parse h
  intro t ht
  obtain ⟨line, hmem⟩ := mem_tuples_ofStatements.1 ht
  exact hknows t.1 t.2 line hmem

/-- The document of some statements lists no relation twice and none without pairs. -/
theorem tidy_ofStatements (statements : List Statement) :
    Tidy (ofStatements statements).relations := by
  rw [relations_ofStatements]
  refine List.foldlRecOn statements addStatement ⟨.nil, by simp⟩ fun rs htidy s _ => ?_
  cases s with
  | tuple relation pair line => exact htidy.insertPair
  | block b => exact htidy

/-- A text that is read states no relation twice and none without pairs. -/
theorem parse_tidy (h : parse config text = .ok d) : Tidy d.relations := by
  obtain ⟨statements, rfl, -⟩ := exists_statements_of_parse h
  exact tidy_ofStatements statements

end

end Document

end ArchFacts
