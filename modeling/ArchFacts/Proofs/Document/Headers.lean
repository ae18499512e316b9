import ArchFacts.Proofs.Document.Parse
import ArchFacts.Proofs.Document.RoundTrip

/-!
# Tuples that are mistaken for headers

The line of a block never begins like a header. The line of a tuple does exactly if the tuple spells
one (`SpellsHeader`): its relation is the first word of a header and its id, written without quotes,
begins with the second (`isSome_detect?_renderPair`). Settings may name such a relation only as
their entity relation. What is read of a document with such a tuple never holds the tuple
(`not_mem_tuples_of_parse_render`), so a document is restored by reading what is written of it
exactly if none of its tuples spells a header (`parse_render_iff`).
-/

namespace ArchFacts

/-- Whether a tuple spells a header: its relation is the first word of the header, and its id begins
with the second and stands without quotes. -/
def SpellsHeader (relation id : String) : Prop :=
  ∃ h : Header, relation = h.words.1 ∧ Token.needsQuoting id.toList = false ∧
    h.words.2.toList <+: id.toList

namespace Token

section
variable {word before after : List Char}

/-- A part at the end of some characters begins no comment if the characters do not. -/
theorem hasCommentMark_append (h : hasCommentMark (before ++ after) = false) :
    hasCommentMark after = false := by
  induction before with
  | nil => exact h
  | cons c cs ih =>
    rw [List.cons_append, hasCommentMark, Bool.or_eq_false_iff] at h
    exact ih h.2

/-- A part at the end of a word that stands without quotes does so too, unless it is empty. -/
theorem needsQuoting_append (h : needsQuoting (before ++ after) = false) (hne : after ≠ []) :
    needsQuoting after = false := by
  simp only [needsQuoting, List.any_append, Bool.or_eq_false_iff] at h ⊢
  exact ⟨⟨by simpa using hne, h.1.2.2⟩, hasCommentMark_append h.2⟩

theorem quote_of_needsQuoting (h : needsQuoting word = false) : quote word = word :=
  if_neg (by simp [h])

end

end Token

namespace Header

section
variable {header : Header} {relation : String} {pair : Pair} {rest word cs : List Char}

theorem space_not_mem_second (header : Header) : ' ' ∉ header.words.2.toList := by
  cases header <;> decide

/-- What begins like a header is a line of it. -/
theorem detect?_append (header : Header) (rest : List Char) :
    detect? (header.text.toList ++ rest) = some (header, rest) := by
  cases header <;> rfl

/-- A word without spaces that begins a text begins its first word. -/
theorem prefix_of_append_space (hw : ' ' ∉ word) (h : word <+: cs ++ ' ' :: rest) :
    word <+: cs := by
  rcases List.prefix_or_prefix_of_prefix h (List.prefix_append cs _) with hprefix | ⟨t, rfl⟩
  · exact hprefix
  · cases t with
    | nil => simp
    | cons c t =>
      have hc : c = ' ' := (List.cons_prefix_cons.1 ((List.prefix_append_right_inj cs).1 h)).1
      exact absurd (List.mem_append_right cs (by simp [hc])) hw

/-- A word begins like the second word of a header only if it stands without quotes. -/
theorem prefix_of_prefix_quote (h : header.words.2.toList <+: Token.quote word ++ ' ' :: rest) :
    Token.needsQuoting word = false ∧ header.words.2.toList <+: word := by
  have hword : header.words.2.toList <+: Token.quote word :=
    prefix_of_append_space (space_not_mem_second header) h
  rw [Token.quote] at hword
  split at hword
  · cases header <;> simp [words] at hword
  · next hquote => exact ⟨by simpa using hquote, hword⟩

/-- The line of a tuple that spells a header is the header and what follows it. -/
theorem detect?_renderPair_of_eq (hr : relation = header.words.1)
    (hq : Token.needsQuoting pair.first.toList = false)
    (hid : pair.first.toList = header.words.2.toList ++ cs) :
    detect? (Document.renderPair relation pair) =
      some (header, cs ++ ' ' :: Token.quote pair.second.toList) := by
  have hrelation : Token.quote relation.toList = header.words.1.toList := by
    subst hr
    cases header <;> decide
  have hline : Document.renderPair relation pair =
      header.text.toList ++ (cs ++ ' ' :: Token.quote pair.second.toList) := by
    rw [Document.renderPair, hrelation, Token.quote_of_needsQuoting hq, hid, text_eq]
    simp
  rw [hline, detect?_append]

/-- The line of a tuple begins like a header only by its relation and its id, of which the rest
stands on the line after the header. -/
theorem detect?_renderPair_eq_some_iff :
    detect? (Document.renderPair relation pair) = some (header, rest) ↔
      relation = header.words.1 ∧ Token.needsQuoting pair.first.toList = false ∧
        ∃ cs, pair.first.toList = header.words.2.toList ++ cs ∧
          rest = cs ++ ' ' :: Token.quote pair.second.toList := by
  constructor
  · intro h
    obtain ⟨header', hword, hprefix⟩ : ∃ header' : Header,
        header'.words.1.toList = relation.toList ∧ header'.words.2.toList <+:
          Token.quote pair.first.toList ++ ' ' :: Token.quote pair.second.toList := by
      refine Classical.not_not.1 fun hno => ?_
      rw [Document.renderPair, List.append_assoc, List.cons_append,
        detect?_quote fun header' hword hprefix => hno ⟨header', hword, hprefix⟩] at h
      cases h
    obtain ⟨hquote, cs, hid⟩ := prefix_of_prefix_quote hprefix
    have hrelation : relation = header'.words.1 := (String.toList_inj.1 hword).symm
    rw [detect?_renderPair_of_eq hrelation hquote hid.symm] at h
    cases h
    exact ⟨hrelation, hquote, cs, hid.symm, rfl⟩
  · rintro ⟨hrelation, hquote, cs, hid, rfl⟩
    exact detect?_renderPair_of_eq hrelation hquote hid

/-- The line of a tuple begins like a header exactly if the tuple spells one. -/
theorem isSome_detect?_renderPair :
    (detect? (Document.renderPair relation pair)).isSome ↔ SpellsHeader relation pair.first := by
  rw [Option.isSome_iff_exists]
  constructor
  · rintro ⟨⟨header, rest⟩, h⟩
    obtain ⟨hrelation, hquote, cs, hid, -⟩ := detect?_renderPair_eq_some_iff.1 h
    exact ⟨header, hrelation, hquote, cs, hid.symm⟩
  · rintro ⟨header, hrelation, hquote, cs, hid⟩
    exact ⟨_, detect?_renderPair_eq_some_iff.2 ⟨hrelation, hquote, cs, hid.symm, rfl⟩⟩

/-- The words of a tuple after the header that it spells leave no comment open. -/
theorem inComment_scan_of_detect? {mode : LexMode} {line : Nat}
    (h : detect? (Document.renderPair relation pair) = some (header, rest)) :
    (Token.scan mode false line rest).inComment = false := by
  obtain ⟨-, hquote, cs, hid, rfl⟩ := detect?_renderPair_eq_some_iff.1 h
  have hsecond : mode.Knows (.word pair.second) := .inr ⟨_, rfl⟩
  rw [Token.scan, if_neg Bool.false_ne_true]
  by_cases hcs : cs = []
  · rw [hcs, List.nil_append, Token.scanFrom_blank (by decide), Token.inComment_consWord]
    exact congrArg Token.Scan.inComment (Token.scanFrom_written line _ hsecond)
  · have hfirst : (TokenKind.word (String.ofList cs)).written = cs := by
      rw [TokenKind.written, String.toList_ofList]
      exact Token.quote_of_needsQuoting (Token.needsQuoting_append (hid ▸ hquote) hcs)
    have hknows : mode.Knows (.word (String.ofList cs)) := .inr ⟨_, rfl⟩
    obtain ⟨column, hscan⟩ :=
      Token.scanFrom_written_space line 1 hknows (TokenKind.word pair.second).written
    rw [hfirst] at hscan
    rw [show Token.quote pair.second.toList = (TokenKind.word pair.second).written from rfl, hscan]
    exact congrArg Token.Scan.inComment (Token.scanFrom_written line _ hsecond)

end

end Header

/-! ## What is read of a document with such tuples -/

namespace Document

section
variable {config : Config} {d : Document} {p p' : Progress} {generated : String}

/-- What is known of a reader of the lines of tuples: no comment is open, the section of tuples has
begun, and no pair that has been stated spells a header. -/
structure Progress.SpellsNone (p : Progress) : Prop where
  inComment : p.inComment = false
  seenTuples : p.seenTuples = true
  stated : ∀ relation pair line, .tuple relation pair line ∈ p.statements →
    ¬ SpellsHeader relation pair.first

/-- The line of a tuple states the tuple only if it spells no header, in whatever section the line
is read. -/
theorem Progress.SpellsNone.next {relation : String} {pair : Pair} (hp : p.SpellsNone)
    (h : Progress.next config p (renderPair relation pair) = .ok p') : p'.SpellsNone := by
  obtain ⟨hseen, hcases⟩ := next_cases h
  have hscan := fun mode => exists_scan_renderPair mode (p.line + 1) relation pair
  rw [hp.inComment] at hcases
  rcases hcases with ⟨header, rest, -, hdetect, hcomment, hs⟩ |
    ⟨hdetect, ⟨mode, hcomment⟩, hstatements⟩
  · refine ⟨?_, hseen hp.seenTuples, fun relation' pair' line hmem => ?_⟩
    · rw [hcomment, Header.inComment_scan_of_detect? hdetect]
    · exact hp.stated relation' pair' line (hs ▸ hmem)
  · refine ⟨?_, hseen hp.seenTuples, fun relation' pair' line hmem => ?_⟩
    · obtain ⟨tokens, -, htokens⟩ := hscan mode
      rw [hcomment, htokens]
    · rcases hstatements with hs | ⟨b, hs⟩ | ⟨tokens, s, htokens, hs, hpush⟩
      · exact hp.stated relation' pair' line (hs ▸ hmem)
      · rw [hs, Array.mem_push] at hmem
        exact hmem.elim (hp.stated relation' pair' line) nofun
      · rw [hpush, Array.mem_push] at hmem
        refine hmem.elim (hp.stated relation' pair' line) ?_
        rintro rfl
        obtain ⟨_, _, heq, -, hkinds⟩ := Statement.of_tuple? hs
        cases heq
        obtain ⟨tokens', hkinds', htokens'⟩ := hscan .words
        rw [htokens'] at htokens
        cases htokens
        rw [hkinds'] at hkinds
        simp only [List.cons.injEq, TokenKind.word.injEq, and_true] at hkinds
        obtain ⟨rfl, hfirst, -⟩ := hkinds
        rw [← hfirst, ← Header.isSome_detect?_renderPair, hdetect rfl]
        exact Bool.false_ne_true

/-- No line of the section of tuples states a pair that spells a header. -/
theorem Progress.SpellsNone.tupleLines (hp : p.SpellsNone)
    (h : (d.tupleLines.map Text.dropReturn).foldlM (Progress.next config) p = .ok p') :
    p'.SpellsNone := by
  refine foldlM_preserves h hp fun line hline p p' hp hnext => ?_
  rw [dropReturn_tupleLines] at hline
  obtain ⟨t, -, rfl⟩ := List.mem_map.1 hline
  exact hp.next hnext

/-- What is read of a written document is what its lines of tuples state, and its blocks. -/
theorem exists_spellsNone_of_parse_render (hc : config.validate = .ok ())
    (hg : '\n' ∉ generated.toList) {d' : Document}
    (hd : parse config (d.render config generated) = .ok d') :
    ∃ (p : Progress) (statements : List Statement), p.SpellsNone ∧
      d' = ofStatements statements ∧
      statements.map Statement.unlined = p.statements.toList.map Statement.unlined ++
        d.blocks.map fun b => .block b.rebuilt.unlined := by
  have hstart : Progress.Shows {} ⟨none, false, []⟩ := ⟨rfl, rfl, rfl, rfl⟩
  have hopen : Reads config ((preamble config generated).map Text.dropReturn ++
      [Header.tuples.text.toList ++ [' ', ':']]) ⟨none, false, []⟩ ⟨some .tuples, true, []⟩ :=
    (reads_preamble config generated).append (reads_header (by simp) (by simp))
  obtain ⟨p₀, hread₀, hp₀⟩ := hopen {} hstart
  have hnone₀ : p₀.SpellsNone := by
    refine ⟨hp₀.inComment, hp₀.seenTuples, fun relation pair line hmem => ?_⟩
    have hnil : p₀.statements.toList = [] := List.map_eq_nil_iff.1 hp₀.statements
    rw [← Array.mem_toList_iff, hnil] at hmem
    cases hmem
  have hlines : (renderLines config generated d).map Text.dropReturn =
      ((preamble config generated).map Text.dropReturn ++
        [Header.tuples.text.toList ++ [' ', ':']]) ++ d.tupleLines.map Text.dropReturn ++
        [] :: (Header.attributes.text.toList ++ [' ', ':']) ::
          (d.blocks.map renderBlock).map Text.dropReturn := by
    rw [dropReturn_renderLines]
    simp
  rw [parse, lines_render hc hg, hlines] at hd
  obtain ⟨p₂, hread, hd⟩ := bind_eq_ok_iff.1 hd
  rw [List.foldlM_append, List.foldlM_append, hread₀, ok_bind] at hread
  obtain ⟨p₁, hread₁, hread₂⟩ := bind_eq_ok_iff.1 hread
  have hnone₁ : p₁.SpellsNone := hnone₀.tupleLines hread₁
  obtain ⟨p₃, hread₃, hp₃⟩ := (reads_blockSection d.blocks : Reads config _ _ _) p₁
    ⟨hnone₁.inComment, rfl, hnone₁.seenTuples, rfl⟩
  rw [hread₂] at hread₃
  cases hread₃
  rw [if_pos hp₃.seenTuples] at hd
  cases hd
  exact ⟨p₁, _, hnone₁, rfl, hp₃.statements⟩

/-- A tuple that spells a header is never among what is read of a written document. -/
theorem not_mem_tuples_of_parse_render (hc : config.validate = .ok ())
    (hg : '\n' ∉ generated.toList) {d' : Document}
    (hd : parse config (d.render config generated) = .ok d') {t : String × Pair}
    (ht : SpellsHeader t.1 t.2.first) : t ∉ d'.tuples := by
  obtain ⟨p, statements, hnone, rfl, hunlined⟩ := exists_spellsNone_of_parse_render hc hg hd
  intro hmem
  obtain ⟨line, hmem⟩ := mem_tuples_ofStatements.1 hmem
  have hstated : Statement.unlined (.tuple t.1 t.2 line) ∈ statements.map Statement.unlined :=
    List.mem_map_of_mem hmem
  rw [hunlined, List.mem_append] at hstated
  rcases hstated with hstated | hstated
  · obtain ⟨s, hs, heq⟩ := List.mem_map.1 hstated
    cases s with
    | tuple relation pair line' =>
      cases heq
      exact hnone.stated _ _ line' (Array.mem_toList_iff.1 hs) ht
    | block b => cases heq
  · obtain ⟨b, -, heq⟩ := List.mem_map.1 hstated
    cases heq

/-- A tuple of known relations that spells a header is one of the entity relation. -/
theorem eq_entityRelation_of_spellsHeader (hk : Known config d.relations) {t : String × Pair}
    (h : t ∈ d.tuples) (ht : SpellsHeader t.1 t.2.first) : t.1 = config.entityRelation := by
  obtain ⟨r, hr, hmem⟩ := List.mem_flatMap.1 h
  obtain ⟨hname, -⟩ := mem_relationTuples.1 hmem
  refine hname.trans ((hk r hr).elim (·.1) fun htag => ?_)
  obtain ⟨header, hword, -⟩ := ht
  rw [← hname, hword] at htag
  cases header <;> exact absurd htag (by decide)

/-- **What is lost to headers.** No line of a block begins like a header, and the line of a tuple
does exactly if the tuple spells one, which only tuples of the entity relation can. Such a tuple is
not among what is read of the document. So a document that is built and that the settings know reads
back as itself, lines apart and its attributes added anew, exactly if no tuple spells a header. -/
theorem parse_render_iff (hc : config.validate = .ok ()) (hg : '\n' ∉ generated.toList)
    (hd : d.Built) (hk : Known config d.relations) :
    (∀ b ∈ d.blocks, Header.detect? (renderBlock b) = none) ∧
    (∀ t ∈ d.tuples, (Header.detect? (renderPair t.1 t.2)).isSome ↔
      SpellsHeader t.1 t.2.first) ∧
    (∀ t ∈ d.tuples, SpellsHeader t.1 t.2.first → t.1 = config.entityRelation ∧
      ∀ d', parse config (d.render config generated) = .ok d' → t ∉ d'.tuples) ∧
    ((∃ d', parse config (d.render config generated) = .ok d' ∧
        d'.unlined = d.rebuilt.unlined) ↔
      ∀ t ∈ d.tuples, ¬ SpellsHeader t.1 t.2.first) := by
  refine ⟨fun b _ => Header.detect?_renderBlock b,
    fun t _ => Header.isSome_detect?_renderPair,
    fun t hmem ht => ⟨eq_entityRelation_of_spellsHeader hk hmem ht,
      fun d' hd' => not_mem_tuples_of_parse_render hc hg hd' ht⟩, ?_, fun hnone => ?_⟩
  · rintro ⟨d', hparse, heq⟩ t hmem ht
    refine not_mem_tuples_of_parse_render hc hg hparse ht ?_
    rw [← tuples_unlined, heq, tuples_unlined]
    exact hmem
  · refine parse_render_of_detect?_eq_none hc hg hd.tidy hk fun t hmem => ?_
    rw [← Option.not_isSome_iff_eq_none, Header.isSome_detect?_renderPair]
    exact hnone t hmem

/-- Settings whose entity relation is the first word of two headers. -/
def factConfig : Config := .ofEntityRelation "FACT"

theorem validate_factConfig : factConfig.validate = .ok () := by
  have hp : factConfig.problem? = none := by decide
  rw [Config.validate, hp]

/-- A document that declares an entity by the second word of a header. -/
def headerTuple : Document := (∅ : Document).addTuple "FACT" ⟨"TUPLE", "cFile"⟩

theorem built_headerTuple : headerTuple.Built := .addTuple _ _ _ .empty

theorem known_headerTuple : Known factConfig headerTuple.relations :=
  Known.insertPair (by simp [Known]) (.inl ⟨rfl, rfl⟩)

theorem mem_tuples_headerTuple : ("FACT", ⟨"TUPLE", "cFile"⟩) ∈ headerTuple.tuples :=
  mem_tuples_insertPair.2 (.inl rfl)

theorem parse_render_iff_headerTuple :
    factConfig.validate = .ok () ∧ headerTuple.Built ∧ Known factConfig headerTuple.relations ∧
      (∀ b ∈ headerTuple.blocks, Header.detect? (renderBlock b) = none) ∧
      (∀ t ∈ headerTuple.tuples, (Header.detect? (renderPair t.1 t.2)).isSome ↔
        SpellsHeader t.1 t.2.first) ∧
      (∀ t ∈ headerTuple.tuples, SpellsHeader t.1 t.2.first → t.1 = factConfig.entityRelation ∧
        ∀ d', parse factConfig (headerTuple.render factConfig "then") = .ok d' → t ∉ d'.tuples) ∧
      ((∃ d', parse factConfig (headerTuple.render factConfig "then") = .ok d' ∧
          d'.unlined = headerTuple.rebuilt.unlined) ↔
        ∀ t ∈ headerTuple.tuples, ¬ SpellsHeader t.1 t.2.first) :=
  ⟨validate_factConfig, built_headerTuple, known_headerTuple,
    parse_render_iff validate_factConfig (by decide) built_headerTuple known_headerTuple⟩

/-- The line of a tuple may be taken for a header, and what is read of the document then lacks the
tuple, though the settings are accepted and know the document. -/
theorem parse_render_headerTuple :
    factConfig.validate = .ok () ∧ headerTuple.Built ∧ Known factConfig headerTuple.relations ∧
      (∃ t ∈ headerTuple.tuples, (Header.detect? (renderPair t.1 t.2)).isSome ∧
        ∀ d', parse factConfig (headerTuple.render factConfig "then") = .ok d' →
          t ∉ d'.tuples) := by
  have hspells : SpellsHeader "FACT" "TUPLE" := ⟨.tuples, rfl, by decide, by decide⟩
  refine ⟨validate_factConfig, built_headerTuple, known_headerTuple, _, mem_tuples_headerTuple,
    Header.isSome_detect?_renderPair.2 hspells, fun d' hd' => ?_⟩
  exact not_mem_tuples_of_parse_render validate_factConfig (by decide) hd' hspells

end

end Document

end ArchFacts
