import ArchFacts.Proofs.Except
import ArchFacts.Record.Basic
import Mathlib.Data.Bool.Count

/-!
# What a sink gets from a replay

A sink that is replayed into in place keeps what it has been handed, whatever fails afterwards
(`Record.replayInPlace`). But all records are checked before the first is handed over: if one of
them is not valid, every sink is left as it was. Else a sink gets one call for each record, which a
sink that keeps its calls shows (`Sink.logged`, `foldl_step_logged`), and the report counts its
answers (`foldl_step_count`). A store answers whether the operation that a record asks for succeeds
on it (`Store.send_sink`). All of this together is `replay_exact`.
-/

namespace ArchFacts

/-! ## Calls of a sink -/

namespace Sink

/-- A request as a sink gets it. -/
inductive Call where
  | createNode (id name : String) (kind : NodeKind)
  | createEdge (key : EdgeKey)
  | setAttribute (target : RecordTarget) (key value : String)
  deriving DecidableEq

section
variable {σ : Type}

/-- Keeps a call with its answer. -/
def keep (log : List (Call × Bool)) (c : Call) (answer : Bool × σ) :
    Bool × List (Call × Bool) × σ :=
  (answer.1, log ++ [(c, answer.1)], answer.2)

/-- A sink that answers as another one does, and keeps each call with its answer. -/
def logged (sink : Sink σ) : Sink (List (Call × Bool) × σ) where
  createNode x id name kind :=
    keep x.1 (.createNode id name kind) (sink.createNode x.2 id name kind)
  createEdge x key := keep x.1 (.createEdge key) (sink.createEdge x.2 key)
  setAttribute x target key value :=
    keep x.1 (.setAttribute target key value) (sink.setAttribute x.2 target key value)

end

end Sink

namespace Record

/-- The call by which a record is handed over. -/
def call : Record → Sink.Call
  | node id name? kind => .createNode id (name?.getD id) kind
  | edge key => .createEdge key
  | attr target key value => .setAttribute target key value

section
variable {σ : Type} {target : Sink σ} {state : σ} {records : List Record}

/-- The answers of a sink to some records that it gets one after another. -/
def answers (sink : Sink σ) : σ → List Record → List Bool
  | _, [] => []
  | state, r :: records => (r.send sink state).1 :: answers sink (r.send sink state).2 records

theorem length_answers : (answers target state records).length = records.length := by
  induction records generalizing state with
  | nil => rfl
  | cons r records ih => rw [answers, List.length_cons, List.length_cons, ih]

/-- Hands one more record to a sink and counts the answer. -/
def step (sink : Sink σ) (x : ReplayReport × σ) (r : Record) : ReplayReport × σ :=
  (x.1.count (r.send sink x.2).1, (r.send sink x.2).2)

/-- Sending records is a fold of sending one. -/
theorem sendAll_eq_foldl : sendAll target state records = records.foldl (step target) ({}, state) :=
  rfl

/-- A report counts the answers to the records. -/
theorem foldl_step_count (report : ReplayReport) :
    (records.foldl (step target) (report, state)).1 =
      { accepted := report.accepted + (answers target state records).count true
        rejected := report.rejected + (answers target state records).count false } := by
  induction records generalizing report state with
  | nil => rfl
  | cons r records ih =>
    rw [List.foldl_cons, step, ih, answers]
    dsimp only
    cases (r.send target state).1 <;> simp [ReplayReport.count, Nat.add_assoc, Nat.add_comm 1]

/-- What a replay reports of some answers. -/
def reportOf (answers : List Bool) : ReplayReport :=
  { accepted := answers.count true, rejected := answers.count false }

/-- The report counts the answers. -/
theorem foldl_step_fst :
    (records.foldl (step target) ({}, state)).1 = reportOf (answers target state records) := by
  rw [foldl_step_count, reportOf, Nat.zero_add, Nat.zero_add]

/-- A sink that keeps its calls is handed a record by one call. -/
theorem send_logged (r : Record) (log : List (Sink.Call × Bool)) :
    r.send target.logged (log, state) =
      ((r.send target state).1, log ++ [(r.call, (r.send target state).1)],
        (r.send target state).2) := by
  cases r <;> rfl

/-- A sink that keeps its calls gets one for each record, in order, and is in all else as the sink
that does not keep them. -/
theorem foldl_step_logged (report : ReplayReport) (log : List (Sink.Call × Bool)) :
    records.foldl (step target.logged) (report, log, state) =
      ((records.foldl (step target) (report, state)).1,
        log ++ (records.map call).zip (answers target state records),
        (records.foldl (step target) (report, state)).2) := by
  induction records generalizing report log state with
  | nil => simp [answers]
  | cons r records ih =>
    rw [List.foldl_cons, List.foldl_cons, step, send_logged, ih, answers, step]
    simp

/-! ## The check -/

/-- A record passes the check if it is valid. -/
theorem validate_eq_ok_iff {r : Record} : r.validate = .ok () ↔ r.isValid = true := by
  unfold validate
  split
  · next hvalid => exact ⟨fun _ => hvalid, fun _ => rfl⟩
  · next hinvalid => exact ⟨nofun, fun hvalid => absurd hvalid hinvalid⟩

/-- Some records pass the check exactly if all of them are valid. -/
theorem forM_validate_eq_ok_iff :
    records.forM validate = .ok () ↔ ∀ r ∈ records, r.isValid = true := by
  simp only [forM_eq_ok_iff, validate_eq_ok_iff]

/-- A list of valid records is replayed. -/
theorem replay_eq_ok (h : ∀ r ∈ records, r.isValid = true) :
    replay target state records = .ok (sendAll target state records) := by
  rw [replay, forM_validate_eq_ok_iff.2 h]
  rfl

/-! ## Replays in place -/

/-- Hands a record to a sink in place, and counts the answer. -/
def sendInPlace (sink : Sink σ) (report : ReplayReport) (r : Record) :
    ExceptT FactError (StateM σ) ReplayReport := do
  let granted ← modifyGet fun state => r.send sink state
  return report.count granted

/-- A replay into a sink in place. What the sink has been handed stays with it if the replay
fails. -/
def replayInPlace (sink : Sink σ) (records : List Record) :
    ExceptT FactError (StateM σ) ReplayReport := do
  records.forM fun r => MonadExcept.ofExcept r.validate
  records.foldlM (sendInPlace sink) {}

/-- Sending records in place ends, with the report and the state of the fold. -/
theorem run_foldlM_sendInPlace (report : ReplayReport) :
    (records.foldlM (sendInPlace target) report).run.run state =
      (.ok (records.foldl (step target) (report, state)).1,
        (records.foldl (step target) (report, state)).2) := by
  induction records generalizing report state with
  | nil => rfl
  | cons r records ih =>
    have hsend : (sendInPlace target report r).run.run state =
        (.ok (report.count (r.send target state).1), (r.send target state).2) := rfl
    rw [List.foldlM_cons, run_bind_of_ok hsend, ih, List.foldl_cons]
    rfl

/-- A replay in place leaves the new sink if it succeeds, and the old one if it fails. -/
theorem run_replayInPlace : (replayInPlace target records).run.run state =
    match replay target state records with
    | .ok (report, state') => (.ok report, state')
    | .error e => (.error e, state) := by
  rw [replayInPlace, replay]
  cases hvalid : records.forM validate with
  | error e => rw [run_bind_of_error (run_forM_ofExcept hvalid), error_bind]
  | ok _ =>
    rw [run_bind_of_ok (run_forM_ofExcept hvalid), run_foldlM_sendInPlace, ok_bind]
    rfl

/-- If some record is not valid, a replay in place fails at the first such record, and leaves every
sink as it was. -/
theorem run_replayInPlace_of_invalid (h : ∃ r ∈ records, r.isValid = false) :
    ∃ before r later e, records = before ++ r :: later ∧ (∀ b ∈ before, b.isValid = true) ∧
      r.isValid = false ∧ r.validate = .error e ∧
      ∀ (σ : Type) (sink : Sink σ) (state : σ),
        (replayInPlace sink records).run.run state = (.error e, state) := by
  cases hcheck : records.forM validate with
  | ok _ =>
    obtain ⟨r, hr, hinvalid⟩ := h
    rw [forM_validate_eq_ok_iff.1 hcheck r hr] at hinvalid
    cases hinvalid
  | error e =>
    obtain ⟨before, r, later, hrecords, hbefore, herror⟩ := forM_eq_error_iff.1 hcheck
    refine ⟨before, r, later, e, hrecords, fun b hb => validate_eq_ok_iff.1 (hbefore b hb), ?_,
      herror, fun σ sink state => ?_⟩
    · refine Bool.eq_false_iff.2 fun hvalid => ?_
      rw [validate_eq_ok_iff.2 hvalid] at herror
      cases herror
    · rw [run_replayInPlace, replay, hcheck, error_bind]

/-- Valid records are all handed over. -/
theorem run_replayInPlace_of_valid (h : ∀ r ∈ records, r.isValid = true) :
    (replayInPlace target records).run.run state =
      (.ok (reportOf (answers target state records)),
        (records.foldl (step target) ({}, state)).2) := by
  rw [run_replayInPlace, replay_eq_ok h, sendAll_eq_foldl, ← foldl_step_fst]

/-- The calls that valid records are handed over by, and their answers. -/
theorem run_replayInPlace_logged (h : ∀ r ∈ records, r.isValid = true) :
    (replayInPlace target.logged records).run.run ([], state) =
      (.ok (reportOf (answers target state records)),
        (records.map call).zip (answers target state records),
        (records.foldl (step target) ({}, state)).2) := by
  rw [run_replayInPlace, replay_eq_ok h, sendAll_eq_foldl, foldl_step_logged, List.nil_append,
    foldl_step_fst]

theorem map_fst_zip_answers : ((records.map call).zip (answers target state records)).map Prod.fst =
    records.map call :=
  List.map_fst_zip (by simp [length_answers])

theorem map_snd_zip_answers : ((records.map call).zip (answers target state records)).map Prod.snd =
    answers target state records :=
  List.map_snd_zip (by simp [length_answers])

end

end Record

/-! ## Stores as sinks -/

namespace Store

section
variable {s : Store} {records : List Record}

/-- The operation that a record asks a store for. -/
def request (s : Store) : Record → Except FactError Store
  | .node id name? kind => s.addNode { id, name := name?.getD id, kind }
  | .edge key =>
    s.addEdge { key with resolved := s.hasNode key.source && s.hasNode key.dest }
  | .attr (.node id) key value => s.addNodeAttribute id key value
  | .attr (.edge edge) key value => s.addEdgeAttribute edge key value

/-- The store after the operation that a record asks for; one that fails changes nothing. -/
def serve (s : Store) (r : Record) : Store :=
  match s.request r with
  | .ok s => s
  | .error _ => s

/-- A store that is handed a record answers whether the operation succeeds. -/
theorem send_sink (r : Record) : r.send sink s = ((s.request r).isOk, s.serve r) := by
  have hgranted : ∀ x : Except FactError Store, s.granted x =
      (x.isOk, match x with | .ok s => s | .error _ => s) := by
    intro x
    cases x <;> rfl
  cases r with
  | node id name? kind => exact hgranted _
  | edge key => exact hgranted _
  | attr target key value => cases target <;> exact hgranted _

theorem foldl_step_sink (report : ReplayReport) :
    (records.foldl (Record.step sink) (report, s)).2 = records.foldl serve s := by
  induction records generalizing report s with
  | nil => rfl
  | cons r records ih => rw [List.foldl_cons, List.foldl_cons, Record.step, ih, send_sink]

/-- The answers of a store, each from the store that the records before it leave. -/
theorem answers_sink : Record.answers sink s records =
    (records.scanl serve s).zipWith (fun s r => (s.request r).isOk) records := by
  induction records generalizing s with
  | nil => rfl
  | cons r records ih =>
    rw [Record.answers, send_sink, ih, List.scanl_cons, List.zipWith_cons_cons]

end

end Store

namespace Record

/-- **A replay checks first and then hands over.** If some record is not valid, a replay in place
fails with the error of the first such record and leaves every sink as it was, so none has got a
call. If all records are valid, it succeeds with every sink: it hands over each record by one call,
in order, and reports as accepted what the sink has granted and as rejected all the rest. A store
then holds what the operations leave that the records ask for, one after another, and rejects a
request exactly if the operation fails on the store as it is then. -/
theorem replay_exact (records : List Record) :
    (∀ (σ : Type) (sink : Sink σ) (state : σ), (replayInPlace sink records).run.run state =
      match replay sink state records with
      | .ok (report, state') => (.ok report, state')
      | .error e => (.error e, state)) ∧
    ((∃ r ∈ records, r.isValid = false) → ∃ before r later e, records = before ++ r :: later ∧
      (∀ b ∈ before, b.isValid = true) ∧ r.isValid = false ∧ r.validate = .error e ∧
      ∀ (σ : Type) (sink : Sink σ) (state : σ),
        (replayInPlace sink records).run.run state = (.error e, state)) ∧
    ((∀ r ∈ records, r.isValid = true) →
      (∀ (σ : Type) (sink : Sink σ) (state : σ), ∃ report log state',
        (replayInPlace sink records).run.run state = (.ok report, state') ∧
        (replayInPlace sink.logged records).run.run ([], state) = (.ok report, log, state') ∧
        log.map Prod.fst = records.map call ∧
        report.accepted = (log.map Prod.snd).count true ∧
        report.accepted + report.rejected = records.length) ∧
      ∀ s : Store, ∃ report log,
        (replayInPlace Store.sink records).run.run s =
          (.ok report, records.foldl Store.serve s) ∧
        (replayInPlace Store.sink.logged records).run.run ([], s) =
          (.ok report, log, records.foldl Store.serve s) ∧
        log.map Prod.snd =
          (records.scanl Store.serve s).zipWith (fun s r => (s.request r).isOk) records ∧
        report.rejected = (log.map Prod.snd).count false) := by
  refine ⟨fun _ _ _ => run_replayInPlace, run_replayInPlace_of_invalid, fun hvalid => ⟨?_, ?_⟩⟩
  · intro σ sink state
    refine ⟨_, _, _, run_replayInPlace_of_valid hvalid, run_replayInPlace_logged hvalid,
      map_fst_zip_answers, by rw [map_snd_zip_answers, reportOf], ?_⟩
    rw [reportOf, List.count_true_add_count_false, length_answers]
  · intro s
    have hstore : (records.foldl (step Store.sink) ({}, s)).2 = records.foldl Store.serve s :=
      Store.foldl_step_sink {}
    refine ⟨_, _, (run_replayInPlace_of_valid hvalid).trans (by rw [hstore]),
      (run_replayInPlace_logged hvalid).trans (by rw [hstore]), ?_, by
        rw [map_snd_zip_answers, reportOf]⟩
    rw [map_snd_zip_answers, Store.answers_sink]

/-- Records of which the second is the first that is not valid. -/
def blankKeyed : List Record :=
  [.node "a" none .function, .attr (.node "a") "" "v", .edge ⟨"", "b", .calls⟩]

/-- An id that is asked for twice, a value for an entity that is not there, and a relation that says
that an entity contains itself. -/
def partlyRefused : List Record :=
  [.node "a" none .function, .node "b" (some "B") .function, .node "a" none .classType,
    .edge ⟨"a", "b", .calls⟩, .attr (.edge ⟨"a", "b", .calls⟩) "line" "7",
    .attr (.node "ghost") "k" "v", .edge ⟨"a", "a", .contains⟩]

/-- Records with a blank key reach no sink, and of valid ones each is answered, three of them with a
refusal. -/
theorem replay_exact_partlyRefused :
    ((∃ r ∈ blankKeyed, r.isValid = false) ∧ ∃ e,
      (replayInPlace Store.sink.logged blankKeyed).run.run ([], ∅) = (.error e, [], ∅)) ∧
    (∀ r ∈ partlyRefused, r.isValid = true) ∧ ∃ report log s,
      (replayInPlace Store.sink.logged partlyRefused).run.run ([], ∅) = (.ok report, log, s) ∧
      log.map Prod.snd = [true, true, false, true, true, false, false] ∧ report.rejected = 3 := by
  have hinvalid : ∃ r ∈ blankKeyed, r.isValid = false := by decide +kernel
  have hvalid : ∀ r ∈ partlyRefused, r.isValid = true := by decide +kernel
  obtain ⟨-, hfails, -⟩ := replay_exact blankKeyed
  obtain ⟨_, _, _, e, -, -, -, -, hrun⟩ := hfails hinvalid
  obtain ⟨-, -, hreplays⟩ := replay_exact partlyRefused
  obtain ⟨report, log, -, hlogged, hanswers, hrejected⟩ := (hreplays hvalid).2 ∅
  have hlog : log.map Prod.snd = [true, true, false, true, true, false, false] :=
    hanswers.trans (by decide +kernel)
  exact ⟨⟨hinvalid, e, hrun _ _ _⟩, hvalid, report, log, _, hlogged, hlog, by
    rw [hrejected, hlog]; rfl⟩

end Record

end ArchFacts
