import ArchFacts.Error

/-!
# Computations that may fail

How a successful computation in `Except` comes apart into the successes of its parts.
-/

namespace ArchFacts

section
variable {ε α β : Type} {x : Except ε α} {f : α → Except ε β} {g : α → β} {a : α} {b : β}

/-- A sequence succeeds exactly if its first part does and the rest does with what that gives. -/
theorem bind_eq_ok_iff : (x >>= f) = .ok b ↔ ∃ a, x = .ok a ∧ f a = .ok b := by
  constructor
  · intro h
    cases x with
    | error e => cases h
    | ok a => exact ⟨a, rfl, h⟩
  · rintro ⟨a, rfl, h⟩
    exact h

theorem ok_bind : (Except.ok a >>= f : Except ε β) = f a := rfl

theorem error_bind {e : ε} : (Except.error e >>= f : Except ε β) = .error e := rfl

theorem mapError_ok {ε' : Type} {f : ε → ε'} : (Except.ok a : Except ε α).mapError f = .ok a := rfl

/-- Replacing errors changes no success. -/
theorem mapError_eq_ok_iff {ε' : Type} {f : ε → ε'} : x.mapError f = .ok a ↔ x = .ok a := by
  cases x with
  | error e => constructor <;> (intro h; cases h)
  | ok b => rw [mapError_ok, Except.ok.injEq, Except.ok.injEq]

/-- A computation whose errors are translated fails where it did, with the translated error. -/
theorem mapError_eq_error_iff {ε' : Type} {f : ε → ε'} {e' : ε'} :
    x.mapError f = .error e' ↔ ∃ e, x = .error e ∧ f e = e' := by
  constructor
  · intro h
    cases x with
    | error e => exact ⟨e, rfl, Except.error.inj h⟩
    | ok a => cases h
  · rintro ⟨e, rfl, rfl⟩
    rfl

/-- A success has a value. -/
theorem exists_of_isOk (h : x.isOk = true) : ∃ a, x = .ok a := by
  cases x with
  | error e => cases h
  | ok a => exact ⟨a, rfl⟩

theorem map_eq_ok_iff : x.map g = .ok b ↔ ∃ a, x = .ok a ∧ g a = b := by
  constructor
  · intro h
    cases x with
    | error e => cases h
    | ok a =>
      cases h
      exact ⟨a, rfl, rfl⟩
  · rintro ⟨a, rfl, rfl⟩
    rfl

/-- What a computation over a list gives comes from members of the list. -/
theorem exists_of_mem_mapM {l : List α} {l' : List β} (h : l.mapM f = .ok l') (hb : b ∈ l') :
    ∃ a ∈ l, f a = .ok b := by
  induction l generalizing l' with
  | nil => cases h; cases hb
  | cons c l ih =>
    rw [List.mapM_cons, bind_eq_ok_iff] at h
    obtain ⟨d, hd, h⟩ := h
    obtain ⟨ds, hds, h⟩ := bind_eq_ok_iff.1 h
    cases h
    rcases List.mem_cons.1 hb with rfl | hb
    · exact ⟨c, by simp, hd⟩
    · obtain ⟨a, ha, hfa⟩ := ih hds hb
      exact ⟨a, by simp [ha], hfa⟩

/-- A computation over a list that succeeds does so for every member. -/
theorem exists_of_mapM_eq_ok {l : List α} {l' : List β} (h : l.mapM f = .ok l') (ha : a ∈ l) :
    ∃ b, f a = .ok b := by
  induction l generalizing l' with
  | nil => cases ha
  | cons c l ih =>
    rw [List.mapM_cons, bind_eq_ok_iff] at h
    obtain ⟨d, hd, h⟩ := h
    obtain ⟨ds, hds, -⟩ := bind_eq_ok_iff.1 h
    rcases List.mem_cons.1 ha with rfl | ha
    · exact ⟨d, hd⟩
    · exact ih hds ha

/-- A computation over a list succeeds if it does for every member. -/
theorem mapM_eq_ok {g? : α → Option β} {l : List α}
    (h : ∀ a ∈ l, ∃ b, f a = .ok b ∧ g? a = some b) : l.mapM f = .ok (l.filterMap g?) := by
  induction l with
  | nil => rfl
  | cons a l ih =>
    obtain ⟨b, hb, hg⟩ := h a (by simp)
    rw [List.mapM_cons, hb, ih fun a' ha' => h a' (by simp [ha']), List.filterMap_cons_some hg]
    rfl

/-- What each step of a fold that succeeds preserves, the fold preserves. -/
theorem foldlM_preserves {step : β → α → Except ε β} {P : β → Prop} {l : List α} {b b' : β}
    (h : l.foldlM step b = .ok b') (hb : P b)
    (hstep : ∀ a ∈ l, ∀ b b', P b → step b a = .ok b' → P b') : P b' := by
  induction l generalizing b with
  | nil =>
    cases h
    exact hb
  | cons a l ih =>
    rw [List.foldlM_cons] at h
    obtain ⟨c, hc, h⟩ := bind_eq_ok_iff.1 h
    exact ih h (hstep a (by simp) b c hb hc) fun a' ha' => hstep a' (by simp [ha'])

/-- A fold fails exactly if a step does after steps that succeed, whatever follows. -/
theorem foldlM_eq_error_iff {step : β → α → Except ε β} {l : List α} {b : β} {e : ε} :
    l.foldlM step b = .error e ↔ ∃ before a after b', l = before ++ a :: after ∧
      before.foldlM step b = .ok b' ∧ step b' a = .error e := by
  constructor
  · intro h
    induction l generalizing b with
    | nil => cases h
    | cons a l ih =>
      rw [List.foldlM_cons] at h
      cases hstep : step b a with
      | error e' =>
        rw [hstep, error_bind] at h
        exact ⟨[], a, l, b, rfl, rfl, hstep.trans h⟩
      | ok c =>
        rw [hstep, ok_bind] at h
        obtain ⟨before, a', after, b', rfl, hbefore, herror⟩ := ih h
        refine ⟨a :: before, a', after, b', rfl, ?_, herror⟩
        rw [List.foldlM_cons, hstep, ok_bind, hbefore]
  · rintro ⟨before, a, after, b', rfl, hbefore, herror⟩
    rw [List.foldlM_append, hbefore, ok_bind, List.foldlM_cons, herror, error_bind]

theorem forM_cons {f : α → Except ε Unit} {l : List α} :
    (a :: l).forM f = (f a >>= fun _ => l.forM f) := rfl

/-- A check of a list succeeds exactly if it does for every member. -/
theorem forM_eq_ok_iff {f : α → Except ε Unit} {l : List α} :
    l.forM f = .ok () ↔ ∀ a ∈ l, f a = .ok () := by
  induction l with
  | nil => exact ⟨fun _ => nofun, fun _ => rfl⟩
  | cons a l ih =>
    rw [forM_cons, bind_eq_ok_iff, List.forall_mem_cons, ← ih]
    exact ⟨fun ⟨_, ha, hl⟩ => ⟨ha, hl⟩, fun ⟨ha, hl⟩ => ⟨(), ha, hl⟩⟩

/-- A check of a list fails exactly if it does for a member and for none before it. -/
theorem forM_eq_error_iff {f : α → Except ε Unit} {l : List α} {e : ε} :
    l.forM f = .error e ↔ ∃ before a after, l = before ++ a :: after ∧
      (∀ b ∈ before, f b = .ok ()) ∧ f a = .error e := by
  have hfold : ∀ l : List α, l.forM f = l.foldlM (fun _ a => f a) () := by
    intro l
    induction l with
    | nil => rfl
    | cons a l ih => rw [forM_cons, List.foldlM_cons, ih]
  rw [hfold, foldlM_eq_error_iff]
  constructor
  · rintro ⟨before, a, after, _, hl, hbefore, ha⟩
    exact ⟨before, a, after, hl, forM_eq_ok_iff.1 ((hfold before).trans hbefore), ha⟩
  · rintro ⟨before, a, after, hl, hbefore, ha⟩
    exact ⟨before, a, after, (), hl, (hfold before).symm.trans (forM_eq_ok_iff.2 hbefore), ha⟩

end

/-! ## Computations that change a state -/

section
variable {ε σ α β : Type} {x : ExceptT ε (StateM σ) α} {f : α → ExceptT ε (StateM σ) β}
variable {s s' : σ} {a : α} {e : ε}

/-- After a success the next step runs from the state that was left. -/
theorem run_bind_of_ok (h : x.run.run s = (.ok a, s')) :
    (x >>= f).run.run s = (f a).run.run s' := by
  simp only [ExceptT.run_bind, StateT.run_bind, h]
  rfl

/-- After an error no step runs. -/
theorem run_bind_of_error (h : x.run.run s = (.error e, s')) :
    (x >>= f).run.run s = (.error e, s') := by
  simp only [ExceptT.run_bind, StateT.run_bind, h]
  rfl

/-- What can fail without a state to change leaves the state as it is. -/
theorem run_ofExcept {y r : Except ε α} (h : y = r) :
    (MonadExcept.ofExcept y : ExceptT ε (StateM σ) α).run.run s = (r, s) := by
  subst h
  cases y <;> rfl

/-- A check of a list leaves the state as it is. -/
theorem run_forM_ofExcept {check : α → Except ε Unit} {l : List α} {r : Except ε Unit}
    (h : l.forM check = r) :
    (l.forM fun a => (MonadExcept.ofExcept (check a) : ExceptT ε (StateM σ) Unit)).run.run s =
      (r, s) := by
  subst h
  induction l with
  | nil => rfl
  | cons a l ih =>
    rw [forM_cons]
    cases hcheck : check a with
    | error e => exact run_bind_of_error (run_ofExcept hcheck)
    | ok _ => exact (run_bind_of_ok (run_ofExcept hcheck)).trans ih

/-- A sequence that succeeds passes through the state that its first part leaves. -/
theorem exists_of_run_bind_eq_ok {b : β} {s'' : σ} (h : (x >>= f).run.run s = (.ok b, s'')) :
    ∃ a s', x.run.run s = (.ok a, s') ∧ (f a).run.run s' = (.ok b, s'') := by
  rcases hx : x.run.run s with ⟨_ | a, s'⟩
  · rw [run_bind_of_error hx] at h
    cases h
  · exact ⟨a, s', rfl, (run_bind_of_ok hx).symm.trans h⟩

end

end ArchFacts
