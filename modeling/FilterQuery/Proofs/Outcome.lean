import Mathlib.Data.List.Forall2
/-!
# Outcomes of computations in steps

What it takes for a computation that may fail to succeed or to fail, said of its steps.
-/

namespace FilterQuery.Outcome

variable {ε δ α β : Type}

theorem bind_eq_ok {x : Except ε α} {f : α → Except ε β} {b : β} :
    (x >>= f) = .ok b ↔ ∃ a, x = .ok a ∧ f a = .ok b := by
  cases x with
  | error e => simp [bind, Except.bind]
  | ok a => simp [bind, Except.bind]

theorem bind_eq_error {x : Except ε α} {f : α → Except ε β} {e : ε} :
    (x >>= f) = .error e ↔ x = .error e ∨ ∃ a, x = .ok a ∧ f a = .error e := by
  cases x with
  | error e => simp [bind, Except.bind]
  | ok a => simp [bind, Except.bind]

theorem map_eq_ok {x : Except ε α} {f : α → β} {b : β} :
    f <$> x = .ok b ↔ ∃ a, x = .ok a ∧ f a = b := by
  cases x with
  | error e => simp [Functor.map, Except.map]
  | ok a => simp [Functor.map, Except.map]

theorem map_eq_error {x : Except ε α} {f : α → β} {e : ε} :
    f <$> x = .error e ↔ x = .error e := by
  cases x with
  | error e => simp [Functor.map, Except.map]
  | ok a => simp [Functor.map, Except.map]

theorem mapError_eq_ok {x : Except ε α} {f : ε → δ} {a : α} :
    x.mapError f = .ok a ↔ x = .ok a := by
  cases x with
  | error e => simp [Except.mapError]
  | ok b => simp [Except.mapError]

theorem mapError_eq_error {x : Except ε α} {f : ε → δ} {d : δ} :
    x.mapError f = .error d ↔ ∃ e, x = .error e ∧ f e = d := by
  cases x with
  | error e => simp [Except.mapError]
  | ok b => simp [Except.mapError]

theorem mapM_eq_ok {f : α → Except ε β} {as : List α} {bs : List β} :
    as.mapM f = .ok bs ↔ List.Forall₂ (fun a b => f a = .ok b) as bs := by
  induction as generalizing bs with
  | nil => simp [pure, Except.pure, eq_comm]
  | cons a rest ih =>
      rw [List.mapM_cons, bind_eq_ok, List.forall₂_cons_left_iff]
      constructor
      · rintro ⟨b, hb, hrest⟩
        obtain ⟨others, hothers, heq⟩ := bind_eq_ok.1 hrest
        cases heq
        exact ⟨b, others, hb, ih.1 hothers, rfl⟩
      · rintro ⟨b, others, hb, hothers, rfl⟩
        exact ⟨b, hb, bind_eq_ok.2 ⟨others, ih.2 hothers, rfl⟩⟩

theorem mapM_eq_error {f : α → Except ε β} {as : List α} {e : ε} (hmap : as.mapM f = .error e) :
    ∃ a ∈ as, f a = .error e := by
  induction as with
  | nil => cases hmap
  | cons a rest ih =>
      rw [List.mapM_cons] at hmap
      rcases bind_eq_error.1 hmap with hhere | ⟨b, _, hrest⟩
      · exact ⟨a, .head _, hhere⟩
      · rcases bind_eq_error.1 hrest with hlater | ⟨others, _, hdone⟩
        · obtain ⟨later, hmem, herror⟩ := ih hlater
          exact ⟨later, .tail _ hmem, herror⟩
        · cases hdone

theorem mapM_modify {f : α → Except ε β} {edit : α → α} {as : List α} {place : Nat} {a : α}
    (ha : as[place]? = some a) (hedit : f (edit a) = f a) :
    (as.modify place edit).mapM f = as.mapM f := by
  have hmap : (as.modify place edit).map f = as.map f := by
    apply List.ext_getElem?
    intro other
    rw [List.getElem?_map, List.getElem?_map, List.getElem?_modify]
    by_cases heq : place = other
    · subst heq
      simp [ha, hedit]
    · simp [heq]
  have hmapM := congrArg (List.mapM id) hmap
  rwa [List.mapM_map, List.mapM_map] at hmapM

theorem foldlM_invariant {f : β → α → Except ε β} {P : β → Prop}
    (hstep : ∀ state a next, P state → f state a = .ok next → P next) {as : List α}
    {first last : β} (hfirst : P first) (hfold : as.foldlM f first = .ok last) : P last := by
  induction as generalizing first with
  | nil =>
      cases hfold
      exact hfirst
  | cons a rest ih =>
      rw [List.foldlM_cons] at hfold
      obtain ⟨next, hnext, hrest⟩ := bind_eq_ok.1 hfold
      exact ih (hstep first a next hfirst hnext) hrest

/-- A loop that fails fails in one step, after steps that succeed. -/
theorem foldlM_eq_error_iff {f : β → α → Except ε β} {as : List α} {first : β} {e : ε} :
    as.foldlM f first = .error e ↔ ∃ before a after state, as = before ++ a :: after ∧
      before.foldlM f first = .ok state ∧ f state a = .error e := by
  constructor
  · intro hfold
    induction as generalizing first with
    | nil => cases hfold
    | cons a rest ih =>
        rw [List.foldlM_cons] at hfold
        rcases bind_eq_error.1 hfold with hhere | ⟨next, hnext, hrest⟩
        · exact ⟨[], a, rest, first, rfl, rfl, hhere⟩
        · obtain ⟨before, b, after, state, rfl, hbefore, hb⟩ := ih hrest
          refine ⟨a :: before, b, after, state, rfl, ?_, hb⟩
          rw [List.foldlM_cons]
          exact bind_eq_ok.2 ⟨next, hnext, hbefore⟩
  · rintro ⟨before, a, after, state, rfl, hbefore, ha⟩
    have hstop : (a :: after).foldlM f state = .error e := by
      rw [List.foldlM_cons]
      exact bind_eq_error.2 (.inl ha)
    rw [List.foldlM_append]
    exact bind_eq_error.2 (.inr ⟨state, hbefore, hstop⟩)

theorem foldlM_eq_error {f : β → α → Except ε β} {P : β → Prop}
    (hstep : ∀ state a next, P state → f state a = .ok next → P next) {as : List α}
    {first : β} {e : ε} (hfirst : P first) (hfold : as.foldlM f first = .error e) :
    ∃ a ∈ as, ∃ state, P state ∧ f state a = .error e := by
  obtain ⟨before, a, after, state, rfl, hbefore, ha⟩ := foldlM_eq_error_iff.1 hfold
  have hmem : a ∈ before ++ a :: after := List.mem_append_right _ (.head _)
  exact ⟨a, hmem, state, foldlM_invariant hstep hfirst hbefore, ha⟩

theorem exists_step_of_foldlM {f : β → α → Except ε β} {as : List α} {first last : β}
    (hfold : as.foldlM f first = .ok last) {a : α} (hmem : a ∈ as) :
    ∃ state next, f state a = .ok next := by
  induction as generalizing first with
  | nil => cases hmem
  | cons head rest ih =>
      rw [List.foldlM_cons] at hfold
      obtain ⟨next, hnext, hrest⟩ := bind_eq_ok.1 hfold
      rcases List.mem_cons.1 hmem with rfl | hmem
      · exact ⟨first, next, hnext⟩
      · exact ih hrest hmem

/-- A computation in a state goes on from where the one before it left the state, and stops with
the state where that one failed. -/
theorem run_bind {σ : Type} (action : ExceptT ε (StateM σ) α) (next : α → ExceptT ε (StateM σ) β)
    (state : σ) :
    (action >>= next).run.run state =
      match action.run.run state with
      | (.ok a, later) => (next a).run.run later
      | (.error e, later) => (.error e, later) := by
  unfold ExceptT.run StateT.run
  simp only [bind, ExceptT.bind, ExceptT.mk, ExceptT.bindCont, StateT.bind]
  obtain ⟨_ | _, _⟩ := action state <;> rfl

end FilterQuery.Outcome
