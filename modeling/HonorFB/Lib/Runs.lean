import HonorFB.Lib.Latest

/-!
# Guarded runs of a partial step function

A system is a step function that is `none` where an action is not enabled. A guard is an assumption
on the actions of the environment, read at the state they are taken in.
-/

namespace Runs

variable {σ α : Type*} {step : σ → α → Option σ} {guard : σ → α → Prop}

/-- From `s` the actions are all enabled, all meet the guard, and lead to the last state. -/
inductive Guarded (step : σ → α → Option σ) (guard : σ → α → Prop) : σ → List α → σ → Prop where
  | nil (s : σ) : Guarded step guard s [] s
  | cons {s s' s'' : σ} {a : α} {as : List α} (hguard : guard s a) (hstep : step s a = some s')
      (hrest : Guarded step guard s' as s'') : Guarded step guard s (a :: as) s''

/-- What one guarded step preserves, a run preserves. -/
theorem Guarded.invariant {Inv : σ → Prop}
    (hinv : ∀ s a s', Inv s → guard s a → step s a = some s' → Inv s') {s s' : σ} {as : List α}
    (h : Guarded step guard s as s') : Inv s → Inv s' := by
  induction h with
  | nil s => exact id
  | cons hguard hstep _ ih =>
    intro hs
    exact ih (hinv _ _ _ hs hguard hstep)

theorem Guarded.append {s s' s'' : σ} {as bs : List α} (h : Guarded step guard s as s')
    (h' : Guarded step guard s' bs s'') : Guarded step guard s (as ++ bs) s'' := by
  induction h with
  | nil s => exact h'
  | cons hguard hstep _ ih => exact .cons hguard hstep (ih h')

/-- A variable that some actions overwrite holds what the last of them wrote. -/
theorem Guarded.variable {β : Type*} (get : σ → β) (write : α → Option β)
    (hwrite : ∀ s a s', step s a = some s' → get s' = (write a).getD (get s)) {s s' : σ}
    {as : List α} (h : Guarded step guard s as s') :
    get s' = (as.filterMap write).getLast?.getD (get s) := by
  induction h with
  | nil s => rfl
  | @cons s s' s'' a as _ hstep _ ih =>
    rw [ih, hwrite s a s' hstep, Latest.getLast?_filterMap_cons]

/-! ## A component of a system -/

section component
variable {τ β : Type*} {outer : τ → β → Option τ} {admits : τ → β → Prop} {select : β → Option α}
  {R : σ → τ → Prop}

/-- The steps of a run that are selected as steps of the component are a run of it. -/
theorem Guarded.project
    (hother : ∀ s t b t', R s t → select b = none → outer t b = some t' → R s t')
    (hselected : ∀ s t b a t', R s t → admits t b → select b = some a → outer t b = some t' →
      ∃ s', guard s a ∧ step s a = some s' ∧ R s' t') {t t' : τ} {bs : List β}
    (h : Guarded outer admits t bs t') :
    ∀ s, R s t → ∃ s', Guarded step guard s (bs.filterMap select) s' ∧ R s' t' := by
  induction h with
  | nil t =>
    intro s hs
    exact ⟨s, .nil s, hs⟩
  | @cons t t' t'' b bs hadmits hstep _ ih =>
    intro s hs
    cases hb : select b with
    | none =>
      rw [List.filterMap_cons_none hb]
      exact ih s (hother s t b t' hs hb hstep)
    | some a =>
      obtain ⟨s', hguard, hinner, hs'⟩ := hselected s t b a t' hs hadmits hb hstep
      obtain ⟨s'', hrest, hs''⟩ := ih s' hs'
      rw [List.filterMap_cons_some hb]
      exact ⟨s'', .cons hguard hinner hrest, hs''⟩

/-- If the system can take every other step, and a step of the component whenever the component
can, then a run of the component is that of a run of the system. -/
theorem Guarded.lift
    (hother : ∀ s t b, R s t → select b = none → ∃ t', admits t b ∧ outer t b = some t' ∧ R s t')
    (hselected : ∀ s t b a s', R s t → guard s a → select b = some a → step s a = some s' →
      ∃ t', admits t b ∧ outer t b = some t' ∧ R s' t') :
    ∀ (bs : List β) {s s' : σ}, Guarded step guard s (bs.filterMap select) s' →
      ∀ t, R s t → ∃ t', Guarded outer admits t bs t' ∧ R s' t' := by
  intro bs
  induction bs with
  | nil =>
    intro s s' h t hs
    cases h
    exact ⟨t, .nil t, hs⟩
  | cons b bs ih =>
    intro s s' h t hs
    cases hb : select b with
    | none =>
      rw [List.filterMap_cons_none hb] at h
      obtain ⟨t', hadmits, houter, hs'⟩ := hother s t b hs hb
      obtain ⟨t'', hrest, hs''⟩ := ih h t' hs'
      exact ⟨t'', .cons hadmits houter hrest, hs''⟩
    | some a =>
      rw [List.filterMap_cons_some hb] at h
      cases h with
      | cons hguard hstep hrest =>
        obtain ⟨t', hadmits, houter, hs'⟩ := hselected s t b a _ hs hguard hb hstep
        obtain ⟨t'', hrest', hs''⟩ := ih hrest t' hs'
        exact ⟨t'', .cons hadmits houter hrest', hs''⟩

end component

/-! ## Progress -/

/-- If each step is awaited or keeps the invariant, a run that ends outside the invariant takes an
awaited step. -/
theorem Guarded.awaited {Inv : σ → Prop} {Awaited : σ → α → Prop}
    (hstep : ∀ s a s', Inv s → guard s a → step s a = some s' → Awaited s a ∨ Inv s') {s s' : σ}
    {as : List α} (h : Guarded step guard s as s') :
    Inv s → Inv s' ∨ ∃ before a after u, as = before ++ a :: after ∧
      Guarded step guard s before u ∧ Awaited u a := by
  induction h with
  | nil s => exact Or.inl
  | @cons s s' s'' a as hguard hfirst hrest ih =>
    intro hs
    rcases hstep s a s' hs hguard hfirst with hawaited | hkept
    · exact Or.inr ⟨[], a, as, s, rfl, .nil s, hawaited⟩
    · rcases ih hkept with hend | ⟨before, b, after, u, rfl, hbefore, hawaited⟩
      · exact Or.inl hend
      · exact Or.inr ⟨a :: before, b, after, u, rfl, .cons hguard hfirst hbefore, hawaited⟩

/-- If an admitted step that lowers the rank leads on from every state short of the goal, an
admitted run no longer than the rank leads to it. -/
theorem Guarded.exists_of_rank {Inv Goal : σ → Prop} {admits : α → Prop} (rank : σ → Nat)
    (hprogress : ∀ s, Inv s → ¬Goal s → ∃ a s', admits a ∧ guard s a ∧ step s a = some s' ∧
      Inv s' ∧ rank s' < rank s) :
    ∀ n s, rank s ≤ n → Inv s → ∃ as s', Guarded step guard s as s' ∧ (∀ a ∈ as, admits a) ∧
      as.length ≤ n ∧ Inv s' ∧ Goal s' := by
  intro n
  induction n with
  | zero =>
    intro s hrank hs
    by_cases hgoal : Goal s
    · exact ⟨[], s, .nil s, by nofun, Nat.le_refl 0, hs, hgoal⟩
    · obtain ⟨a, s', -, -, -, -, hless⟩ := hprogress s hs hgoal
      omega
  | succ n ih =>
    intro s hrank hs
    by_cases hgoal : Goal s
    · exact ⟨[], s, .nil s, by nofun, Nat.zero_le _, hs, hgoal⟩
    · obtain ⟨a, s', ha, hguard, hstep, hs', hless⟩ := hprogress s hs hgoal
      obtain ⟨as, s'', hrun, has, hlength, hs'', hgoal'⟩ := ih s' (by omega) hs'
      refine ⟨a :: as, s'', .cons hguard hstep hrun, fun b hb => ?_, Nat.succ_le_succ hlength,
        hs'', hgoal'⟩
      rcases List.mem_cons.1 hb with rfl | hb
      · exact ha
      · exact has b hb

end Runs
