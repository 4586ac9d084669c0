import Mathlib.Data.List.Basic

/-!
# Logs of times

A log of times, newest first, is spaced by `p` if each entry comes at least `p` after the older
ones. Then only so many of them fall into one window (`Spaced.length_window`). The last lemma is
about a log in the order it was written: its last entry does not go back as it grows.
-/

namespace Spacing

def Spaced (p : Nat) (log : List Nat) : Prop :=
  log.Pairwise fun newer older => older + p ≤ newer

theorem Spaced.cons {p x : Nat} {log : List Nat} (h : Spaced p log) (hx : ∀ y ∈ log, y + p ≤ x) :
    Spaced p (x :: log) :=
  List.pairwise_cons.2 ⟨hx, h⟩

theorem Spaced.filter {p : Nat} {log : List Nat} (h : Spaced p log) (q : Nat → Bool) :
    Spaced p (log.filter q) :=
  List.Pairwise.filter q h

/-- Entries that all lie between two times. -/
theorem Spaced.span {p a : Nat} {log : List Nat} (h : Spaced p log) :
    ∀ {b : Nat}, (∀ x ∈ log, a ≤ x ∧ x ≤ b) → log ≠ [] → (log.length - 1) * p + a ≤ b := by
  induction log with
  | nil =>
    intro b _ hne
    exact absurd rfl hne
  | cons x log ih =>
    intro b hall _
    obtain ⟨hlow, hhigh⟩ := hall x List.mem_cons_self
    obtain ⟨hx, hlog⟩ := List.pairwise_cons.1 h
    cases log with
    | nil => simpa using Nat.le_trans hlow hhigh
    | cons y log =>
      -- the older entries end at `y`, which is one period before `x`
      have hgap := hx y List.mem_cons_self
      have hold : ∀ z ∈ y :: log, a ≤ z ∧ z ≤ y := by
        intro z hz
        refine ⟨(hall z (List.mem_cons_of_mem x hz)).1, ?_⟩
        rcases List.mem_cons.1 hz with rfl | hz
        · exact Nat.le_refl z
        · have := (List.pairwise_cons.1 hlog).1 z hz
          omega
      have hspan := ih hlog hold (List.cons_ne_nil y log)
      have hlen : (x :: y :: log).length - 1 = ((y :: log).length - 1) + 1 := by
        simp
      rw [hlen, Nat.add_mul, Nat.one_mul]
      omega

/-- The entries in a window of length `w`. -/
theorem Spaced.length_window {p : Nat} {log : List Nat} (h : Spaced p log) (a w : Nat) :
    ((log.filter fun x => a ≤ x ∧ x ≤ a + w).length - 1) * p ≤ w := by
  by_cases hempty : (log.filter fun x => a ≤ x ∧ x ≤ a + w) = []
  · rw [hempty]
    simp
  · have hspan := (h.filter fun x => a ≤ x ∧ x ≤ a + w).span (a := a) (b := a + w) (by
      intro x hx
      simpa using (List.mem_filter.1 hx).2) hempty
    omega

variable {α : Type*} {r : α → α → Prop}

theorem getLast?_getD_forward (hrefl : ∀ x, r x x) {log more : List α}
    (h : (log ++ more).Pairwise r) {d : α} (hd : ∀ x ∈ log ++ more, r d x) :
    r (log.getLast?.getD d) ((log ++ more).getLast?.getD d) := by
  cases hmore : more.getLast? with
  | none =>
    rw [List.getLast?_eq_none_iff] at hmore
    rw [hmore, List.append_nil]
    exact hrefl _
  | some y =>
    have hy : y ∈ more := List.mem_of_getLast? hmore
    rw [List.getLast?_append, hmore, Option.some_or, Option.getD_some]
    cases hlog : log.getLast? with
    | none => exact hd y (List.mem_append_right log hy)
    | some x => exact (List.pairwise_append.1 h).2.2 x (List.mem_of_getLast? hlog) y hy

end Spacing
