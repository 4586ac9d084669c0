import HonorFB.Lib.Latest
import Mathlib.Data.List.Nodup

/-!
# Jobs that stop at the first failure

A run does its jobs in order, each job overwrites one entry of a store, its own, whether it succeeds
or not, and the first that fails is the last that is done. After a history of such runs, each in an
environment of its own, an entry holds what the last run wrote that got to it (`runs_key`).
-/

namespace Failstop

variable {κ ν τ ε : Type*} [DecidableEq κ] (key : τ → κ) (write : ε → τ → ν) (ok : ε → τ → Bool)

/-- The store after the run, and whether it got to its end. -/
def run (env : ε) : List τ → (κ → ν) → (κ → ν) × Bool
  | [], store => (store, true)
  | t :: ts, store =>
    let store' := Function.update store (key t) (write env t)
    if ok env t then run env ts store' else (store', false)

/-- The jobs before this one succeed. -/
def reaches (ts : List τ) (t : τ) (env : ε) : Bool :=
  (ts.takeWhile fun t' => key t' ≠ key t).all (ok env)

def runs (ts : List τ) (envs : List ε) (store : κ → ν) : κ → ν :=
  envs.foldl (fun store env => (run key write ok env ts store).1) store

theorem run_finished_iff (env : ε) (ts : List τ) :
    ∀ store : κ → ν, (run key write ok env ts store).2 = true ↔ ∀ t ∈ ts, ok env t = true := by
  induction ts with
  | nil => simp [run]
  | cons t ts ih =>
    intro store
    rw [run, List.forall_mem_cons]
    cases hok : ok env t with
    | true => simp [ih]
    | false => simp

theorem run_of_ne (env : ε) {ts : List τ} {k : κ} (h : ∀ t ∈ ts, key t ≠ k) :
    ∀ store : κ → ν, (run key write ok env ts store).1 k = store k := by
  induction ts with
  | nil => exact fun store => rfl
  | cons t ts ih =>
    intro store
    obtain ⟨hne, hrest⟩ := List.forall_mem_cons.1 h
    have hother := Function.update_of_ne hne.symm (write env t) store
    rw [run]
    split
    · rw [ih hrest, hother]
    · exact hother

/-- A run overwrites the entries of the jobs it gets to. -/
theorem run_key (env : ε) {ts : List τ} (hnodup : (ts.map key).Nodup) {t : τ} (ht : t ∈ ts) :
    ∀ store : κ → ν, (run key write ok env ts store).1 (key t) =
      if reaches key ok ts t env then write env t else store (key t) := by
  induction ts with
  | nil => cases ht
  | cons u ts ih =>
    intro store
    rw [List.map_cons, List.nodup_cons] at hnodup
    obtain ⟨hfresh, hrest⟩ := hnodup
    rcases List.mem_cons.1 ht with rfl | hmem
    · -- the first job: the rest of the run has other entries
      have hothers : ∀ t' ∈ ts, key t' ≠ key t := by
        intro t' ht' heq
        exact hfresh (heq ▸ List.mem_map_of_mem ht')
      have hreached : reaches key ok (t :: ts) t env = true := by simp [reaches]
      have hself := Function.update_self (key t) (write env t) store
      rw [hreached, if_pos rfl, run]
      split
      · rw [run_of_ne key write ok env hothers, hself]
      · exact hself
    · have hne : key u ≠ key t := by
        intro heq
        exact hfresh (heq ▸ List.mem_map_of_mem hmem)
      have hreaches : reaches key ok (u :: ts) t env = (ok env u && reaches key ok ts t env) := by
        simp [reaches, hne]
      have hother := Function.update_of_ne hne.symm (write env u) store
      rw [hreaches, run]
      cases hok : ok env u with
      | true =>
        rw [if_pos rfl, ih hrest hmem, hother]
        rfl
      | false => exact hother

theorem runs_of_ne {ts : List τ} {k : κ} (h : ∀ t ∈ ts, key t ≠ k) (envs : List ε) :
    ∀ store : κ → ν, runs key write ok ts envs store k = store k := by
  induction envs with
  | nil => exact fun store => rfl
  | cons env envs ih =>
    intro store
    exact (ih _).trans (run_of_ne key write ok env h store)

theorem run_forall {P : ν → Prop} {env : ε} {ts : List τ} (hwrite : ∀ t ∈ ts, P (write env t)) :
    ∀ store : κ → ν, (∀ k, P (store k)) → ∀ k, P ((run key write ok env ts store).1 k) := by
  induction ts with
  | nil => exact fun store hstore => hstore
  | cons t ts ih =>
    intro store hstore
    obtain ⟨ht, hrest⟩ := List.forall_mem_cons.1 hwrite
    have hupdate : ∀ k, P (Function.update store (key t) (write env t) k) := by
      intro k
      by_cases hk : k = key t
      · rw [hk, Function.update_self]
        exact ht
      · rw [Function.update_of_ne hk]
        exact hstore k
    rw [run]
    split
    · exact ih hrest _ hupdate
    · exact hupdate

/-- What holds of everything that is written, and of the store, holds after the runs. -/
theorem runs_forall {P : ν → Prop} {ts : List τ} {envs : List ε}
    (hwrite : ∀ env ∈ envs, ∀ t ∈ ts, P (write env t)) :
    ∀ store : κ → ν, (∀ k, P (store k)) → ∀ k, P (runs key write ok ts envs store k) := by
  induction envs with
  | nil => exact fun store hstore => hstore
  | cons env envs ih =>
    intro store hstore
    rw [List.forall_mem_cons] at hwrite
    exact ih hwrite.2 _ (run_forall key write ok hwrite.1 store hstore)

/-- **An entry holds what the last run wrote that got to it.** -/
theorem runs_key {ts : List τ} (hnodup : (ts.map key).Nodup) {t : τ} (ht : t ∈ ts)
    (envs : List ε) (store : κ → ν) :
    runs key write ok ts envs store (key t) =
      ((Latest.latest (reaches key ok ts t) envs).map fun env => write env t).getD
        (store (key t)) := by
  induction envs using List.reverseRecOn with
  | nil => rfl
  | append_singleton envs env ih =>
    unfold runs at ih ⊢
    rw [List.foldl_append, List.foldl_cons, List.foldl_nil, run_key key write ok env hnodup ht, ih,
      Latest.latest_concat]
    split
    · rfl
    · rfl

end Failstop
