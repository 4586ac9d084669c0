import Mathlib.Data.List.Basic

/-!
# Machines that answer requests

A machine takes a state and a request to the next state and an answer. A proxy keeps a machine
inside: it passes some requests on and answers the others itself, and what it keeps of the inner
machine is said of whole sessions (`Proxy.after_inner`, `Proxy.keeps`).
-/

namespace Machine

variable {σ κ ρ α : Type*}

/-- The state after a session. -/
def after (m : σ → ρ → σ × α) (s : σ) (rs : List ρ) : σ := rs.foldl (fun s r => (m s r).1) s

@[simp] theorem after_nil (m : σ → ρ → σ × α) (s : σ) : after m s [] = s := rfl

@[simp] theorem after_cons (m : σ → ρ → σ × α) (s : σ) (r : ρ) (rs : List ρ) :
    after m s (r :: rs) = after m (m s r).1 rs := rfl

@[simp] theorem after_append (m : σ → ρ → σ × α) (s : σ) (rs rs' : List ρ) :
    after m s (rs ++ rs') = after m (after m s rs) rs' := List.foldl_append

/-! ## What a session keeps -/

/-- Once `set v` was answered with `ok`, `get` is answered with `read v` until a request touches
the value. -/
def Keeps {υ : Type*} (m : σ → ρ → σ × α) (set : υ → ρ) (get : ρ) (ok : α) (read : υ → α)
    (touches : ρ → Prop) : Prop :=
  ∀ s v rs, (m s (set v)).2 = ok → (∀ r ∈ rs, ¬touches r) →
    (m (after m (m s (set v)).1 rs) get).2 = read v

/-! ## Proxies -/

/-- The outer machine passes these requests on to the inner one, and the others leave the inner one
alone. -/
structure Proxy (outer : κ × σ → ρ → (κ × σ) × α) (inner : σ → ρ → σ × α) (passes : ρ → Bool) :
    Prop where
  passed : ∀ s r, passes r = true → outer s r = ((s.1, (inner s.2 r).1), (inner s.2 r).2)
  kept : ∀ s r, passes r = false → (outer s r).1.2 = s.2

namespace Proxy

variable {outer : κ × σ → ρ → (κ × σ) × α} {inner : σ → ρ → σ × α} {passes : ρ → Bool}

/-- The inner machine has served the requests that were passed on, in their order. -/
theorem after_inner (h : Proxy outer inner passes) (rs : List ρ) :
    ∀ s, (after outer s rs).2 = after inner s.2 (rs.filter passes) := by
  induction rs with
  | nil => intro s; rfl
  | cons r rs ih =>
    intro s
    rw [after_cons, ih]
    cases hr : passes r with
    | true =>
      rw [List.filter_cons_of_pos hr, after_cons, h.passed s r hr]
    | false =>
      rw [List.filter_cons_of_neg (by rw [hr]; nofun), h.kept s r hr]

/-- A value whose requests are passed on is kept as the inner machine keeps it. -/
theorem keeps (h : Proxy outer inner passes) {υ : Type*} {set : υ → ρ} {get : ρ} {ok : α}
    {read : υ → α} {touches : ρ → Prop} (hset : ∀ v, passes (set v) = true)
    (hget : passes get = true) (hinner : Keeps inner set get ok read touches) :
    Keeps outer set get ok read touches := by
  intro s v rs hok htouches
  rw [h.passed s _ (hset v)] at hok ⊢
  rw [h.passed _ _ hget, h.after_inner]
  apply hinner s.2 v _ hok
  intro r hr
  exact htouches r (List.mem_of_mem_filter hr)

end Proxy

end Machine
