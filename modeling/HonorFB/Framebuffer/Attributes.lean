import HonorFB.Framebuffer.Session

/-!
# Connections through the driver

The display parameters that WindowServer sets and reads back are kept by `IOFramebuffer`, and the
driver stands in between. An attribute round trips through a class, on every `IOFramebuffer` that
keeps it, exactly if the class passes both its set and its get on (`attribute_roundTrips_iff`): no
attribute does in `HonorFB_v3`, `_v4` and `_v6`, all but the three the driver answers do in
`HonorFB_v5a`, `_v12` and `_v13`, and three more are lost in `HonorFB_v7` to `_v11`.
-/

namespace HonorFB

/-- Once a set of the attribute has succeeded, its get reports the value until it is set again,
whatever is called in between. -/
def RoundTrips {σ : Type} (m : σ → Request → σ × Answer) (connectIndex : IOIndex)
    (selector : ConnectionAttribute) : Prop :=
  Machine.Keeps m (fun value => .setAttributeForConnection connectIndex selector value)
    (.getAttributeForConnection connectIndex selector true) (.result .kIOReturnSuccess)
    (fun value => .connection (some value) .kIOReturnSuccess)
    (fun r => ∃ value, r = .setAttributeForConnection connectIndex selector value)

namespace FbClass

/-- The attributes that a class leaves to `IOFramebuffer` altogether. -/
def leaves : FbClass → ConnectionAttribute → Bool
  | .shipped .v3, _ | .shipped .v6, _ | .v4, _ => false
  | _, .kConnectionEnable | _, .kConnectionCheckEnable | _, .kConnectionFlags => false
  | .shipped .v5a, _ | .v12, _ | .v13, _ => true
  | _, .kConnectionChanged | _, .kConnectionPower | _, .kConnectionProbe => false
  | _, .other _ => true

theorem leaves_iff (c : FbClass) (selector : ConnectionAttribute) :
    c.leaves selector = true ↔
      c.getAttributeForConnection selector = none ∧
        c.setAttributeForConnection selector = none := by
  cases c with
  | shipped v => cases v <;> cases selector <;> simp [leaves, getAttributeForConnection,
      setAttributeForConnection]
  | _ => cases selector <;> simp [leaves, getAttributeForConnection, setAttributeForConnection]

/-- An `IOFramebuffer` that keeps every attribute. -/
def store (s : IOIndex → ConnectionAttribute → UInt64) :
    Request → (IOIndex → ConnectionAttribute → UInt64) × Answer
  | .setAttributeForConnection connectIndex selector value =>
    (Function.update s connectIndex (Function.update (s connectIndex) selector value),
      .result .kIOReturnSuccess)
  | .getAttributeForConnection connectIndex selector _ =>
    (s, .connection (some (s connectIndex selector)) .kIOReturnSuccess)
  | _ => (s, .result .kIOReturnUnsupported)

theorem store_of_not_set {connectIndex : IOIndex} {selector : ConnectionAttribute} {r : Request}
    (h : ¬∃ value, r = .setAttributeForConnection connectIndex selector value)
    (s : IOIndex → ConnectionAttribute → UInt64) :
    (store s r).1 connectIndex selector = s connectIndex selector := by
  cases r with
  | setAttributeForConnection i a value =>
    simp only [store]
    by_cases hi : connectIndex = i
    · subst hi
      have ha : selector ≠ a := by
        rintro rfl
        exact h ⟨value, rfl⟩
      rw [Function.update_self, Function.update_of_ne ha]
    · rw [Function.update_of_ne hi]
  | _ => rfl

theorem store_after {connectIndex : IOIndex} {selector : ConnectionAttribute} (rs : List Request)
    (h : ∀ r ∈ rs, ¬∃ value, r = .setAttributeForConnection connectIndex selector value) :
    ∀ s, Machine.after store s rs connectIndex selector = s connectIndex selector := by
  induction rs with
  | nil => intro s; rfl
  | cons r rs ih =>
    intro s
    rw [Machine.after_cons, ih (fun r' hr' => h r' (List.mem_cons_of_mem r hr')),
      store_of_not_set (h r List.mem_cons_self)]

theorem store_roundTrips (connectIndex : IOIndex) (selector : ConnectionAttribute) :
    RoundTrips store connectIndex selector := by
  intro s value rs _ htouches
  have hvalue := store_after rs htouches (store s (.setAttributeForConnection connectIndex selector
    value)).1
  have hset : (store s (.setAttributeForConnection connectIndex selector value)).1 connectIndex
      selector = value := by
    simp only [store, Function.update_self]
  rw [hset] at hvalue
  show Answer.connection (some _) _ = _
  rw [hvalue]

theorem getAttributeForConnection_ne_two {c : FbClass} {selector : ConnectionAttribute}
    {reply : Option UInt64 × IOReturn} (h : c.getAttributeForConnection selector = some reply) :
    reply.1 ≠ some 2 := by
  unfold getAttributeForConnection at h
  split at h <;> cases h <;> decide

theorem setAttributeForConnection_eq {c : FbClass} {selector : ConnectionAttribute} {r : IOReturn}
    (h : c.setAttributeForConnection selector = some r) : r = .kIOReturnSuccess := by
  unfold setAttributeForConnection at h
  split at h <;> cases h <;> rfl

/-- Where the class answers one of the two calls itself, the value 2 is lost on the store. -/
theorem not_roundTrips_store {c : FbClass} {selector : ConnectionAttribute}
    (h : c.leaves selector = false) (connectIndex : IOIndex) :
    ¬RoundTrips (c.serve store) connectIndex selector := by
  intro hkeeps
  have hget := hkeeps (Framebuffer.zeroed, fun _ _ => 0) 2 []
  simp only [Machine.after_nil, serve, own] at hget
  cases hset : c.setAttributeForConnection selector with
  | none =>
    cases hown : c.getAttributeForConnection selector with
    | none =>
      have hleaves := (leaves_iff c selector).2 ⟨hown, hset⟩
      rw [h] at hleaves
      cases hleaves
    | some reply =>
      rw [hset, hown] at hget
      injection hget rfl (List.forall_mem_nil _) with hvalue
      exact getAttributeForConnection_ne_two hown hvalue
  | some r =>
    obtain rfl := setAttributeForConnection_eq hset
    cases hown : c.getAttributeForConnection selector with
    | none =>
      -- the set never reached the store, which still holds 0
      rw [hset, hown] at hget
      injection hget rfl (List.forall_mem_nil _) with hvalue
      have hzero : some (0 : UInt64) = some 2 := hvalue
      exact absurd hzero (by decide)
    | some reply =>
      rw [hset, hown] at hget
      injection hget rfl (List.forall_mem_nil _) with hvalue
      exact getAttributeForConnection_ne_two hown hvalue

/-- **An attribute round trips through the driver, whatever else is called in between, exactly if
the class leaves it to `IOFramebuffer`.** -/
theorem attribute_roundTrips_iff (c : FbClass) (connectIndex : IOIndex)
    (selector : ConnectionAttribute) :
    (∀ (σ : Type) (super : σ → Request → σ × Answer), RoundTrips super connectIndex selector →
      RoundTrips (c.serve super) connectIndex selector) ↔ c.leaves selector = true := by
  constructor
  · intro h
    by_contra hleaves
    rw [Bool.not_eq_true] at hleaves
    exact not_roundTrips_store hleaves connectIndex
      (h _ store (store_roundTrips connectIndex selector))
  · intro hleaves σ super hkeeps
    obtain ⟨hget, hset⟩ := (leaves_iff c selector).1 hleaves
    apply (c.serve_proxy super).keeps _ _ hkeeps
    · intro value
      simp only [passes, hset, Option.isNone_none]
    · simp only [passes, hget, Option.isNone_none]

end FbClass

end HonorFB
