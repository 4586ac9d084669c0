import HonorFB.Lib.Latest
import HonorFB.Vbl.Model

/-!
# The VBL subscription

What the interrupt overrides of `HonorFB_v6` are for: at most one subscription to the vertical
blank, replaced by a registration, ended by an unregistration and switched by a state change.
`Subscription.after` is the subscription a history of calls leaves, and `Delivers` reads the same
off the history itself: the latest registration counts, unless it was ended or last switched off.
-/

namespace HonorFB

structure Subscription where
  registration : Registration
  enabled : Bool
  deriving DecidableEq, Repr

namespace Call

def isVblRegistration : Call → Bool
  | .registerForInterruptType interruptType .. => interruptType == kIOFBVBLInterruptType
  | _ => false

def setsState (handle : Ptr) : Call → Bool
  | .setInterruptState interruptRef _ => interruptRef == handle
  | _ => false

def isVbl (handle : Ptr) : Call → Bool
  | .registerForInterruptType interruptType .. => interruptType == kIOFBVBLInterruptType
  | .unregisterInterrupt interruptRef => interruptRef == handle
  | .setInterruptState interruptRef _ => interruptRef == handle

end Call

/-- The history entitles this registration to the next tick: it is the latest one and has a proc,
the handle was not unregistered since, and was not last switched off since. -/
def Delivers (handle : Ptr) (history : List Call) (r : Registration) : Prop :=
  ∃ before since interruptRef,
    history = before ++ .registerForInterruptType kIOFBVBLInterruptType r.proc r.target r.ref
      interruptRef :: since ∧
    (∀ c ∈ since, ¬c.isVblRegistration = true) ∧ r.proc ≠ 0 ∧
    .unregisterInterrupt handle ∉ since ∧
    ∀ state, Latest.IsLatest (fun c => ∃ s, c = .setInterruptState handle s) since
      (.setInterruptState handle state) → state ≠ 0

namespace Subscription

variable (handle : Ptr)

def next (s : Option Subscription) : Call → Option Subscription
  | .registerForInterruptType interruptType proc target ref _ =>
    if interruptType == kIOFBVBLInterruptType then some ⟨⟨proc, target, ref⟩, true⟩ else s
  | .unregisterInterrupt interruptRef => if interruptRef == handle then none else s
  | .setInterruptState interruptRef state =>
    if interruptRef == handle then s.map fun s => { s with enabled := state != 0 } else s

def after (history : List Call) : Option Subscription := history.foldl (next handle) none

def delivery : Option Subscription → List Registration
  | some s => if s.registration.proc != 0 && s.enabled then [s.registration] else []
  | none => []

/-- Whether the subscription is on after the calls: as the last state change says. -/
def enabledAfter (enabled : Bool) (since : List Call) : Bool :=
  match Latest.latest (Call.setsState handle) since with
  | some (.setInterruptState _ state) => state != 0
  | _ => enabled

theorem next_of_not_isVbl (s : Option Subscription) {c : Call} (h : ¬c.isVbl handle = true) :
    next handle s c = s := by
  cases c with
  | registerForInterruptType interruptType proc target ref interruptRef => exact if_neg h
  | unregisterInterrupt interruptRef => exact if_neg h
  | setInterruptState interruptRef state => exact if_neg h

theorem setsState_iff {c : Call} :
    c.setsState handle = true ↔ ∃ state, c = .setInterruptState handle state := by
  cases c with
  | setInterruptState interruptRef state =>
    simp [Call.setsState]
  | _ => simp [Call.setsState]

theorem foldl_next_none {since : List Call} (h : ∀ c ∈ since, ¬c.isVblRegistration = true) :
    since.foldl (next handle) none = none := by
  induction since with
  | nil => rfl
  | cons c since ih =>
    have hc : next handle none c = none := by
      cases c with
      | registerForInterruptType interruptType proc target ref interruptRef =>
        exact if_neg (h _ List.mem_cons_self)
      | unregisterInterrupt interruptRef => exact ite_self _
      | setInterruptState interruptRef state => exact ite_self _
    rw [List.foldl_cons, hc]
    exact ih fun c hc => h c (List.mem_cons_of_mem _ hc)

theorem enabledAfter_concat (enabled : Bool) (since : List Call) (c : Call) :
    enabledAfter handle enabled (since ++ [c]) =
      match c with
      | .setInterruptState interruptRef state =>
        if interruptRef == handle then state != 0 else enabledAfter handle enabled since
      | _ => enabledAfter handle enabled since := by
  unfold enabledAfter
  rw [Latest.latest_concat]
  cases c with
  | setInterruptState interruptRef state =>
    cases h : interruptRef == handle <;>
      simp only [Call.setsState, h, if_true, if_false, Bool.false_eq_true]
  | _ => rfl

/-- Between two registrations a subscription lives until it is ended, switched as last asked. -/
theorem foldl_next_some (s : Subscription) {since : List Call}
    (h : ∀ c ∈ since, ¬c.isVblRegistration = true) :
    since.foldl (next handle) (some s) =
      if .unregisterInterrupt handle ∈ since then none
      else some { s with enabled := enabledAfter handle s.enabled since } := by
  induction since using List.reverseRecOn with
  | nil => rfl
  | append_singleton since c ih =>
    rw [List.foldl_concat, ih fun c hc => h c (List.mem_append_left _ hc), enabledAfter_concat]
    by_cases hend : .unregisterInterrupt handle ∈ since
    · -- already ended, and nothing registers again
      rw [if_pos hend, if_pos (List.mem_append_left _ hend)]
      exact foldl_next_none handle fun c' hc' => h c' (List.mem_append_right _ hc')
    · rw [if_neg hend]
      cases c with
      | registerForInterruptType interruptType proc target ref interruptRef =>
        have hc : next handle (some { s with enabled := enabledAfter handle s.enabled since })
            (.registerForInterruptType interruptType proc target ref interruptRef) =
              some { s with enabled := enabledAfter handle s.enabled since } :=
          if_neg (h _ (List.mem_append_right _ (List.mem_singleton_self _)))
        rw [hc]
        simp [hend]
      | unregisterInterrupt interruptRef =>
        by_cases hhandle : interruptRef = handle
        · simp [next, hhandle]
        · simp [next, hhandle, hend, Ne.symm hhandle]
      | setInterruptState interruptRef state =>
        by_cases hhandle : interruptRef = handle <;> simp [next, hhandle, hend]

theorem enabledAfter_true_iff (since : List Call) :
    enabledAfter handle true since = true ↔
      ∀ state, Latest.IsLatest (fun c => ∃ s, c = .setInterruptState handle s) since
        (.setInterruptState handle state) → state ≠ 0 := by
  have hlatest : ∀ c, Latest.latest (Call.setsState handle) since = some c ↔
      Latest.IsLatest (fun c => ∃ s, c = .setInterruptState handle s) since c := by
    intro c
    rw [Latest.latest_eq_some_iff]
    simp only [setsState_iff]
  unfold enabledAfter
  cases h : Latest.latest (Call.setsState handle) since with
  | none =>
    refine iff_of_true rfl fun state hstate => ?_
    rw [(hlatest _).2 hstate] at h
    cases h
  | some c =>
    obtain ⟨state, rfl⟩ := ((hlatest c).1 h).holds
    constructor
    · intro hne state' hstate'
      rw [(hlatest _).2 hstate'] at h
      cases h
      simpa using hne
    · intro hall
      simpa using hall state ((hlatest _).1 h)

/-- **The subscription that is delivered to is the one the history entitles.** -/
theorem delivery_after_iff (history : List Call) (r : Registration) :
    delivery (after handle history) = [r] ↔ Delivers handle history r := by
  constructor
  · intro h
    cases hlatest : Latest.latest Call.isVblRegistration history with
    | none =>
      rw [after, foldl_next_none handle ((Latest.latest_eq_none_iff _).1 hlatest)] at h
      cases h
    | some c =>
      obtain ⟨before, since, rfl, hc, hsince⟩ := (Latest.latest_eq_some_iff _).1 hlatest
      cases c with
      | registerForInterruptType interruptType proc target ref interruptRef =>
        have htype : interruptType = kIOFBVBLInterruptType := beq_iff_eq.1 hc
        subst htype
        have hafter : after handle (before ++ .registerForInterruptType kIOFBVBLInterruptType proc
            target ref interruptRef :: since) =
            since.foldl (next handle) (some ⟨⟨proc, target, ref⟩, true⟩) := by
          rw [after, List.foldl_append, List.foldl_cons]
          rfl
        rw [hafter, foldl_next_some handle _ hsince] at h
        by_cases hend : .unregisterInterrupt handle ∈ since
        · rw [if_pos hend] at h
          cases h
        · rw [if_neg hend] at h
          simp only [delivery] at h
          by_cases hon : (proc != 0 && enabledAfter handle true since) = true
          · rw [if_pos hon] at h
            obtain rfl := List.singleton_inj.1 h
            rw [Bool.and_eq_true] at hon
            exact ⟨before, since, interruptRef, rfl, hsince, by simpa using hon.1, hend,
              (enabledAfter_true_iff handle since).1 hon.2⟩
          · rw [if_neg hon] at h
            cases h
      | unregisterInterrupt interruptRef => cases hc
      | setInterruptState interruptRef state => cases hc
  · rintro ⟨before, since, interruptRef, rfl, hsince, hproc, hend, hon⟩
    have hafter : after handle (before ++ .registerForInterruptType kIOFBVBLInterruptType r.proc
        r.target r.ref interruptRef :: since) =
        since.foldl (next handle) (some ⟨r, true⟩) := by
      rw [after, List.foldl_append, List.foldl_cons]
      rfl
    rw [hafter, foldl_next_some handle _ hsince, if_neg hend]
    simp only [delivery, (enabledAfter_true_iff handle since).2 hon]
    rw [if_pos]
    simpa using hproc

theorem delivery_length_le (s : Option Subscription) : (delivery s).length ≤ 1 := by
  cases s with
  | none => exact Nat.zero_le 1
  | some s =>
    by_cases h : (s.registration.proc != 0 && s.enabled) = true <;> simp [delivery, h]

end Subscription

end HonorFB
