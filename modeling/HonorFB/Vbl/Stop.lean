import HonorFB.Vbl.Arming

/-!
# After a stop

`stop` switches delivery off and gives the timer back, but only if there is a timer, and it keeps
the registered proc. A later `enableController` arms a new timer, so the proc is called again when a
client switches delivery on, or at once when the stop found no timer. `stop_silences_iff` says in
which continuations that happens: at a tick where the old registration is `Revived`.
-/

namespace HonorFB

namespace Entry

def Registers : Entry → Prop
  | .client c => c.isVblRegistration = true
  | .vblTimerFired _ _ callback => ∃ c ∈ callback, c.isVblRegistration = true
  | _ => False

def call? : Entry → Option Call
  | .client c => some c
  | _ => none

end Entry

/-- The calls the clients make themselves, not from a callback. -/
def clientCalls (entries : List Entry) : List Call := entries.filterMap Entry.call?

namespace World

/-- The registration that the world holds at a stop would be delivered to again, after these calls:
it has a proc, nobody unregistered it, and delivery was last switched on, or was left on by a stop
that found no timer. -/
structure Revived (w : World) (since : List Call) : Prop where
  proc : w.drv.fVBLProc ≠ 0
  kept : .unregisterInterrupt w.drv.vblHandle ∉ since
  enabled : (∃ state, Latest.IsLatest (fun c => ∃ s, c = .setInterruptState w.drv.vblHandle s) since
      (.setInterruptState w.drv.vblHandle state) ∧ state ≠ 0) ∨
    (∀ state, .setInterruptState w.drv.vblHandle state ∉ since) ∧ w.drv.fVBLTimer = none ∧
      w.drv.fVBLEnabled = true

def stopped (w : World) (getWorkLoop : Bool) : Run := { world := w.stop getWorkLoop, history := [] }

end World

namespace Run

/-- The callbacks one entry invokes. -/
def invoked (r : Run) : Entry → List Registration
  | .vblTimerFired sender clock callback => (r.world.vblTimerFired sender clock callback).2
  | _ => []

def invocations (r : Run) : List Entry → List Registration
  | [] => []
  | e :: entries => r.invoked e ++ (r.step e).invocations entries

end Run

/-! ## The subscription a stop leaves -/

namespace Subscription

/-- What the members of any driver hold, proc or not. -/
def ofDriver (d : V6) : Subscription := ⟨⟨d.fVBLProc, d.fVBLTarget, d.fVBLRef⟩, d.fVBLEnabled⟩

theorem represents_ofDriver (d : V6) : d.Represents (some (ofDriver d)) := ⟨rfl, rfl, rfl, rfl⟩

theorem enabledAfter_iff (handle : Ptr) (enabled : Bool) (since : List Call) :
    enabledAfter handle enabled since = true ↔
      (∃ state, Latest.IsLatest (fun c => ∃ s, c = .setInterruptState handle s) since
        (.setInterruptState handle state) ∧ state ≠ 0) ∨
      (∀ state, .setInterruptState handle state ∉ since) ∧ enabled = true := by
  unfold enabledAfter
  cases hlatest : Latest.latest (Call.setsState handle) since with
  | none =>
    have hnone : ∀ state, .setInterruptState handle state ∉ since := fun state hmem =>
      (Latest.latest_eq_none_iff _).1 hlatest _ hmem ((setsState_iff handle).2 ⟨state, rfl⟩)
    refine ⟨fun henabled => Or.inr ⟨hnone, henabled⟩, ?_⟩
    rintro (⟨state, hstate, -⟩ | ⟨-, henabled⟩)
    · exact absurd hstate.mem (hnone state)
    · exact henabled
  | some c =>
    have hlast := (Latest.latest_eq_some_iff _).1 hlatest
    simp only [setsState_iff] at hlast
    obtain ⟨state, rfl⟩ := hlast.holds
    constructor
    · intro hne
      exact Or.inl ⟨state, hlast, by simpa using hne⟩
    · rintro (⟨state', hstate', hne⟩ | ⟨hnone, -⟩)
      · have heq := (Latest.latest_eq_some_iff (Call.setsState handle)).2
          (by simpa only [setsState_iff] using hstate')
        rw [hlatest] at heq
        obtain ⟨-, rfl⟩ := Call.setInterruptState.inj (Option.some.inj heq)
        simpa using hne
      · exact absurd hlast.mem (hnone state)

end Subscription

theorem World.stop_drv (w : World) (getWorkLoop : Bool) :
    (w.stop getWorkLoop).drv.vblHandle = w.drv.vblHandle ∧
      (w.stop getWorkLoop).drv.fVBLProc = w.drv.fVBLProc ∧
      ((w.stop getWorkLoop).drv.fVBLEnabled = true ↔
        w.drv.fVBLTimer = none ∧ w.drv.fVBLEnabled = true) := by
  unfold World.stop
  cases htimer : w.drv.fVBLTimer with
  | none => exact ⟨rfl, rfl, by simp⟩
  | some t => exact ⟨rfl, rfl, by simp⟩

/-- Delivery after the stop and these calls, none of them a registration. -/
theorem World.delivery_stop_iff (w : World) (getWorkLoop : Bool) {since : List Call}
    (hno : ∀ c ∈ since, ¬c.isVblRegistration = true) :
    Subscription.delivery (since.foldl (Subscription.next w.drv.vblHandle)
      (some (Subscription.ofDriver (w.stop getWorkLoop).drv))) = [] ↔ ¬w.Revived since := by
  obtain ⟨-, hproc, henabled⟩ := w.stop_drv getWorkLoop
  have hrevived : w.Revived since ↔ .unregisterInterrupt w.drv.vblHandle ∉ since ∧
      w.drv.fVBLProc ≠ 0 ∧ Subscription.enabledAfter w.drv.vblHandle
        (w.stop getWorkLoop).drv.fVBLEnabled since = true := by
    rw [Subscription.enabledAfter_iff, henabled]
    exact ⟨fun h => ⟨h.kept, h.proc, h.enabled⟩, fun h => ⟨h.2.1, h.1, h.2.2⟩⟩
  rw [hrevived, Subscription.foldl_next_some _ _ hno]
  by_cases hended : .unregisterInterrupt w.drv.vblHandle ∈ since
  · rw [if_pos hended]
    exact iff_of_true rfl fun h => h.1 hended
  · rw [if_neg hended]
    simp only [Subscription.delivery, Subscription.ofDriver, hproc]
    cases Subscription.enabledAfter w.drv.vblHandle (w.stop getWorkLoop).drv.fVBLEnabled since <;>
      simp [hended]

/-! ## Continuations -/

namespace Run

theorem step_represents {r : Run} {handle : Ptr} {s : Option Subscription}
    (hhandle : r.world.drv.vblHandle = handle) (h : r.world.drv.Represents s) {e : Entry}
    (hsilent : r.invoked e = []) :
    (r.step e).world.drv.vblHandle = handle ∧
      (r.step e).world.drv.Represents (e.call?.elim s (Subscription.next handle s)) := by
  cases e with
  | enableController o clock =>
    obtain ⟨hrep, hsame⟩ := enableController_represents r.world o clock h
    exact ⟨hsame.trans hhandle, hrep⟩
  | client c =>
    refine ⟨(V6.call_sameClock r.world.drv c).vblHandle.trans hhandle, ?_⟩
    have hrep := V6.call_represents h c
    rw [hhandle] at hrep
    exact hrep
  | getVBLTime time delta => exact ⟨hhandle, h⟩
  | vblTimerFired sender clock callback =>
    have hdrv : (r.step (.vblTimerFired sender clock callback)).world.drv =
        r.world.drv.stampVBL clock := if_pos hsilent
    rw [hdrv]
    exact ⟨hhandle, stampVBL_represents clock h⟩

theorem invoked_eq {r : Run} {s : Option Subscription} (h : r.world.drv.Represents s)
    (sender : Option TimerId) (clock : Clock) (callback : List Call) :
    r.invoked (.vblTimerFired sender clock callback) = Subscription.delivery s :=
  V6.invoked_eq (stampVBL_represents clock h)

/-- Nothing is invoked exactly when every tick finds nothing to deliver. Until one does, no callback
runs, so only the calls made outside of callbacks count. -/
theorem invocations_eq_nil_iff (handle : Ptr) (entries : List Entry) :
    ∀ {r : Run} {s : Option Subscription}, r.world.drv.vblHandle = handle →
      r.world.drv.Represents s →
      (r.invocations entries = [] ↔ ∀ before sender clock callback after,
        entries = before ++ .vblTimerFired sender clock callback :: after →
          Subscription.delivery ((clientCalls before).foldl (Subscription.next handle) s) = []) := by
  induction entries with
  | nil => intro r s _ _; simp [invocations]
  | cons e entries ih =>
    intro r s hhandle h
    by_cases hsilent : r.invoked e = []
    · obtain ⟨hhandle', hrep⟩ := step_represents hhandle h hsilent
      rw [invocations, hsilent, List.nil_append, ih hhandle' hrep]
      have hcalls : ∀ before, (clientCalls (e :: before)).foldl (Subscription.next handle) s =
          (clientCalls before).foldl (Subscription.next handle)
            (e.call?.elim s (Subscription.next handle s)) := by
        intro before
        cases e <;> rfl
      constructor
      · intro hrest before sender clock callback after hsplit
        cases before with
        | nil =>
          obtain ⟨rfl, -⟩ := List.cons.inj hsplit
          rw [invoked_eq h] at hsilent
          exact hsilent
        | cons e' before =>
          obtain ⟨rfl, hsplit'⟩ := List.cons.inj hsplit
          rw [hcalls]
          exact hrest before sender clock callback after hsplit'
      · intro hall before sender clock callback after hsplit
        rw [← hcalls]
        exact hall (e :: before) sender clock callback after (by rw [hsplit]; rfl)
    · refine iff_of_false (fun hnil => hsilent (List.append_eq_nil_iff.1 hnil).1) fun hall => ?_
      cases e with
      | vblTimerFired sender clock callback =>
        refine hsilent ?_
        rw [invoked_eq h]
        exact hall [] sender clock callback entries rfl
      | enableController o clock => exact hsilent rfl
      | client c => exact hsilent rfl
      | getVBLTime time delta => exact hsilent rfl

end Run

theorem clientCalls_not_registration {entries : List Entry}
    (hno : ∀ e ∈ entries, ¬e.Registers) {before after : List Entry} {e : Entry}
    (hsplit : entries = before ++ e :: after) :
    ∀ c ∈ clientCalls before, ¬c.isVblRegistration = true := by
  intro c hc
  obtain ⟨e', he', hcall⟩ := List.mem_filterMap.1 hc
  have hmem : e' ∈ entries := by
    rw [hsplit]
    exact List.mem_append_left _ he'
  cases e' with
  | client c' =>
    obtain rfl := Option.some.inj hcall
    exact hno _ hmem
  | _ => cases hcall

namespace World

/-- **After a stop no callback is invoked exactly as long as no tick finds the old registration
revived**, over every continuation without a start or a new registration. -/
theorem stop_silences_iff (w : World) (getWorkLoop : Bool) (entries : List Entry)
    (hno : ∀ e ∈ entries, ¬e.Registers) :
    (w.stopped getWorkLoop).invocations entries = [] ↔
      ∀ before sender clock callback after,
        entries = before ++ .vblTimerFired sender clock callback :: after →
          ¬w.Revived (clientCalls before) := by
  rw [Run.invocations_eq_nil_iff w.drv.vblHandle entries (w.stop_drv getWorkLoop).1
    (Subscription.represents_ofDriver _)]
  refine forall_congr' fun before => forall_congr' fun sender => forall_congr' fun clock =>
    forall_congr' fun callback => forall_congr' fun after => ?_
  exact imp_congr_right fun hsplit =>
    w.delivery_stop_iff getWorkLoop (clientCalls_not_registration hno hsplit)

/-- No continuation invokes a callback exactly when the stop found no proc. -/
theorem stop_silences_always_iff (w : World) (getWorkLoop : Bool) :
    (∀ entries : List Entry, (∀ e ∈ entries, ¬e.Registers) →
      (w.stopped getWorkLoop).invocations entries = []) ↔ w.drv.fVBLProc = 0 := by
  have hsilent := fun entries => Run.invocations_eq_nil_iff w.drv.vblHandle entries
    (r := w.stopped getWorkLoop) (w.stop_drv getWorkLoop).1 (Subscription.represents_ofDriver _)
  constructor
  · intro h
    by_contra hproc
    -- switch delivery on again, and tick
    have hon := (hsilent [.client (.setInterruptState w.drv.vblHandle 1),
      .vblTimerFired none ⟨0, id⟩ []]).1 (h _ (by simp [Entry.Registers, Call.isVblRegistration]))
      [.client (.setInterruptState w.drv.vblHandle 1)] none ⟨0, id⟩ [] [] rfl
    refine (w.delivery_stop_iff getWorkLoop ?_).1 hon ⟨hproc, ?_, Or.inl ⟨1, ?_, by decide⟩⟩
    · simp [clientCalls, Entry.call?, Call.isVblRegistration]
    · simp [clientCalls, Entry.call?]
    · exact ⟨[], [], rfl, ⟨1, rfl⟩, by simp⟩
  · intro hproc entries hno
    refine (hsilent entries).2 fun before sender clock callback after hsplit => ?_
    have hcalls := clientCalls_not_registration hno hsplit
    exact (w.delivery_stop_iff getWorkLoop hcalls).2 fun hrevived => hrevived.proc hproc

def vblRegistration : Entry :=
  .client (.registerForInterruptType kIOFBVBLInterruptType 0x2000 0x3000 7 true)

def armAndSwitchOn : List Entry :=
  [.enableController .success ⟨2, id⟩, .client (.setInterruptState 0x1000 1)]

/-- The driver is armed, and a client is registered. -/
def registered : World := started.after [.enableController .success ⟨1, id⟩, vblRegistration]

/-- The timer is armed again and delivery switched on, and the client unregisters before the first
tick. -/
def unregisterAndTick : List Entry :=
  armAndSwitchOn ++
    [.client (.unregisterInterrupt 0x1000), .vblTimerFired (some 1) ⟨3, id⟩ []]

theorem unregisterAndTick_registers_not : ∀ e ∈ unregisterAndTick, ¬e.Registers := by
  intro e he
  simp only [unregisterAndTick, armAndSwitchOn, List.cons_append, List.nil_append, List.mem_cons,
    List.not_mem_nil, or_false] at he
  rcases he with rfl | rfl | rfl | rfl <;> simp [Entry.Registers, Call.isVblRegistration]

theorem stop_silences_iff_started :
    (registered.stopped true).invocations unregisterAndTick = [] ↔
      ∀ before sender clock callback after,
        unregisterAndTick = before ++ .vblTimerFired sender clock callback :: after →
          ¬registered.Revived (clientCalls before) :=
  stop_silences_iff registered true _ unregisterAndTick_registers_not

/-- Armed, registered and stopped; then armed again and switched on: the next tick of the new timer
calls the old proc. Registered but never armed before the stop, the first tick already does. -/
theorem stop_then_invoked :
    (((started.after [.enableController .success ⟨1, id⟩, vblRegistration]).stopped true).invocations
        (armAndSwitchOn ++ [.vblTimerFired (some 1) ⟨3, id⟩ []]) = [⟨0x2000, 0x3000, 7⟩] ∧
      (armAndSwitchOn.foldl Run.step
        ((started.after [.enableController .success ⟨1, id⟩, vblRegistration]).stopped
          true)).world.Armed) ∧
    ((started.after [vblRegistration]).stopped true).invocations
        [.enableController .success ⟨2, id⟩, .vblTimerFired (some 0) ⟨3, id⟩ []] =
      [⟨0x2000, 0x3000, 7⟩] :=
  ⟨⟨rfl, 1, rfl, rfl, Option.some_ne_none _⟩, rfl⟩

end World

end HonorFB
