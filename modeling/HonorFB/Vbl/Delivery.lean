import HonorFB.Vbl.Subscription

/-!
# VBL delivery over whole runs

The four VBL members of the driver represent a subscription (`Represents`), each call changes them
as it changes the subscription, and nothing else touches them. So over any run a tick calls exactly
the registration that the history of calls entitles (`vblTimerFired_delivers`).
-/

namespace HonorFB

namespace V6

/-- The members hold this subscription. Without one only the proc is known to be `NULL`: a state
change after an unregistration still sets `fVBLEnabled`. -/
def Represents (d : V6) : Option Subscription → Prop
  | some s => d.fVBLProc = s.registration.proc ∧ d.fVBLTarget = s.registration.target ∧
      d.fVBLRef = s.registration.ref ∧ d.fVBLEnabled = s.enabled
  | none => d.fVBLProc = 0

theorem call_of_not_isVbl (d : V6) {c : Call} (h : ¬c.isVbl d.vblHandle = true) :
    d.call c = (d, .super c) := by
  cases c with
  | registerForInterruptType interruptType proc target ref interruptRef => exact if_neg h
  | unregisterInterrupt interruptRef => exact if_neg h
  | setInterruptState interruptRef state => exact if_neg h

/-- A call changes the members as it changes the subscription. -/
theorem call_represents {d : V6} {s : Option Subscription} (h : d.Represents s) (c : Call) :
    (d.call c).1.Represents (Subscription.next d.vblHandle s c) := by
  by_cases hvbl : c.isVbl d.vblHandle = true
  · cases c with
    | registerForInterruptType interruptType proc target ref interruptRef =>
      have htype : (interruptType == kIOFBVBLInterruptType) = true := hvbl
      simp only [call, registerForInterruptType, Subscription.next, htype, if_true]
      exact ⟨rfl, rfl, rfl, rfl⟩
    | unregisterInterrupt interruptRef =>
      have hhandle : (interruptRef == d.vblHandle) = true := hvbl
      simp only [call, unregisterInterrupt, Subscription.next, hhandle, if_true]
      exact rfl
    | setInterruptState interruptRef state =>
      have hhandle : (interruptRef == d.vblHandle) = true := hvbl
      simp only [call, setInterruptState, Subscription.next, hhandle, if_true]
      cases s with
      | none => exact h
      | some s => exact ⟨h.1, h.2.1, h.2.2.1, rfl⟩
  · rw [call_of_not_isVbl d hvbl, Subscription.next_of_not_isVbl _ _ hvbl]
    exact h

theorem invoked_eq {d : V6} {s : Option Subscription} (h : d.Represents s) :
    d.invoked = Subscription.delivery s := by
  cases s with
  | none =>
    have hproc : d.fVBLProc = 0 := h
    simp [invoked, Subscription.delivery, hproc]
  | some s =>
    obtain ⟨hproc, htarget, href, henabled⟩ := h
    simp [invoked, Subscription.delivery, hproc, htarget, href, henabled]

theorem calls_represents (cs : List Call) :
    ∀ {d : V6} {s : Option Subscription}, d.Represents s →
      (d.calls cs).Represents (cs.foldl (Subscription.next d.vblHandle) s) := by
  induction cs with
  | nil => intro d s h; exact h
  | cons c cs ih =>
    intro d s h
    have hrep := ih (call_represents h c)
    rw [(call_sameClock d c).vblHandle] at hrep
    exact hrep

theorem start_represents (d : V6) {pe : PEState} (clock : Clock) {superStart : Bool}
    (h : (d.start pe clock superStart).2 = true) :
    (d.start pe clock superStart).1.Represents none ∧
      (d.start pe clock superStart).1.vblHandle = d.vblHandle := by
  unfold start at h ⊢
  cases hinit : pe.initialized with
  | false => simp [hinit] at h
  | true => exact ⟨rfl, rfl⟩

end V6

/-! ## Runs -/

inductive Entry where
  | enableController (o : ArmOutcome) (clock : Clock)
  | client (c : Call)
  | getVBLTime (time delta : Bool)
  | vblTimerFired (sender : Option TimerId) (clock : Clock) (callback : List Call)

/-- A run so far: the world, and the client calls made, those of callbacks included. -/
structure Run where
  world : World
  history : List Call

namespace Run

def step (r : Run) : Entry → Run
  | .enableController o clock => { r with world := (r.world.enableController o clock).1 }
  | .client c =>
    { world := { r.world with drv := (r.world.drv.call c).1 }, history := r.history ++ [c] }
  | .getVBLTime _ _ => r
  | .vblTimerFired sender clock callback =>
    let result := r.world.vblTimerFired sender clock callback
    { world := result.1, history := r.history ++ if result.2 = [] then [] else callback }

def afterStart (w : World) (pe : PEState) (clock : Clock) (superStart : Bool)
    (entries : List Entry) : Run :=
  entries.foldl step
    { world := { w with drv := (w.drv.start pe clock superStart).1 }, history := [] }

/-- The members represent the subscription of the history. -/
structure Good (handle : Ptr) (r : Run) : Prop where
  vblHandle : r.world.drv.vblHandle = handle
  represents : r.world.drv.Represents (Subscription.after handle r.history)

/-- What a run owes its clients at any moment: a tick, whoever sent it, calls exactly the
registration the history entitles, and a call that is not about the vertical blank is passed on
with no effect on the driver. -/
structure DeliveryContract (handle : Ptr) (r : Run) : Prop where
  once : ∀ sender clock callback, (r.world.vblTimerFired sender clock callback).2.length ≤ 1
  exact : ∀ sender clock callback registration,
    (r.world.vblTimerFired sender clock callback).2 = [registration] ↔
      Delivers handle r.history registration
  others : ∀ c : Call, ¬c.isVbl handle = true → r.world.drv.call c = (r.world.drv, .super c)

theorem enableController_represents (w : World) (o : ArmOutcome) (clock : Clock)
    {s : Option Subscription} (h : w.drv.Represents s) :
    (w.enableController o clock).1.drv.Represents s ∧
      (w.enableController o clock).1.drv.vblHandle = w.drv.vblHandle := by
  unfold World.enableController
  split
  · split
    · split
      · exact ⟨by cases s <;> exact h, rfl⟩
      · exact ⟨by cases s <;> exact h, rfl⟩
    · exact ⟨by cases s <;> exact h, rfl⟩
  · exact ⟨h, rfl⟩

theorem stampVBL_represents {d : V6} (clock : Clock) {s : Option Subscription}
    (h : d.Represents s) : (d.stampVBL clock).Represents s := by
  cases s <;> exact h

theorem step_good {handle : Ptr} {r : Run} (h : r.Good handle) (e : Entry) :
    (r.step e).Good handle := by
  cases e with
  | enableController o clock =>
    obtain ⟨hrep, hhandle⟩ := enableController_represents r.world o clock h.represents
    exact ⟨hhandle.trans h.vblHandle, hrep⟩
  | client c =>
    refine ⟨(V6.call_sameClock r.world.drv c).vblHandle.trans h.vblHandle, ?_⟩
    have hrep := V6.call_represents h.represents c
    rw [h.vblHandle] at hrep
    unfold step Subscription.after
    rw [List.foldl_concat]
    exact hrep
  | getVBLTime time delta => exact h
  | vblTimerFired sender clock callback =>
    have hstamp := stampVBL_represents clock h.represents
    have hresult : (r.world.vblTimerFired sender clock callback).2 =
        (r.world.drv.stampVBL clock).invoked := rfl
    have hdrv : (r.world.vblTimerFired sender clock callback).1.drv =
        (r.world.drv.stampVBL clock).runCallback callback := rfl
    refine ⟨(V6.runCallback_sameClock _ callback).vblHandle.trans h.vblHandle, ?_⟩
    show (r.world.vblTimerFired sender clock callback).1.drv.Represents (Subscription.after handle
      (r.history ++ if (r.world.vblTimerFired sender clock callback).2 = [] then [] else callback))
    rw [hdrv, hresult, V6.runCallback]
    by_cases hnone : (r.world.drv.stampVBL clock).invoked = []
    · -- nobody was called, so nobody called back
      rw [if_pos hnone, if_pos hnone, List.append_nil]
      exact hstamp
    · rw [if_neg hnone, if_neg hnone, Subscription.after, List.foldl_append, ← h.vblHandle]
      have hrep := V6.calls_represents callback hstamp
      rw [← h.vblHandle] at hrep
      exact hrep

theorem foldl_step_good {handle : Ptr} (entries : List Entry) :
    ∀ {r : Run}, r.Good handle → (entries.foldl step r).Good handle := by
  induction entries with
  | nil => intro r h; exact h
  | cons e entries ih => intro r h; exact ih (step_good h e)

theorem Good.contract {handle : Ptr} {r : Run} (h : r.Good handle) :
    r.DeliveryContract handle := by
  have hinvoked : ∀ sender clock callback,
      (r.world.vblTimerFired sender clock callback).2 =
        Subscription.delivery (Subscription.after handle r.history) := fun _ clock _ =>
    V6.invoked_eq (stampVBL_represents clock h.represents)
  refine ⟨fun sender clock callback => ?_, fun sender clock callback registration => ?_,
    fun c hc => ?_⟩
  · rw [hinvoked]
    exact Subscription.delivery_length_le _
  · rw [hinvoked]
    exact Subscription.delivery_after_iff handle r.history registration
  · rw [← h.vblHandle] at hc
    exact V6.call_of_not_isVbl r.world.drv hc

/-- **At every moment of every run after a successful start a tick calls the registration the
history of calls entitles, and no other.** -/
theorem vblTimerFired_delivers (w : World) (pe : PEState) (clock : Clock) (superStart : Bool)
    (hstart : (w.drv.start pe clock superStart).2 = true) (entries : List Entry) :
    (afterStart w pe clock superStart entries).DeliveryContract w.drv.vblHandle := by
  obtain ⟨hrep, hhandle⟩ := V6.start_represents w.drv clock hstart
  exact (foldl_step_good entries ⟨hhandle, hrep⟩).contract

theorem vblTimerFired_delivers_once :
    (afterStart ⟨.zeroed 0x1000, .empty⟩ honorConsole ⟨0, id⟩ true
      [.enableController ⟨true, true, true⟩ ⟨1, id⟩,
        .client (.registerForInterruptType kIOFBVBLInterruptType 0x2000 0x3000 7 true),
        .vblTimerFired (some 0) ⟨2, id⟩ [.setInterruptState 0x1000 0]]).DeliveryContract
      0x1000 :=
  vblTimerFired_delivers ⟨.zeroed 0x1000, .empty⟩ honorConsole ⟨0, id⟩ true (by decide) _

end Run

end HonorFB
