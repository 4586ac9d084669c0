import HonorFB.Framebuffer.Model

/-!
# The synthetic VBL clock

`HonorFB_v6` adds a timer to the shared framebuffer: `enableController` arms it, every tick calls
the registered interrupt proc and re-arms, `stop` takes it down. Three more overrides hand the VBL
registration out and delegate every other interrupt to `IOFramebuffer`.

IOKit is modelled as far as the driver relies on it: a heap of timer sources, each with the
driver's reference, its membership of the work loop and its pending timeout. Using a source after
its reference is gone marks the heap as misused. Each method here runs without interruption; the
interleavings have their own module.
-/

namespace HonorFB

abbrev IOSelect := UInt32

/-- `kIOFBVBLInterruptType`, the four characters `vbl `. -/
def kIOFBVBLInterruptType : IOSelect := 0x76626C20

/-! ## Timer sources -/

abbrev TimerId := Nat

structure IOTimerEventSource where
  retained : Bool
  attached : Bool
  timeout : Option UInt32
  deriving DecidableEq, Repr

/-- A source that was never created, or is gone. -/
def IOTimerEventSource.absent : IOTimerEventSource := ⟨false, false, none⟩

/-- The heap of timer sources. `misused` records a use or a second release of a released one. -/
structure Kernel where
  created : Nat
  timers : TimerId → IOTimerEventSource
  misused : Bool

namespace Kernel

def empty : Kernel := ⟨0, fun _ => .absent, false⟩

/-- A method call on the source. -/
def use (k : Kernel) (t : TimerId) (f : IOTimerEventSource → IOTimerEventSource) : Kernel where
  created := k.created
  timers := Function.update k.timers t (f (k.timers t))
  misused := k.misused || !(k.timers t).retained

def timerEventSource (k : Kernel) : Kernel where
  created := k.created + 1
  timers := Function.update k.timers k.created ⟨true, false, none⟩
  misused := k.misused

def addEventSource (k : Kernel) (t : TimerId) (success : Bool) : Kernel :=
  k.use t fun s => { s with attached := s.attached || success }

def setTimeoutUS (k : Kernel) (t : TimerId) (us : UInt32) : Kernel :=
  k.use t fun s => { s with timeout := some us }

def cancelTimeout (k : Kernel) (t : TimerId) : Kernel :=
  k.use t fun s => { s with timeout := none }

def removeEventSource (k : Kernel) (t : TimerId) : Kernel :=
  k.use t fun s => { s with attached := false, timeout := none }

def release (k : Kernel) (t : TimerId) : Kernel :=
  k.use t fun s => { s with retained := false }

/-- The kernel takes the timeout off when it calls the handler. -/
def fire (k : Kernel) (t : TimerId) : Kernel where
  created := k.created
  timers := Function.update k.timers t { k.timers t with timeout := none }
  misused := k.misused

theorem use_self (k : Kernel) (t : TimerId) (f : IOTimerEventSource → IOTimerEventSource) :
    (k.use t f).timers t = f (k.timers t) :=
  Function.update_self t _ k.timers

theorem use_of_ne (k : Kernel) {t i : TimerId} (h : i ≠ t)
    (f : IOTimerEventSource → IOTimerEventSource) : (k.use t f).timers i = k.timers i :=
  Function.update_of_ne h _ k.timers

theorem use_misused (k : Kernel) {t : TimerId} (f : IOTimerEventSource → IOTimerEventSource)
    (h : (k.timers t).retained = true) : (k.use t f).misused = k.misused := by
  simp [use, h]

theorem fire_self (k : Kernel) (t : TimerId) :
    (k.fire t).timers t = { k.timers t with timeout := none } :=
  Function.update_self t _ k.timers

theorem fire_of_ne (k : Kernel) {t i : TimerId} (h : i ≠ t) :
    (k.fire t).timers i = k.timers i :=
  Function.update_of_ne h _ k.timers

theorem timerEventSource_self (k : Kernel) :
    k.timerEventSource.timers k.created = ⟨true, false, none⟩ :=
  Function.update_self k.created _ k.timers

theorem timerEventSource_of_ne (k : Kernel) {i : TimerId} (h : i ≠ k.created) :
    k.timerEventSource.timers i = k.timers i :=
  Function.update_of_ne h _ k.timers

end Kernel

/-! ## The driver -/

/-- `clock_get_uptime` at the call, and `nanoseconds_to_absolutetime`. -/
structure Clock where
  uptime : UInt64
  nanoseconds_to_absolutetime : UInt64 → UInt64

/-- The members of `HonorFB_v6`. `vblHandle` is the address of `fVBLProc`, and `properties` are the
keys it has set to `true`. -/
structure V6 extends Framebuffer where
  vblHandle : Ptr
  fVBLProc : Ptr
  fVBLTarget : Ptr
  fVBLRef : Ptr
  fVBLEnabled : Bool
  fVBLTimer : Option TimerId
  fLastVBLTime : UInt64
  fVBLDelta : UInt64
  properties : List String

structure Registration where
  proc : Ptr
  target : Ptr
  ref : Ptr
  deriving DecidableEq, Repr

/-- The interrupt calls a client can make. `interruptRef` of a registration is whether the pointer
is non-`NULL`. -/
inductive Call where
  | registerForInterruptType (interruptType : IOSelect) (proc target ref : Ptr)
      (interruptRef : Bool)
  | unregisterInterrupt (interruptRef : Ptr)
  | setInterruptState (interruptRef : Ptr) (state : UInt32)
  deriving DecidableEq, Repr

/-- The driver's own `kIOReturnSuccess` with what it wrote to `*interruptRef`, or the call of
`IOFramebuffer` it passed on. -/
inductive Reply where
  | kIOReturnSuccess (interruptRef : Option Ptr)
  | super (call : Call)
  deriving DecidableEq, Repr

namespace V6

def zeroed (vblHandle : Ptr) : V6 where
  toFramebuffer := .zeroed
  vblHandle := vblHandle
  fVBLProc := 0
  fVBLTarget := 0
  fVBLRef := 0
  fVBLEnabled := false
  fVBLTimer := none
  fLastVBLTime := 0
  fVBLDelta := 0
  properties := []

def frame (clock : Clock) : UInt64 :=
  clock.nanoseconds_to_absolutetime (1000000000 / kHonorHz.toUInt64)

/-- `start`: the shared part, and the VBL members on the way. -/
def start (d : V6) (pe : PEState) (clock : Clock) (superStart : Bool) : V6 × Bool :=
  if !pe.initialized then (d, false)
  else
    let result := Variant.v6.start d.toFramebuffer pe superStart
    ({ d with
        toFramebuffer := result.1
        fVBLProc := 0
        fVBLTarget := 0
        fVBLRef := 0
        fVBLEnabled := false
        fVBLTimer := none
        fLastVBLTime := clock.uptime
        fVBLDelta := frame clock }, result.2)

def registerForInterruptType (d : V6) (interruptType : IOSelect) (proc target ref : Ptr)
    (interruptRef : Bool) : V6 × Reply :=
  if interruptType == kIOFBVBLInterruptType then
    ({ d with
        fVBLProc := proc
        fVBLTarget := target
        fVBLRef := ref
        fVBLEnabled := true
        properties := "HonorFB_VBL_Registered" :: d.properties },
      .kIOReturnSuccess (if interruptRef then some d.vblHandle else none))
  else (d, .super (.registerForInterruptType interruptType proc target ref interruptRef))

def unregisterInterrupt (d : V6) (interruptRef : Ptr) : V6 × Reply :=
  if interruptRef == d.vblHandle then
    ({ d with fVBLEnabled := false, fVBLProc := 0 }, .kIOReturnSuccess none)
  else (d, .super (.unregisterInterrupt interruptRef))

def setInterruptState (d : V6) (interruptRef : Ptr) (state : UInt32) : V6 × Reply :=
  if interruptRef == d.vblHandle then
    ({ d with fVBLEnabled := state != 0 }, .kIOReturnSuccess none)
  else (d, .super (.setInterruptState interruptRef state))

def call (d : V6) : Call → V6 × Reply
  | .registerForInterruptType interruptType proc target ref interruptRef =>
    d.registerForInterruptType interruptType proc target ref interruptRef
  | .unregisterInterrupt interruptRef => d.unregisterInterrupt interruptRef
  | .setInterruptState interruptRef state => d.setInterruptState interruptRef state

def calls (d : V6) (cs : List Call) : V6 := cs.foldl (fun d c => (d.call c).1) d

def getVBLTime (d : V6) (time delta : Bool) : Option UInt64 × Option UInt64 :=
  (if time then some d.fLastVBLTime else none, if delta then some d.fVBLDelta else none)

def stampVBL (d : V6) (clock : Clock) : V6 :=
  { d with fLastVBLTime := clock.uptime, fVBLDelta := frame clock }

/-- `if (fVBLProc && fVBLEnabled) fVBLProc(fVBLTarget, fVBLRef);`: the calls made. -/
def invoked (d : V6) : List Registration :=
  if d.fVBLProc != 0 && d.fVBLEnabled then [⟨d.fVBLProc, d.fVBLTarget, d.fVBLRef⟩] else []

def runCallback (d : V6) (callback : List Call) : V6 :=
  if d.invoked = [] then d else d.calls callback

/-- The members an interrupt call cannot touch stay as they were. -/
structure SameClock (d d' : V6) : Prop where
  vblHandle : d'.vblHandle = d.vblHandle
  fVBLTimer : d'.fVBLTimer = d.fVBLTimer
  fLastVBLTime : d'.fLastVBLTime = d.fLastVBLTime
  fVBLDelta : d'.fVBLDelta = d.fVBLDelta

theorem SameClock.trans {d d' d'' : V6} (h : SameClock d d') (h' : SameClock d' d'') :
    SameClock d d'' :=
  ⟨h'.1.trans h.1, h'.2.trans h.2, h'.3.trans h.3, h'.4.trans h.4⟩

theorem call_sameClock (d : V6) (c : Call) : SameClock d (d.call c).1 := by
  cases c with
  | registerForInterruptType interruptType proc target ref interruptRef =>
    simp only [call, registerForInterruptType]
    split <;> exact ⟨rfl, rfl, rfl, rfl⟩
  | unregisterInterrupt interruptRef =>
    simp only [call, unregisterInterrupt]
    split <;> exact ⟨rfl, rfl, rfl, rfl⟩
  | setInterruptState interruptRef state =>
    simp only [call, setInterruptState]
    split <;> exact ⟨rfl, rfl, rfl, rfl⟩

theorem calls_sameClock (cs : List Call) : ∀ d : V6, SameClock d (d.calls cs) := by
  induction cs with
  | nil => intro d; exact ⟨rfl, rfl, rfl, rfl⟩
  | cons c cs ih => intro d; exact (call_sameClock d c).trans (ih (d.call c).1)

theorem runCallback_sameClock (d : V6) (callback : List Call) :
    SameClock d (d.runCallback callback) := by
  unfold runCallback
  split
  · exact ⟨rfl, rfl, rfl, rfl⟩
  · exact calls_sameClock callback d

end V6

/-! ## The methods that touch the timer -/

structure World where
  drv : V6
  kern : Kernel

structure ArmOutcome where
  getWorkLoop : Bool
  timerEventSource : Bool
  addEventSource : Bool
  deriving DecidableEq, Repr

def framePeriodUS : UInt32 := 1000000 / kHonorHz

namespace World

/-- `enableController`. Whatever happens to the timer, it returns `kIOReturnSuccess`. -/
def enableController (w : World) (o : ArmOutcome) (clock : Clock) : World × IOReturn :=
  if o.getWorkLoop && w.drv.fVBLTimer.isNone then
    if o.timerEventSource then
      let t := w.kern.created
      let kern := w.kern.timerEventSource.addEventSource t o.addEventSource
      let drv := { w.drv with fVBLTimer := some t }
      if o.addEventSource then
        ({ drv := { drv with
              fLastVBLTime := clock.uptime
              properties := "HonorFB_VBL" :: drv.properties }
           kern := kern.setTimeoutUS t framePeriodUS }, .kIOReturnSuccess)
      else ({ drv := drv, kern := kern }, .kIOReturnSuccess)
    else ({ w with drv.fVBLTimer := none }, .kIOReturnSuccess)
  else (w, .kIOReturnSuccess)

/-- `stop`, up to `IOFramebuffer::stop`. -/
def stop (w : World) (getWorkLoop : Bool) : World :=
  match w.drv.fVBLTimer with
  | none => w
  | some t =>
    let kern := w.kern.cancelTimeout t
    let kern := if getWorkLoop then kern.removeEventSource t else kern
    { drv := { w.drv with fVBLEnabled := false, fVBLTimer := none }, kern := kern.release t }

/-- `vblTimerFired`, with the client calls its callback makes if one is invoked. -/
def vblTimerFired (w : World) (sender : Option TimerId) (clock : Clock) (callback : List Call) :
    World × List Registration :=
  let drv := w.drv.stampVBL clock
  ({ drv := drv.runCallback callback
     kern := match sender with
       | some t => w.kern.setTimeoutUS t framePeriodUS
       | none => w.kern }, drv.invoked)

end World

end HonorFB
