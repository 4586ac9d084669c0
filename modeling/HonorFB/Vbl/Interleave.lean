import HonorFB.Lib.Runs
import HonorFB.Vbl.Model

/-!
# Interleavings of the VBL clock

The work loop runs the timer handler on a thread of its own, so a tick can fall between any two
steps of `enableController` or `stop`. Here these methods and the handler are cut at their calls
into IOKit, and the kernel and the clients choose what happens next. IOKit gives three guarantees: a
source fires once for each timeout and only while attached, the loop runs one handler at a time, and
`removeEventSource` waits for a running handler. The entry points other than the handler do not
overlap, and `getWorkLoop` returns the loop.

Run without interruption, the steps are the methods of the model (`enableController_uninterrupted`,
`stop_uninterrupted`, `vblTimerFired_uninterrupted`).
-/

namespace HonorFB

/-- Where the running entry point stands: the step it takes next. -/
inductive Pc where
  | idle
  | enableAdd
  | enableArm
  | stopCancel
  | stopRemove
  | stopRelease
  | stopClear
  | stopSuper
  deriving DecidableEq, Repr

inductive TickPc where
  | entered
  | returned
  deriving DecidableEq, Repr

/-- The driver, the heap, the entry point and the handler in progress. `running` is between a start
and the end of the next stop. -/
structure Sys where
  drv : V6
  kern : Kernel
  pc : Pc
  tick : Option (TimerId × TickPc)
  running : Bool

inductive Act where
  | start (pe : PEState) (clock : Clock) (superStart : Bool)
  | enableController (timerEventSource : Bool)
  | addEventSource (success : Bool)
  | setTimeoutUS (clock : Clock)
  | stop
  | cancelTimeout
  | removeEventSource
  | release
  | clearTimer
  | superStop
  | client (c : Call)
  | fire (t : TimerId) (clock : Clock)
  | callback (calls : List Call)
  | rearm

namespace Sys

def boot (vblHandle : Ptr) : Sys where
  drv := .zeroed vblHandle
  kern := .empty
  pc := .idle
  tick := none
  running := false

def world (s : Sys) : World := ⟨s.drv, s.kern⟩

/-- One step; `none` where it cannot be taken. -/
def step (s : Sys) : Act → Option Sys
  | .start pe clock superStart =>
    if s.pc = .idle ∧ s.running = false then
      some { s with drv := (s.drv.start pe clock superStart).1, running := true }
    else none
  | .enableController timerEventSource =>
    if s.pc = .idle then
      if s.drv.fVBLTimer.isNone && timerEventSource then
        some { s with
          drv := { s.drv with fVBLTimer := some s.kern.created }
          kern := s.kern.timerEventSource
          pc := .enableAdd }
      else some s
    else none
  | .addEventSource success =>
    match s.pc, s.drv.fVBLTimer with
    | .enableAdd, some t =>
      some { s with
        kern := s.kern.addEventSource t success
        pc := if success then .enableArm else .idle }
    | _, _ => none
  | .setTimeoutUS clock =>
    match s.pc, s.drv.fVBLTimer with
    | .enableArm, some t =>
      some { s with
        drv := { s.drv with
          fLastVBLTime := clock.uptime
          properties := "HonorFB_VBL" :: s.drv.properties }
        kern := s.kern.setTimeoutUS t framePeriodUS
        pc := .idle }
    | _, _ => none
  | .stop =>
    if s.pc = .idle then
      match s.drv.fVBLTimer with
      | some _ => some { s with drv := { s.drv with fVBLEnabled := false }, pc := .stopCancel }
      | none => some { s with pc := .stopSuper }
    else none
  | .cancelTimeout =>
    match s.pc, s.drv.fVBLTimer with
    | .stopCancel, some t => some { s with kern := s.kern.cancelTimeout t, pc := .stopRemove }
    | _, _ => none
  | .removeEventSource =>
    match s.pc, s.drv.fVBLTimer, s.tick with
    | .stopRemove, some t, none =>
      some { s with kern := s.kern.removeEventSource t, pc := .stopRelease }
    | _, _, _ => none
  | .release =>
    match s.pc, s.drv.fVBLTimer with
    | .stopRelease, some t => some { s with kern := s.kern.release t, pc := .stopClear }
    | _, _ => none
  | .clearTimer =>
    if s.pc = .stopClear then
      some { s with drv := { s.drv with fVBLTimer := none }, pc := .stopSuper }
    else none
  | .superStop =>
    if s.pc = .stopSuper then some { s with pc := .idle, running := false } else none
  | .client c => some { s with drv := (s.drv.call c).1 }
  | .fire t clock =>
    if s.tick = none ∧ (s.kern.timers t).attached = true ∧ (s.kern.timers t).timeout ≠ none then
      some { s with
        drv := s.drv.stampVBL clock
        kern := s.kern.fire t
        tick := some (t, .entered) }
    else none
  | .callback calls =>
    match s.tick with
    | some (t, .entered) =>
      some { s with drv := s.drv.runCallback calls, tick := some (t, .returned) }
    | _ => none
  | .rearm =>
    match s.tick with
    | some (t, .returned) =>
      some { s with kern := s.kern.setTimeoutUS t framePeriodUS, tick := none }
    | _ => none

/-- No assumption on the order of the entry points beyond what `step` says. -/
def Any : Sys → Act → Prop := fun _ _ => True

/-! ## The methods, uninterrupted -/

theorem enableController_uninterrupted {s : Sys} (hidle : s.pc = .idle) (o : ArmOutcome)
    (hloop : o.getWorkLoop = true) (clock : Clock) :
    ∃ acts, Runs.Guarded step Any s acts
      { s with
        drv := (s.world.enableController o clock).1.drv
        kern := (s.world.enableController o clock).1.kern } := by
  obtain ⟨⟨fb, handle, proc, target, ref, enabled, held, last, delta, properties⟩, kern, pc, tick,
    running⟩ := s
  obtain ⟨loop, timer, add⟩ := o
  obtain rfl : pc = .idle := hidle
  obtain rfl : loop = true := hloop
  cases held with
  | some t => exact ⟨[.enableController timer], .cons trivial rfl (.nil _)⟩
  | none =>
    cases timer with
    | false => exact ⟨[.enableController false], .cons trivial rfl (.nil _)⟩
    | true =>
      cases add with
      | false =>
        exact ⟨[.enableController true, .addEventSource false],
          .cons trivial rfl (.cons trivial rfl (.nil _))⟩
      | true =>
        exact ⟨[.enableController true, .addEventSource true, .setTimeoutUS clock],
          .cons trivial rfl (.cons trivial rfl (.cons trivial rfl (.nil _)))⟩

theorem stop_uninterrupted {s : Sys} (hidle : s.pc = .idle) (htick : s.tick = none) :
    ∃ acts, Runs.Guarded step Any s acts
      { s with drv := (s.world.stop true).drv, kern := (s.world.stop true).kern, running := false }
    := by
  obtain ⟨⟨fb, handle, proc, target, ref, enabled, held, last, delta, properties⟩, kern, pc, tick,
    running⟩ := s
  obtain rfl : pc = .idle := hidle
  obtain rfl : tick = none := htick
  cases held with
  | none => exact ⟨[.stop, .superStop], .cons trivial rfl (.cons trivial rfl (.nil _))⟩
  | some t =>
    exact ⟨[.stop, .cancelTimeout, .removeEventSource, .release, .clearTimer, .superStop],
      .cons trivial rfl (.cons trivial rfl (.cons trivial rfl (.cons trivial rfl
        (.cons trivial rfl (.cons trivial rfl (.nil _))))))⟩

/-- The steps of a tick amount to the handler, on the heap the kernel took the timeout from. -/
theorem vblTimerFired_uninterrupted {s : Sys} (htick : s.tick = none) {t : TimerId}
    (hattached : (s.kern.timers t).attached = true) (htimeout : (s.kern.timers t).timeout ≠ none)
    (clock : Clock) (calls : List Call) :
    let w := (World.vblTimerFired ⟨s.drv, s.kern.fire t⟩ (some t) clock calls).1
    Runs.Guarded step Any s [.fire t clock, .callback calls, .rearm]
      { s with drv := w.drv, kern := w.kern } := by
  obtain ⟨drv, kern, pc, tick, running⟩ := s
  obtain rfl : tick = none := htick
  exact .cons trivial (if_pos ⟨rfl, hattached, htimeout⟩)
    (.cons trivial rfl (.cons trivial rfl (.nil _)))

end Sys

end HonorFB
