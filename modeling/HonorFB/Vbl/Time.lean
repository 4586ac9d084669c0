import HonorFB.Lib.Spacing
import HonorFB.Vbl.Steps

/-!
# What `getVBLTime` reports

Three actions stamp `fLastVBLTime`: the start of an initialised machine, the arming of the timer
and the entry of a tick. The first and the last also write `fVBLDelta`. In every interleaved run
the report is what the latest of these wrote (`getVBLTime_reports`), so on a kernel whose uptime
does not go back the reported time does not either, and from the first start on the reported
distance to the next blank is the frame of the timebase (`getVBLTime_forward`).
-/

namespace HonorFB

/-- The clock read into `fLastVBLTime`. -/
def Act.stamp : Act → Option Clock
  | .start pe clock _ => if pe.initialized then some clock else none
  | .setTimeoutUS clock => some clock
  | .fire _ clock => some clock
  | _ => none

/-- The clock whose timebase `fVBLDelta` is computed with. -/
def Act.delta : Act → Option Clock
  | .start pe clock _ => if pe.initialized then some clock else none
  | .fire _ clock => some clock
  | _ => none

namespace Sys

theorem step_fLastVBLTime (s : Sys) (a : Act) (s' : Sys) (hstep : s.step a = some s') :
    s'.drv.fLastVBLTime = (a.stamp.map Clock.uptime).getD s.drv.fLastVBLTime := by
  rw [step_drv hstep]
  cases a with
  | start pe clock superStart =>
    simp only [drvAfter, V6.start, Act.stamp]
    cases pe.initialized <;> rfl
  | enableController timerEventSource =>
    simp only [drvAfter]
    split <;> rfl
  | stop =>
    simp only [drvAfter]
    split <;> rfl
  | client c => exact (V6.call_sameClock s.drv c).fLastVBLTime
  | callback calls => exact (V6.runCallback_sameClock s.drv calls).fLastVBLTime
  | _ => rfl

theorem step_fVBLDelta (s : Sys) (a : Act) (s' : Sys) (hstep : s.step a = some s') :
    s'.drv.fVBLDelta = (a.delta.map V6.frame).getD s.drv.fVBLDelta := by
  rw [step_drv hstep]
  cases a with
  | start pe clock superStart =>
    simp only [drvAfter, V6.start, Act.delta]
    cases pe.initialized <;> rfl
  | enableController timerEventSource =>
    simp only [drvAfter]
    split <;> rfl
  | stop =>
    simp only [drvAfter]
    split <;> rfl
  | client c => exact (V6.call_sameClock s.drv c).fVBLDelta
  | callback calls => exact (V6.runCallback_sameClock s.drv calls).fVBLDelta
  | _ => rfl

/-- The uptimes stamped by these actions, in order. -/
def stamps (acts : List Act) : List UInt64 := acts.filterMap fun a => a.stamp.map Clock.uptime

/-- The frames computed by these actions, in order. -/
def frames (acts : List Act) : List UInt64 := acts.filterMap fun a => a.delta.map V6.frame

/-- **`getVBLTime` reports the latest stamp and the latest frame of the run.** -/
theorem getVBLTime_reports (vblHandle : Ptr) (acts : List Act) (s : Sys)
    (hrun : Runs.Guarded step Any (boot vblHandle) acts s) (time delta : Bool) :
    s.drv.getVBLTime time delta =
      (if time then some ((stamps acts).getLast?.getD 0) else none,
        if delta then some ((frames acts).getLast?.getD 0) else none) := by
  have htime := hrun.variable (fun s => s.drv.fLastVBLTime) _ step_fLastVBLTime
  have hdelta := hrun.variable (fun s => s.drv.fVBLDelta) _ step_fVBLDelta
  unfold V6.getVBLTime
  rw [htime, hdelta]
  rfl

/-- What the kernel's clock guarantees of the readings a run took: uptime does not go back, and
there is one timebase. -/
structure Steady (timebase : UInt64 → UInt64) (acts : List Act) : Prop where
  uptime : (stamps acts).Pairwise (· ≤ ·)
  timebase : ∀ a ∈ acts, ∀ clock, a.delta = some clock →
    clock.nanoseconds_to_absolutetime = timebase

theorem Steady.frames_eq {timebase : UInt64 → UInt64} {acts : List Act} (h : Steady timebase acts) :
    ∀ frame ∈ frames acts, frame = timebase 16666666 := by
  intro frame hframe
  obtain ⟨a, ha, hsome⟩ := List.mem_filterMap.1 hframe
  obtain ⟨clock, hclock, rfl⟩ := Option.map_eq_some_iff.1 hsome
  unfold V6.frame
  rw [h.timebase a ha clock hclock]
  rfl

/-- **The reported time never goes back, and once a machine was initialised the reported distance
to the next blank is the frame of the timebase.** -/
theorem getVBLTime_forward (vblHandle : Ptr) (acts more : List Act) (s s' : Sys)
    (hrun : Runs.Guarded step Any (boot vblHandle) acts s)
    (hmore : Runs.Guarded step Any s more s') (timebase : UInt64 → UInt64)
    (hclock : Steady timebase (acts ++ more)) :
    (∀ time time', (s.drv.getVBLTime true true).1 = some time →
      (s'.drv.getVBLTime true true).1 = some time' → time ≤ time') ∧
    ((∃ a ∈ acts, a.delta ≠ none) →
      (s'.drv.getVBLTime true true).2 = some (timebase 16666666)) := by
  rw [getVBLTime_reports vblHandle acts s hrun,
    getVBLTime_reports vblHandle (acts ++ more) s' (hrun.append hmore)]
  constructor
  · intro time time' htime htime'
    obtain rfl := Option.some.inj htime
    obtain rfl := Option.some.inj htime'
    have hforward := hclock.uptime
    unfold stamps at hforward ⊢
    rw [List.filterMap_append] at hforward ⊢
    exact Spacing.getLast?_getD_forward (fun _ => UInt64.le_refl _) hforward fun x _ =>
      UInt64.zero_le
  · intro hinit
    obtain ⟨a, ha, hdelta⟩ := hinit
    obtain ⟨clock, hclock'⟩ := Option.ne_none_iff_exists'.1 hdelta
    have hframe : V6.frame clock ∈ frames (acts ++ more) :=
      List.mem_filterMap.2 ⟨a, List.mem_append_left more ha, by rw [hclock']; rfl⟩
    have hsome := List.getLast?_isSome.2 (List.ne_nil_of_mem hframe)
    obtain ⟨frame, hlast⟩ := Option.isSome_iff_exists.1 hsome
    simp only [hlast, if_true, Option.getD_some]
    rw [hclock.frames_eq frame (List.mem_of_getLast? hlast)]

theorem getVBLTime_forward_tick :
    ∃ s s', Runs.Guarded step Any (boot 0x1000)
      [.start honorConsole ⟨5, id⟩ true, .enableController true, .addEventSource true,
        .setTimeoutUS ⟨7, id⟩] s ∧
      Runs.Guarded step Any s [.fire 0 ⟨16673, id⟩] s' ∧
      (∀ time time', (s.drv.getVBLTime true true).1 = some time →
        (s'.drv.getVBLTime true true).1 = some time' → time ≤ time') ∧
      (s'.drv.getVBLTime true true).2 = some 16666666 := by
  have hrun : ∃ s, Runs.Guarded step Any (boot 0x1000)
      [.start honorConsole ⟨5, id⟩ true, .enableController true, .addEventSource true,
        .setTimeoutUS ⟨7, id⟩] s ∧ ∃ s', Runs.Guarded step Any s [.fire 0 ⟨16673, id⟩] s' :=
    ⟨_, .cons trivial rfl (.cons trivial rfl (.cons trivial rfl (.cons trivial rfl (.nil _)))), _,
      .cons trivial rfl (.nil _)⟩
  obtain ⟨s, hrun, s', hmore⟩ := hrun
  obtain ⟨htime, hdelta⟩ := getVBLTime_forward 0x1000 _ _ s s' hrun hmore id
    ⟨by decide, by simp [Act.delta]⟩
  exact ⟨s, s', hrun, hmore, htime, hdelta ⟨.start honorConsole ⟨5, id⟩ true, by simp, by nofun⟩⟩

end Sys

end HonorFB
