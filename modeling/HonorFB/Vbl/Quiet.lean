import HonorFB.Vbl.Lifecycle
import HonorFB.Vbl.Steps

/-!
# Stopping the clock

Two properties of every reachable moment of the interleaved clock. It can be stopped from there: a
few steps of the entry point in progress, of a handler that runs and of `stop` lead to the stopped
driver, so `stop` never waits for something that waits for it (`can_stop`). And a driver that holds
no timer is quiet: until an `enableController` creates one, no tick starts, none is in progress and
no kernel object is touched, whatever clients call (`quiet_without_timer`).
-/

namespace HonorFB

namespace Sys

/-- Stopped for good: no entry point or handler in progress, no source left. -/
structure Stopped (s : Sys) : Prop where
  pc : s.pc = .idle
  tick : s.tick = none
  running : s.running = false
  fVBLTimer : s.drv.fVBLTimer = none
  timers : ∀ t, s.kern.timers t = .absent
  unmisused : s.kern.misused = false

/-- The steps of the methods and of the handler; no client, no tick and no start. -/
def Winds : Act → Prop
  | .addEventSource _ | .setTimeoutUS _ | .stop | .cancelTimeout | .removeEventSource | .release
  | .clearTimer | .superStop | .callback _ | .rearm => True
  | _ => False

/-- How many steps the methods have left until the driver is stopped. -/
def methodRank (stopped : Bool) : Pc → Nat
  | .enableAdd | .enableArm => 7
  | .idle => if stopped then 0 else 6
  | .stopCancel => 5
  | .stopRemove => 4
  | .stopRelease => 3
  | .stopClear => 2
  | .stopSuper => 1

def handlerRank : Option (TimerId × TickPc) → Nat
  | some (_, .entered) => 2
  | some (_, .returned) => 1
  | none => 0

def rank (s : Sys) : Nat :=
  methodRank (!s.running && s.drv.fVBLTimer.isNone) s.pc + handlerRank s.tick

theorem rank_le (s : Sys) (h : s.Inv) : s.rank ≤ 8 := by
  have hhandler : handlerRank s.tick ≤ 2 := by
    unfold handlerRank
    split <;> omega
  have hquiet : s.pc = .enableAdd ∨ s.pc = .enableArm → handlerRank s.tick = 0 := by
    intro hpc
    cases htick : s.tick with
    | none => rfl
    | some tick =>
      obtain ⟨-, hrunning, -⟩ := h.tick_owned (t := tick.1) (p := tick.2) htick
      rcases hpc with hpc | hpc <;> rw [hpc] at hrunning <;> simp at hrunning
  unfold rank
  cases hpc : s.pc with
  | enableAdd =>
    rw [hquiet (Or.inl hpc)]
    simp [methodRank]
  | enableArm =>
    rw [hquiet (Or.inr hpc)]
    simp [methodRank]
  | idle =>
    simp only [methodRank]
    split <;> omega
  | _ => simp only [methodRank]; omega

theorem Inv.held {s : Sys} (h : s.Inv) (hpc : s.pc ≠ .idle) (hpc' : s.pc ≠ .stopSuper) :
    ∃ t, s.drv.fVBLTimer = some t := by
  cases hheld : s.drv.fVBLTimer with
  | some t => exact ⟨t, rfl⟩
  | none =>
    rcases (h.free hheld).2 with hidle | hsuper
    · exact absurd hidle hpc
    · exact absurd hsuper hpc'

/-- Short of the stopped driver, one of the steps is enabled and leads on. -/
theorem Inv.winds {s : Sys} (h : s.Inv) (hnot : ¬s.Stopped) :
    ∃ a s', Winds a ∧ s.StartsFresh a ∧ s.step a = some s' ∧ s'.rank < s.rank := by
  have hsuper : s.pc = .stopSuper → s.drv.fVBLTimer = none ∧ s.tick = none := by
    intro hpc
    have hnone := h.lifecycle.stopped hpc
    exact ⟨hnone, (h.free hnone).1⟩
  have hquiet := h.lifecycle.quiet
  have hheld := h.held
  have hunmisused := h.unmisused
  obtain ⟨⟨fb, handle, proc, target, ref, enabled, held, last, delta, properties⟩, kern, pc, tick,
    running⟩ := s
  cases pc with
  | idle =>
    cases held with
    | some t =>
      refine ⟨.stop, _, trivial, trivial, rfl, ?_⟩
      simp [rank, methodRank]
    | none =>
      obtain ⟨htick, habsent⟩ := hquiet rfl
      cases running with
      | true =>
        refine ⟨.stop, _, trivial, trivial, rfl, ?_⟩
        simp [rank, methodRank]
      | false => exact absurd ⟨rfl, htick, rfl, rfl, habsent, hunmisused⟩ hnot
  | enableAdd =>
    obtain ⟨t, rfl⟩ := hheld (by nofun) (by nofun)
    refine ⟨.addEventSource false, _, trivial, trivial, rfl, ?_⟩
    simp [rank, methodRank]
  | enableArm =>
    obtain ⟨t, rfl⟩ := hheld (by nofun) (by nofun)
    refine ⟨.setTimeoutUS ⟨0, id⟩, _, trivial, trivial, rfl, ?_⟩
    simp [rank, methodRank]
  | stopCancel =>
    obtain ⟨t, rfl⟩ := hheld (by nofun) (by nofun)
    refine ⟨.cancelTimeout, _, trivial, trivial, rfl, ?_⟩
    simp [rank, methodRank]
  | stopRemove =>
    obtain ⟨t, rfl⟩ := hheld (by nofun) (by nofun)
    -- the removal waits for a handler, which can always go on
    cases tick with
    | none =>
      refine ⟨.removeEventSource, _, trivial, trivial, rfl, ?_⟩
      simp [rank, methodRank]
    | some tick =>
      obtain ⟨i, point⟩ := tick
      cases point with
      | entered =>
        refine ⟨.callback [], _, trivial, trivial, rfl, ?_⟩
        simp [rank, methodRank, handlerRank]
      | returned =>
        refine ⟨.rearm, _, trivial, trivial, rfl, ?_⟩
        simp [rank, methodRank, handlerRank]
  | stopRelease =>
    obtain ⟨t, rfl⟩ := hheld (by nofun) (by nofun)
    refine ⟨.release, _, trivial, trivial, rfl, ?_⟩
    simp [rank, methodRank]
  | stopClear =>
    refine ⟨.clearTimer, _, trivial, trivial, rfl, ?_⟩
    simp [rank, methodRank]
  | stopSuper =>
    obtain ⟨rfl, rfl⟩ := hsuper rfl
    refine ⟨.superStop, _, trivial, trivial, rfl, ?_⟩
    simp [rank, methodRank]

/-- **From every reachable moment at most eight steps of the methods and the handler lead to the
stopped driver.** -/
theorem can_stop (vblHandle : Ptr) (acts : List Act) (s : Sys)
    (hrun : Runs.Guarded step StartsFresh (boot vblHandle) acts s) :
    ∃ more s', Runs.Guarded step StartsFresh s more s' ∧ (∀ a ∈ more, Winds a) ∧
      more.length ≤ 8 ∧ s'.Stopped := by
  have hinv : s.Inv := hrun.invariant step_inv (boot_inv vblHandle)
  have hprogress : ∀ s : Sys, s.Inv → ¬s.Stopped → ∃ a s', Winds a ∧ s.StartsFresh a ∧
      s.step a = some s' ∧ s'.Inv ∧ s'.rank < s.rank := by
    intro s hs hnot
    obtain ⟨a, s', hwinds, hfresh, hstep, hless⟩ := hs.winds hnot
    exact ⟨a, s', hwinds, hfresh, hstep, step_inv s a s' hs hfresh hstep, hless⟩
  obtain ⟨more, s', hmore, hwinds, hlength, -, hstopped⟩ :=
    Runs.Guarded.exists_of_rank rank hprogress 8 s (rank_le s hinv) hinv
  exact ⟨more, s', hmore, hwinds, hlength, hstopped⟩

/-- A stop that a tick runs into before it cancels. -/
theorem can_stop_ticking :
    ∃ s, Runs.Guarded step StartsFresh (boot 0x1000)
      [.start honorConsole ⟨0, id⟩ true, .enableController true, .addEventSource true,
        .setTimeoutUS ⟨1, id⟩, .stop, .fire 0 ⟨2, id⟩] s ∧
      ∃ more s', Runs.Guarded step StartsFresh s more s' ∧ (∀ a ∈ more, Winds a) ∧
        more.length ≤ 8 ∧ s'.Stopped := by
  have hrun : ∃ s, Runs.Guarded step StartsFresh (boot 0x1000)
      [.start honorConsole ⟨0, id⟩ true, .enableController true, .addEventSource true,
        .setTimeoutUS ⟨1, id⟩, .stop, .fire 0 ⟨2, id⟩] s :=
    ⟨_, .cons rfl rfl (.cons trivial rfl (.cons trivial rfl (.cons trivial rfl
      (.cons trivial rfl (.cons trivial rfl (.nil _))))))⟩
  obtain ⟨s, hrun⟩ := hrun
  exact ⟨s, hrun, can_stop 0x1000 _ s hrun⟩

/-! ## No timer, no tick -/

/-- The steps of a tick. -/
def Ticks : Act → Prop
  | .fire _ _ | .callback _ | .rearm => True
  | _ => False

theorem step_quiet {s s' : Sys} (h : s.Inv) (hnone : s.drv.fVBLTimer = none) {a : Act}
    (hcreate : a ≠ .enableController true) (hstep : s.step a = some s') :
    s'.drv.fVBLTimer = none ∧ s'.kern = s.kern ∧ ¬Ticks a := by
  obtain ⟨htick, habsent⟩ := h.lifecycle.quiet hnone
  have hmethod : ∀ f, s.onTimer f = s.kern := by
    intro f
    unfold onTimer
    rw [hnone]
    rfl
  have hdrv := step_drv hstep
  have hkern := step_kern hstep
  cases a with
  | start pe clock superStart =>
    refine ⟨?_, hkern, id⟩
    rw [hdrv]
    simp only [drvAfter, V6.start]
    split
    · exact hnone
    · rfl
  | enableController timerEventSource =>
    cases timerEventSource with
    | true => exact absurd rfl hcreate
    | false =>
      simp only [drvAfter, kernAfter, Bool.and_false, Bool.false_eq_true, if_false] at hdrv hkern
      exact ⟨by rw [hdrv, hnone], hkern, id⟩
  | stop =>
    simp only [drvAfter, hnone, Option.isNone_none, if_true] at hdrv
    exact ⟨by rw [hdrv, hnone], hkern, id⟩
  | client c =>
    refine ⟨?_, hkern, id⟩
    rw [hdrv]
    exact (V6.call_sameClock s.drv c).fVBLTimer.trans hnone
  | clearTimer => exact ⟨by rw [hdrv]; rfl, hkern, id⟩
  | fire t clock =>
    -- no source is attached
    simp only [step] at hstep
    split at hstep
    · next hfires =>
      obtain ⟨-, hattached, -⟩ := hfires
      rw [habsent t] at hattached
      cases hattached
    · cases hstep
  | callback calls =>
    simp only [step, htick] at hstep
    cases hstep
  | rearm =>
    simp only [step, htick] at hstep
    cases hstep
  | setTimeoutUS clock => exact ⟨by rw [hdrv]; exact hnone, hkern.trans (hmethod _), id⟩
  | addEventSource success => exact ⟨by rw [hdrv]; exact hnone, hkern.trans (hmethod _), id⟩
  | cancelTimeout => exact ⟨by rw [hdrv]; exact hnone, hkern.trans (hmethod _), id⟩
  | removeEventSource => exact ⟨by rw [hdrv]; exact hnone, hkern.trans (hmethod _), id⟩
  | release => exact ⟨by rw [hdrv]; exact hnone, hkern.trans (hmethod _), id⟩
  | superStop => exact ⟨by rw [hdrv]; exact hnone, hkern, id⟩

theorem run_quiet {s s' : Sys} {acts : List Act} (hrun : Runs.Guarded step Any s acts s') :
    s.Inv → s.drv.fVBLTimer = none → .enableController true ∉ acts →
      s'.drv.fVBLTimer = none ∧ s'.kern = s.kern ∧ ∀ a ∈ acts, ¬Ticks a := by
  induction hrun with
  | nil s =>
    intro _ hnone _
    exact ⟨hnone, rfl, by nofun⟩
  | @cons s s' s'' a acts _ hstep _ ih =>
    intro h hnone hcreate
    have hne : a ≠ .enableController true := by
      rintro rfl
      exact hcreate List.mem_cons_self
    have hfresh : s.StartsFresh a := by
      cases a with
      | start pe clock superStart => exact hnone
      | _ => trivial
    obtain ⟨hnone', hkern, hquiet⟩ := step_quiet h hnone hne hstep
    obtain ⟨hnone'', hkern', hquiet'⟩ := ih (step_inv s a s' h hfresh hstep) hnone'
      fun hmem => hcreate (List.mem_cons_of_mem a hmem)
    refine ⟨hnone'', hkern'.trans hkern, fun b hb => ?_⟩
    rcases List.mem_cons.1 hb with rfl | hb
    · exact hquiet
    · exact hquiet' b hb

/-- **A driver that holds no timer, as after every stop, starts no tick and touches no kernel
object until a timer is created.** -/
theorem quiet_without_timer (vblHandle : Ptr) (acts more : List Act) (s s' : Sys)
    (hrun : Runs.Guarded step StartsFresh (boot vblHandle) acts s)
    (hnone : s.drv.fVBLTimer = none) (hmore : Runs.Guarded step Any s more s')
    (hcreate : .enableController true ∉ more) :
    s'.drv.fVBLTimer = none ∧ s'.kern = s.kern ∧ ∀ a ∈ more, ¬Ticks a :=
  run_quiet hmore (hrun.invariant step_inv (boot_inv vblHandle)) hnone hcreate

/-- After a stop a client registers anew, and an `enableController` fails to create a timer. -/
theorem quiet_without_timer_registered :
    ∃ s s' : Sys, Runs.Guarded step StartsFresh (boot 0x1000)
      [.start honorConsole ⟨0, id⟩ true, .enableController true, .addEventSource true,
        .setTimeoutUS ⟨1, id⟩, .stop, .cancelTimeout, .removeEventSource, .release, .clearTimer,
        .superStop] s ∧
      s'.drv.fVBLTimer = none ∧ s'.kern = s.kern ∧ ∀ a ∈ ([.start honorConsole ⟨5, id⟩ true,
        .client (.registerForInterruptType kIOFBVBLInterruptType 0x2000 0x3000 7 true),
        .enableController false, .stop, .superStop] : List Act), ¬Ticks a := by
  have hrun : ∃ s, Runs.Guarded step StartsFresh (boot 0x1000)
      [.start honorConsole ⟨0, id⟩ true, .enableController true, .addEventSource true,
        .setTimeoutUS ⟨1, id⟩, .stop, .cancelTimeout, .removeEventSource, .release, .clearTimer,
        .superStop] s ∧ s.drv.fVBLTimer = none ∧ ∃ s', Runs.Guarded step Any s
        [.start honorConsole ⟨5, id⟩ true,
          .client (.registerForInterruptType kIOFBVBLInterruptType 0x2000 0x3000 7 true),
          .enableController false, .stop, .superStop] s' :=
    ⟨_, .cons rfl rfl (.cons trivial rfl (.cons trivial rfl (.cons trivial rfl
      (.cons trivial rfl (.cons trivial rfl (.cons trivial rfl (.cons trivial rfl
      (.cons trivial rfl (.cons trivial rfl (.nil _)))))))))), rfl, _,
      .cons trivial rfl (.cons trivial rfl (.cons trivial rfl (.cons trivial rfl
      (.cons trivial rfl (.nil _)))))⟩
  obtain ⟨s, hrun, hnone, s', hmore⟩ := hrun
  exact ⟨s, s', hrun, quiet_without_timer 0x1000 _ _ s s' hrun hnone hmore (by simp)⟩

end Sys

end HonorFB
