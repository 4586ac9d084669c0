import HonorFB.Vbl.Interleave

/-!
# What a step does

What an action of the interleaved clock makes of the driver and of the kernel's objects, wherever it
can be taken (`step_drv`, `step_kern`). Most members and most objects are touched by few actions, so
what a run does to them is read off here.
-/

namespace HonorFB

namespace Sys

/-- The driver after an action. The steps that are not listed only touch the kernel's objects. -/
def drvAfter (s : Sys) : Act → V6
  | .start pe clock superStart => (s.drv.start pe clock superStart).1
  | .enableController timerEventSource =>
    if s.drv.fVBLTimer.isNone && timerEventSource then
      { s.drv with fVBLTimer := some s.kern.created }
    else s.drv
  | .setTimeoutUS clock =>
    { s.drv with
      fLastVBLTime := clock.uptime
      properties := "HonorFB_VBL" :: s.drv.properties }
  | .stop => if s.drv.fVBLTimer.isNone then s.drv else { s.drv with fVBLEnabled := false }
  | .clearTimer => { s.drv with fVBLTimer := none }
  | .client c => (s.drv.call c).1
  | .fire _ clock => s.drv.stampVBL clock
  | .callback calls => s.drv.runCallback calls
  | _ => s.drv

theorem step_drv {s s' : Sys} {a : Act} (hstep : s.step a = some s') : s'.drv = s.drvAfter a := by
  cases a with
  | enableController timerEventSource =>
    simp only [step] at hstep
    split at hstep
    · unfold drvAfter
      split at hstep
      · next hcreate =>
        obtain rfl := Option.some.inj hstep
        exact (if_pos hcreate).symm
      · next hkeep =>
        obtain rfl := Option.some.inj hstep
        exact (if_neg hkeep).symm
    · cases hstep
  | stop =>
    simp only [step] at hstep
    split at hstep
    · unfold drvAfter
      split at hstep
      · next t ht =>
        obtain rfl := Option.some.inj hstep
        exact (if_neg (by rw [ht]; nofun)).symm
      · next hnone =>
        obtain rfl := Option.some.inj hstep
        exact (if_pos (by rw [hnone]; rfl)).symm
    · cases hstep
  | _ =>
    simp only [step] at hstep
    first
      | exact (Option.some.inj hstep) ▸ rfl
      | split at hstep
        · exact (Option.some.inj hstep) ▸ rfl
        · cases hstep

/-- The call of a method of `fVBLTimer`. -/
def onTimer (s : Sys) (f : TimerId → Kernel) : Kernel := s.drv.fVBLTimer.elim s.kern f

/-- The kernel's objects after an action. -/
def kernAfter (s : Sys) : Act → Kernel
  | .enableController timerEventSource =>
    if s.drv.fVBLTimer.isNone && timerEventSource then s.kern.timerEventSource else s.kern
  | .addEventSource success => s.onTimer fun t => s.kern.addEventSource t success
  | .setTimeoutUS _ => s.onTimer fun t => s.kern.setTimeoutUS t framePeriodUS
  | .cancelTimeout => s.onTimer s.kern.cancelTimeout
  | .removeEventSource => s.onTimer s.kern.removeEventSource
  | .release => s.onTimer s.kern.release
  | .fire t _ => s.kern.fire t
  | .rearm => s.tick.elim s.kern fun tick => s.kern.setTimeoutUS tick.1 framePeriodUS
  | _ => s.kern

theorem step_kern {s s' : Sys} {a : Act} (hstep : s.step a = some s') :
    s'.kern = s.kernAfter a := by
  have hheld : ∀ {t}, s.drv.fVBLTimer = some t → ∀ f, s.onTimer f = f t := by
    intro t ht f
    unfold onTimer
    rw [ht]
    rfl
  cases a with
  | enableController timerEventSource =>
    simp only [step] at hstep
    split at hstep
    · unfold kernAfter
      split at hstep
      · next hcreate =>
        obtain rfl := Option.some.inj hstep
        exact (if_pos hcreate).symm
      · next hkeep =>
        obtain rfl := Option.some.inj hstep
        exact (if_neg hkeep).symm
    · cases hstep
  | stop =>
    simp only [step] at hstep
    split at hstep
    · split at hstep
      · exact (Option.some.inj hstep) ▸ rfl
      · exact (Option.some.inj hstep) ▸ rfl
    · cases hstep
  | rearm =>
    simp only [step] at hstep
    split at hstep
    · next t htick =>
      obtain rfl := Option.some.inj hstep
      unfold kernAfter
      rw [htick]
      rfl
    · cases hstep
  | addEventSource | setTimeoutUS | cancelTimeout | release =>
    simp only [step] at hstep
    split at hstep
    · next ht =>
      obtain rfl := Option.some.inj hstep
      simp only [kernAfter, hheld ht]
    · cases hstep
  | removeEventSource =>
    simp only [step] at hstep
    split at hstep
    · next ht _ =>
      obtain rfl := Option.some.inj hstep
      simp only [kernAfter, hheld ht]
    · cases hstep
  | _ =>
    simp only [step] at hstep
    first
      | exact (Option.some.inj hstep) ▸ rfl
      | split at hstep
        · exact (Option.some.inj hstep) ▸ rfl
        · cases hstep

end Sys

end HonorFB
