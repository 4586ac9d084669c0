import HonorFB.Vbl.Delivery
import HonorFB.Vbl.Recent

/-!
# A waiting client is woken

WindowServer registers for the vertical blank and blocks until its proc is called. On a punctual
kernel the clock calls it in bounded time: from any moment at which the clock is armed and a
registration is entitled, the proc is called within a frame period, the latency and two durations of
a handler, unless a client changes the registration or the driver is stopped first (`client_woken`).
The second duration is that of a handler that has made its call already and still has to re-arm.
-/

namespace HonorFB

/-- A client changes the registration, or the driver is stopped. -/
def Act.Disturbs (handle : Ptr) : Act → Prop
  | .client c => c.isVbl handle = true
  | .stop => True
  | _ => False

namespace Timed

/-- A punctual kernel, and nobody that disturbs. -/
structure Undisturbed (uptime : Nat → UInt64) (latency duration : Nat) (w : Timed) (e : Event) :
    Prop extends Punctual uptime latency duration w e where
  undisturbed : ¬e.act.Disturbs w.sys.drv.vblHandle

/-- The registration waits for a call that comes by the limit. -/
structure Waits (latency duration : Nat) (t : TimerId) (r : Registration) (limit : Nat)
    (w : Timed) : Prop where
  inv : w.sys.Inv
  held : w.sys.drv.fVBLTimer = some t
  attached : (w.sys.kern.timers t).attached = true
  idle : w.sys.pc = .idle
  invoked : w.sys.drv.invoked = [r]
  past : w.now ≤ limit
  pending : w.sys.tick = none → w.due t + latency + duration ≤ limit
  entered : ∀ i, w.sys.tick = some (i, .entered) →
    ∃ x, w.ticks.head? = some x ∧ x + duration ≤ limit
  returned : ∀ i, w.sys.tick = some (i, .returned) →
    ∃ x, w.ticks.head? = some x ∧
      x + duration + (framePeriodUS.toNat + latency + duration) ≤ limit

variable {uptime : Nat → UInt64} {latency duration limit : Nat} {t : TimerId} {r : Registration}
  {w : Timed} {e : Event}

theorem Waits.armed (h : Waits latency duration t r limit w) : Armed w.sys t :=
  ⟨h.held, h.attached, Or.inl h.idle⟩

/-- Time does not pass beyond the limit. -/
theorem Waits.elapse (h : Waits latency duration t r limit w)
    (hguard : Punctual uptime latency duration w e) : e.time ≤ limit := by
  cases htick : w.sys.tick with
  | none =>
    have hpending := h.pending htick
    obtain ⟨-, -, hwaiting | hrunning⟩ := h.armed.beating h.inv
    · have hfires := hguard.fires t h.held h.attached hwaiting.1 htick
      omega
    · obtain ⟨-, p, hsome⟩ := hrunning
      rw [htick] at hsome
      cases hsome
  | some tick =>
    obtain ⟨i, p⟩ := tick
    have hsome : w.sys.tick ≠ none := by
      rw [htick]
      exact Option.some_ne_none _
    cases p with
    | entered =>
      obtain ⟨x, hx, hlimit⟩ := h.entered i htick
      have hreturns := hguard.returns hsome x hx
      omega
    | returned =>
      obtain ⟨x, hx, hlimit⟩ := h.returned i htick
      have hreturns := hguard.returns hsome x hx
      omega

/-- A step that leaves the clock and the registration alone. -/
theorem Waits.keep (h : Waits latency duration t r limit w)
    (hguard : Punctual uptime latency duration w e) (harms : w.sys.arms e.act = none)
    (hfire : ∀ i clock, e.act ≠ .fire i clock) {s' : Sys} (hinv : s'.Inv)
    (hsame : s'.drv.fVBLTimer = w.sys.drv.fVBLTimer ∧ s'.drv.invoked = w.sys.drv.invoked ∧
      s'.kern = w.sys.kern ∧ s'.pc = w.sys.pc ∧ s'.tick = w.sys.tick) :
    Waits latency duration t r limit (w.log e s') := by
  obtain ⟨htimer, hinvoked, hkern, hpc, htick⟩ := hsame
  have hdue : (w.log e s').due t = w.due t := by
    rw [log_due, harms, if_neg (by simp)]
  have hticks : (w.log e s').ticks = w.ticks := log_ticks_of_not_fire w s' hfire
  constructor
  · exact hinv
  · exact htimer.trans h.held
  · show (s'.kern.timers t).attached = true
    rw [hkern]
    exact h.attached
  · exact hpc.trans h.idle
  · exact hinvoked.trans h.invoked
  · exact h.elapse hguard
  · intro hnone
    rw [hdue]
    exact h.pending (htick.symm.trans hnone)
  · intro i hsome
    rw [hticks]
    exact h.entered i (htick.symm.trans hsome)
  · intro i hsome
    rw [hticks]
    exact h.returned i (htick.symm.trans hsome)

theorem Waits.fire (h : Waits latency duration t r limit w)
    (hguard : Punctual uptime latency duration w e) {i : TimerId} {clock : Clock}
    (hact : e.act = .fire i clock) {s' : Sys} (hstep : w.sys.step e.act = some s')
    (hinv : s'.Inv) : Waits latency duration t r limit (w.log e s') := by
  have hforward := h.elapse hguard
  have hticks : (w.log e s').ticks = e.time :: w.ticks := by
    unfold log
    rw [hact]
  rw [hact] at hstep
  simp only [Sys.step] at hstep
  split at hstep
  · next hfires =>
    obtain ⟨htick, hattached, htimeout⟩ := hfires
    obtain rfl := Option.some.inj hstep
    -- only the driver's source is in the work loop
    obtain rfl : i = t := by
      by_contra hne
      have habsent := h.inv.others i fun hsome => by
        rw [h.held] at hsome
        exact hne (Option.some.inj hsome).symm
      rw [habsent] at hattached
      cases hattached
    have hsoon := hguard.fires i h.held hattached htimeout htick
    have hpending := h.pending htick
    refine ⟨hinv, h.held, ?_, h.idle, h.invoked, hforward, fun hnone => ?_, fun j _ => ?_,
      fun j hsome => ?_⟩
    · show ((w.sys.kern.fire i).timers i).attached = true
      rw [Kernel.fire_self]
      exact hattached
    · cases hnone
    · refine ⟨e.time, ?_, ?_⟩
      · rw [hticks]
        rfl
      · omega
    · cases hsome
  · cases hstep

theorem Waits.rearm (h : Waits latency duration t r limit w)
    (hguard : Punctual uptime latency duration w e) (hact : e.act = .rearm) {s' : Sys}
    (hstep : w.sys.step e.act = some s') (hinv : s'.Inv) :
    Waits latency duration t r limit (w.log e s') := by
  have hforward := h.elapse hguard
  have harms : w.sys.arms e.act = w.sys.tick.map Prod.fst := by
    rw [hact]
    rfl
  rw [hact] at hstep
  simp only [Sys.step] at hstep
  split at hstep
  · next i htick =>
    obtain rfl := Option.some.inj hstep
    obtain rfl : i = t := by
      have howned := (h.inv.tick_owned htick).1
      rw [h.held] at howned
      exact (Option.some.inj howned).symm
    obtain ⟨x, hx, hlimit⟩ := h.returned i htick
    have hreturns := hguard.returns (by rw [htick]; exact Option.some_ne_none _) x hx
    refine ⟨hinv, h.held, ?_, h.idle, h.invoked, hforward, fun _ => ?_, fun j hsome => ?_,
      fun j hsome => ?_⟩
    · show ((w.sys.kern.setTimeoutUS i framePeriodUS).timers i).attached = true
      rw [Kernel.setTimeoutUS, Kernel.use_self]
      exact h.attached
    · rw [log_due, if_pos (by rw [harms, htick]; rfl)]
      omega
    · cases hsome
    · cases hsome
  · cases hstep

/-- A step either calls the registration in time or leaves it waiting. -/
theorem Waits.step (h : Waits latency duration t r limit w)
    (hguard : Undisturbed uptime latency duration w e) {w' : Timed} (hstep : w.step e = some w') :
    ((∃ calls, e.act = .callback calls) ∧ w.sys.drv.invoked = [r] ∧ e.time ≤ limit) ∨
      Waits latency duration t r limit w' := by
  obtain ⟨s', hs, rfl⟩ := Option.map_eq_some_iff.1 hstep
  have hinv : s'.Inv := Sys.step_inv w.sys e.act s' h.inv hguard.fresh hs
  have hpunctual := hguard.toPunctual
  have hdisturbs := hguard.undisturbed
  have hidle := h.idle
  obtain ⟨time, act⟩ := e
  cases act with
  | callback calls => exact Or.inl ⟨⟨calls, rfl⟩, h.invoked, h.elapse hpunctual⟩
  | fire i clock => exact Or.inr (h.fire hpunctual rfl hs hinv)
  | rearm => exact Or.inr (h.rearm hpunctual rfl hs hinv)
  | start pe clock superStart =>
    have hfresh : w.sys.drv.fVBLTimer = none := hguard.fresh
    rw [h.held] at hfresh
    cases hfresh
  | stop => exact absurd trivial hdisturbs
  | client c =>
    have hsame := V6.call_of_not_isVbl w.sys.drv hdisturbs
    obtain rfl := Option.some.inj hs
    refine Or.inr (h.keep hpunctual rfl (by simp) hinv ?_)
    rw [hsame]
    exact ⟨rfl, rfl, rfl, rfl, rfl⟩
  | enableController timerEventSource =>
    simp only [Sys.step, hidle, h.held, Option.isNone_some, Bool.false_and, Bool.false_eq_true,
      if_true, if_false] at hs
    obtain rfl := Option.some.inj hs
    exact Or.inr (h.keep hpunctual rfl (by simp) hinv ⟨rfl, rfl, rfl, rfl, rfl⟩)
  | _ =>
    -- the other steps are those of an entry point in progress
    simp only [Sys.step, hidle] at hs
    cases hs

/-- **An entitled registration is called within a frame period, the latency and two durations of a
handler**, from any moment of any run on, unless somebody disturbs. -/
theorem client_woken (vblHandle : Ptr) (uptime : Nat → UInt64) (latency duration : Nat)
    (events more : List Event) (w w' : Timed)
    (hrun : Runs.Guarded step (Punctual uptime latency duration) (boot vblHandle) events w)
    (t : TimerId) (harmed : Armed w.sys t) (hidle : w.sys.pc = .idle) (r : Registration)
    (hr : w.sys.drv.invoked = [r])
    (hmore : Runs.Guarded step (Undisturbed uptime latency duration) w more w')
    (hlate : w.now + (16666 + latency + 2 * duration) < w'.now) :
    ∃ before e after u, more = before ++ e :: after ∧
      Runs.Guarded step (Undisturbed uptime latency duration) w before u ∧
      (∃ calls, e.act = .callback calls) ∧ u.sys.drv.invoked = [r] ∧
      e.time ≤ w.now + (16666 + latency + 2 * duration) := by
  obtain ⟨hinv, hfresh⟩ := run_fresh hrun
  obtain ⟨stamp, hrecent⟩ := hfresh t harmed
  have hperiod : framePeriodUS.toNat = 16666 := rfl
  have hpast := hrecent.past
  have hwaits : Waits latency duration t r (w.now + (16666 + latency + 2 * duration)) w := by
    refine ⟨hinv, harmed.held, harmed.attached, hidle, hr, Nat.le_add_right _ _, fun hnone => ?_,
      fun i hsome => ?_, fun i hsome => ?_⟩
    · have hpending := hrecent.pending hnone
      omega
    · refine ⟨stamp, hrecent.entered (by rw [hsome]; exact Option.some_ne_none _), ?_⟩
      omega
    · refine ⟨stamp, hrecent.entered (by rw [hsome]; exact Option.some_ne_none _), ?_⟩
      omega
  rcases hmore.awaited (fun _ _ _ hw hguard hstep => hw.step hguard hstep) hwaits with
    hend | hcalled
  · have hpastEnd := hend.past
    omega
  · exact hcalled

/-- A client registers while the clock is armed. -/
def registeredWhileArmed : List Event :=
  [⟨0, .start honorConsole ⟨0, id⟩ true⟩, ⟨5, .enableController true⟩, ⟨6, .addEventSource true⟩,
    ⟨7, .setTimeoutUS ⟨7, id⟩⟩,
    ⟨10, .client (.registerForInterruptType kIOFBVBLInterruptType 0x2000 0x3000 7 true)⟩]

def nextTick : List Event :=
  [⟨16690, .fire 0 ⟨16690, id⟩⟩, ⟨16691, .callback []⟩, ⟨16695, .rearm⟩,
    ⟨20000, .client (.setInterruptState 0x5000 0)⟩]

/-- Its proc is called at the next tick. -/
theorem client_woken_registered :
    ∃ w w' : Timed,
      Runs.Guarded step (Punctual Nat.toUInt64 30 10) (boot 0x1000) registeredWhileArmed w ∧
      Runs.Guarded step (Undisturbed Nat.toUInt64 30 10) w nextTick w' ∧
      ∃ before e after u, nextTick = before ++ e :: after ∧
        Runs.Guarded step (Undisturbed Nat.toUInt64 30 10) w before u ∧
        (∃ calls, e.act = .callback calls) ∧ u.sys.drv.invoked = [⟨0x2000, 0x3000, 7⟩] ∧
        e.time ≤ w.now + (16666 + 30 + 2 * 10) := by
  have hruns : ∃ w w' : Timed,
      Runs.Guarded step (Punctual Nat.toUInt64 30 10) (boot 0x1000) registeredWhileArmed w ∧
      (Armed w.sys 0 ∧ w.sys.pc = .idle ∧ w.sys.drv.invoked = [⟨0x2000, 0x3000, 7⟩] ∧
        w.now = 10 ∧ w'.now = 20000) ∧
      Runs.Guarded step (Undisturbed Nat.toUInt64 30 10) w nextTick w' :=
    ⟨_, _, .cons ⟨⟨by decide, by nofun, rfl⟩, by rintro _ ⟨⟩; rfl, by nofun, by nofun⟩ rfl
      (.cons ⟨⟨by decide, by nofun, trivial⟩, by nofun, by nofun, by nofun⟩ rfl
      (.cons ⟨⟨by decide, by nofun, trivial⟩, by nofun, by rintro _ ⟨⟩ ⟨⟩, by nofun⟩ rfl
      (.cons ⟨⟨by decide, by nofun, trivial⟩, by rintro _ ⟨⟩; rfl,
        by rintro _ ⟨⟩ _ hset; exact absurd rfl hset, by nofun⟩ rfl
      (.cons ⟨⟨by decide, by nofun, trivial⟩, by nofun, by rintro _ ⟨⟩ _ _ _; decide,
        by nofun⟩ rfl (.nil _))))), ⟨⟨rfl, rfl, Or.inl rfl⟩, rfl, rfl, rfl, rfl⟩,
      .cons ⟨⟨⟨by decide, ripe_fire (by decide), trivial⟩, by rintro _ ⟨⟩; rfl,
        by rintro _ ⟨⟩ _ _ _; decide, by nofun⟩, id⟩ rfl
      (.cons ⟨⟨⟨by decide, by nofun, trivial⟩, by nofun, by nofun,
        by rintro _ _ ⟨⟩; decide⟩, id⟩ rfl
      (.cons ⟨⟨⟨by decide, by nofun, trivial⟩, by nofun, by nofun,
        by rintro _ _ ⟨⟩; decide⟩, id⟩ rfl
      (.cons ⟨⟨⟨by decide, by nofun, trivial⟩, by nofun, by rintro _ ⟨⟩ _ _ _; decide,
        by nofun⟩, Bool.false_ne_true⟩ rfl (.nil _))))⟩
  obtain ⟨w, w', hrun, ⟨harmed, hidle, hr, hnow, hlate⟩, hmore⟩ := hruns
  exact ⟨w, w', hrun, hmore, client_woken 0x1000 Nat.toUInt64 30 10 _ _ w w' hrun 0 harmed hidle _
    hr hmore (by omega)⟩

end Timed

end HonorFB
