import HonorFB.Vbl.Cadence

/-!
# The reported time is recent

Let the kernel fire the driver's source within some latency once it is due, and let every handler
return within some duration. Then as long as the clock is armed, the time that `getVBLTime` reports
is never older than a frame period, the latency and the duration together (`never_stale`): each
handler delays the ticks after it, but none is lost.
-/

namespace HonorFB

namespace Timed

/-- A kernel whose clocks show `uptime`, which fires the driver's source within `latency` once it
is due, and whose handlers return within `duration`. -/
structure Punctual (uptime : Nat → UInt64) (latency duration : Nat) (w : Timed) (e : Event) :
    Prop extends InTime w e where
  reads : ∀ clock, e.act.stamp = some clock → clock.uptime = uptime e.time
  fires : ∀ t, w.sys.drv.fVBLTimer = some t → (w.sys.kern.timers t).attached = true →
    (w.sys.kern.timers t).timeout ≠ none → w.sys.tick = none → e.time ≤ w.due t + latency
  returns : w.sys.tick ≠ none → ∀ entered ∈ w.ticks.head?, e.time ≤ entered + duration

/-- The driver's source `t` is in the work loop and `stop` has not cancelled its timeout. -/
structure Armed (s : Sys) (t : TimerId) : Prop where
  held : s.drv.fVBLTimer = some t
  attached : (s.kern.timers t).attached = true
  pc : s.pc = .idle ∨ s.pc = .stopCancel

/-- The reported time was taken at `stamp`, and the next tick comes in time or is in progress. -/
structure Recent (uptime : Nat → UInt64) (latency duration : Nat) (w : Timed) (t : TimerId)
    (stamp : Nat) : Prop where
  reported : w.sys.drv.fLastVBLTime = uptime stamp
  past : stamp ≤ w.now
  near : w.now ≤ stamp + (framePeriodUS.toNat + latency + duration)
  pending : w.sys.tick = none → w.due t ≤ stamp + duration + framePeriodUS.toNat
  entered : w.sys.tick ≠ none → w.ticks.head? = some stamp

variable {uptime : Nat → UInt64} {latency duration : Nat} {w : Timed} {e : Event} {t : TimerId}
  {stamp : Nat}

theorem Armed.beating {s : Sys} (h : Armed s t) (hinv : s.Inv) :
    Beating s.tick t (s.kern.timers t) := by
  have hattached := h.attached
  have howned := hinv.owned t h.held
  have hdetached : ¬Detached s.tick (s.kern.timers t) := by
    intro hdetached
    rw [hdetached.1] at hattached
    cases hattached
  rcases h.pc with hpc | hpc
  · rw [hpc] at howned
    exact howned.resolve_left hdetached
  · rw [hpc] at howned
    exact howned.resolve_left hdetached

/-- Time cannot pass beyond the next tick. -/
theorem Recent.elapse (h : Recent uptime latency duration w t stamp) (hinv : w.sys.Inv)
    (harmed : Armed w.sys t) (hguard : Punctual uptime latency duration w e) :
    e.time ≤ stamp + (framePeriodUS.toNat + latency + duration) ∧
      (w.sys.tick ≠ none → e.time ≤ stamp + duration) := by
  have hreturns : w.sys.tick ≠ none → e.time ≤ stamp + duration := by
    intro htick
    exact hguard.returns htick stamp (by rw [h.entered htick]; exact rfl)
  refine ⟨?_, hreturns⟩
  obtain ⟨-, hattached, ⟨htimeout, htick⟩ | ⟨-, p, htick⟩⟩ := harmed.beating hinv
  · have hfires := hguard.fires t harmed.held hattached htimeout htick
    have hpending := h.pending htick
    omega
  · have htime := hreturns (by rw [htick]; nofun)
    omega

/-- A step that neither arms nor stamps. -/
theorem Recent.keep (h : Recent uptime latency duration w t stamp) (hinv : w.sys.Inv)
    (harmed : Armed w.sys t) (hguard : Punctual uptime latency duration w e) {s' : Sys}
    (hlast : s'.drv.fLastVBLTime = w.sys.drv.fLastVBLTime)
    (htick : s'.tick = none ↔ w.sys.tick = none) (harms : w.sys.arms e.act = none)
    (hfire : ∀ t clock, e.act ≠ .fire t clock) :
    Recent uptime latency duration (w.log e s') t stamp := by
  have hdue : (w.log e s').due t = w.due t := by
    rw [log_due, harms, if_neg (by nofun)]
  refine ⟨hlast.trans h.reported, Nat.le_trans h.past hguard.forward,
    (h.elapse hinv harmed hguard).1, fun hnone => ?_, fun hsome => ?_⟩
  · rw [hdue]
    exact h.pending (htick.1 hnone)
  · rw [log_ticks_of_not_fire w s' hfire]
    exact h.entered fun hnone => hsome (htick.2 hnone)

/-- Whenever the clock is armed, the reported time is recent. -/
def Fresh (uptime : Nat → UInt64) (latency duration : Nat) (w : Timed) : Prop :=
  ∀ t, Armed w.sys t → ∃ stamp, Recent uptime latency duration w t stamp

theorem setTimeoutUS_fresh (hinv : w.sys.Inv) (hguard : Punctual uptime latency duration w e)
    {clock : Clock} (hact : e.act = .setTimeoutUS clock) {s' : Sys}
    (hstep : w.sys.step e.act = some s') : Fresh uptime latency duration (w.log e s') := by
  intro t harmed
  have harms : w.sys.arms e.act = w.sys.drv.fVBLTimer := by rw [hact]; rfl
  have hreads : clock.uptime = uptime e.time := hguard.reads clock (by rw [hact]; rfl)
  rw [hact] at hstep
  simp only [Sys.step] at hstep
  split at hstep
  · next i hpc hheld =>
    obtain rfl := Option.some.inj hstep
    obtain rfl : i = t := by
      have hsome : w.sys.drv.fVBLTimer = some t := harmed.held
      rw [hheld] at hsome
      exact Option.some.inj hsome
    have htick : w.sys.tick = none := by
      have howned := hinv.owned i hheld
      rw [hpc] at howned
      exact howned.2
    refine ⟨e.time, hreads, Nat.le_refl _, Nat.le_add_right _ _, fun _ => ?_, fun hsome => ?_⟩
    · rw [log_due, harms, if_pos hheld]
      omega
    · exact absurd htick hsome
  · cases hstep

theorem fire_fresh (hguard : Punctual uptime latency duration w e)
    {i : TimerId} {clock : Clock} (hact : e.act = .fire i clock) {s' : Sys}
    (hstep : w.sys.step e.act = some s') : Fresh uptime latency duration (w.log e s') := by
  intro t harmed
  have hreads : clock.uptime = uptime e.time := hguard.reads clock (by rw [hact]; rfl)
  rw [hact] at hstep
  simp only [Sys.step] at hstep
  split at hstep
  · obtain rfl := Option.some.inj hstep
    refine ⟨e.time, hreads, Nat.le_refl _, Nat.le_add_right _ _, fun hnone => ?_, fun _ => ?_⟩
    · cases hnone
    · unfold log
      rw [hact]
      rfl
  · cases hstep

theorem rearm_fresh (hinv : w.sys.Inv) (h : Fresh uptime latency duration w)
    (hguard : Punctual uptime latency duration w e) (hact : e.act = .rearm) {s' : Sys}
    (hstep : w.sys.step e.act = some s') : Fresh uptime latency duration (w.log e s') := by
  intro t harmed
  have harms : w.sys.arms e.act = w.sys.tick.map Prod.fst := by rw [hact]; rfl
  rw [hact] at hstep
  simp only [Sys.step] at hstep
  split at hstep
  · next i htick =>
    obtain rfl := Option.some.inj hstep
    obtain ⟨hheld, -, -, hattached, -⟩ := hinv.tick_owned htick
    obtain rfl : i = t := by
      have hsome : w.sys.drv.fVBLTimer = some t := harmed.held
      rw [hheld] at hsome
      exact Option.some.inj hsome
    have hbefore : Armed w.sys i := ⟨hheld, hattached, harmed.pc⟩
    obtain ⟨stamp, hrecent⟩ := h i hbefore
    obtain ⟨hnear, hreturns⟩ := hrecent.elapse hinv hbefore hguard
    have htime := hreturns (by rw [htick]; exact Option.some_ne_none _)
    refine ⟨stamp, hrecent.reported, Nat.le_trans hrecent.past hguard.forward, hnear,
      fun _ => ?_, fun hsome => absurd rfl hsome⟩
    rw [log_due, if_pos (by rw [harms, htick]; rfl)]
    omega
  · cases hstep

theorem step_fresh (hinv : w.sys.Inv) (h : Fresh uptime latency duration w)
    (hguard : Punctual uptime latency duration w e) {s' : Sys}
    (hstep : w.sys.step e.act = some s') : Fresh uptime latency duration (w.log e s') := by
  obtain ⟨time, act⟩ := e
  cases act with
  | setTimeoutUS clock => exact setTimeoutUS_fresh hinv hguard rfl hstep
  | fire i clock => exact fire_fresh hguard rfl hstep
  | rearm => exact rearm_fresh hinv h hguard rfl hstep
  | start pe clock superStart =>
    intro t harmed
    have hfresh : w.sys.drv.fVBLTimer = none := hguard.fresh
    have hheld : s'.drv.fVBLTimer = some t := harmed.held
    rw [Sys.step_drv hstep] at hheld
    simp only [Sys.drvAfter, V6.start] at hheld
    split at hheld
    · rw [hfresh] at hheld
      cases hheld
    · cases hheld
  | enableController timerEventSource =>
    intro t harmed
    simp only [Sys.step] at hstep
    split at hstep
    · split at hstep
      · obtain rfl := Option.some.inj hstep
        rcases harmed.pc with hpc | hpc
        · cases hpc
        · cases hpc
      · obtain rfl := Option.some.inj hstep
        obtain ⟨stamp, hrecent⟩ := h t harmed
        exact ⟨stamp, hrecent.keep hinv harmed hguard rfl Iff.rfl rfl (by simp)⟩
    · cases hstep
  | addEventSource success =>
    intro t harmed
    simp only [Sys.step] at hstep
    split at hstep
    · next i hpc hheld =>
      obtain rfl := Option.some.inj hstep
      cases success with
      | true =>
        rcases harmed.pc with hpc | hpc
        · cases hpc
        · cases hpc
      | false =>
        -- the source that was not added is in no work loop
        obtain rfl : i = t := by
          have hsome : w.sys.drv.fVBLTimer = some t := harmed.held
          rw [hheld] at hsome
          exact Option.some.inj hsome
        have howned := hinv.owned i hheld
        rw [hpc] at howned
        have hattached : ((w.sys.kern.addEventSource i false).timers i).attached = true :=
          harmed.attached
        unfold Kernel.addEventSource at hattached
        rw [Kernel.use_self, howned.1] at hattached
        cases hattached
    · cases hstep
  | stop =>
    intro t harmed
    simp only [Sys.step] at hstep
    split at hstep
    · next hidle =>
      split at hstep
      · obtain rfl := Option.some.inj hstep
        have hbefore : Armed w.sys t := ⟨harmed.held, harmed.attached, Or.inl hidle⟩
        obtain ⟨stamp, hrecent⟩ := h t hbefore
        exact ⟨stamp, hrecent.keep hinv hbefore hguard rfl Iff.rfl rfl (by simp)⟩
      · obtain rfl := Option.some.inj hstep
        rcases harmed.pc with hpc | hpc
        · cases hpc
        · cases hpc
    · cases hstep
  | superStop =>
    intro t harmed
    simp only [Sys.step] at hstep
    split at hstep
    · next hpc =>
      obtain rfl := Option.some.inj hstep
      have howned := hinv.owned t harmed.held
      rw [hpc] at howned
      exact howned.elim
    · cases hstep
  | client c =>
    intro t harmed
    obtain rfl := Option.some.inj hstep
    have hsame := V6.call_sameClock w.sys.drv c
    have hbefore : Armed w.sys t :=
      ⟨hsame.fVBLTimer.symm.trans harmed.held, harmed.attached, harmed.pc⟩
    obtain ⟨stamp, hrecent⟩ := h t hbefore
    exact ⟨stamp, hrecent.keep hinv hbefore hguard hsame.fLastVBLTime Iff.rfl rfl (by simp)⟩
  | callback calls =>
    intro t harmed
    simp only [Sys.step] at hstep
    split at hstep
    · next i htick =>
      obtain rfl := Option.some.inj hstep
      have hsame := V6.runCallback_sameClock w.sys.drv calls
      have hbefore : Armed w.sys t :=
        ⟨hsame.fVBLTimer.symm.trans harmed.held, harmed.attached, harmed.pc⟩
      obtain ⟨stamp, hrecent⟩ := h t hbefore
      refine ⟨stamp, hrecent.keep hinv hbefore hguard hsame.fLastVBLTime ?_ rfl (by simp)⟩
      rw [htick]
      simp
    · cases hstep
  | cancelTimeout | release =>
    intro t harmed
    simp only [Sys.step] at hstep
    split at hstep
    · obtain rfl := Option.some.inj hstep
      rcases harmed.pc with hpc | hpc
      · cases hpc
      · cases hpc
    · cases hstep
  | removeEventSource =>
    intro t harmed
    simp only [Sys.step] at hstep
    split at hstep
    · obtain rfl := Option.some.inj hstep
      rcases harmed.pc with hpc | hpc
      · cases hpc
      · cases hpc
    · cases hstep
  | clearTimer =>
    intro t harmed
    simp only [Sys.step] at hstep
    split at hstep
    · obtain rfl := Option.some.inj hstep
      cases harmed.held
    · cases hstep

theorem run_fresh {vblHandle : Ptr} {events : List Event}
    (hrun : Runs.Guarded step (Punctual uptime latency duration) (boot vblHandle) events w) :
    w.sys.Inv ∧ Fresh uptime latency duration w := by
  have hstep : ∀ (w : Timed) e w', w.sys.Inv ∧ Fresh uptime latency duration w →
      Punctual uptime latency duration w e → w.step e = some w' →
      w'.sys.Inv ∧ Fresh uptime latency duration w' := by
    intro w e w' h hguard hstep
    obtain ⟨s', hs, rfl⟩ := Option.map_eq_some_iff.1 hstep
    exact ⟨Sys.step_inv w.sys e.act s' h.1 hguard.fresh hs, step_fresh h.1 h.2 hguard hs⟩
  have hboot : Fresh uptime latency duration (boot vblHandle) := by
    intro t harmed
    cases harmed.held
  exact hrun.invariant hstep ⟨Sys.boot_inv vblHandle, hboot⟩

/-- **On a punctual kernel the time that `getVBLTime` reports of an armed clock is never older than
a frame period, the latency and the duration of a handler.** -/
theorem never_stale (vblHandle : Ptr) (uptime : Nat → UInt64) (latency duration : Nat)
    (events : List Event) (w : Timed)
    (hrun : Runs.Guarded step (Punctual uptime latency duration) (boot vblHandle) events w)
    (t : TimerId) (harmed : Armed w.sys t) :
    ∃ stamp, (w.sys.drv.getVBLTime true true).1 = some (uptime stamp) ∧ stamp ≤ w.now ∧
      w.now ≤ stamp + (16666 + latency + duration) := by
  obtain ⟨stamp, hrecent⟩ := (run_fresh hrun).2 t harmed
  exact ⟨stamp, congrArg some hrecent.reported, hrecent.past, hrecent.near⟩

/-- One frame of the clock. -/
def oneFrame : List Event :=
  [⟨0, .start honorConsole ⟨0, id⟩ true⟩, ⟨5, .enableController true⟩, ⟨6, .addEventSource true⟩,
    ⟨7, .setTimeoutUS ⟨7, id⟩⟩, ⟨16700, .fire 0 ⟨16700, id⟩⟩, ⟨16701, .callback []⟩,
    ⟨16705, .rearm⟩]

/-- On a kernel that is 30 microseconds late at most. -/
theorem never_stale_frame :
    ∃ w, Runs.Guarded step (Punctual Nat.toUInt64 30 10) (boot 0x1000) oneFrame w ∧
      ∃ stamp, (w.sys.drv.getVBLTime true true).1 = some stamp.toUInt64 ∧ stamp ≤ w.now ∧
        w.now ≤ stamp + (16666 + 30 + 10) := by
  have hrun : ∃ w, Runs.Guarded step (Punctual Nat.toUInt64 30 10) (boot 0x1000) oneFrame w ∧
      Armed w.sys 0 :=
    ⟨_, .cons ⟨⟨by decide, by nofun, rfl⟩, by rintro _ ⟨⟩; rfl, by nofun, by nofun⟩ rfl
      (.cons ⟨⟨by decide, by nofun, trivial⟩, by nofun, by nofun, by nofun⟩ rfl
      (.cons ⟨⟨by decide, by nofun, trivial⟩, by nofun, by rintro _ ⟨⟩ ⟨⟩, by nofun⟩ rfl
      (.cons ⟨⟨by decide, by nofun, trivial⟩, by rintro _ ⟨⟩; rfl,
        by rintro _ ⟨⟩ _ hset; exact absurd rfl hset, by nofun⟩ rfl
      (.cons ⟨⟨by decide, ripe_fire (by decide), trivial⟩, by rintro _ ⟨⟩; rfl,
        by rintro _ ⟨⟩ _ _ _; decide, by nofun⟩ rfl
      (.cons ⟨⟨by decide, by nofun, trivial⟩, by nofun, by nofun,
        by rintro _ _ ⟨⟩; decide⟩ rfl
      (.cons ⟨⟨by decide, by nofun, trivial⟩, by nofun, by nofun,
        by rintro _ _ ⟨⟩; decide⟩ rfl (.nil _))))))), rfl, rfl, Or.inl rfl⟩
  obtain ⟨w, hrun, harmed⟩ := hrun
  exact ⟨w, hrun, never_stale 0x1000 Nat.toUInt64 30 10 _ w hrun 0 harmed⟩

end Timed

end HonorFB
