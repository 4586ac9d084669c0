import HonorFB.Vbl.Lifecycle
import HonorFB.Vbl.Time

/-!
# The cadence of the VBL clock

The interleaved clock with the time, in microseconds, at which each step is taken. Time does not go
back, and the kernel does not fire a source before its timeout is due: one frame period after the
`setTimeoutUS` that set it. Ticks are then at least one period apart in every run, across stops and
restarts too (`ticks_apart`).
-/

namespace HonorFB

structure Event where
  time : Nat
  act : Act

/-- The interleaved clock, the time of the latest event, when the timeout of each source is due,
and the times of the ticks so far, newest first. -/
structure Timed where
  sys : Sys
  now : Nat
  due : TimerId → Nat
  ticks : List Nat

/-- The source whose timeout an action sets. -/
def Sys.arms (s : Sys) : Act → Option TimerId
  | .setTimeoutUS _ => s.drv.fVBLTimer
  | .rearm => s.tick.map Prod.fst
  | _ => none

namespace Kernel

theorem use_timeout {k : Kernel} {i t : TimerId} {f : IOTimerEventSource → IOTimerEventSource}
    (h : ((k.use i f).timers t).timeout ≠ none)
    (hf : (f (k.timers i)).timeout ≠ none → (k.timers i).timeout ≠ none) :
    (k.timers t).timeout ≠ none := by
  by_cases hi : t = i
  · subst hi
    rw [use_self] at h
    exact hf h
  · rw [use_of_ne k hi] at h
    exact h

theorem addEventSource_timeout {k : Kernel} {i t : TimerId} {success : Bool}
    (h : ((k.addEventSource i success).timers t).timeout ≠ none) :
    (k.timers t).timeout ≠ none := by
  unfold addEventSource at h
  exact use_timeout h id

theorem cancelTimeout_timeout {k : Kernel} {i t : TimerId}
    (h : ((k.cancelTimeout i).timers t).timeout ≠ none) : (k.timers t).timeout ≠ none := by
  unfold cancelTimeout at h
  exact use_timeout h fun hset => absurd rfl hset

theorem removeEventSource_timeout {k : Kernel} {i t : TimerId}
    (h : ((k.removeEventSource i).timers t).timeout ≠ none) : (k.timers t).timeout ≠ none := by
  unfold removeEventSource at h
  exact use_timeout h fun hset => absurd rfl hset

theorem release_timeout {k : Kernel} {i t : TimerId}
    (h : ((k.release i).timers t).timeout ≠ none) : (k.timers t).timeout ≠ none := by
  unfold release at h
  exact use_timeout h id

theorem timerEventSource_timeout {k : Kernel} {t : TimerId}
    (h : (k.timerEventSource.timers t).timeout ≠ none) : (k.timers t).timeout ≠ none := by
  by_cases hi : t = k.created
  · subst hi
    rw [timerEventSource_self] at h
    exact absurd rfl h
  · rw [timerEventSource_of_ne k hi] at h
    exact h

theorem setTimeoutUS_timeout {k : Kernel} {i t : TimerId} {us : UInt32}
    (h : ((k.setTimeoutUS i us).timers t).timeout ≠ none) :
    i = t ∨ (k.timers t).timeout ≠ none := by
  by_cases hi : t = i
  · exact Or.inl hi.symm
  · unfold setTimeoutUS at h
    rw [use_of_ne k hi] at h
    exact Or.inr h

theorem fire_timeout {k : Kernel} {i t : TimerId} (h : ((k.fire i).timers t).timeout ≠ none) :
    i ≠ t ∧ (k.timers t).timeout ≠ none := by
  by_cases hi : t = i
  · subst hi
    rw [fire_self] at h
    exact absurd rfl h
  · rw [fire_of_ne k hi] at h
    exact ⟨Ne.symm hi, h⟩

end Kernel

theorem Sys.onTimer_timeout {s : Sys} {f : TimerId → Kernel} {t : TimerId}
    (h : ((s.onTimer f).timers t).timeout ≠ none)
    (hf : ∀ i, ((f i).timers t).timeout ≠ none → (s.kern.timers t).timeout ≠ none) :
    (s.kern.timers t).timeout ≠ none := by
  unfold onTimer at h
  cases hheld : s.drv.fVBLTimer with
  | none =>
    rw [hheld] at h
    exact h
  | some i =>
    rw [hheld] at h
    exact hf i h

/-- A timeout that is pending after a step was set by it or was pending before, and is not that of
a source that fired. -/
theorem Sys.step_timeout {s s' : Sys} {a : Act} (hstep : s.step a = some s') {t : TimerId}
    (h : (s'.kern.timers t).timeout ≠ none) :
    s.arms a = some t ∨ (s.kern.timers t).timeout ≠ none ∧ ∀ clock, a ≠ .fire t clock := by
  rw [step_kern hstep] at h
  cases a with
  | fire i clock =>
    obtain ⟨hne, hbefore⟩ := Kernel.fire_timeout h
    exact Or.inr ⟨hbefore, fun clock' heq => hne (Act.fire.inj heq).1⟩
  | enableController timerEventSource =>
    simp only [kernAfter] at h
    split at h
    · exact Or.inr ⟨Kernel.timerEventSource_timeout h, by simp⟩
    · exact Or.inr ⟨h, by simp⟩
  | rearm =>
    simp only [kernAfter, arms] at h ⊢
    cases htick : s.tick with
    | none =>
      rw [htick] at h
      exact Or.inr ⟨h, by simp⟩
    | some tick =>
      rw [htick] at h
      rcases Kernel.setTimeoutUS_timeout h with heq | hbefore
      · exact Or.inl (congrArg some heq)
      · exact Or.inr ⟨hbefore, by simp⟩
  | setTimeoutUS clock =>
    simp only [kernAfter, onTimer, arms] at h ⊢
    cases hheld : s.drv.fVBLTimer with
    | none =>
      rw [hheld] at h
      exact Or.inr ⟨h, by simp⟩
    | some i =>
      rw [hheld] at h
      rcases Kernel.setTimeoutUS_timeout h with heq | hbefore
      · exact Or.inl (congrArg some heq)
      · exact Or.inr ⟨hbefore, by simp⟩
  | addEventSource success =>
    exact Or.inr ⟨onTimer_timeout h fun _ => Kernel.addEventSource_timeout, by simp⟩
  | cancelTimeout => exact Or.inr ⟨onTimer_timeout h fun _ => Kernel.cancelTimeout_timeout, by simp⟩
  | removeEventSource =>
    exact Or.inr ⟨onTimer_timeout h fun _ => Kernel.removeEventSource_timeout, by simp⟩
  | release => exact Or.inr ⟨onTimer_timeout h fun _ => Kernel.release_timeout, by simp⟩
  | _ => exact Or.inr ⟨h, by simp⟩

namespace Timed

def boot (vblHandle : Ptr) : Timed where
  sys := .boot vblHandle
  now := 0
  due := fun _ => 0
  ticks := []

/-- A source does not fire before its timeout is due. -/
def Ripe (w : Timed) (e : Event) : Prop := ∀ t clock, e.act = .fire t clock → w.due t ≤ e.time

/-- The records of an event that is taken. -/
def log (w : Timed) (e : Event) (sys : Sys) : Timed where
  sys := sys
  now := e.time
  due :=
    match w.sys.arms e.act with
    | some t => Function.update w.due t (e.time + framePeriodUS.toNat)
    | none => w.due
  ticks :=
    match e.act with
    | .fire _ _ => e.time :: w.ticks
    | _ => w.ticks

def step (w : Timed) (e : Event) : Option Timed := (w.sys.step e.act).map (w.log e)

/-- The passage of time, and starts that find no timer. -/
structure InTime (w : Timed) (e : Event) : Prop where
  forward : w.now ≤ e.time
  ripe : w.Ripe e
  fresh : w.sys.StartsFresh e.act

theorem ripe_fire {w : Timed} {time : Nat} {t : TimerId} {clock : Clock} (h : w.due t ≤ time) :
    w.Ripe ⟨time, .fire t clock⟩ := by
  intro t' clock' heq
  obtain ⟨rfl, -⟩ := Act.fire.inj heq
  exact h

theorem log_due (w : Timed) (e : Event) (sys : Sys) (t : TimerId) :
    (w.log e sys).due t =
      if w.sys.arms e.act = some t then e.time + framePeriodUS.toNat else w.due t := by
  unfold log
  cases w.sys.arms e.act with
  | none => rfl
  | some i =>
    simp only [Option.some.injEq]
    by_cases hi : i = t
    · rw [if_pos hi, hi]
      exact Function.update_self t _ w.due
    · rw [if_neg hi]
      exact Function.update_of_ne (Ne.symm hi) _ w.due

theorem log_ticks_of_not_fire (w : Timed) {e : Event} (sys : Sys)
    (h : ∀ t clock, e.act ≠ .fire t clock) : (w.log e sys).ticks = w.ticks := by
  unfold log
  cases hact : e.act with
  | fire t clock => exact absurd hact (h t clock)
  | _ => rfl

/-! ## Ticks are a period apart -/

/-- The ticks so far are spaced, and a pending timeout keeps its distance to them. -/
structure Apart (w : Timed) : Prop where
  past : ∀ x ∈ w.ticks, x ≤ w.now
  spaced : Spacing.Spaced framePeriodUS.toNat w.ticks
  pending : ∀ t, (w.sys.kern.timers t).timeout ≠ none →
    ∀ x ∈ w.ticks, x + framePeriodUS.toNat ≤ w.due t

theorem boot_apart (vblHandle : Ptr) : (boot vblHandle).Apart where
  past := by nofun
  spaced := List.Pairwise.nil
  pending := by nofun

theorem fire_apart {w : Timed} {e : Event} {s' : Sys} (hinv : w.sys.Inv) (h : w.Apart)
    (hguard : w.InTime e) {t : TimerId} {clock : Clock} (hact : e.act = .fire t clock)
    (hstep : w.sys.step e.act = some s') : (w.log e s').Apart := by
  have hpending : (w.sys.kern.timers t).timeout ≠ none := by
    rw [hact] at hstep
    simp only [Sys.step] at hstep
    split at hstep
    · next hfires => exact hfires.2.2
    · cases hstep
  have hticks : (w.log e s').ticks = e.time :: w.ticks := by
    unfold log
    rw [hact]
  have hbefore : ∀ x ∈ w.ticks, x + framePeriodUS.toNat ≤ e.time := by
    intro x hx
    exact Nat.le_trans (h.pending t hpending x hx) (hguard.ripe t clock hact)
  refine ⟨fun x hx => ?_, ?_, fun i hi => ?_⟩
  · rw [hticks] at hx
    rcases List.mem_cons.1 hx with rfl | hx
    · exact Nat.le_refl _
    · exact Nat.le_trans (h.past x hx) hguard.forward
  · rw [hticks]
    exact h.spaced.cons hbefore
  · -- the driver has one source, and its timeout is taken off
    rcases Sys.step_timeout hstep hi with harms | ⟨hold, hne⟩
    · rw [hact] at harms
      cases harms
    · have hit := hinv.lifecycle.onePending i t hold hpending
      subst hit
      exact absurd hact (hne clock)

theorem step_apart {w : Timed} {e : Event} {s' : Sys} (hinv : w.sys.Inv) (h : w.Apart)
    (hguard : w.InTime e) (hstep : w.sys.step e.act = some s') : (w.log e s').Apart := by
  by_cases hfire : ∃ t clock, e.act = .fire t clock
  · obtain ⟨t, clock, hact⟩ := hfire
    exact fire_apart hinv h hguard hact hstep
  · have hticks : (w.log e s').ticks = w.ticks :=
      log_ticks_of_not_fire w s' fun t clock hact => hfire ⟨t, clock, hact⟩
    refine ⟨fun x hx => ?_, ?_, fun t ht x hx => ?_⟩
    · rw [hticks] at hx
      exact Nat.le_trans (h.past x hx) hguard.forward
    · rw [hticks]
      exact h.spaced
    · rw [hticks] at hx
      have hpast := h.past x hx
      have hforward := hguard.forward
      rw [log_due]
      by_cases harms : w.sys.arms e.act = some t
      · rw [if_pos harms]
        omega
      · rw [if_neg harms]
        rcases Sys.step_timeout hstep ht with hset | ⟨hold, -⟩
        · exact absurd hset harms
        · exact h.pending t hold x hx

/-- **In every run the ticks of the clock are a frame period apart, so a window of any length holds
no more of them than fit.** -/
theorem ticks_apart (vblHandle : Ptr) (events : List Event) (w : Timed)
    (hrun : Runs.Guarded step InTime (boot vblHandle) events w) :
    Spacing.Spaced 16666 w.ticks ∧
      ∀ start length,
        ((w.ticks.filter fun x => start ≤ x ∧ x ≤ start + length).length - 1) * 16666 ≤ length := by
  have hstep : ∀ (w : Timed) e w', w.sys.Inv ∧ w.Apart → w.InTime e → w.step e = some w' →
      w'.sys.Inv ∧ w'.Apart := by
    intro w e w' h hguard hstep
    obtain ⟨s', hs, rfl⟩ := Option.map_eq_some_iff.1 hstep
    exact ⟨Sys.step_inv w.sys e.act s' h.1 hguard.fresh hs, step_apart h.1 h.2 hguard hs⟩
  have hapart := (hrun.invariant hstep ⟨Sys.boot_inv vblHandle, boot_apart vblHandle⟩).2
  exact ⟨hapart.spaced, hapart.spaced.length_window⟩

/-- The clock is started and armed, and ticks twice. -/
def twoTicks : List Event :=
  [⟨0, .start honorConsole ⟨0, id⟩ true⟩, ⟨5, .enableController true⟩, ⟨6, .addEventSource true⟩,
    ⟨7, .setTimeoutUS ⟨7, id⟩⟩, ⟨16700, .fire 0 ⟨16700, id⟩⟩, ⟨16701, .callback []⟩,
    ⟨16705, .rearm⟩, ⟨33371, .fire 0 ⟨33371, id⟩⟩]

theorem ticks_apart_two :
    ∃ w, Runs.Guarded step InTime (boot 0x1000) twoTicks w ∧
      Spacing.Spaced 16666 w.ticks ∧
      ∀ start length,
        ((w.ticks.filter fun x => start ≤ x ∧ x ≤ start + length).length - 1) * 16666 ≤ length := by
  have hrun : ∃ w, Runs.Guarded step InTime (boot 0x1000) twoTicks w :=
    ⟨_, .cons ⟨by decide, by nofun, rfl⟩ rfl (.cons ⟨by decide, by nofun, trivial⟩ rfl
      (.cons ⟨by decide, by nofun, trivial⟩ rfl (.cons ⟨by decide, by nofun, trivial⟩ rfl
      (.cons ⟨by decide, ripe_fire (by decide), trivial⟩ rfl
      (.cons ⟨by decide, by nofun, trivial⟩ rfl (.cons ⟨by decide, by nofun, trivial⟩ rfl
      (.cons ⟨by decide, ripe_fire (by decide), trivial⟩ rfl (.nil _))))))))⟩
  obtain ⟨w, hrun⟩ := hrun
  exact ⟨w, hrun, ticks_apart 0x1000 _ w hrun⟩

end Timed

end HonorFB
