import HonorFB.Vbl.Interleave

/-!
# The timer over every interleaving

The invariant of the interleaved clock is about one source, the one `fVBLTimer` names: every other
source is absent, and at each point of the entry points this one is in a known state (`Owned`). It
holds over every run in which `start` is only called while `fVBLTimer` is `NULL`: `start` clears the
pointer, and a timer armed between a stop and the next start would be lost to it.
-/

namespace HonorFB

/-- Clients call between any two points of the entry points and of the handler. -/
theorem Sys.step_client (s : Sys) (c : Call) :
    s.step (.client c) = some { s with drv := (s.drv.call c).1 } := by
  rw [step]

/-! ## The driver's own source -/

/-- Retained but not in the work loop, as before `addEventSource`, after its failure and after
`removeEventSource`. -/
def Detached (tick : Option (TimerId × TickPc)) (src : IOTimerEventSource) : Prop :=
  src = ⟨true, false, none⟩ ∧ tick = none

/-- In the work loop with either a timeout pending or its handler running. -/
def Beating (tick : Option (TimerId × TickPc)) (t : TimerId) (src : IOTimerEventSource) : Prop :=
  src.retained = true ∧ src.attached = true ∧
    (src.timeout ≠ none ∧ tick = none ∨ src.timeout = none ∧ ∃ p, tick = some (t, p))

/-- In the work loop while `stop` waits to remove it: it may be silent, but a handler that still
runs is its own. -/
def Draining (tick : Option (TimerId × TickPc)) (t : TimerId) (src : IOTimerEventSource) : Prop :=
  src.retained = true ∧ src.attached = true ∧
    (tick = none ∨ src.timeout = none ∧ ∃ p, tick = some (t, p))

/-- The state of the source that `fVBLTimer` names. -/
def Owned (tick : Option (TimerId × TickPc)) (t : TimerId) (src : IOTimerEventSource) :
    Pc → Prop
  | .idle | .stopCancel => Detached tick src ∨ Beating tick t src
  | .enableAdd | .stopRelease => Detached tick src
  | .enableArm => src = ⟨true, true, none⟩ ∧ tick = none
  | .stopRemove => Detached tick src ∨ Draining tick t src
  | .stopClear => src = .absent ∧ tick = none
  | .stopSuper => False

theorem Beating.draining {tick : Option (TimerId × TickPc)} {t : TimerId}
    {src : IOTimerEventSource} (h : Beating tick t src) : Draining tick t src := by
  obtain ⟨hretained, hattached, ⟨-, htick⟩ | hrunning⟩ := h
  · exact ⟨hretained, hattached, Or.inl htick⟩
  · exact ⟨hretained, hattached, Or.inr hrunning⟩

theorem Owned.retained {tick : Option (TimerId × TickPc)} {t : TimerId}
    {src : IOTimerEventSource} {pc : Pc} (h : Owned tick t src pc) (hpc : pc ≠ .stopClear) :
    src.retained = true := by
  have hdetached : Detached tick src → src.retained = true := by
    rintro ⟨rfl, -⟩
    rfl
  cases pc with
  | idle => exact h.elim hdetached fun hb => hb.1
  | enableAdd => exact hdetached h
  | enableArm =>
    obtain ⟨rfl, -⟩ := h
    rfl
  | stopCancel => exact h.elim hdetached fun hb => hb.1
  | stopRemove => exact h.elim hdetached fun hd => hd.1
  | stopRelease => exact hdetached h
  | stopClear => exact absurd rfl hpc
  | stopSuper => exact h.elim

/-- A source that can fire, or whose handler runs, is in the work loop, and `stop` has not removed
it yet. -/
theorem Owned.live {tick : Option (TimerId × TickPc)} {t : TimerId} {src : IOTimerEventSource}
    {pc : Pc} (h : Owned tick t src pc)
    (hlive : tick ≠ none ∨ src.attached = true ∧ src.timeout ≠ none) :
    (pc = .idle ∨ pc = .stopCancel ∨ pc = .stopRemove) ∧ Draining tick t src := by
  have hdetached : ¬Detached tick src := by
    rintro ⟨rfl, rfl⟩
    rcases hlive with hne | ⟨hattached, -⟩
    · exact hne rfl
    · cases hattached
  cases pc with
  | idle => exact ⟨Or.inl rfl, (h.resolve_left hdetached).draining⟩
  | enableAdd => exact absurd h hdetached
  | enableArm =>
    obtain ⟨rfl, rfl⟩ := h
    rcases hlive with hne | ⟨-, hne⟩
    · exact absurd rfl hne
    · exact absurd rfl hne
  | stopCancel => exact ⟨Or.inr (Or.inl rfl), (h.resolve_left hdetached).draining⟩
  | stopRemove => exact ⟨Or.inr (Or.inr rfl), h.resolve_left hdetached⟩
  | stopRelease => exact absurd h hdetached
  | stopClear =>
    obtain ⟨rfl, rfl⟩ := h
    rcases hlive with hne | ⟨hattached, -⟩
    · exact absurd rfl hne
    · cases hattached
  | stopSuper => exact h.elim

/-- Up to the removal, a source in the work loop may be beating. -/
theorem Beating.owned {tick : Option (TimerId × TickPc)} {t : TimerId} {src : IOTimerEventSource}
    {pc : Pc} (h : Beating tick t src)
    (hpc : pc = .idle ∨ pc = .stopCancel ∨ pc = .stopRemove) : Owned tick t src pc := by
  rcases hpc with rfl | rfl | rfl
  · exact Or.inr h
  · exact Or.inr h
  · exact Or.inr h.draining

/-! ## The invariant -/

namespace Sys

/-- `start` is only called while `fVBLTimer` is `NULL`. -/
def StartsFresh (s : Sys) : Act → Prop
  | .start _ _ _ => s.drv.fVBLTimer = none
  | _ => True

structure Inv (s : Sys) : Prop where
  unmisused : s.kern.misused = false
  others : ∀ t, s.drv.fVBLTimer ≠ some t → s.kern.timers t = .absent
  owned : ∀ t, s.drv.fVBLTimer = some t → Owned s.tick t (s.kern.timers t) s.pc
  free : s.drv.fVBLTimer = none → s.tick = none ∧ (s.pc = .idle ∨ s.pc = .stopSuper)

theorem boot_inv (vblHandle : Ptr) : (boot vblHandle).Inv where
  unmisused := rfl
  others := fun _ _ => rfl
  owned := fun t h => by cases h
  free := fun _ => ⟨rfl, Or.inl rfl⟩

/-- A method call on the driver's source keeps the invariant if it leaves the source as the next
point expects it. -/
theorem Inv.use {s : Sys} (h : s.Inv) {t : TimerId} (ht : s.drv.fVBLTimer = some t)
    (hpc : s.pc ≠ .stopClear) (f : IOTimerEventSource → IOTimerEventSource) {drv : V6}
    (hdrv : drv.fVBLTimer = some t) {pc : Pc} {tick : Option (TimerId × TickPc)}
    (howned : Owned tick t (f (s.kern.timers t)) pc) :
    Inv { s with drv := drv, kern := s.kern.use t f, pc := pc, tick := tick } where
  unmisused := by
    rw [Kernel.use_misused _ _ ((h.owned t ht).retained hpc)]
    exact h.unmisused
  others := fun i hi => by
    have hne : i ≠ t := by
      rintro rfl
      exact hi hdrv
    rw [Kernel.use_of_ne _ hne]
    refine h.others i fun hsome => hne ?_
    rw [ht] at hsome
    exact (Option.some.inj hsome).symm
  owned := fun i hi => by
    rw [hdrv] at hi
    obtain rfl := Option.some.inj hi
    rw [Kernel.use_self]
    exact howned
  free := fun hnone => by
    rw [hdrv] at hnone
    cases hnone

theorem Inv.move {s : Sys} (h : s.Inv) {drv : V6} (hdrv : drv.fVBLTimer = s.drv.fVBLTimer)
    {pc : Pc} {tick : Option (TimerId × TickPc)} {running : Bool}
    (howned : ∀ t, Owned s.tick t (s.kern.timers t) s.pc → Owned tick t (s.kern.timers t) pc)
    (hfree : s.drv.fVBLTimer = none → tick = none ∧ (pc = .idle ∨ pc = .stopSuper)) :
    Inv { s with drv := drv, pc := pc, tick := tick, running := running } where
  unmisused := h.unmisused
  others := fun t ht => h.others t (hdrv ▸ ht)
  owned := fun t ht => howned t (h.owned t (hdrv ▸ ht))
  free := fun hnone => hfree (hdrv ▸ hnone)

/-! ## One step -/

theorem start_inv {s s' : Sys} (h : s.Inv) {pe : PEState} {clock : Clock} {superStart : Bool}
    (hfresh : s.drv.fVBLTimer = none) (hstep : s.step (.start pe clock superStart) = some s') :
    s'.Inv := by
  have htimer : (s.drv.start pe clock superStart).1.fVBLTimer = s.drv.fVBLTimer := by
    rw [hfresh]
    unfold V6.start
    split
    · exact hfresh
    · rfl
  simp only [step] at hstep
  split at hstep
  · obtain rfl := Option.some.inj hstep
    exact h.move htimer (fun _ => id) h.free
  · cases hstep

theorem enableController_inv {s s' : Sys} (h : s.Inv) {timerEventSource : Bool}
    (hstep : s.step (.enableController timerEventSource) = some s') : s'.Inv := by
  simp only [step] at hstep
  split at hstep
  · split at hstep
    · next hcreate =>
      obtain rfl := Option.some.inj hstep
      have hnone : s.drv.fVBLTimer = none := by
        rw [Bool.and_eq_true, Option.isNone_iff_eq_none] at hcreate
        exact hcreate.1
      refine ⟨h.unmisused, fun t ht => ?_, fun t ht => ?_, fun hfree => by cases hfree⟩
      · have hne : t ≠ s.kern.created := by
          rintro rfl
          exact ht rfl
        show s.kern.timerEventSource.timers t = .absent
        rw [Kernel.timerEventSource_of_ne _ hne]
        exact h.others t (by rw [hnone]; nofun)
      · obtain rfl := Option.some.inj ht
        show Owned s.tick _ (s.kern.timerEventSource.timers _) .enableAdd
        rw [Kernel.timerEventSource_self]
        exact ⟨rfl, (h.free hnone).1⟩
    · obtain rfl := Option.some.inj hstep
      exact h
  · cases hstep

theorem addEventSource_inv {s s' : Sys} (h : s.Inv) {success : Bool}
    (hstep : s.step (.addEventSource success) = some s') : s'.Inv := by
  simp only [step] at hstep
  split at hstep
  · next t hpc ht =>
    obtain rfl := Option.some.inj hstep
    have howned := h.owned t ht
    rw [hpc] at howned
    obtain ⟨hsrc, htick⟩ := howned
    refine h.use ht (by rw [hpc]; nofun) _ ht ?_
    rw [hsrc, htick]
    cases success with
    | false => exact Or.inl ⟨rfl, rfl⟩
    | true => exact ⟨rfl, rfl⟩
  · cases hstep

theorem setTimeoutUS_inv {s s' : Sys} (h : s.Inv) {clock : Clock}
    (hstep : s.step (.setTimeoutUS clock) = some s') : s'.Inv := by
  simp only [step] at hstep
  split at hstep
  · next t hpc ht =>
    obtain rfl := Option.some.inj hstep
    have howned := h.owned t ht
    rw [hpc] at howned
    obtain ⟨hsrc, htick⟩ := howned
    refine h.use ht (by rw [hpc]; nofun) _ ?_ ?_
    · exact ht
    · rw [hsrc]
      exact Or.inr ⟨rfl, rfl, Or.inl ⟨Option.some_ne_none _, htick⟩⟩
  · cases hstep

theorem stop_inv {s s' : Sys} (h : s.Inv) (hstep : s.step .stop = some s') : s'.Inv := by
  simp only [step] at hstep
  split at hstep
  · next hidle =>
    split at hstep
    · next t ht =>
      obtain rfl := Option.some.inj hstep
      refine h.move ?_ (fun t howned => ?_) fun hnone => ?_
      · rfl
      · rw [hidle] at howned
        exact howned
      · rw [ht] at hnone
        cases hnone
    · next hnone =>
      obtain rfl := Option.some.inj hstep
      refine ⟨h.unmisused, h.others, fun t ht => ?_, fun _ => ⟨(h.free hnone).1, Or.inr rfl⟩⟩
      rw [hnone] at ht
      cases ht
  · cases hstep

theorem cancelTimeout_inv {s s' : Sys} (h : s.Inv) (hstep : s.step .cancelTimeout = some s') :
    s'.Inv := by
  simp only [step] at hstep
  split at hstep
  · next t hpc ht =>
    obtain rfl := Option.some.inj hstep
    have howned := h.owned t ht
    rw [hpc] at howned
    refine h.use ht (by rw [hpc]; nofun) _ ht ?_
    rcases howned with ⟨hsrc, htick⟩ | ⟨hretained, hattached, ⟨-, htick⟩ | ⟨-, hrunning⟩⟩
    · rw [hsrc]
      exact Or.inl ⟨rfl, htick⟩
    · exact Or.inr ⟨hretained, hattached, Or.inl htick⟩
    · exact Or.inr ⟨hretained, hattached, Or.inr ⟨rfl, hrunning⟩⟩
  · cases hstep

theorem removeEventSource_inv {s s' : Sys} (h : s.Inv)
    (hstep : s.step .removeEventSource = some s') : s'.Inv := by
  simp only [step] at hstep
  split at hstep
  · next t hpc ht htick =>
    obtain rfl := Option.some.inj hstep
    have hretained := (h.owned t ht).retained (by rw [hpc]; nofun)
    refine h.use ht (by rw [hpc]; nofun) _ ht ⟨?_, htick⟩
    rw [hretained]
  · cases hstep

theorem release_inv {s s' : Sys} (h : s.Inv) (hstep : s.step .release = some s') : s'.Inv := by
  simp only [step] at hstep
  split at hstep
  · next t hpc ht =>
    obtain rfl := Option.some.inj hstep
    have howned := h.owned t ht
    rw [hpc] at howned
    obtain ⟨hsrc, htick⟩ := howned
    refine h.use ht (by rw [hpc]; nofun) _ ht ?_
    rw [hsrc]
    exact ⟨rfl, htick⟩
  · cases hstep

theorem clearTimer_inv {s s' : Sys} (h : s.Inv) (hstep : s.step .clearTimer = some s') :
    s'.Inv := by
  simp only [step] at hstep
  split at hstep
  · next hpc =>
    obtain rfl := Option.some.inj hstep
    have hall : s.tick = none ∧ ∀ t, s.kern.timers t = .absent := by
      cases htimer : s.drv.fVBLTimer with
      | none => exact ⟨(h.free htimer).1, fun t => h.others t (by rw [htimer]; nofun)⟩
      | some t =>
        have howned := h.owned t htimer
        rw [hpc] at howned
        refine ⟨howned.2, fun i => ?_⟩
        by_cases hi : s.drv.fVBLTimer = some i
        · rw [htimer] at hi
          obtain rfl := Option.some.inj hi
          exact howned.1
        · exact h.others i hi
    exact ⟨h.unmisused, fun t _ => hall.2 t, nofun, fun _ => ⟨hall.1, Or.inr rfl⟩⟩
  · cases hstep

theorem superStop_inv {s s' : Sys} (h : s.Inv) (hstep : s.step .superStop = some s') :
    s'.Inv := by
  simp only [step] at hstep
  split at hstep
  · next hpc =>
    obtain rfl := Option.some.inj hstep
    refine h.move rfl (fun t howned => ?_) fun hnone => ⟨(h.free hnone).1, Or.inl rfl⟩
    rw [hpc] at howned
    exact howned.elim
  · cases hstep

theorem client_inv {s s' : Sys} (h : s.Inv) {c : Call} (hstep : s.step (.client c) = some s') :
    s'.Inv := by
  rw [step_client] at hstep
  obtain rfl := Option.some.inj hstep
  exact h.move (V6.call_sameClock s.drv c).fVBLTimer (fun _ => id) h.free

theorem fire_inv {s s' : Sys} (h : s.Inv) {t : TimerId} {clock : Clock}
    (hstep : s.step (.fire t clock) = some s') : s'.Inv := by
  simp only [step] at hstep
  split at hstep
  · next hfires =>
    obtain rfl := Option.some.inj hstep
    obtain ⟨-, hattached, htimeout⟩ := hfires
    -- only the driver's own source is attached to anything
    have ht : s.drv.fVBLTimer = some t := by
      by_contra hne
      rw [h.others t hne] at hattached
      cases hattached
    refine ⟨h.unmisused, fun i hi => ?_, fun i hi => ?_, fun hnone => ?_⟩
    · have hne : i ≠ t := by
        rintro rfl
        exact hi ht
      show (s.kern.fire t).timers i = .absent
      rw [Kernel.fire_of_ne _ hne]
      exact h.others i hi
    · have hit : i = t := by
        have hi' : s.drv.fVBLTimer = some i := hi
        rw [ht] at hi'
        exact (Option.some.inj hi').symm
      subst hit
      obtain ⟨hpc, hretained, -, -⟩ := (h.owned i ht).live (Or.inr ⟨hattached, htimeout⟩)
      show Owned (some (i, .entered)) i ((s.kern.fire i).timers i) s.pc
      rw [Kernel.fire_self]
      apply Beating.owned _ hpc
      exact ⟨hretained, hattached, Or.inr ⟨rfl, .entered, rfl⟩⟩
    · have hnone' : s.drv.fVBLTimer = none := hnone
      rw [ht] at hnone'
      cases hnone'
  · cases hstep

/-- The handler runs on the driver's own source. -/
theorem Inv.tick_owned {s : Sys} (h : s.Inv) {t : TimerId} {p : TickPc}
    (htick : s.tick = some (t, p)) :
    s.drv.fVBLTimer = some t ∧
      (s.pc = .idle ∨ s.pc = .stopCancel ∨ s.pc = .stopRemove) ∧
      (s.kern.timers t).retained = true ∧ (s.kern.timers t).attached = true ∧
      (s.kern.timers t).timeout = none := by
  cases htimer : s.drv.fVBLTimer with
  | none =>
    rw [(h.free htimer).1] at htick
    cases htick
  | some i =>
    obtain ⟨hpc, hretained, hattached, hnone | ⟨htimeout, q, hq⟩⟩ :=
      (h.owned i htimer).live (Or.inl (by rw [htick]; exact Option.some_ne_none _))
    · rw [htick] at hnone
      cases hnone
    · rw [htick] at hq
      obtain ⟨rfl, -⟩ := Prod.mk.inj (Option.some.inj hq)
      exact ⟨rfl, hpc, hretained, hattached, htimeout⟩

theorem callback_inv {s s' : Sys} (h : s.Inv) {calls : List Call}
    (hstep : s.step (.callback calls) = some s') : s'.Inv := by
  simp only [step] at hstep
  split at hstep
  · next t htick =>
    obtain rfl := Option.some.inj hstep
    obtain ⟨ht, hpc, hretained, hattached, htimeout⟩ := h.tick_owned htick
    have htimer := (V6.runCallback_sameClock s.drv calls).fVBLTimer
    refine ⟨h.unmisused, fun i hi => h.others i (htimer ▸ hi), fun i hi => ?_, fun hnone => ?_⟩
    · have hi' : s.drv.fVBLTimer = some i := htimer ▸ hi
      rw [ht] at hi'
      obtain rfl := Option.some.inj hi'
      apply Beating.owned _ hpc
      exact ⟨hretained, hattached, Or.inr ⟨htimeout, .returned, rfl⟩⟩
    · have hnone' : s.drv.fVBLTimer = none := htimer ▸ hnone
      rw [ht] at hnone'
      cases hnone'
  · cases hstep

theorem rearm_inv {s s' : Sys} (h : s.Inv) (hstep : s.step .rearm = some s') : s'.Inv := by
  simp only [step] at hstep
  split at hstep
  · next t htick =>
    obtain rfl := Option.some.inj hstep
    obtain ⟨ht, hpc, hretained, hattached, -⟩ := h.tick_owned htick
    have hne : s.pc ≠ .stopClear := by
      intro hclear
      rw [hclear] at hpc
      simp at hpc
    refine h.use ht hne _ ht (Beating.owned ?_ hpc)
    exact ⟨hretained, hattached, Or.inl ⟨Option.some_ne_none _, rfl⟩⟩
  · cases hstep

theorem step_inv (s : Sys) (a : Act) (s' : Sys) (h : s.Inv) (hfresh : s.StartsFresh a)
    (hstep : s.step a = some s') : s'.Inv := by
  cases a with
  | start pe clock superStart => exact start_inv h hfresh hstep
  | enableController timerEventSource => exact enableController_inv h hstep
  | addEventSource success => exact addEventSource_inv h hstep
  | setTimeoutUS clock => exact setTimeoutUS_inv h hstep
  | stop => exact stop_inv h hstep
  | cancelTimeout => exact cancelTimeout_inv h hstep
  | removeEventSource => exact removeEventSource_inv h hstep
  | release => exact release_inv h hstep
  | clearTimer => exact clearTimer_inv h hstep
  | superStop => exact superStop_inv h hstep
  | client c => exact client_inv h hstep
  | fire t clock => exact fire_inv h hstep
  | callback calls => exact callback_inv h hstep
  | rearm => exact rearm_inv h hstep

/-! ## What every run keeps -/

/-- The heartbeat and the lifecycle of the timer at one moment. -/
structure Lifecycle (s : Sys) : Prop where
  oneUnreleased : ∀ t t', (s.kern.timers t).retained = true →
    (s.kern.timers t').retained = true → t = t'
  unmisused : s.kern.misused = false
  onePending : ∀ t t', (s.kern.timers t).timeout ≠ none → (s.kern.timers t').timeout ≠ none →
    t = t'
  heartbeat : ∀ t, s.drv.fVBLTimer = some t → (s.kern.timers t).attached = true → s.pc = .idle →
    (s.kern.timers t).timeout ≠ none ∨ ∃ p, s.tick = some (t, p)
  stopped : s.pc = .stopSuper → s.drv.fVBLTimer = none
  quiet : s.drv.fVBLTimer = none → s.tick = none ∧ ∀ t, s.kern.timers t = .absent

theorem Inv.lifecycle {s : Sys} (h : s.Inv) : s.Lifecycle := by
  have howner : ∀ t, s.kern.timers t ≠ .absent → s.drv.fVBLTimer = some t := by
    intro t hne
    by_contra hother
    exact hne (h.others t hother)
  have hunique : ∀ t t', s.kern.timers t ≠ .absent → s.kern.timers t' ≠ .absent → t = t' := by
    intro t t' ht ht'
    have hsome := howner t ht
    rw [howner t' ht'] at hsome
    exact (Option.some.inj hsome).symm
  refine ⟨fun t t' ht ht' => hunique t t' ?_ ?_, h.unmisused,
    fun t t' ht ht' => hunique t t' ?_ ?_, fun t ht hattached hidle => ?_, fun hpc => ?_,
    fun hnone => ⟨(h.free hnone).1, fun t => h.others t (by rw [hnone]; nofun)⟩⟩
  · intro habsent
    rw [habsent] at ht
    cases ht
  · intro habsent
    rw [habsent] at ht'
    cases ht'
  · intro habsent
    exact ht (by rw [habsent]; rfl)
  · intro habsent
    exact ht' (by rw [habsent]; rfl)
  · have howned := h.owned t ht
    rw [hidle] at howned
    rcases howned with ⟨hsrc, -⟩ | ⟨-, -, ⟨hpending, -⟩ | ⟨-, hrunning⟩⟩
    · rw [hsrc] at hattached
      cases hattached
    · exact Or.inl hpending
    · exact Or.inr hrunning
  · cases htimer : s.drv.fVBLTimer with
    | none => rfl
    | some t =>
      have howned := h.owned t htimer
      rw [hpc] at howned
      exact howned.elim

/-- **At every moment of every interleaving in which `start` finds no timer, the driver holds at
most one timer and at most one timeout is pending, no timer is used after its release, an armed
clock keeps beating and a stopped one is quiet.** -/
theorem run_lifecycle (vblHandle : Ptr) (acts : List Act) (s : Sys)
    (hrun : Runs.Guarded step StartsFresh (boot vblHandle) acts s) : s.Lifecycle :=
  (hrun.invariant step_inv (boot_inv vblHandle)).lifecycle

/-- A tick re-arms between `cancelTimeout` and `removeEventSource` of the stop. -/
theorem run_lifecycle_stop :
    ∃ s, Runs.Guarded step StartsFresh (boot 0x1000)
      [.start honorConsole ⟨0, id⟩ true, .enableController true, .addEventSource true,
        .setTimeoutUS ⟨1, id⟩, .fire 0 ⟨2, id⟩, .stop, .callback [], .cancelTimeout, .rearm,
        .removeEventSource, .release, .clearTimer, .superStop] s ∧ s.Lifecycle := by
  obtain ⟨s, hrun⟩ : ∃ s, Runs.Guarded step StartsFresh (boot 0x1000)
      [.start honorConsole ⟨0, id⟩ true, .enableController true, .addEventSource true,
        .setTimeoutUS ⟨1, id⟩, .fire 0 ⟨2, id⟩, .stop, .callback [], .cancelTimeout, .rearm,
        .removeEventSource, .release, .clearTimer, .superStop] s :=
    ⟨_, .cons rfl rfl (.cons trivial rfl (.cons trivial rfl (.cons trivial rfl
      (.cons trivial rfl (.cons trivial rfl
        (.cons trivial rfl (.cons trivial rfl (.cons trivial rfl (.cons trivial rfl
          (.cons trivial rfl (.cons trivial rfl (.cons trivial rfl (.nil _)))))))))))))⟩
  exact ⟨s, hrun, run_lifecycle 0x1000 _ s hrun⟩

/-- A timer armed after a stop is lost to the next start: the second arming leaves two timers
unreleased, each with a timeout pending. -/
theorem start_loses_timer :
    ∃ s, Runs.Guarded step Any (boot 0x1000)
      [.start honorConsole ⟨0, id⟩ true, .stop, .superStop,
        .enableController true, .addEventSource true, .setTimeoutUS ⟨1, id⟩,
        .start honorConsole ⟨2, id⟩ true,
        .enableController true, .addEventSource true, .setTimeoutUS ⟨3, id⟩] s ∧
      (s.kern.timers 0).retained = true ∧ (s.kern.timers 0).timeout ≠ none ∧
      (s.kern.timers 1).retained = true ∧ (s.kern.timers 1).timeout ≠ none ∧ ¬s.Lifecycle := by
  refine ⟨_, .cons trivial rfl (.cons trivial rfl (.cons trivial rfl (.cons trivial rfl
    (.cons trivial rfl (.cons trivial rfl (.cons trivial rfl (.cons trivial rfl
      (.cons trivial rfl (.cons trivial rfl (.nil _)))))))))), rfl, Option.some_ne_none _, rfl,
    Option.some_ne_none _, fun h => ?_⟩
  exact absurd (h.oneUnreleased 0 1 rfl rfl) (by decide)

end Sys

end HonorFB
