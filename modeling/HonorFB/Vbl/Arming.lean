import HonorFB.Vbl.Delivery

/-!
# Arming the clock

`enableController` creates a timer, adds it to the work loop and sets its first timeout; a later
call tries again as long as `fVBLTimer` is `NULL`. A call that fails before the timer exists leaves
the driver as it was. A call that fails at `addEventSource` leaves the unattached timer in
`fVBLTimer`, and no later call gets past it (`arming_iff`).
-/

namespace HonorFB

def ArmOutcome.success : ArmOutcome := ⟨true, true, true⟩

/-- The timer is created and then not accepted by the work loop. -/
def ArmOutcome.StrandsTimer (o : ArmOutcome) : Prop :=
  o.getWorkLoop = true ∧ o.timerEventSource = true ∧ o.addEventSource = false

def Entry.Arms (P : ArmOutcome → Prop) : Entry → Prop
  | .enableController o _ => P o
  | _ => False

namespace World

/-- The driver's timer is in the work loop with a timeout pending. -/
def Armed (w : World) : Prop :=
  ∃ t, w.drv.fVBLTimer = some t ∧ (w.kern.timers t).attached = true ∧
    (w.kern.timers t).timeout ≠ none

def Stranded (w : World) : Prop :=
  ∃ t, w.drv.fVBLTimer = some t ∧ (w.kern.timers t).attached = false

/-- A call that does not arm the clock has no effect: `fVBLTimer` is `NULL` again, no timer is left
behind and the time stamp is the old one. -/
def FailsClean (w : World) (o : ArmOutcome) (clock : Clock) : Prop :=
  ¬(w.enableController o clock).1.Armed →
    (w.enableController o clock).1.drv.fVBLTimer = none ∧
    (∀ t, ((w.enableController o clock).1.kern.timers t).retained = true →
      (w.kern.timers t).retained = true) ∧
    (w.enableController o clock).1.drv.fLastVBLTime = w.drv.fLastVBLTime

def after (w : World) (entries : List Entry) : World :=
  (entries.foldl Run.step ⟨w, []⟩).world

theorem armed_not_stranded {w : World} (h : w.Armed) : ¬w.Stranded := by
  rintro ⟨t, ht, hdetached⟩
  obtain ⟨t', ht', hattached, -⟩ := h
  rw [ht] at ht'
  obtain rfl := Option.some.inj ht'
  rw [hdetached] at hattached
  cases hattached

/-! ## One call -/

theorem enableController_success {w : World} (hw : w.drv.fVBLTimer = none) (clock : Clock) :
    (w.enableController .success clock).1.Armed := by
  unfold enableController
  simp only [ArmOutcome.success, hw, Option.isNone_none, Bool.and_self, if_true]
  refine ⟨w.kern.created, rfl, ?_, ?_⟩
  · rw [Kernel.setTimeoutUS, Kernel.use_self, Kernel.addEventSource, Kernel.use_self]
    exact Bool.or_true _
  · rw [Kernel.setTimeoutUS, Kernel.use_self]
    exact Option.some_ne_none _

theorem enableController_strands {w : World} (hw : w.drv.fVBLTimer = none) {o : ArmOutcome}
    (ho : o.StrandsTimer) (clock : Clock) : (w.enableController o clock).1.Stranded := by
  obtain ⟨hloop, htimer, hadd⟩ := ho
  unfold enableController
  simp only [hloop, htimer, hadd, hw, Option.isNone_none, Bool.and_self, if_true,
    Bool.false_eq_true, if_false]
  refine ⟨w.kern.created, rfl, ?_⟩
  rw [Kernel.addEventSource, Kernel.use_self, Kernel.timerEventSource_self]
  rfl

theorem enableController_fails {w : World} (hw : w.drv.fVBLTimer = none) {o : ArmOutcome}
    (hfail : o ≠ .success) (ho : ¬o.StrandsTimer) (clock : Clock) :
    (w.enableController o clock).1.drv.fVBLTimer = none ∧
      (w.enableController o clock).1.kern = w.kern ∧
      (w.enableController o clock).1.drv.fLastVBLTime = w.drv.fLastVBLTime := by
  obtain ⟨loop, timer, add⟩ := o
  unfold enableController
  cases loop with
  | false => exact ⟨hw, rfl, rfl⟩
  | true =>
    cases timer with
    | false =>
      simp only [hw, Option.isNone_none, Bool.and_self, if_true, Bool.false_eq_true, if_false]
      exact ⟨trivial, trivial, trivial⟩
    | true =>
      cases add with
      | false => exact absurd ⟨rfl, rfl, rfl⟩ ho
      | true => exact absurd rfl hfail

theorem failsClean_iff {w : World} (hw : w.drv.fVBLTimer = none) (o : ArmOutcome)
    (clock : Clock) : w.FailsClean o clock ↔ ¬o.StrandsTimer := by
  constructor
  · intro h ho
    have hstranded := enableController_strands hw ho clock
    obtain ⟨hnone, -, -⟩ := h fun harmed => armed_not_stranded harmed hstranded
    obtain ⟨t, ht, -⟩ := hstranded
    rw [hnone] at ht
    cases ht
  · intro ho hunarmed
    by_cases hfail : o = .success
    · rw [hfail] at hunarmed
      exact absurd (enableController_success hw clock) hunarmed
    · obtain ⟨hnone, hkern, htime⟩ := enableController_fails hw hfail ho clock
      exact ⟨hnone, fun t ht => by rwa [hkern] at ht, htime⟩

/-! ## Runs -/

theorem step_stranded {r : Run} (h : r.world.Stranded) (e : Entry) :
    (r.step e).world.Stranded := by
  obtain ⟨t, ht, hdetached⟩ := h
  cases e with
  | enableController o clock =>
    have hsame : (r.world.enableController o clock).1 = r.world := by
      unfold enableController
      rw [ht, Option.isNone_some, Bool.and_false, if_neg (by decide)]
    refine ⟨t, ?_, ?_⟩
    · rw [Run.step, hsame]
      exact ht
    · rw [Run.step, hsame]
      exact hdetached
  | client c => exact ⟨t, (V6.call_sameClock r.world.drv c).fVBLTimer.trans ht, hdetached⟩
  | getVBLTime time delta => exact ⟨t, ht, hdetached⟩
  | vblTimerFired sender clock callback =>
    refine ⟨t, (V6.runCallback_sameClock (r.world.drv.stampVBL clock) callback).fVBLTimer.trans ht,
      ?_⟩
    cases sender with
    | none => exact hdetached
    | some t' =>
      show ((r.world.kern.setTimeoutUS t' framePeriodUS).timers t).attached = false
      rw [Kernel.setTimeoutUS]
      by_cases heq : t = t'
      · subst heq
        rw [Kernel.use_self]
        exact hdetached
      · rw [Kernel.use_of_ne _ heq]
        exact hdetached

theorem foldl_step_stranded (entries : List Entry) :
    ∀ {r : Run}, r.world.Stranded → (entries.foldl Run.step r).world.Stranded := by
  induction entries with
  | nil => intro r h; exact h
  | cons e entries ih => intro r h; exact ih (step_stranded h e)

theorem step_fVBLTimer {r : Run} (h : r.world.drv.fVBLTimer = none) {e : Entry}
    (hfail : ¬e.Arms (· = .success)) (hstrands : ¬e.Arms ArmOutcome.StrandsTimer) :
    (r.step e).world.drv.fVBLTimer = none := by
  cases e with
  | enableController o clock => exact (enableController_fails h hfail hstrands clock).1
  | client c => exact (V6.call_sameClock r.world.drv c).fVBLTimer.trans h
  | getVBLTime time delta => exact h
  | vblTimerFired sender clock callback =>
    exact (V6.runCallback_sameClock (r.world.drv.stampVBL clock) callback).fVBLTimer.trans h

/-- After entries without a successful arming the driver has no timer or a stranded one, and the
latter exactly if some call stranded it. -/
theorem foldl_step_cases {entries : List Entry}
    (hfail : ∀ e ∈ entries, ¬e.Arms (· = .success)) :
    ∀ {r : Run}, r.world.drv.fVBLTimer = none →
      (∀ e ∈ entries, ¬e.Arms ArmOutcome.StrandsTimer) ∧
          (entries.foldl Run.step r).world.drv.fVBLTimer = none ∨
        ¬(∀ e ∈ entries, ¬e.Arms ArmOutcome.StrandsTimer) ∧
          (entries.foldl Run.step r).world.Stranded := by
  induction entries with
  | nil => intro r h; exact Or.inl ⟨by simp, h⟩
  | cons e entries ih =>
    intro r h
    by_cases he : e.Arms ArmOutcome.StrandsTimer
    · refine Or.inr ⟨fun hall => hall e List.mem_cons_self he, ?_⟩
      cases e with
      | enableController o clock =>
        have hs : (r.step (.enableController o clock)).world.Stranded :=
          enableController_strands h he clock
        exact foldl_step_stranded entries hs
      | client c => exact he.elim
      | getVBLTime time delta => exact he.elim
      | vblTimerFired sender clock callback => exact he.elim
    · have hstep := step_fVBLTimer h (hfail e List.mem_cons_self) he
      rcases ih (fun e' he' => hfail e' (List.mem_cons_of_mem _ he')) hstep with
        ⟨hall, hnone⟩ | ⟨hsome, hstranded⟩
      · exact Or.inl ⟨by simpa [he] using hall, hnone⟩
      · exact Or.inr ⟨fun hall => hsome fun e' he' => hall e' (List.mem_cons_of_mem _ he'),
          hstranded⟩

/-- **A failed arming is undone and can be retried unless it fails at `addEventSource`.** From a
driver without a timer: a call has no effect when it does not arm, exactly unless it strands the
timer; and after entries of which none armed the clock, a successful call arms it exactly if none
stranded the timer. -/
theorem arming_iff (w : World) (hw : w.drv.fVBLTimer = none) :
    (∀ o clock, w.FailsClean o clock ↔ ¬o.StrandsTimer) ∧
      ∀ entries : List Entry, (∀ e ∈ entries, ¬e.Arms (· = .success)) → ∀ clock,
        (((w.after entries).enableController .success clock).1.Armed ↔
          ∀ e ∈ entries, ¬e.Arms ArmOutcome.StrandsTimer) := by
  refine ⟨failsClean_iff hw, fun entries hfail clock => ?_⟩
  rcases foldl_step_cases (r := ⟨w, []⟩) hfail hw with ⟨hall, hnone⟩ | ⟨hsome, hstranded⟩
  · exact iff_of_true (enableController_success hnone clock) hall
  · refine iff_of_false (fun harmed => armed_not_stranded harmed ?_) hsome
    exact step_stranded (e := .enableController .success clock) hstranded

def started : World where
  drv := ((V6.zeroed 0x1000).start honorConsole ⟨0, id⟩ true).1
  kern := .empty

theorem arming_iff_started :
    (∀ o clock, started.FailsClean o clock ↔ ¬o.StrandsTimer) ∧
      ∀ entries : List Entry, (∀ e ∈ entries, ¬e.Arms (· = .success)) → ∀ clock,
        (((started.after entries).enableController .success clock).1.Armed ↔
          ∀ e ∈ entries, ¬e.Arms ArmOutcome.StrandsTimer) :=
  arming_iff started rfl

/-- `addEventSource` fails once: the timer is kept, and a call for which everything succeeds does
not arm the clock. -/
theorem started_stranded :
    started.drv.fVBLTimer = none ∧ ¬started.FailsClean ⟨true, true, false⟩ ⟨1, id⟩ ∧
      ¬((started.after [.enableController ⟨true, true, false⟩ ⟨1, id⟩]).enableController .success
        ⟨2, id⟩).1.Armed := by
  have hstrands : ArmOutcome.StrandsTimer ⟨true, true, false⟩ := ⟨rfl, rfl, rfl⟩
  refine ⟨rfl, fun h => (failsClean_iff rfl _ _).1 h hstrands, fun harmed => ?_⟩
  have hstranded : (started.after [.enableController ⟨true, true, false⟩ ⟨1, id⟩]).Stranded :=
    enableController_strands rfl hstrands ⟨1, id⟩
  exact armed_not_stranded harmed
    (step_stranded (r := ⟨_, []⟩) (e := .enableController .success ⟨2, id⟩) hstranded)

end World

end HonorFB
