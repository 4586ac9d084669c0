import HonorFB.Vbl.Delivery
import HonorFB.Vbl.Steps

/-!
# VBL delivery in every interleaving

A tick of the interleaved clock reads the registration at its callback point, after clients had
their chance to register and unregister since its entry, and while `stop` may stand at any of its
own points. The history of such a run lists the client calls in the order they took effect, those
of callbacks included. The stop of a clock that has a timer counts as switching the delivery off,
and a start of an initialised machine forgets what came before.

Whatever the interleaving, the members entitle exactly the registration this history does
(`run_delivers`), as they do in an uninterrupted run.
-/

namespace HonorFB

namespace Sys

/-- The history after one more action. -/
def record (s : Sys) (history : List Call) : Act → List Call
  | .start pe _ _ => if pe.initialized then [] else history
  | .stop =>
    if s.drv.fVBLTimer.isNone then history else history ++ [.setInterruptState s.drv.vblHandle 0]
  | .client c => history ++ [c]
  | .callback calls => if s.drv.invoked = [] then history else history ++ calls
  | _ => history

def historyAfter (s : Sys) (history : List Call) : List Act → List Call
  | [] => history
  | a :: acts =>
    match s.step a with
    | some s' => s'.historyAfter (s.record history a) acts
    | none => history

/-- The members represent the subscription of the history. -/
structure Follows (handle : Ptr) (history : List Call) (d : V6) : Prop where
  vblHandle : d.vblHandle = handle
  represents : d.Represents (Subscription.after handle history)

/-- Members that no interrupt call touches may change. -/
theorem Follows.congr {handle : Ptr} {history : List Call} {d d' : V6}
    (h : Follows handle history d) (hhandle : d'.vblHandle = d.vblHandle)
    (hproc : d'.fVBLProc = d.fVBLProc) (htarget : d'.fVBLTarget = d.fVBLTarget)
    (href : d'.fVBLRef = d.fVBLRef) (henabled : d'.fVBLEnabled = d.fVBLEnabled) :
    Follows handle history d' := by
  obtain ⟨hvbl, hrep⟩ := h
  refine ⟨hhandle.trans hvbl, ?_⟩
  cases hafter : Subscription.after handle history with
  | none =>
    rw [hafter] at hrep
    exact hproc.trans hrep
  | some subscription =>
    rw [hafter] at hrep
    obtain ⟨hproc', htarget', href', henabled'⟩ := hrep
    exact ⟨hproc.trans hproc', htarget.trans htarget', href.trans href', henabled.trans henabled'⟩

theorem Follows.call {handle : Ptr} {history : List Call} {d : V6} (h : Follows handle history d)
    (c : Call) : Follows handle (history ++ [c]) (d.call c).1 := by
  have hrep := V6.call_represents h.represents c
  rw [h.vblHandle] at hrep
  refine ⟨(V6.call_sameClock d c).vblHandle.trans h.vblHandle, ?_⟩
  rw [Subscription.after, List.foldl_concat]
  exact hrep

theorem Follows.calls {handle : Ptr} (cs : List Call) : ∀ {history : List Call} {d : V6},
    Follows handle history d → Follows handle (history ++ cs) (d.calls cs) := by
  induction cs with
  | nil =>
    intro history d h
    rw [List.append_nil]
    exact h
  | cons c cs ih =>
    intro history d h
    have htail := ih (h.call c)
    rw [List.append_assoc] at htail
    exact htail

theorem start_follows {handle : Ptr} {history : List Call} {d : V6} (h : Follows handle history d)
    (pe : PEState) (clock : Clock) (superStart : Bool) :
    Follows handle (if pe.initialized then [] else history) (d.start pe clock superStart).1 := by
  unfold V6.start
  cases pe.initialized with
  | true => exact ⟨h.vblHandle, rfl⟩
  | false => exact h

/-- `stop` of an armed clock leaves the members as the call that switches the delivery off does. -/
theorem stop_follows {handle : Ptr} {history : List Call} {d : V6} (h : Follows handle history d) :
    Follows handle (history ++ [.setInterruptState d.vblHandle 0])
      { d with fVBLEnabled := false } := by
  have hcall : (d.call (.setInterruptState d.vblHandle 0)).1 = { d with fVBLEnabled := false } := by
    have hself : (d.vblHandle == d.vblHandle) = true := beq_self_eq_true d.vblHandle
    simp only [V6.call, V6.setInterruptState, hself, if_true]
    rfl
  have hoff := h.call (.setInterruptState d.vblHandle 0)
  rw [hcall] at hoff
  exact hoff

theorem step_follows {handle : Ptr} {history : List Call} {s s' : Sys} {a : Act}
    (h : Follows handle history s.drv) (hstep : s.step a = some s') :
    Follows handle (s.record history a) s'.drv := by
  rw [step_drv hstep]
  cases a with
  | start pe clock superStart => exact start_follows h pe clock superStart
  | stop =>
    simp only [record, drvAfter]
    split
    · exact h
    · exact stop_follows h
  | client c => exact h.call c
  | callback calls =>
    simp only [record, drvAfter, V6.runCallback]
    split
    · exact h
    · exact h.calls calls
  | enableController timerEventSource =>
    simp only [record, drvAfter]
    split
    · exact h.congr rfl rfl rfl rfl rfl
    · exact h
  | setTimeoutUS clock => exact h.congr rfl rfl rfl rfl rfl
  | clearTimer => exact h.congr rfl rfl rfl rfl rfl
  | fire t clock => exact h.congr rfl rfl rfl rfl rfl
  | _ => exact h

theorem run_follows {handle : Ptr} {guard : Sys → Act → Prop} {acts : List Act} {s s' : Sys}
    (hrun : Runs.Guarded step guard s acts s') : ∀ {history : List Call},
      Follows handle history s.drv → Follows handle (s.historyAfter history acts) s'.drv := by
  induction hrun with
  | nil s => intro history h; exact h
  | cons hguard hstep _ ih =>
    intro history h
    unfold historyAfter
    rw [hstep]
    exact ih (step_follows h hstep)

end Sys

end HonorFB
