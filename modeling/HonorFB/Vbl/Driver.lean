import HonorFB.Framebuffer.Session
import HonorFB.Vbl.Delivery
import HonorFB.Vbl.Steps

/-!
# The two sides of v6

`HonorFB_v6` answers the graphics stack as the other framebuffer classes do, and beside that it is
the clock: interrupt methods, a timer and the entry points around it. Both sides live in one object,
over one `IOFramebuffer`, and calls of either side fall between any two steps of the other. Neither
side disturbs the other (`run_iff`): the steps of the clock are a run of the clock alone, the
framebuffer members show the console of the last start in the mode that was set last, and
`IOFramebuffer` serves the calls that either side passes on, in the order they were made.
-/

namespace HonorFB

namespace V6

def withFramebuffer (d : V6) (fb : Framebuffer) : V6 := { d with toFramebuffer := fb }

/-- The call of `IOFramebuffer` that an interrupt call makes. -/
def passesOn (d : V6) (c : Call) : List Call :=
  match (d.call c).2 with
  | .super call => [call]
  | .kIOReturnSuccess _ => []

def allPassOn (d : V6) : List Call → List Call
  | [] => []
  | c :: cs => d.passesOn c ++ (d.call c).1.allPassOn cs

/-- What the driver does with a call of its own does not depend on the framebuffer members. -/
theorem call_of_isVbl (d : V6) {c : Call} (h : c.isVbl d.vblHandle = true) :
    ∃ d' interruptRef, d.call c = (d', .kIOReturnSuccess interruptRef) ∧
      ∀ fb, (d.withFramebuffer fb).call c =
        (d'.withFramebuffer fb, .kIOReturnSuccess interruptRef) := by
  cases c with
  | registerForInterruptType interruptType proc target ref interruptRef =>
    exact ⟨_, _, if_pos h, fun fb => if_pos h⟩
  | unregisterInterrupt interruptRef => exact ⟨_, _, if_pos h, fun fb => if_pos h⟩
  | setInterruptState interruptRef state => exact ⟨_, _, if_pos h, fun fb => if_pos h⟩

theorem passesOn_eq (d : V6) (c : Call) :
    d.passesOn c = [c].filter fun c => !c.isVbl d.vblHandle := by
  by_cases hvbl : c.isVbl d.vblHandle = true
  · obtain ⟨d', interruptRef, hcall, -⟩ := d.call_of_isVbl hvbl
    rw [List.filter_cons_of_neg (by rw [hvbl]; exact Bool.false_ne_true), List.filter_nil]
    unfold passesOn
    rw [hcall]
  · have hfalse : c.isVbl d.vblHandle = false := Bool.eq_false_iff.2 hvbl
    rw [List.filter_cons_of_pos (by rw [hfalse]; rfl), List.filter_nil]
    unfold passesOn
    rw [call_of_not_isVbl d hvbl]

theorem allPassOn_eq (cs : List Call) : ∀ d : V6,
    d.allPassOn cs = cs.filter fun c => !c.isVbl d.vblHandle := by
  induction cs with
  | nil => intro d; rfl
  | cons c cs ih =>
    intro d
    unfold allPassOn
    rw [passesOn_eq, ih, (call_sameClock d c).vblHandle, ← List.filter_append]
    rfl

/-! ## The clock does not read the framebuffer members -/

theorem call_withFramebuffer (d : V6) (fb : Framebuffer) (c : Call) :
    (d.withFramebuffer fb).call c = ((d.call c).1.withFramebuffer fb, (d.call c).2) := by
  by_cases hvbl : c.isVbl d.vblHandle = true
  · obtain ⟨d', interruptRef, hcall, hwith⟩ := d.call_of_isVbl hvbl
    rw [hwith, hcall]
  · rw [call_of_not_isVbl d hvbl, call_of_not_isVbl (d.withFramebuffer fb) hvbl]

theorem calls_withFramebuffer (fb : Framebuffer) (cs : List Call) : ∀ d : V6,
    (d.withFramebuffer fb).calls cs = (d.calls cs).withFramebuffer fb := by
  induction cs with
  | nil => intro d; rfl
  | cons c cs ih =>
    intro d
    have hnext : ((d.withFramebuffer fb).call c).1 = (d.call c).1.withFramebuffer fb :=
      congrArg Prod.fst (call_withFramebuffer d fb c)
    calc (d.withFramebuffer fb).calls (c :: cs)
      _ = ((d.withFramebuffer fb).call c).1.calls cs := rfl
      _ = ((d.call c).1.calls cs).withFramebuffer fb := by rw [hnext, ih]

theorem runCallback_withFramebuffer (d : V6) (fb : Framebuffer) (calls : List Call) :
    (d.withFramebuffer fb).runCallback calls = (d.runCallback calls).withFramebuffer fb := by
  have hinvoked : (d.withFramebuffer fb).invoked = d.invoked := rfl
  unfold runCallback
  rw [hinvoked]
  split
  · rfl
  · exact calls_withFramebuffer fb calls d

/-- `start` records the console whatever the members held. -/
theorem start_withFramebuffer (d : V6) (fb : Framebuffer) (pe : PEState) (clock : Clock)
    (superStart : Bool) :
    ((d.withFramebuffer fb).start pe clock superStart).1 =
      (d.start pe clock superStart).1.withFramebuffer
        (if pe.initialized then fb.recordConsole edidBase pe.video else fb) := by
  cases hpe : pe.initialized with
  | false =>
    unfold start
    rw [hpe]
    rfl
  | true =>
    have hrecord : (Variant.v6.start fb pe superStart).1 = fb.recordConsole edidBase pe.video :=
      Variant.v6.start_fst fb superStart hpe
    unfold start
    rw [hpe, if_pos rfl, ← hrecord]
    rfl

end V6

namespace Sys

def withFramebuffer (s : Sys) (fb : Framebuffer) : Sys :=
  { s with drv := s.drv.withFramebuffer fb }

/-- The framebuffer members after a step of the clock. -/
def framebufferAfter (fb : Framebuffer) : Act → Framebuffer
  | .start pe _ _ => if pe.initialized then fb.recordConsole edidBase pe.video else fb
  | _ => fb

/-- The interrupt calls that clients make in a step. -/
def made (s : Sys) : Act → List Call
  | .client c => [c]
  | .callback calls => if s.drv.invoked = [] then [] else calls
  | _ => []

/-- The calls of `IOFramebuffer` a step of the clock makes. -/
def passesOn (s : Sys) : Act → List Call
  | .client c => s.drv.passesOn c
  | .callback calls => if s.drv.invoked = [] then [] else s.drv.allPassOn calls
  | _ => []

theorem passesOn_eq (s : Sys) (a : Act) :
    s.passesOn a = (s.made a).filter fun c => !c.isVbl s.drv.vblHandle := by
  cases a with
  | client c => exact s.drv.passesOn_eq c
  | callback calls =>
    unfold passesOn made
    dsimp only
    split
    · rfl
    · exact s.drv.allPassOn_eq calls
  | _ => rfl

theorem step_withFramebuffer (s : Sys) (fb : Framebuffer) (a : Act) :
    (s.withFramebuffer fb).step a =
      (s.step a).map fun s' => s'.withFramebuffer (framebufferAfter fb a) := by
  cases a with
  | start pe clock superStart =>
    simp only [step, withFramebuffer, V6.start_withFramebuffer]
    split <;> rfl
  | client c =>
    simp only [step, withFramebuffer, V6.call_withFramebuffer]
    rfl
  | callback calls =>
    simp only [step, withFramebuffer, V6.runCallback_withFramebuffer]
    split <;> rfl
  | fire t clock =>
    simp only [step, apply_ite (Option.map _)]
    rfl
  | enableController timerEventSource =>
    obtain ⟨⟨fb₀, handle, proc, target, ref, enabled, held, last, delta, properties⟩, kern, pc,
      tick, running⟩ := s
    cases pc <;> cases held <;> cases timerEventSource <;> rfl
  | _ =>
    -- where the step can be taken does not depend on the framebuffer members
    obtain ⟨⟨fb₀, handle, proc, target, ref, enabled, held, last, delta, properties⟩, kern, pc,
      tick, running⟩ := s
    rcases tick with _ | ⟨i, _ | _⟩ <;> cases pc <;> cases held <;> rfl

/-- The members after a step. -/
theorem step_framebuffer {s s' : Sys} {a : Act} (hstep : s.step a = some s') :
    s'.drv.toFramebuffer = framebufferAfter s.drv.toFramebuffer a := by
  have hself := s.step_withFramebuffer s.drv.toFramebuffer a
  have hsame : s.withFramebuffer s.drv.toFramebuffer = s := rfl
  rw [hsame, hstep] at hself
  exact congrArg (fun s : Sys => s.drv.toFramebuffer) (Option.some.inj hself)

theorem step_vblHandle {s s' : Sys} {a : Act} (hstep : s.step a = some s') :
    s'.drv.vblHandle = s.drv.vblHandle := by
  rw [step_drv hstep]
  cases a with
  | start pe clock superStart =>
    simp only [drvAfter, V6.start]
    split <;> rfl
  | enableController timerEventSource =>
    simp only [drvAfter]
    split <;> rfl
  | stop =>
    simp only [drvAfter]
    split <;> rfl
  | client c => exact (V6.call_sameClock s.drv c).vblHandle
  | callback calls => exact (V6.runCallback_sameClock s.drv calls).vblHandle
  | _ => rfl

end Sys

/-! ## The driver -/

/-- The calls of `IOFramebuffer` that either side may make. -/
inductive SuperCall where
  | request (r : Request)
  | interrupt (c : Call)

/-- The driver over an `IOFramebuffer`. -/
structure DriverV6 (σ : Type) where
  sys : Sys
  base : σ

/-- A step of the clock, or a request of the graphics stack; the `enableController` of this class is
a step of the clock. The requests a callback makes are steps between its interrupt calls and the
re-arming. -/
inductive DriverAct where
  | clock (a : Act)
  | request (r : Request) (h : r ≠ .enableController)

namespace DriverAct

def clock? : DriverAct → Option Act
  | .clock a => some a
  | .request _ _ => none

/-- The console a step records. -/
def console : DriverAct → Option PEVideo
  | .clock (.start pe _ _) => if pe.initialized then some pe.video else none
  | _ => none

/-- The mode and depth a step sets. -/
def mode : DriverAct → Option (IODisplayModeID × IOIndex)
  | .clock (.start pe _ _) => if pe.initialized then some (kHonorModeID, 0) else none
  | .request r _ => r.mode
  | .clock _ => none

end DriverAct

namespace DriverV6

variable {σ : Type} (super : σ → SuperCall → σ × Answer)

def boot (vblHandle : Ptr) (base : σ) : DriverV6 σ := ⟨.boot vblHandle, base⟩

def step (w : DriverV6 σ) : DriverAct → Option (DriverV6 σ)
  | .clock a =>
    (w.sys.step a).map fun sys =>
      ⟨sys, Machine.after super w.base ((w.sys.passesOn a).map .interrupt)⟩
  | .request r _ =>
    let next := ((FbClass.shipped .v6).serve (fun base r => super base (.request r))
      (w.sys.drv.toFramebuffer, w.base) r).1
    some ⟨w.sys.withFramebuffer next.1, next.2⟩

/-- No assumption on the order of the steps. -/
def Any : DriverV6 σ → DriverAct → Prop := fun _ _ => True

/-- The calls a run makes of the driver, read off the clock alone. -/
def calls (s : Sys) : List DriverAct → List SuperCall
  | [] => []
  | .request r _ :: acts => .request r :: calls s acts
  | .clock a :: acts =>
    (s.made a).map .interrupt ++
      match s.step a with
      | some s' => calls s' acts
      | none => []

/-- The calls that are not the driver's own. -/
def passes (vblHandle : Ptr) : SuperCall → Bool
  | .request r => (FbClass.shipped .v6).passes r
  | .interrupt c => !c.isVbl vblHandle

/-- The members that show the last console in the last mode. -/
def shown (acts : List DriverAct) : Framebuffer :=
  { (acts.filterMap DriverAct.console).getLast?.elim .zeroed
      (Framebuffer.zeroed.recordConsole edidBase) with
    currentMode := ((acts.filterMap DriverAct.mode).getLast?.getD (0, 0)).1
    currentDepth := ((acts.filterMap DriverAct.mode).getLast?.getD (0, 0)).2 }

variable {super} {w w' : DriverV6 σ} {s : Sys}

/-- The clock alone, beside the framebuffer members. -/
def Beside (s : Sys) (w : DriverV6 σ) : Prop :=
  w.sys = s.withFramebuffer w.sys.drv.toFramebuffer

theorem Beside.step_clock (h : Beside s w) (a : Act) :
    w.sys.step a = (s.step a).map fun s' =>
      s'.withFramebuffer (Sys.framebufferAfter w.sys.drv.toFramebuffer a) := by
  rw [← s.step_withFramebuffer w.sys.drv.toFramebuffer a, ← show w.sys = _ from h]

/-- The two sides make the same calls. -/
theorem Beside.passesOn (h : Beside s w) (a : Act) :
    w.sys.passesOn a = (s.made a).filter fun c => !c.isVbl s.drv.vblHandle := by
  rw [w.sys.passesOn_eq a, show w.sys = _ from h]
  cases a <;> rfl

/-- A step of the clock is a step of the clock alone. -/
theorem Beside.clock (h : Beside s w) {a : Act} (hstep : step super w (.clock a) = some w') :
    ∃ s', s.step a = some s' ∧ Beside s' w' ∧
      w'.base = Machine.after super w.base
        (((s.made a).filter fun c => !c.isVbl s.drv.vblHandle).map .interrupt) := by
  obtain ⟨sys, hsys, rfl⟩ := Option.map_eq_some_iff.1 hstep
  rw [h.step_clock a] at hsys
  obtain ⟨s', hs', rfl⟩ := Option.map_eq_some_iff.1 hsys
  refine ⟨s', hs', rfl, ?_⟩
  rw [← h.passesOn a]

/-- A request is served by the driver or passed on, and leaves the clock alone. -/
theorem Beside.request (h : Beside s w) {r : Request} {hr : r ≠ .enableController}
    (hstep : step super w (.request r hr) = some w') :
    Beside s w' ∧
      w'.base = Machine.after super w.base
        ([SuperCall.request r].filter (passes s.drv.vblHandle)) := by
  obtain rfl := Option.some.inj hstep
  constructor
  · unfold Beside
    rw [show w.sys = _ from h]
    rfl
  · have hinner := ((FbClass.shipped .v6).serve_proxy
      fun base r => super base (.request r)).after_inner [r] (w.sys.drv.toFramebuffer, w.base)
    refine hinner.trans ?_
    cases hpasses : (FbClass.shipped .v6).passes r with
    | true =>
      simp only [List.filter, passes, hpasses]
      rfl
    | false =>
      simp only [List.filter, passes, hpasses]
      rfl

theorem calls_clock {a : Act} {s' : Sys} (hstep : s.step a = some s') (acts : List DriverAct) :
    calls s (.clock a :: acts) = (s.made a).map .interrupt ++ calls s' acts := by
  rw [calls, hstep]

/-- What `IOFramebuffer` has served. -/
theorem run_base {vblHandle : Ptr} {acts : List DriverAct}
    (hrun : Runs.Guarded (step super) Any w acts w') : ∀ s : Sys, Beside s w →
      s.drv.vblHandle = vblHandle →
        w'.base = Machine.after super w.base ((calls s acts).filter (passes vblHandle)) := by
  induction hrun with
  | nil w =>
    intro s _ _
    rfl
  | @cons w w' w'' act acts _ hstep _ ih =>
    intro s hbeside hhandle
    cases act with
    | request r hr =>
      obtain ⟨hnext, hbase⟩ := hbeside.request hstep
      rw [ih s hnext hhandle, hbase, ← Machine.after_append, hhandle, ← List.filter_append]
      rfl
    | clock a =>
      obtain ⟨s', hs', hnext, hbase⟩ := hbeside.clock hstep
      rw [ih s' hnext ((Sys.step_vblHandle hs').trans hhandle), hbase, ← Machine.after_append,
        calls_clock hs', List.filter_append, List.filter_map, hhandle]
      rfl

/-- The steps of the clock are a run of the clock alone. -/
theorem run_clock {acts : List DriverAct} (hrun : Runs.Guarded (step super) Any w acts w') :
    ∀ s, Beside s w → ∃ s', Runs.Guarded Sys.step Sys.Any s (acts.filterMap DriverAct.clock?) s' ∧
      Beside s' w' := by
  refine hrun.project ?_ ?_
  · intro s w act w' hbeside hact hstep
    cases act with
    | clock a => cases hact
    | request r hr => exact (hbeside.request hstep).1
  · intro s w act a w' hbeside _ hact hstep
    cases act with
    | clock b =>
      obtain rfl := Option.some.inj hact
      obtain ⟨s', hs', hnext, -⟩ := hbeside.clock hstep
      exact ⟨s', trivial, hs', hnext⟩
    | request r hr => cases hact

/-- Requests can fall between any two steps of a run of the clock. -/
theorem run_of_clock (super : σ → SuperCall → σ × Answer) (acts : List DriverAct) {s s' : Sys}
    (hrun : Runs.Guarded Sys.step Sys.Any s (acts.filterMap DriverAct.clock?) s') :
    ∀ w : DriverV6 σ, Beside s w → ∃ w', Runs.Guarded (step super) Any w acts w' ∧
      Beside s' w' := by
  refine Runs.Guarded.lift ?_ ?_ acts hrun
  · intro s w act hbeside hact
    cases act with
    | clock a => cases hact
    | request r hr =>
      have hstep : step super w (.request r hr) = some _ := rfl
      exact ⟨_, trivial, hstep, (hbeside.request hstep).1⟩
  · intro s w act a s' hbeside _ hact hstep
    cases act with
    | clock b =>
      obtain rfl := Option.some.inj hact
      have hsys := hbeside.step_clock b
      rw [hstep, Option.map_some] at hsys
      exact ⟨_, trivial, Option.map_eq_some_iff.2 ⟨_, hsys, rfl⟩, rfl⟩
    | request r hr => cases hact

/-! ### The framebuffer members -/

/-- The members up to the mode. -/
def still (fb : Framebuffer) : Framebuffer := { fb with currentMode := 0, currentDepth := 0 }

theorem step_framebuffer {act : DriverAct} (hstep : step super w act = some w') :
    still w'.sys.drv.toFramebuffer = (act.console.map fun video =>
        still (Framebuffer.zeroed.recordConsole edidBase video)).getD
          (still w.sys.drv.toFramebuffer) ∧
      (w'.sys.drv.currentMode, w'.sys.drv.currentDepth) =
        act.mode.getD (w.sys.drv.currentMode, w.sys.drv.currentDepth) := by
  cases act with
  | request r hr =>
    obtain rfl := Option.some.inj hstep
    have hserve := (FbClass.shipped .v6).serve_fst (fun base r => super base (.request r))
      (w.sys.drv.toFramebuffer, w.base) r
    constructor
    · exact (congrArg still hserve).trans rfl
    · exact (congrArg (fun fb : Framebuffer => (fb.currentMode, fb.currentDepth)) hserve).trans rfl
  | clock a =>
    obtain ⟨sys, hsys, rfl⟩ := Option.map_eq_some_iff.1 hstep
    have hnext := Sys.step_framebuffer hsys
    dsimp only
    rw [hnext]
    cases a with
    | start pe clock superStart =>
      unfold Sys.framebufferAfter DriverAct.console DriverAct.mode
      dsimp only
      cases pe.initialized with
      | false => exact ⟨rfl, rfl⟩
      | true =>
        refine ⟨congrArg still ?_, rfl⟩
        rw [if_pos rfl, FbClass.recordConsole_eq_showing, FbClass.recordConsole_eq_showing]
    | _ => exact ⟨rfl, rfl⟩

/-- What the framebuffer members hold. -/
theorem run_framebuffer {vblHandle : Ptr} {base : σ} {acts : List DriverAct}
    (hrun : Runs.Guarded (step super) Any (boot vblHandle base) acts w) :
    w.sys.drv.toFramebuffer = shown acts := by
  have hstill := hrun.variable (fun w : DriverV6 σ => still w.sys.drv.toFramebuffer)
    (fun act => act.console.map fun video =>
      still (Framebuffer.zeroed.recordConsole edidBase video))
    fun _ _ _ hstep => (step_framebuffer hstep).1
  have hmode := hrun.variable
    (fun w : DriverV6 σ => (w.sys.drv.currentMode, w.sys.drv.currentDepth)) DriverAct.mode
    fun _ _ _ hstep => (step_framebuffer hstep).2
  rw [← List.map_filterMap, List.getLast?_map] at hstill
  calc w.sys.drv.toFramebuffer
    _ = { still w.sys.drv.toFramebuffer with
          currentMode := (w.sys.drv.currentMode, w.sys.drv.currentDepth).1
          currentDepth := (w.sys.drv.currentMode, w.sys.drv.currentDepth).2 } := rfl
    _ = shown acts := by
      rw [hstill, hmode]
      unfold shown
      cases (acts.filterMap DriverAct.console).getLast? <;> rfl

/-- **Neither side disturbs the other.** The runs of the driver are those whose steps of the clock
are a run of the clock alone. Its members are then those of the clock beside the last console in
the last mode, and `IOFramebuffer` has served the calls that are not the driver's own, in their
order. -/
theorem run_iff (super : σ → SuperCall → σ × Answer) (vblHandle : Ptr) (base : σ)
    (acts : List DriverAct) (w : DriverV6 σ) :
    Runs.Guarded (step super) Any (boot vblHandle base) acts w ↔
      ∃ s, Runs.Guarded Sys.step Sys.Any (.boot vblHandle) (acts.filterMap DriverAct.clock?) s ∧
        w.sys = s.withFramebuffer (shown acts) ∧
        w.base = Machine.after super base
          ((calls (.boot vblHandle) acts).filter (passes vblHandle)) := by
  have hboot : Beside (.boot vblHandle) (boot vblHandle base) := rfl
  have hends : ∀ w, Runs.Guarded (step super) Any (boot vblHandle base) acts w → ∀ s, Beside s w →
      w.sys = s.withFramebuffer (shown acts) ∧ w.base = Machine.after super base
        ((calls (.boot vblHandle) acts).filter (passes vblHandle)) := by
    intro w hrun s hbeside
    have hsys : w.sys = s.withFramebuffer w.sys.drv.toFramebuffer := hbeside
    rw [run_framebuffer hrun] at hsys
    exact ⟨hsys, run_base hrun _ hboot rfl⟩
  constructor
  · intro hrun
    obtain ⟨s, hclock, hbeside⟩ := run_clock hrun _ hboot
    exact ⟨s, hclock, hends w hrun s hbeside⟩
  · rintro ⟨s, hclock, hsys, hbase⟩
    obtain ⟨w', hrun, hbeside⟩ := run_of_clock super acts hclock _ hboot
    obtain ⟨hsys', hbase'⟩ := hends w' hrun s hbeside
    obtain ⟨sys, base'⟩ := w
    obtain ⟨sys', base''⟩ := w'
    obtain rfl : sys = sys' := hsys.trans hsys'.symm
    obtain rfl : base' = base'' := hbase.trans hbase'.symm
    exact hrun

end DriverV6

end HonorFB
