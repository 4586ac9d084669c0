import HonorFB.Framebuffer.Model
import HonorFB.Lib.Latest
import HonorFB.Lib.Machine

/-!
# Sessions with the framebuffer classes

A started framebuffer is a machine that answers the requests of the graphics stack. Most methods
are the shared ones; the classes differ in the connection attributes, in the gamma and colour table
calls and in `isConsoleDevice`, and what a class does not answer itself goes to `IOFramebuffer`,
which is not under the repository: it is a machine of its own, and the requests it is passed are its
calls. `HonorFB_v4` is the offline variant (its text still names the class `HonorFB_v3`), and the
diagnostic builds `HonorFB_v10` to `_v13` carry the same methods although their `start` never
succeeds. The interrupt methods and the timer of `HonorFB_v6` have their own modules.
-/

namespace HonorFB

/-- The selectors of connection attributes that the drivers name. -/
inductive ConnectionAttribute where
  | kConnectionEnable
  | kConnectionCheckEnable
  | kConnectionFlags
  | kConnectionChanged
  | kConnectionPower
  | kConnectionProbe
  | other (selector : UInt32)
  deriving DecidableEq, Repr

inductive FbClass where
  | shipped (v : Variant)
  | v4
  | v10
  | v11
  | v12
  | v13
  deriving DecidableEq, Repr

/-- A call of a method. A `Bool` in the place of a pointer is whether it is non-`NULL`. -/
inductive Request where
  | isConsoleDevice
  | enableController
  | getApertureRange (aperture : IOPixelAperture)
  | getPixelFormats
  | getDisplayModeCount
  | getDisplayModes (allDisplayModes : Bool)
  | getInformationForDisplayMode (displayMode : IODisplayModeID) (info : Bool)
  | getPixelFormatsForDisplayMode (displayMode : IODisplayModeID) (depth : IOIndex)
  | getPixelInformation (displayMode : IODisplayModeID) (depth : IOIndex)
      (aperture : IOPixelAperture) (pixelInfo : Bool)
  | getCurrentDisplayMode (displayMode depth : Bool)
  | setDisplayMode (displayMode : IODisplayModeID) (depth : IOIndex)
  | setGammaTable (channelCount dataCount dataWidth : UInt32) (data : Bool)
  | setCLUTWithEntries (colors : Bool) (index numEntries : UInt32) (options : IOOptionBits)
  | getAttributeForConnection (connectIndex : IOIndex) (selector : ConnectionAttribute)
      (value : Bool)
  | setAttributeForConnection (connectIndex : IOIndex) (selector : ConnectionAttribute)
      (value : UInt64)
  | connectFlags (displayMode : IODisplayModeID) (flags : Bool)
  | hasDDCConnect (connectIndex : IOIndex)
  | getDDCBlock (blockNumber : UInt32) (data : Option (Nat → UInt8)) (length : Option UInt64)

/-- What a call returns, with what it wrote through its pointers. -/
inductive Answer where
  | bool (result : Bool)
  | result (result : IOReturn)
  | memory (range : Option IODeviceMemory)
  | formats (formats : String)
  | count (count : UInt32)
  | modes (modes : Except IOReturn (List IODisplayModeID))
  | information (info : Except IOReturn IODisplayModeInformation)
  | formatMask (formats : UInt64)
  | pixels (pixelInfo : Except IOReturn IOPixelInformation)
  | current (displayMode : Option IODisplayModeID) (depth : Option IOIndex) (result : IOReturn)
  | connection (value : Option UInt64) (result : IOReturn)
  | flags (flags : Except IOReturn IOOptionBits)
  | block (block : Except IOReturn ((Nat → UInt8) × UInt64))

/-- The mode and depth a request sets. -/
def Request.mode : Request → Option (IODisplayModeID × IOIndex)
  | .setDisplayMode displayMode depth => some (displayMode, depth)
  | _ => none

namespace FbClass

/-- The variant whose display, mode and EDID methods the class has. -/
def methods : FbClass → Variant
  | .shipped v => v
  | .v4 => .v3
  | .v10 | .v11 | .v12 | .v13 => .v9

/-- `start`; `none` where it panics. `HonorFB_v13` leaves a thread behind and fails. -/
def start : FbClass → Framebuffer → PEState → Bool → Option (Framebuffer × Bool)
  | .shipped v, self, pe, superStart => some (v.start self pe superStart)
  | .v4, self, pe, superStart => some (Variant.v3.start self pe superStart)
  | .v10, _, _, _ | .v11, _, _, _ | .v12, _, _, _ => none
  | .v13, self, _, _ => some (self, false)

/-- `isConsoleDevice`; here and below `none` is the method of `IOFramebuffer`. -/
def isConsoleDevice : FbClass → Option Bool
  | .shipped .v8 | .shipped .v9 | .v10 | .v11 => some true
  | _ => none

def setGammaTable : FbClass → Option IOReturn
  | .shipped .v5a => some .kIOReturnSuccess
  | _ => none

def setCLUTWithEntries : FbClass → Option IOReturn
  | .shipped .v5a => some .kIOReturnSuccess
  | _ => none

/-- `getAttributeForConnection`: what is written to `*value`, and the result. -/
def getAttributeForConnection : FbClass → ConnectionAttribute →
    Option (Option UInt64 × IOReturn)
  | .shipped .v3, .kConnectionEnable | .shipped .v3, .kConnectionCheckEnable
  | .shipped .v6, .kConnectionEnable | .shipped .v6, .kConnectionCheckEnable =>
    some (some 1, .kIOReturnSuccess)
  | .v4, .kConnectionEnable | .v4, .kConnectionCheckEnable => some (some 0, .kIOReturnSuccess)
  | .shipped .v3, .kConnectionFlags | .shipped .v6, .kConnectionFlags | .v4, .kConnectionFlags =>
    some (some 0, .kIOReturnSuccess)
  | .shipped .v3, _ | .shipped .v6, _ | .v4, _ => some (some 0, .kIOReturnUnsupported)
  | _, .kConnectionEnable | _, .kConnectionCheckEnable => some (some 1, .kIOReturnSuccess)
  | _, .kConnectionFlags => some (some 0, .kIOReturnSuccess)
  | .shipped .v5a, _ | .v12, _ | .v13, _ => none
  -- nothing is written to `*value`
  | _, .kConnectionChanged => some (none, .kIOReturnSuccess)
  | _, _ => none

def setAttributeForConnection : FbClass → ConnectionAttribute → Option IOReturn
  | .shipped .v3, _ | .shipped .v6, _ | .v4, _ => some .kIOReturnSuccess
  | .shipped .v5a, _ | .v12, _ | .v13, _ => none
  | _, .kConnectionPower | _, .kConnectionProbe => some .kIOReturnSuccess
  | _, _ => none

def hasDDCConnect : FbClass → Bool
  | .v4 => false
  | c => c.methods.hasDDCConnect

def getDDCBlock (c : FbClass) (self : Framebuffer) (blockNumber : UInt32)
    (data : Option (Nat → UInt8)) (length : Option UInt64) :
    Except IOReturn ((Nat → UInt8) × UInt64) :=
  match c with
  | .v4 => .error .kIOReturnUnsupported
  | c => c.methods.getDDCBlock self blockNumber data length

/-- The driver's own part of a call: its members after it and the answer, or `none` where the call
is passed on. -/
def own (c : FbClass) (self : Framebuffer) : Request → Option (Framebuffer × Answer)
  | .isConsoleDevice => c.isConsoleDevice.map fun b => (self, .bool b)
  | .enableController => some (self, .result .kIOReturnSuccess)
  | .getApertureRange aperture => some (self, .memory (c.methods.getApertureRange self aperture))
  | .getPixelFormats => some (self, .formats c.methods.getPixelFormats)
  | .getDisplayModeCount => some (self, .count c.methods.getDisplayModeCount)
  | .getDisplayModes allDisplayModes =>
    some (self, .modes (c.methods.getDisplayModes allDisplayModes))
  | .getInformationForDisplayMode displayMode info =>
    some (self, .information (c.methods.getInformationForDisplayMode self displayMode info))
  | .getPixelFormatsForDisplayMode displayMode depth =>
    some (self, .formatMask (c.methods.getPixelFormatsForDisplayMode displayMode depth))
  | .getPixelInformation displayMode depth aperture pixelInfo =>
    some (self, .pixels (c.methods.getPixelInformation self displayMode depth aperture pixelInfo))
  | .getCurrentDisplayMode displayMode depth =>
    let result := c.methods.getCurrentDisplayMode self displayMode depth
    some (self, .current result.1 result.2.1 result.2.2)
  | .setDisplayMode displayMode depth =>
    let result := c.methods.setDisplayMode self displayMode depth
    some (result.1, .result result.2)
  | .setGammaTable _ _ _ _ => c.setGammaTable.map fun r => (self, .result r)
  | .setCLUTWithEntries _ _ _ _ => c.setCLUTWithEntries.map fun r => (self, .result r)
  | .getAttributeForConnection _ selector value =>
    (c.getAttributeForConnection selector).map fun reply =>
      (self, .connection (if value then reply.1 else none) reply.2)
  | .setAttributeForConnection _ selector _ =>
    (c.setAttributeForConnection selector).map fun r => (self, .result r)
  | .connectFlags displayMode flags =>
    some (self, .flags (c.methods.connectFlags displayMode flags))
  | .hasDDCConnect _ => some (self, .bool c.hasDDCConnect)
  | .getDDCBlock blockNumber data length =>
    some (self, .block (c.getDDCBlock self blockNumber data length))

/-- The driver over `IOFramebuffer`. -/
def serve {σ : Type} (c : FbClass) (super : σ → Request → σ × Answer) (s : Framebuffer × σ)
    (r : Request) : (Framebuffer × σ) × Answer :=
  match c.own s.1 r with
  | some (self, answer) => ((self, s.2), answer)
  | none => ((s.1, (super s.2 r).1), (super s.2 r).2)

/-- The calls that are passed on, whatever the members hold. -/
def passes (c : FbClass) : Request → Bool
  | .isConsoleDevice => c.isConsoleDevice.isNone
  | .setGammaTable _ _ _ _ => c.setGammaTable.isNone
  | .setCLUTWithEntries _ _ _ _ => c.setCLUTWithEntries.isNone
  | .getAttributeForConnection _ selector _ => (c.getAttributeForConnection selector).isNone
  | .setAttributeForConnection _ selector _ => (c.setAttributeForConnection selector).isNone
  | _ => false

theorem own_eq_none_iff (c : FbClass) (self : Framebuffer) (r : Request) :
    c.own self r = none ↔ c.passes r = true := by
  cases r <;> simp [own, passes]

/-- The driver is a proxy of `IOFramebuffer`. -/
theorem serve_proxy {σ : Type} (c : FbClass) (super : σ → Request → σ × Answer) :
    Machine.Proxy (c.serve super) super c.passes where
  passed := by
    intro s r hr
    unfold serve
    rw [(c.own_eq_none_iff s.1 r).2 hr]
  kept := by
    intro s r hr
    unfold serve
    cases hown : c.own s.1 r with
    | none =>
      rw [c.own_eq_none_iff] at hown
      rw [hown] at hr
      cases hr
    | some result => rfl

/-! ## The state of a session -/

/-- The members of a framebuffer that shows the console in this mode and depth. -/
def showing (video : PEVideo) (mode : IODisplayModeID × IOIndex) : Framebuffer :=
  { Framebuffer.zeroed.recordConsole edidBase video with
    currentMode := mode.1
    currentDepth := mode.2 }

/-- The console is recorded over whatever the object held before. -/
theorem recordConsole_eq_showing (self : Framebuffer) (video : PEVideo) :
    self.recordConsole edidBase video = showing video (kHonorModeID, 0) := by
  have hedid : fillEdid edidBase self.edid = fillEdid edidBase Framebuffer.zeroed.edid := by
    unfold fillEdid
    simp only [copyEdid_eq]
  unfold showing Framebuffer.recordConsole
  rw [hedid]

theorem start_eq_showing {c : FbClass} {self fb : Framebuffer} {pe : PEState} {superStart : Bool}
    (hstart : c.start self pe superStart = some (fb, true)) :
    fb = showing pe.video (kHonorModeID, 0) := by
  have hvariant : ∀ v : Variant, v.start self pe superStart = (fb, true) →
      fb = showing pe.video (kHonorModeID, 0) := by
    intro v hv
    have hsnd : (v.start self pe superStart).2 = true := by rw [hv]
    have hpe := ((v.start_snd self pe superStart).1 hsnd).1.1
    have hfst := v.start_fst self superStart hpe
    rw [hv] at hfst
    have hbase : v.base = edidBase := by cases v <;> rfl
    rw [hbase, recordConsole_eq_showing] at hfst
    exact hfst
  cases c with
  | shipped v => exact hvariant v (Option.some.inj hstart)
  | v4 => exact hvariant .v3 (Option.some.inj hstart)
  | v10 | v11 | v12 => cases hstart
  | v13 =>
    have hfalse := congrArg Prod.snd (Option.some.inj hstart)
    cases hfalse

/-- A call leaves the members as they are, up to the mode it sets. -/
theorem own_fst {c : FbClass} {self self' : Framebuffer} {r : Request} {answer : Answer}
    (h : c.own self r = some (self', answer)) :
    self' = { self with
      currentMode := (r.mode.getD (self.currentMode, self.currentDepth)).1
      currentDepth := (r.mode.getD (self.currentMode, self.currentDepth)).2 } := by
  cases r with
  | isConsoleDevice | setGammaTable | setCLUTWithEntries | getAttributeForConnection
  | setAttributeForConnection =>
    simp only [own, Option.map_eq_some_iff, Prod.mk.injEq] at h
    obtain ⟨_, -, rfl, -⟩ := h
    rfl
  | _ =>
    obtain rfl := congrArg Prod.fst (Option.some.inj h)
    rfl

theorem serve_fst {σ : Type} (c : FbClass) (super : σ → Request → σ × Answer)
    (s : Framebuffer × σ) (r : Request) :
    (c.serve super s r).1.1 = { s.1 with
      currentMode := (r.mode.getD (s.1.currentMode, s.1.currentDepth)).1
      currentDepth := (r.mode.getD (s.1.currentMode, s.1.currentDepth)).2 } := by
  unfold serve
  cases hown : c.own s.1 r with
  | some result => exact own_fst hown
  | none =>
    have hmode : r.mode = none := by
      cases r with
      | setDisplayMode displayMode depth => cases hown
      | _ => rfl
    rw [hmode]
    rfl

theorem after_showing {σ : Type} (c : FbClass) (super : σ → Request → σ × Answer)
    (video : PEVideo) (rs : List Request) : ∀ mode base,
      (Machine.after (c.serve super) (showing video mode, base) rs).1 =
        showing video ((rs.filterMap Request.mode).getLast?.getD mode) := by
  induction rs with
  | nil => intro mode base; rfl
  | cons r rs ih =>
    intro mode base
    have hnext : (c.serve super (showing video mode, base) r).1 =
        (showing video (r.mode.getD mode), (c.serve super (showing video mode, base) r).1.2) := by
      refine Prod.ext ?_ rfl
      rw [serve_fst]
      rfl
    rw [Machine.after_cons, hnext, ih, Latest.getLast?_filterMap_cons]

/-- **At every moment of every session the driver shows the boot console in the mode that was set
last, whatever the object held before its start, and `IOFramebuffer` has served exactly the calls
that are passed on.** -/
theorem session_state {σ : Type} (c : FbClass) (self : Framebuffer) (pe : PEState)
    (superStart : Bool) (fb : Framebuffer) (hstart : c.start self pe superStart = some (fb, true))
    (super : σ → Request → σ × Answer) (base : σ) (rs : List Request) :
    Machine.after (c.serve super) (fb, base) rs =
      (showing pe.video ((rs.filterMap Request.mode).getLast?.getD (kHonorModeID, 0)),
        Machine.after super base (rs.filter c.passes)) := by
  rw [start_eq_showing hstart]
  apply Prod.ext
  · exact after_showing c super pe.video rs _ base
  · exact (c.serve_proxy super).after_inner rs _

/-- A session on an `IOFramebuffer` that counts its calls. -/
theorem session_state_power :
    Machine.after
      ((FbClass.shipped .v8).serve fun (n : Nat) _ => (n + 1, .result .kIOReturnSuccess))
      ((Variant.v8.start .zeroed honorConsole true).1, 0)
      [.setAttributeForConnection 0 .kConnectionPower 1, .setDisplayMode 7 3,
        .getAttributeForConnection 0 (.other 5) true] =
      (showing honorConsole.video (7, 3), 1) :=
  session_state (.shipped .v8) .zeroed honorConsole true _
    (congrArg some (Prod.ext rfl (by decide))) _ 0 _

end FbClass

end HonorFB
