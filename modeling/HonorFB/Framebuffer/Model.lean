import HonorFB.Framebuffer.Edid
import HonorFB.Lib.Word

/-!
# The `IOFramebuffer` variants

The members and methods that `HonorFB_v3`, `_v5a`, `_v6`, `_v7`, `_v8` and `_v9` share. Their texts
differ in the class name, in the refresh constant (`60` or `kHonorHz`) and in the answer of
`getPixelFormatsForDisplayMode`; `HonorFB_v6` adds the VBL clock, which has its own modules.

A pointer argument that a method only tests for `NULL` and writes through is a `Bool` ("is it
non-`NULL`") and what is written is part of the result. `IOFramebuffer::start` is not under the
repository: its result is an argument of `start`.
-/

namespace HonorFB

inductive Variant where
  | v3
  | v5a
  | v6
  | v7
  | v8
  | v9
  deriving DecidableEq, Repr

structure Framebuffer where
  fbPhys : UInt64
  fbLen : UInt64
  fbW : UInt32
  fbH : UInt32
  fbRowBytes : UInt32
  currentMode : IODisplayModeID
  currentDepth : IOIndex
  edid : EdidBlock
  deriving DecidableEq

/-- What `getInformationForDisplayMode` fills in; `bzero` clears the rest. -/
structure IODisplayModeInformation where
  nominalWidth : UInt32
  nominalHeight : UInt32
  refreshRate : UInt32
  maxDepthIndex : IOIndex
  flags : IOOptionBits
  deriving DecidableEq, Repr

inductive IOPixelType where
  | kIORGBDirectPixels
  deriving DecidableEq, Repr

structure IOPixelInformation where
  bytesPerRow : UInt32
  activeWidth : UInt32
  activeHeight : UInt32
  bitsPerPixel : UInt32
  pixelType : IOPixelType
  componentCount : UInt32
  bitsPerComponent : UInt32
  componentMasks : List UInt32
  pixelFormat : String
  deriving DecidableEq, Repr

def kHonorModeID : IODisplayModeID := 1

def kHonorHz : UInt32 := 60

def IO32BitDirectPixels : String := "--------RRRRRRRRGGGGGGGGBBBBBBBB"

namespace Framebuffer

/-- A freshly allocated object: IOKit clears the members before `start`. -/
def zeroed : Framebuffer where
  fbPhys := 0
  fbLen := 0
  fbW := 0
  fbH := 0
  fbRowBytes := 0
  currentMode := 0
  currentDepth := 0
  edid := Vector.replicate 128 0

/-- The assignments of `start` from `PE_state.video`, up to and including the EDID loops. -/
def recordConsole (base : EdidBlock) (self : Framebuffer) (video : PEVideo) : Framebuffer :=
  let fbH := video.v_height.toUInt32
  let fbRowBytes := video.v_rowBytes.toUInt32
  { self with
    fbPhys := video.v_baseAddr &&& ~~~(3 : UInt64)
    fbW := video.v_width.toUInt32
    fbH := fbH
    fbRowBytes := fbRowBytes
    fbLen := fbH.toUInt64 * fbRowBytes.toUInt64
    currentMode := kHonorModeID
    currentDepth := 0
    edid := fillEdid base self.edid }

/-- `fbPhys == 0 || fbLen == 0 || fbW == 0 || fbH == 0`: "invalid boot framebuffer". -/
def invalid (self : Framebuffer) : Bool :=
  self.fbPhys == 0 || self.fbLen == 0 || self.fbW == 0 || self.fbH == 0

end Framebuffer

namespace Variant

def base : Variant → EdidBlock
  | .v3 | .v5a | .v6 | .v7 | .v8 | .v9 => edidBase

def refreshHz : Variant → UInt32
  | .v6 => kHonorHz
  | .v3 | .v5a | .v7 | .v8 | .v9 => 60

/-- `start`. The members stay as they were when `PE_state` is not initialised, and keep the
recorded console when a later check fails. -/
def start (v : Variant) (self : Framebuffer) (pe : PEState) (superStart : Bool) :
    Framebuffer × Bool :=
  if !pe.initialized then (self, false)
  else
    let self := self.recordConsole v.base pe.video
    if self.invalid then (self, false)
    else if !superStart then (self, false)
    else (self, true)

def getApertureRange (_ : Variant) (self : Framebuffer) (aperture : IOPixelAperture) :
    Option IODeviceMemory :=
  if aperture != .kIOFBSystemAperture then none
  else some { start := self.fbPhys, length := self.fbLen }

def getPixelFormats (_ : Variant) : String := IO32BitDirectPixels

def getDisplayModeCount (_ : Variant) : UInt32 := 1

/-- `getDisplayModes`: the entries written to a non-`NULL` array. -/
def getDisplayModes (_ : Variant) (allDisplayModes : Bool) :
    Except IOReturn (List IODisplayModeID) :=
  if !allDisplayModes then .error .kIOReturnBadArgument
  else .ok [kHonorModeID]

def getInformationForDisplayMode (v : Variant) (self : Framebuffer)
    (displayMode : IODisplayModeID) (info : Bool) : Except IOReturn IODisplayModeInformation :=
  if displayMode != kHonorModeID || !info then .error .kIOReturnBadArgument
  else .ok {
    nominalWidth := self.fbW
    nominalHeight := self.fbH
    refreshRate := v.refreshHz <<< 16
    maxDepthIndex := 0
    flags := kDisplayModeValidFlag ||| kDisplayModeSafeFlag ||| kDisplayModeDefaultFlag }

/-- `getPixelFormatsForDisplayMode`: `HonorFB_v5a` answers as `IOBootFramebuffer` does. -/
def getPixelFormatsForDisplayMode : Variant → IODisplayModeID → IOIndex → UInt64
  | .v5a, _, _ => 1
  | .v3, _, _ | .v6, _, _ | .v7, _, _ | .v8, _, _ | .v9, _, _ => 0

def getPixelInformation (_ : Variant) (self : Framebuffer) (displayMode : IODisplayModeID)
    (depth : IOIndex) (aperture : IOPixelAperture) (pixelInfo : Bool) :
    Except IOReturn IOPixelInformation :=
  if displayMode != kHonorModeID || depth != 0 || aperture != .kIOFBSystemAperture ||
      !pixelInfo then .error .kIOReturnBadArgument
  else .ok {
    bytesPerRow := self.fbRowBytes
    activeWidth := self.fbW
    activeHeight := self.fbH
    bitsPerPixel := 32
    pixelType := .kIORGBDirectPixels
    componentCount := 3
    bitsPerComponent := 8
    componentMasks := [0x00FF0000, 0x0000FF00, 0x000000FF]
    pixelFormat := IO32BitDirectPixels }

/-- `getCurrentDisplayMode`: what is written through each non-`NULL` pointer. It always
succeeds. -/
def getCurrentDisplayMode (_ : Variant) (self : Framebuffer) (displayMode depth : Bool) :
    Option IODisplayModeID × Option IOIndex × IOReturn :=
  (if displayMode then some self.currentMode else none,
    if depth then some self.currentDepth else none, .kIOReturnSuccess)

def setDisplayMode (_ : Variant) (self : Framebuffer) (displayMode : IODisplayModeID)
    (depth : IOIndex) : Framebuffer × IOReturn :=
  ({ self with currentMode := displayMode, currentDepth := depth }, .kIOReturnSuccess)

def connectFlags (_ : Variant) (displayMode : IODisplayModeID) (flags : Bool) :
    Except IOReturn IOOptionBits :=
  if !flags then .error .kIOReturnBadArgument
  else .ok (if displayMode == kHonorModeID then
    kDisplayModeValidFlag ||| kDisplayModeSafeFlag ||| kDisplayModeDefaultFlag else 0)

def hasDDCConnect (_ : Variant) : Bool := true

/-- `for (int i = 0; i < 128; i++) data[i] = edid[i];`: the caller's buffer is the memory behind
`data`. -/
def writeBlock (edid : EdidBlock) (data : Nat → UInt8) : Nat → UInt8 :=
  (List.finRange 128).foldl
    (fun (d : Nat → UInt8) (i : Fin 128) => Function.update d i.val (edid.get i)) data

/-- `getDDCBlock`: the new buffer and the new `*length`. -/
def getDDCBlock (_ : Variant) (self : Framebuffer) (blockNumber : UInt32)
    (data : Option (Nat → UInt8)) (length : Option UInt64) :
    Except IOReturn ((Nat → UInt8) × UInt64) :=
  match data, length with
  | some data, some length =>
    if blockNumber != 1 || length < 128 then .error .kIOReturnUnsupported
    else .ok (writeBlock self.edid data, 128)
  | _, _ => .error .kIOReturnUnsupported

/-! ## What `start` does -/

def passes (v : Variant) (self : Framebuffer) (pe : PEState) : Prop :=
  pe.initialized = true ∧ (self.recordConsole v.base pe.video).invalid = false

instance (v : Variant) (self : Framebuffer) (pe : PEState) : Decidable (v.passes self pe) :=
  inferInstanceAs (Decidable (_ ∧ _))

theorem start_fst (v : Variant) (self : Framebuffer) {pe : PEState} (superStart : Bool)
    (hpe : pe.initialized = true) :
    (v.start self pe superStart).1 = self.recordConsole v.base pe.video := by
  unfold start
  simp only [hpe, Bool.not_true, Bool.false_eq_true, if_false]
  split
  · rfl
  · split <;> rfl

theorem start_snd (v : Variant) (self : Framebuffer) (pe : PEState) (superStart : Bool) :
    (v.start self pe superStart).2 = true ↔ v.passes self pe ∧ superStart = true := by
  unfold start passes
  cases pe.initialized with
  | false => simp
  | true =>
    cases hinv : (self.recordConsole v.base pe.video).invalid <;> cases superStart <;> simp [hinv]

theorem passes_iff (v : Variant) (self : Framebuffer) (pe : PEState) :
    v.passes self pe ↔ pe.initialized = true ∧ pe.video.v_baseAddr.toNat / 4 ≠ 0 ∧
      pe.video.v_width.toNat % 2 ^ 32 ≠ 0 ∧ pe.video.v_height.toNat % 2 ^ 32 ≠ 0 ∧
      pe.video.v_rowBytes.toNat % 2 ^ 32 ≠ 0 := by
  unfold passes Framebuffer.invalid Framebuffer.recordConsole
  simp only [Bool.or_eq_false_iff, beq_eq_false_iff_ne, ne_eq, ← Word.toNat_eq_zero_iff,
    ← Word.toNat32_eq_zero_iff, Word.toNat_and_not_three, Word.toNat_widening_mul,
    UInt64.toNat_toUInt32, Nat.mul_eq_zero, not_or]
  constructor
  · rintro ⟨hinit, ⟨⟨hbase, hlen⟩, hw⟩, hh⟩
    exact ⟨hinit, hbase.1, hw, hh, hlen.2⟩
  · rintro ⟨hinit, hbase, hw, hh, hrb⟩
    exact ⟨hinit, ⟨⟨⟨hbase, by decide⟩, hh, hrb⟩, hw⟩, hh⟩

end Variant

end HonorFB
