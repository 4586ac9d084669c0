import Mathlib.Algebra.Group.Nat.Defs

/-!
# The kernel interface of the drivers

The types and constants of IOKit and of the platform expert that the variants are written
against. Only what a modelled method reads or returns is here. The kernel is 64-bit: pointers,
`unsigned long` and `IOByteCount` are `UInt64`, `IODisplayModeID` and `IOIndex` are `SInt32`.
-/

namespace HonorFB

/-- Object, callback and member pointers. `NULL` is `0`. -/
abbrev Ptr := UInt64

abbrev IODisplayModeID := Int32

abbrev IOIndex := Int32

abbrev IOOptionBits := UInt32

inductive IOReturn where
  | kIOReturnSuccess
  | kIOReturnBadArgument
  | kIOReturnUnsupported
  deriving DecidableEq, Repr

inductive IOPixelAperture where
  | kIOFBSystemAperture
  | other (aperture : UInt32)
  deriving DecidableEq, Repr

def kDisplayModeValidFlag : IOOptionBits := 0x1
def kDisplayModeSafeFlag : IOOptionBits := 0x2
def kDisplayModeDefaultFlag : IOOptionBits := 0x4

/-- The boot console XNU recorded (`PE_Video`, every field an `unsigned long`). -/
structure PEVideo where
  v_baseAddr : UInt64
  v_rowBytes : UInt64
  v_width : UInt64
  v_height : UInt64
  v_depth : UInt64
  deriving DecidableEq, Repr

structure PEState where
  initialized : Bool
  video : PEVideo
  deriving DecidableEq, Repr

/-- The boot console of the target machine: 1920x1200, 32 bits a pixel, 7680 bytes a row. -/
def honorConsole : PEState where
  initialized := true
  video := {
    v_baseAddr := 0x4000000000
    v_rowBytes := 7680
    v_width := 1920
    v_height := 1200
    v_depth := 32 }

structure IODeviceMemory where
  start : UInt64
  length : UInt64
  deriving DecidableEq, Repr

end HonorFB
