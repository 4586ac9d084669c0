import HonorFB.Lib.Printf
import HonorFB.Scan.Model

/-!
# The probes

`HonorFB_v10`, `_v11`, `_v12`, `_v13` and `HonorFB_vdiag` put nothing on the display: they end in a
`panic` whose text is their report. The format strings are the source's, one directive after the
other.
-/

namespace HonorFB

open Printf

namespace Conversion

def u : Directive := .number 10 0
def lu : Directive := .number 10 0
def d : Directive := .number 10 0
def x04 : Directive := .number 16 4
def llx : Directive := .number 16 0
def s : Directive := .word

end Conversion

/-- The provider `start` is called with: its class, and its registry entry. -/
structure Provider where
  className : String
  entry : IORegistryEntry

/-- `readIdProp` of v11: as `readId`, but with `0xFFFF` where there is nothing to read. -/
def readIdProp (p : Option IORegistryEntry) (key : String) : UInt32 :=
  match p.bind fun p => p.getProperty key with
  | some (.data (low :: high :: _)) => UInt32.ofNat (low.toNat + 256 * high.toNat)
  | _ => 0xFFFF

/-- What a probe panics with. -/
inductive Report where
  | matchedV10 (provider : Option String)
  | matchedV11 (provider : Option String) (vend dev : UInt32)
  | scanned (panic : Panic)
  | diag (pe : PEState)
  deriving DecidableEq

/-- `HonorFB_v10::start`. -/
def startV10 (provider : Option Provider) : Report :=
  .matchedV10 (provider.map Provider.className)

/-- `HonorFB_v11::start`. -/
def startV11 (provider : Option Provider) : Report :=
  let vend := readIdProp (provider.map Provider.entry) "vendor-id"
  let dev := readIdProp (provider.map Provider.entry) "device-id"
  .matchedV11 (provider.map Provider.className) vend dev

/-- `HonorFB_v13::start`: its result, and whether the scan thread runs. -/
def startV13 (kernel_thread_start : Bool) : Bool × Bool := (false, kernel_thread_start)

/-- `HonorFB_vdiag::start`; the result of `IOService::start` is not looked at. -/
def startVdiag (pe : PEState) : Report := .diag pe

/-! ## The texts -/

/-- The format strings. -/
inductive Kind where
  | v10
  | v11
  | ran
  | found
  | noIGPU
  | vdiag
  deriving DecidableEq, Repr

@[irreducible] def beginV10 : List Char := "HonorFB_v10: MATCHED iGPU! provider=".toList
@[irreducible] def beginV11 : List Char := "HonorFB_v11 MATCHED iGPU! provider=".toList
@[irreducible] def beginRan : List Char := "HonorFB_v12: RAN via provider=".toList
@[irreducible] def beginFound : List Char := "HonorFB_v13: FOUND iGPU ".toList
@[irreducible] def beginNoIGPU : List Char :=
  "HonorFB_v13: NO iGPU(46xx) after 30s. maxPCIdevs=".toList
@[irreducible] def beginVdiag : List Char := "HonorFB_vdiag DIAG init=".toList

open Conversion

@[irreducible] def restV10 : List Directive :=
  [s, .text " -- device-id match WORKS. (diagnostic panic)".toList]

@[irreducible] def restV11 : List Directive :=
  [s, .text " vendor-id=0x".toList, x04, .text " device-id=0x".toList, x04,
    .text " (diagnostic)".toList]

@[irreducible] def restRan : List Directive :=
  [s, .text ". IOPCIDevices=".toList, u, .text ". iGPU(8086:46xx) = ".toList, x04,
    .text ":".toList, x04]

@[irreducible] def restFound : List Directive :=
  [x04, .text ":".toList, x04, .text " at ".toList, d, .text "s. PCIdevs=".toList, u]

@[irreducible] def restNoIGPU : List Directive := [u, .text " lastIntelDev=0x".toList, x04]

@[irreducible] def restVdiag : List Directive :=
  [d, .text " base=0x".toList, llx, .text " w=".toList, lu, .text " h=".toList, lu,
    .text " depth=".toList, lu, .text " rowBytes=".toList, lu]

namespace Kind

def all : List Kind := [.v10, .v11, .ran, .found, .noIGPU, .vdiag]

def head : Kind → List Char
  | .v10 => beginV10
  | .v11 => beginV11
  | .ran => beginRan
  | .found => beginFound
  | .noIGPU => beginNoIGPU
  | .vdiag => beginVdiag

def rest : Kind → List Directive
  | .v10 => restV10
  | .v11 => restV11
  | .ran => restRan
  | .found => restFound
  | .noIGPU => restNoIGPU
  | .vdiag => restVdiag

def format (k : Kind) : List Directive := .text k.head :: k.rest

end Kind

@[irreducible] def nullText : List Char := "NULL".toList

/-- `provider ? provider->getMetaClass()->getClassName() : "NULL"` -/
def providerText : Option String → List Char
  | some className => className.toList
  | none => nullText

namespace Report

def kind : Report → Kind
  | .matchedV10 _ => .v10
  | .matchedV11 _ _ _ => .v11
  | .scanned (.ran _ _ _ _) => .ran
  | .scanned (.found _ _ _ _) => .found
  | .scanned (.noIGPU _ _) => .noIGPU
  | .diag _ => .vdiag

def args : Report → List Arg
  | .matchedV10 provider => [.word (providerText provider)]
  | .matchedV11 provider vend dev =>
    [.word (providerText provider), .number vend.toNat, .number dev.toNat]
  | .scanned (.ran provider n iv idv) =>
    [.word (providerText provider), .number n.toNat, .number iv.toNat, .number idv.toNat]
  | .scanned (.found iv idv seconds n) =>
    [.number iv.toNat, .number idv.toNat, .number seconds, .number n.toNat]
  | .scanned (.noIGPU maxN lastIntel) => [.number maxN.toNat, .number lastIntel.toNat]
  | .diag pe =>
    [.number (if pe.initialized then 1 else 0), .number pe.video.v_baseAddr.toNat,
      .number pe.video.v_width.toNat, .number pe.video.v_height.toNat,
      .number pe.video.v_depth.toNat, .number pe.video.v_rowBytes.toNat]

/-- What stands on the screen. -/
def text (r : Report) : List Char := printf r.kind.format r.args

end Report

end HonorFB
