import HonorFB.Lib.Word
import HonorFB.IOKit

/-!
# The `display` nub variants

`HonorFB`, `HonorFB_v0`, `HonorFB_v1` and `HonorFB_v2` publish the boot framebuffer as the device
memory of an `IOPlatformDevice` named `display`. The first three are that device; `HonorFB_v2`
allocates one. `start` is modelled as the effects it has on the registry and on reference counts, in
program order, and its result. The calls into IOKit that can fail are arguments (`Outcomes`).
-/

namespace HonorFB

/-- The classes that publish a nub; `honorFB` is the unversioned `src/HonorFB.cpp`. -/
inductive NubVariant where
  | honorFB
  | v0
  | v1
  | v2
  deriving DecidableEq, Repr

inductive Obj where
  | nub
  | deviceMemory
  | dtRoot
  deriving DecidableEq, Repr

inductive Plane where
  | gIOServicePlane
  | gIODTPlane
  deriving DecidableEq, Repr

/-- What one step of `start` does outside its own locals. `acquire` and `release` are references
this call owns; `setDeviceMemory` and a successful `attach` take their own, as IOKit documents. -/
inductive Effect where
  | acquire (obj : Obj)
  | release (obj : Obj)
  | setDeviceMemory (ranges : List IODeviceMemory)
  | setName (name : String)
  | setProperty (key : String)
  | attach (plane : Plane)
  | registerService
  deriving DecidableEq, Repr

/-- Which of the fallible calls succeed: `super::start`, `OSTypeAlloc`, `nub->init`,
`nub->attach(this)`, `IODeviceMemory::arrayFromList`, `IORegistryEntry::fromPath`,
`attachToParent`. A variant ignores the calls it does not make. -/
structure Outcomes where
  superStart : Bool
  alloc : Bool
  init : Bool
  attach : Bool
  arrayFromList : Bool
  fromPath : Bool
  attachToParent : Bool
  deriving DecidableEq, Repr

namespace NubVariant

def fbBase : NubVariant → PEVideo → UInt64
  | .honorFB, video | .v0, video => video.v_baseAddr
  | .v1, video | .v2, video => video.v_baseAddr &&& ~~~(3 : UInt64)

def fbLength (_ : NubVariant) (video : PEVideo) : UInt64 :=
  video.v_height * video.v_rowBytes

def invalid (v : NubVariant) (video : PEVideo) : Bool :=
  v.fbBase video == 0 || v.fbLength video == 0

def initList (v : NubVariant) (video : PEVideo) : List IODeviceMemory :=
  [{ start := v.fbBase video, length := v.fbLength video }]

def attachMemory (ranges : List IODeviceMemory) : List Effect :=
  [.acquire .deviceMemory, .setDeviceMemory ranges, .release .deviceMemory]

/-- The device-tree block of v1 and v2: either call may fail, and `start` continues. -/
def attachDeviceTree (o : Outcomes) : List Effect :=
  if o.fromPath then
    .acquire .dtRoot :: (if o.attachToParent then [.attach .gIODTPlane] else []) ++
      [.release .dtRoot]
  else []

/-- What v1 does between the device memory and `registerService`. -/
def resembleDisplay (o : Outcomes) : List Effect :=
  [.setName "display", .setProperty "device_type", .setProperty "AAPL,boot-display"] ++
    attachDeviceTree o

/-- The `start` that `HonorFB`, v0 and v1 share; `extra` is what v1 adds before publishing. -/
def startPlatform (v : NubVariant) (pe : PEState) (o : Outcomes) (extra : List Effect) :
    List Effect × Bool :=
  if !pe.initialized then ([], false)
  else if v.invalid pe.video then ([], false)
  else if !o.superStart then ([], false)
  else if !o.arrayFromList then ([], false)
  else (attachMemory (v.initList pe.video) ++ extra ++ [.registerService], true)

/-- What v2 sets on its fresh nub before attaching it. -/
def describeNub : List Effect :=
  [.setName "display", .setProperty "device_type", .setProperty "IOName",
    .setProperty "AAPL,boot-display"]

/-- `HonorFB_v2::start`. The base class is started before `PE_state` is looked at, and a failed
`arrayFromList` does not stop it. -/
def startSynthesized (pe : PEState) (o : Outcomes) : List Effect × Bool :=
  if !o.superStart then ([], false)
  else if !pe.initialized then ([], false)
  else if v2.invalid pe.video then ([], false)
  else if !o.alloc then ([], false)
  else if !o.init then ([.acquire .nub, .release .nub], false)
  else if !o.attach then (.acquire .nub :: describeNub ++ [.release .nub], false)
  else
    (.acquire .nub :: describeNub ++ [.attach .gIOServicePlane] ++
      (if o.arrayFromList then attachMemory (v2.initList pe.video) else []) ++
      attachDeviceTree o ++ [.registerService, .release .nub], true)

def start : NubVariant → PEState → Outcomes → List Effect × Bool
  | .honorFB, pe, o => startPlatform .honorFB pe o []
  | .v0, pe, o => startPlatform .v0 pe o []
  | .v1, pe, o => startPlatform .v1 pe o (resembleDisplay o)
  | .v2, pe, o => startSynthesized pe o

def passes (v : NubVariant) (pe : PEState) : Prop :=
  pe.initialized = true ∧ v.invalid pe.video = false

instance (v : NubVariant) (pe : PEState) : Decidable (v.passes pe) :=
  inferInstanceAs (Decidable (_ ∧ _))

end NubVariant

end HonorFB
