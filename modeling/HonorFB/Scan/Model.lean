import HonorFB.IOKit
import HonorFB.Lib.Latest
import HonorFB.Lib.Word

/-!
# The PCI scans

`HonorFB_v12::start` scans the registry once, `honorScanThread` of `HonorFB_v13` fifteen times, two
seconds apart. The entries an iterator returns are a list in enumeration order, and a missing
matching dictionary or iterator is `none`. Both end in `panic`, whose arguments are what they
report.
-/

namespace HonorFB

/-- What `getProperty` returns: an `OSData` with its bytes, or an object of another class. -/
inductive OSObject where
  | data (bytes : List UInt8)
  | other
  deriving DecidableEq, Repr

structure IORegistryEntry where
  getProperty : String → Option OSObject

/-- `readId`: the first two bytes of the data, as the little-endian `uint16_t` the kernel loads. -/
def readId (p : IORegistryEntry) (key : String) : UInt32 :=
  match p.getProperty key with
  | some (.data (low :: high :: _)) => UInt32.ofNat (low.toNat + 256 * high.toNat)
  | _ => 0

inductive Panic where
  /-- "HonorFB_v12: RAN via provider=%s. IOPCIDevices=%u. iGPU(8086:46xx) = %04x:%04x" -/
  | ran (provider : Option String) (n iv idv : UInt32)
  /-- "HonorFB_v13: FOUND iGPU %04x:%04x at %ds. PCIdevs=%u" -/
  | found (iv idv : UInt32) (seconds : Nat) (n : UInt32)
  /-- "HonorFB_v13: NO iGPU(46xx) after 30s. maxPCIdevs=%u lastIntelDev=0x%04x" -/
  | noIGPU (maxN lastIntel : UInt32)
  deriving DecidableEq, Repr

def isIntel (e : IORegistryEntry) : Bool := readId e "vendor-id" == 0x8086

/-- `v == 0x8086 && (d & 0xFF00) == 0x4600`. -/
def isIGPU (e : IORegistryEntry) : Bool :=
  isIntel e && (readId e "device-id" &&& 0xFF00) == 0x4600

/-! ## One scan -/

structure ScanV12 where
  n : UInt32
  iv : UInt32
  idv : UInt32
  deriving DecidableEq

def ScanV12.step (s : ScanV12) (e : IORegistryEntry) : ScanV12 :=
  let s := { s with n := s.n + 1 }
  let v := readId e "vendor-id"
  let d := readId e "device-id"
  if v == 0x8086 && (d &&& 0xFF00) == 0x4600 then { s with iv := v, idv := d } else s

def scanV12 (it : Option (List IORegistryEntry)) : ScanV12 :=
  match it with
  | some entries => entries.foldl ScanV12.step { n := 0, iv := 0, idv := 0 }
  | none => { n := 0, iv := 0, idv := 0 }

/-- `HonorFB_v12::start`, after the wait for the first `IOPCIDevice`. -/
def startV12 (provider : Option String) (it : Option (List IORegistryEntry)) : Panic :=
  let s := scanV12 it
  .ran provider s.n s.iv s.idv

/-- The locals of one turn of `honorScanThread`, and `lastIntel`, which the turns share. -/
structure ScanV13 where
  n : UInt32
  iv : UInt32
  idv : UInt32
  lastIntel : UInt32
  deriving DecidableEq

def ScanV13.step (s : ScanV13) (e : IORegistryEntry) : ScanV13 :=
  let s := { s with n := s.n + 1 }
  let v := readId e "vendor-id"
  let d := readId e "device-id"
  if v == 0x8086 then
    let s := { s with lastIntel := d }
    if (d &&& 0xFF00) == 0x4600 then { s with iv := v, idv := d } else s
  else s

def scanV13 (lastIntel : UInt32) (it : Option (List IORegistryEntry)) : ScanV13 :=
  match it with
  | some entries =>
    entries.foldl ScanV13.step { n := 0, iv := 0, idv := 0, lastIntel := lastIntel }
  | none => { n := 0, iv := 0, idv := 0, lastIntel := lastIntel }

/-- `if (idv) panic("… FOUND …")`. -/
def ScanV13.isFound (s : ScanV13) : Bool := s.idv != 0

/-! ## The scan thread -/

/-- The turns from `i` on: `snapshots` is what their iterators return. -/
def scanFrom (i : Nat) (maxN lastIntel : UInt32) :
    List (Option (List IORegistryEntry)) → Panic
  | [] => .noIGPU maxN lastIntel
  | it :: snapshots =>
    let s := scanV13 lastIntel it
    let maxN := if s.n > maxN then s.n else maxN
    if s.isFound then .found s.iv s.idv (i * 2) s.n
    else scanFrom (i + 1) maxN s.lastIntel snapshots

def honorScanThread (snapshots : Vector (Option (List IORegistryEntry)) 15) : Panic :=
  scanFrom 1 0 0 snapshots.toList

/-! ## What a scan reads -/

theorem readId_lt (e : IORegistryEntry) (key : String) : (readId e key).toNat < 2 ^ 16 := by
  unfold readId
  split
  · next low high rest _ =>
    have hlow := low.toNat_lt
    have hhigh := high.toNat_lt
    have hfits : low.toNat + 256 * high.toNat < 2 ^ 16 := by omega
    rw [UInt32.toNat_ofNat_of_lt' (Nat.lt_trans hfits (by decide))]
    exact hfits
  · decide

/-- The mask selects the device ids of the form `0x46xx`. -/
theorem isIGPU_iff (e : IORegistryEntry) :
    isIGPU e = true ↔
      readId e "vendor-id" = 0x8086 ∧ (readId e "device-id").toNat / 256 = 0x46 := by
  unfold isIGPU isIntel
  rw [Bool.and_eq_true, beq_iff_eq, beq_iff_eq,
    Word.and_high_byte_eq_iff (readId_lt e "device-id") (by decide)]
  rfl

theorem isIntel_of_isIGPU {e : IORegistryEntry} (h : isIGPU e = true) : isIntel e = true :=
  (Bool.and_eq_true _ _ ▸ h : isIntel e = true ∧ _).1

theorem deviceId_ne_zero {e : IORegistryEntry} (h : isIGPU e = true) :
    readId e "device-id" ≠ 0 := by
  intro hzero
  have hform := ((isIGPU_iff e).1 h).2
  rw [hzero] at hform
  exact absurd hform (by decide)

section Fold

variable (entries : List IORegistryEntry)

/-- v12 counts the entries and keeps the ids of the last hit. -/
theorem ScanV12.foldl_step (s : ScanV12) :
    entries.foldl ScanV12.step s =
      { n := s.n + UInt32.ofNat entries.length
        iv := ((Latest.latest isIGPU entries).map (readId · "vendor-id")).getD s.iv
        idv := ((Latest.latest isIGPU entries).map (readId · "device-id")).getD s.idv } := by
  induction entries using List.reverseRecOn with
  | nil => simp
  | append_singleton entries e ih =>
    rw [List.foldl_concat, ih, Latest.latest_concat, List.length_append, List.length_singleton,
      UInt32.ofNat_add]
    unfold ScanV12.step
    by_cases h : isIGPU e = true
    · have hmask : (readId e "vendor-id" == 0x8086 &&
          (readId e "device-id" &&& 0xFF00) == 0x4600) = true := h
      simp [hmask, h, UInt32.add_assoc]
    · have hmask : ¬(readId e "vendor-id" == 0x8086 &&
          (readId e "device-id" &&& 0xFF00) == 0x4600) = true := h
      simp [hmask, h, UInt32.add_assoc]

theorem ScanV13.foldl_step (s : ScanV13) :
    entries.foldl ScanV13.step s =
      { n := s.n + UInt32.ofNat entries.length
        iv := ((Latest.latest isIGPU entries).map (readId · "vendor-id")).getD s.iv
        idv := ((Latest.latest isIGPU entries).map (readId · "device-id")).getD s.idv
        lastIntel :=
          ((Latest.latest isIntel entries).map (readId · "device-id")).getD s.lastIntel } := by
  induction entries using List.reverseRecOn with
  | nil => simp
  | append_singleton entries e ih =>
    rw [List.foldl_concat, ih, Latest.latest_concat, Latest.latest_concat, List.length_append,
      List.length_singleton, UInt32.ofNat_add]
    unfold ScanV13.step
    by_cases hintel : isIntel e = true
    · have hvendor : (readId e "vendor-id" == 0x8086) = true := hintel
      by_cases h : (readId e "device-id" &&& 0xFF00 == 0x4600) = true
      · have higpu : isIGPU e = true := by rw [isIGPU, hintel, h]; rfl
        simp [hvendor, hintel, h, higpu, UInt32.add_assoc]
      · have higpu : ¬isIGPU e = true := by
          rw [isIGPU, hintel, Bool.true_and]
          exact h
        simp [hvendor, hintel, h, higpu, UInt32.add_assoc]
    · have hvendor : ¬(readId e "vendor-id" == 0x8086) = true := hintel
      have higpu : ¬isIGPU e = true := fun h => hintel (isIntel_of_isIGPU h)
      simp [hvendor, hintel, higpu, UInt32.add_assoc]

end Fold

end HonorFB
