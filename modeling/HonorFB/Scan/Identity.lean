import HonorFB.Scan.Model

/-!
# Which entry the scans name

The scans take every Intel entry with a device id `0x46xx` for the iGPU and keep the last one;
`HonorFB_v9`, which uses the answer, matches an explicit list of ids. The scans name the entry v9
matches exactly when no other `0x46xx` entry comes after it (`namesIGPU_iff`).
-/

namespace HonorFB

/-- `IOPCIPrimaryMatch` of `HonorFB_v9`: the device id in the high half, the vendor in the low. -/
def IOPCIPrimaryMatch : List UInt32 :=
  [0x46268086, 0x46288086, 0x462A8086, 0x46808086, 0x46828086, 0x46888086, 0x468A8086, 0x468B8086,
    0x46908086, 0x46928086, 0x46938086, 0x46A08086, 0x46A18086, 0x46A28086, 0x46A38086, 0x46A68086,
    0x46A88086, 0x46AA8086, 0x46B08086, 0x46B18086, 0x46B28086, 0x46B38086, 0x46C08086, 0x46C18086,
    0x46C28086, 0x46C38086, 0x46D08086, 0x46D18086, 0x46D28086]

def iGPUIds : List UInt32 := IOPCIPrimaryMatch.map fun word => word >>> (16 : UInt32)

def isListed (e : IORegistryEntry) : Bool :=
  isIntel e && iGPUIds.contains (readId e "device-id")

/-- If one entry is listed v12 reports its ids; if none is, v12 reports `0000:0000` and v13 does
not find an iGPU. -/
structure NamesIGPU (entries : List IORegistryEntry) : Prop where
  one : ∀ e, entries.filter isListed = [e] → ∀ provider, ∃ n,
    startV12 provider (some entries) = .ran provider n (readId e "vendor-id") (readId e "device-id")
  none : entries.filter isListed = [] →
    (∀ provider, ∃ n, startV12 provider (some entries) = .ran provider n 0 0) ∧
      ∀ lastIntel, (scanV13 lastIntel (some entries)).isFound = false

/-- Every Intel entry of the form `0x46xx` that is not listed is followed by one that is. -/
def LastHitListed (entries : List IORegistryEntry) : Prop :=
  ∀ before e after, entries = before ++ e :: after → isIGPU e = true → isListed e = false →
    ∃ e' ∈ after, isListed e' = true

theorem iGPUIds_form : ∀ d ∈ iGPUIds, d.toNat / 256 = 0x46 := by
  have hall : iGPUIds.all (fun d => d.toNat / 256 == 0x46) = true := rfl
  intro d hd
  exact beq_iff_eq.1 (List.all_eq_true.1 hall d hd)

theorem isIGPU_of_isListed {e : IORegistryEntry} (h : isListed e = true) : isIGPU e = true := by
  unfold isListed at h
  rw [Bool.and_eq_true, isIntel, beq_iff_eq, List.contains_iff_mem] at h
  exact (isIGPU_iff e).2 ⟨h.1, iGPUIds_form _ h.2⟩

theorem isListed_congr {e e' : IORegistryEntry} (h : isIGPU e = true) (h' : isIGPU e' = true)
    (hid : readId e "device-id" = readId e' "device-id") : isListed e = isListed e' := by
  unfold isListed
  rw [isIntel_of_isIGPU h, isIntel_of_isIGPU h', hid]

theorem lastHitListed_iff (entries : List IORegistryEntry) :
    LastHitListed entries ↔ ∀ e, Latest.latest isIGPU entries = some e → isListed e = true := by
  constructor
  · intro h e hlatest
    obtain ⟨before, after, hsplit, hit, hafter⟩ := (Latest.latest_eq_some_iff _).1 hlatest
    cases hlisted : isListed e with
    | true => rfl
    | false =>
      obtain ⟨e', he', hlisted'⟩ := h before e after hsplit hit hlisted
      exact absurd (isIGPU_of_isListed hlisted') (hafter e' he')
  · rintro h before e after rfl hit hlisted
    -- the last hit is not `e`, so it stands after it
    cases hlatest : Latest.latest isIGPU after with
    | none =>
      have hlast : Latest.latest isIGPU (before ++ e :: after) = some e :=
        (Latest.latest_eq_some_iff _).2
          ⟨before, after, rfl, hit, (Latest.latest_eq_none_iff _).1 hlatest⟩
      have hlisted' := h e hlast
      rw [hlisted] at hlisted'
      exact Bool.noConfusion hlisted'
    | some x =>
      have hlast : Latest.latest isIGPU (before ++ e :: after) = some x := by
        rw [List.append_cons, Latest.latest_append, hlatest, Option.some_or]
      exact ⟨x, ((Latest.latest_eq_some_iff _).1 hlatest).mem, h x hlast⟩

theorem startV12_eq (provider : Option String) (entries : List IORegistryEntry) :
    startV12 provider (some entries) = .ran provider (UInt32.ofNat entries.length)
      (((Latest.latest isIGPU entries).map (readId · "vendor-id")).getD 0)
      (((Latest.latest isIGPU entries).map (readId · "device-id")).getD 0) := by
  unfold startV12 scanV12
  simp only [ScanV12.foldl_step, UInt32.zero_add]

theorem scanV13_idv (lastIntel : UInt32) (entries : List IORegistryEntry) :
    (scanV13 lastIntel (some entries)).idv =
      ((Latest.latest isIGPU entries).map (readId · "device-id")).getD 0 := by
  unfold scanV13
  simp only [ScanV13.foldl_step]

theorem namesIGPU_one_iff {entries : List IORegistryEntry} {e : IORegistryEntry}
    (hone : entries.filter isListed = [e]) :
    (∀ provider, ∃ n, startV12 provider (some entries) =
        .ran provider n (readId e "vendor-id") (readId e "device-id")) ↔
      ∀ x, Latest.latest isIGPU entries = some x → isListed x = true := by
  have he : e ∈ entries ∧ isListed e = true := by
    rw [← List.mem_filter, hone]
    exact List.mem_singleton_self e
  constructor
  · intro h x hx
    obtain ⟨n, hn⟩ := h none
    rw [startV12_eq, hx] at hn
    injection hn with _ _ _ hid
    have hit := ((Latest.latest_eq_some_iff _).1 hx).holds
    rw [isListed_congr hit (isIGPU_of_isListed he.2) hid]
    exact he.2
  · intro h provider
    have hsome : (Latest.latest isIGPU entries).isSome = true :=
      (Latest.latest_isSome_iff _).2 ⟨e, he.1, isIGPU_of_isListed he.2⟩
    obtain ⟨x, hx⟩ := Option.isSome_iff_exists.1 hsome
    have hxe : x = e := by
      rw [← List.mem_singleton, ← hone, List.mem_filter]
      exact ⟨((Latest.latest_eq_some_iff _).1 hx).mem, h x hx⟩
    rw [startV12_eq, hx, hxe]
    exact ⟨_, rfl⟩

theorem namesIGPU_none_iff {entries : List IORegistryEntry} (hnone : entries.filter isListed = []) :
    ((∀ provider, ∃ n, startV12 provider (some entries) = .ran provider n 0 0) ∧
        ∀ lastIntel, (scanV13 lastIntel (some entries)).isFound = false) ↔
      ∀ x, Latest.latest isIGPU entries = some x → isListed x = true := by
  constructor
  · rintro ⟨hreport, -⟩ x hx
    obtain ⟨n, hn⟩ := hreport none
    rw [startV12_eq, hx] at hn
    injection hn with _ _ _ hid
    exact absurd hid (deviceId_ne_zero ((Latest.latest_eq_some_iff _).1 hx).holds)
  · intro h
    have hlatest : Latest.latest isIGPU entries = none := by
      cases hlatest : Latest.latest isIGPU entries with
      | none => rfl
      | some x =>
        have hmem : x ∈ entries.filter isListed :=
          List.mem_filter.2 ⟨((Latest.latest_eq_some_iff _).1 hlatest).mem, h x hlatest⟩
        rw [hnone] at hmem
        exact absurd hmem List.not_mem_nil
    refine ⟨fun provider => ⟨UInt32.ofNat entries.length, ?_⟩, fun lastIntel => ?_⟩
    · rw [startV12_eq, hlatest]
      rfl
    · rw [ScanV13.isFound, scanV13_idv, hlatest]
      rfl

/-- **The scans name the entry v9 matches exactly when no unlisted `0x46xx` entry comes after
it**, and none is there at all if no entry is listed. -/
theorem namesIGPU_iff (entries : List IORegistryEntry) :
    NamesIGPU entries ↔ ((entries.filter isListed).length ≤ 1 → LastHitListed entries) := by
  rw [lastHitListed_iff]
  match hlisted : entries.filter isListed with
  | [] =>
    constructor
    · intro h _
      exact (namesIGPU_none_iff hlisted).1 (h.none hlisted)
    · intro h
      refine ⟨fun e he => ?_, fun _ => (namesIGPU_none_iff hlisted).2 (h (Nat.zero_le 1))⟩
      rw [hlisted] at he
      cases he
  | [e] =>
    constructor
    · intro h _
      exact (namesIGPU_one_iff hlisted).1 (h.one e hlisted)
    · intro h
      refine ⟨fun e' he' => (namesIGPU_one_iff he').2 (h (Nat.le_refl 1)), fun hnone => ?_⟩
      rw [hlisted] at hnone
      cases hnone
  | e :: e' :: rest =>
    constructor
    · intro _ hle
      exact absurd hle (by simp)
    · intro _
      refine ⟨fun e'' he => ?_, fun hnone => ?_⟩
      · rw [hlisted] at he
        cases he
      · rw [hlisted] at hnone
        cases hnone

def pciEntry (vendor device : UInt16) : IORegistryEntry where
  getProperty := fun key =>
    if key = "vendor-id" then some (.data [vendor.toUInt8, (vendor >>> 8).toUInt8, 0, 0])
    else if key = "device-id" then some (.data [device.toUInt8, (device >>> 8).toUInt8, 0, 0])
    else none

/-- The iGPU `8086:46a6` followed by the `8086:461d` of the same chip: v12 reports the latter. -/
theorem startV12_names_neighbour :
    let entries := [pciEntry 0x8086 0x4621, pciEntry 0x8086 0x46A6, pciEntry 0x8086 0x461D]
    (entries.filter isListed).map (readId · "device-id") = [0x46A6] ∧
      startV12 none (some entries) = .ran none 3 0x8086 0x461D ∧ ¬NamesIGPU entries := by
  refine ⟨by decide, by decide, fun h => ?_⟩
  have hone : [pciEntry 0x8086 0x4621, pciEntry 0x8086 0x46A6,
      pciEntry 0x8086 0x461D].filter isListed = [pciEntry 0x8086 0x46A6] := by
    have h1 : isListed (pciEntry 0x8086 0x4621) = false := by decide
    have h2 : isListed (pciEntry 0x8086 0x46A6) = true := by decide
    have h3 : isListed (pciEntry 0x8086 0x461D) = false := by decide
    simp [List.filter, h1, h2, h3]
  obtain ⟨n, hn⟩ := h.one _ hone none
  rw [startV12_eq] at hn
  injection hn with _ _ _ hid
  exact absurd hid (by decide)

end HonorFB
