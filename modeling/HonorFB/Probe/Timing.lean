import HonorFB.Probe.Model
import HonorFB.Scan.Outcome

/-!
# The scans in time

PCI enumeration goes on while the probes look. v12 waits for the first device and looks once; v13
looks every two seconds for half a minute. When they look is the kernel's: `Turns` and `Wait` say
what is relied on of `IOSleep` and of `waitForMatchingService`. Over a registry that changes in time
v13 reports an iGPU at the first look after its registration (`honorScanThread_timing`), and v12
names it exactly if it is there when the wait is over (`scans_race`).
-/

namespace HonorFB

/-- The PCI devices of the registry, by milliseconds from `start`. -/
abbrev Registry := Nat → List IORegistryEntry

/-- When the turns of the scan thread look at the registry. `IOSleep(2000)` sleeps two seconds at
least; with the scan before it, a turn takes `late` milliseconds more at most. -/
structure Turns (late : Nat) where
  time : Nat → Nat
  begins : time 0 = 0
  sleeps : ∀ k, time k + 2000 ≤ time (k + 1)
  punctual : ∀ k, time (k + 1) ≤ time k + 2000 + late

namespace Turns

variable {late : Nat} (turns : Turns late)

theorem le_time (k : Nat) : 2000 * k ≤ turns.time k := by
  induction k with
  | zero => exact Nat.zero_le _
  | succ k ih =>
    have hsleeps := turns.sleeps k
    omega

theorem time_mono {k k' : Nat} (h : k ≤ k') : turns.time k ≤ turns.time k' := by
  induction h with
  | refl => exact Nat.le_refl _
  | step _ ih =>
    apply Nat.le_trans ih
    apply Nat.le_trans _ (turns.sleeps _)
    exact Nat.le_add_right _ _

end Turns

namespace Registry

variable (registry : Registry)

def HasIGPU (t : Nat) : Prop := ∃ e ∈ registry t, Is46xx e

/-- An iGPU that is registered stays registered. -/
def Stays : Prop := ∀ t t', t ≤ t' → registry.HasIGPU t → registry.HasIGPU t'

/-- What the iterators of the turns list: the devices that are registered then. -/
def snapshots {late : Nat} (turns : Turns late) : Vector (Option (List IORegistryEntry)) 15 :=
  Vector.ofFn fun i => some (registry (turns.time (i.val + 1)))

/-- `IOService::waitForMatchingService` of v12 returns at `returned`, with a device registered or at
the timeout of five seconds, and the scan behind it lists what is registered at `scan`, at most
`late` milliseconds after the timeout. -/
structure Wait (late returned scan : Nat) : Prop where
  matched : returned < 5000 → registry returned ≠ []
  behind : returned ≤ scan
  punctual : scan ≤ 5000 + late

/-- `HonorFB_v12::start`, which scans at this moment. -/
def bootV12 (provider : Option String) (scan : Nat) : Panic :=
  startV12 provider (some (registry scan))

/-- What becomes of `HonorFB_v13::start`: the panic of its thread, if that could be started. -/
def bootV13 (kernel_thread_start : Bool) {late : Nat} (turns : Turns late) : Option Panic :=
  if (startV13 kernel_thread_start).2 then some (honorScanThread (registry.snapshots turns))
  else none

variable {registry} {late : Nat} {turns : Turns late}

/-! ## The turns -/

theorem snapshots_toList :
    (registry.snapshots turns).toList =
      (List.range 15).map fun i => some (registry (turns.time (i + 1))) := by
  unfold snapshots
  rw [Vector.toList_ofFn]
  rfl

/-- The turns before the first hit saw no iGPU, and the hit is the next turn. -/
theorem hit_at {earlier later : List (Option (List IORegistryEntry))}
    {it : Option (List IORegistryEntry)}
    (hsplit : (registry.snapshots turns).toList = earlier ++ it :: later)
    (hearlier : ∀ it' ∈ earlier, Latest.latest isIGPU (entriesOf it') = none) :
    earlier.length < 15 ∧ it = some (registry (turns.time (earlier.length + 1))) ∧
      ∀ k, k < earlier.length → ¬registry.HasIGPU (turns.time (k + 1)) := by
  rw [snapshots_toList] at hsplit
  have hlength : earlier.length < 15 := by
    have hcount := congrArg List.length hsplit
    simp only [List.length_map, List.length_range, List.length_append, List.length_cons] at hcount
    omega
  have hget : ∀ k, k < 15 →
      (earlier ++ it :: later)[k]? = some (some (registry (turns.time (k + 1)))) := by
    intro k hk
    rw [← hsplit, List.getElem?_map, List.getElem?_range hk]
    rfl
  refine ⟨hlength, ?_, ?_⟩
  · have hhit := hget earlier.length hlength
    rw [List.getElem?_append_right (Nat.le_refl _), Nat.sub_self, List.getElem?_cons_zero] at hhit
    exact Option.some.inj hhit
  · intro k hk hhas
    have hmiss := hget k (by omega)
    rw [List.getElem?_append_left hk] at hmiss
    have hnone := hearlier _ (List.mem_of_getElem? hmiss)
    obtain ⟨e, he, hform⟩ := hhas
    exact latest_isIGPU_eq_none_iff.1 hnone e he hform

/-- Before the first hit at turn `k` there was no iGPU. -/
theorem time_lt_of_miss (hstays : registry.Stays) {k : Nat}
    (hmiss : ∀ i, i < k → ¬registry.HasIGPU (turns.time (i + 1))) {t : Nat}
    (hhas : registry.HasIGPU t) :
    k = 0 ∨ turns.time (k + 1) < t + (2000 + late) := by
  cases k with
  | zero => exact Or.inl rfl
  | succ k =>
    right
    have hbefore : turns.time (k + 1) < t := by
      apply Nat.lt_of_not_le
      intro hle
      exact hmiss k (Nat.lt_succ_self k) (hstays t _ hle hhas)
    have hpunctual := turns.punctual (k + 1)
    omega

theorem found_in_time (hstays : registry.Stays) (hhas : registry.HasIGPU (turns.time 15)) :
    ∃ k e, 1 ≤ k ∧ k ≤ 15 ∧ honorScanThread (registry.snapshots turns) =
        .found (readId e "vendor-id") (readId e "device-id") (2 * k)
          (UInt32.ofNat (registry (turns.time k)).length) ∧
      Latest.IsLatest Is46xx (registry (turns.time k)) e ∧ 1000 * (2 * k) ≤ turns.time k ∧
      ∀ t, registry.HasIGPU t → k = 1 ∨ turns.time k < t + (2000 + late) := by
  obtain ⟨e, he, hform⟩ := hhas
  have hlast : some (registry (turns.time 15)) ∈ (registry.snapshots turns).toList := by
    rw [snapshots_toList, List.mem_map]
    exact ⟨14, List.mem_range.2 (by omega), rfl⟩
  obtain ⟨earlier, it, later, e, hsplit, hearlier, hlatest⟩ := exists_first_hit
    ⟨_, hlast, (Latest.latest_isSome_iff _).2 ⟨e, he, (isIGPU_eq_true_iff e).2 hform⟩⟩
  obtain ⟨hlength, rfl, hmiss⟩ := hit_at hsplit hearlier
  have hpanic : honorScanThread (registry.snapshots turns) = .found (readId e "vendor-id")
      (readId e "device-id") ((1 + earlier.length) * 2)
      (UInt32.ofNat (registry (turns.time (earlier.length + 1))).length) := by
    unfold honorScanThread
    rw [hsplit, scanFrom_append_of_miss earlier _ hearlier, scanFrom_hit _ _ _ later hlatest]
    rfl
  have hseconds : (1 + earlier.length) * 2 = 2 * (earlier.length + 1) := by omega
  have hle := turns.le_time (earlier.length + 1)
  rw [hseconds] at hpanic
  refine ⟨earlier.length + 1, e, by omega, by omega, hpanic, latest_isIGPU_iff.1 hlatest,
    by omega, fun t hhas => ?_⟩
  rcases time_lt_of_miss hstays hmiss hhas with hfirst | hlate
  · exact Or.inl (by omega)
  · exact Or.inr hlate

theorem missing_in_time (hstays : registry.Stays) (hnone : ¬registry.HasIGPU (turns.time 15)) :
    honorScanThread (registry.snapshots turns) =
      .noIGPU (maxCount 0 (registry.snapshots turns).toList)
        (lastIntelDevice 0 (registry.snapshots turns).toList) := by
  have hall : ∀ it ∈ (registry.snapshots turns).toList,
      Latest.latest isIGPU (entriesOf it) = none := by
    intro it hit
    rw [snapshots_toList, List.mem_map] at hit
    obtain ⟨k, hk, hsnapshot⟩ := hit
    have hk' := List.mem_range.1 hk
    rw [← hsnapshot]
    apply latest_isIGPU_eq_none_iff.2
    intro e he hform
    exact hnone (hstays _ _ (turns.time_mono (by omega)) ⟨e, he, hform⟩)
  have hrun := scanFrom_append_of_miss (registry.snapshots turns).toList [] hall 1 0 0
  rw [List.append_nil] at hrun
  exact hrun

/-- **The scan thread reports an iGPU at its first look after the registration**, with the second
its turn counts, which has passed by then; without one by the last look, half a minute from the
start or later, it reports its totals. -/
theorem honorScanThread_timing (hstays : registry.Stays) (turns : Turns late) :
    (registry.HasIGPU (turns.time 15) →
      ∃ k e, 1 ≤ k ∧ k ≤ 15 ∧ honorScanThread (registry.snapshots turns) =
          .found (readId e "vendor-id") (readId e "device-id") (2 * k)
            (UInt32.ofNat (registry (turns.time k)).length) ∧
        Latest.IsLatest Is46xx (registry (turns.time k)) e ∧ 1000 * (2 * k) ≤ turns.time k ∧
        ∀ t, registry.HasIGPU t → k = 1 ∨ turns.time k < t + (2000 + late)) ∧
    (¬registry.HasIGPU (turns.time 15) → honorScanThread (registry.snapshots turns) =
      .noIGPU (maxCount 0 (registry.snapshots turns).toList)
        (lastIntelDevice 0 (registry.snapshots turns).toList)) ∧
    30000 ≤ turns.time 15 :=
  ⟨found_in_time hstays, missing_in_time hstays, turns.le_time 15⟩

/-- An NVMe drive at once, and the iGPU a second later. -/
def lateIGPU : Registry := fun t =>
  pciEntry 0x144D 0xA80A :: if 1000 ≤ t then [pciEntry 0x8086 0x46A3] else []

theorem lateIGPU_hasIGPU_iff (t : Nat) : lateIGPU.HasIGPU t ↔ 1000 ≤ t := by
  have hdrive : ¬Is46xx (pciEntry 0x144D 0xA80A) := by
    rw [← isIGPU_eq_true_iff]
    decide
  have higpu : Is46xx (pciEntry 0x8086 0x46A3) := by
    rw [← isIGPU_eq_true_iff]
    decide
  unfold HasIGPU lateIGPU
  by_cases ht : 1000 ≤ t <;> simp [ht, hdrive, higpu]

theorem lateIGPU_stays : lateIGPU.Stays := by
  intro t t' hle h
  rw [lateIGPU_hasIGPU_iff] at h ⊢
  omega

/-- Every turn takes three milliseconds more than its sleep. -/
def slowTurns : Turns 5 where
  time := fun k => 2003 * k
  begins := rfl
  sleeps := fun k => by omega
  punctual := fun k => by omega

theorem honorScanThread_timing_late :
    ∃ k e, 1 ≤ k ∧ k ≤ 15 ∧ honorScanThread (lateIGPU.snapshots slowTurns) =
        .found (readId e "vendor-id") (readId e "device-id") (2 * k)
          (UInt32.ofNat (lateIGPU (slowTurns.time k)).length) ∧
      Latest.IsLatest Is46xx (lateIGPU (slowTurns.time k)) e ∧
      1000 * (2 * k) ≤ slowTurns.time k ∧
      ∀ t, lateIGPU.HasIGPU t → k = 1 ∨ slowTurns.time k < t + (2000 + 5) :=
  (honorScanThread_timing lateIGPU_stays slowTurns).1 ((lateIGPU_hasIGPU_iff _).2 (by decide))

/-! ## The wait of v12 -/

/-- The report of v12 has the ids of an iGPU that is there. -/
def NamesIGPU (registry : Registry) (provider : Option String) (scan : Nat) : Prop :=
  ∃ e n, e ∈ registry scan ∧ Is46xx e ∧
    registry.bootV12 provider scan = .ran provider n (readId e "vendor-id") (readId e "device-id")

theorem namesIGPU_iff_hasIGPU (provider : Option String) (scan : Nat) :
    registry.NamesIGPU provider scan ↔ registry.HasIGPU scan := by
  constructor
  · intro h
    obtain ⟨e, n, he, hform, -⟩ := h
    exact ⟨e, he, hform⟩
  · intro h
    obtain ⟨e, he, hform⟩ := h
    obtain ⟨x, hx⟩ := Option.isSome_iff_exists.1
      ((Latest.latest_isSome_iff isIGPU).2 ⟨e, he, (isIGPU_eq_true_iff e).2 hform⟩)
    have hlast := latest_isIGPU_iff.1 hx
    refine ⟨x, UInt32.ofNat (registry scan).length, hlast.mem, hlast.holds, ?_⟩
    unfold bootV12
    rw [startV12_eq, hx]
    rfl

/-- An iGPU that comes within the timeout is there when the wait is over, or another device has
ended the wait. -/
theorem Wait.hasIGPU_or {returned scan : Nat} (hwait : registry.Wait late returned scan)
    (hstays : registry.Stays) {t : Nat} (ht : t < 5000) (hhas : registry.HasIGPU t) :
    registry.HasIGPU scan ∨ returned < t ∧ ∃ e ∈ registry returned, ¬Is46xx e := by
  by_cases hscan : registry.HasIGPU scan
  · exact Or.inl hscan
  · right
    have hlater : scan < t := by
      apply Nat.lt_of_not_le
      intro hle
      exact hscan (hstays t scan hle hhas)
    have hreturned : returned < t := Nat.lt_of_le_of_lt hwait.behind hlater
    obtain ⟨e, he⟩ := List.exists_mem_of_ne_nil _ (hwait.matched (Nat.lt_trans hreturned ht))
    refine ⟨hreturned, e, he, fun hform => ?_⟩
    exact hscan (hstays returned scan hwait.behind ⟨e, he, hform⟩)

/-- **v12 names an iGPU exactly if one is registered when its wait is over**; it misses one that
comes within the timeout only if another device has ended the wait. v13 finds whatever v12 names, on
the same registry or on one where nothing holds the enumeration up. -/
theorem scans_race (hstays : registry.Stays) {returned scan : Nat}
    (hwait : registry.Wait late returned scan) (provider : Option String) :
    (registry.NamesIGPU provider scan ↔ registry.HasIGPU scan) ∧
    (∀ t, t < 5000 → registry.HasIGPU t → registry.NamesIGPU provider scan ∨
      returned < t ∧ ∃ e ∈ registry returned, ¬Is46xx e) ∧
    ∀ freely : Registry, freely.Stays → (∀ t, registry.HasIGPU t → freely.HasIGPU t) →
      late ≤ 25000 → registry.NamesIGPU provider scan → ∀ {late' : Nat} (turns : Turns late'),
        ∃ iv idv seconds n, freely.bootV13 true turns = some (.found iv idv seconds n) := by
  have hnames := registry.namesIGPU_iff_hasIGPU provider scan
  refine ⟨hnames, fun t ht hhas => ?_, fun freely hfreely hsooner hlate h late' turns => ?_⟩
  · rw [hnames]
    exact hwait.hasIGPU_or hstays ht hhas
  · have hscan : scan ≤ turns.time 15 := by
      have hpunctual := hwait.punctual
      have hlast := turns.le_time 15
      omega
    have hhas := hfreely scan _ hscan (hsooner scan (hnames.1 h))
    obtain ⟨k, e, -, -, hpanic, -⟩ := found_in_time hfreely hhas
    exact ⟨_, _, 2 * k, _, congrArg some hpanic⟩

theorem lateIGPU_wait {scan : Nat} (h : scan ≤ 5000) : lateIGPU.Wait 0 0 scan where
  matched := fun _ => List.cons_ne_nil _ _
  behind := Nat.zero_le scan
  punctual := h

/-- The drive ends the wait of v12 at once. A scan right then misses the iGPU; one that is held up
for a second names it, and v13 finds it. -/
theorem scans_race_late :
    (¬lateIGPU.NamesIGPU none 1 ∧
      (lateIGPU.NamesIGPU none 1 ∨ 0 < 1000 ∧ ∃ e ∈ lateIGPU 0, ¬Is46xx e)) ∧
    ∃ iv idv seconds n, lateIGPU.bootV13 true slowTurns = some (.found iv idv seconds n) := by
  have hhas := (lateIGPU_hasIGPU_iff 1000).2 (Nat.le_refl _)
  obtain ⟨hmisses, hmissed, -⟩ := scans_race lateIGPU_stays (@lateIGPU_wait 1 (by omega)) none
  obtain ⟨hnames, -, hfinds⟩ := scans_race lateIGPU_stays (@lateIGPU_wait 1000 (by omega)) none
  refine ⟨⟨?_, hmissed 1000 (by omega) hhas⟩, ?_⟩
  · rw [hmisses, lateIGPU_hasIGPU_iff]
    omega
  · exact hfinds lateIGPU lateIGPU_stays (fun _ h => h) (by omega) (hnames.2 hhas) slowTurns

end Registry

end HonorFB
