import Mathlib.Order.Bounds.Defs
import HonorFB.Scan.Identity

/-!
# The outcome of the scan thread

`honorScanThread` looks at fifteen snapshots of the registry. It stops at the first one that has an
Intel entry of the form `0x46xx`, or reports after the last one how many entries the largest
snapshot had and the last Intel device seen. `ThreadOutcome` states this of the snapshots alone; the
counters of the code are 32-bit words, so it counts the entries modulo `2 ^ 32`
(`honorScanThread_outcome`).
-/

namespace HonorFB

/-- The entries of a snapshot. Without an iterator there are none. -/
def entriesOf (it : Option (List IORegistryEntry)) : List IORegistryEntry := it.getD []

def IsIntel (e : IORegistryEntry) : Prop := readId e "vendor-id" = 0x8086

def Is46xx (e : IORegistryEntry) : Prop :=
  IsIntel e ∧ (readId e "device-id").toNat / 256 = 0x46

/-- What the thread panics with, as a statement about the snapshots. `count` is how many entries
the report says a snapshot has. -/
structure ThreadOutcome (count : List IORegistryEntry → Nat)
    (snapshots : List (List IORegistryEntry)) (panic : Panic) : Prop where
  found : (∃ entries ∈ snapshots, ∃ e ∈ entries, Is46xx e) →
    ∃ earlier entries later e n, snapshots = earlier ++ entries :: later ∧
      (∀ es ∈ earlier, ∀ e ∈ es, ¬Is46xx e) ∧ Latest.IsLatest Is46xx entries e ∧
      panic = .found (readId e "vendor-id") (readId e "device-id") (2 * (earlier.length + 1)) n ∧
      n.toNat = count entries
  missing : (∀ entries ∈ snapshots, ∀ e ∈ entries, ¬Is46xx e) →
    ∃ maxN lastIntel, panic = .noIGPU maxN lastIntel ∧
      IsGreatest {n | ∃ entries ∈ snapshots, count entries = n} maxN.toNat ∧
      ((∃ entries ∈ snapshots, ∃ e ∈ entries, IsIntel e) →
        ∃ entries e, Latest.IsLatest (fun es => ∃ e ∈ es, IsIntel e) snapshots entries ∧
          Latest.IsLatest IsIntel entries e ∧ lastIntel = readId e "device-id") ∧
      ((∀ entries ∈ snapshots, ∀ e ∈ entries, ¬IsIntel e) → lastIntel = 0)

/-- The two reports agree on the verdict, the time and the counts. -/
def SameVerdict : Panic → Panic → Prop
  | .found _ _ seconds n, .found _ _ seconds' n' => seconds = seconds' ∧ n = n'
  | .noIGPU maxN _, .noIGPU maxN' _ => maxN = maxN'
  | _, _ => False

theorem isIntel_eq_true_iff (e : IORegistryEntry) : isIntel e = true ↔ IsIntel e := by
  rw [isIntel, beq_iff_eq, IsIntel]

theorem isIGPU_eq_true_iff (e : IORegistryEntry) : isIGPU e = true ↔ Is46xx e := isIGPU_iff e

theorem latest_isIGPU_iff {entries : List IORegistryEntry} {e : IORegistryEntry} :
    Latest.latest isIGPU entries = some e ↔ Latest.IsLatest Is46xx entries e := by
  rw [Latest.latest_eq_some_iff]
  simp only [isIGPU_eq_true_iff]

/-! ## One turn -/

theorem scanV13_eq (lastIntel : UInt32) (it : Option (List IORegistryEntry)) :
    scanV13 lastIntel it =
      { n := UInt32.ofNat (entriesOf it).length
        iv := ((Latest.latest isIGPU (entriesOf it)).map (readId · "vendor-id")).getD 0
        idv := ((Latest.latest isIGPU (entriesOf it)).map (readId · "device-id")).getD 0
        lastIntel :=
          ((Latest.latest isIntel (entriesOf it)).map (readId · "device-id")).getD lastIntel } := by
  cases it with
  | none => rfl
  | some entries =>
    unfold scanV13 entriesOf
    simp only [ScanV13.foldl_step, UInt32.zero_add, Option.getD_some]

theorem scanV13_isFound (lastIntel : UInt32) (it : Option (List IORegistryEntry)) :
    (scanV13 lastIntel it).isFound = (Latest.latest isIGPU (entriesOf it)).isSome := by
  rw [ScanV13.isFound, scanV13_eq]
  cases hlatest : Latest.latest isIGPU (entriesOf it) with
  | none => rfl
  | some e =>
    have hne := deviceId_ne_zero ((Latest.latest_eq_some_iff _).1 hlatest).holds
    simpa using hne

theorem scanFrom_hit (i : Nat) (maxN lastIntel : UInt32) {it : Option (List IORegistryEntry)}
    (later : List (Option (List IORegistryEntry))) {e : IORegistryEntry}
    (h : Latest.latest isIGPU (entriesOf it) = some e) :
    scanFrom i maxN lastIntel (it :: later) =
      .found (readId e "vendor-id") (readId e "device-id") (i * 2)
        (UInt32.ofNat (entriesOf it).length) := by
  have hfound : (scanV13 lastIntel it).isFound = true := by
    rw [scanV13_isFound, h]
    rfl
  unfold scanFrom
  simp only [hfound, if_true]
  rw [scanV13_eq, h]
  rfl

def maxCount (maxN : UInt32) (snapshots : List (Option (List IORegistryEntry))) : UInt32 :=
  snapshots.foldl (fun maxN it =>
    if UInt32.ofNat (entriesOf it).length > maxN then UInt32.ofNat (entriesOf it).length
    else maxN) maxN

def lastIntelDevice (lastIntel : UInt32) (snapshots : List (Option (List IORegistryEntry))) :
    UInt32 :=
  ((Latest.latest isIntel (snapshots.map entriesOf).flatten).map
    (readId · "device-id")).getD lastIntel

/-- Snapshots without a hit are passed over, and only the carried locals change. -/
theorem scanFrom_append_of_miss (earlier later : List (Option (List IORegistryEntry)))
    (h : ∀ it ∈ earlier, Latest.latest isIGPU (entriesOf it) = none) :
    ∀ (i : Nat) (maxN lastIntel : UInt32),
      scanFrom i maxN lastIntel (earlier ++ later) =
        scanFrom (i + earlier.length) (maxCount maxN earlier) (lastIntelDevice lastIntel earlier)
          later := by
  induction earlier with
  | nil => intro i maxN lastIntel; rfl
  | cons it earlier ih =>
    intro i maxN lastIntel
    have hmiss : (scanV13 lastIntel it).isFound = false := by
      rw [scanV13_isFound, h it List.mem_cons_self]
      rfl
    have hcarry : lastIntelDevice (scanV13 lastIntel it).lastIntel earlier =
        lastIntelDevice lastIntel (it :: earlier) := by
      unfold lastIntelDevice
      rw [scanV13_eq, List.map_cons, List.flatten_cons, Latest.latest_append]
      cases Latest.latest isIntel (earlier.map entriesOf).flatten <;> rfl
    rw [List.cons_append, scanFrom]
    simp only [hmiss, Bool.false_eq_true, if_false]
    rw [ih (fun it hit => h it (List.mem_cons_of_mem _ hit)), hcarry, List.length_cons,
      Nat.add_assoc, Nat.add_comm 1, scanV13_eq]
    rfl

theorem maxCount_spec (snapshots : List (Option (List IORegistryEntry))) :
    ∀ maxN : UInt32, maxN.toNat ≤ (maxCount maxN snapshots).toNat ∧
      (∀ it ∈ snapshots, (entriesOf it).length % 2 ^ 32 ≤ (maxCount maxN snapshots).toNat) ∧
      (maxCount maxN snapshots = maxN ∨
        ∃ it ∈ snapshots, (entriesOf it).length % 2 ^ 32 = (maxCount maxN snapshots).toNat) := by
  induction snapshots with
  | nil => intro maxN; exact ⟨Nat.le_refl _, by simp, Or.inl rfl⟩
  | cons it snapshots ih =>
    intro maxN
    have hn : (UInt32.ofNat (entriesOf it).length).toNat = (entriesOf it).length % 2 ^ 32 :=
      UInt32.toNat_ofNat
    have hcons : maxCount maxN (it :: snapshots) =
        maxCount (if UInt32.ofNat (entriesOf it).length > maxN
          then UInt32.ofNat (entriesOf it).length else maxN) snapshots := rfl
    rw [hcons]
    by_cases hgt : UInt32.ofNat (entriesOf it).length > maxN
    · rw [if_pos hgt]
      obtain ⟨hle, hall, hattained⟩ := ih (UInt32.ofNat (entriesOf it).length)
      have hlt := UInt32.lt_iff_toNat_lt.1 hgt
      refine ⟨by omega, fun it' hit' => ?_, Or.inr ?_⟩
      · rcases List.mem_cons.1 hit' with rfl | hit'
        · omega
        · exact hall it' hit'
      · rcases hattained with heq | ⟨it', hit', heq⟩
        · exact ⟨it, List.mem_cons_self, by rw [heq, hn]⟩
        · exact ⟨it', List.mem_cons_of_mem _ hit', heq⟩
    · rw [if_neg hgt]
      obtain ⟨hle, hall, hattained⟩ := ih maxN
      have hge := UInt32.le_iff_toNat_le.1 (UInt32.not_lt.1 hgt)
      refine ⟨hle, fun it' hit' => ?_, ?_⟩
      · rcases List.mem_cons.1 hit' with rfl | hit'
        · omega
        · exact hall it' hit'
      · rcases hattained with heq | ⟨it', hit', heq⟩
        · exact Or.inl heq
        · exact Or.inr ⟨it', List.mem_cons_of_mem _ hit', heq⟩

theorem maxCount_isGreatest {snapshots : List (Option (List IORegistryEntry))}
    (hne : snapshots ≠ []) :
    IsGreatest {n | ∃ entries ∈ snapshots.map entriesOf, entries.length % 2 ^ 32 = n}
      (maxCount 0 snapshots).toNat := by
  obtain ⟨-, hall, hattained⟩ := maxCount_spec snapshots 0
  refine ⟨?_, ?_⟩
  · rcases hattained with hzero | ⟨it, hit, heq⟩
    · -- the maximum is 0, so the first snapshot has it too
      obtain ⟨it, rest, rfl⟩ := List.exists_cons_of_ne_nil hne
      have hle := hall it List.mem_cons_self
      rw [hzero] at hle ⊢
      exact ⟨entriesOf it, List.mem_map_of_mem List.mem_cons_self, Nat.le_zero.1 hle⟩
    · exact ⟨entriesOf it, List.mem_map_of_mem hit, heq⟩
  · rintro n ⟨entries, hmem, rfl⟩
    obtain ⟨it, hit, rfl⟩ := List.mem_map.1 hmem
    exact hall it hit

/-! ## The whole run -/

theorem exists_first_hit {snapshots : List (Option (List IORegistryEntry))}
    (h : ∃ it ∈ snapshots, (Latest.latest isIGPU (entriesOf it)).isSome = true) :
    ∃ earlier it later e, snapshots = earlier ++ it :: later ∧
      (∀ it' ∈ earlier, Latest.latest isIGPU (entriesOf it') = none) ∧
      Latest.latest isIGPU (entriesOf it) = some e := by
  have hfind : (snapshots.find? fun it => (Latest.latest isIGPU (entriesOf it)).isSome).isSome =
      true := List.find?_isSome.2 h
  obtain ⟨it, hit⟩ := Option.isSome_iff_exists.1 hfind
  obtain ⟨hsome, earlier, later, hsplit, hearlier⟩ := List.find?_eq_some_iff_append.1 hit
  obtain ⟨e, he⟩ := Option.isSome_iff_exists.1 hsome
  refine ⟨earlier, it, later, e, hsplit, fun it' hit' => ?_, he⟩
  simpa using hearlier it' hit'

theorem latest_isIGPU_eq_none_iff {entries : List IORegistryEntry} :
    Latest.latest isIGPU entries = none ↔ ∀ e ∈ entries, ¬Is46xx e := by
  rw [Latest.latest_eq_none_iff]
  simp only [isIGPU_eq_true_iff]

theorem lastIntelDevice_spec (snapshots : List (Option (List IORegistryEntry))) :
    ((∃ entries ∈ snapshots.map entriesOf, ∃ e ∈ entries, IsIntel e) →
      ∃ entries e, Latest.IsLatest (fun es => ∃ e ∈ es, IsIntel e) (snapshots.map entriesOf)
          entries ∧ Latest.IsLatest IsIntel entries e ∧
        lastIntelDevice 0 snapshots = readId e "device-id") ∧
    ((∀ entries ∈ snapshots.map entriesOf, ∀ e ∈ entries, ¬IsIntel e) →
      lastIntelDevice 0 snapshots = 0) := by
  have hany : ∀ es : List IORegistryEntry, es.any isIntel = true ↔ ∃ e ∈ es, IsIntel e := by
    intro es
    simp only [List.any_eq_true, isIntel_eq_true_iff]
  unfold lastIntelDevice
  rw [Latest.latest_flatten]
  cases hsnapshot : Latest.latest (List.any · isIntel) (snapshots.map entriesOf) with
  | none =>
    rw [Latest.latest_eq_none_iff] at hsnapshot
    refine ⟨?_, fun _ => rfl⟩
    rintro ⟨entries, hentries, hintel⟩
    exact absurd ((hany entries).2 hintel) (hsnapshot entries hentries)
  | some entries =>
    have hentries := (Latest.latest_eq_some_iff _).1 hsnapshot
    simp only [hany] at hentries
    obtain ⟨e, he⟩ : ∃ e, Latest.latest isIntel entries = some e := by
      rw [← Option.isSome_iff_exists, Latest.latest_isSome_iff]
      simpa only [isIntel_eq_true_iff] using hentries.holds
    rw [Option.bind_some, he]
    refine ⟨fun _ => ⟨entries, e, hentries, ?_, rfl⟩, fun hno => ?_⟩
    · have hlast := (Latest.latest_eq_some_iff _).1 he
      simpa only [isIntel_eq_true_iff] using hlast
    · obtain ⟨e', he', hintel⟩ := hentries.holds
      exact absurd hintel (hno entries hentries.mem e' he')

theorem scanFrom_outcome {snapshots : List (Option (List IORegistryEntry))}
    (hne : snapshots ≠ []) :
    ThreadOutcome (fun entries => entries.length % 2 ^ 32) (snapshots.map entriesOf)
      (scanFrom 1 0 0 snapshots) := by
  refine ⟨?_, ?_⟩
  · rintro ⟨entries, hentries, e, he, hhit⟩
    obtain ⟨it, hit, rfl⟩ := List.mem_map.1 hentries
    obtain ⟨earlier, it, later, e, rfl, hearlier, hlatest⟩ := exists_first_hit
      ⟨it, hit, (Latest.latest_isSome_iff _).2 ⟨e, he, (isIGPU_eq_true_iff e).2 hhit⟩⟩
    refine ⟨earlier.map entriesOf, entriesOf it, later.map entriesOf, e,
      UInt32.ofNat (entriesOf it).length, by simp, ?_, latest_isIGPU_iff.1 hlatest, ?_,
      UInt32.toNat_ofNat⟩
    · intro es hes
      obtain ⟨it', hit', rfl⟩ := List.mem_map.1 hes
      exact latest_isIGPU_eq_none_iff.1 (hearlier it' hit')
    · rw [scanFrom_append_of_miss earlier _ hearlier, scanFrom_hit _ _ _ later hlatest,
        List.length_map, Nat.mul_comm, Nat.add_comm 1]
  · intro hmiss
    have hall : ∀ it ∈ snapshots, Latest.latest isIGPU (entriesOf it) = none := fun it hit =>
      latest_isIGPU_eq_none_iff.2 (hmiss _ (List.mem_map_of_mem hit))
    obtain ⟨hintel, hnone⟩ := lastIntelDevice_spec snapshots
    refine ⟨maxCount 0 snapshots, lastIntelDevice 0 snapshots, ?_, maxCount_isGreatest hne,
      hintel, hnone⟩
    have hrun := scanFrom_append_of_miss snapshots [] hall 1 0 0
    rw [List.append_nil] at hrun
    rw [hrun]
    rfl

theorem scanFrom_perm {snapshots snapshots' : List (Option (List IORegistryEntry))}
    (h : List.Forall₂ (fun it it' => (entriesOf it).Perm (entriesOf it')) snapshots snapshots') :
    ∀ (i : Nat) (maxN lastIntel lastIntel' : UInt32),
      SameVerdict (scanFrom i maxN lastIntel snapshots)
        (scanFrom i maxN lastIntel' snapshots') := by
  induction h with
  | nil => intro i maxN lastIntel lastIntel'; rfl
  | @cons it it' snapshots snapshots' hperm _ ih =>
    intro i maxN lastIntel lastIntel'
    have hn : (scanV13 lastIntel it).n = (scanV13 lastIntel' it').n := by
      rw [scanV13_eq, scanV13_eq, hperm.length_eq]
    have hfound : (scanV13 lastIntel it).isFound = (scanV13 lastIntel' it').isFound := by
      rw [scanV13_isFound, scanV13_isFound, Latest.latest_isSome_perm _ hperm]
    unfold scanFrom
    simp only [← hn, ← hfound]
    cases (scanV13 lastIntel it).isFound with
    | true => exact ⟨rfl, rfl⟩
    | false => exact ih _ _ _ _

/-- **The scan thread reports the first snapshot with an iGPU, or the largest one and the last
Intel device**, counting modulo `2 ^ 32`; and reordering entries does not change the verdict, the
time or the counts. -/
theorem honorScanThread_outcome (snapshots : Vector (Option (List IORegistryEntry)) 15) :
    ThreadOutcome (fun entries => entries.length % 2 ^ 32) (snapshots.toList.map entriesOf)
        (honorScanThread snapshots) ∧
      ∀ snapshots' : Vector (Option (List IORegistryEntry)) 15,
        List.Forall₂ (fun it it' => (entriesOf it).Perm (entriesOf it')) snapshots.toList
          snapshots'.toList →
        SameVerdict (honorScanThread snapshots) (honorScanThread snapshots') := by
  refine ⟨scanFrom_outcome ?_, fun snapshots' hperm => scanFrom_perm hperm 1 0 0 0⟩
  intro hnil
  have hlength := snapshots.length_toList
  rw [hnil] at hlength
  exact absurd hlength (by decide)

def firstSnapshot (entries : List IORegistryEntry) :
    Vector (Option (List IORegistryEntry)) 15 :=
  ⟨(some entries :: List.replicate 14 none).toArray, by simp⟩

/-- A snapshot of `2 ^ 32` entries is reported with a count of 0. -/
theorem honorScanThread_count_wraps :
    ¬ThreadOutcome List.length
      ((firstSnapshot (List.replicate (2 ^ 32) (pciEntry 0x8086 0x46A6))).toList.map entriesOf)
      (honorScanThread (firstSnapshot (List.replicate (2 ^ 32) (pciEntry 0x8086 0x46A6)))) := by
  generalize hentries : List.replicate (2 ^ 32) (pciEntry 0x8086 0x46A6) = entries
  have hlength : entries.length = 2 ^ 32 := by rw [← hentries, List.length_replicate]
  have hall : ∀ e ∈ entries, isIGPU e = true := by
    intro e he
    rw [← hentries] at he
    rw [List.eq_of_mem_replicate he]
    decide
  obtain ⟨first, hfirst⟩ : ∃ e, e ∈ entries :=
    List.exists_mem_of_length_pos (by rw [hlength]; exact Nat.two_pow_pos 32)
  obtain ⟨e, hlatest⟩ := Option.isSome_iff_exists.1
    ((Latest.latest_isSome_iff isIGPU).2 ⟨first, hfirst, hall first hfirst⟩)
  have hrun : honorScanThread (firstSnapshot entries) =
      .found (readId e "vendor-id") (readId e "device-id") (1 * 2) 0 := by
    have hhit := @scanFrom_hit 1 0 0 (some entries) (List.replicate 14 none) e hlatest
    rw [show (entriesOf (some entries)).length = 2 ^ 32 from hlength] at hhit
    exact hhit
  intro h
  have hmem : entries ∈ (firstSnapshot entries).toList.map entriesOf :=
    List.mem_map.2 ⟨some entries, List.mem_cons_self, rfl⟩
  obtain ⟨earlier, es, later, e', n, -, -, hlast, hpanic, hcount⟩ :=
    h.found ⟨entries, hmem, first, hfirst, (isIGPU_eq_true_iff first).1 (hall first hfirst)⟩
  rw [hrun] at hpanic
  injection hpanic with _ _ _ hn
  -- a report of no entries, of a snapshot that has one
  rw [← hn] at hcount
  have hpos := List.length_pos_of_mem hlast.mem
  rw [← hcount] at hpos
  exact absurd hpos (by decide)

end HonorFB
