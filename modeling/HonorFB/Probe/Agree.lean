import HonorFB.Probe.Model
import HonorFB.Scan.Outcome

/-!
# The probes name the same iGPU

v11 reads the ids of the provider it was matched on, v12 and v13 those of the entries they
enumerate. v11 prints `0xFFFF` for an id it cannot read and the scans take it for 0, so no probe
takes a device with unreadable ids for an iGPU, and all of them print the same ids for one.
-/

namespace HonorFB

theorem readIdProp_cases (e : IORegistryEntry) (key : String) :
    readIdProp (some e) key = readId e key ∨
      readIdProp (some e) key = 0xFFFF ∧ readId e key = 0 := by
  unfold readIdProp readId
  rw [Option.bind_some]
  rcases e.getProperty key with _ | (⟨_ | ⟨low, _ | ⟨high, rest⟩⟩⟩ | _)
  · exact Or.inr ⟨rfl, rfl⟩
  · exact Or.inr ⟨rfl, rfl⟩
  · exact Or.inr ⟨rfl, rfl⟩
  · exact Or.inl rfl
  · exact Or.inr ⟨rfl, rfl⟩

theorem readIdProp_eq {e : IORegistryEntry} {key : String} (h : readId e key ≠ 0) :
    readIdProp (some e) key = readId e key := by
  rcases readIdProp_cases e key with heq | ⟨-, hzero⟩
  · exact heq
  · exact absurd hzero h

theorem readIdProp_eq_intel_iff (e : IORegistryEntry) :
    readIdProp (some e) "vendor-id" = 0x8086 ↔ readId e "vendor-id" = 0x8086 := by
  rcases readIdProp_cases e "vendor-id" with heq | ⟨hprop, hread⟩
  · rw [heq]
  · rw [hprop, hread]
    decide

theorem readIdProp_form_iff (e : IORegistryEntry) :
    (readIdProp (some e) "device-id").toNat / 256 = 0x46 ↔
      (readId e "device-id").toNat / 256 = 0x46 := by
  rcases readIdProp_cases e "device-id" with heq | ⟨hprop, hread⟩
  · rw [heq]
  · rw [hprop, hread]
    decide

/-- What v11 prints tells an iGPU as the scans do. -/
theorem isIGPU_iff_readIdProp (e : IORegistryEntry) :
    readIdProp (some e) "vendor-id" = 0x8086 ∧
        (readIdProp (some e) "device-id").toNat / 256 = 0x46 ↔
      isIGPU e = true := by
  rw [readIdProp_eq_intel_iff, readIdProp_form_iff, isIGPU_iff]

/-- **v11 prints the ids of an iGPU exactly for an entry the scans take for one**, and where such
an entry is the last of an enumeration, v12 and a turn of v13 print the same ids. -/
theorem startV11_agrees (p : Provider) :
    ∃ vend dev, startV11 (some p) = .matchedV11 (some p.className) vend dev ∧
      (vend = 0x8086 ∧ dev.toNat / 256 = 0x46 ↔ Is46xx p.entry) ∧
      ∀ entries, Latest.IsLatest Is46xx entries p.entry →
        (∀ provider, ∃ n, startV12 provider (some entries) = .ran provider n vend dev) ∧
        ∀ (snapshots : Vector (Option (List IORegistryEntry)) 15) earlier later,
          snapshots.toList = earlier ++ some entries :: later →
          (∀ it ∈ earlier, ∀ e ∈ entriesOf it, ¬Is46xx e) →
          ∃ n, honorScanThread snapshots = .found vend dev (2 * (earlier.length + 1)) n := by
  refine ⟨_, _, rfl, ?_, ?_⟩
  · show readIdProp (some p.entry) "vendor-id" = 0x8086 ∧
      (readIdProp (some p.entry) "device-id").toNat / 256 = 0x46 ↔ Is46xx p.entry
    rw [isIGPU_iff_readIdProp, isIGPU_eq_true_iff]
  · intro entries hlast
    have hvendor : readIdProp (some p.entry) "vendor-id" = readId p.entry "vendor-id" := by
      apply readIdProp_eq
      rw [hlast.holds.1]
      decide
    have hdevice : readIdProp (some p.entry) "device-id" = readId p.entry "device-id" :=
      readIdProp_eq (deviceId_ne_zero ((isIGPU_eq_true_iff _).2 hlast.holds))
    have hlatest : Latest.latest isIGPU entries = some p.entry := latest_isIGPU_iff.2 hlast
    show (∀ provider, ∃ n, startV12 provider (some entries) =
        .ran provider n (readIdProp (some p.entry) "vendor-id")
          (readIdProp (some p.entry) "device-id")) ∧ _
    refine ⟨fun provider => ⟨UInt32.ofNat entries.length, ?_⟩, ?_⟩
    · rw [startV12_eq, hlatest, hvendor, hdevice]
      rfl
    · intro snapshots earlier later hsplit hearlier
      have hmiss : ∀ it ∈ earlier, Latest.latest isIGPU (entriesOf it) = none :=
        fun it hit => latest_isIGPU_eq_none_iff.2 (hearlier it hit)
      refine ⟨UInt32.ofNat entries.length, ?_⟩
      show scanFrom 1 0 0 snapshots.toList = .found (readIdProp (some p.entry) "vendor-id")
        (readIdProp (some p.entry) "device-id") _ _
      rw [hsplit, scanFrom_append_of_miss earlier _ hmiss,
        @scanFrom_hit _ _ _ (some entries) later _ hlatest, hvendor, hdevice, Nat.mul_comm,
        Nat.add_comm 1]
      rfl

end HonorFB
