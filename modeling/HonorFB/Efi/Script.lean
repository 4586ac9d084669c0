import HonorFB.Efi.Edits
import HonorFB.Lib.Failstop

/-!
# Runs of the script

The script builds the three variants in order and stops at the first command that fails: reading the
config where the base has none, or copying a kext that is not there. Removing, creating and writing
files does not fail here. What a run does not get to stays from the runs before it, so a variant is
what the last run left that got to it (`runs_leave`), which need not be the last run.
-/

namespace HonorFB.Efi

open Replace

/-- What a run finds: the `OC\config.plist` of the base, the directories that are there, and the
validator. -/
structure Host where
  config : Option Text
  directory : Text → Bool
  ocv : Option (Text → Text)

/-- `Copy-Item` of a directory that is not there is an error. -/
def Progress.copyKextOn (host : Host) (p : Progress) (kextDir : Text) : Except Progress Progress :=
  if host.directory kextDir then .ok (p.copyKext kextDir) else .error p

/-- `Build` under `$ErrorActionPreference = 'Stop'`. An error tells where it stopped. -/
def buildOn (host : Host) (r : Request) : Except Progress Progress :=
  match host.config with
  | none => .error ⟨⟨none, []⟩, [], []⟩
  | some base => do
    let p := copyBase base
    let p := p.patch r.name "boot-args".toList (bootArgs r.boot)
    let p ← match r.kext with
      | some k => do
        let p ← p.copyKextOn host k.dir
        pure (p.patch r.name "Kernel/Add".toList (kernelAdd k))
      | none => pure p
    let p := if r.neutralize then
        p.patch r.name "DeviceProperties".toList deviceProperties
      else p
    return p.write.validate r.name host.ocv

/-- The calls of `Build`. -/
def script : List Request := [variantA, variantB, variantC]

/-- `efi-variants`: the directory of each name. -/
abbrev Root := Text → Option VariantDir

namespace Host

/-- The directory that `Build` has made when it returns or stops. -/
def left (host : Host) (r : Request) : VariantDir :=
  match buildOn host r with
  | .ok p => p.dir
  | .error p => p.dir

def completes (host : Host) (r : Request) : Bool := (buildOn host r).isOk

/-- A run gets to the call. -/
def reaches (host : Host) (r : Request) : Bool :=
  Failstop.reaches Request.name completes script r host

end Host

/-- The script, and whether it gets to its end. -/
def runScript (host : Host) (root : Root) : Root × Bool :=
  Failstop.run Request.name (fun host r => some (host.left r)) Host.completes host script root

def runs (hosts : List Host) (root : Root) : Root :=
  hosts.foldl (fun root host => (runScript host root).1) root

/-! ## One build -/

/-- What a build needs of the machine. -/
def Host.Provides (host : Host) (r : Request) : Prop :=
  host.config ≠ none ∧ ∀ k, r.kext = some k → host.directory k.dir = true

/-- The directory is empty of a config where the base has none; it is the bare base where the kext
is missing; else it is built. -/
inductive Host.Leaves (host : Host) (r : Request) : VariantDir → Prop where
  | noConfig (hconfig : host.config = none) : Leaves host r ⟨none, []⟩
  | bareBase (base : Text) (k : Kext) (hconfig : host.config = some base) (hk : r.kext = some k)
      (hmissing : host.directory k.dir = false) : Leaves host r ⟨some base, []⟩
  | built (base : Text) (hconfig : host.config = some base)
      (hkext : ∀ k, r.kext = some k → host.directory k.dir = true) :
      Leaves host r ⟨some (applyAll r.edits base), (r.kext.map Kext.dir).toList⟩

theorem buildOn_eq {host : Host} {r : Request} {base : Text} (hconfig : host.config = some base)
    (hkext : ∀ k, r.kext = some k → host.directory k.dir = true) :
    buildOn host r = .ok (build host.ocv base r) := by
  obtain ⟨name, boot, kext, neutralize⟩ := r
  unfold buildOn build
  rw [hconfig]
  cases kext with
  | none => rfl
  | some k =>
    dsimp only [Progress.copyKextOn]
    rw [if_pos (hkext k rfl)]
    rfl

theorem buildOn_missing {host : Host} {r : Request} {base : Text} {k : Kext}
    (hconfig : host.config = some base) (hk : r.kext = some k)
    (hmissing : host.directory k.dir = false) :
    buildOn host r =
      .error ((copyBase base).patch r.name "boot-args".toList (bootArgs r.boot)) := by
  unfold buildOn
  rw [hconfig, hk]
  dsimp only [Progress.copyKextOn]
  rw [hmissing]
  rfl

theorem buildOn_noConfig {host : Host} (r : Request) (hconfig : host.config = none) :
    buildOn host r = .error ⟨⟨none, []⟩, [], []⟩ := by
  unfold buildOn
  rw [hconfig]

theorem Host.left_built {host : Host} {r : Request} (h : r.Plain) {base : Text}
    (hconfig : host.config = some base)
    (hkext : ∀ k, r.kext = some k → host.directory k.dir = true) :
    host.left r = ⟨some (applyAll r.edits base), (r.kext.map Kext.dir).toList⟩ := by
  have hcfg := h.build_config_eq host.ocv base
  have hcopied := build_copied host.ocv base r
  unfold Host.left
  rw [buildOn_eq hconfig hkext, ← hcopied]
  exact congrArg (VariantDir.mk · _) hcfg

theorem Host.left_bareBase {host : Host} {r : Request} {base : Text} {k : Kext}
    (hconfig : host.config = some base) (hk : r.kext = some k)
    (hmissing : host.directory k.dir = false) : host.left r = ⟨some base, []⟩ := by
  unfold Host.left
  rw [buildOn_missing hconfig hk hmissing]
  rfl

theorem Host.left_leaves {r : Request} (h : r.Plain) (host : Host) :
    host.Leaves r (host.left r) := by
  cases hconfig : host.config with
  | none =>
    unfold Host.left
    rw [buildOn_noConfig r hconfig]
    exact .noConfig hconfig
  | some base =>
    by_cases hkext : ∀ k, r.kext = some k → host.directory k.dir = true
    · rw [Host.left_built h hconfig hkext]
      exact .built base hconfig hkext
    · simp only [not_forall, Bool.not_eq_true] at hkext
      obtain ⟨k, hk, hmissing⟩ := hkext
      rw [Host.left_bareBase hconfig hk hmissing]
      exact .bareBase base k hconfig hk hmissing

theorem Host.completes_iff (host : Host) (r : Request) :
    host.completes r = true ↔ host.Provides r := by
  unfold Host.completes Host.Provides
  cases hconfig : host.config with
  | none =>
    rw [buildOn_noConfig r hconfig]
    exact iff_of_false Bool.false_ne_true fun h => h.1 rfl
  | some base =>
    by_cases hkext : ∀ k, r.kext = some k → host.directory k.dir = true
    · rw [buildOn_eq hconfig hkext]
      exact iff_of_true rfl ⟨Option.some_ne_none base, hkext⟩
    · refine iff_of_false ?_ fun h => hkext h.2
      simp only [not_forall, Bool.not_eq_true] at hkext
      obtain ⟨k, hk, hmissing⟩ := hkext
      rw [buildOn_missing hconfig hk hmissing]
      exact Bool.false_ne_true

/-! ## Runs -/

theorem script_names : (script.map Request.name).Nodup := by
  unfold script variantA variantB variantC
  simp only [List.map_cons, List.map_nil]
  repeat rw [String.toList_ofList]
  decide +kernel

theorem Host.provides_none (host : Host) {r : Request} (h : r.kext = none) :
    host.Provides r ↔ host.config ≠ none := by
  unfold Host.Provides
  rw [h]
  exact and_iff_left nofun

theorem Host.provides_some (host : Host) {r : Request} {k : Kext} (h : r.kext = some k) :
    host.Provides r ↔ host.config ≠ none ∧ host.directory k.dir = true := by
  unfold Host.Provides
  rw [h]
  constructor
  · intro hall
    exact ⟨hall.1, hall.2 k rfl⟩
  · rintro ⟨hconfig, hdirectory⟩
    refine ⟨hconfig, fun k' hk' => ?_⟩
    rw [← Option.some.inj hk']
    exact hdirectory

/-- A run gets to the end if the base has a config and both kexts are there. -/
theorem runScript_finished_iff (host : Host) (root : Root) :
    (runScript host root).2 = true ↔
      host.config ≠ none ∧ host.directory uefifb.dir = true ∧
        host.directory honorfb.dir = true := by
  have hA := host.provides_none (r := variantA) rfl
  have hB := host.provides_some (r := variantB) rfl
  have hC := host.provides_some (r := variantC) rfl
  unfold runScript script
  rw [Failstop.run_finished_iff]
  simp only [Host.completes_iff, List.forall_mem_cons, List.not_mem_nil, false_imp_iff,
    implies_true, and_true, hA, hB, hC]
  constructor
  · rintro ⟨hconfig, ⟨-, huefifb⟩, -, hhonorfb⟩
    exact ⟨hconfig, huefifb, hhonorfb⟩
  · rintro ⟨hconfig, huefifb, hhonorfb⟩
    exact ⟨hconfig, ⟨hconfig, huefifb⟩, hconfig, hhonorfb⟩

/-- **A variant is what the last run left that got to it, and what no run got to is as it was.** -/
theorem runs_leave (hosts : List Host) (root : Root) :
    (∀ name, (∀ r ∈ script, r.name ≠ name) → runs hosts root name = root name) ∧
      ∀ r ∈ script,
        (∀ host ∈ hosts, ¬host.reaches r = true) ∧ runs hosts root r.name = root r.name ∨
        ∃ host dir, Latest.IsLatest (fun host => host.reaches r = true) hosts host ∧
          host.Leaves r dir ∧ runs hosts root r.name = some dir := by
  constructor
  · intro name hname
    exact Failstop.runs_of_ne Request.name _ Host.completes hname hosts root
  · intro r hr
    have hkey : runs hosts root r.name = ((Latest.latest (Failstop.reaches Request.name
        Host.completes script r) hosts).map fun host => some (host.left r)).getD (root r.name) :=
      Failstop.runs_key Request.name (fun (host : Host) r => some (host.left r)) Host.completes
        script_names hr hosts root
    cases hlatest : Latest.latest (Failstop.reaches Request.name Host.completes script r) hosts with
    | none =>
      rw [hlatest] at hkey
      exact Or.inl ⟨(Latest.latest_eq_none_iff _).1 hlatest, hkey⟩
    | some host =>
      rw [hlatest] at hkey
      refine Or.inr ⟨host, host.left r, (Latest.latest_eq_some_iff _).1 hlatest, ?_, hkey⟩
      exact host.left_leaves (variants_plain r hr)

end HonorFB.Efi
