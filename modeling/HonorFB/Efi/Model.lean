import HonorFB.Lib.Replace

/-!
# The EFI config patcher

`build-variants.ps1` makes each EFI variant from one base: it copies the base, replaces an anchor in
its `config.plist` for each edit asked for, and writes the file. An anchor it does not find is
reported on the console and the build goes on.
-/

namespace HonorFB.Efi

open Replace

abbrev Text := List Char

@[irreducible] def bootOld : Text := "-v keepsyms=1 debug=0x100 -wegnoegpu".toList
@[irreducible] def bootA : Text := "-v keepsyms=1 debug=0x100 igfxvesa".toList
@[irreducible] def bootBC : Text := "-v keepsyms=1 debug=0x100".toList

@[irreducible] def kernelAnchor : Text :=
"\t\t<key>Add</key>
\t\t<array>
\t\t\t<dict>
\t\t\t\t<key>Arch</key>
\t\t\t\t<string>x86_64</string>
\t\t\t\t<key>BundlePath</key>
\t\t\t\t<string>Lilu.kext</string>".toList

@[irreducible] def kextEntry (bundle exe comment : Text) : Text :=
"\t\t<key>Add</key>
\t\t<array>
\t\t\t<dict>
\t\t\t\t<key>Arch</key>
\t\t\t\t<string>x86_64</string>
\t\t\t\t<key>BundlePath</key>
\t\t\t\t<string>".toList ++ bundle ++ "</string>
\t\t\t\t<key>Comment</key>
\t\t\t\t<string>".toList ++ comment ++ "</string>
\t\t\t\t<key>Enabled</key>
\t\t\t\t<true/>
\t\t\t\t<key>ExecutablePath</key>
\t\t\t\t<string>Contents/MacOS/".toList ++ exe ++ "</string>
\t\t\t\t<key>MaxKernel</key>
\t\t\t\t<string></string>
\t\t\t\t<key>MinKernel</key>
\t\t\t\t<string></string>
\t\t\t\t<key>PlistPath</key>
\t\t\t\t<string>Contents/Info.plist</string>
\t\t\t</dict>
\t\t\t<dict>
\t\t\t\t<key>Arch</key>
\t\t\t\t<string>x86_64</string>
\t\t\t\t<key>BundlePath</key>
\t\t\t\t<string>Lilu.kext</string>".toList

@[irreducible] def dpAnchor : Text :=
"\t<key>DeviceProperties</key>
\t<dict>
\t\t<key>Add</key>
\t\t<dict/>".toList

@[irreducible] def dpNeutralize : Text :=
"\t<key>DeviceProperties</key>
\t<dict>
\t\t<key>Add</key>
\t\t<dict>
\t\t\t<key>PciRoot(0x0)/Pci(0x2,0x0)</key>
\t\t\t<dict>
\t\t\t\t<key>name</key>
\t\t\t\t<data>PHVudXNlZD4=</data>
\t\t\t\t<key>class-code</key>
\t\t\t\t<data>/////w==</data>
\t\t\t</dict>
\t\t</dict>".toList

/-- `$kextDir`, `$kextBundle`, `$kextExe` and `$kextComment`. -/
structure Kext where
  dir : Text
  bundle : Text
  exe : Text
  comment : Text

/-- What `Build` is called with; a null `$kextDir` asks for no kext. -/
structure Request where
  name : Text
  boot : Text
  kext : Option Kext
  neutralize : Bool

theorem bootOld_ne_nil : bootOld ≠ [] := by
  unfold bootOld
  rw [String.toList_ofList]
  exact List.cons_ne_nil _ _

theorem kernelAnchor_ne_nil : kernelAnchor ≠ [] := by
  unfold kernelAnchor
  rw [String.toList_ofList]
  exact List.cons_ne_nil _ _

theorem dpAnchor_ne_nil : dpAnchor ≠ [] := by
  unfold dpAnchor
  rw [String.toList_ofList]
  exact List.cons_ne_nil _ _

def bootArgs (boot : Text) : Edit Char := ⟨bootOld, boot, bootOld_ne_nil⟩

def kernelAdd (k : Kext) : Edit Char :=
  ⟨kernelAnchor, kextEntry k.bundle k.exe k.comment, kernelAnchor_ne_nil⟩

def deviceProperties : Edit Char := ⟨dpAnchor, dpNeutralize, dpAnchor_ne_nil⟩

@[simp] theorem bootArgs_old (boot : Text) : (bootArgs boot).old = bootOld := rfl

@[simp] theorem bootArgs_new (boot : Text) : (bootArgs boot).new = boot := rfl

@[simp] theorem kernelAdd_old (k : Kext) : (kernelAdd k).old = kernelAnchor := rfl

@[simp] theorem deviceProperties_old : deviceProperties.old = dpAnchor := rfl

@[simp] theorem deviceProperties_new : deviceProperties.new = dpNeutralize := rfl

/-- The edits a request asks for, in the order `Build` makes them. -/
def Request.edits (r : Request) : List (Edit Char) :=
  bootArgs r.boot :: ((r.kext.map kernelAdd).toList ++
    if r.neutralize then [deviceProperties] else [])

/-! ## Build -/

/-- The variant's directory: its `OC\config.plist`, and what was copied into its `OC\Kexts`. -/
structure VariantDir where
  config : Option Text
  copied : List Text

/-- Where `Build` stands: the directory, the text `$cfg` it edits and what it has printed. -/
structure Progress where
  dir : VariantDir
  cfg : Text
  output : List Text

/-- The base is copied, its config with it, and the config is read. -/
def copyBase (base : Text) : Progress := ⟨⟨some base, []⟩, base, []⟩

def anchorWarning (name anchor : Text) : Text :=
  "  [".toList ++ name ++ "] WARN: ".toList ++ anchor ++ " anchor introuvable".toList

/-- A missing anchor is reported, and the replacement made in either case. -/
def Progress.patch (p : Progress) (name anchor : Text) (e : Edit Char) : Progress :=
  { p with
    cfg := e.replace p.cfg
    output := if e.old <:+: p.cfg then p.output else p.output ++ [anchorWarning name anchor] }

def Progress.copyKext (p : Progress) (kextDir : Text) : Progress :=
  { p with dir := { p.dir with copied := p.dir.copied ++ [kextDir] } }

/-- `[IO.File]::WriteAllText($cfgPath, $cfg)` -/
def Progress.write (p : Progress) : Progress :=
  { p with dir := { p.dir with config := some p.cfg } }

/-- `-match` looks for its text without regard to case. -/
def matchesText (out word : Text) : Bool := decide (word.map Char.toLower <:+: out.map Char.toLower)

/-- `ocv` is what `ocvalidate` prints for a config, where the program is there. -/
def Progress.validate (p : Progress) (name : Text) (ocv : Option (Text → Text)) : Progress :=
  match ocv with
  | none => p
  | some run =>
    let out := run p.cfg
    if matchesText out "No issues found".toList then
      { p with output := p.output ++ ["  [".toList ++ name ++ "] ocvalidate: OK".toList] }
    else
      { p with output := p.output ++ ["  [".toList ++ name ++ "] ocvalidate: ERREURS".toList, out] }

def build (ocv : Option (Text → Text)) (base : Text) (r : Request) : Progress :=
  let p := copyBase base
  let p := p.patch r.name "boot-args".toList (bootArgs r.boot)
  let p := match r.kext with
    | some k => (p.copyKext k.dir).patch r.name "Kernel/Add".toList (kernelAdd k)
    | none => p
  let p := if r.neutralize then
      p.patch r.name "DeviceProperties".toList deviceProperties
    else p
  p.write.validate r.name ocv

/-! ## The variants -/

def uefifb : Kext where
  dir := "C:\\Users\\samym\\Downloads\\HonorFB\\tools\\UEFIGraphicsFB\\UEFIGraphicsFB.kext".toList
  bundle := "UEFIGraphicsFB.kext".toList
  exe := "UEFIGraphicsFB".toList
  comment := "UEFIGraphicsFB boot framebuffer".toList

def honorfb : Kext where
  dir := "C:\\Users\\samym\\Downloads\\HonorFB\\HonorFB.kext".toList
  bundle := "HonorFB.kext".toList
  exe := "HonorFB".toList
  comment := "HonorFB EXPERIMENTAL (lld-linked, peut ne pas charger)".toList

def variantA : Request := ⟨"Honor-EFI-A-igfxvesa".toList, bootA, none, false⟩

def variantB : Request := ⟨"Honor-EFI-B-uefigraphicsfb".toList, bootBC, some uefifb, true⟩

def variantC : Request := ⟨"Honor-EFI-C-honorfb-EXPERIMENTAL".toList, bootBC, some honorfb, true⟩

/-! ## What a build leaves -/

@[simp] theorem patch_dir (p : Progress) (name anchor : Text) (e : Edit Char) :
    (p.patch name anchor e).dir = p.dir := rfl

@[simp] theorem patch_cfg (p : Progress) (name anchor : Text) (e : Edit Char) :
    (p.patch name anchor e).cfg = e.replace p.cfg := rfl

@[simp] theorem copyKext_copied (p : Progress) (kextDir : Text) :
    (p.copyKext kextDir).dir.copied = p.dir.copied ++ [kextDir] := rfl

@[simp] theorem copyKext_cfg (p : Progress) (kextDir : Text) :
    (p.copyKext kextDir).cfg = p.cfg := rfl

@[simp] theorem write_config (p : Progress) : p.write.dir.config = some p.cfg := rfl

@[simp] theorem write_copied (p : Progress) : p.write.dir.copied = p.dir.copied := rfl

/-- The validation only reports. -/
@[simp] theorem validate_dir (p : Progress) (name : Text) (ocv : Option (Text → Text)) :
    (p.validate name ocv).dir = p.dir := by
  unfold Progress.validate
  cases ocv with
  | none => rfl
  | some run =>
    dsimp only
    split <;> rfl

/-- The config that is written is the base after the edits, one made after the other. -/
theorem build_config (ocv : Option (Text → Text)) (base : Text) (r : Request) :
    (build ocv base r).dir.config = some (r.edits.foldl (fun t e => e.replace t) base) := by
  obtain ⟨name, boot, kext, neutralize⟩ := r
  unfold build
  rw [validate_dir, write_config]
  cases kext <;> cases neutralize <;> simp [Request.edits, copyBase]

theorem build_copied (ocv : Option (Text → Text)) (base : Text) (r : Request) :
    (build ocv base r).dir.copied = (r.kext.map Kext.dir).toList := by
  obtain ⟨name, boot, kext, neutralize⟩ := r
  unfold build
  rw [validate_dir, write_copied]
  cases kext <;> cases neutralize <;> simp [copyBase]

end HonorFB.Efi
