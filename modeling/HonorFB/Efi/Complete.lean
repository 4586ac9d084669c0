import HonorFB.Efi.Content
import HonorFB.Lib.Respelled

/-!
# Complete variants

A variant is complete if its directory has no config, or one that carries each edit asked for in its
place: the boot arguments replaced in their string, the kext's entry once in Kernel>Add and the
iGPU's properties once in DeviceProperties>Add; and if no kext is copied without its entry. `Build`
warns of what it misses and writes the config all the same, and where the kext is not there it stops
behind the bare copy of the base, so completeness depends on the base and on the machine
(`build_complete_iff`).
-/

namespace HonorFB.Efi

open Plist Replace

/-- Where Kernel stands. -/
def kernelPath : Path := [some "Kernel".toList, none, none]

/-- Kernel>Add. -/
def kernelAddPath : Path := some "Add".toList :: kernelPath

/-- The dictionary of the list. -/
def rootPath : Path := [none, none]

/-- DeviceProperties>Add. -/
def deviceAddPath : Path := deviceAdd rootPath

/-- The boot arguments are those of the base with the anchor replaced, and hold it no more. -/
def BootReplaced (boot base text : Text) : Prop :=
  ∃ pre post, strings bootArgsPath (contents base) = [pre ++ (bootOld ++ post)] ∧
    strings bootArgsPath (contents text) = [pre ++ (boot ++ post)] ∧
    ¬bootOld <:+: pre ++ (boot ++ post)

/-- Each of the words stands in the content once. -/
def Once (ws : List (List Event)) (text : Text) : Prop :=
  ∀ w ∈ ws, occurrences w (contents text) = 1

/-- The text is a list with each edit asked for in its place. -/
structure Carries (r : Request) (base text : Text) : Prop where
  list : WellFormed text
  boot : BootReplaced r.boot base text
  kernel : ∀ k, r.kext = some k → Once (k.words kernelAddPath) text
  device : r.neutralize = true → Once (igpuWords deviceAddPath) text

/-- A config that is there carries each edit asked for, and no kext is copied without its entry. -/
structure Complete (r : Request) (base : Option Text) (dir : VariantDir) : Prop where
  config : ∀ text, dir.config = some text → ∃ b, base = some b ∧ Carries r b text
  injected : ∀ k, r.kext = some k → k.dir ∈ dir.copied →
    ∃ text, dir.config = some text ∧ Once (k.words kernelAddPath) text

/-- The base is a list that has, for each edit asked for, its anchor in one place of the section:
the boot arguments in their only string, where nothing else makes them the anchor again, and the
kext's and the iGPU's anchors where their entries do not stand already. -/
structure Fits (r : Request) (base : Text) : Prop where
  list : WellFormed base
  boot : ∃ pre post, strings bootArgsPath (contents base) = [pre ++ (bootOld ++ post)] ∧
    ¬bootOld <:+: pre ++ (r.boot ++ post)
  unbroken : standing (.leaf .string) bootArgsPath bootOld (some .start) base = 1
  kernel : ∀ k, r.kext = some k → ∀ w ∈ k.words kernelAddPath,
    occurrences w (contents base) +
      standing (.dict false) kernelPath kernelAnchor (some .start) base = 1
  device : r.neutralize = true → ∀ w ∈ igpuWords deviceAddPath,
    occurrences w (contents base) + standing (.dict false) rootPath dpAnchor (some .start) base = 1

/-! ## The boot arguments -/

theorem bootArgs_text {boot : Text} (hboot : boot ∈ [bootA, bootBC]) :
    TextEdit (bootArgs boot) := by
  have texts := scriptTexts
  have hmem : boot ∈ [bootOld, bootA, bootBC] := List.mem_cons_of_mem _ hboot
  exact {
    same := bootArgs_same hboot
    opens := ⟨(texts.bootMarkup bootOld (by simp)).1, (texts.bootMarkup boot hmem).1⟩
    closes := ⟨(texts.bootMarkup bootOld (by simp)).2, (texts.bootMarkup boot hmem).2⟩
    solid := bootOld_solid }

theorem bootArgs_respelled {boot : Text} (hboot : boot ∈ [bootA, bootBC]) (path : Path) {t : Text}
    (ht : WellFormed t) :
    Respelled (bootArgs boot) path (standing (.leaf .string) path bootOld (some .start) t)
      (contents t) (contents ((bootArgs boot).replace t)) := by
  obtain ⟨s, hfollow, hreader⟩ := ht.follow
  have hend : s.reader.stack.head? ≠ some (.leaf .string) := by
    rw [hreader]
    decide
  have hstart : Cursor.start.Alike (bootArgs boot) 0 .start := ⟨rfl, .nil, .nil⟩
  have htop : Topped Cursor.start.reader.stack := List.forall_mem_nil _
  obtain ⟨n, hn, hcount⟩ := (bootArgs_text hboot).respelled path hend t hstart htop hfollow
  rw [Cursor.pending_zero, Nat.add_zero] at hcount
  rw [← bootArgs_old boot, ← hcount]
  exact hn

/-- No key and no text holds what all boot arguments begin with. -/
def BootFree (x : Event) : Prop := (∀ q ∈ x.path, ∀ v ∈ q, ¬bootBC <:+: v) ∧ ¬bootBC <:+: x.text

instance : DecidablePred BootFree := fun x =>
  inferInstanceAs (Decidable ((∀ q ∈ x.path, ∀ v ∈ q, ¬bootBC <:+: v) ∧ ¬bootBC <:+: x.text))

/-- The keys of the boot arguments and the entries without the names of the kext hold none. -/
@[mk_iff] structure FreeTexts : Prop where
  keys : ∀ q ∈ bootArgsPath, ∀ v ∈ q, ¬bootBC <:+: v
  element : ∀ x ∈ noKext.element kernelAddPath, BootFree x
  igpu : ∀ x ∈ igpuProperties deviceAddPath, BootFree x
  macOS : Clear "Contents/MacOS/".toList bootBC

theorem freeTexts : FreeTexts := by
  rw [freeTexts_iff]
  unfold BootFree noKext kernelAddPath kernelPath deviceAddPath rootPath deviceAdd igpuProperties
    igpuValues igpuKeyEvent igpuKey Kext.element Kext.entryRest bundleEvent entryHead entryFlags
    entryEnd field keyEvents bootArgsPath bootBC
  repeat rw [String.toList_ofList]
  decide +kernel

/-- A word that does not hold what all boot arguments begin with. -/
theorem unmarked_of_bootBC {boot w : Text} (hboot : boot ∈ [bootA, bootBC]) (hw : ¬bootBC <:+: w) :
    Unmarked (bootArgs boot) w := by
  have hbegins : ∀ b ∈ [bootOld, bootA, bootBC], ¬b <:+: w := fun b hb hinfix =>
    hw ((bootBC_begins hb).isInfix.trans hinfix)
  exact ⟨hbegins bootOld (by simp), hbegins boot (List.mem_cons_of_mem _ hboot)⟩

theorem BootFree.unmarked {boot : Text} (hboot : boot ∈ [bootA, bootBC]) {x : Event}
    (h : BootFree x) : x.Unmarked (bootArgs boot) :=
  ⟨fun v hv => unmarked_of_bootBC hboot (h.1 _ hv v rfl), unmarked_of_bootBC hboot h.2⟩

theorem eq_one_of_swapped {a b n : Nat} (hne : a ≠ b) (h : a + n * b = b + n * a) : n = 1 := by
  cases n with
  | zero => exact absurd (by omega) hne
  | succ n =>
    rw [Nat.add_mul, Nat.add_mul] at h
    rcases Nat.eq_zero_or_pos n with rfl | hpos
    · rfl
    · exact absurd (Nat.eq_of_mul_eq_mul_left hpos (by omega)) hne

/-- The boot arguments are replaced exactly if their anchor stands in them once, unbroken. -/
theorem bootReplaced_iff {boot base text : Text} (hboot : boot ∈ [bootA, bootBC])
    (hbase : WellFormed base)
    (htext : strings bootArgsPath (contents text) =
      strings bootArgsPath (contents ((bootArgs boot).replace base))) :
    BootReplaced boot base text ↔
      (∃ pre post, strings bootArgsPath (contents base) = [pre ++ (bootOld ++ post)] ∧
        ¬bootOld <:+: pre ++ (boot ++ post)) ∧
      standing (.leaf .string) bootArgsPath bootOld (some .start) base = 1 := by
  have texts := freeTexts
  have hrespelled := bootArgs_respelled hboot bootArgsPath hbase
  have hlength := bootArgs_length hboot
  have hpath : ∀ v, some v ∈ bootArgsPath → Unmarked (bootArgs boot) v := fun v hv =>
    unmarked_of_bootBC hboot (texts.keys _ hv v rfl)
  unfold BootReplaced
  rw [htext]
  constructor
  · rintro ⟨pre, post, hold, hnew, hsettled⟩
    obtain ⟨v, hv, hrewritten⟩ := hrespelled.strings_eq_singleton hpath hold
    refine ⟨⟨pre, post, hold, hsettled⟩, ?_⟩
    rw [hnew] at hv
    obtain rfl := (List.cons.inj hv).1
    -- the lengths tell how often the anchor was replaced
    have hcount := hrewritten.length
    simp only [List.length_append, bootArgs_old, bootArgs_new] at hcount
    exact eq_one_of_swapped hlength (by omega)
  · rintro ⟨⟨pre, post, hold, hsettled⟩, hone⟩
    obtain ⟨v, hv, hrewritten⟩ := hrespelled.strings_eq_singleton hpath hold
    obtain ⟨pre', post', heq, rfl⟩ := hrewritten.split hone
    rw [bootArgs_old] at heq
    rcases eq_or_infix_of_append_eq bootOld_ne_nil bootOld_solid heq with ⟨rfl, rfl⟩ | hpre | hpost
    · exact ⟨pre, post, hold, hv, hsettled⟩
    · exact absurd (hpre.trans (List.prefix_append _ _).isInfix) hsettled
    · refine absurd (hpost.trans ?_) hsettled
      exact ((List.suffix_append boot post).trans (List.suffix_append pre _)).isInfix

/-! ## The entries -/

/-- Only the value tells two fields of a key apart. -/
theorem mem_field {e : Element} {key value : Text} {p : Path} {x : Event}
    (hx : x ∈ field e key value p) (value' : Text) :
    ∃ y ∈ field e key value' p, x.path = y.path ∧ (x.text = y.text ∨ x.text = value) := by
  simp only [field, keyEvents, List.mem_append, List.mem_cons, List.not_mem_nil, or_false] at hx
  rcases hx with (rfl | rfl) | rfl | rfl
  · exact ⟨_, by simp [field, keyEvents], rfl, Or.inl rfl⟩
  · exact ⟨_, by simp [field, keyEvents], rfl, Or.inl rfl⟩
  · exact ⟨_, by simp [field, keyEvents], rfl, Or.inl rfl⟩
  · exact ⟨⟨.closes e, some key :: p, value'⟩, by simp [field, keyEvents], rfl, Or.inr rfl⟩

namespace Kext

variable {k : Kext}

/-- Only the names tell the entries of two kexts apart. -/
theorem mem_element {p : Path} {x : Event} (hx : x ∈ k.element p) :
    ∃ y ∈ noKext.element p, x.path = y.path ∧
      (x.text = y.text ∨ x.text ∈ [k.bundle, k.comment, "Contents/MacOS/".toList ++ k.exe]) := by
  unfold element entryRest at hx ⊢
  simp only [List.mem_append, List.mem_cons] at hx
  rcases hx with hx | rfl | hx | hx | hx | hx
  · exact ⟨x, by simp [hx], rfl, Or.inl rfl⟩
  · exact ⟨bundleEvent noKext.bundle p, by simp, rfl, Or.inr (by simp [bundleEvent])⟩
  · obtain ⟨y, hy, hpath, htext⟩ := mem_field hx noKext.comment
    refine ⟨y, ?_, hpath, htext.imp_right fun heq => by simp [heq]⟩
    simp only [List.mem_append, List.mem_cons, hy, true_or, or_true]
  · exact ⟨x, by simp [hx], rfl, Or.inl rfl⟩
  · obtain ⟨y, hy, hpath, htext⟩ := mem_field hx ("Contents/MacOS/".toList ++ noKext.exe)
    refine ⟨y, ?_, hpath, htext.imp_right fun heq => by simp [heq]⟩
    simp only [List.mem_append, List.mem_cons, hy, true_or, or_true]
  · exact ⟨x, by simp [hx], rfl, Or.inl rfl⟩

theorem words_bootFree (hnames : ∀ n ∈ k.names, ¬bootBC <:+: n) {w : List Event}
    (hw : w ∈ k.words kernelAddPath) : ∀ x ∈ w, BootFree x := by
  have texts := freeTexts
  have helement : ∀ x ∈ k.element kernelAddPath, BootFree x := by
    intro x hx
    obtain ⟨y, hy, hpath, htext⟩ := mem_element hx
    have hfree := texts.element y hy
    refine ⟨hpath ▸ hfree.1, ?_⟩
    rcases htext with htext | htext
    · exact htext ▸ hfree.2
    · simp only [List.mem_cons, List.not_mem_nil, or_false] at htext
      rcases htext with htext | htext | htext
      · exact htext ▸ hnames k.bundle (by simp [names])
      · exact htext ▸ hnames k.comment (by simp [names])
      · rw [htext]
        exact not_infix_append texts.macOS (hnames k.exe (by simp [names]))
  rcases mem_words hw with rfl | rfl
  · exact helement
  · intro x hx
    refine helement x ?_
    rw [List.mem_singleton.1 hx]
    simp [element]

end Kext

theorem igpuWords_bootFree {w : List Event} (hw : w ∈ igpuWords deviceAddPath) :
    ∀ x ∈ w, BootFree x := by
  have texts := freeTexts
  rcases mem_igpuWords hw with rfl | rfl
  · exact texts.igpu
  · intro x hx
    refine texts.igpu x ?_
    rw [List.mem_singleton.1 hx]
    simp [igpuProperties]

theorem bootArgs_keeps {boot : Text} (hboot : boot ∈ [bootA, bootBC]) {w : List Event}
    (hw : ∀ x ∈ w, BootFree x) {t : Text} (ht : WellFormed t) :
    occurrences w (contents ((bootArgs boot).replace t)) = occurrences w (contents t) :=
  (bootArgs_respelled hboot [] ht).occurrences fun x hx => (hw x hx).unmarked hboot

/-! ## The build -/

/-- What each edit keeps of a list, all of them keep. -/
theorem foldl_keeps {α : Type*} {f : Text → α} {es : List (Edit Char)}
    (hsame : ∀ e ∈ es, Same e.new e.old)
    (hkeeps : ∀ e ∈ es, ∀ t, WellFormed t → f (e.replace t) = f t) :
    ∀ {t : Text}, WellFormed t → f (es.foldl (fun t e => e.replace t) t) = f t := by
  induction es with
  | nil =>
    intro t _
    rfl
  | cons e es ih =>
    intro t ht
    rw [List.forall_mem_cons] at hsame hkeeps
    rw [List.foldl_cons, ih hsame.2 hkeeps.2 ((wellFormed_replace_iff hsame.1 t).2 ht),
      hkeeps.1 t ht]

namespace Request

variable {r : Request} {base : Text}

theorem wellFormed_applyAll_iff (h : r.Plain) (hmarks : r.Unmarked) :
    WellFormed (applyAll r.edits base) ↔ WellFormed base := by
  rw [← foldl_replace_eq h.apart]
  exact wellFormed_foldl_iff hmarks.edits_same base

/-- The edits around one of them keep what it does. -/
theorem applyAll_eq_of_perm {α : Type*} (h : r.Plain) (hmarks : r.Unmarked) {e : Edit Char}
    {es : List (Edit Char)} (hperm : (e :: es).Perm r.edits) {f : Text → α}
    (hkeeps : ∀ e ∈ es, ∀ t, WellFormed t → f (e.replace t) = f t) (hbase : WellFormed base) :
    f (applyAll r.edits base) = f (e.replace base) := by
  have hsame : ∀ e' ∈ e :: es, Same e'.new e'.old := fun e' he' =>
    hmarks.edits_same e' (hperm.subset he')
  rw [List.forall_mem_cons] at hsame
  rw [← foldl_replace_eq h.apart, ← foldl_replace_perm h.apart hperm, List.foldl_cons]
  exact foldl_keeps hsame.2 hkeeps ((wellFormed_replace_iff hsame.1 base).2 hbase)

/-- The kext's words stand once more if its anchor stands in Kernel. -/
theorem Named.occurrences_words (h : r.Named) (hmarks : r.Unmarked) {k : Kext}
    (hk : r.kext = some k) (hbase : WellFormed base) {w : List Event}
    (hw : w ∈ k.words kernelAddPath) :
    occurrences w (contents (applyAll r.edits base)) =
      occurrences w (contents base) +
        standing (.dict false) kernelPath kernelAnchor (some .start) base := by
  have hperm : (kernelAdd k :: bootArgs r.boot ::
      if r.neutralize then [deviceProperties] else []).Perm r.edits := by
    unfold edits
    rw [hk]
    exact List.Perm.swap _ _ _
  have hfree := Kext.words_bootFree (h.names k hk) hw
  rw [← occurrences_kernelAdd (h.kext k hk) (hmarks.kext k hk) hw base]
  refine applyAll_eq_of_perm h.toPlain hmarks hperm (f := fun t => occurrences w (contents t))
    ?_ hbase
  rw [List.forall_mem_cons]
  refine ⟨fun t ht => bootArgs_keeps h.boot hfree ht, fun e he t _ => ?_⟩
  split at he
  · rw [List.mem_singleton.1 he]
    exact deviceProperties_keeps hw t
  · cases he

/-- The words of the iGPU stand once more if their anchor stands in the list. -/
theorem Named.occurrences_igpuWords (h : r.Named) (hmarks : r.Unmarked)
    (hneutralize : r.neutralize = true) (hbase : WellFormed base) {w : List Event}
    (hw : w ∈ igpuWords deviceAddPath) :
    occurrences w (contents (applyAll r.edits base)) =
      occurrences w (contents base) +
        standing (.dict false) rootPath dpAnchor (some .start) base := by
  have hperm : (deviceProperties :: bootArgs r.boot :: (r.kext.map kernelAdd).toList).Perm
      r.edits := by
    unfold edits
    rw [if_pos hneutralize]
    exact (List.perm_append_singleton deviceProperties _).symm
  have hfree := igpuWords_bootFree hw
  rw [← occurrences_deviceProperties hw base]
  refine applyAll_eq_of_perm h.toPlain hmarks hperm (f := fun t => occurrences w (contents t))
    ?_ hbase
  rw [List.forall_mem_cons]
  refine ⟨fun t ht => bootArgs_keeps h.boot hfree ht, fun e he t _ => ?_⟩
  obtain ⟨k, hk, rfl⟩ := Option.map_eq_some_iff.1 (Option.mem_toList.1 he)
  exact kernelAdd_keeps (hmarks.kext k hk) hw t

/-- Only the first edit changes the boot arguments. -/
theorem Named.strings_applyAll (h : r.Named) (hmarks : r.Unmarked) (hbase : WellFormed base) :
    strings bootArgsPath (contents (applyAll r.edits base)) =
      strings bootArgsPath (contents ((bootArgs r.boot).replace base)) := by
  have hperm : (bootArgs r.boot :: r.edits.tail).Perm r.edits := List.Perm.refl _
  refine applyAll_eq_of_perm h.toPlain hmarks hperm
    (f := fun t => strings bootArgsPath (contents t)) (fun e he t _ => ?_) hbase
  rcases List.mem_append.1 he with hkernel | hdevice
  · obtain ⟨k, hk, rfl⟩ := Option.map_eq_some_iff.1 (Option.mem_toList.1 hkernel)
    exact kernelAdd_strings (hmarks.kext k hk) t
  · split at hdevice
    · rw [List.mem_singleton.1 hdevice]
      exact deviceProperties_strings t
    · cases hdevice

/-- What the edits write carries them exactly if the base fits. -/
theorem Named.carries_iff (h : r.Named) (hmarks : r.Unmarked) :
    Carries r base (applyAll r.edits base) ↔ Fits r base := by
  have hlist : WellFormed (applyAll r.edits base) ↔ WellFormed base :=
    wellFormed_applyAll_iff h.toPlain hmarks
  constructor
  · rintro ⟨htext, hboot, hkernel, hdevice⟩
    have hbase := hlist.1 htext
    obtain ⟨hanchor, hunbroken⟩ :=
      (bootReplaced_iff h.boot hbase (h.strings_applyAll hmarks hbase)).1 hboot
    refine ⟨hbase, hanchor, hunbroken, fun k hk w hw => ?_, fun hn w hw => ?_⟩
    · rw [← h.occurrences_words hmarks hk hbase hw]
      exact hkernel k hk w hw
    · rw [← h.occurrences_igpuWords hmarks hn hbase hw]
      exact hdevice hn w hw
  · rintro ⟨hbase, hanchor, hunbroken, hkernel, hdevice⟩
    refine ⟨hlist.2 hbase, ?_, fun k hk w hw => ?_, fun hn w hw => ?_⟩
    · exact (bootReplaced_iff h.boot hbase (h.strings_applyAll hmarks hbase)).2
        ⟨hanchor, hunbroken⟩
    · rw [h.occurrences_words hmarks hk hbase hw]
      exact hkernel k hk w hw
    · rw [h.occurrences_igpuWords hmarks hn hbase hw]
      exact hdevice hn w hw

end Request

/-- A base does not carry the replacement of its own boot arguments. -/
theorem not_bootReplaced_self {boot base : Text} (hboot : boot ∈ [bootA, bootBC]) :
    ¬BootReplaced boot base base := by
  rintro ⟨pre, post, hold, hnew, -⟩
  rw [hold] at hnew
  have hlength := congrArg List.length (List.cons.inj hnew).1
  simp only [List.length_append] at hlength
  exact bootArgs_length hboot (by omega)

/-- A config with device properties, Lilu first in Kernel>Add, and the boot arguments in NVRAM. -/
@[irreducible] def openCoreList (device : Text) : Text :=
  "<?xml version=\"1.0\" encoding=\"UTF-8\"?>
<plist version=\"1.0\">
<dict>
".toList ++ (device ++ ("
\t</dict>
\t<key>Kernel</key>
\t<dict>
".toList ++ (kernelAnchor ++ ("
\t\t\t</dict>
\t\t</array>
\t</dict>
\t<key>NVRAM</key>
\t<dict>
\t\t<key>Add</key>
\t\t<dict>
\t\t\t<key>7C436110-AB2A-4BBB-A880-FE41995C9F82</key>
\t\t\t<dict>
\t\t\t\t<key>boot-args</key>
\t\t\t\t<string>".toList ++ (bootOld ++ "</string>
\t\t\t</dict>
\t\t</dict>
\t</dict>
</dict>
</plist>
".toList)))))

/-- What stands in the sample config. -/
@[mk_iff] structure OpenCoreTexts (device : Text) : Prop where
  list : WellFormed (openCoreList device)
  boot : strings bootArgsPath (contents (openCoreList device)) = [bootOld]
  unbroken : standing (.leaf .string) bootArgsPath bootOld (some .start) (openCoreList device) = 1
  kext : ∀ w ∈ honorfb.words kernelAddPath, occurrences w (contents (openCoreList device)) = 0
  kernel : standing (.dict false) kernelPath kernelAnchor (some .start) (openCoreList device) = 1
  igpu : ∀ w ∈ igpuWords deviceAddPath, occurrences w (contents (openCoreList device)) = 0
  device : standing (.dict false) rootPath dpAnchor (some .start) (openCoreList device) =
    if device = dpAnchor then 1 else 0

theorem openCoreTexts : (∀ device ∈ [dpAnchor, otherDevice], OpenCoreTexts device) ∧
    otherDevice ≠ dpAnchor := by
  simp only [openCoreTexts_iff]
  unfold openCoreList otherDevice bootOld kernelAnchor dpAnchor bootArgsPath kernelAddPath
    kernelPath deviceAddPath rootPath deviceAdd Kext.words Kext.element Kext.entryRest bundleEvent
    entryHead entryFlags entryEnd igpuWords igpuProperties igpuValues igpuKeyEvent igpuKey field
    keyEvents honorfb
  repeat rw [String.toList_ofList]
  decide +kernel

theorem variantC_unmarked : variantC.Unmarked := variants_unmarked variantC (by simp [script])

theorem openCoreList_fits : Fits variantC (openCoreList dpAnchor) := by
  have texts := openCoreTexts.1 dpAnchor (by simp)
  constructor
  · exact texts.list
  · refine ⟨[], [], ?_, ?_⟩
    · rw [List.append_nil, List.nil_append]
      exact texts.boot
    · rw [List.append_nil, List.nil_append]
      exact scriptTexts.bootSettled
  · exact texts.unbroken
  · intro k hk w hw
    rw [← Option.some.inj hk] at hw
    rw [texts.kext w hw, texts.kernel]
  · intro _ w hw
    rw [texts.igpu w hw, texts.device, if_pos rfl]

end HonorFB.Efi
