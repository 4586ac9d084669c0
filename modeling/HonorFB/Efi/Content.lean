import HonorFB.Efi.Wellformed
import HonorFB.Lib.Section

/-!
# The content of the script's texts

The kernel and the device properties edits put an entry into a section of the list: the kext's into
Kernel>Add, the iGPU's into DeviceProperties>Add (`kernelAdd_section`, `deviceProperties_section`).
The words of an entry stand in the content as often as before, and once more for each section whose
anchor is replaced (`Kext.occurrences_words`, `occurrences_igpuWords`).
-/

namespace HonorFB.Efi

open Plist Replace

/-! ## The entries -/

/-- A key of the dictionary at the path. -/
def keyEvents (key : Text) (p : Path) : List Event :=
  [⟨.opens .key, none :: p, []⟩, ⟨.closes .key, none :: p, key⟩]

/-- A key of the dictionary, and the text that is its value. -/
def field (e : Element) (key value : Text) (p : Path) : List Event :=
  keyEvents key p ++ [⟨.opens e, some key :: p, []⟩, ⟨.closes e, some key :: p, value⟩]

/-- The head of an entry of Kernel>Add, up to its bundle. -/
def entryHead (p : Path) : List Event :=
  ⟨.opens .dict, none :: p, []⟩ :: (field .string "Arch".toList "x86_64".toList (none :: p) ++
    (keyEvents "BundlePath".toList (none :: p) ++
      [⟨.opens .string, some "BundlePath".toList :: none :: p, []⟩]))

/-- The bundle of an entry of the array. -/
def bundleEvent (bundle : Text) (p : Path) : Event :=
  ⟨.closes .string, some "BundlePath".toList :: none :: p, bundle⟩

def entryFlags (p : Path) : List Event :=
  keyEvents "Enabled".toList p ++ [⟨.empty .boolTrue, some "Enabled".toList :: p, []⟩]

def entryEnd (p : Path) : List Event :=
  field .string "MaxKernel".toList [] (none :: p) ++
    (field .string "MinKernel".toList [] (none :: p) ++
      (field .string "PlistPath".toList "Contents/Info.plist".toList (none :: p) ++
        [⟨.closes .dict, none :: p, []⟩]))

/-- What follows the bundle in the kext's entry. -/
def Kext.entryRest (k : Kext) (p : Path) : List Event :=
  field .string "Comment".toList k.comment (none :: p) ++ (entryFlags (none :: p) ++
    (field .string "ExecutablePath".toList ("Contents/MacOS/".toList ++ k.exe) (none :: p) ++
      entryEnd p))

/-- The kext's entry in the array. -/
def Kext.element (k : Kext) (p : Path) : List Event :=
  entryHead p ++ (bundleEvent k.bundle p :: k.entryRest p)

def liluEvents (p : Path) : List Event := entryHead p ++ [bundleEvent "Lilu.kext".toList p]

def addEvents (p : Path) : List Event :=
  keyEvents "Add".toList p ++ [⟨.opens .array, some "Add".toList :: p, []⟩]

/-- What the Kernel anchor holds in a dictionary. -/
def kernelOld (p : Path) : List Event := addEvents p ++ liluEvents (some "Add".toList :: p)

def kernelNew (k : Kext) (p : Path) : List Event :=
  addEvents p ++ (k.element (some "Add".toList :: p) ++ liluEvents (some "Add".toList :: p))

def igpuKey : Text := "PciRoot(0x0)/Pci(0x2,0x0)".toList

def igpuKeyEvent (p : Path) : Event := ⟨.closes .key, none :: p, igpuKey⟩

def igpuValues (p : Path) : List Event :=
  ⟨.opens .dict, some igpuKey :: p, []⟩ ::
    (field .data "name".toList "PHVudXNlZD4=".toList (some igpuKey :: p) ++
      (field .data "class-code".toList "/////w==".toList (some igpuKey :: p) ++
        [⟨.closes .dict, some igpuKey :: p, []⟩]))

/-- The properties of the iGPU in the dictionary. -/
def igpuProperties (p : Path) : List Event :=
  ⟨.opens .key, none :: p, []⟩ :: igpuKeyEvent p :: igpuValues p

/-- DeviceProperties>Add. -/
def deviceAdd (p : Path) : Path := some "Add".toList :: some "DeviceProperties".toList :: p

def deviceHead (p : Path) : List Event :=
  keyEvents "DeviceProperties".toList p ++
    (⟨.opens .dict, some "DeviceProperties".toList :: p, []⟩ ::
      keyEvents "Add".toList (some "DeviceProperties".toList :: p))

/-- What the DeviceProperties anchor holds in a dictionary. -/
def deviceOld (p : Path) : List Event := deviceHead p ++ [⟨.empty .dict, deviceAdd p, []⟩]

def deviceNew (p : Path) : List Event :=
  deviceHead p ++ (⟨.opens .dict, deviceAdd p, []⟩ ::
    (igpuProperties (deviceAdd p) ++ [⟨.closes .dict, deviceAdd p, []⟩]))

/-! ## Reading the texts -/

/-- In the array that the Kernel anchor opens. -/
def inAdd : Cursor := ⟨⟨.content, [.array, .dict false]⟩, [some "Add".toList], []⟩

/-- In its dictionary, behind a value. -/
def inEntry : Cursor :=
  ⟨⟨.content, [.dict false, .array, .dict false]⟩, [none, some "Add".toList], []⟩

/-- In the string of a key there. -/
def inValue (key text : Text) : Cursor :=
  ⟨⟨.content, [.leaf .string, .dict false, .array, .dict false]⟩,
    [some key, none, some "Add".toList], text⟩

/-- In DeviceProperties, behind its Add. -/
def inDevice : Cursor :=
  ⟨⟨.content, [.dict false, .dict false]⟩, [some "DeviceProperties".toList], []⟩

def closeString : Text := ['<', '/', 's', 't', 'r', 'i', 'n', 'g', '>']

/-- A string is opened under the key. -/
def keyOpens (key : Text) (p : Path) : List Event :=
  keyEvents key p ++ [⟨.opens .string, some key :: p, []⟩]

/-- What the texts of the script hold. -/
@[mk_iff] structure ContentTexts : Prop where
  add : Reads .inDict addHead (addEvents []) inAdd
  head : Reads inAdd dictHead (entryHead [some "Add".toList]) (inValue "BundlePath".toList [])
  lilu : Reads inAdd liluEntry (liluEvents [some "Add".toList]) inEntry
  closes : ∀ a ∈ [toComment, toExecutable, dictEnd], closeString <+: a
  comment : Reads inEntry (toComment.drop closeString.length)
    (keyOpens "Comment".toList [none, some "Add".toList]) (inValue "Comment".toList [])
  executable : Reads inEntry (toExecutable.drop closeString.length)
    (entryFlags [none, some "Add".toList] ++
      keyOpens "ExecutablePath".toList [none, some "Add".toList])
    (inValue "ExecutablePath".toList "Contents/MacOS/".toList)
  ends : Reads inEntry (dictEnd.drop closeString.length) (entryEnd [some "Add".toList]) inAdd
  deviceOld : Reads .inDict dpAnchor (deviceOld []) inDevice
  deviceNew : Reads .inDict dpNeutralize (deviceNew []) inDevice

theorem contentTexts : ContentTexts := by
  rw [contentTexts_iff]
  unfold liluEntry addHead dictHead toComment toExecutable dictEnd dpAnchor dpNeutralize inAdd
    inEntry inValue inDevice deviceOld deviceNew deviceHead deviceAdd igpuProperties igpuValues
    igpuKeyEvent igpuKey addEvents liluEvents bundleEvent entryHead entryFlags entryEnd keyOpens
    field keyEvents
  repeat rw [String.toList_ofList]
  decide +kernel

/-- A name of the kext, in the string of its key. -/
theorem reads_name {a : Text} (ha : closeString <+: a) {key text n : Text} {es : List Event}
    {s : Cursor} (hopens : '<' ∉ n) (hcloses : '>' ∉ n)
    (h : Reads inEntry (a.drop closeString.length) es s) :
    Reads (inValue key text) (n ++ a)
      (⟨.closes .string, [some key, none, some "Add".toList], text ++ n⟩ :: es) s := by
  obtain ⟨rest, rfl⟩ := ha
  rw [List.drop_left] at h
  have hname : Reads (inValue key text) n [] (inValue key (text ++ n)) :=
    reads_leaf rfl hopens hcloses _ text
  have hclose : Reads (inValue key (text ++ n)) (closeString ++ rest)
      (⟨.closes .string, [some key, none, some "Add".toList], text ++ n⟩ :: es) s := by
    obtain ⟨hfollow, hcontent⟩ := h
    exact ⟨hfollow, congrArg (List.cons _) hcontent⟩
  exact hname.append hclose

namespace Kext

variable {k : Kext}

theorem Unmarked.reads_entry (h : k.Unmarked) :
    Reads inAdd k.entry (k.element [some "Add".toList]) inAdd := by
  have texts := contentTexts
  have hname : ∀ a ∈ [toComment, toExecutable, dictEnd], ∀ n ∈ k.names, ∀ {key text es s},
      Reads inEntry (a.drop closeString.length) es s → Reads (inValue key text) (n ++ a)
        (⟨.closes .string, [some key, none, some "Add".toList], text ++ n⟩ :: es) s :=
    fun a ha n hn {_ _ _ _} hread => reads_name (texts.closes a ha) (h n hn).1 (h n hn).2 hread
  have hbundle := @hname toComment (by simp) k.bundle (by simp [names]) "BundlePath".toList [] _ _
    texts.comment
  have hcomment := @hname toExecutable (by simp) k.comment (by simp [names]) "Comment".toList [] _ _
    texts.executable
  have hexe := @hname dictEnd (by simp) k.exe (by simp [names]) "ExecutablePath".toList
    "Contents/MacOS/".toList _ _ texts.ends
  have hentry := texts.head.append (hbundle.append (hcomment.append hexe))
  simp only [keyOpens, List.append_assoc, List.cons_append, List.nil_append] at hentry
  exact hentry

/-- **The kernel edit puts the entry of the kext before Lilu's.** -/
theorem Unmarked.kernelAdd_section (h : k.Unmarked) :
    SectionEdit (kernelAdd k) (kernelOld []) (kernelNew k []) := by
  have texts := contentTexts
  have plist := plistTexts
  have hlilu := plist.comment liluEntry (by simp)
  have hhead := plist.comment addHead (by simp)
  have hold : (kernelAdd k).old = addHead ++ liluEntry := kernelAnchor_eq
  have hnew := kernelAdd_new k
  constructor
  · rw [hold]
    exact keyHeaded_of_prefix (plist.addHead.trans (List.prefix_append _ _))
  · rw [hnew]
    exact keyHeaded_of_prefix (plist.addHead.trans (List.prefix_append _ _))
  · rw [hold]
    exact commentAfter_zero_append hhead hlilu
  · rw [hnew]
    exact commentAfter_zero_append hhead (commentAfter_zero_append h.commentAfter_entry hlilu)
  · rw [hold, hnew]
    exact ⟨inEntry, texts.add.append texts.lilu,
      texts.add.append (h.reads_entry.append texts.lilu)⟩
  · exact kernelAnchor_solid

end Kext

/-- **The device properties edit puts the properties of the iGPU in its section.** -/
theorem deviceProperties_section :
    SectionEdit deviceProperties (deviceOld []) (deviceNew []) := by
  have texts := contentTexts
  have plist := plistTexts
  constructor
  · exact keyHeaded_of_prefix (plist.device dpAnchor (by simp))
  · exact keyHeaded_of_prefix (plist.device dpNeutralize (by simp))
  · exact plist.deviceComment dpAnchor (by simp)
  · exact plist.deviceComment dpNeutralize (by simp)
  · exact ⟨inDevice, texts.deviceOld, texts.deviceNew⟩
  · exact dpAnchor_solid

/-! ## The words of the entries -/

/-- What tells the events of the texts apart wherever they stand: the tag, the own key, and the key
that a tag closes. -/
structure Shape where
  tag : Tag
  own : Option (Option Text)
  key : Text
  deriving DecidableEq

def shape (x : Event) : Shape :=
  ⟨x.tag, x.path.head?, if x.tag = .closes .key then x.text else []⟩

theorem clear_of_shape {a b : List Event} (h : Clear (a.map shape) (b.map shape)) : Clear a b := by
  intro s hs hne hcomparable
  refine h (s.map shape) (hs.map shape) ?_ ?_
  · rwa [ne_eq, List.map_eq_nil_iff]
  · exact hcomparable.imp (fun hbegins => hbegins.map shape) fun hbegins => hbegins.map shape

theorem clear_tail_of_shape {a b : List Event}
    (h : Clear (a.map shape).tail (b.map shape)) : Clear a.tail b :=
  clear_of_shape (List.map_tail ▸ h)

/-- The words that tell whether the kext's entry stands in the array: the entry, and its bundle. -/
def Kext.words (k : Kext) (p : Path) : List (List Event) :=
  [k.element p, [bundleEvent k.bundle p]]

/-- The words that tell whether the properties of the iGPU stand in the dictionary: all of them, and
its key. -/
def igpuWords (p : Path) : List (List Event) := [igpuProperties p, [igpuKeyEvent p]]

def noKext : Kext := ⟨[], [], [], []⟩

def kextShapes : List (List Shape) := (noKext.words []).map (List.map shape)

def igpuShapes : List (List Shape) := (igpuWords []).map (List.map shape)

/-- The shapes of what the edits replace and of what they put there. -/
def editShapes : List (List Shape) :=
  [kernelOld [], kernelNew noKext [], deviceOld [], deviceNew []].map (List.map shape)

/-- NVRAM>Add>7C436110-AB2A-4BBB-A880-FE41995C9F82>boot-args. -/
def bootArgsPath : Path :=
  [some "boot-args".toList, some "7C436110-AB2A-4BBB-A880-FE41995C9F82".toList, some "Add".toList,
    some "NVRAM".toList, none, none]

/-- Where the words can begin; no section holds a string of the key of the boot arguments. -/
@[mk_iff] structure WordTexts : Prop where
  add : ∀ w ∈ kextShapes, Clear ((addEvents []).map shape) w
  entry : ∀ a ∈ [entryHead [], noKext.entryRest []],
    Clear (a.map shape) [shape (bundleEvent [] [])]
  lilu : Clear ((liluEvents []).tail.map shape) ((noKext.element []).map shape)
  device : ∀ w ∈ kextShapes ++ igpuShapes, Clear ((deviceOld []).map shape) w
  deviceKext : ∀ w ∈ kextShapes, Clear ((deviceNew []).map shape) w
  deviceHead : ∀ w ∈ igpuShapes, Clear ((Efi.deviceHead []).map shape) w
  deviceDict : ∀ w ∈ igpuShapes, ∀ t ∈ [Tag.opens .dict, .closes .dict],
    Clear [⟨t, some (some "Add".toList), []⟩] w
  igpu : ∀ a ∈ [[⟨.opens .key, [none], []⟩], igpuValues []],
    Clear (a.map shape) [shape (igpuKeyEvent [])]
  kernelIgpu : ∀ w ∈ igpuShapes, ∀ a ∈ [kernelOld [], kernelNew noKext []],
    Clear (a.map shape) w
  own : ∀ w ∈ kextShapes ++ igpuShapes, Clear w.tail w
  tails : ∀ w ∈ kextShapes ++ igpuShapes, ∀ a ∈ editShapes, Clear w.tail a
  strings : ∀ a ∈ editShapes, ∀ x ∈ a, x.tag = .closes .string → x.own ≠ bootArgsPath.head?

theorem wordTexts : WordTexts := by
  rw [wordTexts_iff]
  unfold kextShapes igpuShapes editShapes noKext Kext.words igpuWords deviceOld deviceNew deviceHead
    deviceAdd igpuProperties igpuValues igpuKeyEvent igpuKey kernelOld kernelNew Kext.element
    Kext.entryRest addEvents liluEvents bundleEvent entryHead entryFlags entryEnd field keyEvents
    bootArgsPath
  repeat rw [String.toList_ofList]
  decide +kernel

theorem igpuWords_shape {p : Path} {w : List Event} (hw : w ∈ igpuWords p) :
    w.map shape ∈ igpuShapes := by
  have hsame : (igpuWords p).map (List.map shape) = igpuShapes := rfl
  rw [← hsame]
  exact List.mem_map_of_mem hw

namespace Kext

variable {k : Kext} {w : List Event}

theorem words_shape {p : Path} (hw : w ∈ k.words p) : w.map shape ∈ kextShapes := by
  have hsame : (k.words p).map (List.map shape) = kextShapes := rfl
  rw [← hsame]
  exact List.mem_map_of_mem hw

theorem mem_words {p : Path} (hw : w ∈ k.words p) :
    w = k.element p ∨ w = [bundleEvent k.bundle p] := by
  simpa [words] using hw

/-- The heads of two entries are as long, and their bundles differ. -/
theorem Plain.not_comparable_lilu (h : k.Plain) (q q' : Path) :
    ¬(liluEvents q <+: k.element q' ∨ k.element q' <+: liluEvents q) := by
  have hbundle : ∀ s s' : List Event, entryHead q ++ (bundleEvent "Lilu.kext".toList q :: s) ≠
      entryHead q' ++ (bundleEvent k.bundle q' :: s') := by
    intro s s' heq
    obtain ⟨-, htail⟩ := List.append_inj heq rfl
    exact h.lilu (congrArg Event.text (List.cons.inj htail).1).symm
  unfold liluEvents element
  rintro (⟨s, hs⟩ | ⟨s, hs⟩)
  · rw [List.append_assoc] at hs
    exact hbundle _ _ hs
  · rw [List.append_assoc] at hs
    exact hbundle _ _ hs.symm

theorem Plain.lilu_clear_words (h : k.Plain) {q' : Path} (hw : w ∈ k.words q') (q : Path) :
    Clear (liluEvents q) w := by
  have texts := wordTexts
  rcases mem_words hw with rfl | rfl
  · exact Clear.of_tail (h.not_comparable_lilu q q') (clear_of_shape texts.lilu)
  · have hhead : Clear (entryHead q) [bundleEvent k.bundle q'] :=
      clear_of_shape (texts.entry (entryHead []) (by simp))
    have hbundle : Clear [bundleEvent "Lilu.kext".toList q] [bundleEvent k.bundle q'] := by
      refine Clear.of_tail ?_ (clear_nil _)
      simp only [List.cons_prefix_cons, List.prefix_nil, and_true, bundleEvent, Event.mk.injEq]
      rintro (⟨-, -, heq⟩ | ⟨-, -, heq⟩)
      · exact h.lilu heq.symm
      · exact h.lilu heq
    exact hhead.append hbundle

/-- What the edit puts into a section holds each word of the entry once. -/
theorem Plain.occurrences_kernelNew (h : k.Plain) {path : Path}
    (hw : w ∈ k.words (some "Add".toList :: path)) (p : Path) (es : List Event) :
    occurrences w (kernelNew k p ++ es) = occurrences w es + if p = path then 1 else 0 := by
  have texts := wordTexts
  have hadd : Clear (addEvents p) w := clear_of_shape (texts.add _ (words_shape hw))
  have hlilu := h.lilu_clear_words hw (some "Add".toList :: p)
  have hpath : (some "Add".toList :: p = some "Add".toList :: path) = (p = path) := by
    rw [List.cons.injEq, eq_self, true_and]
  unfold kernelNew
  rw [List.append_assoc, List.append_assoc, occurrences_append hadd]
  rcases mem_words hw with rfl | rfl
  · have hmem : ∀ q, (k.element q).map shape ∈ kextShapes ++ igpuShapes := fun q =>
      List.mem_append_left _ (words_shape (k := k) (p := q) (by simp [words]))
    have hown := occurrences_own (w := k.element) (fun q => List.cons_ne_nil _ _)
      (fun q q' hq => (List.cons.inj (congrArg Event.path (Option.some.inj hq))).2)
      (fun q q' => clear_tail_of_shape (texts.own _ (hmem q)))
    rw [hown, occurrences_append hlilu]
    simp only [hpath]
  · have hentry : ∀ a ∈ [entryHead [], noKext.entryRest []],
        Clear (a.map shape) ([bundleEvent k.bundle (some "Add".toList :: path)].map shape) :=
      texts.entry
    have hhead : Clear (entryHead (some "Add".toList :: p))
        [bundleEvent k.bundle (some "Add".toList :: path)] :=
      clear_of_shape (hentry (entryHead []) (by simp))
    have hrest : Clear (k.entryRest (some "Add".toList :: p))
        [bundleEvent k.bundle (some "Add".toList :: path)] :=
      clear_of_shape (hentry (noKext.entryRest []) (by simp))
    have hown := occurrences_own (w := fun q => [bundleEvent k.bundle q])
      (fun q => List.cons_ne_nil _ _)
      (fun q q' hq => by simpa [bundleEvent] using hq) (fun q q' => clear_nil _)
    unfold element
    rw [List.append_assoc, occurrences_append hhead, List.cons_append]
    refine (hown _ _ (k.entryRest (some "Add".toList :: p) ++
      (liluEvents (some "Add".toList :: p) ++ es))).trans ?_
    rw [occurrences_append hrest, occurrences_append hlilu]
    simp only [hpath]

theorem Plain.occurrences_kernelOld (h : k.Plain) {path : Path} (hw : w ∈ k.words path)
    (p : Path) (es : List Event) : occurrences w (kernelOld p ++ es) = occurrences w es := by
  have texts := wordTexts
  have hadd : Clear (addEvents p) w := clear_of_shape (texts.add _ (words_shape hw))
  exact occurrences_append (hadd.append (h.lilu_clear_words hw _)) es

end Kext

section Igpu

variable {w : List Event}

theorem mem_igpuWords {p : Path} (hw : w ∈ igpuWords p) :
    w = igpuProperties p ∨ w = [igpuKeyEvent p] := by
  simpa [igpuWords] using hw

/-- What the edit puts into its section holds each word of the properties once. -/
theorem occurrences_deviceNew {path : Path} (hw : w ∈ igpuWords (deviceAdd path)) (p : Path)
    (es : List Event) :
    occurrences w (deviceNew p ++ es) = occurrences w es + if p = path then 1 else 0 := by
  have texts := wordTexts
  have hshape := igpuWords_shape hw
  have hhead : Clear (deviceHead p) w := clear_of_shape (texts.deviceHead _ hshape)
  have hopens : Clear [⟨.opens .dict, deviceAdd p, []⟩] w :=
    clear_of_shape (texts.deviceDict _ hshape (.opens .dict) (by simp))
  have hcloses : Clear [⟨.closes .dict, deviceAdd p, []⟩] w :=
    clear_of_shape (texts.deviceDict _ hshape (.closes .dict) (by simp))
  have hpath : (deviceAdd p = deviceAdd path) = (p = path) := by
    unfold deviceAdd
    rw [List.cons.injEq, List.cons.injEq, eq_self, eq_self, true_and, true_and]
  have hsplit : deviceNew p ++ es = deviceHead p ++ ([⟨.opens .dict, deviceAdd p, []⟩] ++
      (igpuProperties (deviceAdd p) ++ ([⟨.closes .dict, deviceAdd p, []⟩] ++ es))) := by
    unfold deviceNew
    simp only [List.append_assoc, List.cons_append, List.nil_append]
  rw [hsplit, occurrences_append hhead, occurrences_append hopens]
  rcases mem_igpuWords hw with rfl | rfl
  · have hmem : ∀ q, (igpuProperties q).map shape ∈ kextShapes ++ igpuShapes := fun q =>
      List.mem_append_right _ (igpuWords_shape (p := q) (by simp [igpuWords]))
    have hown := occurrences_own (w := igpuProperties) (fun q => List.cons_ne_nil _ _)
      (fun q q' hq => (List.cons.inj (congrArg Event.path (Option.some.inj hq))).2)
      (fun q q' => clear_tail_of_shape (texts.own _ (hmem q)))
    rw [hown, occurrences_append hcloses]
    simp only [hpath]
  · have higpu : ∀ a ∈ [[⟨.opens .key, [none], []⟩], igpuValues []],
        Clear (a.map shape) ([igpuKeyEvent (deviceAdd path)].map shape) := texts.igpu
    have hkey : Clear [⟨.opens .key, none :: deviceAdd p, []⟩] [igpuKeyEvent (deviceAdd path)] :=
      clear_of_shape (higpu [⟨.opens .key, [none], []⟩] (by simp))
    have hvalues : Clear (igpuValues (deviceAdd p)) [igpuKeyEvent (deviceAdd path)] :=
      clear_of_shape (higpu (igpuValues []) (by simp))
    have hown := occurrences_own (w := fun q => [igpuKeyEvent q]) (fun q => List.cons_ne_nil _ _)
      (fun q q' hq => by simpa [igpuKeyEvent] using hq) (fun q q' => clear_nil _)
    refine (occurrences_append hkey _).trans ((hown _ _ (igpuValues (deviceAdd p) ++
      ([⟨.closes .dict, deviceAdd p, []⟩] ++ es))).trans ?_)
    rw [occurrences_append hvalues, occurrences_append hcloses]
    simp only [hpath]

end Igpu

/-! ## What the edits do to the words -/

/-- The names of the kext and the place leave the shapes of the edits as they are. -/
theorem edit_shape (k : Kext) (p : Path) {a : List Event}
    (ha : a ∈ [kernelOld [], kernelNew k [], deviceOld [], deviceNew []]) :
    (a.map (Event.lift p)).map shape ∈ editShapes := by
  have hsame : [kernelOld [], kernelNew k [], deviceOld [], deviceNew []].map
      (fun a => (a.map (Event.lift p)).map shape) = editShapes := rfl
  rw [← hsame]
  exact List.mem_map_of_mem (f := fun a => (a.map (Event.lift p)).map shape) ha

/-- No text of the edits begins behind the head of a word. -/
theorem word_tail_clear {w : List Event} (hw : w.map shape ∈ kextShapes ++ igpuShapes) (k : Kext)
    {a : List Event} (ha : a ∈ [kernelOld [], kernelNew k [], deviceOld [], deviceNew []])
    (p : Path) : Clear w.tail (a.map (Event.lift p)) := by
  have texts := wordTexts
  exact clear_tail_of_shape (texts.tails _ hw _ (edit_shape k p ha))

theorem ne_nil_of_mem_words {k : Kext} {p : Path} {w : List Event} (hw : w ∈ k.words p) :
    w ≠ [] := by
  rcases Kext.mem_words hw with rfl | rfl <;> exact List.cons_ne_nil _ _

theorem ne_nil_of_mem_igpuWords {p : Path} {w : List Event} (hw : w ∈ igpuWords p) : w ≠ [] := by
  rcases mem_igpuWords hw with rfl | rfl <;> exact List.cons_ne_nil _ _

/-- **The kernel edit puts each word of the entry once into each section that holds its anchor.** -/
theorem occurrences_kernelAdd {k : Kext} (hplain : k.Plain) (hmarks : k.Unmarked) {path : Path}
    {w : List Event} (hw : w ∈ k.words (some "Add".toList :: path)) (t : Text) :
    occurrences w (contents ((kernelAdd k).replace t)) =
      occurrences w (contents t) + standing (.dict false) path kernelAnchor (some .start) t := by
  obtain ⟨ps, hwoven, hps⟩ := hmarks.kernelAdd_section.woven t (some .start)
  have hshape := List.mem_append_left igpuShapes (Kext.words_shape hw)
  have hcount := hwoven.occurrences (ne_nil_of_mem_words hw) (g := 1)
    (hplain.occurrences_kernelOld hw) (hplain.occurrences_kernelNew hw)
    (word_tail_clear hshape k (by simp)) (word_tail_clear hshape k (by simp))
  rw [hps, Nat.mul_one] at hcount
  exact hcount

/-- **The device properties edit puts each word of the properties once into each section that holds
its anchor.** -/
theorem occurrences_deviceProperties {path : Path} {w : List Event}
    (hw : w ∈ igpuWords (deviceAdd path)) (t : Text) :
    occurrences w (contents (deviceProperties.replace t)) =
      occurrences w (contents t) + standing (.dict false) path dpAnchor (some .start) t := by
  have texts := wordTexts
  obtain ⟨ps, hwoven, hps⟩ := deviceProperties_section.woven t (some .start)
  have hshape := List.mem_append_right kextShapes (igpuWords_shape hw)
  have hold : ∀ p, Clear (deviceOld p) w := fun p => clear_of_shape (texts.device _ hshape)
  have hcount := hwoven.occurrences (ne_nil_of_mem_igpuWords hw) (g := 1)
    (fun p => occurrences_append (hold p)) (occurrences_deviceNew hw)
    (word_tail_clear hshape noKext (by simp)) (word_tail_clear hshape noKext (by simp))
  rw [hps, Nat.mul_one] at hcount
  exact hcount

theorem kernelAdd_keeps {k : Kext} (hmarks : k.Unmarked) {path : Path} {w : List Event}
    (hw : w ∈ igpuWords path) (t : Text) :
    occurrences w (contents ((kernelAdd k).replace t)) = occurrences w (contents t) := by
  have texts := wordTexts
  obtain ⟨ps, hwoven, -⟩ := hmarks.kernelAdd_section.woven t (some .start)
  have hshape := igpuWords_shape hw
  have hmem := List.mem_append_right kextShapes hshape
  have hold : ∀ p, Clear (kernelOld p) w := fun p =>
    clear_of_shape (texts.kernelIgpu _ hshape (kernelOld []) (by simp))
  have hnew : ∀ p, Clear (kernelNew k p) w := fun p =>
    clear_of_shape (texts.kernelIgpu _ hshape (kernelNew noKext []) (by simp))
  exact hwoven.occurrences_of_clear (ne_nil_of_mem_igpuWords hw) hold hnew
    (word_tail_clear hmem k (by simp)) (word_tail_clear hmem k (by simp))

theorem deviceProperties_keeps {k : Kext} {path : Path} {w : List Event} (hw : w ∈ k.words path)
    (t : Text) :
    occurrences w (contents (deviceProperties.replace t)) = occurrences w (contents t) := by
  have texts := wordTexts
  obtain ⟨ps, hwoven, -⟩ := deviceProperties_section.woven t (some .start)
  have hshape := Kext.words_shape hw
  have hmem := List.mem_append_left igpuShapes hshape
  have hold : ∀ p, Clear (deviceOld p) w := fun p => clear_of_shape (texts.device _ hmem)
  have hnew : ∀ p, Clear (deviceNew p) w := fun p => clear_of_shape (texts.deviceKext _ hshape)
  exact hwoven.occurrences_of_clear (ne_nil_of_mem_words hw) hold hnew
    (word_tail_clear hmem k (by simp)) (word_tail_clear hmem k (by simp))

/-! ## The boot arguments -/

theorem strings_of_shape {path : Path} {es : List Event}
    (h : ∀ x ∈ es.map shape, x.tag = .closes .string → x.own ≠ path.head?) :
    strings path es = [] := by
  unfold strings
  rw [List.filterMap_eq_nil_iff]
  intro x hx
  refine if_neg fun hstring => h (shape x) (List.mem_map_of_mem hx) hstring.1 ?_
  exact congrArg List.head? hstring.2

theorem edit_strings (k : Kext) {a : List Event}
    (ha : a ∈ [kernelOld [], kernelNew k [], deviceOld [], deviceNew []]) (p : Path) :
    strings bootArgsPath (a.map (Event.lift p)) = [] := by
  have texts := wordTexts
  exact strings_of_shape (texts.strings _ (edit_shape k p ha))

theorem kernelAdd_strings {k : Kext} (hmarks : k.Unmarked) (t : Text) :
    strings bootArgsPath (contents ((kernelAdd k).replace t)) =
      strings bootArgsPath (contents t) := by
  obtain ⟨ps, hwoven, -⟩ := hmarks.kernelAdd_section.woven t (some .start)
  exact hwoven.strings (edit_strings k (by simp)) (edit_strings k (by simp))

theorem deviceProperties_strings (t : Text) :
    strings bootArgsPath (contents (deviceProperties.replace t)) =
      strings bootArgsPath (contents t) := by
  obtain ⟨ps, hwoven, -⟩ := deviceProperties_section.woven t (some .start)
  exact hwoven.strings (edit_strings noKext (by simp)) (edit_strings noKext (by simp))

end HonorFB.Efi
