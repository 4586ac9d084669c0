import HonorFB.Efi.Script
import HonorFB.Lib.Plist

/-!
# The build keeps the config a property list

`Build` edits `config.plist` as text, wherever its anchors stand: in a comment, in a string, at the
wrong depth. Still it cannot break the file, nor mend it: each replacement does to what is open what
its anchor did, so what is written is well formed exactly if the base was (`build_wellFormed_iff`),
and no run of the script leaves a variant with a broken config (`runs_wellFormed`).
-/

namespace HonorFB.Efi

open Plist Replace

/-- Names without brackets. -/
def Kext.Unmarked (k : Kext) : Prop := ∀ n ∈ k.names, '<' ∉ n ∧ '>' ∉ n

structure Request.Unmarked (r : Request) : Prop where
  boot : r.boot ∈ [bootA, bootBC]
  kext : ∀ k, r.kext = some k → k.Unmarked

/-! ## The texts of the script -/

/-- In a dictionary that waits for a key. -/
def waiting : List Frame := [.dict false]

/-- In the string of a dictionary in an array. -/
def inString : List Frame := [.leaf .string, .dict false, .array]

/-- What the texts of the script do to what is open. -/
@[mk_iff] structure PlistTexts : Prop where
  addHead : List.replicate 2 '\t' ++ ['<', 'k', 'e', 'y', '>'] <+: addHead
  device : ∀ a ∈ [dpAnchor, dpNeutralize],
    List.replicate 1 '\t' ++ ['<', 'k', 'e', 'y', '>'] <+: a
  comment : ∀ a ∈ [Efi.addHead, dictHead, liluEntry], commentAfter 0 a = some 0
  deviceComment : ∀ a ∈ [dpAnchor, dpNeutralize], commentAfter 0 a = some 0
  nameComment : ∀ a ∈ [toComment, toExecutable, dictEnd], commentAfter 0 a = some 0
  nameEnd : ∀ a ∈ [toComment, toExecutable, dictEnd], a.head? = some '<'
  readHead : read (some ⟨.content, waiting⟩) Efi.addHead = some ⟨.content, .array :: waiting⟩
  readDict : read (some ⟨.content, [.array]⟩) dictHead = some ⟨.content, inString⟩
  readComment : read (some ⟨.content, inString⟩) toComment = some ⟨.content, inString⟩
  readExecutable : read (some ⟨.content, inString⟩) toExecutable = some ⟨.content, inString⟩
  readEnd : read (some ⟨.content, inString⟩) dictEnd = some ⟨.content, [.array]⟩
  readDevice : ∀ a ∈ [dpAnchor, dpNeutralize],
    read (some ⟨.content, waiting⟩) a = some ⟨.content, .dict false :: waiting⟩
  bootWords : Words bootBC
  flagWords : ∀ b ∈ [bootOld, bootA, bootBC], Words (b.drop bootBC.length)
  bootHead : ['-', 'v'] <+: bootBC

theorem plistTexts : PlistTexts := by
  rw [plistTexts_iff]
  unfold liluEntry bootOld bootA bootBC dpAnchor dpNeutralize addHead dictHead toComment
    toExecutable dictEnd
  repeat rw [String.toList_ofList]
  decide +kernel

theorem keyHeaded_of_prefix {n : Nat} {a : Text}
    (h : List.replicate (n + 1) '\t' ++ ['<', 'k', 'e', 'y', '>'] <+: a) : KeyHeaded a := by
  obtain ⟨rest, rfl⟩ := h
  exact ⟨n, rest, List.append_assoc _ _ _⟩

/-! ## The boot arguments -/

theorem boot_same {b : Text} (hb : b ∈ [bootOld, bootA, bootBC]) : Same b bootBC := by
  have texts := plistTexts
  obtain ⟨t, hhead⟩ := texts.bootHead
  obtain ⟨flags, rfl⟩ := bootBC_begins hb
  have hflags := texts.flagWords _ hb
  have hwords := texts.bootWords
  rw [List.drop_left] at hflags
  rw [← hhead] at hwords ⊢
  exact same_words_append hwords (by decide) (by decide) (by decide) hflags

theorem bootArgs_same {boot : Text} (h : boot ∈ [bootA, bootBC]) :
    Same (bootArgs boot).new (bootArgs boot).old :=
  (boot_same (List.mem_cons_of_mem _ h)).trans (boot_same List.mem_cons_self).symm

/-! ## The device properties -/

theorem deviceProperties_same : Same deviceProperties.new deviceProperties.old := by
  have texts := plistTexts
  have hread : ∀ a ∈ [dpAnchor, dpNeutralize], ∀ r,
      read (some ⟨.content, .dict false :: r⟩) a =
        some ⟨.content, .dict false :: .dict false :: r⟩ :=
    fun a ha r => read_frame a (texts.readDevice a ha) r
  apply same_of_key
  · exact keyHeaded_of_prefix (texts.device dpNeutralize (by simp))
  · exact keyHeaded_of_prefix (texts.device dpAnchor (by simp))
  · exact texts.deviceComment dpNeutralize (by simp)
  · exact texts.deviceComment dpAnchor (by simp)
  · intro r
    exact (hread dpNeutralize (by simp) r).trans (hread dpAnchor (by simp) r).symm

/-! ## The kext entry -/

namespace Kext

variable {k : Kext}

theorem Unmarked.commentAfter_entry (h : k.Unmarked) : commentAfter 0 k.entry = some 0 := by
  have texts := plistTexts
  have hcomment := texts.nameComment
  have hhead : ∀ a ∈ [toComment, toExecutable, dictEnd], ∀ t, (a ++ t).head? = some '<' := by
    intro a ha t
    rw [List.head?_append, texts.nameEnd a ha]
    rfl
  have hexe : commentAfter 0 (k.exe ++ dictEnd) = some 0 :=
    commentAfter_tag (h k.exe (by simp [names])).2 (texts.nameEnd dictEnd (by simp))
      (hcomment dictEnd (by simp)) 0
  have hexecutable := commentAfter_zero_append (hcomment toExecutable (by simp)) hexe
  have hcomments := commentAfter_zero_append (hcomment toComment (by simp))
    (commentAfter_tag (h k.comment (by simp [names])).2 (hhead toExecutable (by simp) _)
      hexecutable 0)
  have hbundle := commentAfter_tag (h k.bundle (by simp [names])).2 (hhead toComment (by simp) _)
    hcomments 0
  exact commentAfter_zero_append (texts.comment dictHead (by simp)) hbundle

/-- The entry is a value of the array it is put in. -/
theorem Unmarked.read_entry (h : k.Unmarked) (r : List Frame) :
    read (some ⟨.content, .array :: r⟩) k.entry = some ⟨.content, .array :: r⟩ := by
  have texts := plistTexts
  have hname : ∀ n ∈ k.names,
      read (some ⟨.content, inString ++ r⟩) n = some ⟨.content, inString ++ r⟩ :=
    fun n hn => read_leaf rfl (h n hn).1
  have hdict : read (some ⟨.content, .array :: r⟩) dictHead = some ⟨.content, inString ++ r⟩ :=
    read_frame dictHead texts.readDict r
  have hcomment := read_frame toComment texts.readComment r
  have hexecutable := read_frame toExecutable texts.readExecutable r
  unfold entry
  rw [read_append, hdict, read_append, hname k.bundle (by simp [names]), read_append, hcomment,
    read_append, hname k.comment (by simp [names]), read_append, hexecutable, read_append,
    hname k.exe (by simp [names])]
  exact read_frame dictEnd texts.readEnd r

end Kext

theorem kernelAdd_same {k : Kext} (h : k.Unmarked) : Same (kernelAdd k).new (kernelAdd k).old := by
  have texts := plistTexts
  have hlilu := texts.comment liluEntry (by simp)
  have haddHead := texts.comment addHead (by simp)
  rw [kernelAdd_new, kernelAdd_old, kernelAnchor_eq]
  apply same_of_key
  · exact keyHeaded_of_prefix (texts.addHead.trans (List.prefix_append _ _))
  · exact keyHeaded_of_prefix (texts.addHead.trans (List.prefix_append _ _))
  · exact commentAfter_zero_append haddHead (commentAfter_zero_append h.commentAfter_entry hlilu)
  · exact commentAfter_zero_append haddHead hlilu
  · intro r
    have hhead : read (some ⟨.content, .dict false :: r⟩) addHead =
        some ⟨.content, .array :: .dict false :: r⟩ := read_frame addHead texts.readHead r
    rw [read_append, read_append _ addHead liluEntry, hhead, read_append, h.read_entry]

/-! ## The build -/

theorem Request.Unmarked.edits_same {r : Request} (h : r.Unmarked) :
    ∀ e ∈ r.edits, Same e.new e.old :=
  forall_edits (bootArgs_same h.boot) (fun k hk => kernelAdd_same (h.kext k hk))
    deviceProperties_same

theorem wellFormed_foldl_iff {es : List (Edit Char)} (h : ∀ e ∈ es, Same e.new e.old) :
    ∀ t, WellFormed (es.foldl (fun t e => e.replace t) t) ↔ WellFormed t := by
  induction es with
  | nil =>
    intro t
    exact Iff.rfl
  | cons e es ih =>
    intro t
    rw [List.forall_mem_cons] at h
    exact (ih h.2 _).trans (wellFormed_replace_iff h.1 t)

/-- **What a build writes is a property list exactly if the base is one.** -/
theorem build_wellFormed_iff (ocv : Option (Text → Text)) (base : Text) {r : Request}
    (h : r.Unmarked) :
    ∃ text, (build ocv base r).dir.config = some text ∧ (WellFormed text ↔ WellFormed base) :=
  ⟨_, build_config ocv base r, wellFormed_foldl_iff h.edits_same base⟩

/-- The kexts the script names have no brackets. -/
theorem kexts_unmarked : ∀ k ∈ [uefifb, honorfb], k.Unmarked := by
  unfold Kext.Unmarked uefifb honorfb
  repeat rw [String.toList_ofList]
  decide +kernel

/-- The sample config as a file, with its declaration. -/
@[irreducible] def sampleList : Text :=
  "<?xml version=\"1.0\" encoding=\"UTF-8\"?>
<plist version=\"1.0\">
<dict>
".toList ++ (sampleConfig dpAnchor ++ "</dict>
</plist>
".toList)

theorem sampleList_wellFormed : WellFormed sampleList := by
  unfold sampleList sampleConfig bootOld kernelAnchor dpAnchor
  repeat rw [String.toList_ofList]
  decide +kernel

theorem build_wellFormed_iff_honorfb :
    ∃ text, (build none sampleList variantC).dir.config = some text ∧ WellFormed text := by
  have hkext : ∀ k, variantC.kext = some k → k.Unmarked := by
    intro k hk
    rw [← Option.some.inj hk]
    exact kexts_unmarked honorfb (by simp)
  have hboot := (variants_plain variantC (by simp)).boot
  obtain ⟨text, hconfig, hiff⟩ := build_wellFormed_iff none sampleList ⟨hboot, hkext⟩
  exact ⟨text, hconfig, hiff.2 sampleList_wellFormed⟩

/-! ## Runs of the script -/

theorem variants_unmarked : ∀ r ∈ script, r.Unmarked := by
  intro r hr
  refine ⟨(variants_plain r hr).boot, ?_⟩
  simp only [script, List.mem_cons, List.not_mem_nil, or_false] at hr
  rcases hr with rfl | rfl | rfl
  · exact fun k hk => nomatch hk
  · exact fun k hk => kexts_unmarked k (by rw [← Option.some.inj hk]; exact List.mem_cons_self)
  · exact fun k hk => kexts_unmarked k (by rw [← Option.some.inj hk]; simp)

/-- The config of a variant, where it has one, is a property list. -/
def Sound (dir : Option VariantDir) : Prop :=
  ∀ d, dir = some d → ∀ text, d.config = some text → WellFormed text

/-- A build leaves a property list, also where it stops. -/
theorem Host.left_sound {host : Host} (hbase : ∀ base, host.config = some base → WellFormed base)
    {r : Request} (hr : r ∈ script) : Sound (some (host.left r)) := by
  intro d hd text htext
  obtain rfl := Option.some.inj hd
  have hplain := variants_plain r hr
  have hleaves := host.left_leaves hplain
  generalize host.left r = left at hleaves htext
  cases hleaves with
  | noConfig hconfig => cases htext
  | bareBase base k hconfig hk hmissing =>
    obtain rfl := Option.some.inj htext
    exact hbase base hconfig
  | built base hconfig hkext =>
    have hiff := wellFormed_foldl_iff (variants_unmarked r hr).edits_same base
    rw [foldl_replace_eq hplain.apart] at hiff
    rw [← Option.some.inj htext]
    exact hiff.2 (hbase base hconfig)

/-- **No run leaves a broken config**: on machines whose bases are property lists, every config in
the variants' directories stays one. -/
theorem runs_wellFormed (hosts : List Host)
    (hbases : ∀ host ∈ hosts, ∀ base, host.config = some base → WellFormed base) (root : Root)
    (hroot : ∀ name, Sound (root name)) : ∀ name, Sound (runs hosts root name) := by
  apply Failstop.runs_forall
  · intro host hhost r hr
    exact host.left_sound (hbases host hhost) hr
  · exact hroot

/-- A run on the sample config, and one on a machine without a config. -/
theorem runs_wellFormed_twice :
    Sound (runs [⟨some sampleList, fun _ => true, none⟩, ⟨none, fun _ => true, none⟩]
      (fun _ => none) variantC.name) := by
  refine runs_wellFormed _ ?_ _ ?_ variantC.name
  · simp only [List.forall_mem_cons]
    refine ⟨fun base hbase => ?_, fun base hbase => ?_, List.forall_mem_nil _⟩
    · rw [← Option.some.inj hbase]
      exact sampleList_wellFormed
    · cases hbase
  · intro name dir hdir
    cases hdir

end HonorFB.Efi
