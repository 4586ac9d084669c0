import HonorFB.Efi.Model
import HonorFB.Lib.Occurrences
import Mathlib.Tactic.MkIffOfInductiveProp

/-!
# The patcher makes exactly its edits

The replacements repeat the anchors' own lines, but no text of one edit can begin inside a text of
another: the boot arguments hold no tab, and every other text begins with one; the heads of the
Kernel and the DeviceProperties texts stand nowhere else in them. What is put between the lines of
the kext entry holds neither a tab nor markup.
-/

namespace HonorFB.Efi

open Replace

def Kext.names (k : Kext) : List Text := [k.bundle, k.exe, k.comment]

/-- A bundle other than Lilu's, and names that hold no tab, no markup and not the boot arguments. -/
structure Kext.Plain (k : Kext) : Prop where
  lilu : k.bundle ≠ "Lilu.kext".toList
  tab : ∀ n ∈ k.names, '\t' ∉ n
  markup : ∀ n ∈ k.names, '<' ∉ n
  boot : ∀ n ∈ k.names, ¬bootOld <:+: n

/-! ## The parts of the Kernel texts -/

@[irreducible] def addHead : Text := "\t\t<key>Add</key>\n\t\t<array>\n".toList

@[irreducible] def dictHead : Text :=
"\t\t\t<dict>
\t\t\t\t<key>Arch</key>
\t\t\t\t<string>x86_64</string>
\t\t\t\t<key>BundlePath</key>
\t\t\t\t<string>".toList

@[irreducible] def toComment : Text :=
"</string>
\t\t\t\t<key>Comment</key>
\t\t\t\t<string>".toList

@[irreducible] def toExecutable : Text :=
"</string>
\t\t\t\t<key>Enabled</key>
\t\t\t\t<true/>
\t\t\t\t<key>ExecutablePath</key>
\t\t\t\t<string>Contents/MacOS/".toList

@[irreducible] def dictEnd : Text :=
"</string>
\t\t\t\t<key>MaxKernel</key>
\t\t\t\t<string></string>
\t\t\t\t<key>MinKernel</key>
\t\t\t\t<string></string>
\t\t\t\t<key>PlistPath</key>
\t\t\t\t<string>Contents/Info.plist</string>
\t\t\t</dict>\n".toList

/-- The entry of the kext itself. -/
def Kext.entry (k : Kext) : Text :=
  dictHead ++ (k.bundle ++ (toComment ++ (k.comment ++ (toExecutable ++ (k.exe ++ dictEnd)))))

/-- The head of Lilu's entry, up to its bundle. -/
def liluEntry : Text := dictHead ++ "Lilu.kext</string>".toList

theorem kernelAnchor_eq : kernelAnchor = addHead ++ liluEntry := by
  unfold kernelAnchor liluEntry addHead dictHead
  repeat rw [String.toList_ofList]
  rfl

set_option maxRecDepth 2000 in
/-- The new entry stands before Lilu's. -/
theorem kernelAdd_new (k : Kext) : (kernelAdd k).new = addHead ++ (k.entry ++ liluEntry) := by
  unfold kernelAdd kextEntry Kext.entry liluEntry addHead dictHead toComment toExecutable dictEnd
  simp only [List.append_assoc]
  repeat rw [String.toList_ofList]
  rfl

@[irreducible] def dpHead : Text := "\t<key>DeviceProperties</key>".toList

/-! ## Where the texts can begin -/

theorem ne_nil_of_begin {t : Text} {c : Char} (h : t.head? = some c) : t ≠ [] :=
  List.isSome_head?.1 (by rw [h]; rfl)

/-- What stands behind the head of the kext entry, without the names. -/
def entryLines : List Text := dictHead :: ([toComment, toExecutable, dictEnd] ++ [liluEntry])

/-- What the texts of the script begin with, and what can begin inside them. -/
@[mk_iff] structure ScriptTexts : Prop where
  bootBegins : ∀ b ∈ [bootOld, bootA, bootBC], bootBC <+: b
  bootNe : ∀ b ∈ [bootOld, bootA, bootBC], b ≠ []
  bootTab : ∀ b ∈ [bootOld, bootA, bootBC], '\t' ∉ b
  bootMarkup : ∀ b ∈ [bootOld, bootA, bootBC], '<' ∉ b ∧ '>' ∉ b
  bootSettled : ¬bootOld <:+: bootBC
  dpBegins : ∀ a ∈ [dpAnchor, dpNeutralize], dpHead <+: a
  headTab : ∀ a ∈ [addHead, dpHead], a.head? = some '\t'
  nameEnd : ∀ a ∈ [toComment, toExecutable, dictEnd], a.head? = some '<'
  lines : ∀ b ∈ [bootBC, addHead, dpHead], ∀ a ∈ entryLines, Clear a b
  noBoot : ∀ a ∈ [addHead, dpAnchor, dpNeutralize], Clear a bootBC
  noDevice : Clear addHead dpHead
  noAdd : ∀ a ∈ [dpAnchor, dpNeutralize], Clear a addHead
  bootTail : ∀ b ∈ [bootOld, bootA, bootBC], Clear b.tail bootBC
  addTail : Clear addHead.tail addHead
  dpTail : ∀ a ∈ [dpAnchor, dpNeutralize], Clear a.tail dpHead
  neutralized : Clear dpNeutralize dpAnchor
  liluMarkup : '<' ∉ "Lilu.kext".toList

theorem scriptTexts : ScriptTexts := by
  rw [scriptTexts_iff]
  unfold entryLines liluEntry bootOld bootA bootBC dpAnchor dpNeutralize dpHead addHead
    dictHead toComment toExecutable dictEnd
  repeat rw [String.toList_ofList]
  decide +kernel

theorem bootBC_begins {b : Text} (hb : b ∈ [bootOld, bootA, bootBC]) : bootBC <+: b := by
  have texts := scriptTexts
  exact texts.bootBegins b hb

theorem addHead_begin : addHead.head? = some '\t' := by
  have texts := scriptTexts
  exact texts.headTab addHead (by simp)

theorem dpHead_begin : dpHead.head? = some '\t' := by
  have texts := scriptTexts
  exact texts.headTab dpHead (by simp)

theorem dpAnchor_begins : dpHead <+: dpAnchor := by
  have texts := scriptTexts
  exact texts.dpBegins dpAnchor (by simp)

theorem dpNeutralize_begins : dpHead <+: dpNeutralize := by
  have texts := scriptTexts
  exact texts.dpBegins dpNeutralize (by simp)

theorem dpNeutralize_clear : Clear dpNeutralize dpAnchor := by
  have texts := scriptTexts
  exact texts.neutralized

theorem boot_clear {b t : Text} (hb : b ∈ [bootOld, bootA, bootBC]) (ht : t.head? = some '\t') :
    Clear b t := by
  have texts := scriptTexts
  exact clear_of_head?_not_mem ht (texts.bootTab b hb)

theorem kernelAnchor_clear {b : Text} (hb : b ∈ [bootBC, addHead, dpHead]) (h : Clear addHead b) :
    Clear kernelAnchor b := by
  have texts := scriptTexts
  rw [kernelAnchor_eq]
  exact h.append (texts.lines b hb liluEntry (by simp [entryLines]))

theorem kernelAnchor_tail_clear : Clear kernelAnchor.tail addHead := by
  have texts := scriptTexts
  have hlilu := texts.lines addHead (by simp) liluEntry (by simp [entryLines])
  rw [kernelAnchor_eq, List.tail_append_of_ne_nil (ne_nil_of_begin addHead_begin)]
  exact texts.addTail.append hlilu

theorem lilu_eq : ∃ r, "Lilu.kext</string>".toList = "Lilu.kext".toList ++ '<' :: r := by
  repeat rw [String.toList_ofList]
  exact ⟨_, rfl⟩

/-! ## The kext entry -/

namespace Kext

variable {k : Kext} {b : Text}

/-- Where `b` begins at no line and at no name, it begins nowhere behind the head of the entry. -/
theorem lines_clear (hlines : ∀ a ∈ [toComment, toExecutable, dictEnd], Clear a b)
    (hnames : ∀ n ∈ k.names, ∀ r, Clear ('<' :: r) b → Clear (n ++ '<' :: r) b) :
    Clear (k.bundle ++ (toComment ++ (k.comment ++ (toExecutable ++ (k.exe ++ dictEnd))))) b := by
  have texts := scriptTexts
  have hname : ∀ n ∈ k.names, ∀ a ∈ [toComment, toExecutable, dictEnd], ∀ r,
      Clear r b → Clear (n ++ (a ++ r)) b := by
    intro n hn a ha r hr
    have happend := (hlines a ha).append hr
    obtain ⟨a', ha'⟩ := List.head?_eq_some_iff.1 (texts.nameEnd a ha)
    rw [ha', List.cons_append] at happend ⊢
    exact hnames n hn _ happend
  have hexe := hname k.exe (by simp [names]) dictEnd (by simp) [] (clear_nil b)
  rw [List.append_nil] at hexe
  have hcomment := hname k.comment (by simp [names]) toExecutable (by simp) _ hexe
  exact hname k.bundle (by simp [names]) toComment (by simp) _ hcomment

theorem entry_clear (hlines : ∀ a ∈ entryLines, Clear a b)
    (hnames : ∀ n ∈ k.names, ∀ r, Clear ('<' :: r) b → Clear (n ++ '<' :: r) b) :
    Clear k.entry b :=
  (hlines dictHead (by simp [entryLines])).append
    (lines_clear (fun a ha => hlines a (List.mem_cons_of_mem _ (List.mem_append_left _ ha))) hnames)

/-- No text that begins with a tab begins in a name. -/
theorem Plain.clear_of_tab (h : k.Plain) (hb : b.head? = some '\t') :
    ∀ n ∈ k.names, ∀ r, Clear ('<' :: r) b → Clear (n ++ '<' :: r) b :=
  fun n hn _ hr => (clear_of_head?_not_mem hb (h.tab n hn)).append hr

/-- No text without markup begins in a name, unless the name holds it. -/
theorem clear_of_no_markup (hnames : ∀ n ∈ k.names, ¬b <:+: n) (hb : '<' ∉ b) :
    ∀ n ∈ k.names, ∀ r, Clear ('<' :: r) b → Clear (n ++ '<' :: r) b :=
  fun n hn _ hr => clear_append_guard hb (hnames n hn) hr

theorem new_clear (hhead : Clear addHead b) (hlines : ∀ a ∈ entryLines, Clear a b)
    (hnames : ∀ n ∈ k.names, ∀ r, Clear ('<' :: r) b → Clear (n ++ '<' :: r) b) :
    Clear (kernelAdd k).new b := by
  rw [kernelAdd_new]
  have hentry := entry_clear hlines hnames
  exact hhead.append (hentry.append (hlines liluEntry (by simp [entryLines])))

theorem entryLines_clear_boot {boot : Text} (hboot : boot ∈ [bootOld, bootA, bootBC]) :
    ∀ a ∈ entryLines, Clear a boot := by
  have texts := scriptTexts
  exact fun a ha => (texts.lines bootBC (by simp) a ha).longer (bootBC_begins hboot)

theorem kernelAdd_clear_boot {boot : Text} (hboot : boot ∈ [bootOld, bootA, bootBC])
    (hnames : ∀ n ∈ k.names, ¬boot <:+: n) : Clear (kernelAdd k).new boot := by
  have texts := scriptTexts
  have hhead := (texts.noBoot addHead (by simp)).longer (bootBC_begins hboot)
  exact new_clear hhead (entryLines_clear_boot hboot)
    (clear_of_no_markup hnames (texts.bootMarkup boot hboot).1)

theorem Plain.kernelAdd_clear_dpHead (h : k.Plain) : Clear (kernelAdd k).new dpHead := by
  have texts := scriptTexts
  exact new_clear texts.noDevice (texts.lines dpHead (by simp)) (h.clear_of_tab dpHead_begin)

theorem Plain.kernelAdd_tail_clear (h : k.Plain) : Clear (kernelAdd k).new.tail addHead := by
  have texts := scriptTexts
  have hlines := texts.lines addHead (by simp)
  have hentry := entry_clear hlines (h.clear_of_tab addHead_begin)
  rw [kernelAdd_new, List.tail_append_of_ne_nil (ne_nil_of_begin addHead_begin)]
  exact texts.addTail.append (hentry.append (hlines liluEntry (by simp [entryLines])))

/-- The entry of a kext other than Lilu does not begin as Lilu's does. -/
theorem Plain.not_comparable (h : k.Plain) (s : Text) :
    ¬(k.entry ++ s <+: liluEntry ∨ liluEntry <+: k.entry ++ s) := by
  have texts := scriptTexts
  obtain ⟨r, hr⟩ := List.head?_eq_some_iff.1 (texts.nameEnd toComment (by simp))
  obtain ⟨r', hlilu⟩ := lilu_eq
  have hbundle := h.markup k.bundle (by simp [names])
  unfold entry liluEntry
  simp only [List.append_assoc, List.prefix_append_right_inj, hr, List.cons_append]
  rw [hlilu]
  rintro (hbegins | hbegins)
  · exact h.lilu (eq_of_guard hbundle texts.liluMarkup hbegins)
  · exact h.lilu (eq_of_guard texts.liluMarkup hbundle hbegins).symm

theorem Plain.kernelAdd_clear_old (h : k.Plain) : Clear (kernelAdd k).new kernelAnchor := by
  have htail : Clear (kernelAdd k).new.tail kernelAnchor :=
    h.kernelAdd_tail_clear.longer ⟨_, kernelAnchor_eq.symm⟩
  have hhere : ¬((kernelAdd k).new <+: kernelAnchor ∨ kernelAnchor <+: (kernelAdd k).new) := by
    rw [kernelAdd_new, kernelAnchor_eq, List.prefix_append_right_inj,
      List.prefix_append_right_inj]
    exact h.not_comparable liluEntry
  exact Clear.of_tail hhere htail

end Kext

/-! ## The edits stay apart -/

theorem kernel_begin (k : Kext) :
    ∀ a ∈ [(kernelAdd k).old, (kernelAdd k).new], a.head? = some '\t' := by
  rw [kernelAdd_old, kernelAnchor_eq, kernelAdd_new]
  simp [List.head?_append, addHead_begin]

theorem deviceProperties_begin :
    ∀ a ∈ [deviceProperties.old, deviceProperties.new], a.head? = some '\t' := by
  obtain ⟨s, hs⟩ := dpAnchor_begins
  obtain ⟨s', hs'⟩ := dpNeutralize_begins
  rw [deviceProperties_old, deviceProperties_new, ← hs, ← hs']
  simp [List.head?_append, dpHead_begin]

section Apart

variable {boot : Text} {k : Kext}

theorem bootArgs_apart_kernelAdd (hboot : boot ∈ [bootA, bootBC]) (hk : k.Plain) :
    (bootArgs boot).Apart (kernelAdd k) := by
  have hmem : boot ∈ [bootOld, bootA, bootBC] := List.mem_cons_of_mem _ hboot
  have hbegins := bootBC_begins hmem
  have hold := kernel_begin k (kernelAdd k).old (by simp)
  have hnew := kernel_begin k (kernelAdd k).new (by simp)
  have texts := scriptTexts
  have hanchor : Clear kernelAnchor bootBC :=
    kernelAnchor_clear (by simp) (texts.noBoot addHead (by simp))
  exact {
    oldOld := boot_clear (List.mem_cons_self) hold
    oldNew := boot_clear (List.mem_cons_self) hnew
    newOld := boot_clear hmem hold
    oldOld' := hanchor.longer (bootBC_begins List.mem_cons_self)
    oldNew' := hanchor.longer hbegins
    newOld' := Kext.kernelAdd_clear_boot List.mem_cons_self hk.boot }

theorem bootArgs_apart_deviceProperties (hboot : boot ∈ [bootA, bootBC]) :
    (bootArgs boot).Apart deviceProperties := by
  have hmem : boot ∈ [bootOld, bootA, bootBC] := List.mem_cons_of_mem _ hboot
  have hold := deviceProperties_begin deviceProperties.old (by simp)
  have hnew := deviceProperties_begin deviceProperties.new (by simp)
  have texts := scriptTexts
  have hanchor : Clear dpAnchor bootBC := texts.noBoot dpAnchor (by simp)
  have hinserted : Clear dpNeutralize bootBC := texts.noBoot dpNeutralize (by simp)
  exact {
    oldOld := boot_clear (List.mem_cons_self) hold
    oldNew := boot_clear (List.mem_cons_self) hnew
    newOld := boot_clear hmem hold
    oldOld' := hanchor.longer (bootBC_begins List.mem_cons_self)
    oldNew' := hanchor.longer (bootBC_begins hmem)
    newOld' := hinserted.longer (bootBC_begins List.mem_cons_self) }

theorem kernelAdd_apart_deviceProperties (hk : k.Plain) :
    (kernelAdd k).Apart deviceProperties := by
  have texts := scriptTexts
  have hold : addHead <+: kernelAnchor := ⟨_, kernelAnchor_eq.symm⟩
  have hnew : addHead <+: (kernelAdd k).new := ⟨_, (kernelAdd_new k).symm⟩
  have hanchor : Clear kernelAnchor dpHead := kernelAnchor_clear (by simp) texts.noDevice
  have hdp : Clear dpAnchor addHead := texts.noAdd dpAnchor (by simp)
  have hdp' : Clear dpNeutralize addHead := texts.noAdd dpNeutralize (by simp)
  exact {
    oldOld := hanchor.longer dpAnchor_begins
    oldNew := hanchor.longer dpNeutralize_begins
    newOld := hk.kernelAdd_clear_dpHead.longer dpAnchor_begins
    oldOld' := hdp.longer hold
    oldNew' := hdp.longer hnew
    newOld' := hdp'.longer hold }

end Apart

theorem kernelAnchor_solid : Clear kernelAnchor.tail kernelAnchor :=
  kernelAnchor_tail_clear.longer ⟨_, kernelAnchor_eq.symm⟩

theorem kernelAnchor_tail_clear_new (k : Kext) : Clear kernelAnchor.tail (kernelAdd k).new :=
  kernelAnchor_tail_clear.longer ⟨_, (kernelAdd_new k).symm⟩

theorem dpAnchor_solid : Clear dpAnchor.tail dpAnchor := by
  have texts := scriptTexts
  exact (texts.dpTail dpAnchor (by simp)).longer dpAnchor_begins

theorem dpAnchor_tail_clear : Clear dpAnchor.tail dpNeutralize := by
  have texts := scriptTexts
  exact (texts.dpTail dpAnchor (by simp)).longer dpNeutralize_begins

theorem bootOld_solid : Clear bootOld.tail bootOld := by
  have texts := scriptTexts
  exact (texts.bootTail bootOld (by simp)).longer (bootBC_begins List.mem_cons_self)

theorem bootArgs_solid {boot : Text} (hboot : boot ∈ [bootA, bootBC]) : (bootArgs boot).Solid := by
  have hmem : boot ∈ [bootOld, bootA, bootBC] := List.mem_cons_of_mem _ hboot
  have texts := scriptTexts
  have hold := texts.bootTail bootOld (by simp)
  have hnew := texts.bootTail boot hmem
  have hbeginsOld : bootBC <+: bootOld := bootBC_begins (by simp)
  have hbegins := bootBC_begins hmem
  exact {
    new_ne_nil := texts.bootNe boot hmem
    oldOld := hold.longer hbeginsOld
    oldNew := hold.longer hbegins
    newOld := hnew.longer hbeginsOld }

theorem bootArgs_length {boot : Text} (h : boot ∈ [bootA, bootBC]) :
    boot.length ≠ bootOld.length := by
  have hlengths : bootA.length ≠ bootOld.length ∧ bootBC.length ≠ bootOld.length := by
    unfold bootA bootBC bootOld
    repeat rw [String.toList_ofList]
    decide
  simp only [List.mem_cons, List.not_mem_nil, or_false] at h
  rcases h with rfl | rfl
  · exact hlengths.1
  · exact hlengths.2

namespace Request

/-- What the script asks for: its own boot arguments, and names that cannot hold an anchor. -/
structure Plain (r : Request) : Prop where
  boot : r.boot ∈ [bootA, bootBC]
  kext : ∀ k, r.kext = some k → k.Plain

/-- What the script asks for, where no name holds the boot arguments that B and C begin with. -/
structure Named (r : Request) : Prop extends r.Plain where
  names : ∀ k, r.kext = some k → ∀ n ∈ k.names, ¬bootBC <:+: n

variable {r : Request}

theorem bootArgs_mem (r : Request) : bootArgs r.boot ∈ r.edits := List.mem_cons_self

theorem kernelAdd_mem {k : Kext} (hk : r.kext = some k) : kernelAdd k ∈ r.edits := by
  simp [edits, hk]

theorem deviceProperties_mem (h : r.neutralize = true) : deviceProperties ∈ r.edits := by
  simp [edits, h]

theorem forall_edits {P : Edit Char → Prop} (hboot : P (bootArgs r.boot))
    (hkernel : ∀ k, r.kext = some k → P (kernelAdd k)) (hdevice : P deviceProperties) :
    ∀ f ∈ r.edits, P f := by
  unfold edits
  cases hk : r.kext with
  | none => cases r.neutralize <;> simp [hboot, hdevice]
  | some k => cases r.neutralize <;> simp [hboot, hkernel k hk, hdevice]

theorem pairwise_edits {R : Edit Char → Edit Char → Prop}
    (hkernel : ∀ k, r.kext = some k → R (bootArgs r.boot) (kernelAdd k))
    (hdevice : R (bootArgs r.boot) deviceProperties)
    (hboth : ∀ k, r.kext = some k → R (kernelAdd k) deviceProperties) : r.edits.Pairwise R := by
  unfold edits
  cases hk : r.kext with
  | none => cases r.neutralize <;> simp [hdevice]
  | some k => cases r.neutralize <;> simp [hkernel k hk, hdevice, hboth k hk]

theorem Plain.apart (h : r.Plain) : r.edits.Pairwise Edit.Apart :=
  pairwise_edits (fun k hk => bootArgs_apart_kernelAdd h.boot (h.kext k hk))
    (bootArgs_apart_deviceProperties h.boot)
    fun k hk => kernelAdd_apart_deviceProperties (h.kext k hk)

/-- What is written is what one pass for all the edits gives. -/
theorem Plain.build_config_eq (h : r.Plain) (ocv : Option (Text → Text)) (base : Text) :
    (build ocv base r).dir.config = some (applyAll r.edits base) := by
  rw [build_config, foldl_replace_eq h.apart]

end Request

/-- The kexts the script names. -/
theorem kexts_names : ∀ k ∈ [uefifb, honorfb], k.bundle ≠ "Lilu.kext".toList ∧
    ∀ n ∈ k.names, '\t' ∉ n ∧ '<' ∉ n ∧ ¬bootBC <:+: n := by
  unfold uefifb honorfb bootBC
  repeat rw [String.toList_ofList]
  decide +kernel

theorem kexts_plain : ∀ k ∈ [uefifb, honorfb], k.Plain := by
  intro k hk
  obtain ⟨hlilu, hnames⟩ := kexts_names k hk
  have hbegins : bootBC <+: bootOld := bootBC_begins (by simp)
  refine ⟨hlilu, fun n hn => (hnames n hn).1, fun n hn => (hnames n hn).2.1, ?_⟩
  exact fun n hn hinfix => (hnames n hn).2.2 (hbegins.isInfix.trans hinfix)

theorem variants_plain : ∀ r ∈ [variantA, variantB, variantC], r.Plain := by
  intro r hr
  simp only [List.mem_cons, List.not_mem_nil, or_false] at hr
  rcases hr with rfl | rfl | rfl
  · exact ⟨List.mem_cons_self, fun k hk => nomatch hk⟩
  · exact ⟨List.mem_cons_of_mem _ List.mem_cons_self, fun k hk =>
      kexts_plain k (by rw [← Option.some.inj hk]; exact List.mem_cons_self)⟩
  · exact ⟨List.mem_cons_of_mem _ List.mem_cons_self, fun k hk =>
      kexts_plain k (by rw [← Option.some.inj hk]; simp)⟩

theorem variants_named : ∀ r ∈ [variantA, variantB, variantC], r.Named := by
  have hnames : ∀ k ∈ [uefifb, honorfb], ∀ n ∈ k.names, ¬bootBC <:+: n := by
    intro k hk n hn
    obtain ⟨-, hall⟩ := kexts_names k hk
    exact (hall n hn).2.2
  intro r hr
  refine ⟨variants_plain r hr, fun k hk => hnames k ?_⟩
  simp only [List.mem_cons, List.not_mem_nil, or_false] at hr
  rcases hr with rfl | rfl | rfl
  · exact nomatch hk
  · rw [← Option.some.inj hk]
    exact List.mem_cons_self
  · rw [← Option.some.inj hk]
    simp

/-- **The build makes exactly its edits.** Where each anchor stands once, the base falls into pieces
that are kept and the three edits, each made once; what is written has the replacements in their
place and the new entry before Lilu's. The order of the edits does not matter, and the kernel and
the device properties edits find nothing more to replace. -/
theorem build_edits (ocv : Option (Text → Text)) {base : Text} {r : Request} {k : Kext}
    (hr : r.Plain) (hkext : r.kext = some k) (hneutralize : r.neutralize = true)
    (honce : ∀ a ∈ [bootOld, kernelAnchor, dpAnchor], occurrences a base = 1) :
    ∃ (ps : List (Piece Char)) (text : Text),
      base = ps.flatMap Piece.before ∧ text = ps.flatMap Piece.after ∧
      (ps.filterMap Piece.edit?).Perm [bootArgs r.boot, kernelAdd k, deviceProperties] ∧
      (kernelAnchor = addHead ++ liluEntry ∧
        (kernelAdd k).new = addHead ++ (k.entry ++ liluEntry)) ∧
      (build ocv base r).dir.config = some text ∧
      (∀ es : List (Edit Char), es.Perm [bootArgs r.boot, kernelAdd k, deviceProperties] →
        es.foldl (fun t e => e.replace t) base = text) ∧
      (kernelAdd k).replace text = text ∧ deviceProperties.replace text = text := by
  have hedits : r.edits = [bootArgs r.boot, kernelAdd k, deviceProperties] := by
    simp [Request.edits, hkext, hneutralize]
  have hapart := hr.apart
  have hk := hr.kext k hkext
  refine ⟨pieces r.edits base, applyAll r.edits base, (pieces_before _ _).symm, rfl, ?_,
    ⟨kernelAnchor_eq, kernelAdd_new k⟩, hr.build_config_eq ocv base, ?_, ?_, ?_⟩
  · rw [← hedits]
    refine made_perm hapart ?_ ?_
    · simp [hedits, bootOld_solid, kernelAnchor_solid, dpAnchor_solid]
    · simpa [hedits] using honce
  · intro es hperm
    rw [← hedits] at hperm
    rw [foldl_replace_perm hapart hperm, foldl_replace_eq hapart]
  · refine replace_of_occurrences_eq_zero (occurrences_applyAll_eq_zero hapart ?_ ?_ ?_ base)
    · simp [hedits]
    · exact hk.kernelAdd_clear_old
    · exact kernelAnchor_tail_clear_new k
  · refine replace_of_occurrences_eq_zero (occurrences_applyAll_eq_zero hapart ?_ ?_ ?_ base)
    · simp [hedits]
    · exact dpNeutralize_clear
    · exact dpAnchor_tail_clear

/-- A config with Lilu first in Kernel>Add, the boot arguments and some device properties. -/
@[irreducible] def sampleConfig (device : Text) : Text :=
  device ++ ("
\t</dict>
\t<key>Kernel</key>
\t<dict>
".toList ++ (kernelAnchor ++ ("
\t\t\t</dict>
\t\t</array>
\t</dict>
\t<key>boot-args</key>
\t<string>".toList ++ (bootOld ++ "</string>
".toList))))

/-- Some other device has properties already. -/
@[irreducible] def otherDevice : Text :=
"\t<key>DeviceProperties</key>
\t<dict>
\t\t<key>Add</key>
\t\t<dict>
\t\t\t<key>PciRoot(0x0)/Pci(0x1f,0x3)</key>
\t\t\t<dict/>
\t\t</dict>".toList

theorem sampleConfig_once :
    ∀ a ∈ [bootOld, kernelAnchor, dpAnchor], occurrences a (sampleConfig dpAnchor) = 1 := by
  unfold sampleConfig bootOld kernelAnchor dpAnchor
  repeat rw [String.toList_ofList]
  decide +kernel

theorem build_edits_honorfb :
    ∃ (ps : List (Piece Char)) (text : Text),
      sampleConfig dpAnchor = ps.flatMap Piece.before ∧ text = ps.flatMap Piece.after ∧
      (ps.filterMap Piece.edit?).Perm [bootArgs bootBC, kernelAdd honorfb, deviceProperties] ∧
      (kernelAnchor = addHead ++ liluEntry ∧
        (kernelAdd honorfb).new = addHead ++ (honorfb.entry ++ liluEntry)) ∧
      (build none (sampleConfig dpAnchor) variantC).dir.config = some text ∧
      (∀ es : List (Edit Char),
        es.Perm [bootArgs bootBC, kernelAdd honorfb, deviceProperties] →
          es.foldl (fun t e => e.replace t) (sampleConfig dpAnchor) = text) ∧
      (kernelAdd honorfb).replace text = text ∧ deviceProperties.replace text = text :=
  build_edits none (variants_plain variantC (by simp)) rfl rfl sampleConfig_once

end HonorFB.Efi
