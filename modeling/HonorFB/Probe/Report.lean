import HonorFB.Probe.Model
import Mathlib.Data.List.Pairwise
import Mathlib.Tactic.MkIffOfInductiveProp

/-!
# Reading a report off the screen

The machine has no other output than the text of a panic, so that text has to say which probe ran
and what it found. `Report.read` reads it back: every report comes back whole, with all 64 bits of
the boot console and all ids (`Report.read_text`), and so does what each probe reports
(`Report.ofProbes_read`).
-/

namespace HonorFB

open Printf

/-! ## Reading -/

/-- The provider of a report: `NULL` stands for none. -/
def readProvider (w : List Char) : Option String :=
  if w = nullText then none else some (String.ofList w)

namespace Kind

def report : Kind → List Arg → Option Report
  | .v10, [.word provider] => some (.matchedV10 (readProvider provider))
  | .v11, [.word provider, .number vend, .number dev] =>
    some (.matchedV11 (readProvider provider) (UInt32.ofNat vend) (UInt32.ofNat dev))
  | .ran, [.word provider, .number n, .number iv, .number idv] =>
    some (.scanned (.ran (readProvider provider) (UInt32.ofNat n) (UInt32.ofNat iv)
      (UInt32.ofNat idv)))
  | .found, [.number iv, .number idv, .number seconds, .number n] =>
    some (.scanned (.found (UInt32.ofNat iv) (UInt32.ofNat idv) seconds (UInt32.ofNat n)))
  | .noIGPU, [.number maxN, .number lastIntel] =>
    some (.scanned (.noIGPU (UInt32.ofNat maxN) (UInt32.ofNat lastIntel)))
  | .vdiag, [.number init, .number base, .number w, .number h, .number depth, .number rb] =>
    some (.diag {
      initialized := init == 1
      video := {
        v_baseAddr := UInt64.ofNat base
        v_rowBytes := UInt64.ofNat rb
        v_width := UInt64.ofNat w
        v_height := UInt64.ofNat h
        v_depth := UInt64.ofNat depth } })
  | _, _ => none

end Kind

/-- The first format that fits the text. -/
def Report.read (t : List Char) : Option Report :=
  Kind.all.findSome? fun k => (scan k.format t).bind k.report

/-! ## The formats -/

/-- Every format can be read back, and no two begin alike. -/
@[mk_iff] structure FormatTexts : Prop where
  delimited : ∀ r ∈ [restV10, restV11, restRan, restFound, restNoIGPU, restVdiag],
    delimited r = true
  apart : [beginV10, beginV11, beginRan, beginFound, beginNoIGPU, beginVdiag].Pairwise
    fun a b => ¬(a <+: b ∨ b <+: a)

theorem formatTexts : FormatTexts := by
  rw [formatTexts_iff]
  unfold restV10 restV11 restRan restFound restNoIGPU restVdiag beginV10 beginV11 beginRan
    beginFound beginNoIGPU beginVdiag
  repeat rw [String.toList_ofList]
  decide +kernel

theorem Kind.delimited_format (k : Kind) : delimited k.format = true := by
  have texts := formatTexts
  apply texts.delimited k.rest
  cases k <;> simp [Kind.rest]

theorem Kind.head_apart {k k' : Kind} (h : k ≠ k') :
    ¬(k.head <+: k'.head ∨ k'.head <+: k.head) := by
  have texts := formatTexts
  have hall : (Kind.all.map Kind.head).Pairwise fun a b => ¬(a <+: b ∨ b <+: a) := texts.apart
  rw [List.pairwise_map] at hall
  have hmem : ∀ k : Kind, k ∈ Kind.all := by
    intro k
    cases k <;> simp [Kind.all]
  have hsymm : Std.Symm fun a b : Kind => ¬(a.head <+: b.head ∨ b.head <+: a.head) :=
    ⟨fun _ _ hab hba => hab hba.symm⟩
  exact hall.forall (hmem k) (hmem k') h

theorem Kind.scan_eq_none {k k' : Kind} (h : k ≠ k') (args : List Arg) :
    scan k.format (printf k'.format args) = none :=
  scan_text_eq_none (Kind.head_apart h) _ _ args

/-! ## Reports -/

namespace Report

def provider? : Report → Option String
  | .matchedV10 provider | .matchedV11 provider _ _ | .scanned (.ran provider _ _ _) => provider
  | .scanned (.found _ _ _ _) | .scanned (.noIGPU _ _) | .diag _ => none

/-- The provider's class has a name: letters, digits and underscores, and not `NULL`. -/
def Named (r : Report) : Prop :=
  ∀ className, r.provider? = some className →
    className.toList.all isWordChar = true ∧ className.toList ≠ nullText

theorem nullText_word : nullText.all isWordChar = true := by
  unfold nullText
  rw [String.toList_ofList]
  decide

theorem providerText_word {provider : Option String}
    (h : ∀ className, provider = some className → className.toList.all isWordChar = true) :
    (providerText provider).all isWordChar = true := by
  cases provider with
  | none => exact nullText_word
  | some className => exact h className rfl

theorem readProvider_providerText {provider : Option String}
    (h : ∀ className, provider = some className → className.toList ≠ nullText) :
    readProvider (providerText provider) = provider := by
  unfold readProvider
  cases provider with
  | none => exact if_pos rfl
  | some className =>
    have hne : providerText (some className) ≠ nullText := h className rfl
    rw [if_neg hne]
    exact congrArg some String.ofList_toList

section Fits

variable {w : List Char} (hw : w.all isWordChar = true)

include hw in
theorem fits_provider (format : List Directive) (args : List Arg) :
    fits (.word :: format) (.word w :: args) = fits format args := by
  rw [fits, hw, Bool.true_and]

end Fits

/-- The arguments are those the format asks for. -/
theorem fits_args {r : Report} (h : r.Named) : fits r.kind.format r.args = true := by
  have hword : (providerText r.provider?).all isWordChar = true :=
    providerText_word fun className hname => (h className hname).1
  cases r with
  | matchedV10 provider =>
    unfold kind Kind.format Kind.rest restV10
    exact fits_provider hword _ _
  | matchedV11 provider vend dev =>
    unfold kind Kind.format Kind.rest restV11
    exact fits_provider hword _ _
  | scanned panic =>
    cases panic with
    | ran provider n iv idv =>
      unfold kind Kind.format Kind.rest restRan
      exact fits_provider hword _ _
    | found iv idv seconds n =>
      unfold kind Kind.format Kind.rest restFound
      rfl
    | noIGPU maxN lastIntel =>
      unfold kind Kind.format Kind.rest restNoIGPU
      rfl
  | diag pe =>
    unfold kind Kind.format Kind.rest restVdiag
    rfl

/-- The arguments say what the report was. -/
theorem report_args {r : Report} (h : r.Named) : r.kind.report r.args = some r := by
  have hprovider : readProvider (providerText r.provider?) = r.provider? :=
    readProvider_providerText fun className hname => (h className hname).2
  cases r with
  | matchedV10 provider =>
    exact congrArg (fun p => some (matchedV10 p)) hprovider
  | matchedV11 provider vend dev =>
    simp only [kind, args, Kind.report, UInt32.ofNat_toNat]
    exact congrArg (fun p => some (matchedV11 p vend dev)) hprovider
  | scanned panic =>
    cases panic with
    | ran provider n iv idv =>
      simp only [kind, args, Kind.report, UInt32.ofNat_toNat]
      exact congrArg (fun p => some (scanned (.ran p n iv idv))) hprovider
    | found iv idv seconds n => simp only [kind, args, Kind.report, UInt32.ofNat_toNat]
    | noIGPU maxN lastIntel => simp only [kind, args, Kind.report, UInt32.ofNat_toNat]
  | diag pe =>
    obtain ⟨initialized, video⟩ := pe
    simp only [kind, args, Kind.report, UInt64.ofNat_toNat]
    cases initialized <;> rfl

theorem findSome?_eq_some {f : Kind → Option Report} {r : Report} {k : Kind}
    (hk : f k = some r) (hother : ∀ k', k' ≠ k → f k' = none) :
    Kind.all.findSome? f = some r := by
  unfold Kind.all
  cases k <;> simp [hk, hother]

theorem read_of_named {r : Report} (h : r.Named) : Report.read r.text = some r := by
  apply findSome?_eq_some (k := r.kind)
  · unfold text
    rw [scan_printf (Kind.delimited_format r.kind) (fits_args h), Option.bind_some]
    exact report_args h
  · intro k hk
    unfold text
    rw [Kind.scan_eq_none hk]
    rfl

/-- **Every report is read back whole**, and no other report prints the same text. -/
theorem read_text (r : Report) (h : r.Named) :
    Report.read r.text = some r ∧ ∀ r' : Report, r'.Named → r'.text = r.text → r' = r := by
  refine ⟨read_of_named h, fun r' h' htext => ?_⟩
  have heq := read_of_named h'
  rw [htext, read_of_named h] at heq
  exact (Option.some.inj heq).symm

theorem ioResources_named : (scanned (.ran (some "IOResources") 12 0x8086 0x46A3)).Named := by
  intro className hname
  obtain rfl := Option.some.inj hname
  unfold nullText
  repeat rw [String.toList_ofList]
  decide

theorem read_text_ran :
    let r : Report := scanned (.ran (some "IOResources") 12 0x8086 0x46A3)
    Report.read r.text = some r ∧ ∀ r' : Report, r'.Named → r'.text = r.text → r' = r :=
  read_text _ ioResources_named

/-! ## The reports of the probes -/

/-- What the probes panic with, from what they are started with and what they see. -/
def ofProbes (provider : Option Provider) (it : Option (List IORegistryEntry))
    (snapshots : Vector (Option (List IORegistryEntry)) 15) (pe : PEState) : List Report :=
  [startV10 provider, startV11 provider,
    scanned (startV12 (provider.map Provider.className) it), scanned (honorScanThread snapshots),
    startVdiag pe]

theorem scanFrom_provider (snapshots : List (Option (List IORegistryEntry))) :
    ∀ (i : Nat) (maxN lastIntel : UInt32),
      (scanned (scanFrom i maxN lastIntel snapshots)).provider? = none := by
  induction snapshots with
  | nil => intro i maxN lastIntel; rfl
  | cons it snapshots ih =>
    intro i maxN lastIntel
    unfold scanFrom
    dsimp only
    split
    · rfl
    · exact ih _ _ _

/-- No probe reports another class than its provider's. -/
theorem provider_ofProbes {provider : Option Provider} {it : Option (List IORegistryEntry)}
    {snapshots : Vector (Option (List IORegistryEntry)) 15} {pe : PEState} :
    ∀ r ∈ ofProbes provider it snapshots pe, ∀ className, r.provider? = some className →
      provider.map Provider.className = some className := by
  intro r hr className hname
  simp only [ofProbes, List.mem_cons, List.not_mem_nil, or_false] at hr
  rcases hr with rfl | rfl | rfl | rfl | rfl
  · exact hname
  · exact hname
  · exact hname
  · rw [honorScanThread, scanFrom_provider] at hname
    cases hname
  · cases hname

/-- Whatever a probe is started with and sees, its panic is read back as just that. -/
theorem ofProbes_read {provider : Option Provider} (it : Option (List IORegistryEntry))
    (snapshots : Vector (Option (List IORegistryEntry)) 15) (pe : PEState)
    (h : ∀ p, provider = some p →
      p.className.toList.all isWordChar = true ∧ p.className.toList ≠ nullText) :
    ∀ r ∈ ofProbes provider it snapshots pe, r.Named ∧ Report.read r.text = some r := by
  intro r hr
  have hnamed : r.Named := by
    intro className hname
    obtain ⟨p, hp, rfl⟩ := Option.map_eq_some_iff.1 (provider_ofProbes r hr className hname)
    exact h p hp
  exact ⟨hnamed, read_of_named hnamed⟩

end Report

end HonorFB
