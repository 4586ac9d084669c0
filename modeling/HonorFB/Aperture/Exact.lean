import HonorFB.Framebuffer.Model
import HonorFB.Nub.Model
import HonorFB.Paint.Model

/-!
# Exact aperture arithmetic

Every variant derives one physical range from `PE_state.video`: the nubs hand it to their device
memory, the `IOFramebuffer` variants return it as the system aperture, the paint probe maps it. The
nubs multiply the 64-bit fields, the others truncate the fields to 32 bits first, and the zero
checks run on the results. `exact_iff` says on which recorded consoles nothing is lost.
-/

namespace HonorFB

inductive Publisher where
  | nub (v : NubVariant)
  | framebuffer (v : Variant)
  | vpaint

namespace Publisher

def passes : Publisher → PEState → Prop
  | .nub v, pe => v.passes pe
  | .framebuffer v, pe => v.passes .zeroed pe
  | .vpaint, pe => Vpaint.passes pe

instance (p : Publisher) (pe : PEState) : Decidable (p.passes pe) :=
  match p with
  | .nub v => inferInstanceAs (Decidable (v.passes pe))
  | .framebuffer v => inferInstanceAs (Decidable (v.passes .zeroed pe))
  | .vpaint => inferInstanceAs (Decidable (Vpaint.passes pe))

/-- Some `start` on this console, whatever the calls it makes answer, publishes or maps the
range. -/
def Publishes : Publisher → PEState → IODeviceMemory → Prop
  | .nub v, pe, range => ∃ o ranges, .setDeviceMemory ranges ∈ (v.start pe o).1 ∧ range ∈ ranges
  | .framebuffer v, pe, range => ∃ fb superStart,
    v.getApertureRange (v.start fb pe superStart).1 .kIOFBSystemAperture = some range
  | .vpaint, pe, range => ∃ withPhysicalAddress map,
    (Vpaint.start pe withPhysicalAddress map).mapped = some range

/-- The width and height kept are the recorded ones. The nubs keep neither. -/
def KeepsGeometry : Publisher → PEState → Prop
  | .nub _, _ => True
  | .framebuffer v, pe => ∀ fb superStart,
    (v.start fb pe superStart).1.fbW.toNat = pe.video.v_width.toNat ∧
      (v.start fb pe superStart).1.fbH.toNat = pe.video.v_height.toNat
  | .vpaint, pe => (Vpaint.locals pe.video).w.toNat = pe.video.v_width.toNat ∧
      (Vpaint.locals pe.video).h.toNat = pe.video.v_height.toNat

/-- One range is published; its length is the product of the recorded fields and it ends within
the address space. -/
structure Exact (p : Publisher) (pe : PEState) : Prop where
  range : ∃ range, (∀ r, p.Publishes pe r ↔ r = range) ∧
    range.length.toNat = pe.video.v_height.toNat * pe.video.v_rowBytes.toNat ∧
    range.start.toNat + range.length.toNat ≤ 2 ^ 64
  geometry : p.KeepsGeometry pe

def range : Publisher → PEVideo → IODeviceMemory
  | .nub v, video => { start := v.fbBase video, length := v.fbLength video }
  | .framebuffer v, video =>
    { start := (Framebuffer.zeroed.recordConsole v.base video).fbPhys
      length := (Framebuffer.zeroed.recordConsole v.base video).fbLen }
  | .vpaint, video =>
    { start := (Vpaint.locals video).fbBase, length := (Vpaint.locals video).len }

def base : Publisher → PEVideo → Nat
  | .nub .honorFB, video | .nub .v0, video => video.v_baseAddr.toNat
  | .nub .v1, video | .nub .v2, video | .framebuffer _, video | .vpaint, video =>
    video.v_baseAddr.toNat / 4 * 4

/-- The recorded fields survive the variant's truncations. The nubs truncate nothing. -/
def Untruncated : Publisher → PEVideo → Prop
  | .nub _, _ => True
  | .framebuffer _, video | .vpaint, video =>
    video.v_width.toNat < 2 ^ 32 ∧ video.v_height.toNat < 2 ^ 32 ∧
      video.v_rowBytes.toNat < 2 ^ 32

/-! ## What is published -/

theorem setDeviceMemory_mem_startPlatform {v : NubVariant} {pe : PEState} {o : Outcomes}
    {extra : List Effect} {ranges : List IODeviceMemory}
    (hextra : .setDeviceMemory ranges ∉ extra)
    (h : .setDeviceMemory ranges ∈ (NubVariant.startPlatform v pe o extra).1) :
    ranges = v.initList pe.video := by
  unfold NubVariant.startPlatform at h
  split at h
  · exact absurd h List.not_mem_nil
  split at h
  · exact absurd h List.not_mem_nil
  split at h
  · exact absurd h List.not_mem_nil
  split at h
  · exact absurd h List.not_mem_nil
  simpa [NubVariant.attachMemory, hextra] using h

theorem setDeviceMemory_notMem_attachDeviceTree (o : Outcomes) (ranges : List IODeviceMemory) :
    .setDeviceMemory ranges ∉ NubVariant.attachDeviceTree o := by
  unfold NubVariant.attachDeviceTree
  cases o.fromPath <;> cases o.attachToParent <;> simp

theorem setDeviceMemory_mem_startSynthesized {pe : PEState} {o : Outcomes}
    {ranges : List IODeviceMemory}
    (h : .setDeviceMemory ranges ∈ (NubVariant.startSynthesized pe o).1) :
    ranges = NubVariant.v2.initList pe.video := by
  have htree := setDeviceMemory_notMem_attachDeviceTree o ranges
  unfold NubVariant.startSynthesized at h
  split at h
  · exact absurd h List.not_mem_nil
  split at h
  · exact absurd h List.not_mem_nil
  split at h
  · exact absurd h List.not_mem_nil
  split at h
  · exact absurd h List.not_mem_nil
  split at h
  · simp at h
  split at h
  · simp [NubVariant.describeNub] at h
  cases harray : o.arrayFromList with
  | false => simp [NubVariant.describeNub, harray, htree] at h
  | true => simpa [NubVariant.describeNub, NubVariant.attachMemory, harray, htree] using h

theorem setDeviceMemory_mem_start {v : NubVariant} {pe : PEState} {o : Outcomes}
    {ranges : List IODeviceMemory} (h : .setDeviceMemory ranges ∈ (v.start pe o).1) :
    ranges = v.initList pe.video := by
  cases v with
  | honorFB => exact setDeviceMemory_mem_startPlatform List.not_mem_nil h
  | v0 => exact setDeviceMemory_mem_startPlatform List.not_mem_nil h
  | v1 =>
    refine setDeviceMemory_mem_startPlatform ?_ h
    simp [NubVariant.resembleDisplay, setDeviceMemory_notMem_attachDeviceTree]
  | v2 => exact setDeviceMemory_mem_startSynthesized h

theorem setDeviceMemory_mem_start_of_passes {v : NubVariant} {pe : PEState}
    (h : v.passes pe) :
    .setDeviceMemory (v.initList pe.video) ∈
      (v.start pe ⟨true, true, true, true, true, true, true⟩).1 := by
  obtain ⟨hinit, hvalid⟩ := h
  cases v <;> simp [NubVariant.start, NubVariant.startPlatform, NubVariant.startSynthesized,
    NubVariant.attachMemory, hinit, hvalid]

/-- On a console its check accepts, a variant publishes the range it computes and no other. -/
theorem publishes_iff {p : Publisher} {pe : PEState} (hpasses : p.passes pe)
    (r : IODeviceMemory) : p.Publishes pe r ↔ r = p.range pe.video := by
  cases p with
  | nub v =>
    constructor
    · rintro ⟨o, ranges, hset, hr⟩
      rw [setDeviceMemory_mem_start hset] at hr
      exact List.mem_singleton.1 hr
    · rintro rfl
      exact ⟨_, _, setDeviceMemory_mem_start_of_passes hpasses, List.mem_singleton.2 rfl⟩
  | framebuffer v =>
    have hstart := fun fb superStart => Variant.start_fst v fb superStart hpasses.1
    constructor
    · rintro ⟨fb, superStart, hr⟩
      rw [hstart] at hr
      exact (Option.some.inj hr).symm
    · rintro rfl
      refine ⟨.zeroed, true, ?_⟩
      rw [hstart]
      rfl
  | vpaint =>
    constructor
    · rintro ⟨withPhysicalAddress, map, hr⟩
      obtain ⟨hinit, hvalid⟩ := hpasses
      cases withPhysicalAddress <;> cases map <;>
        simp [Vpaint.start, hinit, hvalid] at hr
      exact hr.symm
    · rintro rfl
      refine ⟨true, true, ?_⟩
      rw [Vpaint.start_of_passes hpasses]
      rfl

/-! ## When it is exact -/

theorem range_start (p : Publisher) (video : PEVideo) :
    (p.range video).start.toNat = p.base video := by
  cases p with
  | nub v => cases v <;> first | rfl | exact Word.toNat_and_not_three _
  | framebuffer v => exact Word.toNat_and_not_three _
  | vpaint => exact Word.toNat_and_not_three _

theorem base_pos {p : Publisher} {pe : PEState} (hpasses : p.passes pe) :
    0 < p.base pe.video := by
  rw [← range_start]
  refine Nat.pos_of_ne_zero fun h => ?_
  have hzero := (Word.toNat_eq_zero_iff _).1 h
  cases p with
  | nub v =>
    have hvalid := hpasses.2
    simp only [NubVariant.invalid, Bool.or_eq_false_iff, beq_eq_false_iff_ne] at hvalid
    exact hvalid.1 hzero
  | framebuffer v =>
    have hvalid := hpasses.2
    simp only [Framebuffer.invalid, Bool.or_eq_false_iff, beq_eq_false_iff_ne] at hvalid
    exact hvalid.1.1.1 hzero
  | vpaint =>
    have hvalid := hpasses.2
    simp only [Vpaint.Locals.invalid, Bool.or_eq_false_iff, beq_eq_false_iff_ne] at hvalid
    exact hvalid.1.1.1.1 hzero

theorem truncated_mul_iff {height rowBytes : Nat} (hheight : height % 2 ^ 32 = height)
    (hpos : height ≠ 0) :
    height % 2 ^ 32 * (rowBytes % 2 ^ 32) = height * rowBytes ↔ rowBytes < 2 ^ 32 := by
  rw [hheight]
  constructor
  · intro h
    have := Nat.eq_of_mul_eq_mul_left (Nat.pos_of_ne_zero hpos) h
    omega
  · intro h
    rw [Nat.mod_eq_of_lt h]

theorem truncated_exact_iff {base width height rowBytes : Nat}
    (hheight : height % 2 ^ 32 ≠ 0) :
    ((height % 2 ^ 32 * (rowBytes % 2 ^ 32) = height * rowBytes ∧
        base + height % 2 ^ 32 * (rowBytes % 2 ^ 32) ≤ 2 ^ 64) ∧
      width % 2 ^ 32 = width ∧ height % 2 ^ 32 = height) ↔
    (width < 2 ^ 32 ∧ height < 2 ^ 32 ∧ rowBytes < 2 ^ 32) ∧
      base + height * rowBytes ≤ 2 ^ 64 := by
  constructor
  · rintro ⟨⟨hlength, hend⟩, hw, hh⟩
    refine ⟨⟨?_, ?_, (truncated_mul_iff hh (by omega)).1 hlength⟩, ?_⟩
    · omega
    · omega
    · rw [← hlength]
      exact hend
  · rintro ⟨⟨hw, hh, hrb⟩, hend⟩
    rw [Nat.mod_eq_of_lt hw, Nat.mod_eq_of_lt hh, Nat.mod_eq_of_lt hrb]
    exact ⟨⟨rfl, hend⟩, rfl, rfl⟩

theorem exact_iff_range {p : Publisher} {pe : PEState} (hpasses : p.passes pe) :
    p.Exact pe ↔
      ((p.range pe.video).length.toNat = pe.video.v_height.toNat * pe.video.v_rowBytes.toNat ∧
        p.base pe.video + (p.range pe.video).length.toNat ≤ 2 ^ 64) ∧ p.KeepsGeometry pe := by
  constructor
  · rintro ⟨⟨range, hpublishes, hlength, hend⟩, hgeometry⟩
    obtain rfl := (hpublishes _).1 ((publishes_iff hpasses _).2 rfl)
    rw [range_start] at hend
    exact ⟨⟨hlength, hend⟩, hgeometry⟩
  · rintro ⟨⟨hlength, hend⟩, hgeometry⟩
    refine ⟨⟨p.range pe.video, publishes_iff hpasses, hlength, ?_⟩, hgeometry⟩
    rw [range_start]
    exact hend

/-- The nubs' 64-bit product may wrap; a base above 0 leaves no room for a product that does. -/
theorem nub_exact_iff (v : NubVariant) {pe : PEState} (hpasses : (Publisher.nub v).passes pe) :
    (Publisher.nub v).Exact pe ↔ (Publisher.nub v).base pe.video +
      pe.video.v_height.toNat * pe.video.v_rowBytes.toNat ≤ 2 ^ 64 := by
  have hbase := base_pos hpasses
  have hlength : ((Publisher.nub v).range pe.video).length.toNat =
      (pe.video.v_height * pe.video.v_rowBytes).toNat := rfl
  rw [exact_iff_range hpasses, hlength, Word.toNat_mul_eq_iff]
  constructor
  · rintro ⟨⟨hfits, hend⟩, -⟩
    rw [(Word.toNat_mul_eq_iff _ _).2 hfits] at hend
    exact hend
  · intro hend
    have hfits : pe.video.v_height.toNat * pe.video.v_rowBytes.toNat < 2 ^ 64 := by omega
    rw [(Word.toNat_mul_eq_iff _ _).2 hfits]
    exact ⟨⟨hfits, hend⟩, trivial⟩

theorem framebuffer_keepsGeometry (v : Variant) {pe : PEState} (hinit : pe.initialized = true) :
    (Publisher.framebuffer v).KeepsGeometry pe ↔
      pe.video.v_width.toNat % 2 ^ 32 = pe.video.v_width.toNat ∧
        pe.video.v_height.toNat % 2 ^ 32 = pe.video.v_height.toNat := by
  have hstart := fun fb superStart => Variant.start_fst v fb superStart hinit
  simp only [KeepsGeometry, hstart, Framebuffer.recordConsole, UInt64.toNat_toUInt32]
  exact ⟨fun h => h .zeroed true, fun h _ _ => h⟩

theorem vpaint_keepsGeometry (pe : PEState) :
    Publisher.vpaint.KeepsGeometry pe ↔
      pe.video.v_width.toNat % 2 ^ 32 = pe.video.v_width.toNat ∧
        pe.video.v_height.toNat % 2 ^ 32 = pe.video.v_height.toNat := by
  simp only [KeepsGeometry, Vpaint.locals, UInt64.toNat_toUInt32]

/-- **The aperture arithmetic is exact when the fields survive the variant's truncation and the
range ends within the address space**, and on no other console the check accepts. -/
theorem exact_iff (p : Publisher) (pe : PEState) (hpasses : p.passes pe) :
    p.Exact pe ↔ p.Untruncated pe.video ∧
      p.base pe.video + pe.video.v_height.toNat * pe.video.v_rowBytes.toNat ≤ 2 ^ 64 := by
  cases p with
  | nub v =>
    rw [nub_exact_iff v hpasses]
    exact (and_iff_right trivial).symm
  | framebuffer v =>
    obtain ⟨hinit, -, -, hheight, -⟩ := (Variant.passes_iff v _ pe).1 hpasses
    have hlength : ((Publisher.framebuffer v).range pe.video).length.toNat =
        pe.video.v_height.toNat % 2 ^ 32 * (pe.video.v_rowBytes.toNat % 2 ^ 32) := by
      simp only [range, Framebuffer.recordConsole, Word.toNat_widening_mul,
        UInt64.toNat_toUInt32]
    rw [exact_iff_range hpasses, framebuffer_keepsGeometry v hinit, hlength]
    exact truncated_exact_iff hheight
  | vpaint =>
    obtain ⟨-, -, -, hheight, -⟩ := (Vpaint.passes_iff pe).1 hpasses
    have hlength : (Publisher.vpaint.range pe.video).length.toNat =
        pe.video.v_height.toNat % 2 ^ 32 * (pe.video.v_rowBytes.toNat % 2 ^ 32) := by
      simp only [range, Vpaint.locals, Word.toNat_widening_mul, UInt64.toNat_toUInt32]
    rw [exact_iff_range hpasses, vpaint_keepsGeometry pe, hlength]
    exact truncated_exact_iff hheight

theorem exact_iff_honor :
    (Publisher.framebuffer .v8).Exact honorConsole ↔
      (Publisher.framebuffer .v8).Untruncated honorConsole.video ∧
      (Publisher.framebuffer .v8).base honorConsole.video +
        honorConsole.video.v_height.toNat * honorConsole.video.v_rowBytes.toNat ≤ 2 ^ 64 :=
  exact_iff (.framebuffer .v8) honorConsole (by decide)

/-- A console whose height and stride need 33 bits: the 64-bit product wraps and every truncation
loses the top bit. -/
def wideConsole : PEState where
  initialized := true
  video := {
    v_baseAddr := 0x4000000000
    v_rowBytes := 0x100001E00
    v_width := 1920
    v_height := 0x1000004B0
    v_depth := 32 }

/-- Every variant accepts such a console and publishes a length that is not the product. -/
theorem wideConsole_inexact :
    (Publisher.nub .honorFB).passes wideConsole ∧ ¬(Publisher.nub .honorFB).Exact wideConsole ∧
      (Publisher.framebuffer .v7).passes wideConsole ∧
      ¬(Publisher.framebuffer .v7).Exact wideConsole ∧
      Publisher.vpaint.passes wideConsole ∧ ¬Publisher.vpaint.Exact wideConsole := by
  have hnub : (Publisher.nub .honorFB).passes wideConsole := by decide
  have hfb : (Publisher.framebuffer .v7).passes wideConsole := by decide
  have hpaint : Publisher.vpaint.passes wideConsole := by decide
  refine ⟨hnub, fun h => ?_, hfb, fun h => ?_, hpaint, fun h => ?_⟩
  · exact absurd ((exact_iff_range hnub).1 h).1.1 (by decide)
  · exact absurd ((exact_iff_range hfb).1 h).1.1 (by decide)
  · exact absurd ((exact_iff_range hpaint).1 h).1.1 (by decide)

end Publisher

end HonorFB
