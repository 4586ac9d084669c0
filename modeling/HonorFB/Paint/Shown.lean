import HonorFB.Framebuffer.Model
import HonorFB.Paint.Picture

/-!
# The picture through a framebuffer's eyes

The probe is there to tell whether the range the `IOFramebuffer` variants hand out is the memory on
the screen. Both take it from the same record: the probe's mapping is the variant's aperture, and
its pixels are where `getPixelInformation` says, so read by the component masks they are white, red,
green and blue. With the components in another order the white band is white still and the bands are
told apart (`bands_shown`).

The threshold of the third band is a 32-bit product. Where it wraps there is no green row at all, so
the condition of the reference picture is exact (`paints_iff`).
-/

namespace HonorFB

namespace IOPixelInformation

/-- The bits of the pixel that the mask selects, moved to the low end. -/
def component (pixel mask : UInt32) : UInt32 :=
  (pixel &&& mask) / (mask &&& (0 - mask))

/-- The word that the description places at `(x, y)`. -/
def pixel (info : IOPixelInformation) (memory : Bytes.Memory) (x y : Nat) : UInt32 :=
  Bytes.load32 memory (y * info.bytesPerRow.toNat + 4 * x)

/-- The components of the pixel, in the order of these masks. -/
def shown (info : IOPixelInformation) (memory : Bytes.Memory) (order : List UInt32)
    (x y : Nat) : List UInt32 :=
  order.map (component (info.pixel memory x y))

end IOPixelInformation

namespace Vpaint

/-! ## The third band -/

/-- A product that wraps leaves the third threshold at or below the second, and no row is green. -/
theorem bandColor_of_wraps {h : UInt32} (hwraps : 2 ^ 32 ≤ 3 * h.toNat) {y : Nat}
    (hy : y < h.toNat) :
    bandColor h (UInt32.ofNat y) =
      if y < h.toNat / 4 then 0xFFFFFFFF
      else if y < h.toNat / 2 then 0x00FF0000
      else 0x000000FF := by
  have hlt := h.toNat_lt
  have hrow : (UInt32.ofNat y).toNat = y := UInt32.toNat_ofNat_of_lt' (Nat.lt_trans hy hlt)
  have hthree : (3 * h).toNat = 3 * h.toNat % 2 ^ 32 := UInt32.toNat_mul 3 h
  have hwrapped : 3 * h.toNat % 2 ^ 32 ≤ 3 * h.toNat - 2 ^ 32 := by
    rw [Nat.mod_eq_sub_mod hwraps]
    exact Nat.mod_le _ _
  have hthird : 3 * h.toNat % 2 ^ 32 / 4 ≤ h.toNat / 2 := by omega
  unfold bandColor
  simp only [UInt32.lt_iff_toNat_lt, UInt32.toNat_div, hrow, hthree]
  show (if y < h.toNat / 4 then (0xFFFFFFFF : UInt32)
    else if y < h.toNat / 2 then 0x00FF0000
    else if y < 3 * h.toNat % 2 ^ 32 / 4 then 0x0000FF00 else 0x000000FF) = _
  refine ite_congr rfl (fun _ => rfl) fun _ => ite_congr rfl (fun _ => rfl) fun hhalf => ?_
  apply if_neg
  intro hgreen
  exact hhalf (Nat.lt_of_lt_of_le hgreen hthird)

theorem not_reference_of_wraps {l : Locals} (hwidth : 0 < l.w.toNat)
    (hrow : 4 * l.w.toNat ≤ l.rb.toNat) (hwraps : 2 ^ 32 ≤ 3 * l.h.toNat) (len : Nat)
    (memory : Bytes.Memory) : ¬ReferencePicture l len memory (paint memory (stores l)) := by
  intro hreference
  obtain ⟨white, red, green, blue, hrows, hsum, hbands⟩ := hreference.bands
  have hblue := hrows blue (by simp)
  have hhalf : l.h.toNat / 2 < l.h.toNat := by omega
  have hpixel := hbands 0 (l.h.toNat / 2) hwidth hhalf
  rw [load32_paint hrow memory hwidth hhalf, bandColor_of_wraps hwraps hhalf,
    if_neg (by omega), if_neg (Nat.lt_irrefl _),
    rowColors_fourBands white red green blue (by omega)] at hpixel
  -- the middle row is above the reference's last band, which holds a quarter of the rows
  have habove : l.h.toNat / 2 < white + red + green := by omega
  split_ifs at hpixel
  · exact absurd (Option.some.inj hpixel) (by decide)
  · exact absurd (Option.some.inj hpixel) (by decide)
  · exact absurd (Option.some.inj hpixel) (by decide)

theorem not_green_of_wraps {l : Locals} (hrow : 4 * l.w.toNat ≤ l.rb.toNat)
    (hwraps : 2 ^ 32 ≤ 3 * l.h.toNat) (memory : Bytes.Memory) {x y : Nat} (hx : x < l.w.toNat)
    (hy : y < l.h.toNat) :
    Bytes.load32 (paint memory (stores l)) ((layout l).offset x y) ≠ 0x0000FF00 := by
  rw [load32_paint hrow memory hx hy, bandColor_of_wraps hwraps hy]
  split_ifs
  · decide
  · decide
  · decide

/-- **Where a row of pixels fits the stride, the probe draws the reference picture if and only if
`3*h` fits in 32 bits**, and where it does not, no pixel is green. -/
theorem paints_iff (pe : PEState) (withPhysicalAddress map : Bool) (range : IODeviceMemory)
    (hmapped : (start pe withPhysicalAddress map).mapped = some range)
    (hrow : 4 * (locals pe.video).w.toNat ≤ (locals pe.video).rb.toNat) (memory : Bytes.Memory) :
    (ReferencePicture (locals pe.video) range.length.toNat memory
        (paint memory (start pe withPhysicalAddress map).stores) ↔
      3 * (locals pe.video).h.toNat < 2 ^ 32) ∧
    (2 ^ 32 ≤ 3 * (locals pe.video).h.toNat →
      ∀ x y, x < (locals pe.video).w.toNat → y < (locals pe.video).h.toNat →
        Bytes.load32 (paint memory (start pe withPhysicalAddress map).stores)
          ((layout (locals pe.video)).offset x y) ≠ 0x0000FF00) := by
  rcases start_mapped pe withPhysicalAddress map with hnone | ⟨hpasses, rfl, rfl⟩
  · rw [hnone] at hmapped
    cases hmapped
  obtain ⟨-, -, hwidth, -, -⟩ := (passes_iff pe).1 hpasses
  have hw : (locals pe.video).w.toNat = pe.video.v_width.toNat % 2 ^ 32 :=
    UInt64.toNat_toUInt32 pe.video.v_width
  rw [start_of_passes hpasses]
  refine ⟨⟨fun hreference => ?_, fun hheight => ?_⟩, fun hwraps x y hx hy => ?_⟩
  · by_contra hwraps
    exact not_reference_of_wraps (by omega) hrow (by omega) _ memory hreference
  · exact paint_reference hrow hheight _ memory
  · exact not_green_of_wraps hrow hwraps memory hx hy

/-- One column of `2^31` rows: the product wraps. -/
def tallConsole : PEState where
  initialized := true
  video :=
    { v_baseAddr := 0x4000000000, v_rowBytes := 4, v_width := 1, v_height := 0x80000000,
      v_depth := 32 }

/-- The laptop's console gets the picture, and the tall one no green. -/
theorem paints_iff_honor :
    ReferencePicture (locals honorConsole.video) 9216000 (fun _ => 0)
        (paint (fun _ => 0) (start honorConsole true true).stores) ∧
      ∀ y, y < 0x80000000 →
        Bytes.load32 (paint (fun _ => 0) (start tallConsole true true).stores)
          ((layout (locals tallConsole.video)).offset 0 y) ≠ 0x0000FF00 :=
  ⟨(paints_iff honorConsole true true { start := 0x4000000000, length := 9216000 } (by decide)
      (by decide) (fun _ => 0)).1.2 (by decide),
    fun y hy => (paints_iff tallConsole true true { start := 0x4000000000, length := 0x200000000 }
      (by decide) (by decide) (fun _ => 0)).2 (by decide) 0 y (by decide) hy⟩

/-! ## What is shown -/

/-- The band of row `y`, from the top. -/
def band (h y : Nat) : Fin 4 :=
  if y < h / 4 then 0 else if y < h / 2 then 1 else if y < 3 * h / 4 then 2 else 3

/-- Red, green and blue of a band. -/
def bandComponents (b : Fin 4) : List UInt32 :=
  match b with
  | 0 => [255, 255, 255]
  | 1 => [255, 0, 0]
  | 2 => [0, 255, 0]
  | 3 => [0, 0, 255]

def bandPixel (b : Fin 4) : UInt32 :=
  match b with
  | 0 => 0xFFFFFFFF
  | 1 => 0x00FF0000
  | 2 => 0x0000FF00
  | 3 => 0x000000FF

/-- Red, green and blue in the word, as every variant publishes them. -/
def masks : List UInt32 := [0x00FF0000, 0x0000FF00, 0x000000FF]

/-- The described picture is the four bands. In another order of the components white is white and
the bands are told apart. -/
structure ShowsBands (info : IOPixelInformation) (memory : Bytes.Memory) : Prop where
  colors : ∀ x y, x < info.activeWidth.toNat → y < info.activeHeight.toNat →
    info.shown memory info.componentMasks x y = bandComponents (band info.activeHeight.toNat y)
  white : ∀ order : List UInt32, order.Perm info.componentMasks → ∀ x y,
    x < info.activeWidth.toNat → y < info.activeHeight.toNat →
      (info.shown memory order x y = [255, 255, 255] ↔ band info.activeHeight.toNat y = 0)
  toldApart : ∀ order : List UInt32, order.Perm info.componentMasks → ∀ x y x' y',
    x < info.activeWidth.toNat → y < info.activeHeight.toNat →
      x' < info.activeWidth.toNat → y' < info.activeHeight.toNat →
        (info.shown memory order x y = info.shown memory order x' y' ↔
          band info.activeHeight.toNat y = band info.activeHeight.toNat y')

theorem bandColor_eq_bandPixel {h : UInt32} (hheight : 3 * h.toNat < 2 ^ 32) {y : Nat}
    (hy : y < h.toNat) : bandColor h (UInt32.ofNat y) = bandPixel (band h.toNat y) := by
  rw [bandColor_eq hheight hy]
  unfold band
  split_ifs <;> rfl

theorem map_component_bandPixel (b : Fin 4) :
    masks.map (IOPixelInformation.component (bandPixel b)) = bandComponents b := by
  revert b
  decide

theorem bandComponents_injective {b b' : Fin 4} (h : bandComponents b = bandComponents b') :
    b = b' := by
  revert b b'
  decide

section Order

variable {order : List UInt32} (horder : order.Perm masks)

include horder

theorem white_iff (b : Fin 4) :
    order.map (IOPixelInformation.component (bandPixel b)) = [255, 255, 255] ↔ b = 0 := by
  have hperm := horder.map (IOPixelInformation.component (bandPixel b))
  rw [map_component_bandPixel] at hperm
  constructor
  · intro hwhite
    rw [hwhite] at hperm
    have hsame : (bandComponents b).Perm (List.replicate 3 255) := hperm.symm
    exact bandComponents_injective (List.perm_replicate.1 hsame)
  · rintro rfl
    have hwhite : (order.map (IOPixelInformation.component (bandPixel 0))).Perm
        (List.replicate 3 255) := hperm
    exact List.perm_replicate.1 hwhite

theorem told_apart_iff (b b' : Fin 4) :
    order.map (IOPixelInformation.component (bandPixel b)) =
      order.map (IOPixelInformation.component (bandPixel b')) ↔ b = b' := by
  constructor
  · intro hsame
    apply bandComponents_injective
    rw [← map_component_bandPixel, ← map_component_bandPixel]
    apply List.map_congr_left
    intro mask hmask
    exact List.map_inj_left.1 hsame mask (horder.mem_iff.2 hmask)
  · rintro rfl
    rfl

end Order

theorem showsBands_of_pixels {info : IOPixelInformation} {memory : Bytes.Memory}
    (hmasks : info.componentMasks = masks)
    (hpixels : ∀ x y, x < info.activeWidth.toNat → y < info.activeHeight.toNat →
      info.pixel memory x y = bandPixel (band info.activeHeight.toNat y)) :
    ShowsBands info memory := by
  have hshown : ∀ order : List UInt32, ∀ x y, x < info.activeWidth.toNat →
      y < info.activeHeight.toNat → info.shown memory order x y =
        order.map (IOPixelInformation.component (bandPixel (band info.activeHeight.toNat y))) := by
    intro order x y hx hy
    unfold IOPixelInformation.shown
    rw [hpixels x y hx hy]
  constructor
  · intro x y hx hy
    rw [hshown _ x y hx hy, hmasks]
    exact map_component_bandPixel _
  · intro order horder x y hx hy
    rw [hshown order x y hx hy]
    rw [hmasks] at horder
    exact white_iff horder _
  · intro order horder x y x' y' hx hy hx' hy'
    rw [hshown order x y hx hy, hshown order x' y' hx' hy']
    rw [hmasks] at horder
    exact told_apart_iff horder _ _

/-- **Every variant describes the probe's mapping, and in that description the picture shows its
bands**, if a row of 32-bit pixels fits the stride and `3*h` fits in 32 bits. -/
theorem bands_shown (pe : PEState) (withPhysicalAddress map : Bool) (range : IODeviceMemory)
    (hmapped : (start pe withPhysicalAddress map).mapped = some range)
    (hrow : 4 * (locals pe.video).w.toNat ≤ (locals pe.video).rb.toNat)
    (hheight : 3 * (locals pe.video).h.toNat < 2 ^ 32) (memory : Bytes.Memory)
    (v : Variant) (fb : Framebuffer) (superStart : Bool) :
    v.getApertureRange (v.start fb pe superStart).1 .kIOFBSystemAperture = some range ∧
      ∃ info, v.getPixelInformation (v.start fb pe superStart).1 kHonorModeID 0
          .kIOFBSystemAperture true = .ok info ∧
        ShowsBands info (paint memory (start pe withPhysicalAddress map).stores) := by
  rcases start_mapped pe withPhysicalAddress map with hnone | ⟨hpasses, rfl, rfl⟩
  · rw [hnone] at hmapped
    cases hmapped
  rw [start_of_passes hpasses] at hmapped ⊢
  obtain rfl := Option.some.inj hmapped
  rw [Variant.start_fst v fb superStart hpasses.1]
  refine ⟨rfl, _, rfl, ?_⟩
  apply showsBands_of_pixels
  · rfl
  · intro x y hx hy
    have hread := load32_paint hrow memory hx hy
    exact hread.trans (bandColor_eq_bandPixel hheight hy)

theorem bands_shown_honor :
    Variant.v9.getApertureRange (Variant.v9.start .zeroed honorConsole true).1
        .kIOFBSystemAperture = some { start := 0x4000000000, length := 9216000 } ∧
      ∃ info, Variant.v9.getPixelInformation (Variant.v9.start .zeroed honorConsole true).1
          kHonorModeID 0 .kIOFBSystemAperture true = .ok info ∧
        ShowsBands info (paint (fun _ => 0) (start honorConsole true true).stores) :=
  bands_shown honorConsole true true { start := 0x4000000000, length := 9216000 } (by decide)
    (by decide) (by decide) (fun _ => 0) .v9 .zeroed true

end Vpaint

end HonorFB
