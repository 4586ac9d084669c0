import HonorFB.Lib.Strided
import HonorFB.Framebuffer.Model
import HonorFB.Paint.Model

/-!
# Pixels and the published range

The `IOFramebuffer` variants describe a picture by its width, height and stride and return one
physical range as the system aperture; the paint probe maps the same range and writes the picture.
The length of the range is `height * stride`, and neither check looks at the stride against the
width or at the depth. So the range holds every pixel exactly when a row of 32-bit pixels fits the
stride (`rowFits_iff`).
-/

namespace HonorFB

/-- A row of 32-bit pixels fits the stride, both as the drivers keep them. -/
def RowFits (video : PEVideo) : Prop :=
  4 * (video.v_width.toNat % 2 ^ 32) ≤ video.v_rowBytes.toNat % 2 ^ 32

instance (video : PEVideo) : Decidable (RowFits video) :=
  inferInstanceAs (Decidable (_ ≤ _))

/-- The picture that the truncated width, height and stride describe, 4 bytes a pixel. -/
def keptLayout (video : PEVideo) : Strided.Layout where
  width := video.v_width.toNat % 2 ^ 32
  height := video.v_height.toNat % 2 ^ 32
  stride := video.v_rowBytes.toNat % 2 ^ 32
  unit := 4

theorem keptLayout_inside_iff {video : PEVideo} (hwidth : video.v_width.toNat % 2 ^ 32 ≠ 0)
    (hheight : video.v_height.toNat % 2 ^ 32 ≠ 0) :
    (keptLayout video).Inside
        (video.v_height.toUInt32.toUInt64 * video.v_rowBytes.toUInt32.toUInt64).toNat ↔
      RowFits video := by
  have hlength : (video.v_height.toUInt32.toUInt64 * video.v_rowBytes.toUInt32.toUInt64).toNat =
      (keptLayout video).height * (keptLayout video).stride := by
    rw [Word.toNat_widening_mul, UInt64.toNat_toUInt32, UInt64.toNat_toUInt32]
    rfl
  rw [hlength]
  exact Strided.Layout.inside_iff (keptLayout video) (Nat.pos_of_ne_zero hwidth)
    (Nat.pos_of_ne_zero hheight)

namespace Variant

/-- Every pixel `getPixelInformation` describes lies in the range `getApertureRange` returns. -/
def PixelsInside (v : Variant) (fb : Framebuffer) : Prop :=
  ∃ info range, v.getPixelInformation fb kHonorModeID 0 .kIOFBSystemAperture true = .ok info ∧
    v.getApertureRange fb .kIOFBSystemAperture = some range ∧
    ∀ x y, x < info.activeWidth.toNat → y < info.activeHeight.toNat →
      y * info.bytesPerRow.toNat + 4 * x + 4 ≤ range.length.toNat

theorem pixelsInside_iff (v : Variant) (fb : Framebuffer) {pe : PEState} (superStart : Bool)
    (hpasses : v.passes fb pe) :
    v.PixelsInside (v.start fb pe superStart).1 ↔ RowFits pe.video := by
  obtain ⟨hinit, -, hwidth, hheight, -⟩ := (passes_iff v fb pe).1 hpasses
  rw [start_fst v fb superStart hinit, ← keptLayout_inside_iff hwidth hheight]
  constructor
  · rintro ⟨info, range, hinfo, hrange, hpixels⟩
    obtain rfl := Except.ok.inj hinfo
    obtain rfl := Option.some.inj hrange
    simp only [Framebuffer.recordConsole, UInt64.toNat_toUInt32] at hpixels
    exact hpixels
  · intro hinside
    refine ⟨_, _, rfl, rfl, ?_⟩
    simp only [Framebuffer.recordConsole, UInt64.toNat_toUInt32]
    exact hinside

end Variant

namespace Vpaint

/-- Every store of the paint loops lies in the mapped range. -/
def StoresInside (pe : PEState) : Prop :=
  ∀ withPhysicalAddress map, ∀ s ∈ (start pe withPhysicalAddress map).stores,
    ∃ range, (start pe withPhysicalAddress map).mapped = some range ∧
      s.offset + 4 ≤ range.length.toNat

/-- The stores are the pixels of the kept picture. -/
theorem mem_stores_locals_iff (video : PEVideo) (s : Store) :
    s ∈ stores (locals video) ↔
      ∃ x y, x < (keptLayout video).width ∧ y < (keptLayout video).height ∧
        s = { offset := (keptLayout video).offset x y
              color := bandColor (locals video).h (UInt32.ofNat y) } := by
  rw [mem_stores_iff]
  simp only [locals, UInt64.toNat_toUInt32]
  exact Iff.rfl

theorem storesInside_iff {pe : PEState} (hpasses : passes pe) :
    StoresInside pe ↔ RowFits pe.video := by
  obtain ⟨-, -, hwidth, hheight, -⟩ := (passes_iff pe).1 hpasses
  rw [← keptLayout_inside_iff hwidth hheight]
  constructor
  · intro h x y hx hy
    have hstart := h true true
    rw [start_of_passes hpasses] at hstart
    obtain ⟨range, hrange, hoffset⟩ :=
      hstart _ ((mem_stores_locals_iff pe.video _).2 ⟨x, y, hx, hy, rfl⟩)
    obtain rfl := Option.some.inj hrange
    exact hoffset
  · intro h withPhysicalAddress map s hs
    rcases start_mapped pe withPhysicalAddress map with hnone | ⟨-, rfl, rfl⟩
    · rw [start_stores_eq_nil hnone] at hs
      exact absurd hs List.not_mem_nil
    · rw [start_of_passes hpasses] at hs ⊢
      obtain ⟨x, y, hx, hy, rfl⟩ := (mem_stores_locals_iff pe.video s).1 hs
      exact ⟨_, rfl, h x y hx hy⟩

end Vpaint

/-- **No pixel lies outside the range exactly when a row of 32-bit pixels fits the stride**, on
every console the check accepts, for what the `IOFramebuffer` variants describe and for what the
paint probe stores. -/
theorem rowFits_iff (pe : PEState) :
    (∀ (v : Variant) (fb : Framebuffer) (superStart : Bool), v.passes fb pe →
      (v.PixelsInside (v.start fb pe superStart).1 ↔ RowFits pe.video)) ∧
    (Vpaint.passes pe → (Vpaint.StoresInside pe ↔ RowFits pe.video)) :=
  ⟨fun v fb superStart hpasses => Variant.pixelsInside_iff v fb superStart hpasses,
    Vpaint.storesInside_iff⟩

theorem rowFits_iff_honor :
    (Variant.v8.PixelsInside (Variant.v8.start .zeroed honorConsole true).1 ↔
      RowFits honorConsole.video) ∧
    (Vpaint.StoresInside honorConsole ↔ RowFits honorConsole.video) :=
  ⟨(rowFits_iff honorConsole).1 .v8 .zeroed true (by decide),
    (rowFits_iff honorConsole).2 (by decide)⟩

def sixteenBitConsole : PEState where
  initialized := true
  video := {
    v_baseAddr := 0x90000000
    v_rowBytes := 2048
    v_width := 1024
    v_height := 768
    v_depth := 16 }

/-- The last row of such a console is half outside: the described pixels and the stores run past
the range. -/
theorem sixteenBitConsole_outside :
    (Variant.v8.start .zeroed sixteenBitConsole true).2 = true ∧
      ¬Variant.v8.PixelsInside (Variant.v8.start .zeroed sixteenBitConsole true).1 ∧
      (Vpaint.start sixteenBitConsole true true).result = true ∧
      ¬Vpaint.StoresInside sixteenBitConsole := by
  have hpasses : Vpaint.passes sixteenBitConsole := by decide
  have hv : Variant.v8.passes .zeroed sixteenBitConsole := by decide
  refine ⟨(Variant.start_snd _ _ _ _).2 ⟨hv, rfl⟩, ?_, ?_, ?_⟩
  · rw [Variant.pixelsInside_iff _ _ _ hv]
    decide
  · rw [Vpaint.start_of_passes hpasses]
  · rw [Vpaint.storesInside_iff hpasses]
    decide

end HonorFB
