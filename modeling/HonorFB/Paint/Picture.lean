import HonorFB.Lib.Bytes
import HonorFB.Lib.Strided
import HonorFB.Paint.Model

/-!
# The picture the paint probe leaves

The probe is read off the screen: four horizontal bands, white, red, green and blue from the top.
`ReferencePicture` says what the loops are for, band by band, and that they leave the row padding
alone. They draw it whenever a row of pixels fits the stride and `3*h` fits in 32 bits
(`start_paints`).
-/

namespace HonorFB

namespace Vpaint

/-! ## The reference -/

structure Band where
  rows : Nat
  color : UInt32

/-- The colour of each row, from the top. -/
def rowColors (bands : List Band) : List UInt32 :=
  bands.flatMap fun band => List.replicate band.rows band.color

def fourBands (white red green blue : Nat) : List Band :=
  [⟨white, 0xFFFFFFFF⟩, ⟨red, 0x00FF0000⟩, ⟨green, 0x0000FF00⟩, ⟨blue, 0x000000FF⟩]

/-- The visible picture in the mapping. -/
def layout (l : Locals) : Strided.Layout where
  width := l.w.toNat
  height := l.h.toNat
  stride := l.rb.toNat
  unit := 4

/-- The mapped memory `after` holds the four bands, each of `h/4` rows up to rounding, and differs
from `before` in no byte of the mapping outside the visible pixels. -/
structure ReferencePicture (l : Locals) (len : Nat) (before after : Bytes.Memory) : Prop where
  bands : ∃ white red green blue,
    (∀ rows ∈ [white, red, green, blue],
      rows = l.h.toNat / 4 ∨ rows = (l.h.toNat + 3) / 4) ∧
    white + red + green + blue = l.h.toNat ∧
    ∀ x y, x < l.w.toNat → y < l.h.toNat →
      (rowColors (fourBands white red green blue))[y]? =
        some (Bytes.load32 after ((layout l).offset x y))
  padding : ∀ i, i < len → (∀ x y, x < l.w.toNat → y < l.h.toNat →
      i < (layout l).offset x y ∨ (layout l).offset x y + 4 ≤ i) → after i = before i

/-- The memory behind the mapping after the stores, in program order. -/
def paint (memory : Bytes.Memory) (stores : List Store) : Bytes.Memory :=
  Bytes.storeAll Store.offset Store.color memory stores

/-! ## The bands -/

theorem rowColors_fourBands (white red green blue : Nat) {y : Nat}
    (hy : y < white + red + green + blue) :
    (rowColors (fourBands white red green blue))[y]? = some
      (if y < white then 0xFFFFFFFF
      else if y < white + red then 0x00FF0000
      else if y < white + red + green then 0x0000FF00
      else 0x000000FF) := by
  simp only [rowColors, fourBands, List.flatMap_cons, List.flatMap_nil, List.append_nil,
    List.getElem?_append, List.length_replicate, List.getElem?_replicate]
  split_ifs <;> first | rfl | omega

/-- The thresholds of the loop, as numbers of rows. -/
theorem bandColor_eq {h : UInt32} (hheight : 3 * h.toNat < 2 ^ 32) {y : Nat} (hy : y < h.toNat) :
    bandColor h (UInt32.ofNat y) =
      if y < h.toNat / 4 then 0xFFFFFFFF
      else if y < h.toNat / 2 then 0x00FF0000
      else if y < 3 * h.toNat / 4 then 0x0000FF00
      else 0x000000FF := by
  have hrow : (UInt32.ofNat y).toNat = y := UInt32.toNat_ofNat_of_lt' (Nat.lt_trans hy h.toNat_lt)
  have hthree : (3 * h).toNat = 3 * h.toNat := by
    rw [UInt32.toNat_mul]
    exact Nat.mod_eq_of_lt hheight
  unfold bandColor
  simp only [UInt32.lt_iff_toNat_lt, UInt32.toNat_div, hrow, hthree]
  rfl

/-- Rounding the thresholds down gives four bands that differ by one row at most. -/
theorem bands_balanced (h : Nat) :
    (∀ rows ∈ [h / 4, h / 2 - h / 4, 3 * h / 4 - h / 2, h - 3 * h / 4],
      rows = h / 4 ∨ rows = (h + 3) / 4) ∧
    h / 4 + (h / 2 - h / 4) + (3 * h / 4 - h / 2) + (h - 3 * h / 4) = h := by
  refine ⟨?_, by omega⟩
  simp only [List.forall_mem_cons, List.not_mem_nil, false_imp_iff, implies_true, and_true]
  refine ⟨Or.inl trivial, ?_, ?_, ?_⟩
  · omega
  · omega
  · omega

theorem rowColors_bandColor {h : UInt32} (hheight : 3 * h.toNat < 2 ^ 32) {y : Nat}
    (hy : y < h.toNat) :
    (rowColors (fourBands (h.toNat / 4) (h.toNat / 2 - h.toNat / 4)
      (3 * h.toNat / 4 - h.toNat / 2) (h.toNat - 3 * h.toNat / 4)))[y]? =
      some (bandColor h (UInt32.ofNat y)) := by
  have hsum := (bands_balanced h.toNat).2
  rw [rowColors_fourBands _ _ _ _ (by omega), bandColor_eq hheight hy]
  have hhalf : h.toNat / 4 + (h.toNat / 2 - h.toNat / 4) = h.toNat / 2 := by omega
  have hthird : h.toNat / 2 + (3 * h.toNat / 4 - h.toNat / 2) = 3 * h.toNat / 4 := by omega
  rw [hhalf, hthird]

/-! ## The loops -/

theorem mem_stores_layout_iff (l : Locals) (s : Store) :
    s ∈ stores l ↔ ∃ x y, x < l.w.toNat ∧ y < l.h.toNat ∧
      s = { offset := (layout l).offset x y, color := bandColor l.h (UInt32.ofNat y) } :=
  mem_stores_iff l s

/-- A pixel keeps what its one store wrote: no later store touches it. -/
theorem load32_paint {l : Locals} (hrow : 4 * l.w.toNat ≤ l.rb.toNat) (memory : Bytes.Memory)
    {x y : Nat} (hx : x < l.w.toNat) (hy : y < l.h.toNat) :
    Bytes.load32 (paint memory (stores l)) ((layout l).offset x y) =
      bandColor l.h (UInt32.ofNat y) := by
  obtain ⟨s, hs⟩ : ∃ s : Store, s = { offset := (layout l).offset x y
                                      color := bandColor l.h (UInt32.ofNat y) } := ⟨_, rfl⟩
  have hmem : s ∈ stores l := (mem_stores_layout_iff l s).2 ⟨x, y, hx, hy, hs⟩
  have hapart : ∀ s' ∈ stores l, s'.offset = s.offset ∧ s'.color = s.color ∨
      Bytes.Disjoint32 s'.offset s.offset := by
    intro s' hs'
    obtain ⟨x', y', hx', hy', rfl⟩ := (mem_stores_layout_iff l s').1 hs'
    rw [hs]
    rcases (layout l).offset_disjoint hrow hx' hx y' y with
      ⟨rfl, rfl⟩ | hbefore | hafter
    · exact Or.inl ⟨rfl, rfl⟩
    · exact Or.inr (Or.inl hbefore)
    · exact Or.inr (Or.inr hafter)
  have hread := Bytes.load32_storeAll Store.offset Store.color memory hmem hapart
  rw [hs] at hread
  exact hread

theorem paint_of_outside {l : Locals} (memory : Bytes.Memory) {i : Nat}
    (h : ∀ x y, x < l.w.toNat → y < l.h.toNat →
      i < (layout l).offset x y ∨ (layout l).offset x y + 4 ≤ i) :
    paint memory (stores l) i = memory i := by
  refine Bytes.storeAll_of_outside Store.offset Store.color memory fun s hs => ?_
  obtain ⟨x, y, hx, hy, rfl⟩ := (mem_stores_layout_iff l s).1 hs
  exact h x y hx hy

theorem paint_reference {l : Locals} (hrow : 4 * l.w.toNat ≤ l.rb.toNat)
    (hheight : 3 * l.h.toNat < 2 ^ 32) (len : Nat) (memory : Bytes.Memory) :
    ReferencePicture l len memory (paint memory (stores l)) := by
  obtain ⟨hbalanced, hsum⟩ := bands_balanced l.h.toNat
  refine ⟨⟨_, _, _, _, hbalanced, hsum, fun x y hx hy => ?_⟩, fun i _ hout => ?_⟩
  · rw [load32_paint hrow memory hx hy]
    exact rowColors_bandColor hheight hy
  · exact paint_of_outside memory hout

/-- **On every console it maps, the probe draws the reference picture**, if a row of 32-bit pixels
fits the stride and `3*h` fits in 32 bits. -/
theorem start_paints (pe : PEState) (withPhysicalAddress map : Bool) (range : IODeviceMemory)
    (hmapped : (start pe withPhysicalAddress map).mapped = some range)
    (hrow : 4 * (locals pe.video).w.toNat ≤ (locals pe.video).rb.toNat)
    (hheight : 3 * (locals pe.video).h.toNat < 2 ^ 32) (memory : Bytes.Memory) :
    ReferencePicture (locals pe.video) range.length.toNat memory
      (paint memory (start pe withPhysicalAddress map).stores) := by
  have hstores : (start pe withPhysicalAddress map).stores = stores (locals pe.video) := by
    rcases start_mapped pe withPhysicalAddress map with hnone | ⟨hpasses, rfl, rfl⟩
    · rw [hnone] at hmapped
      cases hmapped
    · rw [start_of_passes hpasses]
  rw [hstores]
  exact paint_reference hrow hheight _ memory

theorem start_paints_honor :
    ReferencePicture (locals honorConsole.video) 9216000 (fun _ => 0)
      (paint (fun _ => 0) (start honorConsole true true).stores) :=
  start_paints honorConsole true true { start := 0x4000000000, length := 9216000 } (by decide)
    (by decide) (by decide) (fun _ => 0)

end Vpaint

end HonorFB
