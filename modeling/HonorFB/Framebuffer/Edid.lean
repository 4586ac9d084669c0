import Mathlib.Data.List.FinRange
import HonorFB.IOKit

/-!
# The synthetic EDID

The base table every `IOFramebuffer` variant carries, the two loops of `start` that turn it into
the stored block (copy, then checksum), and the reading of the preferred detailed timing that a
display client makes of a block.
-/

namespace HonorFB

abbrev EdidBlock := Vector UInt8 128

/-- `static const uint8_t base[128]`: the six variants hold the same bytes. -/
def edidBase : EdidBlock := #v[
  0x00, 0xFF, 0xFF, 0xFF, 0xFF, 0xFF, 0xFF, 0x00, 0x06, 0x10, 0x00, 0xA0, 0x01, 0x01, 0x01, 0x01,
  0x00, 0x1F, 0x01, 0x03, 0x80, 0x22, 0x16, 0x78, 0x0A,
  -- chromaticity
  0xEE, 0x91, 0xA3, 0x54, 0x4C, 0x99, 0x26, 0x0F, 0x50, 0x54,
  -- established timings
  0x00, 0x00, 0x00,
  -- standard timings (unused)
  0x01, 0x01, 0x01, 0x01, 0x01, 0x01, 0x01, 0x01,
  0x01, 0x01, 0x01, 0x01, 0x01, 0x01, 0x01, 0x01,
  -- detailed timing #1: 1920x1200 @ 60 (154.0 MHz)
  0x28, 0x3C, 0x80, 0xA0, 0x70, 0xB0, 0x23, 0x40, 0x30, 0x20, 0x36, 0x00, 0x58, 0xD7, 0x10, 0x00,
  0x00, 0x1E,
  -- descriptor #2: display range limits (50-75Hz / 30-90kHz)
  0x00, 0x00, 0x00, 0xFD, 0x00, 0x32, 0x4B, 0x1E, 0x5A, 0x11, 0x00, 0x0A, 0x20, 0x20, 0x20, 0x20,
  0x20, 0x20,
  -- descriptor #3: monitor name "Honor FB"
  0x00, 0x00, 0x00, 0xFC, 0x00, 0x48, 0x6F, 0x6E, 0x6F, 0x72, 0x20, 0x46, 0x42, 0x0A, 0x20, 0x20,
  0x20, 0x20,
  -- descriptor #4: dummy
  0x00, 0x00, 0x00, 0x10, 0x00, 0x00, 0x00, 0x00, 0x00, 0x00, 0x00, 0x00, 0x00, 0x00, 0x00, 0x00,
  0x00, 0x00,
  -- extension count, then the checksum `start` fixes up
  0x00,
  0x00]

/-- `for (int i = 0; i < 128; i++) edid[i] = base[i];` -/
def copyEdid (base edid : EdidBlock) : EdidBlock :=
  (List.finRange 128).foldl (fun (e : EdidBlock) (i : Fin 128) => e.set i.val base[i.val]) edid

/-- `for (int i = 0; i < 127; i++) sum += edid[i];` in `uint8_t`. -/
def sumEdid (edid : EdidBlock) : UInt8 :=
  (List.finRange 127).foldl (fun (sum : UInt8) (i : Fin 127) => sum + edid[i.val]) 0

/-- The block `start` leaves in `edid`: the copy, then
`edid[127] = static_cast<uint8_t>(0x100 - sum)`. -/
def fillEdid (base edid : EdidBlock) : EdidBlock :=
  let edid := copyEdid base edid
  edid.set 127 (UInt8.ofNat (0x100 - (sumEdid edid).toNat))

theorem foldl_set_getElem {n : Nat} {α : Type} (base : Vector α n) (is : List (Fin n))
    (e : Vector α n) (j : Nat) (hj : j < n) :
    (is.foldl (fun (e : Vector α n) (i : Fin n) => e.set i.val base[i.val]) e)[j] =
      if (⟨j, hj⟩ : Fin n) ∈ is then base[j] else e[j] := by
  induction is generalizing e with
  | nil => simp
  | cons i is ih =>
    rw [List.foldl_cons, ih]
    by_cases hmem : (⟨j, hj⟩ : Fin n) ∈ is
    · simp [hmem]
    · by_cases hij : i.val = j
      · subst hij
        simp [hmem]
      · have hne : (⟨j, hj⟩ : Fin n) ≠ i := fun h => hij (by rw [← h])
        simp [hmem, hne, hij]

theorem copyEdid_eq (base edid : EdidBlock) : copyEdid base edid = base := by
  apply Vector.ext
  intro j hj
  unfold copyEdid
  rw [foldl_set_getElem base _ edid j hj]
  simp

theorem fillEdid_getElem (base edid : EdidBlock) {j : Nat} (hj : j < 127) :
    (fillEdid base edid)[j] = base[j] := by
  unfold fillEdid
  simp only [copyEdid_eq]
  rw [Vector.getElem_set_ne]
  omega

/-! ## Detailed timing #1 -/

/-- Horizontal active pixels of the preferred timing: the low byte at 56, the high nibble of 58. -/
def timingWidth (block : EdidBlock) : Nat :=
  block[56].toNat + 256 * (block[58].toNat / 16)

/-- Vertical active lines of the preferred timing: the low byte at 59, the high nibble of 61. -/
def timingHeight (block : EdidBlock) : Nat :=
  block[59].toNat + 256 * (block[61].toNat / 16)

theorem fillEdid_timing (base edid : EdidBlock) :
    timingWidth (fillEdid base edid) = timingWidth base ∧
      timingHeight (fillEdid base edid) = timingHeight base := by
  unfold timingWidth timingHeight
  simp only [fillEdid_getElem base edid (show 56 < 127 by omega),
    fillEdid_getElem base edid (show 58 < 127 by omega),
    fillEdid_getElem base edid (show 59 < 127 by omega),
    fillEdid_getElem base edid (show 61 < 127 by omega), and_self]

theorem edidBase_timing : timingWidth edidBase = 1920 ∧ timingHeight edidBase = 1200 := by
  decide

end HonorFB
