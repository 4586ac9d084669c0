import Mathlib.Algebra.Group.Nat.Defs

/-!
# Pictures stored row by row

A picture of `width` by `height` pixels of `unit` bytes, one row every `stride` bytes. The pixel
`(x, y)` is the bytes from `offset x y` on. Two questions are asked here: when a range that holds
`height` whole rows holds every pixel, and whether two pixels share a byte.
-/

namespace Strided

structure Layout where
  width : Nat
  height : Nat
  stride : Nat
  unit : Nat

namespace Layout

variable (l : Layout)

def offset (x y : Nat) : Nat := y * l.stride + l.unit * x

/-- Every pixel of the picture lies below `length`. -/
def Inside (length : Nat) : Prop :=
  ∀ x y, x < l.width → y < l.height → l.offset x y + l.unit ≤ length

theorem offset_last {y : Nat} (hwidth : 0 < l.width) :
    l.offset (l.width - 1) y + l.unit = y * l.stride + l.unit * l.width := by
  unfold offset
  have h : l.unit * l.width = l.unit * (l.width - 1) + l.unit := by
    rw [← Nat.mul_succ]
    congr 1
    omega
  omega

theorem offset_add_unit_le {x y : Nat} (hx : x < l.width) :
    l.offset x y + l.unit ≤ y * l.stride + l.unit * l.width := by
  unfold offset
  have h : l.unit * (x + 1) ≤ l.unit * l.width := Nat.mul_le_mul_left _ hx
  rw [Nat.mul_succ] at h
  omega

/-- **`height` rows hold the picture exactly when a row of pixels fits the stride.** -/
theorem inside_iff (hwidth : 0 < l.width) (hheight : 0 < l.height) :
    l.Inside (l.height * l.stride) ↔ l.unit * l.width ≤ l.stride := by
  have hlast : l.height * l.stride = (l.height - 1) * l.stride + l.stride := by
    rw [← Nat.succ_mul]
    congr 1
    omega
  constructor
  · intro h
    -- the last pixel of the last row is the only one that matters
    have hpixel := h (l.width - 1) (l.height - 1) (by omega) (by omega)
    rw [offset_last l hwidth, hlast] at hpixel
    omega
  · intro h x y hx hy
    have hrow : y * l.stride ≤ (l.height - 1) * l.stride := Nat.mul_le_mul_right _ (by omega)
    have hpixel := offset_add_unit_le l (y := y) hx
    omega

/-- Two pixels of rows that fit the stride are the same or share no byte. -/
theorem offset_disjoint (hrow : l.unit * l.width ≤ l.stride) {x x' : Nat}
    (hx : x < l.width) (hx' : x' < l.width) (y y' : Nat) :
    x = x' ∧ y = y' ∨ l.offset x y + l.unit ≤ l.offset x' y' ∨
      l.offset x' y' + l.unit ≤ l.offset x y := by
  have hbelow : ∀ {a b c d : Nat}, a < l.width → b < d → l.offset a b + l.unit ≤ l.offset c d := by
    intro a b c d ha hbd
    have hpixel := offset_add_unit_le l (y := b) ha
    have hrows : (b + 1) * l.stride ≤ d * l.stride := Nat.mul_le_mul_right _ hbd
    rw [Nat.succ_mul] at hrows
    have hstart : d * l.stride ≤ l.offset c d := Nat.le_add_right _ _
    omega
  have hbeside : ∀ {a c b : Nat}, a < c → l.offset a b + l.unit ≤ l.offset c b := by
    intro a c b hac
    have hpixels : l.unit * (a + 1) ≤ l.unit * c := Nat.mul_le_mul_left _ hac
    rw [Nat.mul_succ] at hpixels
    unfold offset
    omega
  rcases Nat.lt_trichotomy y y' with hy | rfl | hy
  · exact Or.inr (Or.inl (hbelow hx hy))
  · rcases Nat.lt_trichotomy x x' with hxx | rfl | hxx
    · exact Or.inr (Or.inl (hbeside hxx))
    · exact Or.inl ⟨rfl, rfl⟩
    · exact Or.inr (Or.inr (hbeside hxx))
  · exact Or.inr (Or.inr (hbelow hx' hy))

end Layout

end Strided
