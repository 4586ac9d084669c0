import HonorFB.IOKit
import HonorFB.Lib.Word

/-!
# The paint probe

`HonorFB_vpaint::start` maps the boot framebuffer and fills it with four horizontal bands. The two
nested loops are modelled as the list of their 32-bit stores, in program order, at offsets from the
start of the mapping. `withPhysicalAddress` and `map` are arguments: whether they return an object.
-/

namespace HonorFB

namespace Vpaint

structure Locals where
  fbBase : UInt64
  w : UInt32
  h : UInt32
  rb : UInt32
  len : UInt64
  deriving DecidableEq

def locals (video : PEVideo) : Locals :=
  let h := video.v_height.toUInt32
  let rb := video.v_rowBytes.toUInt32
  { fbBase := video.v_baseAddr &&& ~~~(3 : UInt64)
    w := video.v_width.toUInt32
    h := h
    rb := rb
    len := h.toUInt64 * rb.toUInt64 }

/-- `fbBase == 0 || len == 0 || w == 0 || h == 0 || rb == 0`: "invalid boot framebuffer". -/
def Locals.invalid (l : Locals) : Bool :=
  l.fbBase == 0 || l.len == 0 || l.w == 0 || l.h == 0 || l.rb == 0

/-- `*(volatile uint32_t *)(fb + offset) = color`. -/
structure Store where
  offset : Nat
  color : UInt32
  deriving DecidableEq, Repr

/-- The colour of row `y`. `3*h` is a `uint32_t` product. -/
def bandColor (h y : UInt32) : UInt32 :=
  if y < h / 4 then 0xFFFFFFFF
  else if y < h / 2 then 0x00FF0000
  else if y < 3 * h / 4 then 0x0000FF00
  else 0x000000FF

/-- The inner loop: `row` is `fb + static_cast<uint64_t>(y) * rb`. -/
def rowStores (l : Locals) (y : UInt32) : List Store :=
  (List.range l.w.toNat).map fun x =>
    { offset := (y.toUInt64 * l.rb.toUInt64).toNat + 4 * x, color := bandColor l.h y }

def stores (l : Locals) : List Store :=
  (List.range l.h.toNat).flatMap fun y => rowStores l (UInt32.ofNat y)

structure Outcome where
  result : Bool
  mapped : Option IODeviceMemory
  stores : List Store
  deriving DecidableEq

/-- `start`; the result of `IOService::start` is not looked at. -/
def start (pe : PEState) (withPhysicalAddress map : Bool) : Outcome :=
  if !pe.initialized then { result := false, mapped := none, stores := [] }
  else
    let l := locals pe.video
    if l.invalid then { result := false, mapped := none, stores := [] }
    else if !withPhysicalAddress then { result := false, mapped := none, stores := [] }
    else if !map then { result := false, mapped := none, stores := [] }
    else
      { result := true
        mapped := some { start := l.fbBase, length := l.len }
        stores := stores l }

def passes (pe : PEState) : Prop :=
  pe.initialized = true ∧ (locals pe.video).invalid = false

instance (pe : PEState) : Decidable (passes pe) :=
  inferInstanceAs (Decidable (_ ∧ _))

theorem passes_iff (pe : PEState) :
    passes pe ↔ pe.initialized = true ∧ pe.video.v_baseAddr.toNat / 4 ≠ 0 ∧
      pe.video.v_width.toNat % 2 ^ 32 ≠ 0 ∧ pe.video.v_height.toNat % 2 ^ 32 ≠ 0 ∧
      pe.video.v_rowBytes.toNat % 2 ^ 32 ≠ 0 := by
  unfold passes Locals.invalid locals
  simp only [Bool.or_eq_false_iff, beq_eq_false_iff_ne, ne_eq, ← Word.toNat_eq_zero_iff,
    ← Word.toNat32_eq_zero_iff, Word.toNat_and_not_three, Word.toNat_widening_mul,
    UInt64.toNat_toUInt32, Nat.mul_eq_zero, not_or]
  constructor
  · rintro ⟨hinit, ⟨⟨⟨hbase, -⟩, hw⟩, hh⟩, hrb⟩
    exact ⟨hinit, hbase.1, hw, hh, hrb⟩
  · rintro ⟨hinit, hbase, hw, hh, hrb⟩
    exact ⟨hinit, ⟨⟨⟨⟨hbase, by decide⟩, hh, hrb⟩, hw⟩, hh⟩, hrb⟩

theorem start_of_passes {pe : PEState} (h : passes pe) :
    start pe true true =
      { result := true
        mapped := some { start := (locals pe.video).fbBase, length := (locals pe.video).len }
        stores := stores (locals pe.video) } := by
  unfold start
  simp only [h.1, h.2, Bool.not_true, Bool.false_eq_true, if_false]

theorem start_stores_eq_nil {pe : PEState} {withPhysicalAddress map : Bool}
    (h : (start pe withPhysicalAddress map).mapped = none) :
    (start pe withPhysicalAddress map).stores = [] := by
  unfold start at h ⊢
  split <;> try rfl
  simp only at h ⊢
  split <;> try rfl
  split <;> try rfl
  split
  · rfl
  · simp_all

theorem start_mapped (pe : PEState) (withPhysicalAddress map : Bool) :
    (start pe withPhysicalAddress map).mapped = none ∨
      passes pe ∧ withPhysicalAddress = true ∧ map = true := by
  unfold start passes
  cases pe.initialized <;> cases hinvalid : (locals pe.video).invalid <;>
    cases withPhysicalAddress <;> cases map <;> simp [hinvalid]

/-- A store of the loops is the pixel `(x, y)` of the picture in its row's colour. -/
theorem mem_stores_iff (l : Locals) (s : Store) :
    s ∈ stores l ↔ ∃ x y, x < l.w.toNat ∧ y < l.h.toNat ∧
      s = { offset := y * l.rb.toNat + 4 * x, color := bandColor l.h (UInt32.ofNat y) } := by
  have hrow : ∀ y, y < l.h.toNat →
      ((UInt32.ofNat y).toUInt64 * l.rb.toUInt64).toNat = y * l.rb.toNat := by
    intro y hy
    rw [Word.toNat_widening_mul, UInt32.toNat_ofNat_of_lt' (Nat.lt_trans hy l.h.toNat_lt)]
  unfold stores rowStores
  simp only [List.mem_flatMap, List.mem_map, List.mem_range]
  constructor
  · rintro ⟨y, hy, x, hx, rfl⟩
    exact ⟨x, y, hx, hy, by rw [hrow y hy]⟩
  · rintro ⟨x, y, hx, hy, rfl⟩
    exact ⟨y, hy, x, hx, by rw [hrow y hy]⟩

end Vpaint

end HonorFB
