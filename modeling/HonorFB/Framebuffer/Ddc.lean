import Mathlib.Algebra.BigOperators.Fin
import HonorFB.Framebuffer.Console

/-!
# The EDID block and its requests

Whatever table a variant carries, `start` stores it with a last byte that makes the 128 bytes sum to
0 modulo 256, and `getDDCBlock` either hands out exactly that block or touches nothing
(`edid_integrity`).
-/

namespace HonorFB

/-! ## The checksum -/

/-- A sum accumulated in `uint8_t` is the sum of the bytes modulo 256. -/
theorem foldl_add_toNat {ι : Type} (f : ι → UInt8) (is : List ι) :
    ∀ sum : UInt8, (is.foldl (fun (sum : UInt8) (i : ι) => sum + f i) sum).toNat =
      (sum.toNat + (is.map fun i => (f i).toNat).sum) % 256 := by
  induction is with
  | nil =>
    intro sum
    have hlt := sum.toNat_lt
    simp only [List.foldl_nil, List.map_nil, List.sum_nil, Nat.add_zero]
    omega
  | cons i is ih =>
    intro sum
    rw [List.foldl_cons, ih, UInt8.toNat_add, List.map_cons, List.sum_cons]
    omega

theorem sumEdid_toNat (edid : EdidBlock) :
    (sumEdid edid).toNat = (∑ i : Fin 127, (edid.get i.castSucc).toNat) % 256 := by
  unfold sumEdid
  rw [foldl_add_toNat (fun i : Fin 127 => edid[i.val]), Fin.sum_univ_def]
  simp only [UInt8.toNat_zero, Nat.zero_add]
  rfl

theorem fillEdid_get_castSucc (base edid : EdidBlock) (i : Fin 127) :
    (fillEdid base edid).get i.castSucc = base.get i.castSucc :=
  fillEdid_getElem base edid i.isLt

theorem fillEdid_get_last (base edid : EdidBlock) :
    (fillEdid base edid).get (Fin.last 127) = UInt8.ofNat (0x100 - (sumEdid base).toNat) := by
  unfold fillEdid
  simp only [copyEdid_eq]
  exact Vector.getElem_set_self _

/-- The last byte complements the sum of the others, also when that is 0 already. -/
theorem fillEdid_sum (base edid : EdidBlock) :
    (∑ i : Fin 128, ((fillEdid base edid).get i).toNat) % 256 = 0 := by
  have hsum := sumEdid_toNat base
  have hlast : (UInt8.ofNat (0x100 - (sumEdid base).toNat)).toNat =
      (0x100 - (sumEdid base).toNat) % 256 := UInt8.toNat_ofNat
  rw [Fin.sum_univ_castSucc, fillEdid_get_last, hlast]
  simp only [fillEdid_get_castSucc]
  omega

/-! ## The requests -/

namespace Variant

/-- `getDDCBlock` as its caller sees it: the result, and afterwards the memory behind `data` and
`length`. -/
def ddcRequest (v : Variant) (fb : Framebuffer) (blockNumber : UInt32)
    (data : Option (Nat → UInt8)) (length : Option UInt64) :
    IOReturn × Option (Nat → UInt8) × Option UInt64 :=
  match v.getDDCBlock fb blockNumber data length with
  | .ok (data', length') => (.kIOReturnSuccess, some data', some length')
  | .error e => (e, data, length)

/-- The block is handed out whole, in front of bytes that stay. -/
def HandsOut (block : EdidBlock) (data : Option (Nat → UInt8))
    (reply : IOReturn × Option (Nat → UInt8) × Option UInt64) : Prop :=
  ∃ before after, data = some before ∧ reply = (.kIOReturnSuccess, some after, some 128) ∧
    (∀ i : Fin 128, after i = block.get i) ∧ ∀ i, 128 ≤ i → after i = before i

/-- What a request gets: the block, always if it asks properly, or nothing at all. -/
structure DdcContract (v : Variant) (fb : Framebuffer) (blockNumber : UInt32)
    (data : Option (Nat → UInt8)) (length : Option UInt64) : Prop where
  answered : HandsOut fb.edid data (v.ddcRequest fb blockNumber data length) ∨
    v.ddcRequest fb blockNumber data length = (.kIOReturnUnsupported, data, length)
  granted : ∀ before n, blockNumber = 1 → data = some before → length = some n → 128 ≤ n →
    (v.ddcRequest fb blockNumber data length).1 = .kIOReturnSuccess

theorem writeBlock_of_lt (edid : EdidBlock) (data : Nat → UInt8) (i : Fin 128) :
    writeBlock edid data i = edid.get i := by
  unfold writeBlock
  rw [foldl_update_eq, dif_pos ⟨i.isLt, List.mem_finRange _⟩]

theorem writeBlock_of_le (edid : EdidBlock) (data : Nat → UInt8) {i : Nat} (hi : 128 ≤ i) :
    writeBlock edid data i = data i := by
  unfold writeBlock
  rw [foldl_update_eq, dif_neg]
  rintro ⟨hlt, -⟩
  omega

theorem getDDCBlock_cases (v : Variant) (fb : Framebuffer) (blockNumber : UInt32)
    (data : Option (Nat → UInt8)) (length : Option UInt64) :
    (∃ before n, data = some before ∧ length = some n ∧ blockNumber = 1 ∧ 128 ≤ n ∧
      v.getDDCBlock fb blockNumber data length = .ok (writeBlock fb.edid before, 128)) ∨
    ¬(∃ before n, data = some before ∧ length = some n ∧ blockNumber = 1 ∧ 128 ≤ n) ∧
      v.getDDCBlock fb blockNumber data length = .error .kIOReturnUnsupported := by
  cases data with
  | none =>
    refine Or.inr ⟨?_, rfl⟩
    rintro ⟨_, _, hdata, -⟩
    cases hdata
  | some before =>
    cases length with
    | none =>
      refine Or.inr ⟨?_, rfl⟩
      rintro ⟨_, _, -, hlength, -⟩
      cases hlength
    | some n =>
      by_cases hblock : blockNumber = 1 ∧ 128 ≤ n
      · obtain ⟨rfl, hn⟩ := hblock
        exact Or.inl ⟨before, n, rfl, rfl, rfl, hn, getDDCBlock_of_le v fb before hn⟩
      · refine Or.inr ⟨?_, ?_⟩
        · rintro ⟨_, _, -, hlength, hone, hle⟩
          obtain rfl := Option.some.inj hlength
          exact hblock ⟨hone, hle⟩
        · unfold getDDCBlock
          apply if_pos
          by_contra hpasses
          simp only [Bool.or_eq_true, bne_iff_ne, decide_eq_true_eq, not_or, not_not,
            UInt64.not_lt] at hpasses
          exact hblock hpasses

theorem ddcContract (v : Variant) (fb : Framebuffer) (blockNumber : UInt32)
    (data : Option (Nat → UInt8)) (length : Option UInt64) :
    v.DdcContract fb blockNumber data length := by
  rcases getDDCBlock_cases v fb blockNumber data length with
    ⟨before, n, rfl, rfl, rfl, -, hok⟩ | ⟨hrefused, herror⟩
  · have hreply : v.ddcRequest fb 1 (some before) (some n) =
        (.kIOReturnSuccess, some (writeBlock fb.edid before), some 128) := by
      unfold ddcRequest
      rw [hok]
    refine ⟨Or.inl ⟨before, _, rfl, hreply, writeBlock_of_lt fb.edid before, fun i hi => ?_⟩,
      fun _ _ _ _ _ _ => ?_⟩
    · exact writeBlock_of_le fb.edid before hi
    · rw [hreply]
  · have hreply : v.ddcRequest fb blockNumber data length =
        (.kIOReturnUnsupported, data, length) := by
      unfold ddcRequest
      rw [herror]
    refine ⟨Or.inr hreply, fun before n hblock hdata hlength hn => ?_⟩
    exact absurd ⟨before, n, hdata, hlength, hblock, hn⟩ hrefused

/-- **The stored block is the table with a correct checksum, and requests get it whole or not at
all.** -/
theorem edid_integrity (v : Variant) (base : EdidBlock) (self : Framebuffer) (video : PEVideo) :
    let fb := self.recordConsole base video
    (∀ i : Fin 127, fb.edid.get i.castSucc = base.get i.castSucc) ∧
      (∑ i : Fin 128, (fb.edid.get i).toNat) % 256 = 0 ∧
      ∀ blockNumber data length, v.DdcContract fb blockNumber data length :=
  ⟨fillEdid_get_castSucc base self.edid, fillEdid_sum base self.edid, ddcContract v _⟩

end Variant

end HonorFB
