import Mathlib.Algebra.Group.Nat.Defs
import Mathlib.Data.List.Induction

/-!
# Runs of 32-bit stores into byte memory

A little-endian store changes four bytes. A run of stores to places that are pairwise equal or apart
leaves at each place what was stored there (`load32_storeAll`), and every byte outside the places as
it was (`storeAll_of_outside`).
-/

namespace Bytes

abbrev Memory := Nat → UInt8

/-- Byte `k` of the word, from the low end. -/
def byteOf (v : UInt32) (k : Nat) : UInt8 := UInt8.ofNat (v.toNat / 256 ^ k)

def store32 (m : Memory) (a : Nat) (v : UInt32) : Memory :=
  fun i => if a ≤ i ∧ i < a + 4 then byteOf v (i - a) else m i

def load32 (m : Memory) (a : Nat) : UInt32 :=
  UInt32.ofNat ((m a).toNat + 256 * (m (a + 1)).toNat + 65536 * (m (a + 2)).toNat +
    16777216 * (m (a + 3)).toNat)

/-- The words at the two addresses share no byte. -/
def Disjoint32 (a b : Nat) : Prop := a + 4 ≤ b ∨ b + 4 ≤ a

theorem store32_of_outside (m : Memory) {a i : Nat} (v : UInt32) (h : i < a ∨ a + 4 ≤ i) :
    store32 m a v i = m i := by
  apply if_neg
  omega

theorem store32_apply (m : Memory) (a : Nat) (v : UInt32) {k : Nat} (hk : k < 4) :
    (store32 m a v (a + k)).toNat = v.toNat / 256 ^ k % 256 := by
  unfold store32
  rw [if_pos (by omega), Nat.add_sub_cancel_left]
  rfl

theorem load32_store32 (m : Memory) (a : Nat) (v : UInt32) :
    load32 (store32 m a v) a = v := by
  have h0 := store32_apply m a v (show 0 < 4 by decide)
  have h1 := store32_apply m a v (show 1 < 4 by decide)
  have h2 := store32_apply m a v (show 2 < 4 by decide)
  have h3 := store32_apply m a v (show 3 < 4 by decide)
  have hlt := v.toNat_lt
  simp only [Nat.add_zero, Nat.reducePow, Nat.div_one] at h0 h1 h2 h3
  -- the word is the sum of its four digits in base 256
  have hdigits : v.toNat % 256 + 256 * (v.toNat / 256 % 256) + 65536 * (v.toNat / 65536 % 256) +
      16777216 * (v.toNat / 16777216 % 256) = v.toNat := by omega
  unfold load32
  rw [h0, h1, h2, h3, hdigits, UInt32.ofNat_toNat]

theorem load32_store32_of_disjoint (m : Memory) {a b : Nat} (v : UInt32) (h : Disjoint32 a b) :
    load32 (store32 m a v) b = load32 m b := by
  unfold Disjoint32 at h
  unfold load32
  rw [store32_of_outside m v (by omega), store32_of_outside m v (by omega),
    store32_of_outside m v (by omega), store32_of_outside m v (by omega)]

/-! ## Runs -/

section Run

variable {σ : Type*} (address : σ → Nat) (value : σ → UInt32)

/-- The stores, one after the other. -/
def storeAll (m : Memory) (stores : List σ) : Memory :=
  stores.foldl (fun m s => store32 m (address s) (value s)) m

theorem storeAll_concat (m : Memory) (stores : List σ) (s : σ) :
    storeAll address value m (stores ++ [s]) =
      store32 (storeAll address value m stores) (address s) (value s) := by
  unfold storeAll
  rw [List.foldl_append]
  rfl

theorem storeAll_of_outside (m : Memory) {stores : List σ} {i : Nat}
    (h : ∀ s ∈ stores, i < address s ∨ address s + 4 ≤ i) :
    storeAll address value m stores i = m i := by
  induction stores using List.reverseRecOn with
  | nil => rfl
  | append_singleton stores s ih =>
    rw [storeAll_concat, store32_of_outside _ _ (h s (by simp))]
    exact ih fun s' hs' => h s' (List.mem_append_left _ hs')

/-- **A run of stores that never half overlap leaves at each place the value stored there.** -/
theorem load32_storeAll (m : Memory) {stores : List σ} {s : σ} (hs : s ∈ stores)
    (h : ∀ s' ∈ stores, address s' = address s ∧ value s' = value s ∨
      Disjoint32 (address s') (address s)) :
    load32 (storeAll address value m stores) (address s) = value s := by
  induction stores using List.reverseRecOn with
  | nil => cases hs
  | append_singleton stores last ih =>
    rw [storeAll_concat]
    rcases h last (by simp) with ⟨haddress, hvalue⟩ | hdisjoint
    · rw [haddress, hvalue]
      exact load32_store32 _ _ _
    · rw [load32_store32_of_disjoint _ _ hdisjoint]
      -- a store is not apart from itself, so `s` is an earlier one
      have hearlier : s ∈ stores := by
        rcases List.mem_append.1 hs with hs | hs
        · exact hs
        · obtain rfl := List.mem_singleton.1 hs
          unfold Disjoint32 at hdisjoint
          omega
      exact ih hearlier fun s' hs' => h s' (List.mem_append_left _ hs')

end Run

end Bytes
