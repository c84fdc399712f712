import Mathlib.Data.Nat.Bitwise

/-!
# Masks of low bits

A mask that holds the lowest `k` bits and no other stays of that form when it is cut to
the lowest bits of a number or loses its highest bit.
-/

namespace LowMasks

/-- The lowest `k` bits. -/
def lowMask (k : Nat) : Nat := 2 ^ k - 1

theorem lowMask_lt (k : Nat) : lowMask k < 2 ^ k :=
  Nat.sub_lt (Nat.two_pow_pos k) Nat.one_pos

theorem lowMask_succ (k : Nat) : lowMask (k + 1) = lowMask k + 2 ^ k := by
  have pos := Nat.two_pow_pos k
  unfold lowMask
  omega

theorem lowMask_eq_zero_iff {k : Nat} : lowMask k = 0 ↔ k = 0 := by
  constructor
  · intro empty
    by_contra nonzero
    have two : 2 ≤ 2 ^ k := Nat.le_self_pow nonzero 2
    unfold lowMask at empty
    omega
  · rintro rfl
    rfl

theorem lowMask_succ_ne_zero (k : Nat) : lowMask (k + 1) ≠ 0 := fun zero =>
  Nat.succ_ne_zero k (lowMask_eq_zero_iff.mp zero)

theorem lowMask_mono {j k : Nat} (h : j ≤ k) : lowMask j ≤ lowMask k :=
  Nat.sub_le_sub_right (Nat.pow_le_pow_right Nat.two_pos h) 1

/-- The smaller of two masks is what they share. -/
theorem lowMask_and (j k : Nat) : lowMask j &&& lowMask k = lowMask (min j k) := by
  have shared : ∀ {j k : Nat}, j ≤ k → lowMask j &&& lowMask k = lowMask j := by
    intro j k h
    have below : lowMask j < 2 ^ k := (lowMask_mono h).trans_lt (lowMask_lt k)
    exact (Nat.and_two_pow_sub_one_eq_mod _ k).trans (Nat.mod_eq_of_lt below)
  rcases Nat.le_total j k with h | h
  · rw [shared h, Nat.min_eq_left h]
  · rw [Nat.and_comm, shared h, Nat.min_eq_right h]

theorem log2_lowMask (k : Nat) : (lowMask (k + 1)).log2 = k := by
  have high : 2 ^ k ≤ lowMask (k + 1) := lowMask_succ k ▸ Nat.le_add_left _ _
  exact (Nat.log2_eq_iff (lowMask_succ_ne_zero k)).mpr ⟨high, lowMask_lt (k + 1)⟩

/-- Clearing the highest bit, with a complement taken in `w` bits. -/
theorem lowMask_clear {k w : Nat} (h : k < w) :
    lowMask (k + 1) &&& (2 ^ w - 1 - 2 ^ k) = lowMask k := by
  apply Nat.eq_of_testBit_eq
  intro i
  have bit : 2 ^ k < 2 ^ w := Nat.pow_lt_pow_right Nat.one_lt_two h
  rw [Nat.sub_sub, Nat.add_comm 1, Nat.testBit_and, Nat.testBit_two_pow_sub_succ bit, lowMask,
    lowMask, Nat.testBit_two_pow_sub_one, Nat.testBit_two_pow_sub_one, Nat.testBit_two_pow]
  rw [Bool.eq_iff_iff]
  simp only [Bool.and_eq_true, Bool.not_eq_true', decide_eq_true_eq, decide_eq_false_iff_not]
  omega

end LowMasks
