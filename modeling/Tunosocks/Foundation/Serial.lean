import Mathlib.Data.BitVec
import Mathlib.Tactic.Ring

/-! Serial numbers: counters of a fixed width that wrap around, compared by the sign of
their difference. Numbers less than half the range apart compare as their places do. -/
namespace Tunosocks.Foundation.Serial
variable {w : Nat}

/-- The serial number `i` places after `base`. -/
def num (base : BitVec w) (i : Int) : BitVec w := base + BitVec.ofInt w i

theorem ofInt_sub (i j : Int) : BitVec.ofInt w (i - j) = BitVec.ofInt w i - BitVec.ofInt w j := by
  rw [eq_sub_iff_add_eq, ← BitVec.ofInt_add, Int.sub_add_cancel]

@[simp] theorem num_add_ofNat (base : BitVec w) (i : Int) (k : Nat) :
    num base i + BitVec.ofNat w k = num base (i + k) := by
  rw [num, num, BitVec.ofInt_add, BitVec.ofInt_natCast, BitVec.add_assoc]

@[simp] theorem num_sub_ofNat (base : BitVec w) (i : Int) (k : Nat) :
    num base i - BitVec.ofNat w k = num base (i - k) := by
  rw [num, num, ofInt_sub, BitVec.ofInt_natCast]
  ring

@[simp] theorem num_sub_num (base : BitVec w) (i j : Int) : num base i - num base j = BitVec.ofInt w (i - j) := by
  rw [num, num, ofInt_sub]
  ring

theorem num_zero (base : BitVec w) : num base 0 = base := by
  simp [num]

/-- Every serial number is one counted from any other. -/
theorem num_add_toInt (base c : BitVec w) (i : Int) : num base (i + (c - num base i).toInt) = c := by
  rw [num, num, BitVec.ofInt_add, BitVec.ofInt_toInt]
  ring

/-- The signed difference of two near numbers is the distance of their places. -/
theorem toInt_ofInt_near {d : Int} (h : -2 ^ w ≤ 2 * d ∧ 2 * d < 2 ^ w) : (BitVec.ofInt w d).toInt = d := by
  rw [BitVec.toInt_ofInt]
  apply Int.bmod_eq_of_le <;> push_cast <;> omega

theorem toNat_ofInt_ahead {d : Int} (h : 0 ≤ d ∧ d < 2 ^ w) : ((BitVec.ofInt w d).toNat : Int) = d := by
  rw [BitVec.toNat_ofInt]
  push_cast
  rw [Int.emod_eq_of_lt h.1 h.2, Int.toNat_of_nonneg h.1]

theorem num_inj {base : BitVec w} {i j : Int} (h : i - j < 2 ^ w) (h' : j - i < 2 ^ w) :
    num base i = num base j ↔ i = j := by
  refine ⟨fun he => ?_, fun he => he ▸ rfl⟩
  have hz : BitVec.ofInt w (i - j) = 0#w := by rw [← num_sub_num base, he, BitVec.sub_self]
  have hmod := congrArg BitVec.toNat hz
  rw [BitVec.toNat_ofInt, BitVec.toNat_zero, Int.toNat_eq_zero] at hmod
  have hdvd : ((2 ^ w : Nat) : Int) ∣ i - j :=
    Int.dvd_of_emod_eq_zero (le_antisymm hmod (Int.emod_nonneg _ (Int.natCast_ne_zero.mpr (Nat.two_pow_pos w).ne')))
  have hd := Int.eq_zero_of_abs_lt_dvd hdvd (by push_cast; rw [abs_lt]; omega)
  omega

end Tunosocks.Foundation.Serial
