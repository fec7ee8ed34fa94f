import Mathlib.Algebra.BigOperators.Group.List.Basic
import Mathlib.Algebra.GroupWithZero.Nat
import Mathlib.Algebra.Order.BigOperators.Group.List
import Mathlib.Data.List.Basic

/-! Sixteen-bit one's-complement arithmetic over byte strings. The carry loop, the
end-around sum and the residue mod 65535 are three views of the same number. -/
namespace Tunosocks.Foundation.OnesComplement

/-- End-around-carry addition of two 16-bit words. -/
def onesAdd (a b : Nat) : Nat := if a + b < 65536 then a + b else a + b - 65535

def onesSum (ws : List Nat) : Nat := ws.foldl onesAdd 0

/-- Network-order words of a byte string; an odd last byte is padded with zero. -/
def wordsBE : List UInt8 → List Nat
  | [] => []
  | [a] => [256 * a.toNat]
  | a :: b :: rest => (256 * a.toNat + b.toNat) :: wordsBE rest

/-- The words a little-endian host loads from the same bytes. -/
def wordsLE : List UInt8 → List Nat
  | [] => []
  | [a] => [a.toNat]
  | a :: b :: rest => (a.toNat + 256 * b.toNat) :: wordsLE rest

/-- Add the carries back until none are left. -/
def foldCarry (s : Nat) : Nat :=
  if s / 65536 = 0 then s else foldCarry (s % 65536 + s / 65536)
termination_by s
decreasing_by omega

/-- The representative of a residue mod 65535 that is zero for zero alone. -/
def residue (s : Nat) : Nat := if s = 0 then 0 else (s - 1) % 65535 + 1

theorem residue_lt (s : Nat) : residue s < 65536 := by
  unfold residue
  split <;> omega

theorem residue_of_lt {s : Nat} (h : s < 65536) : residue s = s := by
  unfold residue
  split <;> omega

theorem residue_eq_max_iff (s : Nat) : residue s = 65535 ↔ s ≠ 0 ∧ s % 65535 = 0 := by
  unfold residue
  split <;> omega

private theorem residue_congr {s t : Nat} (hz : s = 0 ↔ t = 0) (hm : s % 65535 = t % 65535) :
    residue s = residue t := by
  unfold residue
  split <;> split <;> omega

theorem residue_add_residue (a b : Nat) : residue (residue a + b) = residue (a + b) := by
  have hz : residue a = 0 ↔ a = 0 := by unfold residue; split <;> omega
  have hm : residue a % 65535 = a % 65535 := by unfold residue; split <;> omega
  apply residue_congr <;> omega

theorem foldCarry_eq_residue (s : Nat) : foldCarry s = residue s := by
  fun_induction foldCarry s with
  | case1 s h => rw [residue_of_lt (by omega)]
  | case2 s h ih =>
    rw [ih]
    apply residue_congr <;> omega

private theorem onesAdd_eq_residue {a b : Nat} (ha : a < 65536) (hb : b < 65536) :
    onesAdd a b = residue (a + b) := by
  unfold onesAdd residue
  split <;> split <;> omega

private theorem foldl_onesAdd {ws : List Nat} (hw : ∀ w ∈ ws, w < 65536) {a : Nat} (ha : a < 65536) :
    ws.foldl onesAdd a = residue (a + ws.sum) := by
  induction ws generalizing a with
  | nil => simp [residue_of_lt ha]
  | cons w ws ih =>
    have hlt : w < 65536 := hw w (by simp)
    rw [List.foldl_cons, onesAdd_eq_residue ha hlt, ih (fun v hv => hw v (by simp [hv])) (residue_lt _),
      residue_add_residue, List.sum_cons, Nat.add_assoc]

/-- The end-around sum of words is the residue of their plain sum. -/
theorem onesSum_eq_residue {ws : List Nat} (hw : ∀ w ∈ ws, w < 65536) :
    onesSum ws = residue ws.sum := by
  simpa [onesSum] using foldl_onesAdd hw (show 0 < 65536 by omega)

theorem wordsBE_lt (bs : List UInt8) : ∀ w ∈ wordsBE bs, w < 65536 := by
  fun_induction wordsBE bs with
  | case1 => simp
  | case2 a =>
    have := a.toNat_lt
    simp only [List.mem_singleton, forall_eq]
    omega
  | case3 a b rest ih =>
    have := a.toNat_lt
    have := b.toNat_lt
    simp only [List.mem_cons, forall_eq_or_imp]
    exact ⟨by omega, ih⟩

/-- Loading the words in the other byte order multiplies the sum by 256 mod 65535. -/
theorem sum_wordsBE_mod (bs : List UInt8) :
    (wordsBE bs).sum % 65535 = 256 * (wordsLE bs).sum % 65535 := by
  fun_induction wordsBE bs with
  | case1 => rfl
  | case2 a => simp [wordsLE]
  | case3 a b rest ih =>
    simp only [wordsLE, List.sum_cons]
    omega

theorem sum_wordsBE_eq_zero_iff (bs : List UInt8) :
    (wordsBE bs).sum = 0 ↔ (wordsLE bs).sum = 0 := by
  fun_induction wordsBE bs with
  | case1 => rfl
  | case2 a =>
    simp only [wordsLE, List.sum_cons, List.sum_nil]
    omega
  | case3 a b rest ih =>
    simp only [wordsLE, List.sum_cons]
    omega

/-- A byte string sums to all ones in network order exactly when it does in host order. -/
theorem onesSum_wordsBE_eq_max_iff (bs : List UInt8) :
    onesSum (wordsBE bs) = 65535 ↔ (wordsLE bs).sum ≠ 0 ∧ (wordsLE bs).sum % 65535 = 0 := by
  rw [onesSum_eq_residue (wordsBE_lt bs), residue_eq_max_iff]
  have hmod := sum_wordsBE_mod bs
  have hzero := sum_wordsBE_eq_zero_iff bs
  omega

theorem wordsLE_lt (bs : List UInt8) : ∀ w ∈ wordsLE bs, w < 65536 := by
  fun_induction wordsLE bs with
  | case1 => simp
  | case2 a =>
    have := a.toNat_lt
    simp only [List.mem_singleton, forall_eq]
    omega
  | case3 a b rest ih =>
    have := a.toNat_lt
    have := b.toNat_lt
    simp only [List.mem_cons, forall_eq_or_imp]
    exact ⟨by omega, ih⟩

/-- Each word adds at most 65535. -/
theorem sum_wordsLE_le (bs : List UInt8) : (wordsLE bs).sum ≤ 65535 * ((bs.length + 1) / 2) := by
  fun_induction wordsLE bs with
  | case1 => simp
  | case2 a =>
    have := a.toNat_lt
    simp only [List.sum_cons, List.sum_nil, List.length_cons, List.length_nil]
    omega
  | case3 a b rest ih =>
    have := a.toNat_lt
    have := b.toNat_lt
    simp only [List.sum_cons, List.length_cons]
    omega

theorem onesSum_wordsLE_eq_max_iff (bs : List UInt8) :
    onesSum (wordsLE bs) = 65535 ↔ onesSum (wordsBE bs) = 65535 := by
  rw [onesSum_wordsBE_eq_max_iff, onesSum_eq_residue (wordsLE_lt bs), residue_eq_max_iff]

/-- The sum does not depend on the byte order the words are loaded in, but for the order of its own two bytes. -/
theorem onesSum_wordsBE (bs : List UInt8) :
    onesSum (wordsBE bs) = 256 * (onesSum (wordsLE bs) % 256) + onesSum (wordsLE bs) / 256 := by
  rw [onesSum_eq_residue (wordsBE_lt bs), onesSum_eq_residue (wordsLE_lt bs)]
  have hmod := sum_wordsBE_mod bs
  have hzero := sum_wordsBE_eq_zero_iff bs
  unfold residue
  split <;> split <;> omega

/-- Residues agree in one byte order as soon as they agree in the other. -/
theorem sum_wordsBE_congr_iff (x y : List UInt8) :
    (wordsBE x).sum % 65535 = (wordsBE y).sum % 65535 ↔ (wordsLE x).sum % 65535 = (wordsLE y).sum % 65535 := by
  have hx := sum_wordsBE_mod x
  have hy := sum_wordsBE_mod y
  omega

/-- A zero byte that completes the last word adds nothing. -/
theorem sum_wordsLE_padded (bs : List UInt8) :
    (wordsLE (bs ++ List.replicate (bs.length % 2) 0)).sum = (wordsLE bs).sum := by
  fun_induction wordsLE bs with
  | case1 => rfl
  | case2 a => simp [wordsLE]
  | case3 a b rest ih =>
    rw [List.length_cons, List.length_cons, show (rest.length + 1 + 1) % 2 = rest.length % 2 by omega]
    simp only [List.cons_append, wordsLE, List.sum_cons, ih]

theorem wordsLE_append {a b : List UInt8} (h : a.length % 2 = 0) :
    wordsLE (a ++ b) = wordsLE a ++ wordsLE b := by
  fun_induction wordsLE a with
  | case1 => rfl
  | case2 => simp at h
  | case3 x y rest ih =>
    simp only [List.length_cons] at h
    simp only [List.cons_append, wordsLE, ih (by omega)]

end Tunosocks.Foundation.OnesComplement
