import Mathlib.Data.List.Basic

/-! Fixed-size buffers: stores that never change the size, the slices read back
from them, and the frame rules between the two. -/
namespace Tunosocks.Foundation.Buffer
variable {α : Type}

/-- Store data at an offset. What would fall past the end is dropped. -/
def writeAt : List α → Nat → List α → List α
  | [], _, _ => []
  | b :: buf, 0, [] => b :: buf
  | _ :: buf, 0, d :: data => d :: writeAt buf 0 data
  | b :: buf, off + 1, data => b :: writeAt buf off data

/-- The `n` bytes that start at an offset, fewer when the buffer ends before. -/
def slice (buf : List α) (off n : Nat) : List α := (buf.drop off).take n

@[simp] theorem length_writeAt (buf : List α) (off : Nat) (data : List α) :
    (writeAt buf off data).length = buf.length := by
  fun_induction writeAt buf off data <;> simp_all

@[simp] theorem writeAt_nil (buf : List α) (off : Nat) : writeAt buf off [] = buf := by
  induction buf generalizing off with
  | nil => cases off <;> rfl
  | cons b buf ih =>
    cases off with
    | zero => rfl
    | succ off => simp [writeAt, ih]

theorem getElem?_writeAt_inside {buf data : List α} {off i : Nat} (lo : off ≤ i)
    (hi : i < off + data.length) (room : i < buf.length) :
    (writeAt buf off data)[i]? = data[i - off]? := by
  fun_induction writeAt buf off data generalizing i with
  | case1 => simp at room
  | case2 => simp at hi
  | case3 d buf b data ih =>
    cases i with
    | zero => rfl
    | succ i =>
      simp only [List.length_cons] at hi room
      simpa using ih (Nat.zero_le _) (by omega) (by omega)
  | case4 b buf off data ih =>
    obtain ⟨i, rfl⟩ : ∃ j, i = j + 1 := ⟨i - 1, by omega⟩
    simp only [List.length_cons] at room
    simpa using ih (by omega) (by omega) (by omega)

theorem getElem?_writeAt_outside {buf data : List α} {off i : Nat}
    (out : i < off ∨ off + data.length ≤ i) : (writeAt buf off data)[i]? = buf[i]? := by
  fun_induction writeAt buf off data generalizing i with
  | case1 => rfl
  | case2 => rfl
  | case3 d buf b data ih =>
    simp only [List.length_cons] at out
    obtain ⟨i, rfl⟩ : ∃ j, i = j + 1 := ⟨i - 1, by omega⟩
    simpa using ih (by omega)
  | case4 b buf off data ih =>
    cases i with
    | zero => rfl
    | succ i => simpa using ih (by omega)

/-- A store behind the end is lost. -/
theorem writeAt_past {buf data : List α} {off : Nat} (past : buf.length ≤ off) : writeAt buf off data = buf := by
  apply List.ext_getElem?
  intro i
  by_cases hi : i < buf.length
  · exact getElem?_writeAt_outside (Or.inl (by omega))
  · rw [List.getElem?_eq_none (by rw [length_writeAt]; omega), List.getElem?_eq_none (by omega)]

theorem getElem?_slice (buf : List α) (off n i : Nat) :
    (slice buf off n)[i]? = if i < n then buf[off + i]? else none := by
  simp [slice, List.getElem?_take]

/-- Equal slices of one element give equal elements. -/
theorem getD_congr {x y : List α} {a b : Nat} (h : slice x a 1 = slice y b 1) (e : α) :
    x.getD a e = y.getD b e := by
  have same := congrArg (·[0]?) h
  simp only [getElem?_slice, Nat.zero_lt_one, if_true, Nat.add_zero] at same
  simp only [List.getD_eq_getElem?_getD, same]

@[simp] theorem length_slice (buf : List α) (off n : Nat) :
    (slice buf off n).length = min n (buf.length - off) := by
  simp [slice]

theorem length_slice_of_le {buf : List α} {off n : Nat} (h : off + n ≤ buf.length) :
    (slice buf off n).length = n := by
  rw [length_slice]
  omega

/-- What was stored is read back. -/
theorem slice_writeAt_same {buf data : List α} {off n : Nat} (hn : n = data.length)
    (room : off + n ≤ buf.length) : slice (writeAt buf off data) off n = data := by
  subst hn
  apply List.ext_getElem?
  intro i
  rw [getElem?_slice]
  split
  · rw [getElem?_writeAt_inside (by omega) (by omega) (by omega), Nat.add_sub_cancel_left]
  · rw [List.getElem?_eq_none (by omega)]

/-- A store leaves every slice it does not meet as it was. -/
theorem slice_writeAt_disjoint {buf data : List α} {off at' n : Nat}
    (apart : at' + n ≤ off ∨ off + data.length ≤ at') :
    slice (writeAt buf off data) at' n = slice buf at' n := by
  apply List.ext_getElem?
  intro i
  rw [getElem?_slice, getElem?_slice]
  split
  · exact getElem?_writeAt_outside (by omega)
  · rfl

/-- Part of a store is read back as the same part of what was stored. -/
theorem slice_writeAt_part {buf data : List α} {off k n : Nat} (part : k + n ≤ data.length)
    (room : off + data.length ≤ buf.length) :
    slice (writeAt buf off data) (off + k) n = slice data k n := by
  apply List.ext_getElem?
  intro i
  rw [getElem?_slice, getElem?_slice]
  split
  · rw [getElem?_writeAt_inside (by omega) (by omega) (by omega)]
    congr 1
    omega
  · rfl

/-- A store inside a slice is a store into the slice. -/
theorem slice_writeAt_inside {buf data : List α} {off at' n : Nat} (lo : at' ≤ off) :
    slice (writeAt buf off data) at' n = writeAt (slice buf at' n) (off - at') data := by
  apply List.ext_getElem?
  intro i
  by_cases room : i < n ∧ at' + i < buf.length
  · rw [getElem?_slice, if_pos room.1]
    by_cases hit : off ≤ at' + i ∧ at' + i < off + data.length
    · rw [getElem?_writeAt_inside hit.1 hit.2 room.2,
        getElem?_writeAt_inside (by omega) (by omega) (by rw [length_slice]; omega)]
      congr 1
      omega
    · rw [getElem?_writeAt_outside (by omega), getElem?_writeAt_outside (by omega), getElem?_slice,
        if_pos room.1]
  · rw [List.getElem?_eq_none (by rw [length_slice, length_writeAt]; omega),
      List.getElem?_eq_none (by rw [length_writeAt, length_slice]; omega)]

/-- A constant slice survives a store of the same element. -/
theorem slice_writeAt_const {buf : List α} {x : α} {a n k : Nat} (h : slice buf a n = List.replicate n x) :
    slice (writeAt buf k [x]) a n = List.replicate n x := by
  apply List.ext_getElem?
  intro i
  have before := congrArg (·[i]?) h
  simp only [getElem?_slice] at before ⊢
  by_cases hit : k = a + i ∧ k < buf.length
  · rw [getElem?_writeAt_inside (by omega) (by simp only [List.length_singleton]; omega) (by omega), ← before]
    split
    · rename_i hi
      rw [if_pos hi, List.getElem?_replicate, if_pos hi] at before
      rw [before]
      simp [hit.1]
    · rfl
  · rw [← before]
    by_cases room : a + i < buf.length
    · rw [getElem?_writeAt_outside (by simp only [List.length_singleton]; omega)]
    · rw [List.getElem?_eq_none (by rw [length_writeAt]; omega), List.getElem?_eq_none (by omega)]

/-- Storing one element changes nothing exactly when it was already there. -/
theorem writeAt_singleton_eq_self_iff {buf : List α} {k : Nat} (b : α) (h : k < buf.length) :
    writeAt buf k [b] = buf ↔ buf[k]? = some b := by
  constructor
  · intro he
    rw [← he, getElem?_writeAt_inside (Nat.le_refl _) (by simp) h]
    simp
  · intro he
    apply List.ext_getElem?
    intro i
    by_cases hi : i = k
    · rw [hi, getElem?_writeAt_inside (Nat.le_refl _) (by simp) h, he]
      simp
    · exact getElem?_writeAt_outside (by simp only [List.length_singleton]; omega)

/-- A later store of at least the same extent hides an earlier one. -/
theorem writeAt_overwrite {buf x y : List α} {off : Nat} (h : x.length ≤ y.length) :
    writeAt (writeAt buf off x) off y = writeAt buf off y := by
  apply List.ext_getElem?
  intro i
  by_cases room : i < buf.length
  · by_cases hit : off ≤ i ∧ i < off + y.length
    · rw [getElem?_writeAt_inside hit.1 hit.2 (by rwa [length_writeAt]),
        getElem?_writeAt_inside hit.1 hit.2 room]
    · rw [getElem?_writeAt_outside (by omega), getElem?_writeAt_outside (by omega),
        getElem?_writeAt_outside (by omega)]
  · rw [List.getElem?_eq_none (by rw [length_writeAt, length_writeAt]; omega),
      List.getElem?_eq_none (by rw [length_writeAt]; omega)]

private theorem writeAt_end (buf x y : List α) (off : Nat) :
    writeAt (writeAt buf off x) (off + x.length) y = writeAt buf off (x ++ y) := by
  fun_induction writeAt buf off x with
  | case1 => cases y <;> simp [writeAt]
  | case2 => simp
  | case3 d buf b data ih => simpa [writeAt] using ih
  | case4 b buf off data ih =>
    rw [Nat.succ_add]
    simpa [writeAt] using ih

/-- Two stores that touch make one. -/
theorem writeAt_append {buf x y : List α} {off next : Nat} (touch : next = off + x.length) :
    writeAt (writeAt buf off x) next y = writeAt buf off (x ++ y) := by
  rw [touch, writeAt_end]

theorem slice_slice {buf : List α} {off n k m : Nat} (inside : k + m ≤ n) :
    slice (slice buf off n) k m = slice buf (off + k) m := by
  apply List.ext_getElem?
  intro i
  rw [getElem?_slice, getElem?_slice, getElem?_slice]
  split
  · rw [if_pos (by omega), Nat.add_assoc]
  · rfl

/-- Buffers that agree on a window agree on each part of it. -/
theorem slice_congr {x y : List α} {off n a k : Nat} (same : slice x off n = slice y off n) (lo : off ≤ a)
    (hi : a + k ≤ off + n) : slice x a k = slice y a k := by
  obtain ⟨j, rfl⟩ := Nat.exists_eq_add_of_le lo
  have inside : j + k ≤ n := by omega
  rw [← slice_slice inside, ← slice_slice inside, same]

/-- Buffers that agree on a window agree on it after the same store. -/
theorem slice_writeAt_congr {x y : List α} {off at' n : Nat} (same : slice x at' n = slice y at' n)
    (lo : at' ≤ off) (data : List α) : slice (writeAt x off data) at' n = slice (writeAt y off data) at' n := by
  rw [slice_writeAt_inside lo, slice_writeAt_inside lo, same]

/-- Adjacent slices join. -/
theorem slice_append (buf : List α) (off n m : Nat) :
    slice buf off n ++ slice buf (off + n) m = slice buf off (n + m) := by
  simp only [slice, ← List.drop_drop, ← List.take_add]

theorem slice_all (buf : List α) : slice buf 0 buf.length = buf := by
  simp [slice]

/-- A store that fits replaces what was there and nothing else. -/
theorem writeAt_split {buf data : List α} {off : Nat} (fits : off + data.length ≤ buf.length) :
    writeAt buf off data = buf.take off ++ (data ++ buf.drop (off + data.length)) := by
  fun_induction writeAt buf off data with
  | case1 off data => simp_all
  | case2 b buf => simp
  | case3 d buf b data ih => simpa using ih (by simpa using fits)
  | case4 b buf off data ih =>
    rw [ih (by simp only [List.length_cons] at fits; omega), Nat.succ_add]
    rfl

end Tunosocks.Foundation.Buffer
