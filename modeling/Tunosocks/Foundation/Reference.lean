import Tunosocks.Foundation.Buffer

/-! References into a buffer that is stored over. A stream is lent out in pieces that all
lie at the start of one buffer; a reference stands for its byte until that cell is stored over. -/
namespace Tunosocks.Foundation.Reference
open Buffer
variable {β : Type}

/-- Lend the first `n` cells. -/
def lend (refs : List (Option Nat)) (n : Nat) : List (Option Nat) := refs ++ (List.range n).map some

/-- The first `n` cells are stored over. -/
def spoil (refs : List (Option Nat)) (n : Nat) : List (Option Nat) := refs.map fun r => r.filter (n ≤ ·)

/-- The buffer goes away. -/
def revoke (refs : List (Option Nat)) : List (Option Nat) := refs.map fun _ => none

/-- Every reference that stands lies at its cell, which holds its byte of the stream. -/
structure Refers (refs : List (Option Nat)) (cells : List Nat) (buf stream : List β) : Prop where
  length : refs.length = cells.length
  sound : ∀ k i : Nat, refs[k]? = some (some i) → cells[k]? = some i ∧ ∃ b, buf[i]? = some b ∧ stream[k]? = some b

namespace Refers
variable {refs : List (Option Nat)} {cells : List Nat} {buf stream : List β}

theorem nil (buf stream : List β) : Refers [] [] buf stream := ⟨rfl, fun _ _ h => nomatch h⟩

/-- Lending the part of the buffer that is the next part of the stream. -/
theorem lend (refers : Refers refs cells buf stream) {before : List β} {n : Nat} (held : stream = before ++ buf.take n)
    (length : before.length = cells.length) (fits : n ≤ buf.length) :
    Refers (lend refs n) (cells ++ List.range n) buf stream := by
  have same := refers.length
  refine ⟨by simp [Reference.lend, refers.length], fun k i h => ?_⟩
  rcases Nat.lt_or_ge k refs.length with old | new
  · rw [Reference.lend, List.getElem?_append_left old] at h
    obtain ⟨place, b, cell, byte⟩ := refers.sound k i h
    exact ⟨by rw [List.getElem?_append_left (refers.length ▸ old), place], b, cell, byte⟩
  · rw [Reference.lend, List.getElem?_append_right new, List.getElem?_map, Option.map_eq_some_iff] at h
    obtain ⟨j, hj, eq⟩ := h
    obtain ⟨lt, at_⟩ := List.getElem?_eq_some_iff.mp hj
    rw [List.getElem_range] at at_
    rw [List.length_range] at lt
    obtain rfl := Option.some.inj eq
    subst at_
    refine ⟨?_, buf[k - refs.length], List.getElem?_eq_getElem _, ?_⟩
    · rw [List.getElem?_append_right (refers.length ▸ new), ← refers.length, List.getElem?_range lt]
    · rw [held, List.getElem?_append_right (by omega), length, ← refers.length, List.getElem?_take_of_lt lt,
        List.getElem?_eq_getElem (by omega)]

theorem mono (refers : Refers refs cells buf stream) (more : List β) : Refers refs cells buf (stream ++ more) := by
  refine ⟨refers.length, fun k i h => ?_⟩
  obtain ⟨place, b, cell, byte⟩ := refers.sound k i h
  exact ⟨place, b, cell, by rw [List.getElem?_append_left (List.getElem?_eq_some_iff.mp byte).1, byte]⟩

/-- Data stored at the start of the buffer spoils what it covers and nothing else. -/
theorem store (refers : Refers refs cells buf stream) (data : List β) :
    Refers (spoil refs data.length) cells (writeAt buf 0 data) stream := by
  refine ⟨by rw [spoil, List.length_map, refers.length], fun k i h => ?_⟩
  rw [spoil, List.getElem?_map, Option.map_eq_some_iff] at h
  obtain ⟨r, hr, kept⟩ := h
  obtain ⟨rfl, beyond⟩ := Option.filter_eq_some_iff.mp kept
  obtain ⟨place, b, cell, byte⟩ := refers.sound k i hr
  refine ⟨place, b, ?_, byte⟩
  rw [getElem?_writeAt_outside (Or.inr (by simpa using beyond)), cell]

theorem revoke (refers : Refers refs cells buf stream) : Refers (revoke refs) cells buf stream := by
  refine ⟨by rw [Reference.revoke, List.length_map, refers.length], fun k i h => ?_⟩
  rw [Reference.revoke, List.getElem?_map, Option.map_eq_some_iff] at h
  obtain ⟨_, _, eq⟩ := h
  cases eq

/-- Reading through references that all stand gives the bytes of the stream. -/
theorem read (refers : Refers refs cells buf stream) {off n : Nat} (standing : ∀ r ∈ slice refs off n, r.isSome = true)
    (d : β) {j : Nat} {b : β} (h : ((slice cells off n).map fun i => buf.getD i d)[j]? = some b) :
    stream[off + j]? = some b := by
  rw [List.getElem?_map, Option.map_eq_some_iff] at h
  obtain ⟨i, at_, rfl⟩ := h
  have inside := at_
  rw [getElem?_slice] at inside
  split at inside
  · next lt =>
    have bound : off + j < refs.length := refers.length ▸ (List.getElem?_eq_some_iff.mp inside).1
    have stands := standing refs[off + j] (List.mem_of_getElem? (i := j) (by
      rw [getElem?_slice, if_pos lt, List.getElem?_eq_getElem bound]))
    obtain ⟨i', hi'⟩ := Option.isSome_iff_exists.mp stands
    obtain ⟨place, b, cell, byte⟩ := refers.sound (off + j) i' (by rw [List.getElem?_eq_getElem bound, hi'])
    cases inside.symm.trans place
    rw [byte, List.getD_eq_getElem?_getD, cell]
    rfl
  · cases inside

end Refers
end Tunosocks.Foundation.Reference
