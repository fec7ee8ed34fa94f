import Mathlib.Algebra.BigOperators.Group.List.Basic
import Mathlib.Algebra.GroupWithZero.Nat

/-! Coroutines that wait for one asynchronous operation at a time, and lists of
them of which at most one is alive. -/
namespace Tunosocks.Foundation

/-- How an asynchronous operation ended. -/
inductive Completion where
  | ok (bytes : Nat)
  | error
  deriving DecidableEq, Repr

/-- A coroutine waits at a point of its body, or its operation has completed and
the handler is queued, or the body has returned. -/
inductive Coroutine (α : Type) where
  | suspended (point : α)
  | completed (point : α) (result : Completion)
  | finished
  deriving DecidableEq, Repr

namespace Coroutine
variable {α : Type}

/-- Cancelling fails what is pending and cannot change a result already queued. -/
def cancel : Coroutine α → Coroutine α
  | suspended point => completed point .error
  | t => t

/-- The point of the body at which a coroutine stands. -/
def point? : Coroutine α → Option α
  | suspended point => some point
  | completed point _ => some point
  | finished => none

/-- The bytes an operation has transferred that its coroutine has not been told of yet. -/
def transferred : Coroutine α → Nat
  | completed _ (.ok n) => n
  | _ => 0

def isFinished : Coroutine α → Bool
  | finished => true
  | _ => false

@[simp] theorem isFinished_iff {t : Coroutine α} : t.isFinished = true ↔ t = finished := by
  cases t <;> simp [isFinished]

@[simp] theorem point?_cancel (t : Coroutine α) : t.cancel.point? = t.point? := by
  cases t <;> rfl

@[simp] theorem transferred_cancel (t : Coroutine α) : t.cancel.transferred = t.transferred := by
  cases t <;> rfl

@[simp] theorem point?_eq_none {t : Coroutine α} : t.point? = none ↔ t = finished := by
  cases t <;> simp [point?]

theorem point?_of_completed {t : Coroutine α} {point : α} {r : Completion} (h : t = completed point r) :
    t.point? = some point := by
  rw [h]
  rfl

theorem points_of_completed {l : List (Coroutine α)} {j : Nat} {point : α} {r : Completion}
    (h : l[j]? = some (completed point r)) : (l.map point?)[j]? = some (some point) := by
  rw [List.getElem?_map, h]
  rfl

@[simp] theorem cancel_cancel (t : Coroutine α) : t.cancel.cancel = t.cancel := by
  cases t <;> rfl

@[simp] theorem cancel_ne_suspended (t : Coroutine α) (point : α) : t.cancel ≠ suspended point := by
  cases t <;> simp [cancel]

@[simp] theorem cancel_eq_completed_ok {t : Coroutine α} {point : α} {n : Nat} :
    t.cancel = completed point (.ok n) ↔ t = completed point (.ok n) := by
  cases t <;> simp [cancel]

/-- At most one entry is there: of coroutines, by their points, at most one has not returned. -/
def Solo (l : List (Option α)) : Prop :=
  ∀ (i j : Nat) (a b : α), l[i]? = some (some a) → l[j]? = some (some b) → i = j

/-- No entry is there: every coroutine has returned. -/
def AllGone (l : List (Option α)) : Prop := ∀ (i : Nat) (a : α), l[i]? ≠ some (some a)

theorem allGone_iff {l : List (Option α)} : AllGone l ↔ ∀ o ∈ l, o.isNone = true := by
  constructor
  · intro gone o ho
    obtain ⟨i, hi⟩ := List.mem_iff_getElem?.mp ho
    cases o with
    | none => rfl
    | some a => exact absurd hi (gone i a)
  · intro h i a hi
    cases h _ (List.mem_of_getElem? hi)

instance (l : List (Option α)) : Decidable (AllGone l) := decidable_of_iff _ allGone_iff.symm

theorem AllGone.solo {l : List (Option α)} (h : AllGone l) : Solo l :=
  fun i _ a _ hi _ => absurd hi (h i a)

theorem AllGone.nil : AllGone ([] : List (Option α)) := by
  intro i a hi
  cases hi

/-- Changing the one that is there keeps it the only one. -/
theorem Solo.set {l : List (Option α)} (h : Solo l) {i : Nat} {a : α} (hi : l[i]? = some (some a))
    (o : Option α) : Solo (l.set i o) := by
  have only : ∀ (j : Nat) (b : α), (l.set i o)[j]? = some (some b) → i = j := by
    intro j b hj
    by_cases same : i = j
    · exact same
    · rw [List.getElem?_set_ne same] at hj
      exact h i j a b hi hj
  intro j k b c hj hk
  rw [← only j b hj, ← only k c hk]

/-- When the one that is there goes, all are gone. -/
theorem Solo.finish {l : List (Option α)} (h : Solo l) {i : Nat} {a : α} (hi : l[i]? = some (some a)) :
    AllGone (l.set i none) := by
  intro j b hj
  by_cases same : i = j
  · subst same
    rw [List.getElem?_set_self', hi] at hj
    cases hj
  · rw [List.getElem?_set_ne same] at hj
    exact same (h i j a b hi hj)

theorem AllGone.concat {l : List (Option α)} (h : AllGone l) (o : Option α) : Solo (l ++ [o]) := by
  have only : ∀ (j : Nat) (b : α), (l ++ [o])[j]? = some (some b) → j = l.length := by
    intro j b hj
    rcases Nat.lt_or_ge j l.length with lt | ge
    · rw [List.getElem?_append_left lt] at hj
      exact absurd hj (h j b)
    · have bound := (List.getElem?_eq_some_iff.mp hj).1
      simp only [List.length_append, List.length_singleton] at bound
      omega
  intro j k b c hj hk
  rw [only j b hj, only k c hk]

/-- A list of coroutines changed at one place where the point stays the same. -/
theorem map_point?_set {l : List (Coroutine α)} {i : Nat} {t : Coroutine α} (hi : l[i]? = some t)
    (u : Coroutine α) (same : u.point? = t.point?) : (l.set i u).map point? = l.map point? := by
  apply List.ext_getElem?
  intro j
  simp only [List.getElem?_map, List.getElem?_set]
  split
  · next eq =>
    subst eq
    split
    · simp [hi, same]
    · next out => exact absurd (List.getElem?_eq_some_iff.mp hi).1 out
  · rfl

theorem map_point?_cancel (l : List (Coroutine α)) : (l.map cancel).map point? = l.map point? := by
  simp

/-- Nothing is collected from coroutines that have returned. -/
theorem AllGone.flatMap {β : Type} {l : List (Coroutine α)} (gone : AllGone (l.map point?))
    {f : Coroutine α → List β} (hf : f finished = []) : l.flatMap f = [] := by
  refine List.flatMap_eq_nil_iff.mpr fun t ht => ?_
  obtain ⟨i, hi⟩ := List.mem_iff_getElem?.mp ht
  cases t with
  | finished => exact hf
  | suspended point => exact absurd (by rw [List.getElem?_map, hi]; rfl) (gone i point)
  | completed point r => exact absurd (by rw [List.getElem?_map, hi]; rfl) (gone i point)

/-- What is collected comes from the one that has not returned. -/
theorem Solo.flatMap {β : Type} {l : List (Coroutine α)} (solo : Solo (l.map point?)) {j : Nat} {t : Coroutine α}
    {a : α} (hj : l[j]? = some t) (live : t.point? = some a) {f : Coroutine α → List β} (hf : f finished = []) :
    l.flatMap f = f t := by
  have at_ : (l.map point?)[j]? = some (some a) := by rw [List.getElem?_map, hj, Option.map_some, live]
  have others : AllGone ((l.set j finished).map point?) := by
    rw [List.map_set]
    exact solo.finish at_
  have bound := (List.getElem?_eq_some_iff.mp hj).1
  have parts : l = l.take j ++ t :: l.drop (j + 1) := by
    rw [← (List.getElem?_eq_some_iff.mp hj).2, List.getElem_cons_drop, List.take_append_drop]
  have rest : (l.set j finished).flatMap f = [] := others.flatMap hf
  rw [List.set_eq_take_append_cons_drop, if_pos bound, List.flatMap_append, List.flatMap_cons, hf, List.nil_append]
    at rest
  obtain ⟨before, after⟩ := List.append_eq_nil_iff.mp rest
  calc l.flatMap f = (l.take j ++ t :: l.drop (j + 1)).flatMap f := congrArg (List.flatMap f) parts
    _ = f t := by rw [List.flatMap_append, List.flatMap_cons, before, after, List.nil_append, List.append_nil]

/-- What is collected after the one that has not returned moved on. -/
theorem Solo.flatMap_set {β : Type} {l : List (Coroutine α)} (solo : Solo (l.map point?)) {j : Nat} {t : Coroutine α}
    {a : α} (hj : l[j]? = some t) (live : t.point? = some a) (u : Coroutine α) {f : Coroutine α → List β}
    (hf : f finished = []) : (l.set j u).flatMap f = f u := by
  have at_ : (l.map point?)[j]? = some (some a) := by rw [List.getElem?_map, hj, Option.map_some, live]
  have placed : (l.set j u)[j]? = some u := List.getElem?_set_self (List.getElem?_eq_some_iff.mp hj).1
  cases h : u.point? with
  | some b =>
    refine Solo.flatMap ?_ placed h hf
    rw [List.map_set]
    exact solo.set at_ _
  | none =>
    rw [point?_eq_none.mp h, hf]
    refine AllGone.flatMap ?_ hf
    rw [List.map_set]
    exact solo.finish at_

private theorem sum_eq_length (l : List (Coroutine α)) (f : Coroutine α → Nat) :
    (l.map f).sum = (l.flatMap fun t => List.replicate (f t) ()).length := by
  simp [List.length_flatMap]

/-- The same for quantities. -/
theorem AllGone.sum {l : List (Coroutine α)} (gone : AllGone (l.map point?)) {f : Coroutine α → Nat}
    (hf : f finished = 0) : (l.map f).sum = 0 := by
  rw [sum_eq_length, gone.flatMap (by rw [hf]; rfl)]
  rfl

theorem Solo.sum {l : List (Coroutine α)} (solo : Solo (l.map point?)) {j : Nat} {t : Coroutine α} {a : α}
    (hj : l[j]? = some t) (live : t.point? = some a) {f : Coroutine α → Nat} (hf : f finished = 0) :
    (l.map f).sum = f t := by
  rw [sum_eq_length, solo.flatMap hj live (by rw [hf]; rfl), List.length_replicate]

theorem Solo.sum_set {l : List (Coroutine α)} (solo : Solo (l.map point?)) {j : Nat} {t : Coroutine α} {a : α}
    (hj : l[j]? = some t) (live : t.point? = some a) (u : Coroutine α) {f : Coroutine α → Nat} (hf : f finished = 0) :
    ((l.set j u).map f).sum = f u := by
  rw [sum_eq_length, solo.flatMap_set hj live u (by rw [hf]; rfl), List.length_replicate]

/-- One coroutine moved on: what it gives up and what it takes. -/
theorem sum_set_add {M : Type} [AddCommMonoid M] {l : List (Coroutine α)} {j : Nat} {t : Coroutine α}
    (hj : l[j]? = some t) (u : Coroutine α) (f : Coroutine α → M) :
    ((l.set j u).map f).sum + f t = (l.map f).sum + f u := by
  induction l generalizing j with
  | nil => cases hj
  | cons v l ih =>
    cases j with
    | zero =>
      obtain rfl : v = t := by simpa using hj
      simp only [List.set_cons_zero, List.map_cons, List.sum_cons]
      rw [add_right_comm, add_comm (f u), add_right_comm, add_right_comm]
    | succ j =>
      simp only [List.set_cons_succ, List.map_cons, List.sum_cons]
      rw [add_assoc, ih (by simpa using hj), add_assoc]

end Coroutine
end Tunosocks.Foundation
