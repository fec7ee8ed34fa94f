import Mathlib.Data.Int.ConditionallyCompleteOrder
import Mathlib.Data.Int.Interval
import Mathlib.Data.Set.Function
import Mathlib.Order.ConditionallyCompleteLattice.Basic
import Tunosocks.Foundation.Buffer

/-! Programs that access a memory cell by cell, the cells a run touches, and the frame rule: a run inside a region
depends on nothing outside it. -/
namespace Tunosocks.Foundation
open Buffer

/-- A program as the tree of its accesses. -/
inductive Access (A V α : Type) where
  | done (a : α)
  | load (addr : A) (next : V → Access A V α)
  | store (addr : A) (v : V) (next : Access A V α)

namespace Access
variable {A V α β : Type}

def bind : Access A V α → (α → Access A V β) → Access A V β
  | .done a, f => f a
  | .load addr next, f => .load addr fun v => (next v).bind f
  | .store addr v next, f => .store addr v (next.bind f)

instance : Monad (Access A V) where
  pure := .done
  bind := bind

theorem bind_bind {γ : Type} (p : Access A V α) (f : α → Access A V β) (g : β → Access A V γ) :
    (p >>= f) >>= g = p >>= fun a => f a >>= g := by
  change (p.bind f).bind g = p.bind fun a => (f a).bind g
  induction p with
  | done a => rfl
  | load addr next ih => exact congrArg (load addr) (funext ih)
  | store addr v next ih => exact congrArg (store addr v) ih

theorem pure_then (a : α) (f : α → Access A V β) : (pure a : Access A V α) >>= f = f a := rfl

def read (addr : A) : Access A V V := .load addr .done

def write (addr : A) (v : V) : Access A V Unit := .store addr v (.done ())

variable [DecidableEq A]

/-- The result of a run and the memory it leaves. -/
def exec : Access A V α → (A → V) → α × (A → V)
  | .done a, m => (a, m)
  | .load addr next, m => (next (m addr)).exec m
  | .store addr v next, m => next.exec (Function.update m addr v)

/-- The addresses a run reads or writes, in order. -/
def touches : Access A V α → (A → V) → List A
  | .done _, _ => []
  | .load addr next, m => addr :: (next (m addr)).touches m
  | .store addr v next, m => addr :: next.touches (Function.update m addr v)

/-- A run touches a region only. -/
def Stays (R : Set A) (p : Access A V α) (m : A → V) : Prop := ∀ a ∈ p.touches m, a ∈ R

@[simp] theorem exec_pure (a : α) (m : A → V) : (pure a : Access A V α).exec m = (a, m) := rfl

@[simp] theorem exec_read (addr : A) (m : A → V) : (read addr : Access A V V).exec m = (m addr, m) := rfl

@[simp] theorem exec_bind (p : Access A V α) (f : α → Access A V β) (m : A → V) :
    (p >>= f).exec m = (f (p.exec m).1).exec (p.exec m).2 := by
  change (p.bind f).exec m = _
  induction p generalizing m with
  | done a => rfl
  | load addr next ih => exact ih (m addr) m
  | store addr v next ih => exact ih (Function.update m addr v)

theorem touches_bind (p : Access A V α) (f : α → Access A V β) (m : A → V) :
    (p >>= f).touches m = p.touches m ++ (f (p.exec m).1).touches (p.exec m).2 := by
  change (p.bind f).touches m = _
  induction p generalizing m with
  | done a => rfl
  | load addr next ih => exact congrArg (addr :: ·) (ih (m addr) m)
  | store addr v next ih => exact congrArg (addr :: ·) (ih (Function.update m addr v))

section Region
variable {R : Set A} {p : Access A V α} {m n : A → V}

@[simp] theorem stays_pure (a : α) : (pure a : Access A V α).Stays R m := by
  intro _ touched
  cases touched

@[simp] theorem stays_read (addr : A) : (read addr : Access A V V).Stays R m ↔ addr ∈ R :=
  List.forall_mem_singleton

@[simp] theorem stays_write (addr : A) (v : V) : (write addr v).Stays R m ↔ addr ∈ R :=
  List.forall_mem_singleton

@[simp] theorem stays_bind (f : α → Access A V β) :
    (p >>= f).Stays R m ↔ p.Stays R m ∧ (f (p.exec m).1).Stays R (p.exec m).2 := by
  rw [Stays, touches_bind]
  exact List.forall_mem_append

/-- What a run returns and where it goes depends on the region it stays in. -/
theorem Stays.frame (stays : p.Stays R m) (same : Set.EqOn m n R) :
    (p.exec n).1 = (p.exec m).1 ∧ p.touches n = p.touches m ∧ Set.EqOn (p.exec m).2 (p.exec n).2 R := by
  induction p generalizing m n with
  | done a => exact ⟨rfl, rfl, same⟩
  | load addr next ih =>
    obtain ⟨inside, stays⟩ := List.forall_mem_cons.mp stays
    obtain ⟨result, touched, memory⟩ := ih (m addr) stays same
    simp only [exec, touches, ← same inside]
    exact ⟨result, congrArg (addr :: ·) touched, memory⟩
  | store addr v next ih =>
    obtain ⟨_, stays⟩ := List.forall_mem_cons.mp stays
    have updated : Set.EqOn (Function.update m addr v) (Function.update n addr v) R := by
      intro a ha
      by_cases hit : a = addr
      · rw [hit, Function.update_self, Function.update_self]
      · rw [Function.update_of_ne hit, Function.update_of_ne hit, same ha]
    obtain ⟨result, touched, memory⟩ := ih stays updated
    exact ⟨result, congrArg (addr :: ·) touched, memory⟩

end Region

/-! ### Ranges -/

def readRange (addr : Int) : Nat → Access Int V (List V)
  | 0 => pure []
  | n + 1 => do
    let v ← read addr
    let rest ← readRange (addr + 1) n
    return v :: rest

def writeRange (addr : Int) : List V → Access Int V Unit
  | [] => pure ()
  | v :: rest => do
    write addr v
    writeRange (addr + 1) rest

end Access

/-- The cells of a memory that start at an address. -/
def window {V : Type} (m : Int → V) (addr : Int) : Nat → List V
  | 0 => []
  | n + 1 => m addr :: window m (addr + 1) n

/-- A list laid into a memory from address 0 on. -/
def overlay {V : Type} (data : List V) (rest : Int → V) (a : Int) : V :=
  if 0 ≤ a then data[a.toNat]?.getD (rest a) else rest a

section Ranges
variable {V : Type} {data : List V} {rest : Int → V} {m : Int → V}
open Access

@[simp] theorem exec_readRange (addr : Int) (n : Nat) : (readRange addr n).exec m = (window m addr n, m) := by
  induction n generalizing addr with
  | zero => rfl
  | succ n ih => simp [readRange, window, ih]

@[simp] theorem length_window (addr : Int) (n : Nat) : (window m addr n).length = n := by
  induction n generalizing addr with
  | zero => rfl
  | succ n ih => rw [window, List.length_cons, ih]

/-- A range is read inside a buffer when it is empty or lies between its ends. -/
theorem stays_readRange {size : Nat} (addr : Int) (n : Nat) :
    (readRange addr n).Stays (Set.Ico 0 (size : Int)) m ↔ n = 0 ∨ 0 ≤ addr ∧ addr + n ≤ size := by
  induction n generalizing addr with
  | zero => simp [readRange]
  | succ n ih =>
    simp only [readRange, stays_bind, exec_read, stays_read, exec_readRange, stays_pure, ih, Set.mem_Ico, and_true]
    omega

theorem stays_writeRange {size : Nat} (addr : Int) (data : List V) :
    (writeRange addr data).Stays (Set.Ico 0 (size : Int)) m ↔
      data = [] ∨ 0 ≤ addr ∧ addr + data.length ≤ size := by
  induction data generalizing addr m with
  | nil => simp [writeRange]
  | cons v data ih =>
    cases data with
    | nil =>
      simp only [writeRange, stays_bind, stays_write, stays_pure, and_true, Set.mem_Ico, List.length_singleton,
        reduceCtorEq, false_or]
      omega
    | cons w data =>
      rw [writeRange, stays_bind, stays_write, ih]
      simp only [Set.mem_Ico, List.length_cons, reduceCtorEq, false_or]
      omega

/-- A range written in two parts. -/
theorem writeRange_append (addr : Int) (x y : List V) :
    writeRange addr (x ++ y) = (do writeRange addr x; writeRange (addr + x.length) y) := by
  induction x generalizing addr with
  | nil => simp only [List.nil_append, List.length_nil, Nat.cast_zero, add_zero]; rfl
  | cons v x ih =>
    rw [List.cons_append, writeRange, ih, List.length_cons, Nat.cast_succ, add_comm (x.length : Int), ← add_assoc]
    rfl

theorem touches_writeRange (addr : Int) (data : List V) :
    (writeRange addr data).touches m = (List.range data.length).map fun i : Nat => addr + i := by
  induction data generalizing addr m with
  | nil => rfl
  | cons v data ih =>
    rw [List.length_cons, List.range_succ_eq_map, List.map_cons, List.map_map, writeRange, touches_bind, ih]
    refine congrArg₂ List.cons (by simp) (List.map_congr_left fun i _ => ?_)
    simp only [Function.comp_apply]
    omega

/-- A memory is what lies in a part of it, laid back into it. -/
theorem overlay_window (m : Int → V) (n : Nat) : overlay (window m 0 n) m = m := by
  have cell (addr : Int) (n i : Nat) (h : i < n) : (window m addr n)[i]? = some (m (addr + i)) := by
    induction n generalizing addr i with
    | zero => omega
    | succ n ih =>
      cases i with
      | zero => simp [window]
      | succ i =>
        rw [window, List.getElem?_cons_succ, ih _ _ (by omega)]
        congr 2
        omega
  funext a
  unfold overlay
  split
  · by_cases inside : a.toNat < n
    · rw [cell 0 n _ inside, Option.getD_some]
      congr 1
      omega
    · rw [List.getElem?_eq_none (by rw [length_window]; omega), Option.getD_none]
  · rfl

/-- Two memories that hold the same list agree where it lies. -/
theorem eqOn_overlay (data : List V) (rest rest' : Int → V) :
    Set.EqOn (overlay data rest) (overlay data rest') (Set.Ico 0 (data.length : Int)) := by
  intro a ha
  obtain ⟨lo, hi⟩ := Set.mem_Ico.mp ha
  have bound : a.toNat < data.length := by omega
  simp only [overlay, if_pos lo, List.getElem?_eq_getElem bound, Option.getD_some]

theorem overlay_inside {k : Nat} (h : k < data.length) (e : V) : overlay data rest k = data.getD k e := by
  simp [overlay, List.getElem?_eq_getElem h]

/-- What is read inside the list is a slice of it. -/
theorem window_overlay {off n : Nat} (inside : off + n ≤ data.length) :
    window (overlay data rest) off n = slice data off n := by
  induction n generalizing off with
  | zero => simp [window, slice]
  | succ n ih =>
    have bound : off < data.length := by omega
    have next : window (overlay data rest) ↑(off + 1) n = slice data (off + 1) n := ih (by omega)
    rw [Nat.cast_succ] at next
    rw [window, next, slice, slice, List.drop_eq_getElem_cons bound, List.take_succ_cons]
    simp [overlay, List.getElem?_eq_getElem bound]

theorem window_overlay_all (data : List V) (rest : Int → V) : window (overlay data rest) 0 data.length = data := by
  have read : window (overlay data rest) ((0 : Nat) : Int) data.length = slice data 0 data.length :=
    window_overlay (by omega)
  rwa [Nat.cast_zero, slice_all] at read

/-- A part of a window is a window. -/
theorem slice_window {n a k : Nat} (addr : Int) (inside : a + k ≤ n) :
    slice (window m addr n) a k = window m (addr + a) k := by
  induction a generalizing addr n with
  | zero =>
    induction k generalizing addr n with
    | zero => simp [slice, window]
    | succ k ih =>
      obtain ⟨n, rfl⟩ : ∃ l, n = l + 1 := ⟨n - 1, by omega⟩
      have next := ih (n := n) (addr + 1) (by omega)
      rw [Nat.cast_zero, add_zero] at next ⊢
      rw [window, window, ← next]
      rfl
  | succ a ih =>
    obtain ⟨n, rfl⟩ : ∃ l, n = l + 1 := ⟨n - 1, by omega⟩
    have next := ih (n := n) (addr + 1) (by omega)
    rw [Nat.cast_succ, show addr + ((a : Int) + 1) = addr + 1 + a by omega, ← next]
    rfl

/-- What is written inside the list is a store into it. -/
theorem exec_writeRange_overlay {off : Nat} {bytes : List V} (inside : off + bytes.length ≤ data.length) :
    ((writeRange off bytes).exec (overlay data rest)).2 = overlay (writeAt data off bytes) rest := by
  induction bytes generalizing off data with
  | nil => simp [writeRange]
  | cons b bytes ih =>
    rw [List.length_cons] at inside
    have stored : Function.update (overlay data rest) off b = overlay (writeAt data off [b]) rest := by
      funext a
      by_cases hit : a = off
      · rw [hit, Function.update_self, overlay_inside (by rw [length_writeAt]; omega) b, List.getD_eq_getElem?_getD,
          getElem?_writeAt_inside (Nat.le_refl _) (by simp) (by omega), Nat.sub_self]
        rfl
      · rw [Function.update_of_ne hit, overlay, overlay]
        split
        · rw [getElem?_writeAt_outside (by simp only [List.length_singleton]; omega)]
        · rfl
    have next : ((writeRange ↑(off + 1) bytes).exec (overlay (writeAt data off [b]) rest)).2 =
        overlay (writeAt (writeAt data off [b]) (off + 1) bytes) rest := ih (by rw [length_writeAt]; omega)
    rw [writeAt_append (by rfl), Nat.cast_succ, ← stored] at next
    exact next

end Ranges

end Tunosocks.Foundation
