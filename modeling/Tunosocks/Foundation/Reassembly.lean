import Mathlib.Data.List.Basic
import Mathlib.Data.Nat.Basic
import Mathlib.Order.Basic

/-! Pieces of a stream put in order again. A receiver keeps pieces that came early in a
queue ordered by their place, and hands on what continues the part it already has. -/
namespace Tunosocks.Foundation

/-- Data from place `off` of a stream on, with the end of the stream behind it when `fin`. -/
structure Piece (α : Type) where
  off : Nat
  data : List α
  fin : Bool
  deriving DecidableEq, Repr

namespace Piece
variable {α : Type} {S : List α} {x y : Piece α} {n : Nat}

def stop (x : Piece α) : Nat := x.off + x.data.length

/-- The places a piece takes up, the end of the stream counting as one. -/
def span (x : Piece α) : Nat := x.data.length + x.fin.toNat

def Covers (x : Piece α) (n : Nat) : Prop := x.off ≤ n ∧ n < x.stop

/-- What lies before `n`. -/
def before (x : Piece α) (n : Nat) : Piece α := { x with data := x.data.take (n - x.off) }

/-- What lies from `n` on. -/
def after (x : Piece α) (n : Nat) : Piece α := { x with off := n, data := x.data.drop (n - x.off) }

/-- Cut off at `limit`, together with the end of the stream if that does not fit. -/
def clip (x : Piece α) (limit : Nat) : Piece α :=
  if limit < x.off + x.span then { x.before limit with fin := false } else x

/-- The piece is cut from the stream `S`. -/
structure From (S : List α) (x : Piece α) : Prop where
  off_le : x.off ≤ S.length
  data : x.data <+: S.drop x.off
  fin : x.fin = true → x.stop = S.length

instance (S : List α) (x : Piece α) [DecidableEq α] : Decidable (x.From S) :=
  decidable_of_iff (x.off ≤ S.length ∧ x.data <+: S.drop x.off ∧ (x.fin = true → x.stop = S.length))
    ⟨fun h => ⟨h.1, h.2.1, h.2.2⟩, fun h => ⟨h.1, h.2, h.3⟩⟩

/-- Same start, and no further. -/
def Within (x y : Piece α) : Prop := x.off = y.off ∧ x.stop ≤ y.stop

theorem Within.refl (x : Piece α) : x.Within x := ⟨rfl, le_rfl⟩

theorem Within.trans {z : Piece α} (h : x.Within y) (h' : y.Within z) : x.Within z :=
  ⟨h.1.trans h'.1, h.2.trans h'.2⟩

@[simp] theorem before_off : (x.before n).off = x.off := rfl
@[simp] theorem before_fin : (x.before n).fin = x.fin := rfl
@[simp] theorem after_off : (x.after n).off = n := rfl
@[simp] theorem after_fin : (x.after n).fin = x.fin := rfl

theorem le_stop_of_lt_span (h : n < x.off + x.span) : n ≤ x.stop := by
  have := x.fin.toNat_le
  simp only [span, stop] at *
  omega

@[simp] theorem after_self : x.after x.off = x := by simp [after]

theorem before_stop (h : x.off ≤ n) : (x.before n).stop = min n x.stop := by
  simp only [stop, before, List.length_take]
  omega

theorem before_of_stop_le (h : x.stop ≤ n) : x.before n = x := by
  rw [before, List.take_of_length_le (by simp only [stop] at h; omega)]

theorem after_stop (h : x.off ≤ n) (h' : n ≤ x.stop) : (x.after n).stop = x.stop := by
  simp only [stop, after, List.length_drop] at *
  omega

theorem before_within : (x.before n).Within x := by
  refine ⟨rfl, ?_⟩
  simp only [stop, before, List.length_take]
  omega

theorem clip_within : (x.clip n).Within x := by
  unfold clip
  split
  · exact (before_within : (x.before n).Within x)
  · exact Within.refl x

theorem clip_of_le (h : x.off + x.span ≤ n) : x.clip n = x := if_neg (Nat.not_lt.mpr h)

theorem clip_stop (h : x.off ≤ n) : (x.clip n).stop = min n x.stop := by
  unfold clip
  split
  case isTrue => exact before_stop h
  case isFalse hfit => simp only [stop, span] at *; omega

theorem From.stop_le (h : x.From S) : x.stop ≤ S.length := by
  have := h.data.length_le
  have := h.off_le
  simp only [List.length_drop, stop] at *
  omega

theorem From.before (h : x.From S) (hf : x.fin = false) (n : Nat) : (x.before n).From S where
  off_le := h.off_le
  data := (List.take_prefix _ _).trans h.data
  fin hfin := by simp [hf] at hfin

theorem From.clip (h : x.From S) (n : Nat) : (x.clip n).From S := by
  unfold Piece.clip
  split
  · exact ⟨h.off_le, (List.take_prefix _ _).trans h.data, nofun⟩
  · exact h

theorem From.after (h : x.From S) (hn : x.off ≤ n) (hn' : n ≤ x.stop) : (x.after n).From S where
  off_le := hn'.trans h.stop_le
  data := by
    obtain ⟨t, ht⟩ := h.data
    refine ⟨t, ?_⟩
    have hdrop := congrArg (List.drop (n - x.off)) ht
    rw [List.drop_drop, List.drop_append_of_le_length (by simp only [stop] at hn'; omega)] at hdrop
    simpa [Piece.after, show x.off + (n - x.off) = n by omega] using hdrop
  fin hfin := by rw [after_stop hn hn']; exact h.fin hfin

/-- Whether the end of the stream was seen with another piece. -/
theorem From.withFin (h : x.From S) (hy : y.From S) (hle : y.stop ≤ x.stop) :
    ({ x with fin := x.fin || y.fin } : Piece α).From S where
  off_le := h.off_le
  data := h.data
  fin hfin := by
    rcases Bool.or_eq_true_iff.mp hfin with hx | hy'
    · exact h.fin hx
    · exact le_antisymm h.stop_le (hy.fin hy' ▸ hle)

end Piece

namespace Reassembly
variable {α : Type} {S : List α} {x y z : Piece α} {q : List (Piece α)} {n limit : Nat}
open Piece

/-- Ordered by place, without overlap, and nothing behind the end of the stream. -/
def Ordered (q : List (Piece α)) : Prop :=
  q.Pairwise fun x y => x.fin = false ∧ x.off < y.off ∧ x.stop ≤ y.off

def Covered (q : List (Piece α)) (n : Nat) : Prop := ∃ x ∈ q, x.Covers n

@[simp] theorem covered_nil : ¬ Covered ([] : List (Piece α)) n := by simp [Covered]

@[simp] theorem covered_cons : Covered (x :: q) n ↔ x.Covers n ∨ Covered q n := by simp [Covered]

/-- Put `x` in front of `q`: what it reaches over goes, and it ends where the rest begins. -/
def swallow (x : Piece α) : List (Piece α) → List (Piece α)
  | [] => [x]
  | y :: q =>
    if y.stop ≤ x.stop then swallow { x with fin := x.fin || y.fin } q
    else (if y.off < x.stop then x.before y.off else x) :: y :: q

/-- A piece that ends the stream leaves nothing behind it. -/
def overlay (x : Piece α) (q : List (Piece α)) : List (Piece α) := if x.fin then [x] else swallow x q

/-- Insertion by place. Of two pieces with the same place the longer one stays; a piece
that starts inside another cuts that one off, also where it ends first. -/
def insert (limit : Nat) (x : Piece α) : List (Piece α) → List (Piece α)
  | [] => [x]
  | [y] =>
    if x.off = y.off then if y.data.length < x.data.length then overlay x [y] else [y]
    else if x.off < y.off then overlay x [y]
    else if y.fin then [y]
    else [y.before x.off, x.clip limit]
  | y :: z :: q =>
    if x.off = y.off then if y.data.length < x.data.length then overlay x (y :: z :: q) else y :: z :: q
    else if x.off < y.off then overlay x (y :: z :: q)
    else if x.off < z.off then y.before x.off :: overlay x (z :: q)
    else y :: insert limit x (z :: q)

/-- What may be handed on from place `n`, and what stays. -/
structure Drained (α : Type) where
  data : List α
  fin : Bool
  nxt : Nat
  queue : List (Piece α)

def drain (n : Nat) : List (Piece α) → Drained α
  | [] => ⟨[], false, n, []⟩
  | y :: q =>
    if y.off = n then
      let d := drain (n + y.span) q
      ⟨y.data ++ d.data, y.fin || d.fin, d.nxt, d.queue⟩
    else ⟨[], false, n, y :: q⟩

/-- What `x` may replace at the head of a queue. -/
def Ahead (x y : Piece α) : Prop := x.off < y.off ∨ x.off = y.off ∧ y.stop ≤ x.stop

theorem Ahead.off_le (h : Ahead x y) : x.off ≤ y.off := by
  rcases h with h | h <;> omega

private theorem swallow_cons_of_le (h : y.stop ≤ x.stop) :
    swallow x (y :: q) = swallow { x with fin := x.fin || y.fin } q := if_pos h

private theorem swallow_cons_of_lt (h : x.stop < y.stop) :
    swallow x (y :: q) = (if y.off < x.stop then x.before y.off else x) :: y :: q := if_neg (Nat.not_le.mpr h)

theorem covered_swallow (hx : ∀ y ∈ q, x.off ≤ y.off) : Covered (swallow x q) n ↔ x.Covers n ∨ Covered q n := by
  induction q generalizing x with
  | nil => simp [swallow]
  | cons y q ih =>
    have hy := hx y List.mem_cons_self
    rcases Nat.lt_or_ge x.stop y.stop with hlt | hle
    · rw [swallow_cons_of_lt hlt, covered_cons, covered_cons, ← or_assoc, ← or_assoc]
      refine or_congr_left ?_
      split
      · simp only [Covers, before_off, before_stop hy]
        omega
      · rfl
    · have hrest := @ih { x with fin := x.fin || y.fin } fun z hz => hx z (List.mem_cons_of_mem y hz)
      rw [swallow_cons_of_le hle, hrest, covered_cons, ← or_assoc]
      refine or_congr_left ?_
      simp only [Covers, stop] at *
      omega

/-- What survives the cuts and joins of pieces holds of a whole queue if it held of its parts. -/
structure Closed (Q : Piece α → Prop) : Prop where
  before : ∀ x n, Q x → Q (x.before n)
  open_ : ∀ x : Piece α, Q x → Q { x with fin := false }
  join : ∀ x y : Piece α, Q x → Q y → Q { x with fin := x.fin || y.fin }

theorem Closed.clip {Q : Piece α → Prop} (hQ : Closed Q) (hx : Q x) : Q (x.clip n) := by
  unfold Piece.clip
  split
  · exact hQ.open_ _ (hQ.before x n hx)
  · exact hx

theorem Closed.swallow {Q : Piece α → Prop} (hQ : Closed Q) (hx : Q x) (hq : ∀ y ∈ q, Q y) :
    ∀ z ∈ swallow x q, Q z := by
  induction q generalizing x with
  | nil => exact List.forall_mem_singleton.mpr hx
  | cons y q ih =>
    rcases Nat.lt_or_ge x.stop y.stop with hlt | hle
    · rw [swallow_cons_of_lt hlt]
      refine List.forall_mem_cons.mpr ⟨?_, hq⟩
      split
      · exact hQ.before x _ hx
      · exact hx
    · rw [swallow_cons_of_le hle]
      exact ih (hQ.join x y hx (hq y List.mem_cons_self)) fun z hz => hq z (List.mem_cons_of_mem y hz)

theorem Closed.overlay {Q : Piece α → Prop} (hQ : Closed Q) (hx : Q x) (hq : ∀ y ∈ q, Q y) :
    ∀ z ∈ overlay x q, Q z := by
  unfold Reassembly.overlay
  split
  · exact List.forall_mem_singleton.mpr hx
  · exact hQ.swallow hx hq

theorem Closed.insert {Q : Piece α → Prop} (hQ : Closed Q) (hx : Q x) (hq : ∀ y ∈ q, Q y) :
    ∀ z ∈ insert limit x q, Q z := by
  fun_induction Reassembly.insert limit x q with
  | case1 => exact List.forall_mem_singleton.mpr hx
  | case2 => exact hQ.overlay hx hq
  | case3 => exact hq
  | case4 => exact hQ.overlay hx hq
  | case5 => exact hq
  | case6 y => 
    exact List.forall_mem_cons.mpr ⟨hQ.before y _ (hq y List.mem_cons_self), List.forall_mem_singleton.mpr (hQ.clip hx)⟩
  | case7 => exact hQ.overlay hx hq
  | case8 => exact hq
  | case9 => exact hQ.overlay hx hq
  | case10 y w q =>
    have htail := hQ.overlay hx fun z hz => hq z (List.mem_cons_of_mem y hz)
    exact List.forall_mem_cons.mpr ⟨hQ.before y _ (hq y List.mem_cons_self), htail⟩
  | case11 y w q _ _ _ ih =>
    exact List.forall_mem_cons.mpr ⟨hq y List.mem_cons_self, ih fun z hz => hq z (List.mem_cons_of_mem y hz)⟩

theorem closed_off (P : Nat → Prop) : Closed fun x : Piece α => P x.off where
  before _ _ h := h
  open_ _ h := h
  join _ _ h _ := h

theorem closed_within (P : Piece α → Prop) : Closed fun x => ∃ s, P s ∧ x.Within s where
  before _ _ := fun ⟨s, hs, h⟩ => ⟨s, hs, before_within.trans h⟩
  open_ _ h := h
  join _ _ h _ := h

/-- The end of the stream counts where it was seen. -/
theorem closed_fits (size limit : Nat) :
    Closed fun x : Piece α => x.stop ≤ limit ∧ (x.fin = true → size < limit) where
  before _ _ h := ⟨before_within.2.trans h.1, h.2⟩
  open_ _ h := ⟨h.1, nofun⟩
  join _ _ h h' := ⟨h.1, fun hf => (Bool.or_eq_true_iff.mp hf).elim h.2 h'.2⟩

theorem ordered_swallow (hx : ∀ y ∈ q, Ahead x y) (hxS : x.From S) (hq : Ordered q) (hS : ∀ y ∈ q, y.From S)
    (hfin : x.fin = true → q = []) : Ordered (swallow x q) ∧ ∀ z ∈ swallow x q, z.From S := by
  induction q generalizing x with
  | nil => simpa [swallow, Ordered] using hxS
  | cons y q ih =>
    obtain ⟨hhead, htail⟩ := List.pairwise_cons.mp hq
    have hyS := hS y List.mem_cons_self
    have hxf : x.fin = false := by
      cases hf : x.fin with
      | false => rfl
      | true => exact absurd (hfin hf) (List.cons_ne_nil y q)
    rcases Nat.lt_or_ge x.stop y.stop with hlt | hle
    · rw [swallow_cons_of_lt hlt]
      have hoff : x.off < y.off := by
        rcases hx y List.mem_cons_self with h | h <;> omega
      have hcut : (if y.off < x.stop then x.before y.off else x).fin = false ∧
          (if y.off < x.stop then x.before y.off else x).off = x.off ∧
          (if y.off < x.stop then x.before y.off else x).stop ≤ y.off ∧
          (if y.off < x.stop then x.before y.off else x).From S := by
        split
        · exact ⟨hxf, rfl, by rw [before_stop hoff.le]; omega, hxS.before hxf _⟩
        · exact ⟨hxf, rfl, by omega, hxS⟩
      refine ⟨List.pairwise_cons.mpr ⟨?_, hq⟩, List.forall_mem_cons.mpr ⟨hcut.2.2.2, hS⟩⟩
      intro z hz
      refine ⟨hcut.1, ?_⟩
      rcases List.mem_cons.mp hz with rfl | hz
      · omega
      · have := hhead z hz
        omega
    · rw [swallow_cons_of_le hle]
      refine ih (fun z hz => ?_) (hxS.withFin hyS hle) htail (fun z hz => hS z (List.mem_cons_of_mem y hz)) ?_
      · have := hhead z hz
        have := (hx y List.mem_cons_self).off_le
        exact .inl (show x.off < z.off by omega)
      · intro hf
        have hyf : y.fin = true := by simpa [hxf] using hf
        refine List.eq_nil_iff_forall_not_mem.mpr fun z hz => ?_
        simp [(hhead z hz).1] at hyf

theorem covered_overlay (hx : ∀ y ∈ q, x.off ≤ y.off) (hxS : x.From S) (hS : ∀ y ∈ q, y.From S) :
    Covered (overlay x q) n ↔ x.Covers n ∨ Covered q n := by
  unfold overlay
  split
  case isFalse => exact covered_swallow hx
  case isTrue hfin =>
    simp only [covered_cons, covered_nil, or_false]
    refine ⟨.inl, fun h => h.elim id ?_⟩
    rintro ⟨y, hy, hn⟩
    have := hx y hy
    have := (hS y hy).stop_le
    have := hxS.fin hfin
    simp only [Covers] at *
    omega

theorem ordered_overlay (hx : ∀ y ∈ q, Ahead x y) (hxS : x.From S) (hq : Ordered q) (hS : ∀ y ∈ q, y.From S) :
    Ordered (overlay x q) ∧ ∀ z ∈ overlay x q, z.From S := by
  unfold overlay
  split
  case isTrue => simpa [Ordered] using hxS
  case isFalse hfin => exact ordered_swallow hx hxS hq hS fun h => absurd h hfin

theorem swallow_head (x : Piece α) (q : List (Piece α)) : ∃ y q', swallow x q = y :: q' ∧ y.off = x.off := by
  induction q generalizing x with
  | nil => exact ⟨x, [], rfl, rfl⟩
  | cons y q ih =>
    rcases Nat.lt_or_ge x.stop y.stop with hlt | hle
    · rw [swallow_cons_of_lt hlt]
      refine ⟨_, _, rfl, ?_⟩
      split <;> rfl
    · rw [swallow_cons_of_le hle]
      exact ih _

theorem overlay_head (x : Piece α) (q : List (Piece α)) : ∃ y q', overlay x q = y :: q' ∧ y.off = x.off := by
  unfold overlay
  split
  · exact ⟨x, [], rfl, rfl⟩
  · exact swallow_head x q

theorem insert_at (h : x.off = y.off) :
    insert limit x (y :: q) = if y.data.length < x.data.length then overlay x (y :: q) else y :: q := by
  cases q <;> simp [insert, h]

theorem insert_front (h : x.off < y.off) : insert limit x (y :: q) = overlay x (y :: q) := by
  cases q <;> simp [insert, h, h.ne]

theorem insert_last (h : y.off < x.off) :
    insert limit x [y] = if y.fin then [y] else [y.before x.off, x.clip limit] := by
  simp [insert, h.ne', h.not_gt]

theorem insert_behind (h : y.off < x.off) :
    insert limit x (y :: z :: q) =
      if x.off < z.off then y.before x.off :: overlay x (z :: q) else y :: insert limit x (z :: q) := by
  simp [insert, h.ne', h.not_gt]

theorem Ordered.before_of_mem (hq : Ordered (y :: q)) (hz : z ∈ q) :
    y.fin = false ∧ y.off < z.off ∧ y.stop ≤ z.off := (List.pairwise_cons.mp hq).1 z hz

/-- Where `x` starts with the head or before it, it is ahead of the whole queue. -/
private theorem ahead_of_head (hq : Ordered (y :: q)) (hy : Ahead x y) : ∀ z ∈ y :: q, Ahead x z := by
  refine List.forall_mem_cons.mpr ⟨hy, fun z hz => .inl ?_⟩
  have := hq.before_of_mem hz
  have := hy.off_le
  omega

theorem ordered_insert (limit : Nat) (hxS : x.From S) (hq : Ordered q) (hS : ∀ y ∈ q, y.From S) :
    Ordered (insert limit x q) ∧ ∀ z ∈ insert limit x q, z.From S := by
  fun_induction insert limit x q with
  | case1 => simpa [Ordered] using hxS
  | case2 y heq hlen => 
    exact ordered_overlay (ahead_of_head hq (.inr ⟨heq, by simp only [stop]; omega⟩)) hxS hq hS
  | case3 y => exact ⟨hq, hS⟩
  | case4 y _ hlt => exact ordered_overlay (ahead_of_head hq (.inl hlt)) hxS hq hS
  | case5 y => exact ⟨hq, hS⟩
  | case6 y hne hge hfin =>
    have hyf : y.fin = false := Bool.eq_false_iff.mpr hfin
    have hlt : y.off < x.off := by omega
    refine ⟨List.pairwise_pair.mpr ⟨hyf, ?_, ?_⟩, List.forall_mem_cons.mpr ⟨?_, List.forall_mem_singleton.mpr ?_⟩⟩
    · rw [clip_within.1]
      exact hlt
    · rw [clip_within.1, before_stop hlt.le]
      omega
    · exact (hS y List.mem_cons_self).before hyf _
    · exact hxS.clip limit
  | case7 y w q heq hlen =>
    exact ordered_overlay (ahead_of_head hq (.inr ⟨heq, by simp only [stop]; omega⟩)) hxS hq hS
  | case8 y w q => exact ⟨hq, hS⟩
  | case9 y w q _ hlt => exact ordered_overlay (ahead_of_head hq (.inl hlt)) hxS hq hS
  | case10 y w q hne hge hlt =>
    have htail := (List.pairwise_cons.mp hq).2
    have hrest := ordered_overlay (ahead_of_head htail (.inl hlt)) hxS htail
      (fun z hz => hS z (List.mem_cons_of_mem y hz))
    have hyf := (hq.before_of_mem (List.mem_cons_self (l := q))).1
    refine ⟨List.pairwise_cons.mpr ⟨fun z hz => ⟨hyf, ?_⟩, hrest.1⟩,
      List.forall_mem_cons.mpr ⟨(hS y List.mem_cons_self).before hyf _, hrest.2⟩⟩
    have hxz := (closed_off (x.off ≤ ·)).overlay le_rfl (fun v hv => (ahead_of_head htail (.inl hlt) v hv).off_le) z hz
    rw [before_off, before_stop (by omega)]
    omega
  | case11 y w q hne hge hge' ih =>
    have htail := (List.pairwise_cons.mp hq).2
    have hrest := ih htail (fun z hz => hS z (List.mem_cons_of_mem y hz))
    have hw := hq.before_of_mem (List.mem_cons_self (l := q))
    refine ⟨List.pairwise_cons.mpr ⟨fun z hz => ⟨hw.1, ?_⟩, hrest.1⟩,
      List.forall_mem_cons.mpr ⟨hS y List.mem_cons_self, hrest.2⟩⟩
    exact (closed_off fun off => y.off < off ∧ y.stop ≤ off).insert (by omega)
      (fun v hv => (hq.before_of_mem hv).2) z hz

/-- Nothing the queue held or `x` brought is lost, unless `x` starts inside a piece and ends before it. -/
theorem covered_insert (hxS : x.From S) (hq : Ordered q) (hS : ∀ y ∈ q, y.From S) (hfit : x.stop ≤ limit)
    (hnest : ∀ y ∈ q, y.off < x.off → x.off < y.stop → y.stop ≤ x.stop) :
    Covered (insert limit x q) n ↔ x.Covers n ∨ Covered q n := by
  fun_induction insert limit x q with
  | case1 => simp
  | case2 y heq hlen =>
    exact covered_overlay (fun z hz => (ahead_of_head hq (.inr ⟨heq, by simp only [stop]; omega⟩) z hz).off_le) hxS hS
  | case3 y heq hlen =>
    simp only [covered_cons, covered_nil, or_false, Covers, stop]
    omega
  | case4 y _ hlt => exact covered_overlay (fun z hz => (ahead_of_head hq (.inl hlt) z hz).off_le) hxS hS
  | case5 y hne hge hfin =>
    have := (hS y List.mem_cons_self).fin hfin
    have := hxS.stop_le
    simp only [covered_cons, covered_nil, or_false, Covers]
    omega
  | case6 y hne hge hfin =>
    have := hnest y List.mem_cons_self (by omega)
    simp only [covered_cons, covered_nil, or_false, Covers, before_off, before_stop (show y.off ≤ x.off by omega),
      clip_within.1]
    by_cases hxl : x.off ≤ limit
    · rw [clip_stop hxl]
      omega
    · simp only [stop] at *
      omega
  | case7 y w q heq hlen =>
    exact covered_overlay (fun z hz => (ahead_of_head hq (.inr ⟨heq, by simp only [stop]; omega⟩) z hz).off_le) hxS hS
  | case8 y w q heq hlen =>
    rw [covered_cons, ← or_assoc]
    refine or_congr_left ?_
    simp only [Covers, stop]
    omega
  | case9 y w q _ hlt => exact covered_overlay (fun z hz => (ahead_of_head hq (.inl hlt) z hz).off_le) hxS hS
  | case10 y w q hne hge hlt =>
    have htail := (List.pairwise_cons.mp hq).2
    have hrest := covered_overlay (n := n) (fun z hz => (ahead_of_head htail (.inl hlt) z hz).off_le) hxS
      (fun z hz => hS z (List.mem_cons_of_mem y hz))
    rw [covered_cons, hrest, covered_cons (x := y), ← or_assoc, ← or_assoc]
    refine or_congr_left ?_
    have := hnest y List.mem_cons_self (by omega)
    simp only [Covers, before_off, before_stop (show y.off ≤ x.off by omega)]
    omega
  | case11 y w q hne hge hge' ih =>
    have htail := (List.pairwise_cons.mp hq).2
    rw [covered_cons, ih htail (fun z hz => hS z (List.mem_cons_of_mem y hz))
      (fun z hz => hnest z (List.mem_cons_of_mem y hz)), covered_cons (x := y), or_left_comm]

/-- Handing on takes the pieces that follow one another from `n` on, and what is left starts later. -/
theorem drain_spec (hq : Ordered q) (hS : ∀ y ∈ q, y.From S) (hoff : ∀ y ∈ q, n ≤ y.off) :
    (drain n q).data <+: S.drop n ∧
      (drain n q).nxt = n + (drain n q).data.length + (drain n q).fin.toNat ∧
      ((drain n q).fin = true → n + (drain n q).data.length = S.length ∧ (drain n q).queue = []) ∧
      (drain n q).queue <:+ q ∧
      ((drain n q).fin = false → ∀ y ∈ (drain n q).queue, (drain n q).nxt < y.off) ∧
      ∀ m, Covered q m ↔ (n ≤ m ∧ m < n + (drain n q).data.length) ∨ Covered (drain n q).queue m := by
  induction q generalizing n with
  | nil => simp [drain]
  | cons y q ih =>
    obtain ⟨hhead, htail⟩ := List.pairwise_cons.mp hq
    have hyS := hS y List.mem_cons_self
    by_cases heq : y.off = n
    swap
    · have hlt : ∀ z ∈ y :: q, n < z.off := by
        have hny := hoff y List.mem_cons_self
        refine List.forall_mem_cons.mpr ⟨by omega, fun z hz => ?_⟩
        have := hhead z hz
        omega
      simp only [drain, if_neg heq]
      refine ⟨List.nil_prefix, by simp, by simp, List.suffix_refl _, fun _ => hlt, fun m => ?_⟩
      simp only [List.length_nil, Nat.add_zero]
      exact ⟨.inr, fun h => h.elim (fun h => by omega) id⟩
    · subst heq
      have hstop : ∀ z ∈ q, y.off + y.span ≤ z.off := by
        intro z hz
        have := hhead z hz
        simp only [span, this.1, Bool.toNat_false, stop] at *
        omega
      obtain ⟨hdata, hnxt, hfin, hsuf, hlater, hcov⟩ := ih htail (fun z hz => hS z (List.mem_cons_of_mem y hz)) hstop
      simp only [drain, if_true]
      cases hyf : y.fin with
      | true =>
        have hnil : q = [] := by
          refine List.eq_nil_iff_forall_not_mem.mpr fun z hz => ?_
          simp [(hhead z hz).1] at hyf
        subst hnil
        have := hyS.fin hyf
        simp only [drain, span, hyf, Bool.toNat_true, List.append_nil, Bool.true_or]
        refine ⟨hyS.data, by omega, fun _ => ⟨this, trivial⟩, List.nil_suffix, nofun, fun m => ?_⟩
        simp [Covers, stop]
      | false =>
        have hspan : y.span = y.data.length := by simp [span, hyf]
        rw [hspan] at hdata hnxt hfin hsuf hlater hcov ⊢
        simp only [Bool.false_or, List.length_append]
        refine ⟨?_, by omega, fun h => ⟨by have := (hfin h).1; omega, (hfin h).2⟩, hsuf.trans (List.suffix_cons y q),
          hlater, fun m => ?_⟩
        · obtain ⟨t, ht⟩ := hyS.data
          obtain ⟨u, hu⟩ := hdata
          refine ⟨u, ?_⟩
          rw [List.append_assoc, hu, ← ht, ← List.drop_drop, ← ht, List.drop_left]
        · rw [covered_cons, hcov, ← or_assoc]
          refine or_congr_left ?_
          simp only [Covers, stop]
          omega

theorem le_drain_nxt : n ≤ (drain n q).nxt := by
  induction q generalizing n with
  | nil => exact le_rfl
  | cons y q ih =>
    unfold drain
    split
    · exact (Nat.le_add_right n y.span).trans ih
    · exact le_rfl

theorem drain_nxt_le (hn : n ≤ limit) (hq : ∀ y ∈ q, y.off + y.span ≤ limit) : (drain n q).nxt ≤ limit := by
  induction q generalizing n with
  | nil => exact hn
  | cons y q ih =>
    unfold drain
    split
    case isTrue heq =>
      subst heq
      exact ih (hq y List.mem_cons_self) fun z hz => hq z (List.mem_cons_of_mem y hz)
    case isFalse => exact hn

end Reassembly

/-- The next place to hand on, how many places are taken from there, and what came early. -/
structure Receiver (α : Type) where
  nxt : Nat
  wnd : Nat
  queue : List (Piece α)

namespace Receiver
variable {α : Type} {S : List α} {r : Receiver α} {x : Piece α} {room : Bool}
open Piece Reassembly

def edge (r : Receiver α) : Nat := r.nxt + r.wnd

/-- Hand on `x`, which starts at the next place, with everything it completes. -/
def advance (r : Receiver α) (x : Piece α) : Receiver α × List α × Bool :=
  let d := drain r.nxt (Reassembly.overlay (x.clip r.edge) r.queue)
  (⟨d.nxt, r.edge - d.nxt, d.queue⟩, d.data, d.fin)

/-- What a piece does, with what is handed on and whether the stream ended there. A piece
that comes early is kept if there is room for it. -/
def receive (r : Receiver α) (x : Piece α) (room : Bool) : Receiver α × List α × Bool :=
  if x.off ≤ r.nxt ∧ r.nxt < x.off + x.span ∧ 0 < r.wnd then r.advance (x.after r.nxt)
  else if r.nxt < x.off ∧ x.off < r.edge ∧ room then ({ r with queue := insert r.edge x r.queue }, [], false)
  else (r, [], false)

/-- A receiver of the stream `S`. -/
structure Of (S : List α) (r : Receiver α) : Prop where
  nxt_le : r.nxt ≤ S.length
  ordered : Ordered r.queue
  cut : ∀ y ∈ r.queue, y.From S
  later : ∀ y ∈ r.queue, r.nxt < y.off ∧ y.off < r.edge

/-- Nothing that was received lies beyond `limit`. -/
structure Fits (limit : Nat) (r : Receiver α) : Prop where
  nxt : r.nxt ≤ limit
  queue : ∀ y ∈ r.queue, y.off + y.span ≤ limit

private theorem Of.ahead (hr : r.Of S) (hx : x.off = r.nxt) : ∀ y ∈ r.queue, Ahead (x.clip r.edge) y := by
  intro y hy
  have := (hr.later y hy).1
  exact .inl (by rw [clip_within.1]; omega)

private theorem Of.overlay (hr : r.Of S) (hx : x.off = r.nxt) (hxS : x.From S) :
    Ordered (Reassembly.overlay (x.clip r.edge) r.queue) ∧
      (∀ z ∈ Reassembly.overlay (x.clip r.edge) r.queue, z.From S) ∧
      ∀ z ∈ Reassembly.overlay (x.clip r.edge) r.queue, r.nxt ≤ z.off := by
  obtain ⟨hord, hcut⟩ := ordered_overlay (hr.ahead hx) (hxS.clip r.edge) hr.ordered hr.cut
  exact ⟨hord, hcut, (closed_off (r.nxt ≤ ·)).overlay (by rw [clip_within.1, hx]) fun y hy => (hr.later y hy).1.le⟩

theorem advance_spec (hr : r.Of S) (hx : x.off = r.nxt) (hxS : x.From S) :
    (r.advance x).2.1 <+: S.drop r.nxt ∧
      (r.advance x).1.nxt = r.nxt + (r.advance x).2.1.length + (r.advance x).2.2.toNat ∧
      ((r.advance x).2.2 = true → r.nxt + (r.advance x).2.1.length = S.length ∧ (r.advance x).1.queue = []) ∧
      r.edge ≤ (r.advance x).1.edge ∧
      ((r.advance x).2.2 = false → (r.advance x).1.Of S) := by
  obtain ⟨hord, hcut, hoff⟩ := hr.overlay hx hxS
  obtain ⟨hdata, hnxt, hfin, hsuf, hlater, -⟩ := drain_spec hord hcut hoff
  refine ⟨hdata, hnxt, hfin, by simp only [advance, edge]; omega, fun hf => ?_⟩
  have hlen := hdata.length_le
  rw [List.length_drop] at hlen
  refine ⟨?_, hord.sublist hsuf.sublist, fun y hy => hcut y (hsuf.subset hy), fun y hy => ⟨hlater hf y hy, ?_⟩⟩
  · have hz : (drain r.nxt (Reassembly.overlay (x.clip r.edge) r.queue)).fin.toNat = 0 := by
      rw [show (drain r.nxt (Reassembly.overlay (x.clip r.edge) r.queue)).fin = false from hf]; rfl
    have := hr.nxt_le
    simp only [advance]
    omega
  · have hlt := hlater hf y hy
    have hin : y.off ≤ r.nxt ∨ y.off < r.edge :=
      (closed_off fun off => off ≤ r.nxt ∨ off < r.edge).overlay (.inl (by rw [clip_within.1, hx]))
        (fun z hz => .inr (hr.later z hz).2) y (hsuf.subset hy)
    simp only [advance, edge] at *
    omega

/-- Everything handed on is the next part of the stream, its end is met behind the last of it,
and what is kept stays ordered. -/
theorem receive_spec (hr : r.Of S) (hxS : x.From S) :
    (r.receive x room).2.1 <+: S.drop r.nxt ∧
      (r.receive x room).1.nxt = r.nxt + (r.receive x room).2.1.length + (r.receive x room).2.2.toNat ∧
      ((r.receive x room).2.2 = true →
        r.nxt + (r.receive x room).2.1.length = S.length ∧ (r.receive x room).1.queue = []) ∧
      r.edge ≤ (r.receive x room).1.edge ∧
      ((r.receive x room).2.2 = false → (r.receive x room).1.Of S) := by
  unfold receive
  split
  case isTrue h =>
    exact advance_spec hr rfl (hxS.after h.1 (le_stop_of_lt_span h.2.1))
  split
  case isTrue h =>
    obtain ⟨hord, hcut⟩ := ordered_insert r.edge hxS hr.ordered hr.cut
    exact ⟨List.nil_prefix, rfl, nofun, le_rfl, fun _ => ⟨hr.nxt_le, hord, hcut,
      (closed_off fun off => r.nxt < off ∧ off < r.edge).insert ⟨h.1, h.2.1⟩ hr.later⟩⟩
  case isFalse => exact ⟨List.nil_prefix, rfl, nofun, le_rfl, fun _ => hr⟩

private theorem fits_iff {limit : Nat} (hx : x.From S) :
    x.off + x.span ≤ limit ↔ x.stop ≤ limit ∧ (x.fin = true → S.length < limit) := by
  cases hf : x.fin with
  | false => simp [span, stop, hf]
  | true =>
    have := hx.fin hf
    simp only [span, stop, hf, Bool.toNat_true, forall_const] at *
    omega

section Fits
variable {limit : Nat} (hr : r.Of S) (hfit : r.Fits limit) (hlim : limit ≤ r.edge)
include hr hfit hlim

/-- A piece in sequence inside `limit` is handed on whole, with everything that lies inside too. -/
theorem overlay_fits (hxS : x.From S) (hoff : x.off = r.nxt) (hx : x.off + x.span ≤ limit) :
    x.clip r.edge = x ∧ ∀ z ∈ Reassembly.overlay x r.queue, z.off + z.span ≤ limit := by
  have hclip := clip_of_le (hx.trans hlim)
  have hcut := (hr.overlay hoff hxS).2.1
  rw [hclip] at hcut
  refine ⟨hclip, fun z hz => (fits_iff (hcut z hz)).mpr ?_⟩
  exact (closed_fits S.length limit).overlay ((fits_iff hxS).mp hx)
    (fun y hy => (fits_iff (hr.cut y hy)).mp (hfit.queue y hy)) z hz

/-- What lies inside `limit` stays inside it. -/
theorem receive_fits (hxS : x.From S) (hx : x.off + x.span ≤ limit) :
    (r.receive x room).1.Fits limit := by
  unfold receive
  split
  case isTrue h =>
    have hy := hxS.after h.1 (le_stop_of_lt_span h.2.1)
    have hyfit : (x.after r.nxt).off + (x.after r.nxt).span ≤ limit := by
      have := after_stop h.1 (le_stop_of_lt_span h.2.1)
      simp only [span, stop, after_fin] at *
      omega
    obtain ⟨hclip, hall⟩ := overlay_fits hr hfit hlim hy rfl hyfit
    obtain ⟨hord, hcut, hge⟩ := hr.overlay rfl hy
    obtain ⟨-, -, -, hsuf, -, -⟩ := drain_spec hord hcut hge
    have hle := drain_nxt_le hfit.nxt hall
    simp only [advance, hclip] at hsuf ⊢
    exact ⟨hle, fun z hz => hall z (hsuf.subset hz)⟩
  split
  case isTrue h =>
    obtain ⟨-, hcut⟩ := ordered_insert r.edge hxS hr.ordered hr.cut
    exact ⟨hfit.nxt, fun z hz => (fits_iff (hcut z hz)).mpr ((closed_fits S.length limit).insert ((fits_iff hxS).mp hx)
      (fun y hy => (fits_iff (hr.cut y hy)).mp (hfit.queue y hy)) z hz)⟩
  case isFalse => exact hfit

end Fits

/-- No piece starts inside another and ends before it. -/
def Unnested (P : Piece α → Prop) : Prop :=
  ∀ x y, P x → P y → x.off < y.off → y.off < x.stop → x.stop ≤ y.stop

/-- Of the stream `S` the receiver has exactly the places that the pieces `P` cover. -/
structure Holds (S : List α) (P : Piece α → Prop) (r : Receiver α) : Prop where
  origin : ∀ z ∈ r.queue, ∃ s, P s ∧ z.Within s
  exact : ∀ n < S.length, n < r.nxt ∨ Covered r.queue n ↔ ∃ s, P s ∧ s.Covers n

instance (l : List (Piece α)) : Decidable (Unnested (· ∈ l)) :=
  decidable_of_iff (∀ x ∈ l, ∀ y ∈ l, x.off < y.off → y.off < x.stop → x.stop ≤ y.stop)
    ⟨fun h x y hx hy => h x hx y hy, fun h x hx y hy => h x y hx hy⟩

theorem Unnested.mono {P Q : Piece α → Prop} (h : Unnested Q) (hsub : ∀ x, P x → Q x) : Unnested P :=
  fun x y hx hy => h x y (hsub x hx) (hsub y hy)

/-- Empty pieces add nothing. -/
theorem Holds.congr_empty {P Q : Piece α → Prop} (h : r.Holds S P) (hsub : ∀ x, P x → Q x)
    (hsup : ∀ x, Q x → P x ∨ x.span = 0) : r.Holds S Q where
  origin z hz := (h.origin z hz).imp fun s hs => ⟨hsub s hs.1, hs.2⟩
  exact n hn := by
    rw [h.exact n hn]
    refine ⟨fun ⟨s, hs, hc⟩ => ⟨s, hsub s hs, hc⟩, fun ⟨s, hs, hc⟩ => (hsup s hs).elim (fun hp => ⟨s, hp, hc⟩) ?_⟩
    intro hzero
    simp only [Covers, stop, span] at *
    omega

private theorem exists_or_eq {P : Piece α → Prop} {n : Nat} :
    (∃ s, (P s ∨ s = x) ∧ s.Covers n) ↔ (∃ s, P s ∧ s.Covers n) ∨ x.Covers n := by
  simp [or_and_right, exists_or]

theorem receive_holds {P : Piece α → Prop} (hr : r.Of S) (hxS : x.From S) (hP : r.Holds S P)
    (hx : x.off + x.span ≤ r.edge) (hnest : Unnested fun s => P s ∨ s = x) :
    (r.receive x true).1.Holds S fun s => P s ∨ s = x := by
  have old : ∀ z ∈ r.queue, ∃ s, (P s ∨ s = x) ∧ z.Within s := fun z hz =>
    let ⟨s, hs, hw⟩ := hP.origin z hz
    ⟨s, .inl hs, hw⟩
  unfold receive
  split
  case isTrue h =>
    have hy := hxS.after h.1 (le_stop_of_lt_span h.2.1)
    have hstop := after_stop h.1 (le_stop_of_lt_span h.2.1)
    have hyfit : (x.after r.nxt).off + (x.after r.nxt).span ≤ r.edge := by
      simp only [span, stop, after_fin] at *
      omega
    obtain ⟨hord, hcut, hge⟩ := hr.overlay rfl hy
    obtain ⟨-, hnxt, hfin, hsuf, hlater, hcov⟩ := drain_spec hord hcut hge
    have hover : ∀ n, Covered (Reassembly.overlay ((x.after r.nxt).clip r.edge) r.queue) n ↔
        (x.after r.nxt).Covers n ∨ Covered r.queue n := fun n => by
      rw [covered_overlay (fun z hz => (hr.ahead rfl z hz).off_le) (hy.clip _) hr.cut, clip_of_le hyfit]
    simp only [advance]
    generalize hd : drain r.nxt (Reassembly.overlay ((x.after r.nxt).clip r.edge) r.queue) = d at *
    refine ⟨fun z hz => ?_, fun n hn => ?_⟩
    · cases hf : d.fin with
      | true => simp [(hfin hf).2] at hz
      | false =>
        have := hlater hf z hz
        have hsrc := (closed_within fun s => (P s ∨ s = x) ∨ s.off = r.nxt).overlay
          ⟨_, .inr (clip_within.1.trans after_off), Within.refl _⟩
          (fun y hy => (old y hy).imp fun s hs => ⟨.inl hs.1, hs.2⟩) z (hsuf.subset hz)
        obtain ⟨s, hs | hs, hw⟩ := hsrc
        · exact ⟨s, hs, hw⟩
        · have := hw.1
          omega
    · have hin : n < d.nxt ↔ n < r.nxt ∨ r.nxt ≤ n ∧ n < r.nxt + d.data.length := by
        cases hf : d.fin with
        | true =>
          have := (hfin hf).1
          simp only [hf, Bool.toNat_true] at hnxt
          omega
        | false =>
          simp only [hf, Bool.toNat_false] at hnxt
          omega
      have hpart : n < r.nxt ∨ (x.after r.nxt).Covers n ↔ n < r.nxt ∨ x.Covers n := by
        simp only [Covers, hstop, after_off]
        omega
      rw [exists_or_eq, ← hP.exact n hn, hin, or_assoc, ← hcov, hover, ← or_assoc, hpart, or_right_comm]
  split
  case isTrue h =>
    refine ⟨(closed_within _).insert ⟨x, .inr rfl, Within.refl x⟩ old, fun n hn => ?_⟩
    have hstop : x.stop ≤ r.edge := by
      simp only [stop, span] at *
      omega
    rw [covered_insert hxS hr.ordered hr.cut hstop, exists_or_eq, ← hP.exact n hn, or_assoc, or_comm (a := x.Covers n)]
    intro y hy hlt hlt'
    obtain ⟨s, hs, hw⟩ := old y hy
    have := hnest s x hs (.inr rfl) (by have := hw.1; omega) (by have := hw.2; omega)
    have := hw.2
    omega
  case isFalse h h' =>
    refine ⟨old, fun n hn => ?_⟩
    have hlow : x.Covers n → n < r.nxt := by
      simp only [Covers, stop, span, edge, eq_self, and_true] at *
      omega
    rw [exists_or_eq, ← hP.exact n hn, or_right_comm, or_iff_left_of_imp hlow]

end Receiver

end Tunosocks.Foundation
