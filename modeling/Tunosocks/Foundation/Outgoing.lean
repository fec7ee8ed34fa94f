import Mathlib.Algebra.GroupWithZero.Nat
import Mathlib.Data.List.Sort
import Tunosocks.Foundation.Reassembly

/-! What the sender of a numbered stream keeps until it is acknowledged: pieces that tile the
stream from one place to its end, some in flight and some waiting, each kind in order. A
piece in flight can be put back among the waiting ones. -/
namespace Tunosocks.Foundation

/-- The first place behind a piece. -/
def Piece.past {α : Type} (x : Piece α) : Nat := x.off + x.span

/-- The pieces lie end to end from `n` to `m`, each one cut from the stream `S`. -/
def Tiles {α : Type} (S : List α) : Nat → List (Piece α) → Nat → Prop
  | n, [], m => n = m
  | n, x :: L, m => x.off = n ∧ x.From S ∧ 0 < x.span ∧ Tiles S x.past L m

namespace Tiles
variable {α : Type} {S : List α} {x y : Piece α} {L M : List (Piece α)} {n m k a : Nat}
open Piece

theorem append : Tiles S n (L ++ M) m ↔ ∃ k, Tiles S n L k ∧ Tiles S k M m := by
  induction L generalizing n with
  | nil => simp [Tiles]
  | cons x L ih => simp [Tiles, ih, and_assoc]

theorem singleton : Tiles S n [x] m ↔ x.off = n ∧ x.From S ∧ 0 < x.span ∧ x.past = m := Iff.rfl

theorem le (h : Tiles S n L m) : n ≤ m := by
  induction L generalizing n with
  | nil => exact Nat.le_of_eq h
  | cons x L ih =>
    obtain ⟨rfl, -, -, h⟩ := h
    exact (Nat.le_add_right _ _).trans (ih h)

theorem cut (h : Tiles S n L m) (hx : x ∈ L) : x.From S ∧ 0 < x.span := by
  induction L generalizing n with
  | nil => cases hx
  | cons y L ih =>
    obtain ⟨-, hy, hspan, h⟩ := h
    rcases List.mem_cons.mp hx with rfl | hx
    · exact ⟨hy, hspan⟩
    · exact ih h hx

theorem bounds (h : Tiles S n L m) (hx : x ∈ L) : n ≤ x.off ∧ x.past ≤ m := by
  induction L generalizing n with
  | nil => cases hx
  | cons y L ih =>
    obtain ⟨rfl, -, -, h⟩ := h
    rcases List.mem_cons.mp hx with rfl | hx
    · exact ⟨le_rfl, h.le⟩
    · exact ⟨(Nat.le_add_right _ _).trans (ih h hx).1, (ih h hx).2⟩

/-- Of two pieces one lies behind the other. -/
theorem apart (h : Tiles S n L m) (hx : x ∈ L) (hy : y ∈ L) : x = y ∨ x.past ≤ y.off ∨ y.past ≤ x.off := by
  induction L generalizing n with
  | nil => cases hx
  | cons z L ih =>
    obtain ⟨rfl, -, -, h⟩ := h
    rcases List.mem_cons.mp hx with rfl | hxL
    · rcases List.mem_cons.mp hy with rfl | hyL
      · exact .inl rfl
      · exact .inr (.inl (h.bounds hyL).1)
    · rcases List.mem_cons.mp hy with rfl | hyL
      · exact .inr (.inr (h.bounds hxL).1)
      · exact ih h hxL hyL

theorem past_le_of_off_lt (h : Tiles S n L m) (hx : x ∈ L) (hy : y ∈ L) (hlt : x.off < y.off) : x.past ≤ y.off := by
  rcases h.apart hx hy with rfl | hle | hle
  · exact absurd hlt (lt_irrefl _)
  · exact hle
  · simp only [past] at hle
    omega

theorem eq_of_off (h : Tiles S n L m) (hx : x ∈ L) (hy : y ∈ L) (heq : x.off = y.off) : x = y := by
  have hxs := (h.cut hx).2
  have hys := (h.cut hy).2
  rcases h.apart hx hy with rfl | hle | hle
  · rfl
  · simp only [past] at hle
    omega
  · simp only [past] at hle
    omega

theorem covers (h : Tiles S n L m) (hn : n ≤ k) (hm : k < m) : ∃ x ∈ L, x.off ≤ k ∧ k < x.past := by
  induction L generalizing n with
  | nil => exact absurd (hn.trans_lt hm) (Nat.not_lt.mpr (Nat.le_of_eq h.symm))
  | cons y L ih =>
    obtain ⟨rfl, -, -, h⟩ := h
    by_cases hk : k < y.past
    · exact ⟨y, List.mem_cons_self, hn, hk⟩
    · obtain ⟨x, hx, hcov⟩ := ih h (Nat.not_lt.mp hk)
      exact ⟨x, List.mem_cons_of_mem y hx, hcov⟩

/-- The piece that reaches the end is the last one. -/
theorem last (h : Tiles S n L m) (hx : x ∈ L) (hm : x.past = m) : ∃ K, L = K ++ [x] ∧ Tiles S n K x.off := by
  obtain ⟨K, M, rfl⟩ := List.append_of_mem hx
  obtain ⟨k, hK, rfl, -, -, hM⟩ := append.mp h
  cases M with
  | nil => exact ⟨K, rfl, hK⟩
  | cons y M =>
    obtain ⟨hoff, -, hspan, hM⟩ := hM
    have := hM.le
    simp only [past] at *
    omega

theorem increasing (h : Tiles S n L m) : L.Pairwise fun x y => x.off < y.off := by
  induction L generalizing n with
  | nil => exact .nil
  | cons x L ih =>
    obtain ⟨rfl, -, hspan, h⟩ := h
    exact .cons (fun y hy => (Nat.lt_add_of_pos_right hspan).trans_le (h.bounds hy).1) (ih h)

/-- As long as the stream goes on, what was cut from it is cut from what it becomes. -/
theorem grow (h : Tiles S n L m) (hm : m ≤ S.length) (d : List α) : Tiles (S ++ d) n L m := by
  induction L generalizing n with
  | nil => exact h
  | cons x L ih =>
    obtain ⟨hoff, hx, hspan, h⟩ := h
    have hle := h.le.trans hm
    refine ⟨hoff, ⟨hx.off_le.trans (by simp), ?_, fun hf => ?_⟩, hspan, ih h⟩
    · rw [List.drop_append_of_le_length hx.off_le]
      exact hx.data.trans (List.prefix_append _ _)
    · have := hx.fin hf
      simp only [past, span, stop, hf, Bool.toNat_true] at *
      omega

/-- Only the end of the stream takes a place without data. -/
theorem le_data (h : Tiles S n L m) (hm : S.length ≤ m) : S.length ≤ n + (L.map fun x => x.data.length).sum := by
  induction L generalizing n with
  | nil => exact hm.trans_eq (Eq.symm h)
  | cons x L ih =>
    obtain ⟨rfl, hx, -, h⟩ := h
    rw [List.map_cons, List.sum_cons]
    cases hf : x.fin with
    | false =>
      have := ih h
      simp only [past, span, hf, Bool.toNat_false] at this
      omega
    | true =>
      have := hx.fin hf
      simp only [stop] at this
      omega

/-- Pieces that lie before `a` go. -/
theorem release (h : Tiles S n L m) (hn : n ≤ a) :
    ∃ k, n ≤ k ∧ k ≤ max n a ∧ Tiles S k (L.filter fun x => a < x.past) m := by
  induction L generalizing n with
  | nil => exact ⟨n, le_rfl, Nat.le_max_left _ _, h⟩
  | cons x L ih =>
    obtain ⟨rfl, hx, hspan, h⟩ := h
    by_cases ha : a < x.past
    · have hall : (x :: L).filter (fun y => a < y.past) = x :: L := by
        refine List.filter_eq_self.mpr fun y hy => decide_eq_true ?_
        rcases List.mem_cons.mp hy with rfl | hy
        · exact ha
        · exact ha.trans_le ((h.bounds hy).1.trans (Nat.le_add_right _ _))
      rw [hall]
      exact ⟨x.off, le_rfl, Nat.le_max_left _ _, rfl, hx, hspan, h⟩
    · obtain ⟨k, hk, hk', ht⟩ := ih h (Nat.not_lt.mp ha)
      refine ⟨k, (Nat.le_add_right _ _).trans hk, ?_, ?_⟩
      · have := Nat.not_lt.mp ha
        omega
      · rw [List.filter_cons_of_neg (by simpa using ha)]
        exact ht

end Tiles

/-- Ordered by place. -/
def Piece.Leads {α : Type} (x y : Piece α) : Prop := x.off ≤ y.off

instance {α : Type} : DecidableRel (Piece.Leads (α := α)) := fun x y => inferInstanceAs (Decidable (x.off ≤ y.off))

instance {α : Type} : IsTrans (Piece α) Piece.Leads := ⟨fun _ _ _ => Nat.le_trans⟩

instance {α : Type} : Std.Total (Piece.Leads (α := α)) := ⟨fun x y => Nat.le_total x.off y.off⟩

/-- What is kept: `us` in flight and `vs` waiting tile the stream from `n` to `m`. -/
structure Outgoing {α : Type} (S : List α) (n m : Nat) (us vs : List (Piece α)) : Prop where
  tiled : ∃ L, (us ++ vs).Perm L ∧ Tiles S n L m
  flight : us.Pairwise Piece.Leads
  waiting : vs.Pairwise Piece.Leads

namespace Outgoing
variable {α : Type} {S : List α} {x y : Piece α} {us vs : List (Piece α)} {n m a : Nat}
open Piece

theorem empty (S : List α) (n : Nat) : Outgoing S n n [] [] := ⟨⟨[], .refl _, rfl⟩, .nil, .nil⟩

theorem le (h : Outgoing S n m us vs) : n ≤ m := h.tiled.elim fun _ hL => hL.2.le

theorem cut (h : Outgoing S n m us vs) (hx : x ∈ us ++ vs) : x.From S ∧ 0 < x.span ∧ n ≤ x.off ∧ x.past ≤ m := by
  obtain ⟨L, hp, hL⟩ := h.tiled
  have hx := hp.mem_iff.mp hx
  exact ⟨(hL.cut hx).1, (hL.cut hx).2, hL.bounds hx⟩

theorem past_le_of_off_lt (h : Outgoing S n m us vs) (hx : x ∈ us ++ vs) (hy : y ∈ us ++ vs) (hlt : x.off < y.off) :
    x.past ≤ y.off := by
  obtain ⟨L, hp, hL⟩ := h.tiled
  exact hL.past_le_of_off_lt (hp.mem_iff.mp hx) (hp.mem_iff.mp hy) hlt

theorem eq_of_off (h : Outgoing S n m us vs) (hx : x ∈ us ++ vs) (hy : y ∈ us ++ vs) (heq : x.off = y.off) : x = y := by
  obtain ⟨L, hp, hL⟩ := h.tiled
  exact hL.eq_of_off (hp.mem_iff.mp hx) (hp.mem_iff.mp hy) heq

theorem covers (h : Outgoing S n m us vs) {k : Nat} (hn : n ≤ k) (hm : k < m) :
    ∃ x ∈ us ++ vs, x.off ≤ k ∧ k < x.past := by
  obtain ⟨L, hp, hL⟩ := h.tiled
  obtain ⟨x, hx, hcov⟩ := hL.covers hn hm
  exact ⟨x, hp.mem_iff.mpr hx, hcov⟩

theorem nodup (h : Outgoing S n m us vs) : (us ++ vs).Nodup := by
  obtain ⟨L, hp, hL⟩ := h.tiled
  refine hp.nodup_iff.mpr (hL.increasing.imp ?_)
  rintro x _ hlt rfl
  exact lt_irrefl _ hlt

theorem le_data (h : Outgoing S n m us vs) (hm : S.length ≤ m) :
    S.length ≤ n + ((us ++ vs).map fun x => x.data.length).sum := by
  obtain ⟨L, hp, hL⟩ := h.tiled
  rw [(hp.map fun x => x.data.length).sum_nat]
  exact hL.le_data hm

/-- The first waiting piece goes into flight, in front of the later ones. -/
theorem send (h : Outgoing S n m us (x :: vs)) : Outgoing S n m (us.orderedInsert Leads x) vs := by
  obtain ⟨L, hp, hL⟩ := h.tiled
  refine ⟨⟨L, ?_, hL⟩, h.flight.orderedInsert x us, (List.pairwise_cons.mp h.waiting).2⟩
  exact ((List.perm_orderedInsert Leads x us).append_right vs).trans (List.perm_middle.symm.trans hp)

/-- The first piece in flight waits again. -/
theorem requeue (h : Outgoing S n m (x :: us) vs) : Outgoing S n m us (vs.orderedInsert Leads x) := by
  obtain ⟨L, hp, hL⟩ := h.tiled
  refine ⟨⟨L, ?_, hL⟩, (List.pairwise_cons.mp h.flight).2, h.waiting.orderedInsert x vs⟩
  exact ((List.perm_orderedInsert Leads x vs).append_left us).trans (List.perm_middle.trans hp)

/-- Dropping from the front is dropping everywhere, when what follows a piece that stays stays too. -/
private theorem dropWhile_eq_filter {p : Piece α → Bool} {l : List (Piece α)}
    (h : l.Pairwise fun x y => p y = true → p x = true) : l.dropWhile p = l.filter fun x => !p x := by
  induction l with
  | nil => rfl
  | cons x l ih =>
    obtain ⟨hx, hl⟩ := List.pairwise_cons.mp h
    cases hp : p x with
    | true => rw [List.dropWhile_cons_of_pos hp, ih hl, List.filter_cons_of_neg (by simp [hp])]
    | false =>
      rw [List.dropWhile_cons_of_neg (by simp [hp])]
      refine (List.filter_eq_self.mpr fun y hy => ?_).symm
      rcases List.mem_cons.mp hy with rfl | hy
      · simp [hp]
      · cases hpy : p y with
        | false => rfl
        | true => exact absurd (hx y hy hpy) (by simp [hp])

/-- What lies before `a` is dropped from the front of both lists, and nothing else is there. -/
theorem release (h : Outgoing S n m us vs) (hn : n ≤ a) :
    ∃ k, n ≤ k ∧ k ≤ a ∧ Outgoing S k m (us.dropWhile fun x => x.past ≤ a) (vs.dropWhile fun x => x.past ≤ a) ∧
      ∀ x ∈ (us.dropWhile fun x => x.past ≤ a) ++ (vs.dropWhile fun x => x.past ≤ a), a < x.past := by
  obtain ⟨L, hp, hL⟩ := h.tiled
  have hfilter : ∀ l : List (Piece α), l ⊆ us ++ vs → l.Pairwise Leads →
      l.dropWhile (fun x => decide (x.past ≤ a)) = l.filter fun x => decide (a < x.past) := by
    intro l hl hs
    rw [dropWhile_eq_filter]
    · exact List.filter_congr fun x _ => by simp [← decide_not]
    · refine hs.imp_of_mem fun {x y} hx hy hle hpy => ?_
      have hy' := of_decide_eq_true hpy
      refine decide_eq_true ?_
      rcases Nat.lt_or_eq_of_le hle with hlt | heq
      · have := h.past_le_of_off_lt (hl hx) (hl hy) hlt
        simp only [past] at *
        omega
      · rwa [h.eq_of_off (hl hx) (hl hy) heq]
  rw [hfilter us (List.subset_append_left us vs) h.flight, hfilter vs (List.subset_append_right us vs) h.waiting]
  obtain ⟨k, hk, hk', ht⟩ := hL.release hn
  rw [← List.filter_append]
  refine ⟨k, hk, by omega, ⟨⟨_, ?_, ht⟩, h.flight.filter _, h.waiting.filter _⟩, fun x hx => ?_⟩
  · rw [← List.filter_append]
    exact hp.filter _
  · exact of_decide_eq_true (List.mem_filter.mp hx).2

/-- More pieces are put behind everything else. -/
theorem append {d : List α} {ws : List (Piece α)} {k : Nat} (h : Outgoing S n m us vs) (hm : m ≤ S.length)
    (hw : Tiles (S ++ d) m ws k) : Outgoing (S ++ d) n k us (vs ++ ws) := by
  obtain ⟨L, hp, hL⟩ := h.tiled
  refine ⟨⟨L ++ ws, ?_, Tiles.append.mpr ⟨m, hL.grow hm d, hw⟩⟩, h.flight, ?_⟩
  · rw [← List.append_assoc]
    exact hp.append_right ws
  · refine List.pairwise_append.mpr ⟨h.waiting, hw.increasing.imp Nat.le_of_lt, fun x hx y hy => ?_⟩
    have hpast := (h.cut (List.mem_append_right us hx)).2.2.2
    exact (Nat.le_add_right _ _).trans (hpast.trans (hw.bounds hy).1)

/-- The waiting pieces reach further than those in flight. -/
def Behind (us vs : List (Piece α)) : Prop := ∀ v ∈ vs.getLast?, ∀ u ∈ us, u.off < v.off

/-- Then the last of them reaches the end. -/
theorem last_past (h : Outgoing S n m us (vs ++ [x])) (hb : Behind us (vs ++ [x])) : x.past = m := by
  have hmem : x ∈ us ++ (vs ++ [x]) := by simp
  obtain ⟨-, hspan, hn, hm⟩ := h.cut hmem
  -- the piece at the last place is not in flight, and no other one waits behind `x`
  by_contra hne
  obtain ⟨z, hz, hoff, hpast⟩ := h.covers (k := x.past) (hn.trans (Nat.le_add_right _ _)) (by omega)
  have hzx : z.off ≤ x.off := by
    rcases List.mem_append.mp hz with hu | hv
    · exact (hb x (by simp) z hu).le
    · rcases List.mem_append.mp hv with hv | hv
      · exact (List.pairwise_append.mp h.waiting).2.2 z hv x (List.mem_singleton_self x)
      · exact (List.mem_singleton.mp hv ▸ le_rfl)
  rcases Nat.lt_or_eq_of_le hzx with hlt | heq
  · have := h.past_le_of_off_lt hz hmem hlt
    simp only [past] at *
    omega
  · rw [h.eq_of_off hz hmem heq] at hpast
    exact lt_irrefl _ hpast

/-- The last waiting piece is replaced by one that reaches further. -/
theorem extend {d : List α} (h : Outgoing S n m us (vs ++ [x])) (hx : x.past = m) (hm : m ≤ S.length)
    (hoff : y.off = x.off) (hy : y.From (S ++ d)) (hspan : 0 < y.span) : Outgoing (S ++ d) n y.past us (vs ++ [y]) := by
  obtain ⟨L, hp, hL⟩ := h.tiled
  obtain ⟨K, rfl, hK⟩ := hL.last (hp.mem_iff.mp (by simp)) hx
  have hle : x.off ≤ S.length := (Nat.le_add_right _ _).trans (hx.le.trans hm)
  refine ⟨⟨K ++ [y], ?_, ?_⟩, h.flight, ?_⟩
  · rw [← List.append_assoc] at hp ⊢
    exact ((List.perm_append_right_iff [x]).mp hp).append_right [y]
  · exact Tiles.append.mpr ⟨x.off, hK.grow hle d, Tiles.singleton.mpr ⟨hoff, hy, hspan, rfl⟩⟩
  · obtain ⟨h1, -, h2⟩ := List.pairwise_append.mp h.waiting
    refine List.pairwise_append.mpr ⟨h1, List.pairwise_singleton _ _, fun z hz w hw => ?_⟩
    rw [List.mem_singleton.mp hw, Leads, hoff]
    exact h2 z hz x (List.mem_singleton_self x)

end Outgoing

end Tunosocks.Foundation
