import Mathlib.Data.List.Forall2
import Tunosocks.Foundation.Outgoing
import Tunosocks.Lwip.Reassembly
import Tunosocks.Lwip.TcpSend

/-! The two queues of the sending side hold the written stream from the first byte that is
not acknowledged on. What each function does to them is what happens to the pieces. -/
namespace Tunosocks.Lwip
open Foundation Foundation.Serial Tcp
open List (Forall₂)

variable {base : BitVec 32} {S : List UInt8} {seg t : OutSeg} {ss : List OutSeg} {x y : Piece UInt8}
  {q us vs : List (Piece UInt8)} {s s' : Snd} {k a n : Nat}

/-- The segment carries the piece `x`. -/
structure OutSeg.Is (base : BitVec 32) (seg : OutSeg) (x : Piece UInt8) : Prop where
  seqno : seg.seqno = num base x.off
  bytes : seg.bytes = x.data
  len : seg.len = x.data.length
  fin : seg.fin = x.fin
  syn : seg.syn = false

theorem OutSeg.Is.tcplen (h : seg.Is base x) : seg.tcplen = x.span := by
  rw [OutSeg.tcplen, h.fin, h.syn, h.len, Piece.span]
  cases x.fin <;> rfl

private theorem OutSeg.Is.past_num (h : seg.Is base x) : seg.seqno + ofLen seg.tcplen = num base x.past := by
  rw [h.seqno, num_add_ofLen, h.tcplen, Piece.past, Nat.cast_add]

private theorem OutSeg.Is.stop_num (h : seg.Is base x) : seg.seqno + ofLen seg.len = num base x.stop := by
  rw [h.seqno, num_add_ofLen, h.len, Piece.stop, Nat.cast_add]

/-- Everything lies less than two windows behind `k`. -/
def Close (k : Nat) (q : List (Piece UInt8)) : Prop := ∀ y ∈ q, k ≤ y.off ∧ y.past ≤ k + 131072

private theorem insertSorted_is (hs : seg.Is base x) (hq : Forall₂ (OutSeg.Is base) ss q) (hx : Close k [x])
    (hc : Close k q) : Forall₂ (OutSeg.Is base) (insertSorted seg ss) (q.orderedInsert Piece.Leads x) := by
  induction hq with
  | nil => exact .cons hs .nil
  | @cons t y ss q ht hq ih =>
    have hxk := hx x (List.mem_singleton_self x)
    have hyk := hc y List.mem_cons_self
    simp only [Piece.past] at hxk hyk
    have hlt : tcpSeqLt t.seqno seg.seqno = decide (y.off < x.off) := by
      rw [hs.seqno, ht.seqno, tcpSeqLt_num (by omega)]
      simp only [Nat.cast_lt]
    rw [insertSorted, hlt]
    by_cases hoff : y.off < x.off
    · rw [if_pos (decide_eq_true hoff), List.orderedInsert_of_not_le _ q (Nat.not_le.mpr hoff)]
      exact .cons ht (ih fun z hz => hc z (List.mem_cons_of_mem y hz))
    · rw [if_neg (by simpa using hoff), List.orderedInsert_cons_of_le _ q (Nat.not_lt.mp hoff)]
      exact .cons hs (.cons ht hq)

private theorem orderedInsert_last (h : ∀ y ∈ q, y.off < x.off) : q.orderedInsert Piece.Leads x = q ++ [x] := by
  induction q with
  | nil => rfl
  | cons y q ih =>
    rw [List.orderedInsert_of_not_le _ q (Nat.not_le.mpr (h y List.mem_cons_self)),
      ih fun z hz => h z (List.mem_cons_of_mem y hz)]
    rfl

/-- The last of the segments carries the last of the pieces. -/
theorem forall₂_concat : Forall₂ (OutSeg.Is base) (ss ++ [seg]) q ↔
    ∃ q' x, q = q' ++ [x] ∧ Forall₂ (OutSeg.Is base) ss q' ∧ seg.Is base x := by
  rw [← List.forall₂_reverse_iff]
  constructor
  · intro h
    rw [List.reverse_append, List.reverse_singleton, List.singleton_append] at h
    obtain ⟨x, r, hx, hr, heq⟩ := List.forall₂_cons_left_iff.mp h
    refine ⟨r.reverse, x, ?_, List.forall₂_reverse_iff.mp (by simpa using hr), hx⟩
    rw [← List.reverse_reverse q, heq, List.reverse_cons]
  · rintro ⟨q', x, rfl, hq, hx⟩
    simpa using ⟨hx, hq⟩

private theorem insertUnacked_is (hs : seg.Is base x) (hq : Forall₂ (OutSeg.Is base) ss q) (hx : Close k [x])
    (hc : Close k q) (hord : q.Pairwise Piece.Leads) (hne : ∀ y ∈ q, y.off ≠ x.off) :
    Forall₂ (OutSeg.Is base) (Snd.insertUnacked seg ss) (q.orderedInsert Piece.Leads x) := by
  unfold Snd.insertUnacked
  rcases List.eq_nil_or_concat ss with rfl | ⟨ss, u, rfl⟩
  · cases hq
    exact .cons hs .nil
  rw [List.concat_eq_append] at hq ⊢
  obtain ⟨q, y, rfl, hss, hu⟩ := forall₂_concat.mp hq
  have hyq : y ∈ q ++ [y] := List.mem_append_right q (List.mem_singleton_self y)
  have hxk := hx x (List.mem_singleton_self x)
  have hyk := hc y hyq
  simp only [Piece.past] at hxk hyk
  have hlt : tcpSeqLt seg.seqno u.seqno = decide (x.off < y.off) := by
    rw [hs.seqno, hu.seqno, tcpSeqLt_num (by omega)]
    simp only [Nat.cast_lt]
  simp only [List.getLast?_concat, hlt, decide_eq_true_eq]
  split
  · exact insertSorted_is hs hq hx hc
  case isFalse hge =>
    have hlast := hne y hyq
    rw [orderedInsert_last]
    · exact forall₂_concat.mpr ⟨_, _, rfl, hq, hs⟩
    · intro z hz
      rcases List.mem_append.mp hz with hz' | hz'
      · have : z.off ≤ y.off := (List.pairwise_append.mp hord).2.2 z hz' y (List.mem_singleton_self y)
        omega
      · rw [List.mem_singleton.mp hz']
        omega

theorem insertSorted_perm (seg : OutSeg) (ss : List OutSeg) : (insertSorted seg ss).Perm (seg :: ss) := by
  induction ss with
  | nil => exact .refl _
  | cons t ss ih =>
    unfold insertSorted
    split
    · exact (ih.cons t).trans (.swap seg t ss)
    · exact .refl _

theorem insertUnacked_perm (seg : OutSeg) (ss : List OutSeg) : (Snd.insertUnacked seg ss).Perm (seg :: ss) := by
  unfold Snd.insertUnacked
  split
  case h_1 hnil => rw [List.getLast?_eq_none_iff.mp hnil]
  case h_2 =>
    split
    · exact insertSorted_perm seg ss
    · exact List.perm_append_singleton seg ss

/-- An acknowledgement number the block takes lies behind the last one and not beyond what was sent. -/
private theorem ackno_num {c : BitVec 32} (hle : a ≤ n) (hnear : n ≤ a + 131072)
    (hnew : tcpSeqLeq c (num base a) = false)
    (h : tcpSeqBetween c (num base a + 1) (num base n) = true) : ∃ b : Nat, c = num base b ∧ a < b ∧ b ≤ n := by
  obtain ⟨-, hleq⟩ := Bool.and_eq_true_iff.mp h
  have hlow : ¬ (c - num base a).toInt ≤ 0 := of_decide_eq_false hnew
  have hhigh := (c - num base a).toInt_lt
  have hc := num_add_toInt base c a
  generalize (c - num base a).toInt = d at *
  rw [← hc, tcpSeqLeq_num (by omega), decide_eq_true_eq] at hleq
  exact ⟨(a + d).toNat, by rw [Int.toNat_of_nonneg (by omega), hc], by omega, by omega⟩

/-- The bytes of the pieces. -/
def dataLen (q : List (Piece UInt8)) : Nat := (q.map fun x => x.data.length).sum

/-- The buffers of the segments. -/
def bufs (ss : List OutSeg) : Nat := (ss.map OutSeg.clen).sum

/-- The queues hold the stream `S` from `k` on, its first `a` places are acknowledged and the
first `n` were sent: `us` is in flight and `vs` waits. -/
structure Sending (base : BitVec 32) (S : List UInt8) (s : Snd) (k a n : Nat) (us vs : List (Piece UInt8)) : Prop where
  unacked : Forall₂ (OutSeg.Is base) s.unacked us
  unsent : Forall₂ (OutSeg.Is base) s.unsent vs
  kept : Outgoing S k (S.length + s.fin.toNat) us vs
  lastack : s.lastack = num base a
  sndNxt : s.sndNxt = num base n
  sndLbb : s.fin = false → s.sndLbb = num base S.length
  k_le : k ≤ a
  a_le : a ≤ n
  n_le : n ≤ S.length + s.fin.toNat
  live : ∀ x ∈ us ++ vs, a < x.past
  flown : ∀ x ∈ us, x.past ≤ n
  buf : s.sndBuf + dataLen (us ++ vs) = 65535
  queuelen : s.sndQueuelen = bufs (s.unacked ++ s.unsent)

/-- Nothing that waits was sent before. -/
def Fresh (n : Nat) (vs : List (Piece UInt8)) : Prop := ∀ v ∈ vs, n ≤ v.off

/-- The fields `Sending` speaks about. -/
def Snd.queues (s : Snd) : List OutSeg × List OutSeg × Bool × BitVec 32 × BitVec 32 × BitVec 32 × Nat × Nat :=
  (s.unacked, s.unsent, s.fin, s.lastack, s.sndNxt, s.sndLbb, s.sndBuf, s.sndQueuelen)

namespace Sending

theorem congr (h : Sending base S s k a n us vs) (hs : s'.queues = s.queues) : Sending base S s' k a n us vs := by
  simp only [Snd.queues, Prod.mk.injEq] at hs
  obtain ⟨h1, h2, h3, h4, h5, h6, h7, h8⟩ := hs
  exact ⟨h1 ▸ h.unacked, h2 ▸ h.unsent, h3 ▸ h.kept, h4 ▸ h.lastack, h5 ▸ h.sndNxt, h3 ▸ h6 ▸ h.sndLbb, h.k_le, h.a_le,
    h3 ▸ h.n_le, h.live, h.flown, h7 ▸ h.buf, by rw [h1, h2, h8]; exact h.queuelen⟩

theorem le_dataLen (h : Sending base S s k a n us vs) : S.length ≤ k + dataLen (us ++ vs) :=
  h.kept.le_data (Nat.le_add_right _ _)

/-- All places that matter lie within a window. -/
theorem near (h : Sending base S s k a n us vs) : S.length + s.fin.toNat ≤ k + 65536 := by
  have hfin := s.fin.toNat_le
  have hle := h.le_dataLen
  have hbuf := h.buf
  omega

theorem close (h : Sending base S s k a n us vs) : Close k (us ++ vs) := by
  intro x hx
  have hnear := h.near
  obtain ⟨-, -, hk, hpast⟩ := h.kept.cut hx
  exact ⟨hk, by omega⟩

/-- While the block is open no segment carries a FIN. -/
theorem open_ (h : Sending base S s k a n us vs) (hfin : s.fin = false) (hx : x ∈ us ++ vs) : x.fin = false := by
  obtain ⟨hcut, -, -, hpast⟩ := h.kept.cut hx
  cases hf : x.fin with
  | false => rfl
  | true =>
    have := hcut.fin hf
    simp only [hfin, Piece.past, Piece.span, Piece.stop, hf, Bool.toNat_true, Bool.toNat_false] at *
    omega

/-- The first waiting piece starts at or before the first place that was never sent. -/
private theorem head_le (h : Sending base S s k a n us (x :: vs)) : x.off ≤ n := by
  by_contra hlt
  have hmem : x ∈ us ++ x :: vs := List.mem_append_right us List.mem_cons_self
  obtain ⟨-, hspan, -, hpast⟩ := h.kept.cut hmem
  obtain ⟨z, hz, hoff, hzp⟩ := h.kept.covers (k := n) (h.k_le.trans h.a_le) (by simp only [Piece.past] at hpast; omega)
  rcases List.mem_append.mp hz with hu | hv
  · exact absurd (h.flown z hu) (Nat.not_le.mpr hzp)
  · rcases List.mem_cons.mp hv with rfl | hv
    · exact hlt hoff
    · exact hlt (((List.pairwise_cons.mp h.kept.waiting).1 z hv).trans hoff)

theorem fits_iff (h : Sending base S s k a n us vs) (hseg : seg.Is base x) (hx : x ∈ us ++ vs) :
    s.fits seg = decide (x.stop ≤ a + s.wnd) := by
  have hlive := h.live x hx
  have hclose := h.close x hx
  have hfin := x.fin.toNat_le
  have hk := h.k_le
  have hle : a ≤ x.stop := by
    simp only [Piece.past, Piece.span, Piece.stop] at *
    omega
  have hnear : x.stop ≤ a + 131072 := by
    simp only [Piece.past, Piece.span, Piece.stop] at *
    omega
  have hdist : (seg.seqno - s.lastack + ofLen seg.len).toNat = x.stop - a := by
    have hcomm : seg.seqno - s.lastack + ofLen seg.len = seg.seqno + ofLen seg.len - s.lastack := by ring
    rw [hcomm, hseg.stop_num, h.lastack, toNat_num_sub (by omega)]
    omega
  rw [Snd.fits, hdist]
  exact decide_eq_decide.mpr (by omega)

theorem dataLen_perm (h : q.Perm us) : dataLen q = dataLen us := by
  unfold dataLen
  exact (h.map _).sum_nat

private theorem bufs_perm {ss ss' : List OutSeg} (h : ss.Perm ss') : bufs ss = bufs ss' := (h.map OutSeg.clen).sum_nat

theorem of_unsent_cons {rest : List OutSeg} (h : Sending base S s k a n us vs) (hs : s.unsent = seg :: rest) :
    ∃ x vs', vs = x :: vs' ∧ seg.Is base x ∧ Forall₂ (OutSeg.Is base) rest vs' := by
  have hall := h.unsent
  rw [hs] at hall
  obtain ⟨x, vs', hx, hrest, rfl⟩ := List.forall₂_cons_left_iff.mp hall
  exact ⟨x, vs', rfl, hx, hrest⟩

/-- The first waiting segment is sent. -/
private theorem sentHead {rest : List OutSeg} (h : Sending base S s k a n us (x :: vs)) (hs : s.unsent = seg :: rest) :
    Sending base S (s.sentHead seg rest) k a (max n x.past) (us.orderedInsert Piece.Leads x) vs := by
  obtain ⟨x', vs', heq, hseg, hrest⟩ := h.of_unsent_cons hs
  cases heq
  have hmem : x ∈ us ++ x :: vs := List.mem_append_right us List.mem_cons_self
  obtain ⟨-, hspan, -, hpast⟩ := h.kept.cut hmem
  have hclose := h.close
  have hnear := h.near
  have hk := h.k_le
  have hn := h.n_le
  have hfresh : ∀ y ∈ us, y.off ≠ x.off := by
    intro y hy heq
    have hyx := h.kept.eq_of_off (List.mem_append_left _ hy) hmem heq
    exact (List.nodup_append.mp h.kept.nodup).2.2 y hy x List.mem_cons_self hyx
  have hx1 : Close k [x] := fun y hy => List.mem_singleton.mp hy ▸ hclose x hmem
  have hperm : (us.orderedInsert Piece.Leads x ++ vs).Perm (us ++ x :: vs) :=
    ((List.perm_orderedInsert Piece.Leads x us).append_right vs).trans List.perm_middle.symm
  have hpos : 0 < seg.tcplen := hseg.tcplen ▸ hspan
  have hnxt : tcpSeqLt s.sndNxt (seg.seqno + ofLen seg.tcplen) = decide (n < x.past) := by
    have ha := h.a_le
    have hxk := hclose x hmem
    have hxp : x.past = x.off + x.span := rfl
    rw [hseg.past_num, h.sndNxt, tcpSeqLt_num (by omega)]
    simp only [Nat.cast_lt]
  refine ⟨?_, hrest, h.kept.send, h.lastack, ?_, h.sndLbb, hk, ?_, ?_, ?_, ?_, ?_, ?_⟩
  · simp only [Snd.sentHead, if_pos hpos]
    exact insertUnacked_is hseg h.unacked hx1 (fun y hy => hclose y (List.mem_append_left _ hy)) h.kept.flight hfresh
  · simp only [Snd.sentHead, hnxt, decide_eq_true_eq]
    split
    case isTrue hlt => rw [hseg.past_num, Nat.max_eq_right hlt.le]
    case isFalse hge => rw [h.sndNxt, Nat.max_eq_left (Nat.not_lt.mp hge)]
  · exact h.a_le.trans (Nat.le_max_left _ _)
  · exact Nat.max_le.mpr ⟨hn, hpast⟩
  · exact fun y hy => h.live y (hperm.mem_iff.mp hy)
  · intro y hy
    rcases (List.mem_orderedInsert Piece.Leads).mp hy with rfl | hy
    · exact Nat.le_max_right _ _
    · exact (h.flown y hy).trans (Nat.le_max_left _ _)
  · rw [dataLen_perm hperm]
    exact h.buf
  · simp only [Snd.sentHead, if_pos hpos]
    rw [bufs_perm (((insertUnacked_perm seg s.unacked).append_right rest).trans List.perm_middle.symm), ← hs]
    exact h.queuelen

/-- The segment carries a piece of the stream, which ends at or before `limit`. -/
structure Carries (base : BitVec 32) (S : List UInt8) (fin : Bool) (limit : Nat) (seg : OutSeg) (x : Piece UInt8) :
    Prop where
  is : seg.Is base x
  cut : x.From S
  fin : x.fin = true → fin = true
  within : x.stop ≤ limit

private theorem carries (h : Sending base S s k a n us vs) (hseg : seg.Is base x) (hx : x ∈ us ++ vs) {limit : Nat}
    (hlim : x.stop ≤ limit) : Carries base S s.fin limit seg x := by
  refine ⟨hseg, (h.kept.cut hx).1, fun hf => ?_, hlim⟩
  cases hfin : s.fin with
  | true => rfl
  | false => exact (h.open_ hfin hx).symm.trans hf

/-- Segments go out that carry pieces of the stream inside the window, and no place is skipped. -/
structure Puts (base : BitVec 32) (S : List UInt8) (s : Snd) (k a n : Nat) (us vs : List (Piece UInt8)) (s' : Snd)
    (out : List OutSeg) (n' : Nat) (us' vs' : List (Piece UInt8)) : Prop where
  state : Sending base S s' k a n' us' vs'
  le : n ≤ n'
  same : (us' ++ vs').Perm (us ++ vs)
  carried : ∀ seg ∈ out, ∃ x, Carries base S s.fin (a + s.wnd) seg x
  whole : ∀ p, n ≤ p → p < n' → ∃ seg ∈ out, ∃ x, seg.Is base x ∧ x.off ≤ p ∧ p < x.past
  fresh : Fresh n vs → Fresh n' vs'
  flight : ∀ x ∈ us', x ∈ us ∨ x.stop ≤ a + s.wnd

/-- All that fits went out, and with it the first waiting piece, which may have been sent before. -/
structure Drains (s : Snd) (a n : Nat) (vs : List (Piece UInt8)) (n' : Nat) (vs' : List (Piece UInt8)) : Prop where
  left : ∀ x ∈ vs'.head?, a + s.wnd < x.stop
  again : (∀ x ∈ vs.head?, x.stop ≤ a + s.wnd) → Fresh n vs.tail → Fresh n' vs'

private theorem drainsNothing (h : ∀ x ∈ vs.head?, a + s.wnd < x.stop) : Drains s a n vs n vs := by
  refine ⟨h, fun hfit _ => ?_⟩
  cases vs with
  | nil => exact List.forall_mem_nil _
  | cons x vs => exact absurd (h x rfl) (Nat.not_lt.mpr (hfit x rfl))

private theorem putsNothing (h : Sending base S s k a n us vs) (hs : s'.queues = s.queues) :
    Puts base S s k a n us vs s' [] n us vs :=
  ⟨h.congr hs, le_rfl, .refl _, List.forall_mem_nil _, fun _ hp hp' => absurd hp' (Nat.not_lt.mpr hp), id,
    fun _ => .inl⟩

/-- What follows the first waiting piece lies behind it. -/
private theorem fresh_tail (h : Sending base S s k a n us (x :: vs)) (hf : Fresh n vs) : Fresh (max n x.past) vs := by
  intro v hv
  have hxm : x ∈ us ++ x :: vs := List.mem_append_right us List.mem_cons_self
  have hvm : v ∈ us ++ x :: vs := List.mem_append_right us (List.mem_cons_of_mem x hv)
  have hle : x.off ≤ v.off := (List.pairwise_cons.mp h.kept.waiting).1 v hv
  have hne : x.off ≠ v.off := by
    intro heq
    have hxv := h.kept.eq_of_off hxm hvm heq
    exact (List.nodup_cons.mp (List.nodup_append.mp h.kept.nodup).2.1).1 (hxv ▸ hv)
  exact Nat.max_le.mpr ⟨hf v hv, h.kept.past_le_of_off_lt hxm hvm (Nat.lt_of_le_of_ne hle hne)⟩

private theorem outputLoop {l : List OutSeg} (h : Sending base S s k a n us vs) (hs : s.unsent = l) (ok : Nat) :
    ∃ n' us' vs', Puts base S s k a n us vs (Snd.outputLoop l ok s).1 (Snd.outputLoop l ok s).2.1 n' us' vs' ∧
      (s.nodelay = true → (Snd.outputLoop l ok s).2.1.length < ok → Drains s a n vs n' vs') := by
  induction l generalizing s n us vs ok with
  | nil =>
    have hall := h.unsent
    rw [hs] at hall
    cases hall
    exact ⟨n, us, [], h.putsNothing rfl, fun _ _ => drainsNothing fun _ hx => by cases hx⟩
  | cons seg rest ih =>
    obtain ⟨x, vs, rfl, hseg, hrest⟩ := h.of_unsent_cons hs
    have hmem : x ∈ us ++ x :: vs := List.mem_append_right us List.mem_cons_self
    have hfits := h.fits_iff hseg hmem
    unfold Snd.outputLoop
    split
    case isFalse hgo =>
      refine ⟨n, us, x :: vs, h.putsNothing rfl, fun hno _ => drainsNothing fun y hy => ?_⟩
      cases hy
      simp only [hfits, Snd.tcpDoOutputNagle, hno, Bool.or_true, Bool.true_or, Bool.and_true, decide_eq_true_eq] at hgo
      exact Nat.not_le.mp hgo
    case isTrue hgo =>
      cases ok with
      | zero => exact ⟨n, us, x :: vs, h.putsNothing rfl, fun _ hlt => absurd hlt (Nat.not_lt_zero _)⟩
      | succ ok =>
        have hfit := (Bool.and_eq_true_iff.mp hgo).1
        rw [hfits, decide_eq_true_eq] at hfit
        have hnext := (h.congr (show s.startTimer.queues = s.queues from rfl)).sentHead hs
        obtain ⟨n', us', vs', hput, hdrain⟩ := ih hnext rfl ok
        refine ⟨n', us', vs', ⟨hput.state, (Nat.le_max_left _ _).trans hput.le, hput.same.trans ?_, ?_, ?_,
          fun hf => hput.fresh (h.fresh_tail fun v hv => hf v (List.mem_cons_of_mem x hv)), fun y hy => ?_⟩,
          fun hno hlt => ⟨(hdrain hno (Nat.lt_of_succ_lt_succ hlt)).left, fun _ hf => hput.fresh (h.fresh_tail hf)⟩⟩
        · exact ((List.perm_orderedInsert Piece.Leads x us).append_right vs).trans List.perm_middle.symm
        · exact List.forall_mem_cons.mpr ⟨⟨x, h.carries hseg hmem hfit⟩, hput.carried⟩
        · intro p hp hp'
          by_cases hpast : p < x.past
          · exact ⟨seg, List.mem_cons_self, x, hseg, h.head_le.trans hp, hpast⟩
          · obtain ⟨t, ht, hy⟩ := hput.whole p (Nat.max_le.mpr ⟨hp, Nat.not_lt.mp hpast⟩) hp'
            exact ⟨t, List.mem_cons_of_mem seg ht, hy⟩
        · rcases hput.flight y hy with hy | hle
          · rcases (List.mem_orderedInsert Piece.Leads).mp hy with rfl | hy
            · exact .inr hfit
            · exact .inl hy
          · exact .inr hle

theorem tcpOutput (h : Sending base S s k a n us vs) (ackNow : Bool) (ok : Nat) :
    ∃ n' us' vs', Puts base S s k a n us vs (s.tcpOutput ackNow ok).1 (s.tcpOutput ackNow ok).2.1 n' us' vs' ∧
      (s.nodelay = true → (s.tcpOutput ackNow ok).2.1.length < ok → Drains s a n vs n' vs') := by
  have idle : (∀ x ∈ vs.head?, a + s.wnd < x.stop) → ∃ n' us' vs',
      Puts base S s k a n us vs (s.nothingToSend ackNow).1 (s.nothingToSend ackNow).2.1 n' us' vs' ∧
        (s.nodelay = true → (s.nothingToSend ackNow).2.1.length < ok → Drains s a n vs n' vs') := by
    intro hleft
    cases ackNow <;> exact ⟨n, us, vs, h.putsNothing rfl, fun _ _ => drainsNothing hleft⟩
  unfold Snd.tcpOutput
  split
  case h_1 hs =>
    have hall := h.unsent
    rw [hs] at hall
    cases hall
    exact idle fun _ hx => by cases hx
  case h_2 seg rest hs =>
    obtain ⟨x, vs, rfl, hseg, -⟩ := h.of_unsent_cons hs
    split
    case isFalse hfit =>
      rw [h.fits_iff hseg (List.mem_append_right us List.mem_cons_self), decide_eq_true_eq] at hfit
      refine idle fun y hy => ?_
      cases hy
      exact Nat.not_le.mp hfit
    case isTrue =>
      obtain ⟨n', us', vs', hput, hdrain⟩ := h.outputLoop hs ok
      refine ⟨n', us', vs', ⟨?_, hput.le, hput.same, hput.carried, hput.whole, hput.fresh, hput.flight⟩, hdrain⟩
      dsimp only
      split
      · exact hput.state.congr rfl
      · exact hput.state

/-- The first segment in flight is put back. -/
theorem tcpRexmit (h : Sending base S s k a n us vs) (hs : s.tcpRexmit = some s') :
    ∃ x us', us = x :: us' ∧ Sending base S s' k a n us' (vs.orderedInsert Piece.Leads x) := by
  unfold Snd.tcpRexmit at hs
  split at hs
  case h_1 => cases hs
  case h_2 seg rest hun =>
    cases hs
    have hall := h.unacked
    rw [hun] at hall
    obtain ⟨x, us', hseg, hrest, rfl⟩ := List.forall₂_cons_left_iff.mp hall
    have hclose := h.close
    have hperm : (us' ++ vs.orderedInsert Piece.Leads x).Perm (x :: us' ++ vs) :=
      ((List.perm_orderedInsert Piece.Leads x vs).append_left us').trans List.perm_middle
    have hx1 : Close k [x] := fun y hy => List.mem_singleton.mp hy ▸ hclose x List.mem_cons_self
    refine ⟨x, us', rfl, hrest, ?_, h.kept.requeue, h.lastack, h.sndNxt, h.sndLbb, h.k_le, h.a_le, h.n_le,
      ?_, ?_, ?_, ?_⟩
    · exact insertSorted_is hseg h.unsent hx1 fun y hy => hclose y (List.mem_append_right _ hy)
    · exact fun y hy => h.live y (hperm.mem_iff.mp hy)
    · exact fun y hy => h.flown y (List.mem_cons_of_mem x hy)
    · rw [dataLen_perm hperm]
      exact h.buf
    · have hbufs := bufs_perm (((insertSorted_perm seg s.unsent).append_left rest).trans List.perm_middle)
      rw [hbufs, ← List.cons_append, ← hun]
      exact h.queuelen

private theorem tcpRexmitFast (h : Sending base S s k a n us vs) :
    ∃ us' vs', Sending base S s.tcpRexmitFast k a n us' vs' ∧ (us' ++ vs').Perm (us ++ vs) := by
  unfold Snd.tcpRexmitFast
  split
  · exact ⟨us, vs, h, .refl _⟩
  split
  case h_1 => exact ⟨us, vs, h, .refl _⟩
  case h_2 s1 hs1 =>
    obtain ⟨x, us', rfl, h1⟩ := h.tcpRexmit hs1
    refine ⟨us', _, h1.congr rfl, ?_⟩
    exact ((List.perm_orderedInsert Piece.Leads x vs).append_left us').trans List.perm_middle

theorem dupAck (h : Sending base S s k a n us vs) :
    ∃ us' vs', Sending base S s.dupAck k a n us' vs' ∧ (us' ++ vs').Perm (us ++ vs) := by
  unfold Snd.dupAck
  extract_lets s1 s2
  have h2 : Sending base S s2 k a n us vs := by
    refine h.congr ?_
    show (if 3 < s1.dupacks then { s1 with cwnd := wndInc s1.cwnd s1.mss } else s1).queues = s.queues
    split <;> exact rfl
  split
  · exact h2.tcpRexmitFast
  · exact ⟨us, vs, h2, .refl _⟩

end Sending

theorem dataLen_append (q us : List (Piece UInt8)) : dataLen (q ++ us) = dataLen q + dataLen us := by
  simp [dataLen]

theorem bufs_append (ss ss' : List OutSeg) : bufs (ss ++ ss') = bufs ss + bufs ss' := by
  simp [bufs]

/-- The segments that lie before the acknowledged place go, and nothing else. -/
private theorem tcpFreeAckedSegments_is (hq : Forall₂ (OutSeg.Is base) ss q) {b : Nat} (hb : k ≤ b ∧ b ≤ k + 131072)
    (hc : Close k q) (queuelen acked : Nat) (hlen : bufs ss ≤ queuelen) (hacked : acked + dataLen q < 65536) :
    ∃ ss' queuelen' acked', Snd.tcpFreeAckedSegments (num base b) ss queuelen acked = some (ss', queuelen', acked') ∧
      Forall₂ (OutSeg.Is base) ss' (q.dropWhile fun x => x.past ≤ b) ∧ queuelen' + bufs ss = queuelen + bufs ss' ∧
      acked' + dataLen (q.dropWhile fun x => x.past ≤ b) = acked + dataLen q := by
  induction hq generalizing queuelen acked with
  | nil => exact ⟨[], queuelen, acked, rfl, .nil, rfl, rfl⟩
  | @cons seg x ss q hseg hq ih =>
    have hx := hc x List.mem_cons_self
    have hxp : x.past = x.off + x.span := rfl
    have hle : tcpSeqLeq (seg.seqno + ofLen seg.tcplen) (num base b) = decide (x.past ≤ b) := by
      rw [hseg.past_num, tcpSeqLeq_num (by omega)]
      simp only [Nat.cast_le]
    have hbufs : bufs (seg :: ss) = seg.clen + bufs ss := by simp [bufs]
    have hdata : dataLen (x :: q) = seg.len + dataLen q := by simp [dataLen, hseg.len]
    by_cases hpast : x.past ≤ b
    · obtain ⟨ss', queuelen', acked', heq, hss, h1, h2⟩ := ih (fun y hy => hc y (List.mem_cons_of_mem x hy))
        (queuelen - seg.clen) ((acked + seg.len) % 65536) (by omega) (by omega)
      have hdrop : (x :: q).dropWhile (fun x => x.past ≤ b) = q.dropWhile fun x => x.past ≤ b := by simp [hpast]
      rw [hdrop]
      refine ⟨ss', queuelen', acked', ?_, hss, by omega, by omega⟩
      rw [Snd.tcpFreeAckedSegments, hle, if_pos (decide_eq_true hpast), if_pos (by omega), heq]
    · have hdrop : (x :: q).dropWhile (fun x => x.past ≤ b) = x :: q := by simp [hpast]
      rw [hdrop]
      refine ⟨seg :: ss, queuelen, acked, ?_, .cons hseg hq, rfl, rfl⟩
      rw [Snd.tcpFreeAckedSegments, hle, if_neg (by simpa using hpast)]

namespace Sending

/-- What is acknowledged leaves both queues, and its room is free again. -/
private theorem freeAcked {b : Nat} (h : Sending base S s k a n us vs) (hab : a ≤ b) (hbn : b ≤ n) (s0 : Snd)
    (hs : ({ s0 with lastack := s.lastack } : Snd).queues = s.queues) (hb : s0.lastack = num base b) :
    ∃ s' k' acked, s0.freeAcked (num base b) = some (s', acked) ∧
      Sending base S s' k' b n (us.dropWhile fun x => x.past ≤ b) (vs.dropWhile fun x => x.past ≤ b) ∧
      s'.sndBuf = s.sndBuf + acked := by
  simp only [Snd.queues, Prod.mk.injEq] at hs
  obtain ⟨h1, h2, h3, -, h5, h6, h7, h8⟩ := hs
  have hk := h.k_le
  have hn := h.n_le
  have hnear := h.near
  have hclose := h.close
  have hbuf := h.buf
  have hqlen := h.queuelen
  rw [dataLen_append] at hbuf
  rw [bufs_append] at hqlen
  obtain ⟨k', hkk, hkb, hkept, hlive⟩ := h.kept.release (a := b) (by omega)
  obtain ⟨ss1, q1, a1, heq1, hss1, hq1, ha1⟩ := tcpFreeAckedSegments_is h.unacked (b := b) (k := k) (by omega)
    (fun x hx => hclose x (List.mem_append_left _ hx)) s.sndQueuelen 0 (by omega) (by omega)
  obtain ⟨ss2, q2, a2, heq2, hss2, hq2, ha2⟩ := tcpFreeAckedSegments_is h.unsent (b := b) (k := k) (by omega)
    (fun x hx => hclose x (List.mem_append_right _ hx)) q1 a1 (by omega) (by omega)
  refine ⟨{ s0 with
    unacked := ss1, unsent := ss2, sndQueuelen := q2, rtime := if ss1 = [] then -1 else 0,
    sndBuf := (s.sndBuf + a2) % 65536 }, k', a2, ?_, ?_, Nat.mod_eq_of_lt (by omega)⟩
  · rw [Snd.freeAcked, h1, h2, h8, heq1]
    simp only [Option.bind_eq_bind, Option.bind_some]
    rw [heq2, h7]
    rfl
  · refine ⟨hss1, hss2, ?_, hb, h5.trans h.sndNxt, ?_, hkb, hbn, ?_, hlive, ?_, ?_, ?_⟩
    · simp only [h3]
      exact hkept
    · simp only [h3, h6]
      exact h.sndLbb
    · simp only [h3]
      exact hn
    · exact fun x hx => h.flown x ((List.dropWhile_suffix _).subset hx)
    · simp only [dataLen_append]
      omega
    · simp only [bufs_append]
      omega

theorem leaveInfr_same (s : Snd) : s.leaveInfr.queues = s.queues := by
  unfold Snd.leaveInfr
  split <;> exact rfl

theorem growCwnd_same (s : Snd) (acked : Nat) : (s.growCwnd acked).queues = s.queues := by
  unfold Snd.growCwnd
  split
  · exact rfl
  · dsimp only
    split <;> exact rfl

theorem updateWnd_same (s : Snd) (hdr : AckHdr) : (s.updateWnd hdr).queues = s.queues := by
  unfold Snd.updateWnd
  split <;> exact rfl

/-- An acknowledgement is a duplicate, or it changes nothing that is queued, or it is new and lets go of what
was sent before it. -/
theorem tcpReceiveAck_cases (h : Sending base S s k a n us vs) (hdr : AckHdr) :
    (hdr.tcplen = 0 ∧ s.tcpReceiveAck hdr = some ((s.updateWnd hdr).dupAck, 0, false)) ∨
      (∃ s' ack, s.tcpReceiveAck hdr = some (s', 0, ack) ∧ s'.queues = s.queues) ∨
      ∃ s' acked k' b, s.tcpReceiveAck hdr = some (s', acked, false) ∧ a < b ∧ b ≤ n ∧ s'.sndBuf = s.sndBuf + acked ∧
        Sending base S s' k' b n (us.dropWhile fun x => x.past ≤ b) (vs.dropWhile fun x => x.past ≤ b) := by
  have hsame := updateWnd_same s hdr
  have h1 := h.congr hsame
  have hnear := h.near
  have hk := h.k_le
  have hn := h.n_le
  simp only [Snd.tcpReceiveAck]
  split
  case isTrue =>
    split
    case isTrue hdup => exact .inl ⟨hdup.1, rfl⟩
    case isFalse => exact .inr (.inl ⟨_, _, rfl, hsame⟩)
  case isFalse hnew =>
    split
    case isFalse => exact .inr (.inl ⟨_, _, rfl, hsame⟩)
    case isTrue hbet =>
      rw [h1.lastack] at hnew
      rw [h1.lastack, h1.sndNxt] at hbet
      obtain ⟨b, hb, hab, hbn⟩ := ackno_num h.a_le (by omega) (by simpa using hnew) hbet
      have hq := (growCwnd_same _ ((hdr.ackno - (s.updateWnd hdr).lastack).toNat % 65536)).trans
        (leaveInfr_same (s.updateWnd hdr))
      simp only [Snd.queues, Prod.mk.injEq] at hq hsame
      obtain ⟨s', k', acked, heq, h2, hbuf⟩ := h1.freeAcked hab.le hbn
        { (s.updateWnd hdr).leaveInfr.growCwnd ((hdr.ackno - (s.updateWnd hdr).lastack).toNat % 65536) with
          dupacks := 0, lastack := hdr.ackno } (by simp only [Snd.queues, hq]) hb
      refine .inr (.inr ⟨s', acked, k', b, ?_, hab, hbn, by rw [hbuf, hsame.2.2.2.2.2.2.1], h2⟩)
      rw [Snd.ackNew]
      rw [← hb] at heq
      rw [heq]
      rfl

end Sending

end Tunosocks.Lwip
