import Mathlib.Data.List.Forall2
import Tunosocks.Foundation.Reassembly
import Tunosocks.Lwip.TcpReceive

/-! `tcp_receive` on sequence numbers does what a receiver of numbered pieces does, as long
as the segments are less than a quarter of the sequence space away. -/
namespace Tunosocks.Lwip
open Foundation Foundation.Serial Tcp
open List (Forall₂)

section Comparisons
variable {base : BitVec 32} {i j k : Int}

@[simp] theorem num_add_ofLen (n : Nat) : num base i + ofLen n = num base (i + n) := num_add_ofNat base i n

@[simp] private theorem ofLen_add_num (n : Nat) : ofLen n + num base i = num base (i + n) := by
  rw [BitVec.add_comm, num_add_ofLen]

@[simp] theorem num_add_one : num base i + 1 = num base (i + 1) := num_add_ofNat base i 1

@[simp] private theorem num_sub_one : num base i - 1 = num base (i - 1) := num_sub_ofNat base i 1

private theorem toInt_num_sub (h : -2147483648 ≤ i - j ∧ i - j < 2147483648) :
    (num base i - num base j).toInt = i - j := by
  rw [num_sub_num]
  exact toInt_ofInt_near (by omega)

theorem toNat_num_sub (h : j ≤ i ∧ i - j < 4294967296) : (num base i - num base j).toNat = (i - j).toNat := by
  have := @toNat_ofInt_ahead 32 (i - j) (by omega)
  rw [num_sub_num]
  omega

theorem tcpSeqLt_num (h : -2147483648 ≤ i - j ∧ i - j < 2147483648) :
    tcpSeqLt (num base i) (num base j) = decide (i < j) := by
  rw [tcpSeqLt, toInt_num_sub h]
  exact decide_eq_decide.mpr (by omega)

theorem tcpSeqLeq_num (h : -2147483648 ≤ i - j ∧ i - j < 2147483648) :
    tcpSeqLeq (num base i) (num base j) = decide (i ≤ j) := by
  rw [tcpSeqLeq, toInt_num_sub h]
  exact decide_eq_decide.mpr (by omega)

theorem tcpSeqGt_num (h : -2147483648 ≤ i - j ∧ i - j < 2147483648) :
    tcpSeqGt (num base i) (num base j) = decide (j < i) := by
  rw [tcpSeqGt, toInt_num_sub h]
  exact decide_eq_decide.mpr (by omega)

theorem tcpSeqGeq_num (h : -2147483648 ≤ i - j ∧ i - j < 2147483648) :
    tcpSeqGeq (num base i) (num base j) = decide (j ≤ i) := by
  rw [tcpSeqGeq, toInt_num_sub h]
  exact decide_eq_decide.mpr (by omega)

theorem tcpSeqBetween_num (h : -2147483648 ≤ i - j ∧ i - j < 2147483648)
    (h' : -2147483648 ≤ i - k ∧ i - k < 2147483648) :
    tcpSeqBetween (num base i) (num base j) (num base k) = decide (j ≤ i ∧ i ≤ k) := by
  rw [tcpSeqBetween, tcpSeqGeq_num h, tcpSeqLeq_num h', Bool.decide_and]

theorem num_eq_num (h : -2147483648 ≤ i - j ∧ i - j < 2147483648) : num base i = num base j ↔ i = j :=
  num_inj (by omega) (by omega)

private theorem distance16_num {m n : Nat} (h : n ≤ m ∧ m < n + 65536) :
    distance16 (num base m) (num base n) = m - n := by
  rw [distance16, toNat_num_sub (by omega)]
  omega

end Comparisons

variable {base : BitVec 32} {x y : Piece UInt8} {q : List (Piece UInt8)} {s t : TcpSeg} {ss : List TcpSeg}
  {r r' : Rcv} {R : Receiver UInt8} {S : List UInt8}

/-- The segment `s` is the piece `x` of the stream whose first byte has number `base`. -/
structure TcpSeg.Is (base : BitVec 32) (s : TcpSeg) (x : Piece UInt8) : Prop where
  seqno : s.seqno = num base x.off
  bytes : s.p.bytes = x.data
  len : s.len = x.data.length
  fin : s.fin = x.fin
  syn : s.syn = false
  short : s.len < 65535

namespace TcpSeg.Is

theorem tcplen (h : s.Is base x) : s.tcplen = x.span := by
  rw [TcpSeg.tcplen, h.len, h.fin, h.syn, Piece.span]
  cases x.fin <;> rfl

private theorem tcplen_mod (h : s.Is base x) : s.tcplen % 65536 = x.span := by
  have := h.short
  rw [h.tcplen, Piece.span, ← h.len]
  cases x.fin <;> simp <;> omega

theorem span_le (h : s.Is base x) : x.span ≤ 65535 := by
  have := h.short
  have := h.len
  have := x.fin.toNat_le
  rw [Piece.span]
  omega

private theorem stop_eq (h : s.Is base x) : x.stop = x.off + s.len := by rw [Piece.stop, h.len]

private theorem shorten (h : s.Is base x) {n : Nat} (hn : x.off ≤ n) (hn' : n ≤ x.stop) :
    (s.shorten (n - x.off)).Is base (x.before n) where
  seqno := h.seqno
  bytes := by simp [TcpSeg.shorten, Piece.before, h.bytes]
  len := by
    rw [h.stop_eq, h.len] at hn'
    simp only [TcpSeg.shorten, Piece.before, List.length_take]
    omega
  fin := h.fin
  syn := h.syn
  short := by
    have := h.short
    rw [h.stop_eq] at hn'
    simp only [TcpSeg.shorten]
    omega

private theorem open_ (h : s.Is base x) : ({ s with fin := false } : TcpSeg).Is base { x with fin := false } :=
  ⟨h.seqno, h.bytes, h.len, rfl, h.syn, h.short⟩

private theorem withFin (h : s.Is base x) (h' : t.Is base y) :
    (if t.fin then { s with fin := true } else s).Is base { x with fin := x.fin || y.fin } := by
  rw [h'.fin]
  cases y.fin with
  | true => exact ⟨h.seqno, h.bytes, h.len, by simp, h.syn, h.short⟩
  | false => exact ⟨h.seqno, h.bytes, h.len, by simpa using h.fin, h.syn, h.short⟩

end TcpSeg.Is

/-- The number behind the last byte. -/
private theorem TcpSeg.Is.end_num (h : s.Is base x) : s.seqno + ofLen s.len = num base x.stop := by
  rw [h.seqno, num_add_ofLen, h.stop_eq, Nat.cast_add]

/-- Where the pieces lie: not before `x`, and less than a window ahead. -/
def Follows (x : Piece UInt8) (q : List (Piece UInt8)) : Prop := ∀ y ∈ q, x.off ≤ y.off ∧ y.off < x.off + 65535

private theorem replaceCovered_is (hs : s.Is base x) (hq : Forall₂ (TcpSeg.Is base) ss q) (hx : Follows x q) :
    Forall₂ (TcpSeg.Is base) (replaceCovered s ss) (Reassembly.swallow x q) := by
  induction hq generalizing s x with
  | nil => exact .cons hs .nil
  | @cons t y ss q ht hq ih =>
    have hy := hx y List.mem_cons_self
    have hslen := hs.short
    have htlen := ht.short
    have hsstop := hs.stop_eq
    have htstop := ht.stop_eq
    simp only [replaceCovered, Reassembly.swallow, hs.end_num, ht.end_num]
    have hd : distance16 t.seqno s.seqno = y.off - x.off := by
      rw [hs.seqno, ht.seqno, distance16_num (by omega)]
    rw [tcpSeqGeq_num (by omega), hd, ht.seqno, tcpSeqGt_num (by omega)]
    simp only [decide_eq_true_eq, Nat.cast_le, Nat.cast_lt]
    split
    · exact ih (hs.withFin ht) fun z hz => hx z (List.mem_cons_of_mem y hz)
    · split
      case isTrue hlt => exact .cons (hs.shorten hy.1 hlt.le) (.cons ht hq)
      · exact .cons hs (.cons ht hq)

private theorem tcpOosInsertSegment_is (hs : s.Is base x) (hq : Forall₂ (TcpSeg.Is base) ss q) (hx : Follows x q) :
    Forall₂ (TcpSeg.Is base) (tcpOosInsertSegment s ss) (Reassembly.overlay x q) := by
  rw [tcpOosInsertSegment, Reassembly.overlay, hs.fin]
  split
  · exact .cons hs .nil
  · exact replaceCovered_is hs hq hx

private theorem giveWay_is (hs : s.Is base x) (ht : t.Is base y) (hlt : x.off < y.off) (hnear : y.off < x.off + 65535) :
    (s.giveWay t.seqno).Is base (x.before y.off) := by
  have hslen := hs.short
  have hsstop := hs.stop_eq
  have hd : distance16 t.seqno s.seqno = y.off - x.off := by
    rw [hs.seqno, ht.seqno, distance16_num (by omega)]
  rw [TcpSeg.giveWay, hd, hs.end_num, ht.seqno, tcpSeqGt_num (by omega)]
  simp only [decide_eq_true_eq, Nat.cast_lt]
  split
  case isTrue h => exact hs.shorten hlt.le h.le
  case isFalse h =>
    rw [Piece.before_of_stop_le (by omega)]
    exact hs

/-- The receiving side `r` is at the place where `R` is. -/
structure Rcv.Is (base : BitVec 32) (r : Rcv) (R : Receiver UInt8) : Prop where
  nxt : r.rcvNxt = num base R.nxt
  wnd : r.rcvWnd = R.wnd
  wnd_le : R.wnd ≤ 65535
  ooseq : Forall₂ (TcpSeg.Is base) r.ooseq R.queue

private theorem Rcv.Is.edge (h : r.Is base R) : r.rcvNxt + ofLen r.rcvWnd = num base R.edge := by
  rw [h.nxt, num_add_ofLen, h.wnd, Receiver.edge, Nat.cast_add]

theorem Rcv.Is.edge_le (h : r.Is base R) : R.edge ≤ R.nxt + 65535 := Nat.add_le_add_left h.wnd_le R.nxt

private theorem TcpSeg.Is.tcplen_num (h : s.Is base x) : s.seqno + ofLen s.tcplen = num base ↑(x.off + x.span) := by
  rw [h.seqno, num_add_ofLen, h.tcplen, Nat.cast_add]

/-- A segment that overruns `limit` cut down to it. -/
private theorem shorten_clip (hs : s.Is base x) {limit : Nat} (hle : x.off ≤ limit) (hover : limit < x.off + x.span) :
    ({ s with fin := false }.shorten (limit - x.off)).Is base (x.clip limit) ∧
      s.seqno + ofLen (({ s with fin := false }.shorten (limit - x.off)).tcplen % 65536) = num base limit := by
  have hcut : ({ s with fin := false }.shorten (limit - x.off)).Is base (x.clip limit) := by
    rw [Piece.clip, if_pos hover]
    exact hs.open_.shorten hle (Piece.le_stop_of_lt_span hover : limit ≤ x.stop)
  refine ⟨hcut, ?_⟩
  have hspan : (x.clip limit).span = limit - x.off := by
    have := Piece.le_stop_of_lt_span hover
    simp only [Piece.stop] at this
    rw [Piece.clip, if_pos hover]
    simp only [Piece.span, Piece.before, List.length_take, Bool.toNat_false]
    omega
  rw [hcut.tcplen_mod, hspan, hs.seqno, num_add_ofLen]
  congr 1
  omega

private theorem clipToWnd_is (hr : r.Is base R) (hs : s.Is base x) (hx : R.nxt < x.off ∧ x.off < R.edge) :
    ∃ s', r.clipToWnd s = some s' ∧ s'.Is base (x.clip R.edge) := by
  have hedge := hr.edge_le
  have hspan := hs.span_le
  have hd : distance16 (num base R.edge) s.seqno = R.edge - x.off := by
    rw [hs.seqno, distance16_num (by omega)]
  have hgt : tcpSeqGt (ofLen s.tcplen + s.seqno) (num base R.edge) = decide (R.edge < x.off + x.span) := by
    rw [BitVec.add_comm, hs.tcplen_num, tcpSeqGt_num (by omega)]
    simp only [Nat.cast_lt]
  rw [Rcv.clipToWnd, hr.edge, hgt, hd]
  simp only [decide_eq_true_eq]
  split
  case isTrue hover =>
    obtain ⟨hcut, hend⟩ := shorten_clip hs hx.2.le hover
    exact ⟨_, if_pos hend, hcut⟩
  case isFalse hfit => exact ⟨s, rfl, by rwa [Piece.clip_of_le (Nat.not_lt.mp hfit)]⟩

private theorem follows_of_head (hr : r.Is base R) (hx : R.nxt < x.off ∧ x.off < R.edge)
    (hord : Reassembly.Ordered (y :: q)) (hall : ∀ z ∈ y :: q, R.nxt < z.off ∧ z.off < R.edge) (h : x.off ≤ y.off) :
    Follows x (y :: q) := by
  have hedge := hr.edge_le
  intro z hz
  have hz' := hall z hz
  rcases List.mem_cons.mp hz with rfl | hz
  · omega
  · have := hord.before_of_mem hz
    omega

section Walk
variable (hr : r.Is base R) (hs : s.Is base x) (hx : R.nxt < x.off ∧ x.off < R.edge)
include hr hs hx

private theorem oosLast_is (ht : t.Is base y) (hy : R.nxt < y.off ∧ y.off < R.edge) (hlt : y.off < x.off) :
    ∃ ss', r.oosLast s true t = some ss' ∧ Forall₂ (TcpSeg.Is base) ss' (Reassembly.insert R.edge x [y]) := by
  have hedge := hr.edge_le
  have hgt : tcpSeqGt s.seqno t.seqno = true := by
    rw [hs.seqno, ht.seqno, tcpSeqGt_num (by omega)]
    simpa using hlt
  rw [Rcv.oosLast, hgt, ht.fin, Reassembly.insert_last hlt]
  cases y.fin with
  | true => exact ⟨[t], rfl, .cons ht .nil⟩
  | false =>
    obtain ⟨s', hs', hcut⟩ := clipToWnd_is hr hs hx
    refine ⟨[t.giveWay s.seqno, s'], by simp [hs'], .cons ?_ (.cons hcut .nil)⟩
    exact giveWay_is ht hs hlt (by omega)

/-- The part of a round of the walk in which the segment goes behind `t`. -/
private theorem oosAfter_is (ht : t.Is base y) (hq : Forall₂ (TcpSeg.Is base) ss q)
    (hord : Reassembly.Ordered (y :: q)) (hall : ∀ z ∈ y :: q, R.nxt < z.off ∧ z.off < R.edge) (hlt : y.off < x.off) :
    ∃ ss', (if ss.isEmpty then r.oosLast s true t else r.oosWalk s true (some t) ss) = some ss' ∧
      Forall₂ (TcpSeg.Is base) ss' (Reassembly.insert R.edge x (y :: q)) := by
  have hedge := hr.edge_le
  induction hq generalizing t y with
  | nil => exact oosLast_is hr hs hx ht (hall y List.mem_cons_self) hlt
  | @cons u z ss q hu hq ih =>
    have hy := hall y List.mem_cons_self
    have hz := hall z (List.mem_cons_of_mem y List.mem_cons_self)
    have heq : s.seqno = u.seqno ↔ x.off = z.off := by
      rw [hs.seqno, hu.seqno, num_eq_num (by omega), Nat.cast_inj]
    have hbet : tcpSeqBetween s.seqno (t.seqno + 1) (u.seqno - 1) = decide (x.off < z.off) := by
      rw [hs.seqno, ht.seqno, hu.seqno, num_add_one, num_sub_one, tcpSeqBetween_num (by omega) (by omega)]
      exact decide_eq_decide.mpr (by omega)
    have hins := fun h => tcpOosInsertSegment_is hs (.cons hu hq)
      (follows_of_head hr hx (List.pairwise_cons.mp hord).2 (fun w hw => hall w (List.mem_cons_of_mem y hw)) h)
    rw [Reassembly.insert_behind hlt]
    simp only [List.isEmpty_cons, Bool.false_eq_true, if_false, Rcv.oosWalk, heq, hbet, and_true, if_true,
      decide_eq_true_eq, hs.len, hu.len]
    rcases lt_trichotomy x.off z.off with h | h | h
    · rw [if_neg h.ne, if_pos h, if_pos h]
      exact ⟨_, rfl, .cons (giveWay_is ht hs hlt (by omega)) (hins h.le)⟩
    · rw [if_pos h, if_neg h.not_lt, Reassembly.insert_at h]
      split
      · exact ⟨_, rfl, .cons ht (hins h.le)⟩
      · exact ⟨_, rfl, .cons ht (.cons hu hq)⟩
    · obtain ⟨ss', hss, hrest⟩ :=
        ih hu (List.pairwise_cons.mp hord).2 (fun w hw => hall w (List.mem_cons_of_mem y hw)) h
      rw [if_neg h.ne', if_neg h.not_gt, if_neg h.not_gt, hss]
      exact ⟨t :: ss', rfl, .cons ht hrest⟩

private theorem oosWalk_is (hq : Forall₂ (TcpSeg.Is base) ss q) (hne : q ≠ []) (hord : Reassembly.Ordered q)
    (hall : ∀ z ∈ q, R.nxt < z.off ∧ z.off < R.edge) :
    ∃ ss', r.oosWalk s true none ss = some ss' ∧ Forall₂ (TcpSeg.Is base) ss' (Reassembly.insert R.edge x q) := by
  have hedge := hr.edge_le
  cases hq with
  | nil => exact absurd rfl hne
  | @cons t y ss q ht hq =>
    have hy := hall y List.mem_cons_self
    have heq : s.seqno = t.seqno ↔ x.off = y.off := by
      rw [hs.seqno, ht.seqno, num_eq_num (by omega), Nat.cast_inj]
    have hlt : tcpSeqLt s.seqno t.seqno = decide (x.off < y.off) := by
      rw [hs.seqno, ht.seqno, tcpSeqLt_num (by omega)]
      simp only [Nat.cast_lt]
    have hins := fun h => tcpOosInsertSegment_is hs (.cons ht hq) (follows_of_head hr hx hord hall h)
    simp only [Rcv.oosWalk, heq, hlt, and_true, if_true, decide_eq_true_eq, hs.len, ht.len]
    rcases lt_trichotomy x.off y.off with h | h | h
    · rw [if_neg h.ne, if_pos h, Reassembly.insert_front h]
      exact ⟨_, rfl, hins h.le⟩
    · rw [if_pos h, Reassembly.insert_at h]
      split
      · exact ⟨_, rfl, hins h.le⟩
      · exact ⟨_, rfl, .cons ht hq⟩
    · rw [if_neg h.ne', if_neg h.not_gt]
      exact oosAfter_is hr hs hx ht hq hord hall h

end Walk

/-- Without memory for a copy the queue stays as it is. -/
private theorem oosWalk_noRoom (r : Rcv) (s : TcpSeg) (prev : Option TcpSeg) (ss : List TcpSeg) :
    r.oosWalk s false prev ss = some (prev.toList ++ ss) := by
  induction ss generalizing prev with
  | nil => simp [Rcv.oosWalk]
  | cons t ss ih =>
    have hafter : (if ss.isEmpty then r.oosLast s false t else r.oosWalk s false (some t) ss) = some (t :: ss) := by
      cases ss with
      | nil => simp [Rcv.oosLast]
      | cons u ss => simp [ih]
    unfold Rcv.oosWalk
    rw [hafter]
    cases prev <;> simp

theorem enqueue_is (hr : r.Is base R) (hR : R.Of S) (hs : s.Is base x) (hx : R.nxt < x.off ∧ x.off < R.edge)
    (room : Bool) : ∃ ss', r.enqueue s room = some ss' ∧
      Forall₂ (TcpSeg.Is base) ss' (if room then Reassembly.insert R.edge x R.queue else R.queue) := by
  have hq := hr.ooseq
  unfold Rcv.enqueue
  cases room with
  | false =>
    refine ⟨r.ooseq, ?_, hq⟩
    cases r.ooseq <;> simp [oosWalk_noRoom]
  | true =>
    by_cases hne : R.queue = []
    · have hempty : r.ooseq = [] := List.forall₂_nil_right_iff.mp (hne ▸ hq)
      exact ⟨[s], by simp [hempty], by simpa [hne, Reassembly.insert] using hs⟩
    · have hcons : r.ooseq.isEmpty = false := by
        rw [List.isEmpty_eq_false_iff]
        intro hempty
        exact hne (List.forall₂_nil_left_iff.mp (hempty ▸ hq))
      rw [hcons]
      exact oosWalk_is hr hs hx hq hne hR.ordered hR.later

/-- A segment that came early is queued as its piece is. -/
private theorem outOfSequence_is (hr : r.Is base R) (hR : R.Of S) (hs : s.Is base x)
    (hx : R.nxt < x.off ∧ x.off < R.edge)
    (room : Bool) (ack : AckOutcome) : ∃ r', r.outOfSequence s room ack = some (r', none, false) ∧
      r'.Is base { R with queue := if room then Reassembly.insert R.edge x R.queue else R.queue } := by
  obtain ⟨ss', hss, hrest⟩ := enqueue_is hr hR hs hx room
  refine ⟨({ r with ooseq := ss' } : Rcv).tcpSendEmptyAck ack, by rw [Rcv.outOfSequence, hss]; rfl, ?_⟩
  cases ack <;> exact ⟨hr.nxt, hr.wnd, hr.wnd_le, hrest⟩

private theorem TcpSeg.Is.roomFor (hs : s.Is base x) (n : Nat) : Rcv.roomFor s n = n := by simp [Rcv.roomFor, hs.syn]

private theorem trimToWnd_is (hr : r.Is base R) (hs : s.Is base x) (hx : x.off = R.nxt) :
    ∃ s', r.trimToWnd s = some s' ∧ s'.Is base (x.clip R.edge) := by
  have hle : x.off ≤ R.edge := hx ▸ Nat.le_add_right _ _
  have hwnd : R.edge - x.off = r.rcvWnd := by
    rw [hr.wnd, hx, Receiver.edge]
    omega
  rw [Rcv.trimToWnd, hs.roomFor, hr.edge, hs.tcplen_mod, ← hwnd]
  by_cases hover : R.edge < x.off + x.span
  · obtain ⟨hcut, hend⟩ := shorten_clip hs hle hover
    refine ⟨_, ?_, hcut⟩
    rw [if_pos (by omega)]
    exact if_pos hend
  · exact ⟨s, if_neg (by omega), by rwa [Piece.clip_of_le (Nat.not_lt.mp hover)]⟩

private theorem trimToHead_is (hs : s.Is base x) (hq : Forall₂ (TcpSeg.Is base) ss q) (hord : Reassembly.Ordered q)
    (hx : Follows x q) (hfin : x.fin = true → q = []) :
    ∃ s' ss', Rcv.trimToHead (Rcv.dropCovered s ss).1 (Rcv.dropCovered s ss).2 = some (s', ss') ∧
      Forall₂ (TcpSeg.Is base) (s' :: ss') (Reassembly.swallow x q) := by
  induction hq generalizing s x with
  | nil => exact ⟨s, [], rfl, .cons hs .nil⟩
  | @cons t y ss q ht hq ih =>
    obtain ⟨hhead, htail⟩ := List.pairwise_cons.mp hord
    have hy := hx y List.mem_cons_self
    have hxf : x.fin = false := by
      cases hf : x.fin with
      | false => rfl
      | true => exact absurd (hfin hf) (List.cons_ne_nil y q)
    have hlen : s.tcplen % 65536 = s.len := by rw [hs.tcplen_mod, Piece.span, hxf, hs.len]; rfl
    have hslen := hs.short
    have htlen := ht.short
    have hsstop := hs.stop_eq
    have htstop := ht.stop_eq
    have hsyn : (t.fin && !s.syn) = t.fin := by simp [hs.syn]
    simp only [Rcv.dropCovered, Reassembly.swallow, hlen, hs.end_num, ht.end_num, hsyn]
    rw [tcpSeqGeq_num (by omega)]
    simp only [decide_eq_true_eq, Nat.cast_le]
    split
    · refine ih (hs.withFin ht) htail (fun z hz => hx z (List.mem_cons_of_mem y hz)) fun hf => ?_
      have hyf : y.fin = true := by simpa [hxf] using hf
      refine List.eq_nil_iff_forall_not_mem.mpr fun z hz => ?_
      simp [(hhead z hz).1] at hyf
    · have hd : distance16 t.seqno s.seqno = y.off - x.off := by
        rw [hs.seqno, ht.seqno, distance16_num (by omega)]
      have hgt : tcpSeqGt (num base x.stop) t.seqno = decide (y.off < x.stop) := by
        rw [ht.seqno, tcpSeqGt_num (by omega)]
        simp only [Nat.cast_lt]
      simp only [Rcv.trimToHead, hlen, hs.end_num, hgt, decide_eq_true_eq, hs.roomFor, hd]
      split
      case isTrue hlt =>
        have hcut := hs.shorten hy.1 hlt.le
        refine ⟨_, _, if_pos ?_, .cons hcut (.cons ht hq)⟩
        have hspan : (x.before y.off).span = y.off - x.off := by
          rw [hsstop, hs.len] at hlt
          simp only [Piece.span, hxf, Bool.toNat_false, Piece.before, List.length_take]
          omega
        rw [hcut.tcplen_mod, hspan, hcut.seqno, ht.seqno, num_add_ofLen, Piece.before_off]
        congr 1
        omega
      · exact ⟨_, _, rfl, .cons hs (.cons ht hq)⟩

private theorem trimToOoseq_is (hs : s.Is base x) (hq : Forall₂ (TcpSeg.Is base) ss q) (hord : Reassembly.Ordered q)
    (hx : Follows x q) : ∃ s' ss', Rcv.trimToOoseq s ss = some (s', ss') ∧
      Forall₂ (TcpSeg.Is base) (s' :: ss') (Reassembly.overlay x q) := by
  rw [Rcv.trimToOoseq, Reassembly.overlay, hs.fin]
  split
  · exact ⟨s, [], rfl, .cons hs .nil⟩
  case isFalse hf => exact trimToHead_is hs hq hord hx fun h => absurd h hf

/-- The bytes of `recv_data`. -/
def bytesOf (recvData : Option Pbuf) : List UInt8 := recvData.elim [] Pbuf.bytes

@[simp] private theorem bytesOf_none : bytesOf none = [] := rfl

@[simp] private theorem bytesOf_chain (recvData : Option Pbuf) (p : Pbuf) :
    bytesOf (Rcv.chain recvData p) = bytesOf recvData ++ p.bytes := by
  unfold Rcv.chain
  split
  · cases recvData <;> simp [bytesOf]
  case isFalse h =>
    have : p.bytes = [] := List.eq_nil_of_length_eq_zero (Nat.eq_zero_of_not_pos h)
    simp [this]

theorem tcpUpdateRcvAnnWnd_same {o : Rcv × BitVec 32} (h : r.tcpUpdateRcvAnnWnd = some o) :
    o.1 = { r with rcvAnnWnd := o.1.rcvAnnWnd } := by
  simp only [Rcv.tcpUpdateRcvAnnWnd] at h
  split at h
  · cases h; rfl
  · split at h
    · cases h; rfl
    · split at h <;> cases h
      rfl

private theorem take_same {n : Nat} (h : r.take n = some r') :
    n ≤ r.rcvWnd ∧ r' = { r with
      rcvNxt := r.rcvNxt + ofLen n, rcvWnd := r.rcvWnd - n, rcvAnnWnd := r'.rcvAnnWnd } := by
  unfold Rcv.take at h
  split at h
  case isFalse => cases h
  case isTrue hle =>
    obtain ⟨o, hup, rfl⟩ := Option.map_eq_some_iff.mp h
    exact ⟨hle, tcpUpdateRcvAnnWnd_same hup⟩

/-- What is handed on from the queue is what the pieces give. -/
private theorem dequeue_is (hq : Forall₂ (TcpSeg.Is base) ss q) {n b : Nat} (hn : r.rcvNxt = num base n)
    (hb : b ≤ n ∧ n ≤ b + 131072) (hall : ∀ y ∈ q, b ≤ y.off ∧ y.off ≤ b + 65535) {data data' : Option Pbuf}
    {fin fin' : Bool} (h : r.dequeue data fin ss = some (r', data', fin')) :
    r'.rcvNxt = num base (Reassembly.drain n q).nxt ∧ r'.rcvWnd + (Reassembly.drain n q).nxt = r.rcvWnd + n ∧
      Forall₂ (TcpSeg.Is base) r'.ooseq (Reassembly.drain n q).queue ∧
      bytesOf data' = bytesOf data ++ (Reassembly.drain n q).data ∧ fin' = (fin || (Reassembly.drain n q).fin) := by
  induction hq generalizing r n data fin with
  | nil =>
    cases h
    exact ⟨hn, rfl, .nil, by simp [Reassembly.drain], by simp [Reassembly.drain]⟩
  | @cons t y ss q ht hq ih =>
    have hy := hall y List.mem_cons_self
    have heq : t.seqno = r.rcvNxt ↔ y.off = n := by
      rw [ht.seqno, hn, num_eq_num (by omega), Nat.cast_inj]
    simp only [Rcv.dequeue, heq] at h
    simp only [Reassembly.drain]
    split at h
    case isFalse hne =>
      cases h
      rw [if_neg hne]
      exact ⟨hn, rfl, .cons ht hq, by simp, by simp⟩
    case isTrue hoff =>
      rw [if_pos hoff]
      obtain ⟨r1, htake, h⟩ := Option.bind_eq_some_iff.mp h
      obtain ⟨hle, hsame⟩ := take_same htake
      have hspan := ht.span_le
      have hn1 : r1.rcvNxt = num base ↑(n + y.span) := by
        rw [hsame, hn, num_add_ofLen, ht.tcplen, Nat.cast_add]
      obtain ⟨h1, h2, h3, h4, h5⟩ := ih hn1 (by omega) (fun z hz => hall z (List.mem_cons_of_mem y hz)) h
      refine ⟨h1, ?_, h3, by rw [h4, bytesOf_chain, ht.bytes, List.append_assoc], by rw [h5, ht.fin, Bool.or_assoc]⟩
      have hw1 : r1.rcvWnd = r.rcvWnd - y.span := by rw [hsame, ht.tcplen]
      rw [ht.tcplen] at hle
      show r'.rcvWnd + (Reassembly.drain (n + y.span) q).nxt = r.rcvWnd + n
      omega

/-- The segment in sequence is handed on as the head of the queue that it was put in front of. -/
theorem inSequence_eq (hr : r.Is base R) (hR : R.Of S) (hs : s.Is base x) (hx : x.off = R.nxt) :
    ∃ ss', r.inSequence s = (r.dequeue none false ss').map (fun o => (o.1.tcpAck, o.2)) ∧
      Forall₂ (TcpSeg.Is base) ss' (Reassembly.overlay (x.clip R.edge) R.queue) := by
  have hedge := hr.edge_le
  obtain ⟨s1, h1, hs1⟩ := trimToWnd_is hr hs hx
  have hoff : (x.clip R.edge).off = R.nxt := Piece.clip_within.1.trans hx
  have hfol : Follows (x.clip R.edge) R.queue := fun y hy => by
    have := hR.later y hy
    omega
  obtain ⟨s2, ss2, h2, hss⟩ := trimToOoseq_is hs1 hr.ooseq hR.ordered hfol
  refine ⟨s2 :: ss2, ?_, hss⟩
  have hs2 : s2.seqno = r.rcvNxt ∧ s2.tcplen % 65536 = s2.tcplen := by
    obtain ⟨y, q, hy, hyoff⟩ := Reassembly.overlay_head (x.clip R.edge) R.queue
    rw [hy] at hss
    have hs2 := (List.forall₂_cons.mp hss).1
    rw [hs2.tcplen_mod, hs2.tcplen, hs2.seqno, hyoff, hoff, hr.nxt]
    exact ⟨rfl, rfl⟩
  simp only [Rcv.inSequence, h1, h2, Option.bind_eq_bind, Option.bind_some, Rcv.dequeue, hs2.1, hs2.2, if_true,
    Bool.false_or]
  cases r.take s2.tcplen with
  | none => rfl
  | some r1 => 
    simp only [Option.bind_some]
    cases r1.dequeue (Rcv.chain none s2.p) s2.fin ss2 <;> rfl

private theorem inSequence_is (hr : r.Is base R) (hR : R.Of S) (hs : s.Is base x) (hx : x.off = R.nxt)
    {data : Option Pbuf} {fin : Bool} (h : r.inSequence s = some (r', data, fin)) :
    r'.Is base (R.advance x).1 ∧ bytesOf data = (R.advance x).2.1 ∧ fin = (R.advance x).2.2 ∧
      (R.advance x).1.edge = R.edge := by
  have hedge := hr.edge_le
  obtain ⟨ss', heq, hss⟩ := inSequence_eq hr hR hs hx
  rw [heq] at h
  obtain ⟨⟨r1, data1, fin1⟩, hd, ho⟩ := Option.map_eq_some_iff.mp h
  cases ho
  have hall : ∀ y ∈ Reassembly.overlay (x.clip R.edge) R.queue, R.nxt ≤ y.off ∧ y.off ≤ R.nxt + 65535 :=
    (Reassembly.closed_off fun off => R.nxt ≤ off ∧ off ≤ R.nxt + 65535).overlay
      (by rw [Piece.clip_within.1]; omega) fun y hy => by have := hR.later y hy; omega
  obtain ⟨hnxt, hwnd, hq, hdata, hfin⟩ := dequeue_is hss hr.nxt ⟨le_rfl, Nat.le_add_right _ _⟩ hall hd
  have hsame : r1.tcpAck.rcvNxt = r1.rcvNxt ∧ r1.tcpAck.rcvWnd = r1.rcvWnd ∧ r1.tcpAck.ooseq = r1.ooseq := by
    unfold Rcv.tcpAck
    split <;> exact ⟨rfl, rfl, rfl⟩
  have hle : R.nxt ≤ (R.advance x).1.nxt := Reassembly.le_drain_nxt
  have hw : r1.rcvWnd + (R.advance x).1.nxt = R.edge := by
    rw [Receiver.edge, ← hr.wnd, Nat.add_comm R.nxt]
    exact hwnd
  refine ⟨⟨by rw [hsame.1, hnxt]; rfl, ?_, ?_, by rw [hsame.2.2]; exact hq⟩, hdata,
    by rw [hfin, Bool.false_or]; rfl, ?_⟩
  · rw [hsame.2.1]
    show r1.rcvWnd = R.edge - (R.advance x).1.nxt
    omega
  · show R.edge - (R.advance x).1.nxt ≤ 65535
    omega
  · show (R.advance x).1.nxt + (R.edge - (R.advance x).1.nxt) = R.edge
    omega

/-- A segment less than a quarter of the sequence space from the next place. -/
def Near (n : Nat) (x : Piece UInt8) : Prop := x.off < n + 1073741824 ∧ n < x.off + 1073741824

private theorem trimFirstEdge_is (hr : r.Is base R) (hs : s.Is base x) (hnear : Near R.nxt x) (hspan : 0 < x.span) :
    ∃ now s1, r.trimFirstEdge s = some ({ r with ackNow := now }, s1) ∧
      (x.off ≤ R.nxt ∧ R.nxt < x.off + x.span → s1.Is base (x.after R.nxt)) ∧
      (¬ (x.off ≤ R.nxt ∧ R.nxt < x.off + x.span) → s1 = s) := by
  have hslen := hs.short
  have hsp := hs.span_le
  obtain ⟨hn1, hn2⟩ := hnear
  have hbet : tcpSeqBetween r.rcvNxt (s.seqno + 1) (s.seqno + ofLen s.tcplen - 1) =
      decide (x.off < R.nxt ∧ R.nxt < x.off + x.span) := by
    rw [hs.tcplen_num, hr.nxt, hs.seqno, num_add_one, num_sub_one, tcpSeqBetween_num (by omega) (by omega)]
    exact decide_eq_decide.mpr (by omega)
  have hlt : tcpSeqLt s.seqno r.rcvNxt = decide (x.off < R.nxt) := by
    rw [hs.seqno, hr.nxt, tcpSeqLt_num (by omega)]
    simp only [Nat.cast_lt]
  rw [Rcv.trimFirstEdge, hbet, hlt]
  simp only [decide_eq_true_eq]
  by_cases hin : x.off < R.nxt ∧ R.nxt < x.off + x.span
  · have hoff : (r.rcvNxt - s.seqno).toNat = R.nxt - x.off := by
      rw [hr.nxt, hs.seqno, toNat_num_sub (by omega)]
      omega
    have hstop : R.nxt ≤ x.stop := Piece.le_stop_of_lt_span hin.2
    rw [hs.stop_eq] at hstop
    have htot : s.p.totLen = s.len := by rw [Pbuf.totLen, hs.bytes, hs.len]
    rw [if_pos hin, hoff, if_pos (by omega)]
    refine ⟨r.ackNow, _, rfl, fun _ => ?_, fun hn => absurd ⟨hin.1.le, hin.2⟩ hn⟩
    exact {
      seqno := hr.nxt
      bytes := by rw [trimChain_bytes]; exact congrArg (List.drop (R.nxt - x.off)) hs.bytes
      len := by
        simp only [Piece.after, List.length_drop, ← hs.len]
        omega
      fin := hs.fin
      syn := hs.syn
      short := by show _ % 65536 < 65535; omega }
  · rw [if_neg hin]
    by_cases heq : x.off = R.nxt
    · rw [if_neg (by omega)]
      refine ⟨r.ackNow, _, rfl, fun _ => ?_, fun _ => rfl⟩
      rw [← heq, Piece.after_self]
      exact hs
    · have hout : x.off ≤ R.nxt ∧ R.nxt < x.off + x.span → s.Is base (x.after R.nxt) := fun h => by omega
      split
      · exact ⟨true, _, rfl, hout, fun _ => rfl⟩
      · exact ⟨r.ackNow, _, rfl, hout, fun _ => rfl⟩

/-- A segment is handed on, comes early, or brings nothing the block can use. -/
theorem tcpReceiveData_cases (hr : r.Is base R) (hs : s.Is base x) (hnear : Near R.nxt x) (hspan : 0 < x.span)
    (room : Bool) (ack : AckOutcome) : ∃ now,
      (x.off ≤ R.nxt ∧ R.nxt < x.off + x.span ∧ 0 < R.wnd ∧ ∃ s1, s1.Is base (x.after R.nxt) ∧
        r.tcpReceiveData s room ack = ({ r with ackNow := now } : Rcv).inSequence s1) ∨
      (R.nxt < x.off ∧ x.off < R.edge ∧
        r.tcpReceiveData s room ack = ({ r with ackNow := now } : Rcv).outOfSequence s room ack) ∨
      (¬ (x.off ≤ R.nxt ∧ R.nxt < x.off + x.span ∧ 0 < R.wnd) ∧ ¬ (R.nxt < x.off ∧ x.off < R.edge) ∧
        r.tcpReceiveData s room ack = some (({ r with ackNow := now } : Rcv).tcpSendEmptyAck ack, none, false)) := by
  have hedge := hr.edge_le
  have hedge' : R.nxt ≤ R.edge := Nat.le_add_right _ _
  obtain ⟨now, s1, htrim, hin, hout⟩ := trimFirstEdge_is hr hs hnear hspan
  obtain ⟨hn1, hn2⟩ := hnear
  refine ⟨now, ?_⟩
  simp only [Rcv.tcpReceiveData, htrim, Option.bind_eq_bind, Option.bind_some, hr.edge]
  by_cases hseq : x.off ≤ R.nxt ∧ R.nxt < x.off + x.span
  · have hs1 := hin hseq
    have hbet : tcpSeqBetween s1.seqno r.rcvNxt (num base R.edge - 1) = decide (0 < R.wnd) := by
      rw [hs1.seqno, hr.nxt, num_sub_one, Piece.after_off, tcpSeqBetween_num (by omega) (by omega)]
      exact decide_eq_decide.mpr (by simp only [Receiver.edge]; omega)
    have heq : r.rcvNxt = s1.seqno := by rw [hs1.seqno, hr.nxt]; rfl
    rw [hbet, if_pos heq]
    by_cases hpos : 0 < R.wnd
    · exact .inl ⟨hseq.1, hseq.2, hpos, s1, hs1, by rw [if_pos (decide_eq_true hpos)]⟩
    · exact .inr (.inr ⟨by omega, by omega, by rw [if_neg (by simpa using hpos)]⟩)
  · obtain rfl : s = s1 := (hout hseq).symm
    have hbet : tcpSeqBetween s.seqno r.rcvNxt (num base R.edge - 1) = decide (R.nxt < x.off ∧ x.off < R.edge) := by
      rw [hs.seqno, hr.nxt, num_sub_one, tcpSeqBetween_num (by omega) (by omega)]
      exact decide_eq_decide.mpr (by omega)
    rw [hbet]
    by_cases hearly : R.nxt < x.off ∧ x.off < R.edge
    · have hne : r.rcvNxt ≠ s.seqno := by
        rw [hr.nxt, hs.seqno, Ne, num_eq_num (by omega)]
        omega
      exact .inr (.inl ⟨hearly.1, hearly.2, by rw [if_pos (decide_eq_true hearly), if_neg hne]⟩)
    · exact .inr (.inr ⟨by omega, hearly, by rw [if_neg (by simpa using hearly)]⟩)

/-- `tcp_receive` on a segment of the stream is the receiver's step for its piece. -/
theorem tcpReceiveData_is (hr : r.Is base R) (hR : R.Of S) (hs : s.Is base x) (hnear : Near R.nxt x)
    (hspan : 0 < x.span) {room : Bool} {ack : AckOutcome} {data : Option Pbuf} {fin : Bool}
    (h : r.tcpReceiveData s room ack = some (r', data, fin)) :
    r'.Is base (R.receive x room).1 ∧ bytesOf data = (R.receive x room).2.1 ∧ fin = (R.receive x room).2.2 ∧
      (R.receive x room).1.edge = R.edge := by
  obtain ⟨now, hcase⟩ := tcpReceiveData_cases hr hs hnear hspan room ack
  have hr1 : ({ r with ackNow := now } : Rcv).Is base R := ⟨hr.nxt, hr.wnd, hr.wnd_le, hr.ooseq⟩
  rcases hcase with ⟨h1, h2, h3, s1, hs1, heq⟩ | ⟨h1, h2, heq⟩ | ⟨h1, h2, heq⟩
  · rw [Receiver.receive, if_pos ⟨h1, h2, h3⟩]
    exact inSequence_is hr1 hR hs1 rfl (heq ▸ h)
  · rw [Receiver.receive, if_neg (by omega)]
    obtain ⟨r2, hout, hr2⟩ := outOfSequence_is hr1 hR hs ⟨h1, h2⟩ room ack
    rw [heq, hout] at h
    cases h
    cases room with
    | true => rw [if_pos ⟨h1, h2, rfl⟩]; exact ⟨hr2, rfl, rfl, rfl⟩
    | false => rw [if_neg (by simp)]; exact ⟨hr2, rfl, rfl, rfl⟩
  · rw [heq] at h
    cases h
    rw [Receiver.receive, if_neg h1, if_neg fun h => h2 ⟨h.1, h.2.1⟩]
    refine ⟨?_, rfl, rfl, rfl⟩
    cases ack <;> exact ⟨hr.nxt, hr.wnd, hr.wnd_le, hr.ooseq⟩

private theorem chain_pos {recvData : Option Pbuf} (h : ∀ q ∈ recvData, 0 < q.totLen) (p : Pbuf) :
    ∀ q ∈ Rcv.chain recvData p, 0 < q.totLen := by
  unfold Rcv.chain
  split
  case isFalse => exact h
  case isTrue hpos =>
    cases recvData with
    | none => simpa using hpos
    | some q =>
      simp only [Option.mem_some_iff, forall_eq', Pbuf.totLen, pbufCat_bytes, List.length_append] at hpos ⊢
      omega

private theorem dequeue_pos {ss : List TcpSeg} {data : Option Pbuf} {fin : Bool} {o : Rcv × Option Pbuf × Bool}
    (hdata : ∀ q ∈ data, 0 < q.totLen) (h : r.dequeue data fin ss = some o) : ∀ q ∈ o.2.1, 0 < q.totLen := by
  induction ss generalizing r data fin with
  | nil =>
    cases h
    exact hdata
  | cons t ss ih =>
    unfold Rcv.dequeue at h
    split at h
    case isFalse =>
      cases h
      exact hdata
    case isTrue =>
      obtain ⟨r1, -, h⟩ := Option.bind_eq_some_iff.mp h
      exact ih (chain_pos hdata t.p) h

/-- No empty buffer is handed on. -/
theorem tcpReceiveData_pos {room : Bool} {ack : AckOutcome} {o : Rcv × Option Pbuf × Bool}
    (h : r.tcpReceiveData s room ack = some o) : ∀ q ∈ o.2.1, 0 < q.totLen := by
  have hnone : ∀ q ∈ (none : Option Pbuf), 0 < q.totLen := fun q hq => by cases hq
  obtain ⟨⟨r1, s1⟩, -, h⟩ := Option.bind_eq_some_iff.mp h
  dsimp only at h
  split at h
  case isFalse =>
    cases h
    exact hnone
  case isTrue =>
    split at h
    case isTrue =>
      obtain ⟨s2, -, h⟩ := Option.bind_eq_some_iff.mp h
      obtain ⟨⟨s3, ss⟩, -, h⟩ := Option.bind_eq_some_iff.mp h
      obtain ⟨r2, -, h⟩ := Option.bind_eq_some_iff.mp h
      obtain ⟨⟨r3, data, fin⟩, hd, h⟩ := Option.bind_eq_some_iff.mp h
      cases h
      exact @dequeue_pos r2 ss _ s3.fin (r3, data, fin) (chain_pos hnone s3.p) hd
    case isFalse =>
      obtain ⟨ss, -, h⟩ := Option.map_eq_some_iff.mp h
      cases h
      exact hnone

end Tunosocks.Lwip
