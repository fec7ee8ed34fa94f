import Tunosocks.Lwip.InOrder

/-! The receive window of a block whose peer sends no further than was announced: no
assertion of the receiving code fails, the announced right edge never moves back, and
every place the application has given back is open again. -/
namespace Tunosocks.Lwip
open Foundation Foundation.Serial Tcp
open List (Forall₂)

variable {base : BitVec 32} {S : List UInt8} {x : Piece UInt8} {r : Rcv} {R : Receiver UInt8} {n right : Nat}

/-- The next place is `n`, and everything before `right` was announced. -/
structure Announced (base : BitVec 32) (r : Rcv) (n right : Nat) : Prop where
  nxt : r.rcvNxt = num base n
  edge : r.rcvAnnRightEdge = num base right
  nxt_le : n ≤ right
  le_ann : right ≤ n + r.rcvAnnWnd
  ann_le : r.rcvAnnWnd ≤ r.rcvWnd
  wnd_le : r.rcvWnd ≤ 65535

/-- The window to announce is found, and takes back nothing. -/
private theorem tcpUpdateRcvAnnWnd_total (hn : r.rcvNxt = num base n) (he : r.rcvAnnRightEdge = num base right)
    (hle : n ≤ right) (hle' : right ≤ n + r.rcvWnd) (hw : r.rcvWnd ≤ 65535) :
    ∃ o, r.tcpUpdateRcvAnnWnd = some o ∧ Announced base o.1 n right := by
  have hmin : min (tcpWnd / 2) r.mss ≤ 32767 := Nat.min_le_left _ _
  have hgt : tcpSeqGt r.rcvNxt r.rcvAnnRightEdge = false := by
    rw [hn, he, tcpSeqGt_num (by omega)]
    simpa using hle
  have hdist : (r.rcvAnnRightEdge - r.rcvNxt).toNat = right - n := by
    rw [hn, he, toNat_num_sub (by omega)]
    omega
  simp only [Rcv.tcpUpdateRcvAnnWnd, hgt, hdist]
  split
  · exact ⟨_, rfl, hn, he, hle, hle', le_rfl, hw⟩
  · rw [if_neg Bool.false_ne_true, if_pos (by omega)]
    exact ⟨_, rfl, hn, he, hle, by simp only; omega, by simp only; omega, hw⟩

private theorem take_total (h : Announced base r n right) {k : Nat} (hk : n + k ≤ right) :
    ∃ r', r.take k = some r' ∧ Announced base r' (n + k) right := by
  have h1 := h.le_ann
  have h2 := h.ann_le
  have h3 := h.wnd_le
  obtain ⟨o, ho, hann⟩ := @tcpUpdateRcvAnnWnd_total base
    { r with rcvNxt := r.rcvNxt + ofLen k, rcvWnd := r.rcvWnd - k } (n + k) right
    (by rw [h.nxt, num_add_ofLen, Nat.cast_add]) h.edge hk (by simp only; omega) (by simp only; omega)
  refine ⟨o.1, ?_, hann⟩
  rw [Rcv.take, if_pos (by omega), ho]
  rfl

private theorem Announced.ooseq (h : Announced base r n right) (ooseq : List TcpSeg) :
    Announced base { r with ooseq } n right :=
  ⟨h.nxt, h.edge, h.nxt_le, h.le_ann, h.ann_le, h.wnd_le⟩

private theorem Announced.flags (h : Announced base r n right) (d now : Bool) :
    Announced base { r with ackDelay := d, ackNow := now } n right :=
  ⟨h.nxt, h.edge, h.nxt_le, h.le_ann, h.ann_le, h.wnd_le⟩

private theorem Announced.announce (h : Announced base r n right) : Announced base r.announce n (n + r.rcvAnnWnd) :=
  ⟨h.nxt, by rw [Rcv.announce, h.nxt, num_add_ofLen, Nat.cast_add], Nat.le_add_right _ _, le_rfl, h.ann_le, h.wnd_le⟩

/-- Queued segments inside what was announced can all be handed on. -/
private theorem dequeue_total {ss : List TcpSeg} {q : List (Piece UInt8)} (hq : Forall₂ (TcpSeg.Is base) ss q)
    (h : Announced base r n right) (hfit : ∀ y ∈ q, y.off + y.span ≤ right) {b : Nat} (hb : b ≤ n ∧ n ≤ b + 131072)
    (hall : ∀ y ∈ q, b ≤ y.off ∧ y.off ≤ b + 65535) (data : Option Pbuf) (fin : Bool) :
    ∃ o, r.dequeue data fin ss = some o ∧ Announced base o.1 (Reassembly.drain n q).nxt right := by
  induction hq generalizing r n data fin with
  | nil => exact ⟨_, rfl, h.ooseq []⟩
  | @cons t y ss q ht hq ih =>
    have hy := hall y List.mem_cons_self
    have hyfit := hfit y List.mem_cons_self
    have heq : t.seqno = r.rcvNxt ↔ y.off = n := by
      rw [ht.seqno, h.nxt, num_eq_num (by omega), Nat.cast_inj]
    simp only [Rcv.dequeue, heq, Reassembly.drain]
    split
    case isFalse hne => exact ⟨_, rfl, h.ooseq _⟩
    case isTrue hoff =>
      have hspan := ht.span_le
      obtain ⟨r1, htake, h1⟩ := take_total h (k := y.span) (by omega)
      rw [ht.tcplen, htake]
      exact ih h1 (fun z hz => hfit z (List.mem_cons_of_mem y hz)) (by omega)
        (fun z hz => hall z (List.mem_cons_of_mem y hz)) _ _

/-- The right edge moves on, by a window at most. -/
def Onward (right right' : Nat) : Prop := right ≤ right' ∧ right' ≤ right + 65535

private theorem Onward.refl (right : Nat) : Onward right right := ⟨le_rfl, Nat.le_add_right _ _⟩

private theorem Announced.onward (h : Announced base r n right) : Onward right (n + r.rcvAnnWnd) :=
  ⟨h.le_ann, Nat.add_le_add h.nxt_le (h.ann_le.trans h.wnd_le)⟩

/-- What was announced before is still announced. -/
private theorem tcpSendEmptyAck_announced (h : Announced base r n right) (ack : AckOutcome) :
    ∃ right', Onward right right' ∧ Announced base (r.tcpSendEmptyAck ack) n right' := by
  cases ack with
  | noBuf => exact ⟨right, .refl right, h.flags _ _⟩
  | failed => exact ⟨_, h.onward, h.announce.flags _ _⟩
  | sent => exact ⟨_, h.onward, h.announce.flags _ _⟩

private theorem tcpRecved_total (h : Announced base r n right) (len : Nat) :
    ∃ o, r.tcpRecved len = some o ∧ Announced base o.1 n right := by
  have h1 := h.le_ann
  have h2 := h.ann_le
  obtain ⟨hle, hle'⟩ := grownWnd_bounds h.wnd_le len
  obtain ⟨o, ho, hann⟩ := @tcpUpdateRcvAnnWnd_total base { r with rcvWnd := r.grownWnd len } n right h.nxt h.edge
    h.nxt_le (by simp only; omega) hle'
  obtain ⟨now, hnow⟩ := sendUpdate_same o
  refine ⟨Rcv.sendUpdate o, by rw [Rcv.tcpRecved, ho]; rfl, ?_⟩
  rw [hnow]
  exact hann.flags _ _

private theorem handOn_announced {o : Rcv × Option Pbuf × Bool} (h : Announced base o.1 n right) :
    Announced base (handOn o).1.rcv n right := by
  unfold handOn
  split
  case isFalse => exact h
  case isTrue =>
    have h2 := h.ann_le
    have h3 := h.wnd_le
    have : tcpWnd = 65535 := rfl
    refine ⟨h.nxt, h.edge, h.nxt_le, h.le_ann, ?_, ?_⟩ <;> simp only <;> split <;> omega

section Receive
variable (hr : r.Is base R) (hR : R.Of S) (h : Announced base r R.nxt right) (hfit : R.Fits right)
  (hxS : x.From S) (hx : x.off + x.span ≤ right)
include hr hR h hfit hxS hx

private theorem inSequence_total {s : TcpSeg} (hs : s.Is base x) (hoff : x.off = R.nxt) :
    ∃ o, r.inSequence s = some o ∧ Announced base o.1 (R.advance x).1.nxt right := by
  have hedge := hr.edge_le
  have hlim : right ≤ R.edge := h.le_ann.trans (Nat.add_le_add_left (h.ann_le.trans_eq hr.wnd) _)
  obtain ⟨ss', heq, hss⟩ := inSequence_eq hr hR hs hoff
  obtain ⟨hclip, hall⟩ := Receiver.overlay_fits hR hfit hlim hxS hoff hx
  have hplace : ∀ y ∈ Reassembly.overlay x R.queue, R.nxt ≤ y.off ∧ y.off ≤ R.nxt + 65535 :=
    (Reassembly.closed_off fun off => R.nxt ≤ off ∧ off ≤ R.nxt + 65535).overlay (by omega)
      fun y hy => by have := hR.later y hy; omega
  rw [hclip] at hss
  obtain ⟨o, ho, hann⟩ := dequeue_total hss h hall ⟨le_rfl, Nat.le_add_right _ _⟩ hplace none false
  refine ⟨(o.1.tcpAck, o.2), by rw [heq, ho]; rfl, ?_⟩
  rw [Receiver.advance, hclip]
  simp only [Rcv.tcpAck]
  split
  · exact hann.flags _ _
  · exact hann.flags _ _

/-- A segment inside the announced window is received without a failed assertion. -/
private theorem tcpReceiveData_total {s : TcpSeg} (hs : s.Is base x) (hnear : Near R.nxt x) (hspan : 0 < x.span)
    (room : Bool) (ack : AckOutcome) : ∃ o, r.tcpReceiveData s room ack = some o ∧
      ∃ right', Onward right right' ∧ Announced base o.1 (R.receive x room).1.nxt right' := by
  obtain ⟨now, hcase⟩ := tcpReceiveData_cases hr hs hnear hspan room ack
  have hr1 : ({ r with ackNow := now } : Rcv).Is base R := ⟨hr.nxt, hr.wnd, hr.wnd_le, hr.ooseq⟩
  rcases hcase with ⟨h1, h2, h3, s1, hs1, heq⟩ | ⟨h1, h2, heq⟩ | ⟨h1, h2, heq⟩
  · have hle := Piece.le_stop_of_lt_span h2
    have hfit1 : (x.after R.nxt).off + (x.after R.nxt).span ≤ right := by
      have := Piece.after_stop h1 hle
      simp only [Piece.span, Piece.stop, Piece.after_fin] at *
      omega
    obtain ⟨o, ho, hann⟩ := inSequence_total hr1 hR (h.flags r.ackDelay now) hfit (hxS.after h1 hle) hfit1 hs1 rfl
    rw [heq, Receiver.receive, if_pos ⟨h1, h2, h3⟩]
    exact ⟨o, ho, right, .refl right, hann⟩
  · obtain ⟨ss', hss, -⟩ := enqueue_is hr1 hR hs ⟨h1, h2⟩ room
    have hnxt : (R.receive x room).1.nxt = R.nxt := by
      rw [Receiver.receive, if_neg (by omega)]
      split <;> rfl
    rw [heq, Rcv.outOfSequence, hss, hnxt]
    exact ⟨_, rfl, tcpSendEmptyAck_announced ((h.flags r.ackDelay now).ooseq ss') ack⟩
  · rw [heq, Receiver.receive, if_neg h1, if_neg fun h => h2 ⟨h.1, h.2.1⟩]
    exact ⟨_, rfl, tcpSendEmptyAck_announced (h.flags r.ackDelay now) ack⟩

end Receive

/-- The segment lies inside the window that was announced. -/
def Respects (tr : List RcvEvent) (s : RcvState) (a : RcvAct) : Prop :=
  ∀ x ∈ a.piece?, x.off + x.span ≤ (delivered tr).length + (s.rcv.rcvAnnRightEdge - s.rcv.rcvNxt).toNat

instance (tr : List RcvEvent) (s : RcvState) (a : RcvAct) : Decidable (Respects tr s a) :=
  inferInstanceAs (Decidable (∀ x ∈ a.piece?, _))

/-- The peer sends segments of `S`, and none beyond the window it was told. -/
abbrev Behaves (S : List UInt8) (ts : List RcvTransition) : Prop :=
  Machine.Along (fun tr t => Sends S tr t.act ∧ Respects tr t.pre t.act) [] ts

/-- The window the application gives back. -/
def RcvAct.returned : RcvAct → Nat
  | .recved len => len
  | _ => 0

/-- Everything before `right` was announced, and nothing beyond it is kept. -/
def Orderly (base : BitVec 32) (S : List UInt8) (tr : List RcvEvent) (s : RcvState) (right : Nat) : Prop :=
  ∃ n, Announced base s.rcv n right ∧
    (s.gotFin = true ∨ ∃ R, Receiving base S tr s R ∧ R.nxt = n ∧ R.Fits right)

variable {tr out : List RcvEvent} {s t : RcvState} {a : RcvAct}

private theorem orderly_init (h : (rcvMachine base).Init s) : Orderly base S [] s tcpWnd := by
  refine ⟨0, ?_, .inr ⟨_, receiving_init h, rfl, Nat.zero_le _, List.forall_mem_nil _⟩⟩
  obtain ⟨mss, ackDelay, ackNow, rfl⟩ := h
  refine ⟨(num_zero base).symm, ?_, Nat.zero_le _, Nat.le_add_left _ _, le_rfl, le_rfl⟩
  have hedge := @num_add_ofLen base 0 tcpWnd
  rwa [num_zero, Int.zero_add] at hedge

/-- A step that no segment with data causes. -/
private theorem other_total (h : Announced base s.rcv n right)
    (ha : s.gotFin = true ∨ ∀ x ∈ a.piece?, x.span = 0) :
    ∃ t right', s.step base a = some (t, []) ∧ Onward right right' ∧ Announced base t.rcv n right' ∧
      (s.rcv.rcvWnd + a.returned ≤ tcpWnd → t.rcv.rcvWnd = s.rcv.rcvWnd + a.returned) := by
  cases a with
  | segment x room ack =>
    have hcond : ¬ (0 < (segOf base x).tcplen ∧ s.gotFin = false) := by
      rw [segOf_tcplen]
      rcases ha with ha | ha
      · simp [ha]
      · simp [ha x rfl]
    refine ⟨_, right, by rw [RcvState.step, if_neg hcond], .refl right, ?_, fun _ => (tcpReceiveEmpty_same _ _).2.1⟩
    unfold Rcv.tcpReceiveEmpty
    split
    · exact h
    · exact h.flags s.rcv.ackDelay true
  | recved len =>
    obtain ⟨o, ho, hann⟩ := tcpRecved_total h len
    refine ⟨_, right, by rw [RcvState.step, ho]; rfl, .refl right, hann, fun hle => ?_⟩
    have hwnd := (tcpRecved_same ho).2.1
    have : tcpWnd = 65535 := rfl
    simp only [RcvAct.returned] at hle ⊢
    rw [hwnd, Rcv.grownWnd]
    split <;> omega
  | emptyAck ack =>
    obtain ⟨right', hle, hann⟩ := tcpSendEmptyAck_announced h ack
    exact ⟨_, right', rfl, hle, hann, fun _ => (tcpSendEmptyAck_same _ _).2.1⟩
  | segmentOut ok =>
    refine ⟨_, _, rfl, h.onward, ?_, fun _ => ?_⟩
    · cases ok with
      | true => exact h.announce.flags false false
      | false => exact h.announce
    · cases ok <;> rfl

private theorem Onward.fits {right' : Nat} (hle : Onward right right') (h : R.Fits right) : R.Fits right' :=
  ⟨h.nxt.trans hle.1, fun y hy => (h.queue y hy).trans hle.1⟩

/-- Every step is taken: what was announced stays announced, and what is handed on leaves
the window until it is given back. -/
private theorem orderly_step (h : Orderly base S tr s right) (hg : Sends S tr a) (hp : Respects tr s a) :
    ∃ t out right', s.step base a = some (t, out) ∧ Onward right right' ∧ Orderly base S (tr ++ out) t right' ∧
      (s.rcv.rcvWnd + a.returned ≤ tcpWnd →
        t.rcv.rcvWnd + (delivered out).length = s.rcv.rcvWnd + a.returned) := by
  obtain ⟨n, hann, hgot | ⟨R, hrec, rfl, hfit⟩⟩ := h
  · obtain ⟨t, right', hstep, hle, hann', hwnd⟩ := other_total hann (.inl hgot) (a := a)
    exact ⟨t, [], right', hstep, hle, ⟨n, hann', .inl (step_gotFin hgot hstep).2⟩, hwnd⟩
  by_cases hseg : ∃ x room ack, a = .segment x room ack ∧ 0 < x.span
  swap
  · have hzero := empty_of_no_segment hseg
    obtain ⟨t, right', hstep, hle, hann', hwnd⟩ := other_total hann (.inr hzero)
    obtain ⟨-, w, -, hrec'⟩ := hrec.other hstep hzero
    refine ⟨t, [], right', hstep, hle, ⟨R.nxt, hann', .inr ⟨{ R with wnd := w }, ?_, rfl, ?_⟩⟩, hwnd⟩
    · rw [List.append_nil]
      exact hrec'
    · exact hle.fits ⟨hfit.nxt, hfit.queue⟩
  obtain ⟨x, room, ack, rfl, hspan⟩ := hseg
  obtain ⟨hxS, hlen, hnear⟩ := hg x rfl
  have hx : x.off + x.span ≤ right := by
    have hle := hp x rfl
    have hn := hann.nxt_le
    have hw := hann.le_ann
    have hw' := hann.ann_le
    have hw'' := hann.wnd_le
    rw [hann.nxt, hann.edge, toNat_num_sub (by omega), ← hrec.nxt] at hle
    omega
  have hlim : right ≤ R.edge := hann.le_ann.trans (Nat.add_le_add_left (hann.ann_le.trans_eq hrec.at_.wnd) _)
  obtain ⟨o, ho, right', hle, hann'⟩ :=
    tcpReceiveData_total hrec.at_ hrec.of hann hfit hxS hx (segOf_is hlen) (hrec.nxt ▸ hnear) hspan room ack
  have hfits := @Receiver.receive_fits _ S R x room right hrec.of hfit hlim hxS hx
  obtain ⟨-, hnxt, -, -, -⟩ := @Receiver.receive_spec _ S R x room hrec.of hxS
  obtain ⟨hat, hdata, hfin, hedge⟩ := tcpReceiveData_is hrec.at_ hrec.of (segOf_is hlen) (hrec.nxt ▸ hnear) hspan ho
  obtain ⟨hbytes, -, hgot⟩ := handOn_spec o
  refine ⟨(handOn o).1, (handOn o).2, right', ?_, hle, ⟨_, handOn_announced hann', ?_⟩, fun _ => ?_⟩
  · rw [RcvState.step, segOf_tcplen, if_pos ⟨hspan, hrec.finless.1⟩, ho]
    rfl
  · cases hf : o.2.2 with
    | true => exact .inl (hgot.trans hf)
    | false =>
      obtain ⟨-, -, -, hrest⟩ := hrec.segment hxS hlen hnear hspan ho
      exact .inr ⟨_, hrest hf, rfl, hle.fits hfits⟩
  · have hwnd := hat.wnd
    have hold := hrec.at_.wnd
    have hle := hrec.at_.wnd_le
    have : tcpWnd = 65535 := rfl
    simp only [Receiver.edge] at hedge
    rw [hbytes, hdata]
    simp only [RcvAct.returned, handOn]
    cases hf : o.2.2 with
    | false =>
      rw [← hfin, hf] at hnxt
      simp only [Bool.toNat_false, Bool.false_eq_true, if_false] at hnxt ⊢
      omega
    | true =>
      rw [← hfin, hf] at hnxt
      simp only [Bool.toNat_true, if_true] at hnxt ⊢
      rw [if_neg (by omega)]
      omega

private theorem orderly_run {ts : List RcvTransition} (hr : (rcvMachine base).Run ts s) (hg : Behaves S ts) :
    ∃ right, Orderly base S (Machine.trace ts) s right := by
  refine hr.along _ (fun tr s => ∃ right, Orderly base S tr s right) (fun _ hs => ⟨_, orderly_init hs⟩) ?_ hg
  rintro tr s a t out ⟨right, h⟩ hstep ⟨hs, hp⟩
  obtain ⟨t', out', right', hstep', -, h', -⟩ := orderly_step h hs hp
  cases hstep.symm.trans hstep'
  exact ⟨right', h'⟩

/-- No assertion of the receiving code fails for a peer that sends its stream inside the window
it was told, in whatever order, however often and however cut. -/
theorem respectful_peer_never_aborts {ts : List RcvTransition} (hr : (rcvMachine base).Run ts s)
    (hg : Behaves S ts) (hs : Sends S (Machine.trace ts) a) (hp : Respects (Machine.trace ts) s a) :
    ((rcvMachine base).step s a).isSome := by
  obtain ⟨right, h⟩ := orderly_run hr hg
  obtain ⟨t, out, -, hstep, -⟩ := orderly_step h hs hp
  exact Option.isSome_of_mem hstep

/-- The stream with its last byte taken out of order, given back, and the peer's FIN. -/
def windowed : List RcvAct :=
  [.segment ⟨3, [4, 5], false⟩ true .sent, .segment ⟨0, [1, 2, 3], false⟩ true .sent, .emptyAck .sent,
    .recved 5, .segment ⟨5, [], true⟩ true .sent, .segmentOut true]

theorem respectful_peer_never_aborts_fin : ∃ ts s, (rcvMachine 0xFFFFFFFE).Run ts s ∧ Behaves [1, 2, 3, 4, 5] ts ∧
    Sends [1, 2, 3, 4, 5] (Machine.trace ts) (.segment ⟨5, [], true⟩ false .noBuf) ∧
    ((rcvMachine 0xFFFFFFFE).step s (.segment ⟨5, [], true⟩ false .noBuf)).isSome := by
  obtain ⟨ts, s, run, h⟩ := Machine.Run.exists_of_exec (rcvMachine 0xFFFFFFFE)
    ⟨Rcv.established 0xFFFFFFFE 1460 false false, false⟩ (windowed.take 4)
    (fun ts s => decide (Behaves [1, 2, 3, 4, 5] ts ∧
      Sends [1, 2, 3, 4, 5] (Machine.trace ts) (.segment ⟨5, [], true⟩ false .noBuf) ∧
      Respects (Machine.trace ts) s (.segment ⟨5, [], true⟩ false .noBuf)))
    ⟨1460, false, false, rfl⟩ (by decide +kernel)
  obtain ⟨hg, hs, hp⟩ := of_decide_eq_true h
  exact ⟨ts, s, run, hg, hs, respectful_peer_never_aborts run hg hs hp⟩

/-- The announced right edge never moves back, and never lies beyond the window that is open. -/
theorem announced_edge_only_grows {ts : List RcvTransition} (hr : (rcvMachine base).Run ts s) (hg : Behaves S ts) :
    ∀ t ∈ ts, tcpSeqLeq t.pre.rcv.rcvAnnRightEdge t.post.rcv.rcvAnnRightEdge = true ∧
      tcpSeqLeq t.post.rcv.rcvAnnRightEdge (t.post.rcv.rcvNxt + ofLen t.post.rcv.rcvWnd) = true := by
  induction hr with
  | init => exact List.forall_mem_nil _
  | @next ts s t a out hr hstep ih =>
    obtain ⟨hg, hs, hp⟩ := Machine.along_snoc.mp hg
    refine List.forall_mem_append.mpr ⟨ih hg, List.forall_mem_singleton.mpr ?_⟩
    obtain ⟨right, h⟩ := orderly_run hr hg
    obtain ⟨t', out', right', hstep', hle, h', -⟩ := orderly_step h hs hp
    cases hstep.symm.trans hstep'
    obtain ⟨n, hann, -⟩ := h
    obtain ⟨n', hann', -⟩ := h'
    have hn := hann'.nxt_le
    have hw := hann'.le_ann
    have hw' := hann'.ann_le
    have hw'' := hann'.wnd_le
    obtain ⟨hle, hle'⟩ := hle
    dsimp only
    rw [hann.edge, hann'.edge, hann'.nxt, num_add_ofLen, tcpSeqLeq_num (by omega), tcpSeqLeq_num (by omega)]
    exact ⟨decide_eq_true (by omega), decide_eq_true (by omega)⟩

theorem announced_edge_only_grows_reopened : ∃ ts s, (rcvMachine 0xFFFFFFFE).Run ts s ∧
    Behaves [1, 2, 3, 4, 5] ts ∧ ts.length = 6 ∧
    ∀ t ∈ ts, tcpSeqLeq t.pre.rcv.rcvAnnRightEdge t.post.rcv.rcvAnnRightEdge = true ∧
      tcpSeqLeq t.post.rcv.rcvAnnRightEdge (t.post.rcv.rcvNxt + ofLen t.post.rcv.rcvWnd) = true := by
  obtain ⟨ts, s, run, h⟩ := Machine.Run.exists_of_exec (rcvMachine 0xFFFFFFFE)
    ⟨Rcv.established 0xFFFFFFFE 1460 false false, false⟩ windowed
    (fun ts _ => decide (Behaves [1, 2, 3, 4, 5] ts ∧ ts.length = 6)) ⟨1460, false, false, rfl⟩ (by decide +kernel)
  obtain ⟨hg, hlen⟩ := of_decide_eq_true h
  exact ⟨ts, s, run, hg, hlen, announced_edge_only_grows run hg⟩

/-- What the application gives back along a run. -/
def returned (ts : List RcvTransition) : Nat := (ts.map fun t => t.act.returned).sum

private theorem returned_snoc (ts : List RcvTransition) (t : RcvTransition) :
    returned (ts ++ [t]) = returned ts + t.act.returned := by
  simp [returned]

/-- Nothing is handed on while the application gives back. -/
private theorem returned_or_delivered (hstep : s.step base a = some (t, out)) : a.returned = 0 ∨ out = [] := by
  cases a with
  | recved len =>
    obtain ⟨o, -, hout⟩ := Option.map_eq_some_iff.mp hstep
    cases hout
    exact .inr rfl
  | _ => exact .inl rfl

/-- What the application was handed and has not given back is what the window lacks. -/
theorem window_accounts_for_delivered {ts : List RcvTransition} (hr : (rcvMachine base).Run ts s)
    (hg : Behaves S ts) (hback : ∀ us, us <+: ts → returned us ≤ (delivered (Machine.trace us)).length) :
    s.rcv.rcvWnd + (delivered (Machine.trace ts)).length = tcpWnd + returned ts := by
  induction hr with
  | init hs =>
    obtain ⟨mss, ackDelay, ackNow, rfl⟩ := hs
    rfl
  | @next ts s t a out hr hstep ih =>
    obtain ⟨hg, hs, hp⟩ := Machine.along_snoc.mp hg
    have hall := ih hg fun us hus => hback us (hus.trans (List.prefix_append _ _))
    have hlast := hback _ List.prefix_rfl
    obtain ⟨right, h⟩ := orderly_run hr hg
    obtain ⟨t', out', right', hstep', -, -, hwnd⟩ := orderly_step h hs hp
    cases hstep.symm.trans hstep'
    have hold := hback ts (List.prefix_append _ _)
    simp only [returned_snoc, Machine.trace_snoc, delivered_append, List.length_append] at hlast ⊢
    have hroom : s.rcv.rcvWnd + a.returned ≤ tcpWnd := by
      rcases returned_or_delivered hstep with hzero | rfl
      · omega
      · simp only [delivered, List.flatMap_nil, List.length_nil] at hlast hall
        omega
    have hmoved : t.rcv.rcvWnd + (delivered out).length = s.rcv.rcvWnd + a.returned := hwnd hroom
    omega

/-- Everything was taken and given back, and the window is open again. -/
theorem window_accounts_for_delivered_all : ∃ ts s, (rcvMachine 0xFFFFFFFE).Run ts s ∧
    Behaves [1, 2, 3, 4, 5] ts ∧ (∀ us, us <+: ts → returned us ≤ (delivered (Machine.trace us)).length) ∧
    returned ts = 5 ∧ s.gotFin = true ∧
    s.rcv.rcvWnd + (delivered (Machine.trace ts)).length = tcpWnd + returned ts := by
  obtain ⟨ts, s, run, h⟩ := Machine.Run.exists_of_exec (rcvMachine 0xFFFFFFFE)
    ⟨Rcv.established 0xFFFFFFFE 1460 false false, false⟩ windowed
    (fun ts s => decide (Behaves [1, 2, 3, 4, 5] ts ∧
      (∀ us ∈ ts.inits, returned us ≤ (delivered (Machine.trace us)).length) ∧ returned ts = 5 ∧ s.gotFin = true))
    ⟨1460, false, false, rfl⟩ (by decide +kernel)
  obtain ⟨hg, hback, hsum, hfin⟩ := of_decide_eq_true h
  have hback' := fun us hus => hback us ((List.mem_inits us ts).mpr hus)
  exact ⟨ts, s, run, hg, hback', hsum, hfin, window_accounts_for_delivered run hg hback'⟩

end Tunosocks.Lwip
