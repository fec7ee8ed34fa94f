import Tunosocks.Foundation.Machine
import Tunosocks.Lwip.SendFrame

/-! Whole runs of the sending side, against any peer: what goes out is what was written, at the
number it was written for, and nothing leaves the queues before it is acknowledged. -/
namespace Tunosocks.Lwip
open Foundation Foundation.Serial Tcp

/-- `LWIP_TCP_CALC_INITIAL_CWND` -/
def initialCwnd (mss : Nat) : Nat := min (4 * mss) (max (2 * mss) 4380)

/-- The sending side once the handshake is over; `base` is the number of the first byte. -/
def Snd.established (base wl1 wl2 : BitVec 32) (mss wnd wndMax : Nat) (memErr : Bool) : Snd where
  sndNxt := base
  lastack := base
  sndLbb := base
  sndWl1 := wl1
  sndWl2 := wl2
  sndWnd := wnd
  sndWndMax := wndMax
  cwnd := initialCwnd mss
  ssthresh := 0xffff
  bytesAcked := 0
  sndBuf := 0xffff
  sndQueuelen := 0
  mss := mss
  dupacks := 0
  rtime := -1
  unsent := []
  unacked := []
  nagleMemErr := memErr
  fin := false
  infr := false
  nodelay := true

/-- The sending side, and `remote_recv_buff_` at address 0, which the segments refer to. -/
structure TxState where
  snd : Snd
  buff : List UInt8
  deriving DecidableEq

/-- What one call of `tcp_output` meets: whether an acknowledgement is due, and how many segments the
interface takes before it refuses one. -/
structure Link where
  ackNow : Bool
  ok : Nat
  deriving DecidableEq

inductive SndEvent where
  | accepted (data : List UInt8)
  | closed
  | sent (seg : OutSeg) (wire : List UInt8)
  | acked (len : Nat)
  deriving DecidableEq

inductive SndAct where
  /-- A read from the remote, and what the relay does with it. -/
  | relay (data : List UInt8) (room : Nat) (link : Link)
  /-- A segment of the peer; the callbacks may call `tcp_close` if it carries something. -/
  | segment (hdr : AckHdr) (close : Option Nat) (link : Link)
  /-- `tcp_output` for another reason. -/
  | output (link : Link)
  deriving DecidableEq

def SndAct.link : SndAct → Link
  | .relay _ _ link => link
  | .segment _ _ link => link
  | .output link => link

namespace TxState

def output (s : TxState) (link : Link) : TxState × List SndEvent :=
  let o := s.snd.tcpOutput link.ackNow link.ok
  ({ s with snd := o.1 }, o.2.1.map fun seg => .sent seg (seg.wire s.buff))

/-- `async_read_some` into the start of the buffer. -/
def fill (s : TxState) (data : List UInt8) : TxState := { s with buff := data ++ s.buff.drop data.length }

/-- `tcp_write` from the start of the buffer; it is refused once the block was closed. -/
def write (s : TxState) (data : List UInt8) (room : Nat) : Option (TxState × List SndEvent) :=
  if s.snd.fin then some (s, [])
  else (s.snd.tcpWrite 0 data room).map fun o => ({ s with snd := o.1 }, if o.2 = .ok then [.accepted data] else [])

/-- `tcp_close` on its way without a reset; a block that was closed stays as it is. -/
def close (s : TxState) (room : Nat) : TxState × List SndEvent :=
  if s.snd.fin then (s, [])
  else
    let o := s.snd.tcpSendFin room
    ({ s with snd := o.1 }, if o.2 = .ok then [.closed] else [])

/-- The acknowledgement of a segment, and `TCP_EVENT_SENT`. -/
def ack (s : TxState) (hdr : AckHdr) : Option (TxState × List SndEvent) :=
  (s.snd.tcpReceiveAck hdr).map fun o => ({ s with snd := o.1 }, if 0 < o.2.1 then [.acked o.2.1] else [])

/-- The callbacks of a segment: only one that carries something can lead to `tcp_close`. -/
def callbacks (s : TxState) (hdr : AckHdr) : Option Nat → TxState × List SndEvent
  | some room => if 0 < hdr.tcplen then s.close room else (s, [])
  | none => (s, [])

/-- A step; `none` is a failed assertion. -/
def step (s : TxState) : SndAct → Option (TxState × List SndEvent)
  | .relay data room link =>
    ((s.fill data).write data room).map fun o => ((o.1.output link).1, o.2 ++ (o.1.output link).2)
  | .segment hdr close link =>
    (s.ack hdr).map fun o =>
      let c := o.1.callbacks hdr close
      ((c.1.output link).1, o.2 ++ c.2 ++ (c.1.output link).2)
  | .output link => some (s.output link)

end TxState

/-- The sending side of a connection whose peer announced a window of at least two bytes in the handshake. The maximum
segment size is that of the handshake: an option in a later segment, which `tcp_parseopt` would take, is left out. -/
def sndMachine (base : BitVec 32) : Machine TxState SndAct SndEvent where
  Init s := ∃ wl1 wl2 mss wnd wndMax memErr buff, 0 < mss ∧ mss ≤ 1460 ∧ 2 ≤ wndMax ∧ wnd ≤ wndMax ∧
    wndMax ≤ 0xffff ∧ s = ⟨Snd.established base wl1 wl2 mss wnd wndMax memErr, buff⟩
  step := TxState.step

abbrev SndTransition := Transition TxState SndAct SndEvent

def SndEvent.data : SndEvent → List UInt8
  | .accepted data => data
  | _ => []

def SndEvent.len : SndEvent → Nat
  | .acked len => len
  | _ => 0

/-- What `tcp_write` accepted. -/
def written (tr : List SndEvent) : List UInt8 := tr.flatMap SndEvent.data

/-- Whether the FIN was queued. -/
def ended (tr : List SndEvent) : Bool := tr.contains .closed

/-- What `tcp_sent_func` was told in all. -/
def acked (tr : List SndEvent) : Nat := (tr.map SndEvent.len).sum

/-- No segment that waits to be sent again is the last one waiting. -/
def Snd.settled (s : Snd) : Bool := s.unsent.getLast?.all fun v => s.unacked.all fun u => tcpSeqLt u.seqno v.seqno

/-- What is read into the buffer. -/
def SndAct.input : SndAct → List UInt8
  | .relay data _ _ => data
  | _ => []

/-- The read leaves the bytes alone that a queued segment refers to. -/
def Spares (s : TxState) (a : SndAct) : Prop :=
  ∀ seg ∈ s.snd.held, ∀ r ∈ seg.p, r.load (s.fill a.input).buff = r.load s.buff

instance (s : TxState) (a : SndAct) : Decidable (Spares s a) :=
  inferInstanceAs (Decidable (∀ seg ∈ s.snd.held, ∀ r ∈ seg.p, _))

variable {base : BitVec 32} {data : List UInt8} {seg : OutSeg} {x : Piece UInt8} {us vs : List (Piece UInt8)}
  {k a n : Nat} {tr evs : List SndEvent} {s s' : TxState}

@[simp] theorem written_append (tr evs : List SndEvent) : written (tr ++ evs) = written tr ++ written evs := by
  simp [written]

@[simp] theorem ended_append (tr evs : List SndEvent) : ended (tr ++ evs) = (ended tr || ended evs) := by
  simp [ended]

@[simp] theorem acked_append (tr evs : List SndEvent) : acked (tr ++ evs) = acked tr + acked evs := by
  simp [acked]

/-- Sending is no news for the application. -/
theorem sent_silent (l : List OutSeg) (f : OutSeg → List UInt8) :
    let evs := l.map fun seg => SndEvent.sent seg (f seg)
    written evs = [] ∧ ended evs = false ∧ acked evs = 0 := by
  induction l with
  | nil => exact ⟨rfl, rfl, rfl⟩
  | cons seg l ih =>
    obtain ⟨-, -, h3⟩ := ih
    refine ⟨?_, ?_, ?_⟩
    · simp [written, SndEvent.data]
    · simp [ended]
    · simpa [acked, SndEvent.len] using h3

private theorem forall₂_all {P : OutSeg → Bool} {Q : Piece UInt8 → Prop} {ss : List OutSeg}
    (h : List.Forall₂ (OutSeg.Is base) ss us) (hpq : ∀ u y, y ∈ us → u.Is base y → (P u = true ↔ Q y)) :
    ss.all P = true ↔ ∀ y ∈ us, Q y := by
  induction h with
  | nil => simp
  | @cons u y ss us hu _ ih =>
    rw [List.all_cons, Bool.and_eq_true, List.forall_mem_cons, hpq u y List.mem_cons_self hu,
      ih fun v z hz => hpq v z (List.mem_cons_of_mem y hz)]

theorem Sending.settled_iff {S : List UInt8} {s : Snd} (h : Sending base S s k a n us vs) :
    s.settled = true ↔ Outgoing.Behind us vs := by
  have hall := h.unsent
  unfold Snd.settled Outgoing.Behind
  rcases List.eq_nil_or_concat s.unsent with hnil | ⟨init, last, hs⟩
  · rw [hnil] at hall ⊢
    cases hall
    simp
  rw [List.concat_eq_append] at hs
  rw [hs] at hall ⊢
  obtain ⟨vs, x, rfl, -, hx⟩ := forall₂_concat.mp hall
  simp only [List.getLast?_concat, Option.all_some, Option.mem_some_iff, forall_eq']
  refine forall₂_all h.unacked fun u y hy hu => ?_
  have hyk := h.close y (List.mem_append_left _ hy)
  have hxk := h.close x (by simp)
  simp only [Piece.past] at hyk hxk
  rw [hu.seqno, hx.seqno, tcpSeqLt_num (by omega), decide_eq_true_eq, Nat.cast_lt]

theorem Sending.n_le_written {S : List UInt8} {s : Snd} (h : Sending base S s k a n us vs) (hfin : s.fin = false) :
    n ≤ S.length := by
  have := h.n_le
  rwa [hfin] at this

/-- The segment carries a piece of what is written. -/
structure Sent (base : BitVec 32) (tr : List SndEvent) (seg : OutSeg) (x : Piece UInt8) : Prop where
  is : seg.Is base x
  cut : x.From (written tr)
  fin : x.fin = true → ended tr = true

private theorem Sent.grow (h : Sent base tr seg x) (hend : ended tr = true → written evs = []) :
    Sent base (tr ++ evs) seg x := by
  refine ⟨h.is, ⟨h.cut.off_le.trans (by simp), ?_, fun hf => ?_⟩, fun hf => by simp [h.fin hf]⟩
  · rw [written_append, List.drop_append_of_le_length h.cut.off_le]
    exact h.cut.data.trans (List.prefix_append _ _)
  · rw [written_append, hend (h.fin hf), List.append_nil]
    exact h.cut.fin hf

/-- The state after the events `tr`. -/
structure Transmitting (base : BitVec 32) (tr : List SndEvent) (s : TxState) (k a n : Nat)
    (us vs : List (Piece UInt8)) : Prop where
  sending : Sending base (written tr) s.snd k a n us vs
  fin : s.snd.fin = ended tr
  sized : Sized s.snd (us ++ vs)
  sent : ∀ seg wire, .sent seg wire ∈ tr → ∃ x, Sent base tr seg x
  covered : ∀ p < n, ∃ seg wire x, .sent seg wire ∈ tr ∧ seg.Is base x ∧ x.off ≤ p ∧ p < x.past
  room : s.snd.sndBuf + (written tr).length = 0xffff + acked tr

namespace Transmitting

theorem init (h : (sndMachine base).Init s) : Transmitting base [] s 0 0 0 [] [] := by
  obtain ⟨wl1, wl2, mss, wnd, wndMax, memErr, buff, hmss, -, hwnd, -, -, rfl⟩ := h
  have h0 : base = num base (0 : Nat) := (num_zero base).symm
  refine ⟨⟨.nil, .nil, .empty _ _, h0, h0, fun _ => h0, le_rfl, le_rfl, le_rfl, List.forall_mem_nil _,
    List.forall_mem_nil _, rfl, rfl⟩, rfl, ⟨hmss, hwnd, List.forall_mem_nil _⟩, ?_, ?_, rfl⟩
  · exact fun _ _ h => absurd h List.not_mem_nil
  · exact fun p hp => absurd hp (Nat.not_lt_zero p)

/-- What is not queued and not part of a segment's size may change. -/
theorem congr (h : Transmitting base tr s k a n us vs) (hq : s'.snd.queues = s.snd.queues)
    (hmss : s'.snd.mss = s.snd.mss) (hwnd : s'.snd.sndWndMax = s.snd.sndWndMax) :
    Transmitting base tr s' k a n us vs := by
  have hsend := h.sending.congr hq
  simp only [Snd.queues, Prod.mk.injEq] at hq
  obtain ⟨-, -, hfin, -, -, -, hbuf, -⟩ := hq
  exact ⟨hsend, hfin.trans h.fin, h.sized.mono hmss hwnd.ge, h.sent, h.covered, hbuf ▸ h.room⟩

/-- Sending again or for the first time. -/
theorem output (h : Transmitting base tr s k a n us vs) (link : Link) :
    ∃ n' us' vs', Transmitting base (tr ++ (s.output link).2) (s.output link).1 k a n' us' vs' ∧ n ≤ n' ∧
      (Fresh n vs → Fresh n' vs') ∧ (∀ x ∈ us', x ∈ us ∨ x.stop ≤ a + s.snd.wnd) ∧
      (s.snd.nodelay = true → (s.output link).2.length < link.ok → Sending.Drains s.snd a n vs n' vs') := by
  obtain ⟨n', us', vs', hput, hdrain⟩ := h.sending.tcpOutput link.ackNow link.ok
  obtain ⟨htune, hfin, -⟩ := tcpOutput_frame s.snd link.ackNow link.ok
  obtain ⟨hw, he, ha⟩ := sent_silent (s.snd.tcpOutput link.ackNow link.ok).2.1 (OutSeg.wire s.buff)
  simp only [Snd.tuning, Prod.mk.injEq] at htune
  obtain ⟨hmss, -, hmax, -⟩ := htune
  have hsame := h.sending.buf.trans hput.state.buf.symm
  rw [Sending.dataLen_perm hput.same] at hsame
  refine ⟨n', us', vs', ⟨?_, ?_, ?_, ?_, ?_, ?_⟩, hput.le, hput.fresh, hput.flight,
    by simpa [TxState.output] using hdrain⟩
  · simp only [TxState.output, written_append, hw, List.append_nil]
    exact hput.state
  · simp only [TxState.output, ended_append, he, Bool.or_false]
    exact hfin.trans h.fin
  · exact (h.sized.of_subset hput.same.subset).mono hmss hmax.ge
  · intro seg wire hmem
    rcases List.mem_append.mp hmem with hmem | hmem
    · obtain ⟨x, hx⟩ := h.sent seg wire hmem
      exact ⟨x, hx.grow fun _ => hw⟩
    · obtain ⟨t, ht, heq⟩ := List.mem_map.mp hmem
      cases heq
      obtain ⟨x, hx⟩ := hput.carried seg ht
      refine ⟨x, hx.is, ?_, fun hf => ?_⟩
      · simp only [TxState.output, written_append, hw, List.append_nil]
        exact hx.cut
      · rw [ended_append, ← h.fin, hx.fin hf, Bool.true_or]
  · intro p hp
    by_cases hpn : p < n
    · obtain ⟨seg, wire, x, hmem, hx⟩ := h.covered p hpn
      exact ⟨seg, wire, x, List.mem_append_left _ hmem, hx⟩
    · obtain ⟨seg, hmem, x, hx⟩ := hput.whole p (Nat.not_lt.mp hpn) hp
      exact ⟨seg, seg.wire s.buff, x, List.mem_append_right _ (List.mem_map_of_mem hmem), hx⟩
  · simp only [TxState.output, written_append, hw, List.append_nil, acked_append, ha, Nat.add_zero]
    rw [← h.room]
    omega

/-- `tcp_write` of what was read. -/
theorem write (h : Transmitting base tr s k a n us vs) (hb : Outgoing.Behind us vs) (data : List UInt8) (room : Nat) :
    ∃ s' evs vs', s.write data room = some (s', evs) ∧ Transmitting base (tr ++ evs) s' k a n us vs' ∧
      (Fresh n vs → Fresh n vs') ∧ s'.snd.tuning = s.snd.tuning := by
  unfold TxState.write
  split
  case isTrue => exact ⟨s, [], vs, rfl, by simpa using h, id, rfl⟩
  case isFalse hopen =>
    have hfin := Bool.not_eq_true _ ▸ hopen
    have hend : ended tr = false := h.fin.symm.trans hfin
    obtain ⟨snd, err, hw, hmem, hok⟩ := h.sending.tcpWrite hfin h.sized hb 0 data room
    refine ⟨{ s with snd }, if err = .ok then [.accepted data] else [], ?_⟩
    rw [hw]
    cases err with
    | mem =>
      rw [hmem rfl]
      refine ⟨vs, rfl, ?_, id, rfl⟩
      rw [if_neg (by simp), List.append_nil]
      exact ⟨h.sending.congr rfl, h.fin, ⟨h.sized.mss, h.sized.wnd, h.sized.small⟩, h.sent, h.covered, h.room⟩
    | ok =>
      obtain ⟨vs', hsend, hsized, -, hlater, hbuf⟩ := hok rfl
      obtain ⟨htune, hkeep⟩ := tcpWrite_tuning hw
      have hgrow : written (tr ++ [.accepted data]) = written tr ++ data := by simp [written, SndEvent.data]
      refine ⟨vs', rfl, ?_, hlater.fresh (h.sending.n_le_written hfin), htune⟩
      rw [if_pos rfl]
      refine ⟨hgrow ▸ hsend, ?_, hsized, fun seg wire hmem => ?_, fun p hp => ?_, ?_⟩
      · rw [hkeep, hfin, ended_append, hend]
        rfl
      · obtain ⟨x, hx⟩ := h.sent seg wire (by simpa using hmem)
        exact ⟨x, hx.grow fun he => absurd he (by simp [hend])⟩
      · obtain ⟨seg, wire, x, hmem, hx⟩ := h.covered p hp
        exact ⟨seg, wire, x, List.mem_append_left _ hmem, hx⟩
      · have hroom := h.room
        have hnone : acked [SndEvent.accepted data] = 0 := rfl
        rw [hgrow, List.length_append, acked_append, hnone]
        show snd.sndBuf + _ = _
        omega

/-- `tcp_close` behind everything that was written. -/
theorem close (h : Transmitting base tr s k a n us vs) (hb : Outgoing.Behind us vs) (room : Nat) :
    ∃ vs', Transmitting base (tr ++ (s.close room).2) (s.close room).1 k a n us vs' ∧ (Fresh n vs → Fresh n vs') := by
  unfold TxState.close
  split
  case isTrue => exact ⟨vs, by simpa using h, id⟩
  case isFalse hopen =>
    have hfin := Bool.not_eq_true _ ▸ hopen
    dsimp only
    rcases h.sending.tcpSendFin hfin h.sized hb room with ⟨herr, heq⟩ | ⟨herr, hset, vs', hsend, hsized, -, hlater⟩
    · rw [herr, if_neg (by simp), List.append_nil, heq]
      exact ⟨vs, ⟨h.sending.congr rfl, h.fin, ⟨h.sized.mss, h.sized.wnd, h.sized.small⟩, h.sent, h.covered, h.room⟩, id⟩
    · have hgrow : written (tr ++ [.closed]) = written tr := by simp [written, SndEvent.data]
      rw [herr, if_pos rfl]
      refine ⟨vs', ⟨hgrow.symm ▸ hsend, ?_, hsized, fun seg wire hmem => ?_, fun p hp => ?_, ?_⟩,
        hlater.fresh (h.sending.n_le_written hfin)⟩
      · rw [hset, ended_append]
        exact (Bool.or_true _).symm
      · obtain ⟨x, hx⟩ := h.sent seg wire (by simpa using hmem)
        exact ⟨x, hx.grow fun _ => rfl⟩
      · obtain ⟨seg, wire, x, hmem, hx⟩ := h.covered p hp
        exact ⟨seg, wire, x, List.mem_append_left _ hmem, hx⟩
      · have hnone : acked [SndEvent.closed] = 0 := rfl
        rw [hgrow, acked_append, hnone, (tcpSendFin_frame s.snd room).1]
        exact h.room

/-- What happens to the queues is said by `Sending`; the rest is the same for every acknowledgement. -/
theorem ofAck {hdr : AckHdr} {snd : Snd} {len k' a' : Nat} {now : Bool} {us' vs' : List (Piece UInt8)}
    (h : Transmitting base tr s k a n us vs) (heq : s.snd.tcpReceiveAck hdr = some (snd, len, now))
    (hsend : Sending base (written tr) snd k' a' n us' vs') (hsub : us' ++ vs' ⊆ us ++ vs)
    (hbuf : snd.sndBuf = s.snd.sndBuf + len) :
    Transmitting base (tr ++ if 0 < len then [.acked len] else []) { s with snd } k' a' n us' vs' := by
  obtain ⟨hw, he, ha, hs⟩ : written (if 0 < len then [SndEvent.acked len] else []) = [] ∧
      ended (if 0 < len then [SndEvent.acked len] else []) = false ∧
      Lwip.acked (if 0 < len then [SndEvent.acked len] else []) = len ∧
      ∀ seg wire, SndEvent.sent seg wire ∉ (if 0 < len then [SndEvent.acked len] else []) := by
    split
    · exact ⟨rfl, rfl, by simp [acked, SndEvent.len], by simp⟩
    case isFalse hz => exact ⟨rfl, rfl, (Nat.eq_zero_of_not_pos hz).symm, by simp⟩
  refine ⟨?_, ?_, tcpReceiveAck_sized heq (h.sized.of_subset hsub), fun seg wire hmem => ?_, fun p hp => ?_, ?_⟩
  · rw [written_append, hw, List.append_nil]
    exact hsend
  · rw [ended_append, he, Bool.or_false]
    exact (tcpReceiveAck_fin heq).trans h.fin
  · obtain ⟨x, hx⟩ := h.sent seg wire ((List.mem_append.mp hmem).resolve_right (hs seg wire))
    exact ⟨x, hx.grow fun _ => hw⟩
  · obtain ⟨seg, wire, x, hmem, hx⟩ := h.covered p hp
    exact ⟨seg, wire, x, List.mem_append_left _ hmem, hx⟩
  · have hroom := h.room
    rw [written_append, hw, List.append_nil, acked_append, ha]
    show snd.sndBuf + _ = _
    omega

theorem behind_suffix {us' vs' : List (Piece UInt8)} (hb : Outgoing.Behind us vs) (hu : us' <:+ us)
    (hv : vs' <:+ vs) : Outgoing.Behind us' vs' := by
  intro v hmem u hu'
  obtain ⟨pre, rfl⟩ := hv
  refine hb v ?_ u (hu.subset hu')
  rw [List.getLast?_append, Option.mem_def.mp hmem]
  rfl

/-- Whatever acknowledgement comes, no assertion fails, and only what was sent and is acknowledged goes. -/
theorem ack (h : Transmitting base tr s k a n us vs) (hdr : AckHdr) :
    ∃ s' evs k' a' us' vs', s.ack hdr = some (s', evs) ∧ Transmitting base (tr ++ evs) s' k' a' n us' vs' ∧
      (0 < hdr.tcplen → Outgoing.Behind us vs → Outgoing.Behind us' vs') := by
  have hupd := h.sending.congr (Sending.updateWnd_same s.snd hdr)
  rcases h.sending.tcpReceiveAck_cases hdr with ⟨hlen, heq⟩ | ⟨snd, now, heq, hq⟩ | ⟨snd, len, k', b, heq, hb⟩
  · obtain ⟨us', vs', hsend, hperm⟩ := hupd.dupAck
    have hsame := h.sending.buf.trans hsend.buf.symm
    rw [Sending.dataLen_perm hperm] at hsame
    refine ⟨_, _, k, a, us', vs', by rw [TxState.ack, heq]; rfl, h.ofAck heq hsend hperm.subset (by omega),
      fun hpos => absurd hlen (Nat.ne_of_gt hpos)⟩
  · have hsend := h.sending.congr hq
    simp only [Snd.queues, Prod.mk.injEq] at hq
    exact ⟨_, _, k, a, us, vs, by rw [TxState.ack, heq]; rfl,
      h.ofAck heq hsend (List.Subset.refl _) hq.2.2.2.2.2.2.1, fun _ hb => hb⟩
  · obtain ⟨-, -, hbuf, hsend⟩ := hb
    have hu := List.dropWhile_suffix (l := us) fun x => decide (x.past ≤ b)
    have hv := List.dropWhile_suffix (l := vs) fun x => decide (x.past ≤ b)
    refine ⟨_, _, k', b, _, _, by rw [TxState.ack, heq]; rfl, h.ofAck heq hsend ?_ hbuf,
      fun _ hb => behind_suffix hb hu hv⟩
    exact List.append_subset.mpr ⟨fun x hx => List.mem_append_left _ (hu.subset hx),
      fun x hx => List.mem_append_right _ (hv.subset hx)⟩

/-- The callbacks of a segment. -/
theorem callbacks {hdr : AckHdr} (h : Transmitting base tr s k a n us vs)
    (hb : 0 < hdr.tcplen → Outgoing.Behind us vs) (close : Option Nat) :
    ∃ vs', Transmitting base (tr ++ (s.callbacks hdr close).2) (s.callbacks hdr close).1 k a n us vs' ∧
      (Fresh n vs → Fresh n vs') := by
  have keep : ∃ vs', Transmitting base (tr ++ []) s k a n us vs' ∧ (Fresh n vs → Fresh n vs') :=
    ⟨vs, by rwa [List.append_nil], id⟩
  cases close with
  | none => exact keep
  | some room =>
    unfold TxState.callbacks
    dsimp only
    split
    case isTrue hpos => exact h.close (hb hpos) room
    case isFalse => exact keep

/-- Every step is taken from a settled state, and ends with `tcp_output`. -/
theorem input (h : Transmitting base tr s k a n us vs) (hs : s.snd.settled = true) (act : SndAct) :
    ∃ m evs k' a' us' vs', s.step act = some ((m.output act.link).1, evs ++ (m.output act.link).2) ∧
      Transmitting base (tr ++ evs) m k' a' n us' vs' := by
  have hb := h.sending.settled_iff.mp hs
  cases act with
  | relay data room link =>
    have hfill : Transmitting base tr (s.fill data) k a n us vs := h.congr rfl rfl rfl
    obtain ⟨m, evs, vs1, hw, h1, -⟩ := hfill.write hb data room
    exact ⟨m, evs, k, a, us, vs1, by rw [TxState.step, hw]; rfl, h1⟩
  | segment hdr close link =>
    obtain ⟨s1, evs, k', a', us1, vs1, hack, h1, hb1⟩ := h.ack hdr
    obtain ⟨vs2, h2, -⟩ := h1.callbacks (fun hpos => hb1 hpos hb) close
    rw [List.append_assoc] at h2
    exact ⟨_, _, k', a', us1, vs2, by rw [TxState.step, hack]; rfl, h2⟩
  | output link => exact ⟨s, [], k, a, us, vs, rfl, by rwa [List.append_nil]⟩

private theorem step (h : Transmitting base tr s k a n us vs) (hs : s.snd.settled = true) (act : SndAct) :
    ∃ s' evs k' a' n' us' vs', s.step act = some (s', evs) ∧ Transmitting base (tr ++ evs) s' k' a' n' us' vs' := by
  obtain ⟨m, evs, k', a', us1, vs1, hstep, h1⟩ := h.input hs act
  obtain ⟨n', us', vs', h2, -⟩ := h1.output act.link
  rw [List.append_assoc] at h2
  exact ⟨_, _, k', a', n', us', vs', hstep, h2⟩

end Transmitting

/-- In every state of the run the last segment that waits is the last one there is. -/
abbrev Settled (ts : List SndTransition) : Prop := ∀ t ∈ ts, t.pre.snd.settled = true

theorem transmitting_run {ts : List SndTransition} (hr : (sndMachine base).Run ts s) (hg : Settled ts) :
    ∃ k a n us vs, Transmitting base (Machine.trace ts) s k a n us vs := by
  refine hr.guarded_trace (fun t => t.pre.snd.settled = true)
    (fun tr s => ∃ k a n us vs, Transmitting base tr s k a n us vs) (fun s hs => ⟨0, 0, 0, [], [], .init hs⟩) ?_ hg
  rintro tr s act t out ⟨k, a, n, us, vs, h⟩ hstep hs
  obtain ⟨s', evs, k', a', n', us', vs', hstep', h'⟩ := h.step hs act
  cases hstep.symm.trans hstep'
  exact ⟨k', a', n', us', vs', h'⟩

private theorem write_quiet {room : Nat} (h : s.write data room = some (s', evs)) (seg : OutSeg) (wire : List UInt8) :
    SndEvent.sent seg wire ∉ evs := by
  unfold TxState.write at h
  split at h
  · cases h
    simp
  · obtain ⟨w, -, heq⟩ := Option.map_eq_some_iff.mp h
    cases heq
    split <;> simp

private theorem ack_quiet {hdr : AckHdr} (h : s.ack hdr = some (s', evs)) (seg : OutSeg) (wire : List UInt8) :
    SndEvent.sent seg wire ∉ evs := by
  obtain ⟨w, -, heq⟩ := Option.map_eq_some_iff.mp h
  cases heq
  split <;> simp

private theorem callbacks_quiet (s : TxState) (hdr : AckHdr) (close : Option Nat) (seg : OutSeg) (wire : List UInt8) :
    SndEvent.sent seg wire ∉ (s.callbacks hdr close).2 := by
  unfold TxState.callbacks
  split
  case h_2 => simp
  case h_1 room =>
    split
    case isFalse => simp
    case isTrue =>
      unfold TxState.close
      split
      · simp
      · dsimp only
        split <;> simp

/-- Every reference yields what was written there, now and whenever a segment went out. -/
structure Unspoilt (tr : List SndEvent) (s : TxState) : Prop where
  loaded : ∀ seg ∈ s.snd.held, seg.Loaded s.buff
  wire : ∀ seg wire, .sent seg wire ∈ tr → wire = seg.bytes

namespace Unspoilt

theorem output (h : Unspoilt tr s) (link : Link) : Unspoilt (tr ++ (s.output link).2) (s.output link).1 := by
  obtain ⟨-, -, hheld, hout⟩ := tcpOutput_frame s.snd link.ackNow link.ok
  refine ⟨fun seg hseg => h.loaded seg (hheld hseg), fun seg wire hmem => ?_⟩
  rcases List.mem_append.mp hmem with hmem | hmem
  · exact h.wire seg wire hmem
  · obtain ⟨t, ht, heq⟩ := List.mem_map.mp hmem
    cases heq
    exact (h.loaded seg (List.mem_append_right _ (hout seg ht).1)).wire_eq

/-- Events without a segment, and segments that are loaded. -/
private theorem quiet {snd : Snd} (h : Unspoilt tr s) (hload : ∀ seg ∈ snd.held, seg.Loaded s.buff)
    (hevs : ∀ seg wire, SndEvent.sent seg wire ∉ evs) : Unspoilt (tr ++ evs) { s with snd } := by
  refine ⟨hload, fun seg wire hmem => ?_⟩
  exact h.wire seg wire ((List.mem_append.mp hmem).resolve_right (hevs seg wire))

private theorem write {room : Nat} (h : Unspoilt tr s) (hdata : data <+: s.buff)
    (hw : s.write data room = some (s', evs)) : Unspoilt (tr ++ evs) s' := by
  have hquiet := write_quiet hw
  unfold TxState.write at hw
  split at hw
  · cases hw
    rwa [List.append_nil]
  · obtain ⟨o, ho, heq⟩ := Option.map_eq_some_iff.mp hw
    cases heq
    exact h.quiet (tcpWrite_loaded h.loaded (by simpa using hdata) ho) hquiet

private theorem ack {hdr : AckHdr} (h : Unspoilt tr s) (hack : s.ack hdr = some (s', evs)) :
    Unspoilt (tr ++ evs) s' := by
  have hquiet := ack_quiet hack
  obtain ⟨o, ho, heq⟩ := Option.map_eq_some_iff.mp hack
  cases heq
  exact h.quiet (fun seg hseg => h.loaded seg (tcpReceiveAck_held ho hseg)) hquiet

private theorem callbacks (h : Unspoilt tr s) (hdr : AckHdr) (close : Option Nat) :
    Unspoilt (tr ++ (s.callbacks hdr close).2) (s.callbacks hdr close).1 := by
  have hquiet := callbacks_quiet s hdr close
  have keep : Unspoilt (tr ++ []) s := by rwa [List.append_nil]
  unfold TxState.callbacks at hquiet ⊢
  split at hquiet
  case h_2 => exact keep
  case h_1 room =>
    split at hquiet
    case isFalse hlen =>
      rw [if_neg hlen]
      exact keep
    case isTrue hlen =>
      rw [if_pos hlen]
      unfold TxState.close at hquiet ⊢
      split at hquiet
      case isTrue hfin =>
        rw [if_pos hfin]
        exact keep
      case isFalse hfin =>
        rw [if_neg hfin]
        exact h.quiet (tcpSendFin_loaded h.loaded room) hquiet

private theorem step {act : SndAct} (h : Unspoilt tr s) (hs : Spares s act) (hstep : s.step act = some (s', evs)) :
    Unspoilt (tr ++ evs) s' := by
  cases act with
  | relay data room link =>
    obtain ⟨o, ho, heq⟩ := Option.map_eq_some_iff.mp hstep
    cases heq
    have hfill : Unspoilt tr (s.fill data) :=
      ⟨fun seg hseg r hr => (hs seg hseg r hr).trans (h.loaded seg hseg r hr), h.wire⟩
    rw [← List.append_assoc]
    exact (hfill.write (List.prefix_append _ _) ho).output link
  | segment hdr close link =>
    obtain ⟨o, ho, heq⟩ := Option.map_eq_some_iff.mp hstep
    cases heq
    rw [← List.append_assoc, ← List.append_assoc]
    exact ((h.ack ho).callbacks hdr close).output link
  | output link =>
    cases hstep
    exact h.output link

end Unspoilt

/-- Every segment that goes out carries the bytes that were written for its number, and a FIN only behind the
last of them, as long as reads spare what is queued. -/
theorem sent_is_written {ts : List SndTransition} (hr : (sndMachine base).Run ts s) (hg : Settled ts)
    (hi : ∀ t ∈ ts, Spares t.pre t.act) {wire : List UInt8} (hsent : .sent seg wire ∈ Machine.trace ts) :
    ∃ off : Nat, seg.seqno = num base off ∧ wire <+: (written (Machine.trace ts)).drop off ∧ wire.length = seg.len ∧
      (seg.fin = true → ended (Machine.trace ts) = true ∧ off + wire.length = (written (Machine.trace ts)).length) := by
  obtain ⟨k, a, n, us, vs, h⟩ := transmitting_run hr hg
  have hun : Unspoilt (Machine.trace ts) s := by
    refine hr.guarded_trace (fun t => Spares t.pre t.act) Unspoilt (fun s hs => ?_) ?_ hi
    · obtain ⟨wl1, wl2, mss, wnd, wndMax, memErr, buff, -, -, -, -, -, rfl⟩ := hs
      exact ⟨List.forall_mem_nil _, fun _ _ h => absurd h List.not_mem_nil⟩
    · exact fun tr s act t out h hstep hs => h.step hs hstep
  obtain ⟨x, hx⟩ := h.sent seg wire hsent
  have hwire : wire = x.data := (hun.wire seg wire hsent).trans hx.is.bytes
  rw [hwire]
  refine ⟨x.off, hx.is.seqno, hx.cut.data, hx.is.len.symm, fun hf => ?_⟩
  rw [hx.is.fin] at hf
  exact ⟨hx.fin hf, hx.cut.fin hf⟩

/-- Five bytes of which the first three are sent again, two more once they are acknowledged, and the FIN. -/
def transfer : List SndAct :=
  [.relay [1, 2, 3, 4, 5] 99 ⟨false, 9⟩, .segment ⟨100, 0xFFFFFFFE, 10, 0⟩ none ⟨false, 9⟩,
    .segment ⟨100, 0xFFFFFFFE, 10, 0⟩ none ⟨false, 9⟩, .segment ⟨100, 0xFFFFFFFE, 10, 0⟩ none ⟨false, 9⟩,
    .segment ⟨100, 3, 10, 0⟩ none ⟨false, 9⟩, .relay [6, 7] 99 ⟨false, 9⟩, .segment ⟨100, 5, 10, 1⟩ (some 9) ⟨true, 9⟩]

/-- The handshake before it: three bytes a segment, and numbers that wrap. -/
def transferStart : TxState := ⟨Snd.established 0xFFFFFFFE 100 0xFFFFFFFE 3 10 10 false, []⟩

theorem transferStart_init : (sndMachine 0xFFFFFFFE).Init transferStart :=
  ⟨100, 0xFFFFFFFE, 3, 10, 10, false, [], by decide, by decide, by decide, by decide, by decide, rfl⟩

theorem sent_is_written_again : ∃ ts s, (sndMachine 0xFFFFFFFE).Run ts s ∧ Settled ts ∧
    (∀ t ∈ ts, Spares t.pre t.act) ∧ written (Machine.trace ts) = [1, 2, 3, 4, 5, 6, 7] ∧
    ∃ off : Nat, num 0xFFFFFFFE off = (3 : BitVec 32) ∧
      [6, 7] <+: (written (Machine.trace ts)).drop off := by
  obtain ⟨ts, s, run, h⟩ := Machine.Run.exists_of_exec (sndMachine 0xFFFFFFFE) transferStart transfer
    (fun ts _ => decide (Settled ts ∧ (∀ t ∈ ts, Spares t.pre t.act) ∧
      written (Machine.trace ts) = [1, 2, 3, 4, 5, 6, 7] ∧
      .sent ⟨3, [⟨0, [6, 7]⟩], 2, false, false, true⟩ [6, 7] ∈ Machine.trace ts)) transferStart_init (by decide +kernel)
  obtain ⟨hg, hi, hw, hsent⟩ := of_decide_eq_true h
  obtain ⟨off, hnum, hcut, -⟩ := sent_is_written run hg hi hsent
  exact ⟨ts, s, run, hg, hi, hw, off, hnum.symm, hcut⟩

/-- No assertion of the sending code fails in a settled state, whatever the peer acknowledges. -/
theorem sender_never_aborts {ts : List SndTransition} (hr : (sndMachine base).Run ts s) (hg : Settled ts)
    (hs : s.snd.settled = true) (act : SndAct) : ((sndMachine base).step s act).isSome := by
  obtain ⟨k, a, n, us, vs, h⟩ := transmitting_run hr hg
  obtain ⟨s', evs, _, _, _, _, _, hstep, -⟩ := h.step hs act
  exact Option.isSome_of_mem hstep

theorem sender_never_aborts_dupack : ∃ ts s, (sndMachine 0xFFFFFFFE).Run ts s ∧ Settled ts ∧
    s.snd.settled = true ∧ s.snd.unacked.length = 2 ∧ s.snd.dupacks = 2 ∧
    ((sndMachine 0xFFFFFFFE).step s (.segment ⟨100, 0xFFFFFFFE, 10, 0⟩ none ⟨false, 9⟩)).isSome := by
  obtain ⟨ts, s, run, h⟩ := Machine.Run.exists_of_exec (sndMachine 0xFFFFFFFE) transferStart (transfer.take 3)
    (fun ts s => decide (Settled ts ∧ s.snd.settled = true ∧ s.snd.unacked.length = 2 ∧ s.snd.dupacks = 2))
    transferStart_init (by decide +kernel)
  obtain ⟨hg, hs, hlen, hdup⟩ := of_decide_eq_true h
  exact ⟨ts, s, run, hg, hs, hlen, hdup, sender_never_aborts run hg hs _⟩

theorem forall₂_mem {α β : Type} {R : α → β → Prop} {l : List α} {l' : List β} {y : β} (h : List.Forall₂ R l l')
    (hy : y ∈ l') : ∃ x ∈ l, R x y := by
  induction h with
  | nil => cases hy
  | @cons x z l l' hxz _ ih =>
    rcases List.mem_cons.mp hy with rfl | hy
    · exact ⟨x, List.mem_cons_self, hxz⟩
    · obtain ⟨w, hw, hwy⟩ := ih hy
      exact ⟨w, List.mem_cons_of_mem x hw, hwy⟩

/-- Every byte that was written and is not acknowledged is in one of the queues. -/
private theorem Sending.holds {S : List UInt8} {s : Snd} {p : Nat} (h : Sending base S s k a n us vs) (hp : a ≤ p)
    (hlen : p < S.length) : ∃ seg ∈ s.unacked ++ s.unsent, ∃ off : Nat,
      seg.seqno = num base off ∧ off ≤ p ∧ seg.bytes[p - off]? = S[p]? := by
  obtain ⟨x, hx, hoff, hpast⟩ := h.kept.covers (h.k_le.trans hp) (hlen.trans_le (Nat.le_add_right _ _))
  obtain ⟨seg, hseg, his⟩ := forall₂_mem (List.rel_append h.unacked h.unsent) hx
  have hcut := (h.kept.cut hx).1
  have hin : p - x.off < x.data.length := by
    cases hf : x.fin with
    | false =>
      simp only [Piece.past, Piece.span, hf, Bool.toNat_false] at hpast
      omega
    | true =>
      have := hcut.fin hf
      simp only [Piece.stop] at this
      omega
  refine ⟨seg, hseg, x.off, his.seqno, hoff, ?_⟩
  obtain ⟨rest, hrest⟩ := hcut.data
  rw [his.bytes, ← List.getElem?_append_left hin, hrest, List.getElem?_drop, Nat.add_sub_cancel' hoff]

/-- What is taken for acknowledged was sent, and what was written and is not acknowledged is held. -/
theorem written_is_acked_or_held {ts : List SndTransition} (hr : (sndMachine base).Run ts s) (hg : Settled ts) :
    ∃ a : Nat, s.snd.lastack = num base a ∧ acked (Machine.trace ts) ≤ a ∧
      (∀ p < a, ∃ seg wire, ∃ off : Nat, .sent seg wire ∈ Machine.trace ts ∧ seg.seqno = num base off ∧ off ≤ p ∧
        p < off + seg.tcplen) ∧
      ∀ p, a ≤ p → p < (written (Machine.trace ts)).length → ∃ seg ∈ s.snd.unacked ++ s.snd.unsent, ∃ off : Nat,
        seg.seqno = num base off ∧ off ≤ p ∧ seg.bytes[p - off]? = (written (Machine.trace ts))[p]? := by
  obtain ⟨k, a, n, us, vs, h⟩ := transmitting_run hr hg
  refine ⟨a, h.sending.lastack, ?_, fun p hp => ?_, fun p hp hlen => ?_⟩
  · have h1 := h.room
    have h2 := h.sending.le_dataLen
    have h3 := h.sending.buf
    have h4 := h.sending.k_le
    omega
  · obtain ⟨seg, wire, x, hmem, hx, hoff, hpast⟩ := h.covered p (hp.trans_le h.sending.a_le)
    exact ⟨seg, wire, x.off, hmem, hx.seqno, hoff, hx.tcplen ▸ hpast⟩
  · exact h.sending.holds hp hlen

theorem written_is_acked_or_held_half : ∃ ts s, (sndMachine 0xFFFFFFFE).Run ts s ∧ Settled ts ∧
    s.snd.lastack = 3 ∧ acked (Machine.trace ts) = 5 ∧ (written (Machine.trace ts)).length = 7 ∧
    ∃ a : Nat, num 0xFFFFFFFE a = (3 : BitVec 32) ∧ 5 ≤ a ∧
      ∀ p < a, ∃ seg wire, ∃ off : Nat, .sent seg wire ∈ Machine.trace ts ∧ seg.seqno = num 0xFFFFFFFE off ∧ off ≤ p ∧
        p < off + seg.tcplen := by
  obtain ⟨ts, s, run, h⟩ := Machine.Run.exists_of_exec (sndMachine 0xFFFFFFFE) transferStart (transfer.take 6)
    (fun ts s => decide (Settled ts ∧ s.snd.lastack = 3 ∧ acked (Machine.trace ts) = 5 ∧
      (written (Machine.trace ts)).length = 7)) transferStart_init (by decide +kernel)
  obtain ⟨hg, hlast, hacked, hlen⟩ := of_decide_eq_true h
  obtain ⟨a, hnum, hle, hsent, -⟩ := written_is_acked_or_held run hg
  exact ⟨ts, s, run, hg, hlast, hacked, hlen, a, hnum.symm.trans hlast, hacked ▸ hle, hsent⟩

/-- The free send buffer is what was not written or was reported to `tcp_sent_func`. -/
theorem sndbuf_accounts_for_written {ts : List SndTransition} (hr : (sndMachine base).Run ts s) (hg : Settled ts) :
    s.snd.sndBuf + (written (Machine.trace ts)).length = 0xffff + acked (Machine.trace ts) ∧
      s.snd.sndQueuelen = bufs (s.snd.unacked ++ s.snd.unsent) := by
  obtain ⟨k, a, n, us, vs, h⟩ := transmitting_run hr hg
  exact ⟨h.room, h.sending.queuelen⟩

theorem sndbuf_accounts_for_written_all : ∃ ts s, (sndMachine 0xFFFFFFFE).Run ts s ∧ Settled ts ∧
    (written (Machine.trace ts)).length = 7 ∧ ended (Machine.trace ts) = true ∧
    s.snd.sndBuf + (written (Machine.trace ts)).length = 0xffff + acked (Machine.trace ts) := by
  obtain ⟨ts, s, run, h⟩ := Machine.Run.exists_of_exec (sndMachine 0xFFFFFFFE) transferStart transfer
    (fun ts _ => decide (Settled ts ∧ (written (Machine.trace ts)).length = 7 ∧ ended (Machine.trace ts) = true))
    transferStart_init (by decide +kernel)
  obtain ⟨hg, hlen, hend⟩ := of_decide_eq_true h
  exact ⟨ts, s, run, hg, hlen, hend, (sndbuf_accounts_for_written run hg).1⟩

end Tunosocks.Lwip
