import Tunosocks.Lwip.Block

/-! A connection whose peer sends one stream: what is delivered and what is sent on, in every state
from the accepted handshake to the end. -/
namespace Tunosocks.Lwip
open Foundation Foundation.Serial Tcp

def BlockEvent.up? : BlockEvent → Option RcvEvent
  | .up e => some e
  | _ => none

def BlockEvent.tx? : BlockEvent → Option SndEvent
  | .tx e => some e
  | _ => none

/-- What the application is handed. -/
def ups (tr : List BlockEvent) : List RcvEvent := tr.filterMap BlockEvent.up?

/-- What the sending side does. -/
def txs (tr : List BlockEvent) : List SndEvent := tr.filterMap BlockEvent.tx?

section Events
variable (tr evs : List BlockEvent)

@[simp] theorem ups_append : ups (tr ++ evs) = ups tr ++ ups evs := List.filterMap_append

@[simp] theorem txs_append : txs (tr ++ evs) = txs tr ++ txs evs := List.filterMap_append

@[simp] private theorem ups_map_up (l : List RcvEvent) : ups (l.map .up) = l := by
  induction l with
  | nil => rfl
  | cons e l ih => exact congrArg (e :: ·) ih

@[simp] theorem txs_map_tx (l : List SndEvent) : txs (l.map .tx) = l := by
  induction l with
  | nil => rfl
  | cons e l ih => exact congrArg (e :: ·) ih

@[simp] private theorem ups_map_tx (l : List SndEvent) : ups (l.map .tx) = [] := by
  induction l with
  | nil => rfl
  | cons e l ih => exact ih

@[simp] theorem txs_map_up (l : List RcvEvent) : txs (l.map .up) = [] := by
  induction l with
  | nil => rfl
  | cons e l ih => exact ih

end Events

@[simp] theorem ups_ackEvents (acked : Nat) : ups (ackEvents acked) = [] := by
  unfold ackEvents
  split <;> rfl

theorem txs_ackEvents (acked : Nat) : txs (ackEvents acked) = if 0 < acked then [.acked acked] else [] := by
  unfold ackEvents
  split <;> rfl

/-- The fields that receiving a stream speaks about. -/
def Rcv.place (r : Rcv) : BitVec 32 × Nat × List TcpSeg := (r.rcvNxt, r.rcvWnd, r.ooseq)

variable {base rbase : BitVec 32} {S : List UInt8} {tr evs : List BlockEvent} {b b' : Block} {s : TcpState} {n : Nat}
  {r r' : Rcv} {env : Env} {x : Piece UInt8} {h : TcpHdr}

private theorem tcpSendEmptyAck_place (r : Rcv) (ack : AckOutcome) : (r.tcpSendEmptyAck ack).place = r.place := by
  cases ack <;> rfl

private theorem tcpReceiveEmpty_place (r : Rcv) (seqno : BitVec 32) : (r.tcpReceiveEmpty seqno).place = r.place := by
  unfold Rcv.tcpReceiveEmpty
  split <;> rfl

theorem afterOutput_place (r : Rcv) (o : Snd × List OutSeg × Bool) (ack : AckOutcome) :
    (r.afterOutput o ack).place = r.place := by
  unfold Rcv.afterOutput
  split
  · exact tcpSendEmptyAck_place r ack
  split
  · rfl
  split <;> rfl

private theorem Progress.congr {up : List RcvEvent} {g : Bool} (hp : Progress rbase S up ⟨r, g⟩)
    (hr : r'.place = r.place) : Progress rbase S up ⟨r', g⟩ := by
  simp only [Rcv.place, Prod.mk.injEq] at hr
  rcases hp with hp | ⟨R, hp⟩
  · exact .inl hp
  · exact .inr ⟨R, hp.finless, hp.part, hp.at_.congr hr, hp.of, hp.nxt⟩

/-- Once the FIN was received the rest of the receiving side does not matter. -/
private theorem Progress.ended {up : List RcvEvent} (hp : Progress rbase S up ⟨r, true⟩) (r' : Rcv) :
    Progress rbase S up ⟨r', true⟩ := by
  rcases hp with hp | ⟨R, hp⟩
  · exact .inl hp
  · exact absurd hp.finless.1 Bool.noConfusion

theorem Progress.recved {up : List RcvEvent} {g now : Bool} {len : Nat} (hp : Progress rbase S up ⟨r, g⟩)
    (hr : r.tcpRecved len = some (r', now)) : Progress rbase S up ⟨r', g⟩ := by
  rcases hp with hp | ⟨R, hp⟩
  · exact .inl hp
  · obtain ⟨hat, hof, -⟩ := tcpRecved_is hp.at_ hp.of hr
    exact .inr ⟨_, hp.finless, hp.part, hat, hof, hp.nxt⟩

/-- A piece that takes a place is cut from the stream, and not older than a quarter of the sequence space. -/
def Streamed (S : List UInt8) (up : List RcvEvent) (x : Piece UInt8) : Prop :=
  0 < x.span → x.From S ∧ x.data.length < 65535 ∧ Near (delivered up).length x

/-- The block behind the handshake: a stream is received on one side and one sent on the other. The state says whose
FIN has come and gone. `tcp_close` is called from `tcp_recv_func` only, and with data that was not taken it resets the
connection, so that the states of an active close are not reached. -/
structure Linked (base rbase : BitVec 32) (S : List UInt8) (tr : List BlockEvent) (b : Block) (s : TcpState) (n : Nat) :
    Prop where
  state : b.state = .synced s
  alive : b.gone = false
  rx : Progress rbase S (ups tr) ⟨b.rcv, !s.receives⟩
  wnd : b.rcv.rcvWnd ≤ tcpWnd
  eof : s.receives = false → .fin ∈ ups tr
  tx : ∃ k a us vs, Transmitting base (txs tr) b.tx k a n us vs
  fin : b.tx.snd.fin = s.closes
  passive : s = .established ∨ s = .closeWait ∨ s = .lastAck
  rxClosed : s.closes = true → b.rxClosed = true

namespace Linked

/-- A change of what neither side's stream depends on. -/
theorem congr (hl : Linked base rbase S tr b s n) (hstate : b'.state = b.state) (hgone : b'.gone = b.gone)
    (hrcv : b'.rcv.place = b.rcv.place) (hq : b'.tx.snd.queues = b.tx.snd.queues) (hmss : b'.tx.snd.mss = b.tx.snd.mss)
    (hwnd : b'.tx.snd.sndWndMax = b.tx.snd.sndWndMax) (hrx : b'.rxClosed = b.rxClosed) :
    Linked base rbase S tr b' s n := by
  obtain ⟨k, a, us, vs, htx⟩ := hl.tx
  have hp := hl.rx.congr hrcv
  have htx := htx.congr hq hmss hwnd
  simp only [Rcv.place, Snd.queues, Prod.mk.injEq] at hrcv hq
  exact ⟨hstate.trans hl.state, hgone.trans hl.alive, hp, hrcv.2.1.trans_le hl.wnd, hl.eof, ⟨k, a, us, vs, htx⟩,
    hq.2.2.1.trans hl.fin, hl.passive, fun hs => hrx.trans (hl.rxClosed hs)⟩

theorem output_events (hl : Linked base rbase S tr b s n) (env : Env) :
    (b.output env).2 = (b.tx.output ⟨b.rcv.ackNow, env.ok⟩).2.map .tx := by
  rw [Block.output, if_neg (by rw [hl.state]; exact BlockState.noConfusion)]

theorem output (hl : Linked base rbase S tr b s n) (env : Env) :
    ∃ n', n ≤ n' ∧ Linked base rbase S (tr ++ (b.output env).2) (b.output env).1 s n' := by
  obtain ⟨k, a, us, vs, htx⟩ := hl.tx
  obtain ⟨n', us', vs', htx', hle, -⟩ := htx.output ⟨b.rcv.ackNow, env.ok⟩
  obtain ⟨-, hfin, -⟩ := tcpOutput_frame b.tx.snd b.rcv.ackNow env.ok
  have hplace := afterOutput_place b.rcv (b.tx.snd.tcpOutput b.rcv.ackNow env.ok) env.emptyAck
  have hevs := hl.output_events env
  have hrx := hl.rx.congr hplace
  simp only [Rcv.place, Prod.mk.injEq] at hplace
  refine ⟨n', hle, hl.state, hl.alive, ?_, hplace.2.1.trans_le hl.wnd, fun hs => ?_, ⟨k, a, us', vs', ?_⟩,
    hfin.trans hl.fin, hl.passive, hl.rxClosed⟩
  · rw [hevs, ups_append, ups_map_tx, List.append_nil]
    exact hrx
  · rw [hevs, ups_append, ups_map_tx, List.append_nil]
    exact hl.eof hs
  · rw [hevs, txs_append, txs_map_tx]
    exact htx'

end Linked

namespace Linked

/-- The ACK of a segment: what it lets go of was sent, and nothing else changes. -/
private theorem takeAckno {hdr : AckHdr} {reply : AckOutcome} {len : Nat} (hl : Linked base rbase S tr b s n)
    (hset : b.tx.snd.settled = true) (ho : b.takeAckno hdr reply = some (b', len)) :
    Linked base rbase S (tr ++ ackEvents len) b' s n ∧ (0 < hdr.tcplen → b'.tx.snd.settled = true) ∧
      (hdr.ackno = b'.tx.snd.sndNxt → b'.tx.snd.unacked = []) ∧ b'.rcv.rcvWnd = b.rcv.rcvWnd ∧
      b'.rxClosed = b.rxClosed := by
  obtain ⟨⟨snd, acked, now⟩, hack, hout⟩ := Option.map_eq_some_iff.mp ho
  cases hout
  obtain ⟨k, a, us, vs, htx⟩ := hl.tx
  obtain ⟨s', evs, k', a', us', vs', hs', htx', hb⟩ := htx.ack hdr
  rw [TxState.ack, hack] at hs'
  cases hs'
  have hplace : (if now then b.rcv.tcpSendEmptyAck reply else b.rcv).place = b.rcv.place := by
    split
    · exact tcpSendEmptyAck_place _ _
    · rfl
  have hrx := hl.rx.congr hplace
  have hwnd := hplace
  simp only [Rcv.place, Prod.mk.injEq] at hwnd
  refine ⟨⟨hl.state, hl.alive, ?_, hwnd.2.1.trans_le hl.wnd, fun hs => ?_, ⟨k', a', us', vs', ?_⟩,
    (tcpReceiveAck_fin hack).trans hl.fin, hl.passive, hl.rxClosed⟩, fun hpos => ?_, fun heq => ?_,
    hwnd.2.1, rfl⟩
  · rw [ups_append, ups_ackEvents, List.append_nil]
    exact hrx
  · rw [ups_append, ups_ackEvents, List.append_nil]
    exact hl.eof hs
  · rw [txs_append, txs_ackEvents]
    exact htx'
  · exact htx'.sending.settled_iff.mpr (hb hpos (htx.sending.settled_iff.mp hset))
  · exact htx'.sending.none_in_flight (htx.sending.acked_all hack heq)

/-- What a segment carries: it leaves the window, and is handed on in the order of the stream. -/
theorem takeData {data : Option Pbuf} {fin : Bool} (hl : Linked base rbase S tr b s n) (hx : Streamed S (ups tr) x)
    (ho : b.takeData s (segOf rbase x) env = some (b', data, fin)) :
    b' = { b with rcv := b'.rcv } ∧ b'.rcv.rcvWnd + (bytesOf data).length + fin.toNat = b.rcv.rcvWnd ∧
      (∀ q ∈ data, 0 < q.totLen) ∧ ((data.isSome ∨ fin = true) → 0 < x.span ∧ s.receives = true) ∧
      Progress rbase S (ups tr ++ (handOn (b'.rcv, data, fin)).2)
        ⟨(handOn (b'.rcv, data, fin)).1.rcv, !s.receives || fin⟩ := by
  unfold Block.takeData at ho
  split at ho
  case isFalse hno =>
    cases ho
    have hplace := tcpReceiveEmpty_place b.rcv (segOf rbase x).seqno
    have hrx := hl.rx.congr hplace
    simp only [Rcv.place, Prod.mk.injEq] at hplace
    refine ⟨rfl, hplace.2.1, fun q hq => ?_, fun h => ?_, ?_⟩
    · cases hq
    · exact absurd h (by simp)
    · simpa [handOn] using hrx
  case isTrue hyes =>
    obtain ⟨hpos, hrecv⟩ := hyes
    rw [segOf_tcplen] at hpos
    obtain ⟨hxS, hlen, hnear⟩ := hx hpos
    obtain ⟨⟨rcv, data', fin'⟩, hrec, hout⟩ := Option.map_eq_some_iff.mp ho
    cases hout
    have hrx := hl.rx
    rw [hrecv] at hrx ⊢
    rcases hrx with ⟨hf, -⟩ | ⟨R, hR⟩
    · cases hf
    obtain ⟨hat, hdata, hfin, hedge⟩ := tcpReceiveData_is hR.at_ hR.of (segOf_is hlen) (hR.nxt ▸ hnear) hpos hrec
    obtain ⟨-, hnxt, -⟩ := @Receiver.receive_spec _ S R x env.room hR.of hxS
    obtain ⟨-, -, hend, hgo⟩ := hR.segment hxS hlen hnear hpos hrec
    refine ⟨rfl, ?_, tcpReceiveData_pos hrec, fun _ => ⟨hpos, rfl⟩, ?_⟩
    · have hw := hat.wnd
      have hw' : b.rcv.rcvWnd = R.wnd := hR.at_.wnd
      simp only [Receiver.edge] at hedge
      rw [hdata, hfin]
      show rcv.rcvWnd + _ + _ = _
      omega
    · cases fin with
      | true => exact .inl ⟨rfl, hend rfl⟩
      | false => exact .inr ⟨_, hgo rfl⟩

end Linked

/-- The state behind a segment with or without the peer's FIN, and with or without an ACK for everything. -/
def after (s : TcpState) (gotFin finAcked : Bool) : TcpState :=
  match s with
  | .established | .closeWait => if gotFin then .closeWait else s
  | .finWait1 =>
    if gotFin then if finAcked then .timeWait else .closing else if finAcked then .finWait2 else .finWait1
  | .finWait2 => if gotFin then .timeWait else .finWait2
  | .closing => if finAcked then .timeWait else .closing
  | .lastAck => .lastAck
  | .timeWait => .timeWait

private theorem after_closes (s : TcpState) (g f : Bool) : (after s g f).closes = s.closes := by
  cases s <;> cases g <;> cases f <;> rfl

theorem after_receives (s : TcpState) (g f : Bool) : (!(after s g f).receives) = (!s.receives || g) := by
  cases s <;> cases g <;> cases f <;> rfl

/-- The transitions of `tcp_process` leave the streams alone; only a block that goes to TIME_WAIT is purged. -/
theorem next_frame (hs : b.state = .synced s) (h : TcpHdr) (r : Recv) :
    (b.next h r s).1.state = .synced (after s r.gotFin (b.finAcked h)) ∧ (b.next h r s).1.gone = b.gone ∧
      (b.next h r s).1.rxClosed = b.rxClosed ∧ (b.next h r s).1.rcv.rcvWnd = b.rcv.rcvWnd ∧
      ((after s r.gotFin (b.finAcked h)).receives = true → (b.next h r s).1.rcv.place = b.rcv.place) ∧
      ((b.next h r s).1.tx = b.tx ∨ after s r.gotFin (b.finAcked h) = .timeWait ∧
        (b.next h r s).1.tx = b.tcpPcbPurge.tx) := by
  unfold Block.next after
  cases s <;> cases r.gotFin <;> cases b.finAcked h <;>
    first
    | exact ⟨hs, rfl, rfl, rfl, fun _ => rfl, .inl rfl⟩
    | exact ⟨rfl, rfl, rfl, rfl, fun _ => rfl, .inl rfl⟩
    | exact ⟨rfl, rfl, rfl, rfl, fun h => absurd h (by decide), .inr ⟨rfl, rfl⟩⟩

private theorem after_passive (h : s = .established ∨ s = .closeWait ∨ s = .lastAck) (g f : Bool) :
    after s g f = .established ∨ after s g f = .closeWait ∨ after s g f = .lastAck := by
  rcases h with rfl | rfl | rfl <;> cases g <;> simp [after]

/-- What is handed on does not depend on the receiving side any more. -/
private theorem handOn_events (r r' : Rcv) (data : Option Pbuf) (fin : Bool) :
    (handOn (r', data, fin)).2 = (handOn (r, data, fin)).2 := by
  cases fin <;> rfl

private theorem handOn_place {data : Option Pbuf} {fin : Bool} (hr : r'.place = r.place) :
    (handOn (r', data, fin)).1.rcv.place = (handOn (r, data, fin)).1.rcv.place := by
  simp only [Rcv.place, Prod.mk.injEq] at hr
  cases fin <;> simp [handOn, Rcv.place, hr]

theorem handOn_wnd (r : Rcv) (data : Option Pbuf) (fin : Bool) (hw : r.rcvWnd + fin.toNat ≤ tcpWnd) :
    (handOn (r, data, fin)).1.rcv.rcvWnd = r.rcvWnd + fin.toNat := by
  cases fin with
  | false => rfl
  | true =>
    simp only [Bool.toNat_true] at hw
    exact if_neg (show r.rcvWnd ≠ tcpWnd by omega)

private theorem tcpEnqueueFlags_starved {snd : Snd} {syn : Bool} {room : Nat}
    (h : ¬ (snd.tcpEnqueueFlags syn room).2 = .ok) : room < 2 := by
  by_contra hroom
  rw [Snd.tcpEnqueueFlags, if_neg hroom] at h
  exact h rfl

/-- A FIN is refused only for lack of memory. -/
private theorem tcpSendFin_starved {snd : Snd} {room : Nat} (h : ¬ (snd.tcpSendFin room).2 = .ok) : room < 2 := by
  unfold Snd.tcpSendFin at h
  split at h
  · split at h
    · exact tcpEnqueueFlags_starved h
    · exact absurd rfl h
  · exact tcpEnqueueFlags_starved h

namespace Linked

/-- `tcp_receive` for the data of a segment, the transition behind it, and what is handed on. -/
theorem processed {b1 : Block} {recv : Recv} (hl : Linked base rbase S tr b s n) (hx : Streamed S (ups tr) x)
    (ho : b.takeData s (segOf rbase x) env = some (b1, recv.data, recv.gotFin))
    (hacked : b.finAcked h = true → b.tx.snd.unacked = []) :
    let b2 := (b1.next h recv s).1
    let o := handOn (b2.rcv, recv.data, recv.gotFin)
    Linked base rbase S (tr ++ o.2.map .up) { b2 with rcv := o.1.rcv } (after s recv.gotFin (b1.finAcked h)) n ∧
      b2.rcv.rcvWnd + (bytesOf recv.data).length + recv.gotFin.toNat = b.rcv.rcvWnd ∧
      (b1.finAcked h = true → b2.tx.snd.held = []) := by
  intro b2 o
  obtain ⟨heq, hwnd, -, -, hrx⟩ := hl.takeData hx ho
  have htx : b1.tx = b.tx := by rw [heq]
  have hst : b1.state = .synced s := by rw [heq]; exact hl.state
  have hfa : b1.finAcked h = b.finAcked h := by simp only [Block.finAcked, htx]
  obtain ⟨hstate, hgone, hrxc, hwnd2, hplace, hpurge⟩ := next_frame hst h recv
  have hempty : b1.finAcked h = true → b.tx.snd.held = [] := fun hf => by
    have hun := hf
    simp only [Block.finAcked, htx, Bool.and_eq_true, List.isEmpty_iff] at hun
    rw [Snd.held, hacked (hfa ▸ hf), hun.2]
    rfl
  have hpassive := after_passive hl.passive recv.gotFin (b1.finAcked h)
  have hsame : b2.tx = b.tx := by
    rcases hpurge with hsame | ⟨htw, -⟩
    · exact hsame.trans htx
    · rw [htw] at hpassive
      simp at hpassive
  obtain ⟨k, a, us, vs, htr⟩ := hl.tx
  have hevs : o.2 = (handOn (b1.rcv, recv.data, recv.gotFin)).2 := handOn_events _ _ _ _
  have hle := hl.wnd
  have hw : b2.rcv.rcvWnd = b1.rcv.rcvWnd := hwnd2
  refine ⟨⟨hstate, ?_, ?_, ?_, fun hs => ?_, ⟨k, a, us, vs, ?_⟩, ?_, hpassive, fun hs => ?_⟩,
    by rw [hw]; exact hwnd, fun hf => by rw [hsame]; exact hempty hf⟩
  · exact hgone.trans (by rw [heq]; exact hl.alive)
  · rw [ups_append, ups_map_up, hevs, after_receives]
    cases hr : (after s recv.gotFin (b1.finAcked h)).receives with
    | true => exact hrx.congr (handOn_place (hplace hr))
    | false =>
      have hend := after_receives s recv.gotFin (b1.finAcked h)
      rw [hr] at hend
      rw [← hend] at hrx ⊢
      exact hrx.ended _
  · show o.1.rcv.rcvWnd ≤ tcpWnd
    rw [handOn_wnd _ _ _ (by omega)]
    omega
  · rw [ups_append, ups_map_up, List.mem_append]
    have hend := after_receives s recv.gotFin (b1.finAcked h)
    rw [hs] at hend
    cases hr : s.receives with
    | false => exact .inl (hl.eof hr)
    | true =>
      rw [hr] at hend
      exact .inr ((handOn_spec (b2.rcv, recv.data, recv.gotFin)).2.1.mpr hend.symm)
  · rw [txs_append, txs_map_up, List.append_nil]
    show Transmitting _ _ b2.tx _ _ _ _ _
    rw [hsame]
    exact htr
  · show b2.tx.snd.fin = _
    rw [hsame]
    exact hl.fin.trans (after_closes s _ _).symm
  · exact hrxc.trans (by rw [heq]; exact hl.rxClosed (after_closes s _ _ ▸ hs))

/-- `tcp_close` with everything taken: the FIN is queued, or there is no memory for it. -/
theorem sendFin (hl : Linked base rbase S tr b .closeWait n) (hset : b.tx.snd.settled = true)
    (hwnd : b.rcv.rcvWnd = tcpWnd) (room : Nat) :
    let o := { b with rxClosed := true }.closeShutdown room .lastAck
    o.1.rcv = b.rcv ∧ o.1.tx.snd.sndBuf = b.tx.snd.sndBuf ∧ o.1.rxClosed = true ∧
      (o.2 = [.tx .closed] ∧ Linked base rbase S (tr ++ o.2) o.1 .lastAck n ∨
        o.2 = [] ∧ room < 2 ∧ Linked base rbase S (tr ++ o.2) o.1 .closeWait n) := by
  obtain ⟨k, a, us, vs, htx⟩ := hl.tx
  obtain ⟨vs', htx', -⟩ := htx.close (htx.sending.settled_iff.mp hset) room
  unfold TxState.close at htx'
  unfold Block.closeShutdown
  rw [if_neg (by rw [hl.fin]; exact Bool.false_ne_true)] at htx'
  rw [if_pos hwnd]
  dsimp only at htx' ⊢
  have hbuf := (tcpSendFin_frame b.tx.snd room).1
  split
  case isTrue hok =>
    rw [if_pos hok] at htx'
    have hup : ups (tr ++ [.tx .closed]) = ups tr := by rw [ups_append]; exact List.append_nil _
    refine ⟨rfl, hbuf, rfl, .inl ⟨rfl, rfl, hl.alive, ?_, hl.wnd, ?_, ⟨k, a, us, vs', ?_⟩, ?_, .inr (.inr rfl),
      fun _ => rfl⟩⟩
    · rw [hup]
      exact hl.rx
    · rw [hup]
      exact hl.eof
    · rw [txs_append]
      exact htx'
    · have := htx'.fin
      rw [ended_append] at this
      exact this.trans (by simp [ended, TcpState.closes])
  case isFalse hno =>
    rw [if_neg hno, List.append_nil] at htx'
    dsimp only
    rw [List.append_nil]
    exact ⟨rfl, hbuf, rfl, .inr ⟨rfl, tcpSendFin_starved hno, hl.state, hl.alive, hl.rx, hl.wnd, hl.eof,
      ⟨k, a, us, vs', htx'⟩, htx'.fin.trans (htx.fin.symm.trans hl.fin), hl.passive, fun _ => rfl⟩⟩

end Linked

/-- Both streams came through to their ends. -/
structure Complete (S : List UInt8) (tr : List BlockEvent) : Prop where
  delivered : delivered (ups tr) = S
  eof : .fin ∈ ups tr
  ended : ended (txs tr) = true
  acked : acked (txs tr) = (written (txs tr)).length

/-- What is delivered is the start of the peer's stream, and what is sent is what was written. -/
structure Sound (base : BitVec 32) (S : List UInt8) (tr : List BlockEvent) : Prop where
  part : Lwip.delivered (ups tr) <+: S
  whole : .fin ∈ ups tr → Lwip.delivered (ups tr) = S
  sent : ∀ seg wire, .sent seg wire ∈ txs tr → ∃ x, Sent base (txs tr) seg x

theorem Sound.quiet (hs : Sound base S tr) (hup : ups evs = []) (htx : txs evs = []) : Sound base S (tr ++ evs) := by
  have hu : ups (tr ++ evs) = ups tr := by rw [ups_append, hup, List.append_nil]
  have ht : txs (tr ++ evs) = txs tr := by rw [txs_append, htx, List.append_nil]
  exact ⟨hu ▸ hs.part, hu ▸ hs.whole, ht ▸ hs.sent⟩

theorem Linked.sound (hl : Linked base rbase S tr b s n) : Sound base S tr := by
  obtain ⟨k, a, us, vs, htx⟩ := hl.tx
  rcases hl.rx with ⟨-, hall⟩ | ⟨R, hR⟩
  · exact ⟨hall ▸ List.prefix_rfl, fun _ => hall, htx.sent⟩
  · exact ⟨hR.part, fun hf => absurd hf hR.finless.2, htx.sent⟩

namespace Linked

/-- Everything is acknowledged once nothing is held. -/
theorem acked_all (hl : Linked base rbase S tr b s n) (hheld : b.tx.snd.held = []) :
    acked (txs tr) = (written (txs tr)).length := by
  obtain ⟨k, a, us, vs, htx⟩ := hl.tx
  obtain ⟨hua, hus⟩ := List.append_eq_nil_iff.mp hheld
  have h1 := htx.sending.unacked
  have h2 := htx.sending.unsent
  rw [hua] at h1
  rw [hus] at h2
  cases h1
  cases h2
  have hbuf : b.tx.snd.sndBuf + 0 = 65535 := htx.sending.buf
  have hroom := htx.room
  omega

theorem complete (hl : Linked base rbase S tr b s n) (hr : s.receives = false) (hc : s.closes = true)
    (hheld : b.tx.snd.held = []) : Complete S tr := by
  have hended : ended (txs tr) = true := by
    obtain ⟨k, a, us, vs, htx⟩ := hl.tx
    exact htx.fin.symm.trans (hl.fin.trans hc)
  refine ⟨?_, hl.eof hr, hended, hl.acked_all hheld⟩
  have hrx := hl.rx
  rw [hr] at hrx
  rcases hrx with ⟨-, hall⟩ | ⟨R, hR⟩
  · exact hall
  · exact absurd hR.finless.1 Bool.noConfusion

theorem room (hl : Linked base rbase S tr b s n) :
    b.tx.snd.sndBuf + (written (txs tr)).length = 0xffff + acked (txs tr) :=
  hl.tx.elim fun _ ⟨_, _, _, htx⟩ => htx.room

/-- Events of neither stream. -/
theorem quiet (hl : Linked base rbase S tr b s n) (hup : ups evs = []) (htx : txs evs = []) :
    Linked base rbase S (tr ++ evs) b s n := by
  have hu : ups (tr ++ evs) = ups tr := by rw [ups_append, hup, List.append_nil]
  have ht : txs (tr ++ evs) = txs tr := by rw [txs_append, htx, List.append_nil]
  exact ⟨hl.state, hl.alive, hu ▸ hl.rx, hl.wnd, hu ▸ hl.eof, ht ▸ hl.tx, hl.fin, hl.passive, hl.rxClosed⟩

theorem ackNow (hl : Linked base rbase S tr b s n) : Linked base rbase S tr b.ackNow s n :=
  hl.congr rfl rfl rfl rfl rfl rfl rfl

end Linked

theorem tcpReceive_inv {seg : TcpSeg} {recv : Recv} (ho : b.tcpReceive s seg h env = some (b', recv)) :
    ∃ b1, b.takeAck seg h env = some (b1, recv.acked) ∧ b1.takeData s seg env = some (b', recv.data, recv.gotFin) ∧
      recv.reset = false ∧ recv.closed = false := by
  obtain ⟨⟨b1, acked⟩, hack, ho⟩ := Option.bind_eq_some_iff.mp ho
  obtain ⟨⟨b2, data, fin⟩, hdata, ho⟩ := Option.bind_eq_some_iff.mp ho
  cases ho
  exact ⟨b1, hack, hdata, rfl, rfl⟩

theorem next_recv (hs : b.state = .synced s) (h : TcpHdr) {r : Recv} (hr : r.closed = false) :
    (b.next h r s).2 = { r with closed := decide (s = .lastAck) && b.finAcked h } := by
  obtain ⟨acked, data, gotFin, reset, closed⟩ := r
  obtain rfl : closed = false := hr
  cases s <;> rfl

theorem segOf_syn (x : Piece UInt8) (hsyn : h.syn = false) : { segOf rbase x with syn := h.syn } = segOf rbase x := by
  rw [hsyn]
  rfl

namespace Linked

/-- The ACK of a segment, if it has one, before its data. -/
theorem acknowledged {recv : Recv} (hl : Linked base rbase S tr b s n) (hset : b.tx.snd.settled = true)
    (ho : b.tcpReceive s (segOf rbase x) h env = some (b', recv)) :
    ∃ b1, Linked base rbase S (tr ++ ackEvents recv.acked) b1 s n ∧ (0 < x.span → b1.tx.snd.settled = true) ∧
      (b1.finAcked h = true → b1.tx.snd.unacked = []) ∧ b1.rcv.rcvWnd = b.rcv.rcvWnd ∧ b1.rxClosed = b.rxClosed ∧
      b1.takeData s (segOf rbase x) env = some (b', recv.data, recv.gotFin) ∧ recv.reset = false ∧
      recv.closed = false := by
  obtain ⟨b1, hack, hdata, hr, hc⟩ := tcpReceive_inv ho
  cases ha : h.ack with
  | false =>
    rw [Block.takeAck, ha, if_neg Bool.false_ne_true] at hack
    obtain ⟨rfl, hzero⟩ : b = b1 ∧ 0 = recv.acked := by simpa using hack
    refine ⟨b, ?_, fun _ => hset, fun hf => ?_, rfl, rfl, hdata, hr, hc⟩
    · rw [← hzero]
      simpa [ackEvents] using hl
    · simp [Block.finAcked, ha] at hf
  | true =>
    rw [Block.takeAck, ha, if_pos rfl] at hack
    obtain ⟨hl1, hset1, hall, hwnd, hrx⟩ := hl.takeAckno hset hack
    rw [segOf_tcplen] at hset1
    refine ⟨b1, hl1, hset1, fun hf => hall ?_, hwnd, hrx, hdata, hr, hc⟩
    simp only [Block.finAcked, Bool.and_eq_true, beq_iff_eq] at hf
    exact hf.1.2

end Linked

end Tunosocks.Lwip
