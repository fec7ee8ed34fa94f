import Tunosocks.Lwip.InOrder
import Tunosocks.Lwip.Options
import Tunosocks.Lwip.Transmit

/-! A connection block from the SYN that made it to its end: `tcp_listen_input`, `tcp_process` in every
state that a passive open reaches, what `tcp_input` does behind it, and the calls of the application. -/
namespace Tunosocks.Tcp.TcpState

/-- `state < CLOSE_WAIT` -/
def receives : TcpState → Bool
  | .established | .finWait1 | .finWait2 => true
  | _ => false

/-- The states `tcp_close` leads to. -/
def closes : TcpState → Bool
  | .established | .closeWait => false
  | _ => true

end Tunosocks.Tcp.TcpState

namespace Tunosocks.Lwip
open Foundation Foundation.Serial Tcp

inductive BlockState where
  | synRcvd
  | synced (s : TcpState)
  deriving DecidableEq, Repr

/-- What is read of a header besides the sequence number and the FIN. -/
structure TcpHdr where
  ackno : BitVec 32
  wnd : BitVec 16
  ack : Bool
  syn : Bool
  rst : Bool
  opts : List UInt8
  deriving DecidableEq, Repr

structure Block where
  state : BlockState
  rcv : Rcv
  tx : TxState
  /-- `TF_RXCLOSED` -/
  rxClosed : Bool
  /-- Freed, or to be freed at the end of the current `tcp_input`. -/
  gone : Bool
  deriving DecidableEq

/-- What a call meets. -/
structure Env where
  /-- `tcp_seg_copy` gets its memory. -/
  room : Bool
  /-- The acknowledgements sent at once for a number not sent yet, and for data. -/
  unknownAck : AckOutcome
  dataAck : AckOutcome
  /-- `tcp_sent_func` finds no session and calls `tcp_abort`. -/
  sentAborts : Bool
  /-- `tcp_recv_func` calls `tcp_close`, with so much memory. -/
  close : Option Nat
  /-- How many segments the interface takes before it refuses one. -/
  ok : Nat
  emptyAck : AckOutcome
  deriving DecidableEq

inductive BlockEvent where
  | up (e : RcvEvent)
  | tx (e : SndEvent)
  | accepted
  | synAck
  /-- A reset that leaves the block alone. -/
  | rst
  /-- This side resets the connection. -/
  | aborted
  /-- The peer has reset the connection. -/
  | failed
  deriving DecidableEq

/-- `recv_acked`, `recv_data` and `recv_flags`. -/
structure Recv where
  acked : Nat
  data : Option Pbuf
  gotFin : Bool
  reset : Bool
  closed : Bool
  deriving DecidableEq

/-- Nothing was received. -/
def Recv.none : Recv := ⟨0, Option.none, false, false, false⟩

/-- `TCP_EVENT_SENT` -/
def ackEvents (acked : Nat) : List BlockEvent := if 0 < acked then [.tx (.acked acked)] else []

/-- The window announced, and the acknowledgements that are not due any more, behind `tcp_output`. -/
def Rcv.afterOutput (r : Rcv) (o : Snd × List OutSeg × Bool) (ack : AckOutcome) : Rcv :=
  if o.2.2 then r.tcpSendEmptyAck ack
  else if o.2.1 ≠ [] then { r.announce with ackDelay := false, ackNow := false }
  else if o.1.nagleMemErr then r.announce
  else r

namespace Block

def ackNow (b : Block) : Block := { b with rcv := b.rcv.tcpAckNow }

def enter (b : Block) (s : TcpState) : Block := { b with state := .synced s }

def free (b : Block) : Block := { b with gone := true }

/-- `tcp_pcb_purge` -/
def tcpPcbPurge (b : Block) : Block :=
  { b with
    rcv := { b.rcv with ooseq := [] }
    tx := { b.tx with snd := { b.tx.snd with unsent := [], unacked := [], rtime := -1 } } }

def setMss (b : Block) (mss : Nat) : Block :=
  { b with rcv := { b.rcv with mss }, tx := { b.tx with snd := { b.tx.snd with mss } } }

/-- `tcp_parseopt`; the data lies behind the options. -/
def parseopt (b : Block) (opts data : List UInt8) : Block :=
  b.setMss (tcpParseopt (opts ++ data) opts.length b.tx.snd.mss)

/-- `tcp_output` outside of `tcp_input`. -/
def output (b : Block) (env : Env) : Block × List BlockEvent :=
  let o := b.tx.output ⟨b.rcv.ackNow, env.ok⟩
  ({ b with tx := o.1, rcv := b.rcv.afterOutput (b.tx.snd.tcpOutput b.rcv.ackNow env.ok) env.emptyAck },
    if b.state = .synRcvd then o.2.map fun _ => .synAck else o.2.map .tx)

def takeAckno (b : Block) (hdr : AckHdr) (reply : AckOutcome) : Option (Block × Nat) :=
  (b.tx.snd.tcpReceiveAck hdr).map fun o =>
    ({ b with
      tx := { b.tx with snd := o.1 }, rcv := if o.2.2 then b.rcv.tcpSendEmptyAck reply else b.rcv }, o.2.1)

/-- `tcp_receive` for the ACK of a segment, with `recv_acked`. -/
def takeAck (b : Block) (seg : TcpSeg) (h : TcpHdr) (env : Env) : Option (Block × Nat) :=
  if h.ack then b.takeAckno ⟨seg.seqno, h.ackno, h.wnd, seg.tcplen⟩ env.unknownAck else some (b, 0)

/-- `tcp_receive` for what a segment carries. -/
def takeData (b : Block) (s : TcpState) (seg : TcpSeg) (env : Env) : Option (Block × Option Pbuf × Bool) :=
  if 0 < seg.tcplen ∧ s.receives = true then
    (b.rcv.tcpReceiveData seg env.room env.dataAck).map fun o => ({ b with rcv := o.1 }, o.2)
  else some ({ b with rcv := b.rcv.tcpReceiveEmpty seg.seqno }, none, false)

def tcpReceive (b : Block) (s : TcpState) (seg : TcpSeg) (h : TcpHdr) (env : Env) : Option (Block × Recv) := do
  let (b, acked) ← b.takeAck seg h env
  let (b, data, gotFin) ← b.takeData s seg env
  some (b, ⟨acked, data, gotFin, false, false⟩)

/-- The ACK is for everything, the FIN of this side with it. -/
def finAcked (b : Block) (h : TcpHdr) : Bool := h.ack && h.ackno == b.tx.snd.sndNxt && b.tx.snd.unsent.isEmpty

/-- The states behind `tcp_receive`. -/
def next (b : Block) (h : TcpHdr) (r : Recv) : TcpState → Block × Recv
  | .established | .closeWait => (if r.gotFin then b.ackNow.enter .closeWait else b, r)
  | .finWait1 =>
    (if r.gotFin then if b.finAcked h then (b.ackNow.tcpPcbPurge).enter .timeWait else b.ackNow.enter .closing
      else if b.finAcked h then b.enter .finWait2 else b, r)
  | .finWait2 => (if r.gotFin then (b.ackNow.tcpPcbPurge).enter .timeWait else b, r)
  | .closing => (if b.finAcked h then b.tcpPcbPurge.enter .timeWait else b, r)
  | .lastAck => (b, { r with closed := b.finAcked h })
  | .timeWait => (b, r)

/-- `listener_accept_func` switches the Nagle algorithm off. -/
def accept (b : Block) : Block :=
  { b with tx := { b.tx with snd := { b.tx.snd with nodelay := true } } }.enter .established

/-- The congestion window of a new connection. -/
def startCwnd (b : Block) : Block :=
  { b with tx := { b.tx with snd := { b.tx.snd with cwnd := initialCwnd b.tx.snd.mss } } }

/-- `tcp_process` in SYN_RCVD. -/
def handshake (b : Block) (seg : TcpSeg) (h : TcpHdr) (env : Env) : Option (Block × List BlockEvent × Recv) :=
  if h.ack then
    if tcpSeqBetween h.ackno (b.tx.snd.lastack + 1) b.tx.snd.sndNxt then
      (b.accept.tcpReceive .established seg h env).map fun o =>
        let o := o.1.startCwnd.next h { o.2 with acked := o.2.acked - 1 } .established
        (o.1, [.accepted], o.2)
    else some (b, [.rst], .none)
  else if h.syn ∧ seg.seqno = b.rcv.rcvNxt - 1 then
    some ({ b with tx := { b.tx with snd := b.tx.snd.tcpRexmit.getD b.tx.snd } }, [], .none)
  else some (b, [], .none)

def tcpProcess (b : Block) (seg : TcpSeg) (h : TcpHdr) (env : Env) : Option (Block × List BlockEvent × Recv) :=
  if h.rst then
    if seg.seqno = b.rcv.rcvNxt then
      some ({ b with rcv := { b.rcv with ackDelay := false } }, [], { Recv.none with reset := true })
    else if tcpSeqBetween seg.seqno b.rcv.rcvNxt (b.rcv.rcvNxt + ofLen b.rcv.rcvWnd) then some (b.ackNow, [], .none)
    else some (b, [], .none)
  else if h.syn ∧ b.state ≠ .synRcvd then some (b.ackNow, [], .none)
  else
    let b := b.parseopt h.opts seg.p.bytes
    match b.state with
    | .synRcvd => b.handshake seg h env
    | .synced s => (b.tcpReceive s seg h env).map fun o => ((o.1.next h o.2 s).1, [], (o.1.next h o.2 s).2)

/-- `tcp_close` where it sends a FIN; with data the application has not taken, it resets the connection. -/
def closeShutdown (b : Block) (room : Nat) (s : TcpState) : Block × List BlockEvent :=
  if b.rcv.rcvWnd = tcpWnd then
    let o := b.tx.snd.tcpSendFin room
    if o.2 = .ok then ({ b with tx := { b.tx with snd := o.1 } }.enter s, [.tx .closed])
    else ({ b with tx := { b.tx with snd := o.1 } }, [])
  else (b.tcpPcbPurge.free, [.aborted])

def tcpClose (b : Block) (room : Nat) : Block × List BlockEvent :=
  let b := { b with rxClosed := true }
  match b.state with
  | .synced .established => b.closeShutdown room .finWait1
  | .synced .closeWait => b.closeShutdown room .lastAck
  | _ => (b, [])

/-- `tcp_recv_func` is called with data or for the FIN, and may close. -/
def callbacks (b : Block) (evs : List RcvEvent) : Option Nat → Block × List BlockEvent
  | some room => if evs ≠ [] then b.tcpClose room else (b, [])
  | none => (b, [])

/-- `tcp_input` behind `tcp_process`, up to the callbacks. -/
def report (b : Block) (r : Recv) (env : Env) : Block × List BlockEvent :=
  if 0 < r.acked ∧ env.sentAborts = true then (b.free, ackEvents r.acked ++ [.aborted])
  else if r.closed then (b.free, ackEvents r.acked)
  else if r.data.isSome ∧ b.rxClosed = true then (b.free, ackEvents r.acked ++ [.aborted])
  else
    let o := handOn (b.rcv, r.data, r.gotFin)
    let c := { b with rcv := o.1.rcv }.callbacks o.2 env.close
    (c.1, ackEvents r.acked ++ o.2.map .up ++ c.2)

/-- The block lives on, and sends what it can. -/
def finish (o : Block × List BlockEvent) (env : Env) : Block × List BlockEvent :=
  if o.1.gone then o else ((o.1.output env).1, o.2 ++ (o.1.output env).2)

def tcpTimewaitInput (b : Block) (seg : TcpSeg) (h : TcpHdr) (env : Env) : Block × List BlockEvent :=
  if h.rst then (b, [])
  else if h.syn ∧ tcpSeqBetween seg.seqno b.rcv.rcvNxt (b.rcv.rcvNxt + ofLen b.rcv.rcvWnd) = true then (b, [.rst])
  else if 0 < seg.tcplen then b.ackNow.output env
  else (b, [])

def tcpInput (b : Block) (seg : TcpSeg) (h : TcpHdr) (env : Env) : Option (Block × List BlockEvent) :=
  if b.state = .synced .timeWait then some (b.tcpTimewaitInput seg h env)
  else
    (b.tcpProcess seg h env).map fun o =>
      if o.2.2.reset then (o.1.free, o.2.1 ++ [.failed])
      else
        let p := finish (o.1.report o.2.2 env) env
        (p.1, o.2.1 ++ p.2)

/-- `tcp_write` from the start of the buffer. -/
def tcpWrite (b : Block) (data : List UInt8) (room : Nat) : Option (Block × List BlockEvent) :=
  match b.state with
  | .synced .established | .synced .closeWait =>
    (b.tx.snd.tcpWrite 0 data room).map fun o =>
      ({ b with tx := { b.tx with snd := o.1 } }, if o.2 = .ok then [.tx (.accepted data)] else [])
  | _ => some (b, [])

/-- A read from the remote, `tcp_write` and `tcp_output`. -/
def relay (b : Block) (data : List UInt8) (room : Nat) (env : Env) : Option (Block × List BlockEvent) :=
  ({ b with tx := b.tx.fill data }.tcpWrite data room).map fun o => finish o env

def tcpRecved (b : Block) (len : Nat) (env : Env) : Option (Block × List BlockEvent) :=
  (b.rcv.tcpRecved len).map fun o =>
    let b := { b with rcv := o.1 }
    if o.2 then b.output env else (b, [])

end Block

inductive BlockAct where
  | segment (x : Piece UInt8) (h : TcpHdr) (env : Env)
  | relay (data : List UInt8) (room : Nat) (env : Env)
  | recved (len : Nat) (env : Env)
  deriving DecidableEq

/-- A step; the application knows the block once it was accepted. `rbase` is the number of the peer's first byte. -/
def Block.step (rbase : BitVec 32) (b : Block) (a : BlockAct) : Option (Block × List BlockEvent) :=
  if b.gone then none
  else
    match a, b.state with
    | .segment x h env, _ => b.tcpInput { segOf rbase x with syn := h.syn } h env
    | .relay data room env, .synced _ => b.relay data room env
    | .recved len env, .synced _ => b.tcpRecved len env
    | _, .synRcvd => none

/-- `tcp_alloc`, and what `tcp_listen_input` sets. -/
def Block.fresh (irs iss : BitVec 32) (h : TcpHdr) (buff : List UInt8) : Block where
  state := .synRcvd
  rcv :=
    { rcvNxt := irs + 1, rcvWnd := tcpWnd, rcvAnnWnd := tcpWnd, rcvAnnRightEdge := irs + 1, mss := 536
      ooseq := [], ackDelay := false, ackNow := false }
  tx :=
    ⟨{ sndNxt := iss, lastack := iss, sndLbb := iss, sndWl1 := irs - 1, sndWl2 := iss, sndWnd := h.wnd.toNat
       sndWndMax := h.wnd.toNat, cwnd := 1, ssthresh := 0xffff, bytesAcked := 0, sndBuf := 0xffff
       sndQueuelen := 0, mss := 536, dupacks := 0, rtime := -1, unsent := [], unacked := [], nagleMemErr := false
       fin := false, infr := false, nodelay := false }, buff⟩
  rxClosed := false
  gone := false

/-- `tcp_eff_send_mss`, with the MTU that `netif` gets. -/
def tcpEffSendMss (mss : Nat) : Nat := min mss (1500 - 40)

/-- `tcp_listen_input` for a SYN with data behind its options. -/
def tcpListenInput (irs iss : BitVec 32) (h : TcpHdr) (data buff : List UInt8) (room : Nat) (env : Env) :
    Option (Block × List BlockEvent) :=
  if h.rst ∨ h.ack ∨ h.syn = false then none
  else
    let b := (Block.fresh irs iss h buff).parseopt h.opts data
    let b := b.setMss (tcpEffSendMss b.tx.snd.mss)
    let o := b.tx.snd.tcpEnqueueFlags true room
    if o.2 = .ok then some ({ b with tx := { b.tx with snd := o.1 } }.output env) else none

/-- The life of a block that a SYN with the number `irs` and a window of at least two bytes makes, its own first
number being `iss`. -/
def blockMachine (irs iss : BitVec 32) : Machine Block BlockAct BlockEvent where
  Init b := ∃ h data buff room env evs, 2 ≤ h.wnd.toNat ∧ tcpListenInput irs iss h data buff room env = some (b, evs)
  step := Block.step (irs + 1)

abbrev BlockTransition := Transition Block BlockAct BlockEvent

end Tunosocks.Lwip
