import Tunosocks.Lwip.TcpReceive

/-! The sending side of a block: `tcp_write` without copying, `tcp_send_fin`, `tcp_output`, and
the half of `tcp_receive` that takes acknowledgements. The retransmission timer never runs, so
`tcp_rexmit_fast` alone sends anything again. A failed `LWIP_ASSERT` aborts the process. -/
namespace Tunosocks.Lwip
open Tcp

/-- A `PBUF_ROM` buffer: a reference to the application's memory, and the bytes that were there when
it was queued. -/
structure Rom where
  payload : Nat
  bytes : List UInt8
  deriving DecidableEq, Repr

/-- A `tcp_seg` on its way out; `p` lists the buffers behind the one of the header. -/
structure OutSeg where
  seqno : BitVec 32
  p : List Rom
  len : Nat
  syn : Bool
  fin : Bool
  psh : Bool
  deriving DecidableEq, Repr

namespace OutSeg

/-- `TCP_TCPLEN` -/
def tcplen (seg : OutSeg) : Nat := seg.len + if seg.fin || seg.syn then 1 else 0

/-- `LWIP_TCP_OPT_LENGTH_SEGMENT`: a SYN carries the MSS option. -/
def optlen (seg : OutSeg) : Nat := if seg.syn then 4 else 0

/-- `pbuf_clen` -/
def clen (seg : OutSeg) : Nat := 1 + seg.p.length

def bytes (seg : OutSeg) : List UInt8 := seg.p.flatMap Rom.bytes

/-- Whether data at `arg` directly follows the last buffer. -/
def adjoins (seg : OutSeg) (arg : Nat) : Bool := seg.p.getLast?.any fun q => q.payload + q.bytes.length == arg

end OutSeg

/-- The last reference made longer. -/
def extendRom (data : List UInt8) : List Rom → List Rom
  | [] => []
  | [q] => [{ q with bytes := q.bytes ++ data }]
  | q :: r :: rest => q :: extendRom data (r :: rest)

/-- Data for the end of a segment: the last reference grows, or a new one is chained. -/
def OutSeg.extend (seg : OutSeg) (arg : Nat) (data : List UInt8) : OutSeg :=
  { seg with
    len := seg.len + data.length
    p := if seg.adjoins arg then extendRom data seg.p else seg.p ++ [⟨arg, data⟩] }

/-- The sending side of a `tcp_pcb`. -/
structure Snd where
  sndNxt : BitVec 32
  lastack : BitVec 32
  sndLbb : BitVec 32
  sndWl1 : BitVec 32
  sndWl2 : BitVec 32
  sndWnd : Nat
  sndWndMax : Nat
  cwnd : Nat
  ssthresh : Nat
  bytesAcked : Nat
  sndBuf : Nat
  sndQueuelen : Nat
  mss : Nat
  dupacks : Nat
  /-- `-1` while the retransmission timer is stopped. -/
  rtime : Int
  unsent : List OutSeg
  unacked : List OutSeg
  /-- `TF_NAGLEMEMERR` -/
  nagleMemErr : Bool
  /-- `TF_FIN` -/
  fin : Bool
  /-- `TF_INFR` -/
  infr : Bool
  /-- `TF_NODELAY` -/
  nodelay : Bool
  deriving DecidableEq, Repr

inductive Err where
  | ok
  | mem
  deriving DecidableEq, Repr

/-- Why `tcp_write` gives up. -/
inductive Fault where
  | assertion
  | mem
  deriving DecidableEq, Repr

/-- `TCP_SND_QUEUELEN` -/
def sndQueuelenMax : Nat := 0xffff - 3

/-- `TCP_WND_INC` -/
def wndInc (wnd inc : Nat) : Nat := if wnd ≤ (wnd + inc) % 65536 then (wnd + inc) % 65536 else 0xffff

/-- Where a segment goes in a queue that is kept sorted. -/
def insertSorted (seg : OutSeg) : List OutSeg → List OutSeg
  | [] => [seg]
  | cur :: rest => if tcpSeqLt cur.seqno seg.seqno then cur :: insertSorted seg rest else seg :: cur :: rest

/-- What the search for the tail of `unsent` finds room for. -/
structure Tail where
  unsent : List OutSeg
  pos : Nat
  room : Nat
  queuelen : Nat

/-- The third phase of `tcp_write`: new segments of at most `mss` bytes, each in two buffers. `room` is how
many allocations succeed; every round takes a byte at least, and `fuel` is their number. -/
def newSegments (mss : Nat) : Nat → BitVec 32 → Nat → List UInt8 → Nat → Nat → Except Fault (List OutSeg × Nat)
  | _, _, _, [], _, queuelen => .ok ([], queuelen)
  | 0, _, _, _ :: _, _, _ => .error .assertion
  | fuel + 1, seqno, arg, data, room, queuelen =>
    let seglen := min data.length mss
    if room < 2 then .error .mem
    else if sndQueuelenMax < queuelen + 2 then .error .mem
    else if room < 3 then .error .mem
    else do
      let (segs, queuelen) ←
        newSegments mss fuel (seqno + ofLen seglen) (arg + seglen) (data.drop seglen) (room - 3) (queuelen + 2)
      .ok (⟨seqno, [⟨arg, data.take seglen⟩], seglen, false, false, false⟩ :: segs, queuelen)

/-- The PSH flag in the last segment. -/
def setPsh : List OutSeg → List OutSeg
  | [] => []
  | [seg] => [{ seg with psh := true }]
  | seg :: next :: rest => seg :: setPsh (next :: rest)

namespace Snd

/-- `mss_local`: at most half the largest window ever received. -/
def mssLocal (s : Snd) : Nat :=
  if min s.mss (s.sndWndMax / 2) = 0 then s.mss else min s.mss (s.sndWndMax / 2)

/-- Pbufs on the queue mean that a queue is not empty. -/
def validQueuelen (s : Snd) : Bool := s.sndQueuelen == 0 || !s.unacked.isEmpty || !s.unsent.isEmpty

/-- `tcp_write_checks` in a state in which data may be sent. -/
def tcpWriteChecks (s : Snd) (len : Nat) : Option Err :=
  if len = 0 then some .ok
  else if s.sndBuf < len then some .mem
  else if sndQueuelenMax ≤ s.sndQueuelen then some .mem
  else if s.sndQueuelen ≠ 0 then if s.unacked ≠ [] ∨ s.unsent ≠ [] then some .ok else none
  else if s.unacked = [] ∧ s.unsent = [] then some .ok else none

/-- The second phase of `tcp_write`: the last unsent segment takes what it has room for. -/
def extendTail (s : Snd) (arg : Nat) (data : List UInt8) (room : Nat) : Except Fault Tail :=
  match s.unsent.getLast? with
  | none => .ok ⟨s.unsent, 0, room, s.sndQueuelen⟩
  | some last =>
    if s.mssLocal < last.len + last.optlen then .error .assertion
    else
      let seglen := min (s.mssLocal - (last.len + last.optlen)) data.length
      let unsent := s.unsent.dropLast ++ [last.extend arg (data.take seglen)]
      if seglen = 0 ∨ last.len = 0 then .ok ⟨s.unsent, 0, room, s.sndQueuelen⟩
      else if last.adjoins arg then .ok ⟨unsent, seglen, room, s.sndQueuelen⟩
      else if room = 0 then .error .mem
      else .ok ⟨unsent, seglen, room - 1, s.sndQueuelen + 1⟩

/-- The phases of `tcp_write`, and their commit. -/
def enqueue (s : Snd) (arg : Nat) (data : List UInt8) (room : Nat) : Except Fault Snd := do
  let t ← s.extendTail arg data room
  let (queue, queuelen) ← newSegments s.mssLocal data.length (s.sndLbb + ofLen t.pos) (arg + t.pos) (data.drop t.pos)
    t.room t.queuelen
  .ok { s with
    unsent := if data.isEmpty then t.unsent ++ queue else setPsh (t.unsent ++ queue)
    sndLbb := s.sndLbb + ofLen data.length
    sndBuf := s.sndBuf - data.length
    sndQueuelen := queuelen }

/-- The error path: nothing is changed but a flag. -/
def memErr (s : Snd) : Option (Snd × Err) :=
  if s.validQueuelen then some ({ s with nagleMemErr := true }, .mem) else none

/-- `tcp_write` of data at `arg`, without `TCP_WRITE_FLAG_COPY`. -/
def tcpWrite (s : Snd) (arg : Nat) (data : List UInt8) (room : Nat) : Option (Snd × Err) :=
  match s.tcpWriteChecks data.length with
  | none => none
  | some .mem => some ({ s with nagleMemErr := true }, .mem)
  | some .ok =>
    match s.enqueue arg data room with
    | .error .assertion => none
    | .error .mem => s.memErr
    | .ok s' => if s'.validQueuelen then some (s', .ok) else none

/-- `tcp_enqueue_flags` for a SYN or a FIN. -/
def tcpEnqueueFlags (s : Snd) (syn : Bool) (room : Nat) : Snd × Err :=
  if room < 2 then ({ s with nagleMemErr := true }, .mem)
  else
    ({ s with
      unsent := s.unsent ++ [⟨s.sndLbb, [], 0, syn, !syn, false⟩]
      sndLbb := s.sndLbb + 1
      fin := s.fin || !syn
      sndQueuelen := s.sndQueuelen + 1 }, .ok)

/-- `tcp_send_fin`: the FIN goes into the last unsent segment, or into one of its own. -/
def tcpSendFin (s : Snd) (room : Nat) : Snd × Err :=
  match s.unsent.getLast? with
  | some last =>
    if last.syn || last.fin then s.tcpEnqueueFlags false room
    else ({ s with unsent := s.unsent.dropLast ++ [{ last with fin := true }], fin := true }, .ok)
  | none => s.tcpEnqueueFlags false room

/-- `tcp_do_output_nagle` -/
def tcpDoOutputNagle (s : Snd) : Bool :=
  s.unacked.isEmpty || s.nodelay || s.infr ||
    (match s.unsent with
      | [] => false
      | [seg] => decide (s.mss ≤ seg.len)
      | _ :: _ :: _ => true) ||
    (s.sndBuf == 0 || decide (sndQueuelenMax ≤ s.sndQueuelen))

/-- The window data may be sent into. -/
def wnd (s : Snd) : Nat := min s.sndWnd s.cwnd

def fits (s : Snd) (seg : OutSeg) : Bool := decide ((seg.seqno - s.lastack + ofLen seg.len).toNat ≤ s.wnd)

/-- The timer is started before the segment goes out. -/
def startTimer (s : Snd) : Snd := { s with rtime := if s.rtime < 0 then 0 else s.rtime }

/-- A segment goes to the end of `unacked`, or in front of later ones when it is sent again. -/
def insertUnacked (seg : OutSeg) (unacked : List OutSeg) : List OutSeg :=
  match unacked.getLast? with
  | none => [seg]
  | some useg => if tcpSeqLt seg.seqno useg.seqno then insertSorted seg unacked else unacked ++ [seg]

/-- The first unsent segment is out. -/
def sentHead (s : Snd) (seg : OutSeg) (rest : List OutSeg) : Snd :=
  { s with
    unsent := rest
    sndNxt := if tcpSeqLt s.sndNxt (seg.seqno + ofLen seg.tcplen) then seg.seqno + ofLen seg.tcplen else s.sndNxt
    unacked := if 0 < seg.tcplen then insertUnacked seg s.unacked else s.unacked }

/-- The loop of `tcp_output` over `unsent`; the interface takes `ok` segments before it refuses one. -/
def outputLoop : List OutSeg → Nat → Snd → Snd × List OutSeg × Bool
  | [], _, s => (s, [], true)
  | seg :: rest, ok, s =>
    if s.fits seg && (s.tcpDoOutputNagle || s.nagleMemErr || s.fin) then
      match ok with
      | 0 => ({ s.startTimer with nagleMemErr := true }, [], false)
      | ok + 1 =>
        let o := outputLoop rest ok (s.startTimer.sentHead seg rest)
        (o.1, seg :: o.2.1, o.2.2)
    else (s, [], true)

/-- Nothing can be sent: an empty acknowledgement, if one is due. -/
def nothingToSend (s : Snd) (ackNow : Bool) : Snd × List OutSeg × Bool :=
  if ackNow then (s, [], true) else ({ s with nagleMemErr := false }, [], false)

/-- `tcp_output`: the segments that went out, and whether an empty acknowledgement has to. -/
def tcpOutput (s : Snd) (ackNow : Bool) (ok : Nat) : Snd × List OutSeg × Bool :=
  match s.unsent with
  | [] => s.nothingToSend ackNow
  | seg :: rest =>
    if s.fits seg then
      let o := outputLoop (seg :: rest) ok s
      (if o.2.2 then { o.1 with nagleMemErr := false } else o.1, o.2.1, false)
    else s.nothingToSend ackNow

/-- `tcp_rexmit`: the first segment in flight is put back. -/
def tcpRexmit (s : Snd) : Option Snd :=
  match s.unacked with
  | [] => none
  | seg :: rest => some { s with unacked := rest, unsent := insertSorted seg s.unsent }

/-- `tcp_rexmit_fast` -/
def tcpRexmitFast (s : Snd) : Snd :=
  if s.infr then s
  else
    match s.tcpRexmit with
    | none => s
    | some s =>
      let half := min s.cwnd s.sndWnd / 2
      let ssthresh := if half < 2 * s.mss then 2 * s.mss % 65536 else half
      { s with ssthresh, cwnd := (ssthresh + 3 * s.mss) % 65536, infr := true, rtime := 0 }

/-- A duplicate acknowledgement. -/
def dupAck (s : Snd) : Snd :=
  let s := { s with dupacks := if s.dupacks < 255 then s.dupacks + 1 else s.dupacks }
  let s := if 3 < s.dupacks then { s with cwnd := wndInc s.cwnd s.mss } else s
  if 3 ≤ s.dupacks then s.tcpRexmitFast else s

/-- `tcp_free_acked_segments`: what is left of a queue, of `snd_queuelen`, and `recv_acked`. -/
def tcpFreeAckedSegments (ackno : BitVec 32) : List OutSeg → Nat → Nat → Option (List OutSeg × Nat × Nat)
  | [], queuelen, acked => some ([], queuelen, acked)
  | seg :: rest, queuelen, acked =>
    if tcpSeqLeq (seg.seqno + ofLen seg.tcplen) ackno then
      if seg.clen ≤ queuelen then
        tcpFreeAckedSegments ackno rest (queuelen - seg.clen) ((acked + seg.len) % 65536)
      else none
    else some (seg :: rest, queuelen, acked)

/-- Slow start below `ssthresh`, congestion avoidance above it. -/
def growCwnd (s : Snd) (acked : Nat) : Snd :=
  if s.cwnd < s.ssthresh then { s with cwnd := wndInc s.cwnd (min acked (2 * s.mss % 65536)) }
  else
    let bytesAcked := wndInc s.bytesAcked acked
    if s.cwnd ≤ bytesAcked then { s with bytesAcked := bytesAcked - s.cwnd, cwnd := wndInc s.cwnd s.mss }
    else { s with bytesAcked }

/-- New data is acknowledged: fast retransmission is over. -/
def leaveInfr (s : Snd) : Snd :=
  if s.infr then { s with infr := false, cwnd := s.ssthresh, bytesAcked := 0 } else s

/-- The acknowledged segments of both queues go, and their room is free again. -/
def freeAcked (s : Snd) (ackno : BitVec 32) : Option (Snd × Nat) := do
  let (unacked, queuelen, acked) ← tcpFreeAckedSegments ackno s.unacked s.sndQueuelen 0
  let (unsent, queuelen, acked) ← tcpFreeAckedSegments ackno s.unsent queuelen acked
  some ({ s with
    unacked
    unsent
    sndQueuelen := queuelen
    rtime := if unacked = [] then -1 else 0
    sndBuf := (s.sndBuf + acked) % 65536 }, acked)

def ackNew (s : Snd) (ackno : BitVec 32) : Option (Snd × Nat) :=
  freeAcked
    { s.leaveInfr.growCwnd ((ackno - s.lastack).toNat % 65536) with dupacks := 0, lastack := ackno } ackno

end Snd

/-- What the sending side reads of a segment with an ACK. -/
structure AckHdr where
  seqno : BitVec 32
  ackno : BitVec 32
  wnd : BitVec 16
  tcplen : Nat
  deriving DecidableEq, Repr

namespace Snd

/-- The peer's window, from the latest segment. -/
def updateWnd (s : Snd) (h : AckHdr) : Snd :=
  if tcpSeqLt s.sndWl1 h.seqno || (s.sndWl1 == h.seqno && tcpSeqLt s.sndWl2 h.ackno) ||
      (s.sndWl2 == h.ackno && decide (s.sndWnd < h.wnd.toNat)) then
    { s with
      sndWnd := h.wnd.toNat, sndWndMax := max s.sndWndMax h.wnd.toNat, sndWl1 := h.seqno, sndWl2 := h.ackno }
  else s

/-- `tcp_receive` for the ACK of a segment: `recv_acked`, and whether an empty acknowledgement is sent. -/
def tcpReceiveAck (s : Snd) (h : AckHdr) : Option (Snd × Nat × Bool) :=
  let rightWndEdge := s.sndWl2 + ofLen s.sndWnd
  let s := s.updateWnd h
  if tcpSeqLeq h.ackno s.lastack then
    if h.tcplen = 0 ∧ s.sndWl2 + ofLen s.sndWnd = rightWndEdge ∧ 0 ≤ s.rtime ∧ s.lastack = h.ackno then
      some (s.dupAck, 0, false)
    else some ({ s with dupacks := 0 }, 0, false)
  else if tcpSeqBetween h.ackno (s.lastack + 1) s.sndNxt then (s.ackNew h.ackno).map fun o => (o.1, o.2, false)
  else some (s, 0, true)

end Snd

end Tunosocks.Lwip
