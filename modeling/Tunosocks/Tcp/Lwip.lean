import Mathlib.Algebra.GroupWithZero.Nat
import Mathlib.Data.List.Basic
import Tunosocks.Foundation.Buffer

/-! The part of lwIP a relayed connection lives on: packet buffers, the fields of a
protocol control block that the relay reads, and the segment processing that decides
which callbacks run. Allocation succeeds and `tcp_close` can always queue its FIN. The queues
of segments are not kept: what `tcp_write` finds there comes with each call. -/
namespace Tunosocks.Tcp
open Foundation.Buffer

/-- `TCP_WND`, which is also `TCP_SND_BUF`. -/
def tcpWnd : Nat := 0xFFFF

/-- A `pbuf` with the payloads of the buffers chained behind it. -/
structure Pbuf where
  payload : List UInt8
  next : List (List UInt8)
  deriving DecidableEq, Repr

namespace Pbuf

def len (p : Pbuf) : Nat := p.payload.length

def bytes (p : Pbuf) : List UInt8 := p.payload ++ p.next.flatten

def totLen (p : Pbuf) : Nat := p.bytes.length

end Pbuf

/-- The states an accepted connection passes through. -/
inductive TcpState where
  | established
  | finWait1
  | finWait2
  | closeWait
  | closing
  | lastAck
  | timeWait
  deriving DecidableEq, Repr

/-- What `tcp_write` finds in the queues: no room in them, room behind everything written before, or, as the last
segment of `unsent`, one that `tcp_rexmit` has put back there and the window holds. It ends at stream offset `stop`
and takes `space` bytes more. -/
inductive Room where
  | full
  | free
  | held (stop space : Nat)
  deriving DecidableEq, Repr

structure Pcb where
  localIp : List UInt8
  localPort : Nat
  state : TcpState
  /-- Whether `callback_arg` points to the session or is null. -/
  callbackArg : Bool
  rcvWnd : Nat
  sndBuf : Nat
  /-- The lengths given to `tcp_write`, which keeps references and copies nothing. -/
  writes : List Nat
  /-- Bytes that `tcp_write` put behind a segment held to be sent again: stream offset and place in the buffer. -/
  strays : List (Nat × Nat)
  /-- Stream bytes acknowledged by the local peer. -/
  acked : Nat
  /-- Stream bytes transmitted at least once. -/
  sndNxt : Nat
  /-- `TF_RXCLOSED` -/
  rxClosed : Bool
  /-- `TF_CLOSED`: the block is freed at the end of the current `tcp_input`. -/
  closed : Bool
  freed : Bool
  deriving DecidableEq, Repr

/-- What one segment brings, reduced to what the block accepts of it. -/
structure Segment where
  /-- Stream bytes newly acknowledged. -/
  acked : Nat
  /-- Whether the FIN of this side is acknowledged too. -/
  finAcked : Bool
  /-- In-order data, with out-of-sequence data it completes chained behind. -/
  data : Option Pbuf
  fin : Bool
  deriving DecidableEq, Repr

def Segment.tcplen (seg : Segment) : Nat :=
  (match seg.data with
    | some p => p.totLen
    | none => 0) + if seg.fin then 1 else 0

namespace Pcb

/-- Bytes ever accepted by `tcp_write`. -/
def queued (pcb : Pcb) : Nat := pcb.writes.sum

/-- The buffer offset behind each stream byte: every write refers to the buffer from its start. -/
def cells (pcb : Pcb) : List Nat := pcb.writes.flatMap List.range

/-- The buffer offsets behind the bytes of a segment. A segment to which `tcp_write` has added bytes out of turn
carries those (`stray`). -/
def carried (pcb : Pcb) (offset n : Nat) (stray : Bool) : List Nat :=
  (slice pcb.cells offset n).mapIdx fun i cell => if stray then (pcb.strays.lookup (offset + i)).getD cell else cell

/-- The bytes of a write that go behind a segment which ends before the last byte written. -/
def misplaced (pcb : Pcb) (len : Nat) : Room → List (Nat × Nat)
  | .held stop space =>
    if pcb.acked < stop ∧ stop < pcb.queued then (List.range (min len space)).map fun i => (stop + i, i) else []
  | _ => []

/-- Data and FIN are looked at only before CLOSE_WAIT. -/
def receives (pcb : Pcb) : Bool :=
  match pcb.state with
  | .established | .finWait1 | .finWait2 => true
  | _ => false

/-- Whether the FIN of this side has been sent and not been acknowledged. -/
def finPending (pcb : Pcb) : Bool :=
  match pcb.state with
  | .finWait1 | .closing | .lastAck => true
  | _ => false

/-- The segments the block can be handed: acknowledgements of what was transmitted,
data inside the window. -/
def accepts (pcb : Pcb) (seg : Segment) : Bool :=
  !pcb.freed && pcb.state != .timeWait && decide (pcb.acked + seg.acked ≤ pcb.sndNxt) &&
    (!seg.finAcked || pcb.finPending && pcb.acked + seg.acked == pcb.queued) &&
    (decide (seg.tcplen = 0) || pcb.receives && decide (seg.tcplen ≤ pcb.rcvWnd)) &&
    seg.data.all fun p => decide (0 < p.totLen)

/-- `tcp_process` with `tcp_receive`: windows, then the state. -/
def tcpProcess (pcb : Pcb) (seg : Segment) : Pcb :=
  let pcb := { pcb with
    acked := pcb.acked + seg.acked, sndBuf := pcb.sndBuf + seg.acked, rcvWnd := pcb.rcvWnd - seg.tcplen }
  match pcb.state with
  | .established => if seg.fin then { pcb with state := .closeWait } else pcb
  | .finWait1 =>
    if seg.fin then { pcb with state := if seg.finAcked then .timeWait else .closing }
    else if seg.finAcked then { pcb with state := .finWait2 } else pcb
  | .finWait2 => if seg.fin then { pcb with state := .timeWait } else pcb
  | .closing => if seg.finAcked then { pcb with state := .timeWait } else pcb
  | .lastAck => if seg.finAcked then { pcb with closed := true } else pcb
  | .closeWait | .timeWait => pcb

/-- `tcp_close` from inside `tcp_input`: with data the application has not taken the
peer is reset and the block goes at the end of the input. -/
def tcpClose (pcb : Pcb) : Pcb :=
  let pcb := { pcb with rxClosed := true }
  match pcb.state with
  | .established => if pcb.rcvWnd = tcpWnd then { pcb with state := .finWait1 } else { pcb with closed := true }
  | .closeWait => if pcb.rcvWnd = tcpWnd then { pcb with state := .lastAck } else { pcb with closed := true }
  | _ => pcb

/-- `tcp_write` without copy, or nothing when it refuses. -/
def tcpWrite (pcb : Pcb) (len : Nat) (room : Room) : Option Pcb :=
  if (pcb.state = .established ∨ pcb.state = .closeWait) ∧ len ≤ pcb.sndBuf ∧ room ≠ .full then
    some { pcb with
      sndBuf := pcb.sndBuf - len, writes := pcb.writes ++ [len], strays := pcb.strays ++ pcb.misplaced len room }
  else none

/-- `tcp_recved`: the window grows by what was taken and is clamped. -/
def tcpRecved (pcb : Pcb) (len : Nat) : Pcb := { pcb with rcvWnd := min (pcb.rcvWnd + len) tcpWnd }

end Pcb

end Tunosocks.Tcp
