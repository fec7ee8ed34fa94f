import Tunosocks.Foundation.Serial
import Tunosocks.Lwip.PbufChain

/-! The data half of `tcp_receive`: the next segment in sequence with the ones it
completes, the queue `ooseq` of those that came early, and the window that is announced.
A failed `LWIP_ASSERT` aborts the process and is `none` here. -/
namespace Tunosocks.Lwip
open Tcp

/-- `TCP_SEQ_LT` -/
def tcpSeqLt (a b : BitVec 32) : Bool := decide ((a - b).toInt < 0)

/-- `TCP_SEQ_LEQ` -/
def tcpSeqLeq (a b : BitVec 32) : Bool := decide ((a - b).toInt ≤ 0)

/-- `TCP_SEQ_GT` -/
def tcpSeqGt (a b : BitVec 32) : Bool := decide (0 < (a - b).toInt)

/-- `TCP_SEQ_GEQ` -/
def tcpSeqGeq (a b : BitVec 32) : Bool := decide (0 ≤ (a - b).toInt)

/-- `TCP_SEQ_BETWEEN` -/
def tcpSeqBetween (a b c : BitVec 32) : Bool := tcpSeqGeq a b && tcpSeqLeq a c

/-- A length or a window added to a sequence number. -/
def ofLen (n : Nat) : BitVec 32 := BitVec.ofNat 32 n

/-- `(u16_t)(a - b)` -/
def distance16 (a b : BitVec 32) : Nat := (a - b).toNat % 65536

/-- A received `tcp_seg`, the header reduced to what is read of it. -/
structure TcpSeg where
  seqno : BitVec 32
  p : Pbuf
  len : Nat
  fin : Bool
  syn : Bool
  deriving DecidableEq, Repr

namespace TcpSeg

/-- `TCP_TCPLEN` -/
def tcplen (seg : TcpSeg) : Nat := seg.len + if seg.fin || seg.syn then 1 else 0

/-- `len` cut down, with the buffers. -/
def shorten (seg : TcpSeg) (len : Nat) : TcpSeg := { seg with len, p := pbufRealloc seg.p len }

/-- A queued segment gives way to one that starts inside it. -/
def giveWay (seg : TcpSeg) (seqno : BitVec 32) : TcpSeg :=
  if tcpSeqGt (seg.seqno + ofLen seg.len) seqno then seg.shorten (distance16 seqno seg.seqno) else seg

end TcpSeg

/-- The receiving side of a `tcp_pcb`. -/
structure Rcv where
  rcvNxt : BitVec 32
  rcvWnd : Nat
  rcvAnnWnd : Nat
  rcvAnnRightEdge : BitVec 32
  mss : Nat
  ooseq : List TcpSeg
  /-- `TF_ACK_DELAY` -/
  ackDelay : Bool
  /-- `TF_ACK_NOW` -/
  ackNow : Bool
  deriving DecidableEq, Repr

/-- What becomes of an empty acknowledgement. -/
inductive AckOutcome where
  | noBuf
  | failed
  | sent
  deriving DecidableEq, Repr

/-- The loop of `tcp_oos_insert_segment`. -/
def replaceCovered (cseg : TcpSeg) : List TcpSeg → List TcpSeg
  | [] => [cseg]
  | next :: rest =>
    if tcpSeqGeq (cseg.seqno + ofLen cseg.len) (next.seqno + ofLen next.len) then
      replaceCovered (if next.fin then { cseg with fin := true } else cseg) rest
    else if tcpSeqGt (cseg.seqno + ofLen cseg.len) next.seqno then
      cseg.shorten (distance16 next.seqno cseg.seqno) :: next :: rest
    else cseg :: next :: rest

def tcpOosInsertSegment (cseg : TcpSeg) (next : List TcpSeg) : List TcpSeg :=
  if cseg.fin then [cseg] else replaceCovered cseg next

namespace Rcv

def tcpAckNow (r : Rcv) : Rcv := { r with ackNow := true }

/-- `tcp_ack` -/
def tcpAck (r : Rcv) : Rcv :=
  if r.ackDelay then { r with ackDelay := false, ackNow := true } else { r with ackDelay := true }

/-- The window is announced in every segment that goes out. -/
def announce (r : Rcv) : Rcv := { r with rcvAnnRightEdge := r.rcvNxt + ofLen r.rcvAnnWnd }

def tcpSendEmptyAck (r : Rcv) : AckOutcome → Rcv
  | .noBuf => { r with ackDelay := true, ackNow := true }
  | .failed => { r.announce with ackDelay := true, ackNow := true }
  | .sent => { r.announce with ackDelay := false, ackNow := false }

/-- `tcp_update_rcv_ann_wnd`, with how far the right edge would move. -/
def tcpUpdateRcvAnnWnd (r : Rcv) : Option (Rcv × BitVec 32) :=
  let newRightEdge := r.rcvNxt + ofLen r.rcvWnd
  if tcpSeqGeq newRightEdge (r.rcvAnnRightEdge + ofLen (min (tcpWnd / 2) r.mss)) then
    some ({ r with rcvAnnWnd := r.rcvWnd }, newRightEdge - r.rcvAnnRightEdge)
  else if tcpSeqGt r.rcvNxt r.rcvAnnRightEdge then some ({ r with rcvAnnWnd := 0 }, 0)
  else
    let newRcvAnnWnd := (r.rcvAnnRightEdge - r.rcvNxt).toNat
    if newRcvAnnWnd ≤ 0xffff then some ({ r with rcvAnnWnd := newRcvAnnWnd }, 0) else none

/-- `TCP_WND_UPDATE_THRESHOLD` -/
def wndUpdateThreshold : Nat := tcpWnd / 4

/-- The window grown by `len`, clamped on overflow. -/
def grownWnd (r : Rcv) (len : Nat) : Nat :=
  let rcvWnd := (r.rcvWnd + len) % 65536
  if tcpWnd < rcvWnd ∨ rcvWnd < r.rcvWnd then tcpWnd else rcvWnd

/-- A large enough change of the window is sent at once. -/
def sendUpdate (o : Rcv × BitVec 32) : Rcv × Bool :=
  if wndUpdateThreshold ≤ o.2.toNat then (o.1.tcpAckNow, true) else (o.1, false)

/-- `tcp_recved`; whether an update has to go out now is the second part. -/
def tcpRecved (r : Rcv) (len : Nat) : Option (Rcv × Bool) :=
  ({ r with rcvWnd := r.grownWnd len } : Rcv).tcpUpdateRcvAnnWnd.map sendUpdate

/-- Data that lies before `rcv_nxt` is cut off the segment. -/
def trimFirstEdge (r : Rcv) (inseg : TcpSeg) : Option (Rcv × TcpSeg) :=
  if tcpSeqBetween r.rcvNxt (inseg.seqno + 1) (inseg.seqno + ofLen inseg.tcplen - 1) then
    let off := (r.rcvNxt - inseg.seqno).toNat
    if off < 0xffff ∧ off ≤ inseg.p.totLen then
      some (r, { inseg with
        seqno := r.rcvNxt, len := (inseg.len + 65536 - off) % 65536, p := trimChain off inseg.p.payload inseg.p.next })
    else none
  else if tcpSeqLt inseg.seqno r.rcvNxt then some (r.tcpAckNow, inseg)
  else some (r, inseg)

/-- The length of a segment that must also hold a SYN. -/
def roomFor (inseg : TcpSeg) (len : Nat) : Nat := if inseg.syn then (len + 65535) % 65536 else len

/-- A segment in sequence that overruns the window is cut, and loses its FIN. -/
def trimToWnd (r : Rcv) (inseg : TcpSeg) : Option TcpSeg :=
  if r.rcvWnd < inseg.tcplen % 65536 then
    let inseg := { inseg with fin := false }.shorten (roomFor inseg r.rcvWnd)
    if inseg.seqno + ofLen (inseg.tcplen % 65536) = r.rcvNxt + ofLen r.rcvWnd then some inseg else none
  else some inseg

/-- Queued segments that the segment in sequence covers go; a FIN of theirs is kept. -/
def dropCovered (inseg : TcpSeg) : List TcpSeg → TcpSeg × List TcpSeg
  | [] => (inseg, [])
  | next :: rest =>
    if tcpSeqGeq (inseg.seqno + ofLen (inseg.tcplen % 65536)) (next.seqno + ofLen next.len) then
      dropCovered (if next.fin && !inseg.syn then { inseg with fin := true } else inseg) rest
    else (inseg, next :: rest)

/-- The segment in sequence ends where the queue starts. -/
def trimToHead (inseg : TcpSeg) : List TcpSeg → Option (TcpSeg × List TcpSeg)
  | [] => some (inseg, [])
  | next :: rest =>
    if tcpSeqGt (inseg.seqno + ofLen (inseg.tcplen % 65536)) next.seqno then
      let inseg := inseg.shorten (roomFor inseg (distance16 next.seqno inseg.seqno))
      if inseg.seqno + ofLen (inseg.tcplen % 65536) = next.seqno then some (inseg, next :: rest) else none
    else some (inseg, next :: rest)

/-- The segment in sequence against the queue. -/
def trimToOoseq (inseg : TcpSeg) (ooseq : List TcpSeg) : Option (TcpSeg × List TcpSeg) :=
  if inseg.fin then some (inseg, [])
  else trimToHead (dropCovered inseg ooseq).1 (dropCovered inseg ooseq).2

/-- A segment's places go from the window to what was received. -/
def take (r : Rcv) (tcplen : Nat) : Option Rcv :=
  if tcplen ≤ r.rcvWnd then
    { r with rcvNxt := r.rcvNxt + ofLen tcplen, rcvWnd := r.rcvWnd - tcplen }.tcpUpdateRcvAnnWnd.map Prod.fst
  else none

/-- `recv_data` with another segment's buffers behind it. -/
def chain (recvData : Option Pbuf) (p : Pbuf) : Option Pbuf :=
  if 0 < p.totLen then
    match recvData with
    | some q => some (pbufCat q p)
    | none => some p
  else recvData

/-- Queued segments that are in sequence now are handed on too. -/
def dequeue (r : Rcv) (recvData : Option Pbuf) (gotFin : Bool) : List TcpSeg → Option (Rcv × Option Pbuf × Bool)
  | [] => some ({ r with ooseq := [] }, recvData, gotFin)
  | cseg :: rest =>
    if cseg.seqno = r.rcvNxt then
      (r.take cseg.tcplen).bind fun r => r.dequeue (chain recvData cseg.p) (gotFin || cseg.fin) rest
    else some ({ r with ooseq := cseg :: rest }, recvData, gotFin)

/-- The segment starts at `rcv_nxt`. -/
def inSequence (r : Rcv) (inseg : TcpSeg) : Option (Rcv × Option Pbuf × Bool) := do
  let inseg ← r.trimToWnd inseg
  let (inseg, ooseq) ← trimToOoseq inseg r.ooseq
  let r ← r.take (inseg.tcplen % 65536)
  let (r, recvData, gotFin) ← r.dequeue (chain none inseg.p) inseg.fin ooseq
  some (r.tcpAck, recvData, gotFin)

/-- A segment put last is cut where it overruns the window. -/
def clipToWnd (r : Rcv) (cseg : TcpSeg) : Option TcpSeg :=
  if tcpSeqGt (ofLen cseg.tcplen + cseg.seqno) (r.rcvNxt + ofLen r.rcvWnd) then
    let cseg := { cseg with fin := false }.shorten (distance16 (r.rcvNxt + ofLen r.rcvWnd) cseg.seqno)
    if cseg.seqno + ofLen (cseg.tcplen % 65536) = r.rcvNxt + ofLen r.rcvWnd then some cseg else none
  else some cseg

/-- `next` is the last segment of the queue. -/
def oosLast (r : Rcv) (inseg : TcpSeg) (room : Bool) (next : TcpSeg) : Option (List TcpSeg) :=
  if tcpSeqGt inseg.seqno next.seqno && !next.fin && room then
    (r.clipToWnd inseg).map fun cseg => [next.giveWay inseg.seqno, cseg]
  else some [next]

/-- The walk over `ooseq` behind `prev`; `room` is whether `tcp_seg_copy` gets its memory. -/
def oosWalk (r : Rcv) (inseg : TcpSeg) (room : Bool) : Option TcpSeg → List TcpSeg → Option (List TcpSeg)
  | prev, [] => some prev.toList
  | prev, next :: rest =>
    let after := if rest.isEmpty then r.oosLast inseg room next else r.oosWalk inseg room (some next) rest
    if inseg.seqno = next.seqno then
      if next.len < inseg.len ∧ room then some (prev.toList ++ tcpOosInsertSegment inseg (next :: rest))
      else some (prev.toList ++ next :: rest)
    else
      match prev with
      | none =>
        if tcpSeqLt inseg.seqno next.seqno then
          if room then some (tcpOosInsertSegment inseg (next :: rest)) else some (next :: rest)
        else after
      | some prev =>
        if tcpSeqBetween inseg.seqno (prev.seqno + 1) (next.seqno - 1) then
          if room then some (prev.giveWay inseg.seqno :: tcpOosInsertSegment inseg (next :: rest))
          else some (prev :: next :: rest)
        else after.map (prev :: ·)

def enqueue (r : Rcv) (inseg : TcpSeg) (room : Bool) : Option (List TcpSeg) :=
  if r.ooseq.isEmpty then some (if room then [inseg] else []) else r.oosWalk inseg room none r.ooseq

/-- The segment came early. -/
def outOfSequence (r : Rcv) (inseg : TcpSeg) (room : Bool) (ack : AckOutcome) : Option (Rcv × Option Pbuf × Bool) :=
  (r.enqueue inseg room).map fun ooseq => ({ r with ooseq }.tcpSendEmptyAck ack, none, false)

/-- `tcp_receive` for a segment with data or a FIN before the peer's FIN was received: the
data for the application and whether it ended there. -/
def tcpReceiveData (r : Rcv) (inseg : TcpSeg) (room : Bool) (ack : AckOutcome) :
    Option (Rcv × Option Pbuf × Bool) := do
  let (r, inseg) ← r.trimFirstEdge inseg
  if tcpSeqBetween inseg.seqno r.rcvNxt (r.rcvNxt + ofLen r.rcvWnd - 1) then
    if r.rcvNxt = inseg.seqno then r.inSequence inseg else r.outOfSequence inseg room ack
  else some (r.tcpSendEmptyAck ack, none, false)

/-- A segment without data, or after the peer's FIN. -/
def tcpReceiveEmpty (r : Rcv) (seqno : BitVec 32) : Rcv :=
  if tcpSeqBetween seqno r.rcvNxt (r.rcvNxt + ofLen r.rcvWnd - 1) then r else r.tcpAckNow

end Rcv

end Tunosocks.Lwip
