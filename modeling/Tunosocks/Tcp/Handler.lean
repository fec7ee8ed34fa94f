import Tunosocks.Foundation.Machine
import Tunosocks.Tcp.Session

/-! `TcpHandler` and the lwIP callbacks for one connection, and the machine whose
actions are segments, completions on the remote socket and queued handlers. Callbacks
and handlers share one event loop, so each action runs to its end. -/
namespace Tunosocks.Tcp
open Foundation Foundation.Buffer

def andThen (r : Outcome) (f : Conn → Outcome) : Outcome := ((f r.1).1, r.2 ++ (f r.1).2)

/-- `tcp_input` goes on unless a callback made the block go away. -/
def whileAlive (r : Outcome) (f : Conn → Outcome) : Outcome :=
  if r.1.pcb.freed || r.1.halted then r else andThen r f

namespace Conn

/-- `remote_socket.cancel()` -/
def cancel (c : Conn) : Conn :=
  { c with
    start := c.start.cancel, writers := c.writers.map Coroutine.cancel, readers := c.readers.map Coroutine.cancel
    readQueue := [], writeQueue := [] }

def stop (c : Conn) : Outcome :=
  if c.status = .close then (c, [.stopped])
  else if c.pcb.freed then (c.crash, [.stopped, .crashed])
  else ({ c.cancel with status := .close, pcb := { c.pcb with callbackArg := false } }, [.stopped])

/-- `TcpHandler::Clear` for the key of this connection. -/
def clear (c : Conn) : Outcome :=
  if c.inMap then andThen c.stop fun c => ({ c with inMap := false }, [.cleared]) else (c, [])

def proxyTcpPacket (c : Conn) (p : Pbuf) : Outcome :=
  let c := { c with pbufQueue := c.pbufQueue ++ [p] }
  if c.status = .relaying ∧ c.remoteSending = false then
    ({ c with remoteSending := true, writers := c.writers ++ [Coroutine.finished] }.writerLoop c.writers.length,
      [.proxied p])
  else (c, [.proxied p])

/-- `TcpHandler::Handle` for a packet, with whether the packet is handled. -/
def handle (c : Conn) (p : Pbuf) : Outcome × Bool :=
  if c.inMap then
    if c.status = .close then ((c, [.pbufFreed p]), false) else (c.proxyTcpPacket p, true)
  else ((c.crash, [.crashed]), true)

def tcpClose (c : Conn) : Outcome := ({ c with pcb := c.pcb.tcpClose }, [.tcpClosed])

def tcpRecvFunc (c : Conn) : Option Pbuf → Outcome
  | none => if c.pcb.state = .closeWait then andThen c.tcpClose clear else (c.crash, [.crashed])
  | some p =>
    if p.len = p.totLen then
      if (c.handle p).2 then (c.handle p).1 else andThen (andThen (c.handle p).1 clear) tcpClose
    else (c.crash, [.crashed])

/-- The argument is the session's address, which outlives the session when `Stop()`
found the status already closed. -/
def tcpErrFunc (c : Conn) : Outcome :=
  if c.pcb.callbackArg then if c.destroyed then (c.crash, [.crashed]) else c.clear else (c, [])

def freeBlock (c : Conn) : Conn := { c with pcb := { c.pcb with freed := true } }

/-- `tcp_abandon` frees the block before it reports the error. -/
def tcpAbort (c : Conn) : Outcome :=
  if c.pcb.state = .timeWait then (c.freeBlock, [.tcpAborted])
  else andThen (c.freeBlock, [.tcpAborted]) tcpErrFunc

def isRemoteReadable (c : Conn) : Bool := decide (readThreshold < c.pcb.sndBuf)

def readFromRemote (c : Conn) : Conn :=
  if c.shouldReadFromRemote then c
  else
    { c with shouldReadFromRemote := true, readers := c.readers ++ [Coroutine.finished] }.awaitReader
      c.readers.length

def tcpSentFunc (c : Conn) : Outcome :=
  if c.pcb.callbackArg then
    if c.destroyed then (c.crash, [.crashed])
    else (if c.isRemoteReadable then c.readFromRemote else c, [])
  else c.tcpAbort

/-- `tcp_input_delayed_close` -/
def delayedClose (c : Conn) : Outcome :=
  if c.pcb.closed then andThen (if c.pcb.rxClosed then (c, []) else c.tcpErrFunc) fun c => (c.freeBlock, [])
  else (c, [])

def deliver (c : Conn) : Option Pbuf → Outcome
  | none => (c, [])
  | some p => if c.pcb.rxClosed then andThen (c, [.pbufFreed p]) tcpAbort else c.tcpRecvFunc (some p)

def deliverFin (c : Conn) (fin : Bool) : Outcome :=
  if fin then
    { c with pcb := { c.pcb with
      rcvWnd := if c.pcb.rcvWnd = tcpWnd then tcpWnd else c.pcb.rcvWnd + 1 } }.tcpRecvFunc none
  else (c, [])

def processed (c : Conn) (seg : Segment) : Outcome := ({ c with pcb := c.pcb.tcpProcess seg }, [])

def afterSent (c : Conn) (seg : Segment) : Outcome :=
  if 0 < seg.acked then andThen (c.processed seg) tcpSentFunc else c.processed seg

/-- What `tcp_input` does before it comes to the data of a segment. -/
def beforeData (c : Conn) (seg : Segment) : Outcome := whileAlive (c.afterSent seg) delayedClose

/-- What `tcp_input` does before it comes to the FIN of a segment. -/
def beforeFin (c : Conn) (seg : Segment) : Outcome := whileAlive (c.beforeData seg) fun c => c.deliver seg.data

def afterFin (c : Conn) (seg : Segment) : Outcome := whileAlive (c.beforeFin seg) fun c => c.deliverFin seg.fin

/-- The callbacks `tcp_input` makes for a segment, in its order. -/
def tcpInput (c : Conn) (seg : Segment) : Outcome := whileAlive (c.afterFin seg) delayedClose

/-- A reset segment: the error is reported while the block still exists. -/
def tcpReset (c : Conn) : Outcome := andThen c.tcpErrFunc fun c => (c.freeBlock, [])

/-- `async_connect` completes. -/
def connectEnds (c : Conn) (r : Completion) : Option Outcome :=
  match c.start with
  | .suspended .connect => some ({ c with start := .completed .connect r }, [])
  | _ => none

/-- The oldest write accepts some of what it offers. -/
def accept (c : Conn) (n : Nat) : Option Outcome :=
  match c.writeQueue with
  | .start :: rest =>
    match c.start with
    | .suspended point => (point.offered c.remoteRecvBuff).bind fun bytes =>
      if 0 < n ∧ n ≤ bytes.length then
        some ({ c with writeQueue := rest, start := .completed point (.ok n) }, [point.accepted (bytes.take n)])
      else none
    | _ => none
  | .writer j :: rest =>
    match c.writers[j]? with
    | some (.suspended point) =>
      if 0 < n ∧ n ≤ point.offered.length then
        some ({ c with writeQueue := rest, writers := c.writers.set j (.completed point (.ok n)) },
          [.uploaded (point.offered.take n)])
      else none
    | _ => none
  | _ => none

def failWrite (c : Conn) : Option Outcome :=
  match c.writeQueue with
  | .start :: rest =>
    match c.start with
    | .suspended point => (point.offered c.remoteRecvBuff).map fun _ =>
      ({ c with writeQueue := rest, start := .completed point .error }, [])
    | _ => none
  | .writer j :: rest =>
    match c.writers[j]? with
    | some (.suspended point) =>
      some ({ c with writeQueue := rest, writers := c.writers.set j (.completed point .error) }, [])
    | _ => none
  | _ => none

/-- The oldest read stores what has arrived. -/
def arrive (c : Conn) (data : List UInt8) : Option Outcome :=
  match c.readQueue with
  | .start :: rest =>
    match c.start with
    | .suspended point => point.window.bind fun (off, size) =>
      if data ≠ [] ∧ data.length ≤ size then
        some ({ c with
          readQueue := rest, remoteRecvBuff := c.remoteRecvBuff.store off data
          start := .completed point (.ok data.length) }, [point.received data])
      else none
    | _ => none
  | .reader j :: rest =>
    match c.readers[j]? with
    | some (.suspended _) =>
      if data ≠ [] ∧ data.length ≤ tcpRecvBuffSize then
        some ({ c with
          readQueue := rest, remoteRecvBuff := c.remoteRecvBuff.store 0 data
          readers := c.readers.set j (.completed () (.ok data.length)) }, [.downloaded data])
      else none
    | _ => none
  | _ => none

/-- The oldest read fails or meets the end of the stream. -/
def failRead (c : Conn) : Option Outcome :=
  match c.readQueue with
  | .start :: rest =>
    match c.start with
    | .suspended point => point.window.map fun _ =>
      ({ c with readQueue := rest, start := .completed point .error }, [])
    | _ => none
  | .reader j :: rest =>
    match c.readers[j]? with
    | some (.suspended _) => some ({ c with readQueue := rest, readers := c.readers.set j (.completed () .error) }, [])
    | _ => none
  | _ => none

/-- Segments refer to the session's buffer, also when the session is gone and the
memory holds something else. -/
def transmit (c : Conn) (offset n : Nat) (memory : List UInt8) (stray : Bool) : Option Outcome :=
  if c.pcb.freed = false ∧ c.pcb.state ≠ .timeWait ∧ 0 < n ∧ offset ≤ c.pcb.sndNxt ∧ offset + n ≤ c.pcb.queued ∧
      c.pcb.acked < offset + n then
    let source := if c.destroyed then memory else c.remoteRecvBuff.1
    some ({ c with pcb := { c.pcb with sndNxt := max c.pcb.sndNxt (offset + n) } },
      [.transmitted offset ((c.pcb.carried offset n stray).map fun i => source.getD i 0)])
  else none

/-- `~TcpSession`, when neither the map nor a coroutine holds the session any more. -/
def reap (c : Conn) : Outcome :=
  if c.destroyed = false ∧ c.inMap = false ∧ c.start.isFinished ∧ c.writers.all Coroutine.isFinished ∧
      c.readers.all Coroutine.isFinished then
    ({ c with destroyed := true, pbufQueue := [] }, c.pbufQueue.map .pbufFreed ++ [.destroyed])
  else (c, [])

/-- `listener_accept_func` with `Handle` and `Start`; `opened` is what `openRemoteSocket` returns. -/
def listenerAcceptFunc (localIp : List UInt8) (localPort : Nat) (buff : RecvBuff) (opened : Bool) : Conn where
  pcb := {
    localIp, localPort, state := .established, callbackArg := true, rcvWnd := tcpWnd, sndBuf := tcpWnd
    writes := [], strays := [], acked := 0, sndNxt := 0, rxClosed := false, closed := false, freed := false }
  status := if opened then .init else .close
  pbufQueue := []
  remoteRecvBuff := buff
  shouldReadFromRemote := true
  remoteSending := false
  inMap := true
  start := if opened then .suspended .connect else .finished
  writers := []
  readers := []
  readQueue := []
  writeQueue := []
  destroyed := false
  halted := false

end Conn

inductive TcpAct where
  | input (seg : Segment)
  | reset
  | transmit (offset n : Nat) (memory : List UInt8) (stray : Bool)
  | connected
  | connectFailed
  | accept (n : Nat)
  | failWrite
  | arrive (data : List UInt8)
  | failRead
  | resume (coro : CoroId) (room : Room)
  deriving DecidableEq, Repr

def Conn.act (c : Conn) : TcpAct → Option Outcome
  | .input seg => if c.pcb.accepts seg then some (c.tcpInput seg) else none
  | .reset => if c.pcb.freed ∨ c.pcb.state = .timeWait then none else some c.tcpReset
  | .transmit offset n memory stray => c.transmit offset n memory stray
  | .connected => c.connectEnds (.ok 0)
  | .connectFailed => c.connectEnds .error
  | .accept n => c.accept n
  | .failWrite => c.failWrite
  | .arrive data => c.arrive data
  | .failRead => c.failRead
  | .resume coro room => c.resume room coro

/-- The life of one accepted connection and its session. -/
def connMachine : Machine Conn TcpAct TcpEvent where
  Init c := ∃ localIp localPort buff opened, localIp.length = 4 ∧ localPort < 65536 ∧
    c = Conn.listenerAcceptFunc localIp localPort buff opened
  step c a := if c.halted then none else (c.act a).map fun r => andThen r Conn.reap

end Tunosocks.Tcp
