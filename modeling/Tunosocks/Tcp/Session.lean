import Tunosocks.Foundation.Coroutine
import Tunosocks.Socks5.ProtocolHelper
import Tunosocks.Tcp.Lwip

/-! `TcpSession`: its status, its queue of local packets, the buffer both directions of
the handshake and the download share, and its three kinds of coroutine. A coroutine
runs from one `async_` call to the next; what it does with the control block is observed. -/
namespace Tunosocks.Tcp
open Foundation Foundation.Buffer Socks5

/-- `TCP_REMOTE_RECV_BUFF_SIZE` and `TCP_LOCAL_RECV_BUFF_SIZE`. -/
def tcpRecvBuffSize : Nat := 1500 - 60 - 4

/-- `2 * TCP_LOCAL_RECV_BUFF_SIZE`: the macro has no parentheses. -/
def readThreshold : Nat := 2 * 1500 - 60 - 4

def defaultMethodRequest : List UInt8 := [5, 1, 0]

inductive Status where
  | init
  | handshaking
  | relaying
  | close
  deriving DecidableEq, Repr

/-- Where the coroutine of `Start` waits. The composed operations `async_write` and
`async_read` are loops, so their points carry what has been transferred. -/
inductive StartPoint where
  | connect
  | methodWrite (sent : Nat)
  | methodRead
  | requestWrite (sent : Nat)
  | requestRead (got : Nat)
  | drainWrite (front : Pbuf) (sent : Nat)
  | downloadRead
  deriving DecidableEq, Repr

/-- The writer of `ProxyTcpPacket` waits in the write of one buffer of a chain. -/
structure WriterPoint where
  front : Pbuf
  payload : List UInt8
  next : List (List UInt8)
  sent : Nat
  deriving DecidableEq, Repr

/-- The coroutine of `Start`, or one of those spawned by `ProxyTcpPacket` and `ReadFromRemote`. -/
inductive CoroId where
  | start
  | writer (j : Nat)
  | reader (j : Nat)
  deriving DecidableEq, Repr

/-- What a coroutine does with `original_pcb`. -/
inductive PcbUse where
  | localIp
  | localPort
  | tcpWrite (len : Nat) (taken : Bool)
  | tcpOutput
  | tcpSndbuf
  | tcpRecved (len : Nat)
  deriving DecidableEq, Repr

inductive TcpEvent where
  /-- `Stop()` is called. -/
  | stopped
  /-- `Clear` erases the session from the map. -/
  | cleared
  /-- A coroutine finds that its operation on the remote socket, or the reply check, failed. -/
  | failed
  | used (use : PcbUse)
  /-- A packet is passed to `ProxyTcpPacket`. -/
  | proxied (p : Pbuf)
  /-- The remote socket accepts bytes of a local packet. -/
  | uploaded (data : List UInt8)
  /-- The remote socket accepts bytes of the handshake. -/
  | greeted (data : List UInt8)
  /-- A read after the handshake stores bytes in the buffer. -/
  | downloaded (data : List UInt8)
  /-- A read of the handshake stores bytes in the buffer. -/
  | answered (data : List UInt8)
  /-- lwIP sends the stream bytes from an offset on to the local peer. -/
  | transmitted (offset : Nat) (data : List UInt8)
  | pbufFreed (p : Pbuf)
  | tcpClosed
  | tcpAborted
  | destroyed
  /-- An assertion fails or freed memory is used. -/
  | crashed
  deriving DecidableEq, Repr

/-- `remote_recv_buff_` -/
def RecvBuff : Type := { b : List UInt8 // b.length = tcpRecvBuffSize }

instance : DecidableEq RecvBuff := inferInstanceAs (DecidableEq { b : List UInt8 // b.length = tcpRecvBuffSize })

def RecvBuff.store (b : RecvBuff) (off : Nat) (data : List UInt8) : RecvBuff :=
  ⟨writeAt b.1 off data, by rw [length_writeAt, b.2]⟩

def RecvBuff.socks5Request (b : RecvBuff) (ip : List UInt8) (port : Nat) : RecvBuff :=
  ⟨constructSocks5RequestFromIpStringAndPort b.1 0 (ip4addrNtoa ip) port, by
    rw [length_constructSocks5RequestFromIpStringAndPort, b.2]⟩

/-- One accepted connection: the control block, the session made for it, its entry in
the session map and the operations pending on the remote socket, oldest first. -/
structure Conn where
  pcb : Pcb
  status : Status
  pbufQueue : List Pbuf
  remoteRecvBuff : RecvBuff
  shouldReadFromRemote : Bool
  remoteSending : Bool
  inMap : Bool
  start : Coroutine StartPoint
  writers : List (Coroutine WriterPoint)
  readers : List (Coroutine Unit)
  readQueue : List CoroId
  writeQueue : List CoroId
  destroyed : Bool
  halted : Bool
  deriving DecidableEq

abbrev Outcome := Conn × List TcpEvent

namespace StartPoint

/-- The bytes a write still has to send. -/
def offered (buff : RecvBuff) : StartPoint → Option (List UInt8)
  | methodWrite sent => some (defaultMethodRequest.drop sent)
  | requestWrite sent => some (slice buff.1 sent (10 - sent))
  | drainWrite front sent => some (front.payload.drop sent)
  | _ => none

/-- Where a read stores and how much it takes at most. -/
def window : StartPoint → Option (Nat × Nat)
  | methodRead => some (0, 2)
  | requestRead got => some (got, 10 - got)
  | downloadRead => some (0, tcpRecvBuffSize)
  | _ => none

def accepted (data : List UInt8) : StartPoint → TcpEvent
  | drainWrite .. => .uploaded data
  | _ => .greeted data

def received (data : List UInt8) : StartPoint → TcpEvent
  | downloadRead => .downloaded data
  | _ => .answered data

end StartPoint

def WriterPoint.offered (point : WriterPoint) : List UInt8 := point.payload.drop point.sent

namespace Conn

/-- The coroutine of `Start` begins to wait. A write of nothing completes at once. -/
def awaitStart (c : Conn) (point : StartPoint) : Conn :=
  { c with
    start := if point.offered c.remoteRecvBuff = some [] then .completed point (.ok 0) else .suspended point
    writeQueue := c.writeQueue ++ if (point.offered c.remoteRecvBuff).getD [] = [] then [] else [.start]
    readQueue := c.readQueue ++ if point.window = none then [] else [.start] }

def awaitWriter (c : Conn) (j : Nat) (point : WriterPoint) : Conn :=
  { c with
    writers := c.writers.set j (if point.offered = [] then .completed point (.ok 0) else .suspended point)
    writeQueue := c.writeQueue ++ if point.offered = [] then [] else [.writer j] }

def awaitReader (c : Conn) (j : Nat) : Conn :=
  { c with readers := c.readers.set j (.suspended ()), readQueue := c.readQueue ++ [.reader j] }

def crash (c : Conn) : Conn := { c with halted := true }

/-- A coroutine uses `original_pcb`, which may have been freed. A run is followed up to the first use of a freed
block: that another connection gets its memory is not part of the model. -/
def usePcb (c : Conn) (uses : List PcbUse) (rest : Outcome) : Outcome :=
  if c.pcb.freed then (c.crash, uses.map .used ++ [.crashed]) else (rest.1, uses.map .used ++ rest.2)

/-- Some step of `Start` returned false. -/
def endStart (c : Conn) : Conn := { c with status := .close, start := .finished }

/-- The head of the drain loop, with the first read of the download behind it. -/
def drainLoop (c : Conn) : Outcome :=
  match c.pbufQueue with
  | [] => (c.awaitStart .downloadRead, [])
  | front :: rest =>
    if front.len = front.totLen then ({ c with pbufQueue := rest }.awaitStart (.drainWrite front 0), [])
    else (c.crash, [.crashed])

/-- The head of the writer's loop. -/
def writerLoop (c : Conn) (j : Nat) : Conn :=
  match c.pbufQueue with
  | [] => { c with remoteSending := false, writers := c.writers.set j .finished }
  | front :: rest => { c with pbufQueue := rest }.awaitWriter j ⟨front, front.payload, front.next, 0⟩

/-- `*(int*)remote_recv_buff_ == 16777221` -/
def replyValid (c : Conn) : Bool := slice c.remoteRecvBuff.1 0 4 == [5, 0, 0, 1]

/-- `tcp_write`, whose result nobody looks at, and `tcp_output`. -/
def writeLocal (c : Conn) (n : Nat) (room : Room) : Conn :=
  match c.pcb.tcpWrite n room with
  | some pcb => { c with pcb }
  | none => c

def localUses (c : Conn) (n : Nat) (room : Room) : List PcbUse :=
  [.tcpWrite n (c.pcb.tcpWrite n room).isSome, .tcpOutput, .tcpSndbuf]

/-- The coroutine of `Start` goes on after its operation at `point` transferred `n` bytes. -/
def startResumes (c : Conn) (n : Nat) (room : Room) : StartPoint → Outcome
  | .connect => ({ c with status := .handshaking }.awaitStart (.methodWrite 0), [])
  | .methodWrite sent =>
    if sent + n < 3 then (c.awaitStart (.methodWrite (sent + n)), []) else (c.awaitStart .methodRead, [])
  | .methodRead =>
    c.usePcb [.localIp, .localPort]
      ({ c with remoteRecvBuff := c.remoteRecvBuff.socks5Request c.pcb.localIp c.pcb.localPort }.awaitStart
        (.requestWrite 0), [])
  | .requestWrite sent =>
    if sent + n < 10 then (c.awaitStart (.requestWrite (sent + n)), []) else (c.awaitStart (.requestRead 0), [])
  | .requestRead got =>
    if got + n < 10 then (c.awaitStart (.requestRead (got + n)), [])
    else if c.replyValid then
      -- the port goes to a log line only, so a freed block does not stop the coroutine here
      let r := { c with status := .relaying }.drainLoop
      (r.1, .used .localPort :: r.2)
    else (c.endStart, [.failed])
  | .drainWrite front sent =>
    if sent + n < front.len then (c.awaitStart (.drainWrite front (sent + n)), [])
    else if c.status = .close then (c.endStart, [.pbufFreed front])
    else
      let r := c.usePcb [.tcpRecved front.len] { c with pcb := c.pcb.tcpRecved front.len }.drainLoop
      (r.1, .pbufFreed front :: r.2)
  | .downloadRead =>
    if c.status = .close then (c.endStart, [])
    else c.usePcb (c.localUses n room)
      (if (c.writeLocal n room).pcb.sndBuf < readThreshold then
        ({ c.writeLocal n room with shouldReadFromRemote := false }.endStart, [])
      else ((c.writeLocal n room).awaitStart .downloadRead, []))

/-- A writer goes on after its operation transferred `n` bytes. -/
def writerResumes (c : Conn) (j n : Nat) (point : WriterPoint) : Outcome :=
  if point.sent + n < point.payload.length then (c.awaitWriter j { point with sent := point.sent + n }, [])
  else if c.status = .close then ({ c with writers := c.writers.set j .finished }, [])
  else c.usePcb [.tcpRecved point.payload.length]
    (let c := { c with pcb := c.pcb.tcpRecved point.payload.length }
    match point.next with
    | [] => (c.writerLoop j, [.pbufFreed point.front])
    | payload :: next => (c.awaitWriter j ⟨point.front, payload, next, 0⟩, []))

/-- A coroutine of `ReadFromRemote` goes on after a read of `n` bytes. -/
def readerResumes (c : Conn) (j n : Nat) (room : Room) : Outcome :=
  if c.status = .close then ({ c with readers := c.readers.set j .finished }, [])
  else c.usePcb (c.localUses n room)
    (if (c.writeLocal n room).pcb.sndBuf < readThreshold then
      ({ c.writeLocal n room with
        shouldReadFromRemote := false, readers := c.readers.set j .finished }, [])
    else ((c.writeLocal n room).awaitReader j, []))

/-- Run the handler queued for a coroutine. The readers return on an error and leave
the status as it is. -/
def resume (c : Conn) (room : Room) : CoroId → Option Outcome
  | .start =>
    match c.start with
    | .completed point (.ok n) => some (c.startResumes n room point)
    | .completed _ .error => some (c.endStart, [.failed])
    | _ => none
  | .writer j =>
    match c.writers[j]? with
    | some (.completed point (.ok n)) => some (c.writerResumes j n point)
    | some (.completed _ .error) =>
      some ({ c with status := .close, writers := c.writers.set j .finished }, [.failed])
    | _ => none
  | .reader j =>
    match c.readers[j]? with
    | some (.completed _ (.ok n)) => some (c.readerResumes j n room)
    | some (.completed _ .error) => some ({ c with readers := c.readers.set j .finished }, [.failed])
    | _ => none

end Conn
end Tunosocks.Tcp
