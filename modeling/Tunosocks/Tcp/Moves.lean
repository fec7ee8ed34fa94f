import Tunosocks.Tcp.Handler

/-! What one action of a connection can do, said once: the moves of the callbacks, of
the remote socket and of the coroutines, and the inversion of `step` into them. -/
namespace Tunosocks.Tcp
open Foundation Foundation.Buffer

/-- What lwIP does to the block on its own, or when a callback asks for it. -/
inductive LwipChange (seg : Segment) (pcb : Pcb) : List TcpEvent → Pcb → Prop where
  | processed (ok : pcb.accepts seg = true) : LwipChange seg pcb [] (pcb.tcpProcess seg)
  | finCounted : LwipChange seg pcb [] { pcb with rcvWnd := if pcb.rcvWnd = tcpWnd then tcpWnd else pcb.rcvWnd + 1 }
  | closed : LwipChange seg pcb [.tcpClosed] pcb.tcpClose
  | freed : LwipChange seg pcb [] { pcb with freed := true }
  | aborted : LwipChange seg pcb [.tcpAborted] { pcb with freed := true }

/-- The moves the callbacks for a segment are made of. -/
inductive Callback (seg : Segment) (c : Conn) : List TcpEvent → Conn → Prop where
  | lwip {evs : List TcpEvent} {pcb : Pcb} (change : LwipChange seg c.pcb evs pcb) :
      Callback seg c evs { c with pcb }
  | stoppedAgain (closed : c.status = .close) : Callback seg c [.stopped] c
  | stopped (opened : c.status ≠ .close) (alive : c.pcb.freed = false) :
      Callback seg c [.stopped] { c.cancel with status := .close, pcb := { c.pcb with callbackArg := false } }
  | stopDangles (opened : c.status ≠ .close) (freed : c.pcb.freed = true) :
      Callback seg c [.stopped, .crashed] c.crash
  | erased (found : c.inMap = true) (ended : c.status = .close ∨ c.halted = true) :
      Callback seg c [.cleared] { c with inMap := false }
  | queued {p : Pbuf} (carried : seg.data = some p) (simple : p.len = p.totLen) (found : c.inMap = true)
      (opened : c.status ≠ .close) (busy : c.status ≠ .relaying ∨ c.remoteSending = true) :
      Callback seg c [.proxied p] { c with pbufQueue := c.pbufQueue ++ [p] }
  | writerSpawned {p : Pbuf} (carried : seg.data = some p) (simple : p.len = p.totLen) (found : c.inMap = true)
      (relaying : c.status = .relaying) (idle : c.remoteSending = false) :
      Callback seg c [.proxied p]
        ({ c with
          pbufQueue := c.pbufQueue ++ [p], remoteSending := true
          writers := c.writers ++ [Coroutine.finished] }.writerLoop c.writers.length)
  | refused {p : Pbuf} (carried : seg.data = some p) : Callback seg c [.pbufFreed p] c
  | readerSpawned (parked : c.shouldReadFromRemote = false) (alive : c.destroyed = false)
      (readable : readThreshold < c.pcb.sndBuf) :
      Callback seg c [] ({ c with
        shouldReadFromRemote := true, readers := c.readers ++ [Coroutine.finished] }.awaitReader c.readers.length)
  | crashed : Callback seg c [.crashed] c.crash

/-- The moves of the remote socket, and lwIP's transmissions. -/
inductive SocketMove (c : Conn) : TcpAct → List TcpEvent → Conn → Prop where
  | connected (at_ : c.start = .suspended .connect) :
      SocketMove c .connected [] { c with start := .completed .connect (.ok 0) }
  | connectFailed (at_ : c.start = .suspended .connect) :
      SocketMove c .connectFailed [] { c with start := .completed .connect .error }
  | startAccepts {n : Nat} {point : StartPoint} {bytes : List UInt8} {rest : List CoroId}
      (oldest : c.writeQueue = .start :: rest) (at_ : c.start = .suspended point)
      (offers : point.offered c.remoteRecvBuff = some bytes) (pos : 0 < n) (le : n ≤ bytes.length) :
      SocketMove c (.accept n) [point.accepted (bytes.take n)]
        { c with writeQueue := rest, start := .completed point (.ok n) }
  | writerAccepts {n j : Nat} {point : WriterPoint} {rest : List CoroId}
      (oldest : c.writeQueue = .writer j :: rest) (at_ : c.writers[j]? = some (.suspended point))
      (pos : 0 < n) (le : n ≤ point.offered.length) :
      SocketMove c (.accept n) [.uploaded (point.offered.take n)]
        { c with writeQueue := rest, writers := c.writers.set j (.completed point (.ok n)) }
  | startWriteFails {point : StartPoint} {bytes : List UInt8} {rest : List CoroId}
      (oldest : c.writeQueue = .start :: rest) (at_ : c.start = .suspended point)
      (offers : point.offered c.remoteRecvBuff = some bytes) :
      SocketMove c .failWrite [] { c with writeQueue := rest, start := .completed point .error }
  | writerWriteFails {j : Nat} {point : WriterPoint} {rest : List CoroId}
      (oldest : c.writeQueue = .writer j :: rest) (at_ : c.writers[j]? = some (.suspended point)) :
      SocketMove c .failWrite [] { c with writeQueue := rest, writers := c.writers.set j (.completed point .error) }
  | startArrives {data : List UInt8} {point : StartPoint} {off size : Nat} {rest : List CoroId}
      (oldest : c.readQueue = .start :: rest) (at_ : c.start = .suspended point)
      (takes : point.window = some (off, size)) (some_ : data ≠ []) (le : data.length ≤ size) :
      SocketMove c (.arrive data) [point.received data]
        { c with
          readQueue := rest, remoteRecvBuff := c.remoteRecvBuff.store off data
          start := .completed point (.ok data.length) }
  | readerArrives {data : List UInt8} {j : Nat} {rest : List CoroId}
      (oldest : c.readQueue = .reader j :: rest) (at_ : c.readers[j]? = some (.suspended ()))
      (some_ : data ≠ []) (le : data.length ≤ tcpRecvBuffSize) :
      SocketMove c (.arrive data) [.downloaded data]
        { c with
          readQueue := rest, remoteRecvBuff := c.remoteRecvBuff.store 0 data
          readers := c.readers.set j (.completed () (.ok data.length)) }
  | startReadFails {point : StartPoint} {window : Nat × Nat} {rest : List CoroId}
      (oldest : c.readQueue = .start :: rest) (at_ : c.start = .suspended point)
      (takes : point.window = some window) :
      SocketMove c .failRead [] { c with readQueue := rest, start := .completed point .error }
  | readerReadFails {j : Nat} {rest : List CoroId}
      (oldest : c.readQueue = .reader j :: rest) (at_ : c.readers[j]? = some (.suspended ())) :
      SocketMove c .failRead [] { c with readQueue := rest, readers := c.readers.set j (.completed () .error) }
  | transmits {offset n : Nat} {memory : List UInt8} {stray : Bool} (alive : c.pcb.freed = false) (pos : 0 < n)
      (le : offset + n ≤ c.pcb.queued) (new : c.pcb.acked < offset + n) :
      SocketMove c (.transmit offset n memory stray)
        [.transmitted offset ((c.pcb.carried offset n stray).map fun i =>
          (if c.destroyed then memory else c.remoteRecvBuff.1).getD i 0)]
        { c with pcb := { c.pcb with sndNxt := max c.pcb.sndNxt (offset + n) } }

/-- The handshake goes on to the next operation without looking at anything. -/
inductive Greets : StartPoint → Nat → StartPoint → Prop where
  | methodWritesOn {sent n : Nat} (short : sent + n < 3) : Greets (.methodWrite sent) n (.methodWrite (sent + n))
  | methodWritten {sent n : Nat} (whole : 3 ≤ sent + n) : Greets (.methodWrite sent) n .methodRead
  | requestWritesOn {sent n : Nat} (short : sent + n < 10) : Greets (.requestWrite sent) n (.requestWrite (sent + n))
  | requestWritten {sent n : Nat} (whole : 10 ≤ sent + n) : Greets (.requestWrite sent) n (.requestRead 0)
  | replyReadsOn {got n : Nat} (short : got + n < 10) : Greets (.requestRead got) n (.requestRead (got + n))

/-- The events of a coroutine of `Start` that goes on to use the block. -/
inductive Touches (c : Conn) (room : Room) (n : Nat) : StartPoint → List TcpEvent → Prop where
  | request : Touches c room n .methodRead [.used .localIp, .used .localPort]
  | drain {front : Pbuf} {sent : Nat} (whole : front.len ≤ sent + n) (opened : c.status ≠ .close) :
      Touches c room n (.drainWrite front sent) [.pbufFreed front, .used (.tcpRecved front.len)]
  | download (opened : c.status ≠ .close) : Touches c room n .downloadRead ((c.localUses n room).map .used)

/-- What running the handler queued for a coroutine does. -/
inductive Resumes (c : Conn) (room : Room) : CoroId → List TcpEvent → Conn → Prop where
  | startFailed {point : StartPoint} (at_ : c.start = .completed point .error) :
      Resumes c room .start [.failed] c.endStart
  | connected {n : Nat} (at_ : c.start = .completed .connect (.ok n)) :
      Resumes c room .start [] ({ c with status := .handshaking }.awaitStart (.methodWrite 0))
  | greets {point point' : StartPoint} {n : Nat} (at_ : c.start = .completed point (.ok n))
      (next : Greets point n point') : Resumes c room .start [] (c.awaitStart point')
  | requests {n : Nat} (at_ : c.start = .completed .methodRead (.ok n)) (alive : c.pcb.freed = false) :
      Resumes c room .start [.used .localIp, .used .localPort]
        ({ c with remoteRecvBuff := c.remoteRecvBuff.socks5Request c.pcb.localIp c.pcb.localPort }.awaitStart
          (.requestWrite 0))
  | rejected {got n : Nat} (at_ : c.start = .completed (.requestRead got) (.ok n)) (whole : 10 ≤ got + n)
      (invalid : c.replyValid = false) : Resumes c room .start [.failed] c.endStart
  | relays {got n : Nat} (at_ : c.start = .completed (.requestRead got) (.ok n)) (whole : 10 ≤ got + n)
      (valid : c.replyValid = true) :
      Resumes c room .start (.used .localPort :: ({ c with status := .relaying }.drainLoop).2)
        ({ c with status := .relaying }.drainLoop).1
  | drainWritesOn {front : Pbuf} {sent n : Nat} (at_ : c.start = .completed (.drainWrite front sent) (.ok n))
      (short : sent + n < front.len) : Resumes c room .start [] (c.awaitStart (.drainWrite front (sent + n)))
  | drainEnds {front : Pbuf} {sent n : Nat} (at_ : c.start = .completed (.drainWrite front sent) (.ok n))
      (whole : front.len ≤ sent + n) (closed : c.status = .close) :
      Resumes c room .start [.pbufFreed front] c.endStart
  | drains {front : Pbuf} {sent n : Nat} (at_ : c.start = .completed (.drainWrite front sent) (.ok n))
      (whole : front.len ≤ sent + n) (opened : c.status ≠ .close) (alive : c.pcb.freed = false) :
      Resumes c room .start ([.pbufFreed front, .used (.tcpRecved front.len)] ++
          ({ c with pcb := c.pcb.tcpRecved front.len }.drainLoop).2)
        ({ c with pcb := c.pcb.tcpRecved front.len }.drainLoop).1
  | downloadEnds {n : Nat} (at_ : c.start = .completed .downloadRead (.ok n)) (closed : c.status = .close) :
      Resumes c room .start [] c.endStart
  | parks {n : Nat} (at_ : c.start = .completed .downloadRead (.ok n)) (opened : c.status ≠ .close)
      (alive : c.pcb.freed = false) (low : (c.writeLocal n room).pcb.sndBuf < readThreshold) :
      Resumes c room .start ((c.localUses n room).map .used)
        { c.writeLocal n room with shouldReadFromRemote := false }.endStart
  | downloads {n : Nat} (at_ : c.start = .completed .downloadRead (.ok n)) (opened : c.status ≠ .close)
      (alive : c.pcb.freed = false) (high : readThreshold ≤ (c.writeLocal n room).pcb.sndBuf) :
      Resumes c room .start ((c.localUses n room).map .used) ((c.writeLocal n room).awaitStart .downloadRead)
  | startDangles {point : StartPoint} {n : Nat} {evs : List TcpEvent} (at_ : c.start = .completed point (.ok n))
      (touches : Touches c room n point evs) (freed : c.pcb.freed = true) :
      Resumes c room .start (evs ++ [.crashed]) c.crash
  | writerFailed {j : Nat} {point : WriterPoint} (at_ : c.writers[j]? = some (.completed point .error)) :
      Resumes c room (.writer j) [.failed] { c with status := .close, writers := c.writers.set j .finished }
  | writerWritesOn {j n : Nat} {point : WriterPoint} (at_ : c.writers[j]? = some (.completed point (.ok n)))
      (short : point.sent + n < point.payload.length) :
      Resumes c room (.writer j) [] (c.awaitWriter j { point with sent := point.sent + n })
  | writerEnds {j n : Nat} {point : WriterPoint} (at_ : c.writers[j]? = some (.completed point (.ok n)))
      (whole : point.payload.length ≤ point.sent + n) (closed : c.status = .close) :
      Resumes c room (.writer j) [] { c with writers := c.writers.set j .finished }
  | writerFollows {j n : Nat} {point : WriterPoint} {payload : List UInt8} {next : List (List UInt8)}
      (at_ : c.writers[j]? = some (.completed point (.ok n))) (whole : point.payload.length ≤ point.sent + n)
      (opened : c.status ≠ .close) (alive : c.pcb.freed = false) (chained : point.next = payload :: next) :
      Resumes c room (.writer j) [.used (.tcpRecved point.payload.length)]
        ({ c with pcb := c.pcb.tcpRecved point.payload.length }.awaitWriter j ⟨point.front, payload, next, 0⟩)
  | writerPops {j n : Nat} {point : WriterPoint} (at_ : c.writers[j]? = some (.completed point (.ok n)))
      (whole : point.payload.length ≤ point.sent + n) (opened : c.status ≠ .close) (alive : c.pcb.freed = false)
      (last : point.next = []) :
      Resumes c room (.writer j) [.used (.tcpRecved point.payload.length), .pbufFreed point.front]
        ({ c with pcb := c.pcb.tcpRecved point.payload.length }.writerLoop j)
  | writerDangles {j n : Nat} {point : WriterPoint} (at_ : c.writers[j]? = some (.completed point (.ok n)))
      (whole : point.payload.length ≤ point.sent + n) (opened : c.status ≠ .close) (freed : c.pcb.freed = true) :
      Resumes c room (.writer j) [.used (.tcpRecved point.payload.length), .crashed] c.crash
  | readerFailed {j : Nat} (at_ : c.readers[j]? = some (.completed () .error)) :
      Resumes c room (.reader j) [.failed] { c with readers := c.readers.set j .finished }
  | readerEnds {j n : Nat} (at_ : c.readers[j]? = some (.completed () (.ok n))) (closed : c.status = .close) :
      Resumes c room (.reader j) [] { c with readers := c.readers.set j .finished }
  | readerParks {j n : Nat} (at_ : c.readers[j]? = some (.completed () (.ok n))) (opened : c.status ≠ .close)
      (alive : c.pcb.freed = false) (low : (c.writeLocal n room).pcb.sndBuf < readThreshold) :
      Resumes c room (.reader j) ((c.localUses n room).map .used)
        { c.writeLocal n room with shouldReadFromRemote := false, readers := c.readers.set j .finished }
  | readerReads {j n : Nat} (at_ : c.readers[j]? = some (.completed () (.ok n))) (opened : c.status ≠ .close)
      (alive : c.pcb.freed = false) (high : readThreshold ≤ (c.writeLocal n room).pcb.sndBuf) :
      Resumes c room (.reader j) ((c.localUses n room).map .used) ((c.writeLocal n room).awaitReader j)
  | readerDangles {j n : Nat} (at_ : c.readers[j]? = some (.completed () (.ok n))) (opened : c.status ≠ .close)
      (freed : c.pcb.freed = true) :
      Resumes c room (.reader j) ((c.localUses n room).map .used ++ [.crashed]) c.crash

/-- A segment that carries nothing. -/
def Segment.empty : Segment := ⟨0, false, none, false⟩

/-- What one action does before the session is possibly destroyed. -/
inductive TcpStep (c : Conn) : TcpAct → List TcpEvent → Conn → Prop where
  | input {seg : Segment} {evs : List TcpEvent} {c' : Conn} (chain : Chain (Callback seg) c evs c') :
      TcpStep c (.input seg) evs c'
  | reset {evs : List TcpEvent} {c' : Conn} (chain : Chain (Callback .empty) c evs c') : TcpStep c .reset evs c'
  | socket {a : TcpAct} {evs : List TcpEvent} {c' : Conn} (move : SocketMove c a evs c') : TcpStep c a evs c'
  | resumed {id : CoroId} {room : Room} {evs : List TcpEvent} {c' : Conn} (move : Resumes c room id evs c') :
      TcpStep c (.resume id room) evs c'

/-! ### The callbacks -/

section Callbacks
variable {seg : Segment} {c : Conn}

/-- The outcome of a callback is reached by moves. -/
def ByMoves (seg : Segment) (c : Conn) (r : Outcome) : Prop := Chain (Callback seg) c r.2 r.1

private theorem byMoves_andThen {r : Outcome} {f : Conn → Outcome} (first : ByMoves seg c r)
    (second : ByMoves seg r.1 (f r.1)) : ByMoves seg c (andThen r f) := first.trans second

private theorem byMoves_whileAlive {r : Outcome} {f : Conn → Outcome} (first : ByMoves seg c r)
    (second : ByMoves seg r.1 (f r.1)) : ByMoves seg c (whileAlive r f) := by
  unfold whileAlive
  split
  · exact first
  · exact byMoves_andThen first second

private theorem byMoves_lwip {evs : List TcpEvent} {pcb : Pcb} (change : LwipChange seg c.pcb evs pcb) :
    ByMoves seg c ({ c with pcb }, evs) := .single (.lwip change)

private theorem byMoves_crash : ByMoves seg c (c.crash, [.crashed]) := .single .crashed

private theorem byMoves_stop : ByMoves seg c c.stop := by
  unfold Conn.stop
  split
  · next closed => exact .single (.stoppedAgain closed)
  · next opened =>
    split
    · next freed => exact .single (.stopDangles opened freed)
    · next alive => exact .single (.stopped opened (by simpa using alive))

private theorem over_stop : c.stop.1.status = .close ∨ c.stop.1.halted = true := by
  unfold Conn.stop
  split
  · next closed => exact Or.inl closed
  · split
    · exact Or.inr rfl
    · exact Or.inl rfl

private theorem inMap_stop : c.stop.1.inMap = c.inMap := by
  unfold Conn.stop
  split
  · rfl
  · split <;> rfl

theorem byMoves_clear : ByMoves seg c c.clear := by
  unfold Conn.clear
  split
  · next found =>
    exact byMoves_andThen byMoves_stop (.single (.erased (inMap_stop.trans found) over_stop))
  · exact .nil

theorem byMoves_tcpClose : ByMoves seg c c.tcpClose := byMoves_lwip .closed

private theorem byMoves_handle {p : Pbuf} (carried : seg.data = some p) (simple : p.len = p.totLen) :
    ByMoves seg c (c.handle p).1 := by
  unfold Conn.handle
  split
  · next found =>
    split
    · exact .single (.refused carried)
    · next opened =>
      simp only [Conn.proxyTcpPacket]
      split
      · next spawns => exact .single (.writerSpawned carried simple found spawns.1 spawns.2)
      · next busy =>
        refine .single (.queued carried simple found opened ?_)
        simpa only [not_and_or, Bool.not_eq_false] using busy
  · exact byMoves_crash

private theorem byMoves_tcpRecvFunc {data : Option Pbuf} (carried : ∀ p, data = some p → seg.data = some p) :
    ByMoves seg c (c.tcpRecvFunc data) := by
  cases data with
  | none =>
    simp only [Conn.tcpRecvFunc]
    split
    · exact byMoves_andThen byMoves_tcpClose byMoves_clear
    · exact byMoves_crash
  | some p =>
    simp only [Conn.tcpRecvFunc]
    split
    · next simple =>
      have handled : ByMoves seg c (c.handle p).1 := byMoves_handle (carried p rfl) simple
      split
      · exact handled
      · exact byMoves_andThen (byMoves_andThen handled byMoves_clear) byMoves_tcpClose
    · exact byMoves_crash

private theorem byMoves_tcpErrFunc : ByMoves seg c c.tcpErrFunc := by
  unfold Conn.tcpErrFunc
  split
  · split
    · exact byMoves_crash
    · exact byMoves_clear
  · exact .nil

private theorem byMoves_tcpAbort : ByMoves seg c c.tcpAbort := by
  unfold Conn.tcpAbort
  split
  · exact byMoves_lwip .aborted
  · exact byMoves_andThen (byMoves_lwip .aborted) byMoves_tcpErrFunc

theorem byMoves_tcpSentFunc : ByMoves seg c c.tcpSentFunc := by
  unfold Conn.tcpSentFunc
  split
  · split
    · exact byMoves_crash
    · next alive =>
      simp only [Conn.readFromRemote, Conn.isRemoteReadable, decide_eq_true_eq]
      split
      · next readable =>
        split
        · exact .nil
        · next parked => exact .single (.readerSpawned (by simpa using parked) (by simpa using alive) readable)
      · exact .nil
  · exact byMoves_tcpAbort

theorem byMoves_delayedClose : ByMoves seg c c.delayedClose := by
  unfold Conn.delayedClose
  split
  · split
    · exact byMoves_andThen .nil (byMoves_lwip .freed)
    · exact byMoves_andThen byMoves_tcpErrFunc (byMoves_lwip .freed)
  · exact .nil

theorem byMoves_deliver : ByMoves seg c (c.deliver seg.data) := by
  cases carried : seg.data with
  | none => exact .nil
  | some p =>
    simp only [Conn.deliver]
    split
    · exact byMoves_andThen (.single (.refused carried)) byMoves_tcpAbort
    · exact byMoves_tcpRecvFunc fun q hq => hq ▸ carried

theorem byMoves_deliverFin : ByMoves seg c (c.deliverFin seg.fin) := by
  unfold Conn.deliverFin
  split
  · exact Chain.trans (byMoves_lwip .finCounted) (byMoves_tcpRecvFunc fun _ hq => nomatch hq)
  · exact .nil

private theorem byMoves_tcpInput (ok : c.pcb.accepts seg = true) : ByMoves seg c (c.tcpInput seg) := by
  unfold Conn.tcpInput
  refine byMoves_whileAlive (byMoves_whileAlive (byMoves_whileAlive (byMoves_whileAlive ?_
    byMoves_delayedClose) byMoves_deliver) byMoves_deliverFin) byMoves_delayedClose
  unfold Conn.afterSent
  split
  · exact byMoves_andThen (byMoves_lwip (.processed ok)) byMoves_tcpSentFunc
  · exact byMoves_lwip (.processed ok)

theorem byMoves_tcpReset : ByMoves seg c c.tcpReset :=
  byMoves_andThen byMoves_tcpErrFunc (byMoves_lwip .freed)

end Callbacks

/-! ### The remote socket -/

section Socket
variable {c c' : Conn} {evs : List TcpEvent}

private theorem socketMove_accept {n : Nat} (h : c.accept n = some (c', evs)) : SocketMove c (.accept n) evs c' := by
  unfold Conn.accept at h
  split at h
  · next rest oldest =>
    split at h
    · next point at_ =>
      obtain ⟨bytes, offers, h⟩ := Option.bind_eq_some_iff.mp h
      obtain ⟨⟨pos, le⟩, h⟩ := Option.ite_none_right_eq_some.mp h
      cases h
      exact .startAccepts oldest at_ offers pos le
    · cases h
  · next j rest oldest =>
    split at h
    · next point at_ =>
      obtain ⟨⟨pos, le⟩, h⟩ := Option.ite_none_right_eq_some.mp h
      cases h
      exact .writerAccepts oldest at_ pos le
    · cases h
  · cases h

private theorem socketMove_failWrite (h : c.failWrite = some (c', evs)) : SocketMove c .failWrite evs c' := by
  unfold Conn.failWrite at h
  split at h
  · next rest oldest =>
    split at h
    · next point at_ =>
      obtain ⟨bytes, offers, h⟩ := Option.map_eq_some_iff.mp h
      cases h
      exact .startWriteFails oldest at_ offers
    · cases h
  · next j rest oldest =>
    split at h
    · next point at_ =>
      cases h
      exact .writerWriteFails oldest at_
    · cases h
  · cases h

private theorem socketMove_arrive {data : List UInt8} (h : c.arrive data = some (c', evs)) :
    SocketMove c (.arrive data) evs c' := by
  unfold Conn.arrive at h
  split at h
  · next rest oldest =>
    split at h
    · next point at_ =>
      obtain ⟨⟨off, size⟩, takes, h⟩ := Option.bind_eq_some_iff.mp h
      obtain ⟨⟨some_, le⟩, h⟩ := Option.ite_none_right_eq_some.mp h
      cases h
      exact .startArrives oldest at_ takes some_ le
    · cases h
  · next j rest oldest =>
    split at h
    · next point at_ =>
      obtain ⟨⟨some_, le⟩, h⟩ := Option.ite_none_right_eq_some.mp h
      cases h
      exact .readerArrives oldest at_ some_ le
    · cases h
  · cases h

private theorem socketMove_failRead (h : c.failRead = some (c', evs)) : SocketMove c .failRead evs c' := by
  unfold Conn.failRead at h
  split at h
  · next rest oldest =>
    split at h
    · next point at_ =>
      obtain ⟨window, takes, h⟩ := Option.map_eq_some_iff.mp h
      cases h
      exact .startReadFails oldest at_ takes
    · cases h
  · next j rest oldest =>
    split at h
    · next point at_ =>
      cases h
      exact .readerReadFails oldest at_
    · cases h
  · cases h

private theorem at_connect {r : Completion} (h : c.connectEnds r = some (c', evs)) :
    c.start = .suspended .connect ∧ c' = { c with start := .completed .connect r } ∧ evs = [] := by
  unfold Conn.connectEnds at h
  split at h
  · next at_ =>
    cases h
    exact ⟨at_, rfl, rfl⟩
  · cases h

private theorem socketMove_transmit {offset n : Nat} {memory : List UInt8} {stray : Bool}
    (h : c.transmit offset n memory stray = some (c', evs)) :
    SocketMove c (.transmit offset n memory stray) evs c' := by
  unfold Conn.transmit at h
  obtain ⟨⟨alive, _, pos, _, le, new⟩, h⟩ := Option.ite_none_right_eq_some.mp h
  cases h
  exact .transmits alive pos le new

end Socket

/-! ### The coroutines -/

section Coroutines
variable {c : Conn} {room : Room}

private theorem usePcb_alive {uses : List PcbUse} {rest : Outcome} (alive : c.pcb.freed = false) :
    c.usePcb uses rest = (rest.1, uses.map .used ++ rest.2) := by
  rw [Conn.usePcb, if_neg (by simp [alive])]

private theorem usePcb_freed {uses : List PcbUse} {rest : Outcome} (freed : c.pcb.freed = true) :
    c.usePcb uses rest = (c.crash, uses.map .used ++ [.crashed]) := by
  rw [Conn.usePcb, if_pos freed]

private theorem resumes_download {n : Nat} (at_ : c.start = .completed .downloadRead (.ok n)) :
    Resumes c room .start (c.startResumes n room .downloadRead).2 (c.startResumes n room .downloadRead).1 := by
  simp only [Conn.startResumes]
  split
  · next closed => exact .downloadEnds at_ closed
  · next opened =>
    cases freed : c.pcb.freed with
    | true =>
      rw [usePcb_freed freed]
      exact .startDangles at_ (.download opened) freed
    | false =>
      rw [usePcb_alive freed]
      split
      · next low => simpa using Resumes.parks at_ opened freed low
      · next high => simpa using Resumes.downloads at_ opened freed (Nat.le_of_not_lt high)

private theorem resumes_drain {front : Pbuf} {sent n : Nat}
    (at_ : c.start = .completed (.drainWrite front sent) (.ok n)) :
    Resumes c room .start (c.startResumes n room (.drainWrite front sent)).2
      (c.startResumes n room (.drainWrite front sent)).1 := by
  simp only [Conn.startResumes]
  split
  · next short => exact .drainWritesOn at_ short
  · next whole =>
    split
    · next closed => exact .drainEnds at_ (Nat.le_of_not_lt whole) closed
    · next opened =>
      cases freed : c.pcb.freed with
      | true =>
        rw [usePcb_freed freed]
        exact .startDangles at_ (.drain (Nat.le_of_not_lt whole) opened) freed
      | false =>
        rw [usePcb_alive freed]
        exact .drains at_ (Nat.le_of_not_lt whole) opened freed

private theorem resumes_reply {got n : Nat} (at_ : c.start = .completed (.requestRead got) (.ok n)) :
    Resumes c room .start (c.startResumes n room (.requestRead got)).2
      (c.startResumes n room (.requestRead got)).1 := by
  simp only [Conn.startResumes]
  split
  · next short => exact .greets at_ (.replyReadsOn short)
  · next whole =>
    split
    · next valid => exact .relays at_ (Nat.le_of_not_lt whole) valid
    · next invalid => exact .rejected at_ (Nat.le_of_not_lt whole) (by simpa using invalid)

private theorem resumes_start {point : StartPoint} {n : Nat} (at_ : c.start = .completed point (.ok n)) :
    Resumes c room .start (c.startResumes n room point).2 (c.startResumes n room point).1 := by
  cases point with
  | connect => exact .connected at_
  | methodWrite sent =>
    simp only [Conn.startResumes]
    split
    · next short => exact .greets at_ (.methodWritesOn short)
    · next whole => exact .greets at_ (.methodWritten (Nat.le_of_not_lt whole))
  | methodRead =>
    simp only [Conn.startResumes]
    cases freed : c.pcb.freed with
    | true =>
      rw [usePcb_freed freed]
      exact .startDangles at_ .request freed
    | false =>
      rw [usePcb_alive freed]
      exact .requests at_ freed
  | requestWrite sent =>
    simp only [Conn.startResumes]
    split
    · next short => exact .greets at_ (.requestWritesOn short)
    · next whole => exact .greets at_ (.requestWritten (Nat.le_of_not_lt whole))
  | requestRead got => exact resumes_reply at_
  | drainWrite front sent => exact resumes_drain at_
  | downloadRead => exact resumes_download at_

private theorem resumes_writer {j n : Nat} {point : WriterPoint}
    (at_ : c.writers[j]? = some (.completed point (.ok n))) :
    Resumes c room (.writer j) (c.writerResumes j n point).2 (c.writerResumes j n point).1 := by
  simp only [Conn.writerResumes]
  split
  · next short => exact .writerWritesOn at_ short
  · next whole =>
    split
    · next closed => exact .writerEnds at_ (Nat.le_of_not_lt whole) closed
    · next opened =>
      cases freed : c.pcb.freed with
      | true =>
        rw [usePcb_freed freed]
        exact .writerDangles at_ (Nat.le_of_not_lt whole) opened freed
      | false =>
        rw [usePcb_alive freed]
        split
        · next last => exact .writerPops at_ (Nat.le_of_not_lt whole) opened freed last
        · next chained => exact .writerFollows at_ (Nat.le_of_not_lt whole) opened freed chained

private theorem resumes_reader {j n : Nat} (at_ : c.readers[j]? = some (.completed () (.ok n))) :
    Resumes c room (.reader j) (c.readerResumes j n room).2 (c.readerResumes j n room).1 := by
  simp only [Conn.readerResumes]
  split
  · next closed => exact .readerEnds at_ closed
  · next opened =>
    cases freed : c.pcb.freed with
    | true =>
      rw [usePcb_freed freed]
      exact .readerDangles at_ opened freed
    | false =>
      rw [usePcb_alive freed]
      split
      · next low => simpa using Resumes.readerParks at_ opened freed low
      · next high => simpa using Resumes.readerReads at_ opened freed (Nat.le_of_not_lt high)

private theorem resumes_of_resume {id : CoroId} {evs : List TcpEvent} {c' : Conn}
    (h : c.resume room id = some (c', evs)) : Resumes c room id evs c' := by
  cases id with
  | start =>
    simp only [Conn.resume] at h
    split at h
    · next point n at_ =>
      have moved : Resumes c room .start _ _ := resumes_start at_
      rwa [Option.some.inj h] at moved
    · next point at_ =>
      cases h
      exact .startFailed at_
    · cases h
  | writer j =>
    simp only [Conn.resume] at h
    split at h
    · next point n at_ =>
      have moved : Resumes c room (.writer j) _ _ := resumes_writer at_
      rwa [Option.some.inj h] at moved
    · next point at_ =>
      cases h
      exact .writerFailed at_
    · cases h
  | reader j =>
    simp only [Conn.resume] at h
    split at h
    · next n at_ =>
      have moved : Resumes c room (.reader j) _ _ := resumes_reader at_
      rwa [Option.some.inj h] at moved
    · next at_ =>
      cases h
      exact .readerFailed at_
    · cases h

end Coroutines

theorem tcpStep_of_act {c c' : Conn} {a : TcpAct} {evs : List TcpEvent} (h : c.act a = some (c', evs)) :
    TcpStep c a evs c' := by
  cases a with
  | input seg =>
    obtain ⟨ok, h⟩ := Option.ite_none_right_eq_some.mp h
    have moved : ByMoves seg c _ := byMoves_tcpInput ok
    rw [Option.some.inj h] at moved
    exact .input moved
  | reset =>
    obtain ⟨_, h⟩ := Option.ite_none_left_eq_some.mp h
    have moved : ByMoves .empty c _ := byMoves_tcpReset
    rw [Option.some.inj h] at moved
    exact .reset moved
  | transmit offset n memory stray => exact .socket (socketMove_transmit h)
  | connected =>
    obtain ⟨at_, rfl, rfl⟩ := at_connect h
    exact .socket (.connected at_)
  | connectFailed =>
    obtain ⟨at_, rfl, rfl⟩ := at_connect h
    exact .socket (.connectFailed at_)
  | accept n => exact .socket (socketMove_accept h)
  | failWrite => exact .socket (socketMove_failWrite h)
  | arrive data => exact .socket (socketMove_arrive h)
  | failRead => exact .socket (socketMove_failRead h)
  | resume id room => exact .resumed (resumes_of_resume h)

/-- Inversion: a step of a connection is one of the moves above, and then the session
is destroyed if nothing holds it. -/
theorem tcpStep_of_step {c c' : Conn} {a : TcpAct} {out : List TcpEvent} (h : connMachine.step c a = some (c', out)) :
    c.halted = false ∧ ∃ mid evs, TcpStep c a evs mid ∧ c' = mid.reap.1 ∧ out = evs ++ mid.reap.2 := by
  obtain ⟨live, h⟩ := Option.ite_none_left_eq_some.mp h
  obtain ⟨⟨mid, evs⟩, acted, h⟩ := Option.map_eq_some_iff.mp h
  cases h
  exact ⟨by simpa using live, mid, evs, tcpStep_of_act acted, rfl, rfl⟩

/-- A segment is nothing but callbacks. -/
theorem input_chain {c c' : Conn} {seg : Segment} {out : List TcpEvent}
    (h : connMachine.step c (.input seg) = some (c', out)) :
    ∃ mid evs, Chain (Callback seg) c evs mid ∧ c' = mid.reap.1 ∧ out = evs ++ mid.reap.2 := by
  obtain ⟨_, mid, evs, step, eq⟩ := tcpStep_of_step h
  cases step with
  | input chain => exact ⟨mid, evs, chain, eq⟩
  | socket move => cases move

/-- What a step is that runs the handler of a successful operation of `Start`. -/
theorem step_start {c c' : Conn} {room : Room} {point : StartPoint} {n : Nat} {out : List TcpEvent}
    (h : connMachine.step c (.resume .start room) = some (c', out)) (at_ : c.start = .completed point (.ok n)) :
    c' = (c.startResumes n room point).1.reap.1 ∧
      out = (c.startResumes n room point).2 ++ (c.startResumes n room point).1.reap.2 := by
  obtain ⟨_, h⟩ := Option.ite_none_left_eq_some.mp h
  simp only [Conn.act, Conn.resume, at_, Option.map_some, Option.some.injEq] at h
  exact ⟨congrArg Prod.fst h.symm, congrArg Prod.snd h.symm⟩

end Tunosocks.Tcp
