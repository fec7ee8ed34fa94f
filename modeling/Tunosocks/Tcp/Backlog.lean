import Tunosocks.Tcp.Detach
import Tunosocks.Tcp.Mapped
import Tunosocks.Tcp.Upload

/-! The queue of local packets: while a session relays it has a coroutine that will pop it,
and the receive window bounds it. -/
namespace Tunosocks.Tcp
open Foundation Coroutine

/-- A queue that is not empty has a drain loop or a writer. -/
def Attended (c : Conn) : Prop := c.status = .relaying → c.pbufQueue ≠ [] → c.Draining ∨ c.remoteSending = true

section Moves
variable {c c' : Conn} {evs : List TcpEvent}

private theorem Attended.congr (attended : Attended c) (status : c'.status = c.status ∨ c'.status = .close)
    (queue : c'.pbufQueue = c.pbufQueue) (start : c'.start.point? = c.start.point?)
    (sending : c'.remoteSending = c.remoteSending) : Attended c' := by
  intro relaying waiting
  rw [queue] at waiting
  rw [Conn.Draining, start, sending]
  rcases status with same | closed
  · exact attended (same ▸ relaying) waiting
  · cases closed.symm.trans relaying

private theorem Attended.of_closed (closed : c.status = .close) : Attended c :=
  fun relaying _ => nomatch closed.symm.trans relaying

private theorem Attended.of_greeting (shape : Shape c) {p : StartPoint} (at_ : c.start.point? = some p)
    (greets : p.greets = true) (status : c'.status = c.status) : Attended c' :=
  fun relaying _ => absurd (status ▸ relaying) (shape.greeting ⟨p, at_, greets⟩).2.2

/-- The drain loop leaves only when the queue is empty. -/
private theorem attended_drainLoop (c : Conn) (simple : ∀ p ∈ c.pbufQueue, p.len = p.totLen) :
    Attended c.drainLoop.1 := by
  rcases c.drainLoop_cases with ⟨empty, loop⟩ | ⟨front, rest, popped, ⟨_, loop⟩ | ⟨chained, _⟩⟩
  · rw [loop]
    exact fun _ waiting => absurd empty waiting
  · rw [loop]
    exact fun _ _ => Or.inl ⟨front, 0, Conn.point?_awaitStart _ _⟩
  · exact absurd (simple front (popped ▸ List.mem_cons_self)) chained

/-- So does the writer. -/
private theorem attended_writerLoop {j : Nat} (attended : Attended c) : Attended (c.writerLoop j) := by
  rcases c.writerLoop_cases j with ⟨empty, loop⟩ | ⟨front, rest, popped, loop⟩
  · rw [loop]
    exact fun _ waiting => absurd empty waiting
  · rw [loop]
    exact fun relaying _ => attended relaying (popped ▸ List.cons_ne_nil _ _)

private theorem Callback.attended {seg : Segment} (move : Callback seg c evs c') (attended : Attended c) :
    Attended c' := by
  cases move with
  | stopped => exact .of_closed rfl
  | queued _ _ _ _ busy =>
    intro relaying _
    exact busy.elim (fun other => absurd relaying other) Or.inr
  | writerSpawned => exact attended_writerLoop fun _ _ => Or.inr rfl
  | lwip | stoppedAgain | stopDangles | erased | refused | readerSpawned | crashed =>
    exact attended.congr (Or.inl rfl) rfl rfl rfl

private theorem SocketMove.attended {a : TcpAct} (move : SocketMove c a evs c') (attended : Attended c) :
    Attended c' := by
  cases move with
  | connected at_ | connectFailed at_ | startAccepts _ at_ | startWriteFails _ at_ | startArrives _ at_
  | startReadFails _ at_ => exact attended.congr (Or.inl rfl) rfl (by rw [at_]; rfl) rfl
  | writerAccepts | writerWriteFails | readerArrives | readerReadFails | transmits =>
    exact attended.congr (Or.inl rfl) rfl rfl rfl

private theorem Resumes.attended {room : Room} {id : CoroId} (move : Resumes c room id evs c') (shape : Shape c)
    (attended : Attended c) : Attended c' := by
  -- past the drain loop, the queue is the writer's
  have downloading {n : Nat} (at_ : c.start = .completed .downloadRead (.ok n)) (pcb : Pcb) :
      Attended ({ c with pcb }.awaitStart .downloadRead) := by
    intro relaying waiting
    rcases attended relaying waiting with ⟨_, _, drains⟩ | sending
    · rw [at_] at drains
      cases drains
    · exact Or.inr sending
  cases move with
  | startFailed | rejected | drainEnds | downloadEnds | parks | writerFailed => exact .of_closed rfl
  | connected => exact fun relaying => nomatch relaying
  | greets at_ next => exact .of_greeting shape (point?_of_completed at_) next.greets.1 rfl
  | requests at_ => exact .of_greeting shape (point?_of_completed at_) rfl rfl
  | relays | drains => exact attended_drainLoop _ shape.simple
  | drainWritesOn => exact fun _ _ => Or.inl ⟨_, _, Conn.point?_awaitStart _ _⟩
  | @downloads n at_ =>
    obtain ⟨pcb, eq, _⟩ := c.writeLocal_eq n room
    rw [eq]
    exact downloading at_ pcb
  | writerPops => exact attended_writerLoop attended
  | @readerParks j n | @readerReads j n =>
    obtain ⟨pcb, eq, _⟩ := c.writeLocal_eq n room
    rw [eq]
    exact attended.congr (Or.inl rfl) rfl rfl rfl
  | startDangles | writerWritesOn | writerEnds | writerFollows | writerDangles | readerFailed | readerEnds
  | readerDangles => exact attended.congr (Or.inl rfl) rfl rfl rfl

end Moves

private theorem attended_reap {c : Conn} (attended : Attended c) : Attended c.reap.1 := by
  unfold Conn.reap
  split
  · exact fun _ waiting => absurd rfl waiting
  · exact attended

/-- In every run, while a session relays and its queue is not empty, the drain loop has not
been left or there is a writer. -/
theorem no_stranded_upload {ts : List (Transition Conn TcpAct TcpEvent)} {c : Conn} (run : connMachine.Run ts c)
    (relaying : c.status = .relaying) (waiting : c.pbufQueue ≠ []) :
    c.Draining ∨ c.remoteSending = true ∧ ∃ (j : Nat) (point : WriterPoint), c.writing[j]? = some (some point) := by
  have attended : Attended c := by
    refine invariant_of_moves run Attended ?_ (fun move _ => move.attended) (fun move _ => move.attended)
      (fun move shape => move.attended shape) (fun _ => attended_reap)
    rintro c ⟨_, _, _, _, _, _, rfl⟩
    exact fun _ waiting => absurd rfl waiting
  rcases attended relaying waiting with drains | sending
  · exact Or.inl drains
  · have alive : ¬ AllGone c.writing := (shape_run run).sending sending (by simp [relaying])
    simp only [AllGone, not_forall, not_not] at alive
    exact Or.inr ⟨sending, alive⟩

/-- Two packets arrive before the server is connected. -/
theorem no_stranded_upload_early : ∃ ts c, connMachine.Run ts c ∧ c.status = .relaying ∧ c.pbufQueue ≠ [] ∧
    (c.Draining ∨
      c.remoteSending = true ∧ ∃ (j : Nat) (point : WriterPoint), c.writing[j]? = some (some point)) := by
  obtain ⟨ts, c, run, h⟩ := Machine.Run.exists_of_exec connMachine webConn
    ([.input ⟨0, false, some ⟨[1], []⟩, false⟩, .input ⟨0, false, some ⟨[2], []⟩, false⟩] ++ greeting)
    (fun _ c => c.status == .relaying && decide (c.pbufQueue ≠ [])) webConn_init (by decide +kernel)
  obtain ⟨relaying, waiting⟩ : c.status = .relaying ∧ c.pbufQueue ≠ [] := by simpa using h
  exact ⟨ts, c, run, relaying, waiting, no_stranded_upload run relaying waiting⟩

/-! ### The receive window -/

/-- The bytes the drain loop has dequeued and not yet passed to `tcp_recved`. -/
def startHeld (t : Coroutine StartPoint) : Nat :=
  match t.point? with
  | some (.drainWrite front _) => front.len
  | _ => 0

/-- The bytes a writer has dequeued and not yet passed to `tcp_recved`. -/
def writerHeld (t : Coroutine WriterPoint) : Nat :=
  match t.point? with
  | some point => point.payload.length + point.next.flatten.length
  | none => 0

/-- The bytes of its current buffer the socket has accepted from the drain loop. -/
def startWritten : Coroutine StartPoint → Nat
  | .completed (.drainWrite _ sent) (.ok n) => sent + n
  | .suspended (.drainWrite _ sent) | .completed (.drainWrite _ sent) .error => sent
  | _ => 0

def writerWritten : Coroutine WriterPoint → Nat
  | .completed point (.ok n) => point.sent + n
  | .suspended point | .completed point .error => point.sent
  | .finished => 0

namespace Conn

def held (c : Conn) : Nat := startHeld c.start + (c.writers.map writerHeld).sum

def written (c : Conn) : Nat := startWritten c.start + (c.writers.map writerWritten).sum

end Conn

/-- The bytes passed to `tcp_recved`. -/
def recvedBytes (tr : List TcpEvent) : Nat :=
  (tr.map fun
    | .used (.tcpRecved n) => n
    | _ => 0).sum

/-- The window lacks the bytes queued and dequeued, and `tcp_recved` lags behind the socket by
the buffers being written. -/
structure Conserved (tr : List TcpEvent) (c : Conn) : Prop where
  window : c.pcb.rcvWnd + (c.held + c.backlog.length) = tcpWnd
  reported : (uploadedBytes tr).length = recvedBytes tr + c.written
  inside : startWritten c.start ≤ startHeld c.start
  insides : ∀ (j : Nat) (t : Coroutine WriterPoint) (point : WriterPoint), c.writers[j]? = some t →
    t.point? = some point → writerWritten t ≤ point.payload.length

section Conservation
variable {tr evs : List TcpEvent} {c c' d : Conn}

theorem recvedBytes_append (tr evs : List TcpEvent) : recvedBytes (tr ++ evs) = recvedBytes tr + recvedBytes evs := by
  simp [recvedBytes]

private theorem start_idle {t : Coroutine StartPoint} {p : StartPoint} (at_ : t.point? = some p)
    (other : ∀ front sent, p ≠ .drainWrite front sent) : startHeld t = 0 ∧ startWritten t = 0 := by
  cases t with
  | finished => cases at_
  | suspended q | completed q r =>
    cases at_
    cases p with
    | drainWrite front sent => exact absurd rfl (other front sent)
    | _ => exact ⟨rfl, rfl⟩

private theorem start_drains (c : Conn) (front : Pbuf) (sent : Nat) :
    startHeld (c.awaitStart (.drainWrite front sent)).start = front.len ∧
      startWritten (c.awaitStart (.drainWrite front sent)).start = sent := by
  simp only [Conn.awaitStart]
  split <;> exact ⟨rfl, rfl⟩

private theorem writer_awaits (point : WriterPoint) :
    ∃ t : Coroutine WriterPoint, (∀ c : Conn, ∀ j, (c.awaitWriter j point).writers = c.writers.set j t) ∧
      t.point? = some point ∧ writerHeld t = point.payload.length + point.next.flatten.length ∧
      writerWritten t = point.sent := by
  refine ⟨if point.offered = [] then .completed point (.ok 0) else .suspended point, fun _ _ => rfl, ?_⟩
  split <;> exact ⟨rfl, rfl, rfl⟩

private theorem backlog_cons {front : Pbuf} {rest : List Pbuf} (popped : c.pbufQueue = front :: rest) :
    c.backlog.length = front.totLen + (rest.flatMap Pbuf.bytes).length := by
  rw [Conn.backlog, popped, List.flatMap_cons, List.length_append, Pbuf.totLen]

private theorem Conserved.congr (conserved : Conserved tr c) (uploaded : uploadedBytes evs = [])
    (recved : recvedBytes evs = 0) (window : c'.pcb.rcvWnd = c.pcb.rcvWnd) (start : c'.start = c.start)
    (writers : c'.writers = c.writers) (queue : c'.pbufQueue = c.pbufQueue) : Conserved (tr ++ evs) c' := by
  constructor
  · rw [window, Conn.held, Conn.backlog, start, writers, queue]
    exact conserved.window
  · rw [uploadedBytes_append, uploaded, List.append_nil, recvedBytes_append, recved, Nat.add_zero, Conn.written, start,
      writers]
    exact conserved.reported
  · rw [start]
    exact conserved.inside
  · rw [writers]
    exact conserved.insides

/-- The coroutine of `Start` goes on: what it reports to the window it no longer holds, and what the socket has
accepted from it is written. -/
private theorem Conserved.ofStart {n : Nat} (conserved : Conserved tr c) (uploaded : (uploadedBytes evs).length = n)
    (writers : c'.writers = c.writers) (inside : startWritten c'.start ≤ startHeld c'.start)
    (window : c'.pcb.rcvWnd + (startHeld c'.start + c'.backlog.length) =
      c.pcb.rcvWnd + (startHeld c.start + c.backlog.length))
    (reported : startWritten c.start + n = recvedBytes evs + startWritten c'.start) : Conserved (tr ++ evs) c' := by
  constructor
  · have before := conserved.window
    simp only [Conn.held, writers] at before ⊢
    omega
  · have before := conserved.reported
    rw [uploadedBytes_append, List.length_append, uploaded, recvedBytes_append]
    simp only [Conn.written, writers] at before ⊢
    omega
  · exact inside
  · rw [writers]
    exact conserved.insides

/-- Away from the drain loop the coroutine of `Start` holds nothing. -/
private theorem Conserved.idle {p p' : StartPoint} (conserved : Conserved tr c) (at_ : c.start.point? = some p)
    (next : c'.start.point? = some p') (other : ∀ front sent, p ≠ .drainWrite front sent)
    (other' : ∀ front sent, p' ≠ .drainWrite front sent) (uploaded : uploadedBytes evs = [])
    (recved : recvedBytes evs = 0) (writers : c'.writers = c.writers) (queue : c'.pbufQueue = c.pbufQueue)
    (window : c'.pcb.rcvWnd = c.pcb.rcvWnd) : Conserved (tr ++ evs) c' := by
  obtain ⟨held, written⟩ := start_idle at_ other
  obtain ⟨held', written'⟩ := start_idle next other'
  refine conserved.ofStart (congrArg List.length uploaded) writers (by omega) ?_ ?_
  · rw [window, held, held', Conn.backlog, Conn.backlog, queue]
  · rw [written, written', recved]
    rfl

/-- The writer goes on. -/
private theorem Conserved.ofWriter {n : Nat} (conserved : Conserved tr c) (solo : Solo c.writing) {j : Nat}
    {t u : Coroutine WriterPoint} {point : WriterPoint} (at_ : c.writers[j]? = some t) (live : t.point? = some point)
    (uploaded : (uploadedBytes evs).length = n) (start : c'.start = c.start) (writers : c'.writers = c.writers.set j u)
    (inside : ∀ point, u.point? = some point → writerWritten u ≤ point.payload.length)
    (window : c'.pcb.rcvWnd + (writerHeld u + c'.backlog.length) =
      c.pcb.rcvWnd + (writerHeld t + c.backlog.length))
    (reported : writerWritten t + n = recvedBytes evs + writerWritten u) : Conserved (tr ++ evs) c' := by
  have held : (c.writers.map writerHeld).sum = writerHeld t := solo.sum at_ live rfl
  have held' : (c'.writers.map writerHeld).sum = writerHeld u := writers ▸ solo.sum_set at_ live u rfl
  have written : (c.writers.map writerWritten).sum = writerWritten t := solo.sum at_ live rfl
  have written' : (c'.writers.map writerWritten).sum = writerWritten u := writers ▸ solo.sum_set at_ live u rfl
  constructor
  · have before := conserved.window
    simp only [Conn.held, held, held', start] at before ⊢
    omega
  · have before := conserved.reported
    rw [uploadedBytes_append, List.length_append, uploaded, recvedBytes_append]
    simp only [Conn.written, written, written', start] at before ⊢
    omega
  · rw [start]
    exact conserved.inside
  · intro i v q hi hv
    rw [writers] at hi
    by_cases same : j = i
    · subst same
      rw [List.getElem?_set_self (List.getElem?_eq_some_iff.mp at_).1, Option.some.injEq] at hi
      subst hi
      exact inside q hv
    · rw [List.getElem?_set_ne same] at hi
      exact conserved.insides i v q hi hv

/-- The drain loop moves bytes from the queue to its hand. -/
private theorem drainLoop_held (d : Conn) (simple : ∀ p ∈ d.pbufQueue, p.len = p.totLen) :
    d.drainLoop.2 = [] ∧ d.drainLoop.1.writers = d.writers ∧ d.drainLoop.1.pcb = d.pcb ∧
      startWritten d.drainLoop.1.start = 0 ∧
      startHeld d.drainLoop.1.start + d.drainLoop.1.backlog.length = d.backlog.length := by
  rcases d.drainLoop_cases with ⟨empty, loop⟩ | ⟨front, rest, popped, ⟨whole, loop⟩ | ⟨chained, _⟩⟩
  · obtain ⟨held, written⟩ := start_idle (d.point?_awaitStart .downloadRead) (fun _ _ => nofun)
    rw [loop]
    refine ⟨rfl, rfl, rfl, written, ?_⟩
    rw [held, Nat.zero_add]
    rfl
  · obtain ⟨held, written⟩ := start_drains { d with pbufQueue := rest } front 0
    rw [loop]
    refine ⟨rfl, rfl, rfl, written, ?_⟩
    rw [held, whole, backlog_cons popped]
    rfl
  · exact absurd (simple front (popped ▸ List.mem_cons_self)) chained

/-- So does the writer's loop. -/
private theorem writerLoop_held (d : Conn) (j : Nat) : ∃ u : Coroutine WriterPoint,
    (d.writerLoop j).writers = d.writers.set j u ∧ (d.writerLoop j).start = d.start ∧ (d.writerLoop j).pcb = d.pcb ∧
      writerWritten u = 0 ∧ writerHeld u + (d.writerLoop j).backlog.length = d.backlog.length := by
  rcases d.writerLoop_cases j with ⟨empty, loop⟩ | ⟨front, rest, popped, loop⟩
  · rw [loop]
    exact ⟨.finished, rfl, rfl, rfl, rfl, Nat.zero_add _⟩
  · obtain ⟨u, writers, _, held, written⟩ := writer_awaits ⟨front, front.payload, front.next, 0⟩
    rw [loop]
    refine ⟨u, writers _ _, rfl, rfl, written, ?_⟩
    rw [held, backlog_cons popped, Pbuf.totLen, Pbuf.bytes, List.length_append]
    rfl

/-- A packet of the drain loop is written whole and reported. -/
private theorem Conserved.drains {front : Pbuf} {sent n : Nat} (conserved : Conserved tr c) (shape : Shape c)
    (at_ : c.start = .completed (.drainWrite front sent) (.ok n)) (whole : front.len ≤ sent + n)
    (recved : recvedBytes evs = front.len) (uploaded : uploadedBytes evs = []) :
    Conserved (tr ++ evs) (Conn.drainLoop { c with pcb := c.pcb.tcpRecved front.len }).1 := by
  obtain ⟨quiet, writers, pcb, written', held'⟩ :=
    drainLoop_held { c with pcb := c.pcb.tcpRecved front.len } shape.simple
  have inside := conserved.inside
  have window := conserved.window
  have bound : tcpWnd = 65535 := rfl
  have held : startHeld c.start = front.len := by rw [at_]; rfl
  have written : startWritten c.start = sent + n := by rw [at_]; rfl
  refine conserved.ofStart (congrArg List.length uploaded) writers (by omega) ?_ ?_
  · rw [pcb, held', held]
    change min (c.pcb.rcvWnd + front.len) tcpWnd + c.backlog.length = _
    simp only [Conn.held] at window
    omega
  · rw [written, written', recved, List.length_nil]
    omega

/-- A buffer of the writer is written whole and reported; what it takes up next was held or queued before. -/
private theorem Conserved.writes {j n : Nat} {point : WriterPoint} {u : Coroutine WriterPoint}
    (conserved : Conserved tr c) (shape : Shape c) (at_ : c.writers[j]? = some (.completed point (.ok n)))
    (whole : point.payload.length ≤ point.sent + n) (recved : recvedBytes evs = point.payload.length)
    (uploaded : uploadedBytes evs = []) (start : c'.start = c.start) (writers : c'.writers = c.writers.set j u)
    (pcb : c'.pcb = c.pcb.tcpRecved point.payload.length) (unwritten : writerWritten u = 0)
    (held : writerHeld u + c'.backlog.length = point.next.flatten.length + c.backlog.length) :
    Conserved (tr ++ evs) c' := by
  have inside : point.sent + n ≤ point.payload.length := conserved.insides j _ point at_ rfl
  have window := conserved.window
  have bound : tcpWnd = 65535 := rfl
  have before : (c.writers.map writerHeld).sum = point.payload.length + point.next.flatten.length :=
    Solo.sum shape.writers at_ rfl rfl
  refine conserved.ofWriter shape.writers at_ rfl (congrArg List.length uploaded) start writers ?_ ?_ ?_
  · intro q _
    rw [unwritten]
    exact Nat.zero_le _
  · rw [held, pcb]
    change min (c.pcb.rcvWnd + point.payload.length) tcpWnd + _ =
      c.pcb.rcvWnd + (point.payload.length + point.next.flatten.length + c.backlog.length)
    simp only [Conn.held] at window
    omega
  · rw [unwritten, recved, List.length_nil]
    change point.sent + n + 0 = point.payload.length + 0
    omega

private theorem Resumes.conserved {room : Room} {id : CoroId} (move : Resumes c room id evs c') (shape : Shape c)
    (opened : c.status ≠ .close) (opened' : c'.status ≠ .close) (live : c'.halted = false)
    (conserved : Conserved tr c) : Conserved (tr ++ evs) c' := by
  cases move with
  | startFailed | rejected | drainEnds | downloadEnds | parks | writerFailed => exact absurd rfl opened'
  | startDangles | writerDangles | readerDangles => cases live
  | connected at_ | requests at_ =>
    exact conserved.idle (point?_of_completed at_) (Conn.point?_awaitStart _ _) (fun _ _ => nofun) (fun _ _ => nofun)
      rfl rfl rfl rfl rfl
  | greets at_ next =>
    have off : ∀ {p : StartPoint}, p.greets = true → ∀ front sent, p ≠ .drainWrite front sent := by
      rintro _ greets front sent rfl
      cases greets
    exact conserved.idle (point?_of_completed at_) (Conn.point?_awaitStart _ _) (off next.greets.1) (off next.greets.2)
      rfl rfl rfl rfl rfl
  | relays at_ =>
    obtain ⟨held, written⟩ := start_idle (point?_of_completed at_) (fun _ _ => nofun)
    obtain ⟨quiet, writers, pcb, written', held'⟩ := drainLoop_held { c with status := .relaying } shape.simple
    rw [quiet]
    refine conserved.ofStart (n := 0) rfl writers (by omega) ?_ (by rw [written, written']; rfl)
    rw [held', held, pcb, Nat.zero_add]
    rfl
  | @drainWritesOn front sent n at_ short =>
    obtain ⟨held, written⟩ := start_drains c front (sent + n)
    refine conserved.ofStart (n := 0) rfl rfl (by omega) ?_ ?_
    · rw [held, at_]
      rfl
    · rw [written, at_]
      exact (Nat.zero_add _).symm
  | @drains front sent n at_ whole =>
    have quiet := (drainLoop_held { c with pcb := c.pcb.tcpRecved front.len } shape.simple).1
    rw [quiet]
    exact conserved.drains shape at_ whole (by simp [recvedBytes]) rfl
  | @downloads n at_ =>
    obtain ⟨_, _, _, eq⟩ := c.writeLocal_pcb n room
    rw [eq]
    exact conserved.idle (point?_of_completed at_) (Conn.point?_awaitStart _ _) (fun _ _ => nofun) (fun _ _ => nofun)
      rfl rfl rfl rfl rfl
  | @writerWritesOn j n point at_ short =>
    obtain ⟨u, writers, at', held, written⟩ := writer_awaits { point with sent := point.sent + n }
    refine conserved.ofWriter (n := 0) shape.writers at_ rfl rfl rfl (writers _ _) ?_ ?_ ?_
    · intro q hq
      cases at'.symm.trans hq
      rw [written]
      exact Nat.le_of_lt short
    · rw [held]
      rfl
    · rw [written]
      exact (Nat.zero_add _).symm
  | writerEnds _ _ closed => exact absurd closed opened
  | @writerFollows j n point payload next at_ whole _ _ chained =>
    obtain ⟨u, writers, _, held, written⟩ := writer_awaits ⟨point.front, payload, next, 0⟩
    refine conserved.writes shape at_ whole rfl rfl rfl (writers _ _) rfl written ?_
    rw [held, chained, List.flatten_cons, List.length_append]
    rfl
  | @writerPops j n point at_ whole _ _ last =>
    obtain ⟨u, writers, start, pcb, written, held⟩ :=
      writerLoop_held { c with pcb := c.pcb.tcpRecved point.payload.length } j
    refine conserved.writes shape at_ whole rfl rfl start writers pcb written ?_
    rw [held, last]
    exact (Nat.zero_add _).symm
  | @readerParks j n | @readerReads j n =>
    obtain ⟨_, _, _, eq⟩ := c.writeLocal_pcb n room
    rw [eq]
    exact conserved.congr rfl rfl rfl rfl rfl rfl
  | readerFailed | readerEnds => exact conserved.congr rfl rfl rfl rfl rfl rfl

/-- The socket accepts `n` more bytes of a packet. -/
private theorem uploaded_length {data : List UInt8} {n : Nat} (le : n ≤ data.length) :
    (uploadedBytes [.uploaded (data.take n)]).length = n := by
  simp [uploadedBytes, le]

private theorem SocketMove.conserved {a : TcpAct} (move : SocketMove c a evs c') (shape : Shape c)
    (conserved : Conserved tr c) : Conserved (tr ++ evs) c' := by
  have settles {p : StartPoint} {r : Completion} (at_ : c.start = .suspended p) (start : c'.start = .completed p r)
      (other : ∀ front sent, p ≠ .drainWrite front sent) (uploaded : uploadedBytes evs = [])
      (recved : recvedBytes evs = 0) (writers : c'.writers = c.writers) (queue : c'.pbufQueue = c.pbufQueue)
      (window : c'.pcb.rcvWnd = c.pcb.rcvWnd) : Conserved (tr ++ evs) c' :=
    conserved.idle (p := p) (by rw [at_]; rfl) (by rw [start]; rfl) other other uploaded recved writers queue window
  have reads {p : StartPoint} {window : Nat × Nat} (takes : p.window = some window) :
      ∀ front sent, p ≠ .drainWrite front sent := by
    rintro front sent rfl
    cases takes
  have inside {front : Pbuf} {sent : Nat} (at_ : c.start = .suspended (.drainWrite front sent)) : sent ≤ front.len := by
    have inside := conserved.inside
    rw [at_] at inside
    exact inside
  cases move with
  | connected at_ | connectFailed at_ => exact settles at_ rfl (fun _ _ => nofun) rfl rfl rfl rfl rfl
  | @startArrives data point _ _ _ _ at_ takes =>
    refine settles at_ rfl (reads takes) ?_ ?_ rfl rfl rfl <;> cases point <;> rfl
  | startReadFails _ at_ takes => exact settles at_ rfl (reads takes) rfl rfl rfl rfl rfl
  | readerArrives | readerReadFails | transmits => exact conserved.congr rfl rfl rfl rfl rfl rfl
  | @startAccepts n point bytes _ _ at_ offers _ le =>
    cases point with
    | drainWrite front sent =>
      cases offers
      have sound := inside at_
      have length : (front.payload.drop sent).length = front.len - sent := List.length_drop
      refine conserved.ofStart (uploaded_length le) rfl ?_ ?_ ?_
      · change sent + n ≤ front.len
        omega
      · rw [at_]
        rfl
      · rw [at_]
        exact (Nat.zero_add _).symm
    | _ => exact settles at_ rfl (fun _ _ => nofun) rfl rfl rfl rfl rfl
  | @startWriteFails point _ _ _ at_ =>
    cases point with
    | drainWrite front sent =>
      refine conserved.ofStart (n := 0) rfl rfl (inside at_) ?_ ?_
      · rw [at_]
        rfl
      · rw [at_]
        exact (Nat.zero_add _).symm
    | _ => exact settles at_ rfl (fun _ _ => nofun) rfl rfl rfl rfl rfl
  | @writerAccepts n j point _ _ at_ _ le =>
    have sound : point.sent ≤ point.payload.length := conserved.insides j _ point at_ rfl
    have length : point.offered.length = point.payload.length - point.sent := List.length_drop
    refine conserved.ofWriter shape.writers at_ rfl (uploaded_length le) rfl rfl ?_ rfl (Nat.zero_add _).symm
    intro q hq
    cases hq
    change point.sent + n ≤ point.payload.length
    omega
  | @writerWriteFails j point _ _ at_ =>
    refine conserved.ofWriter (n := 0) shape.writers at_ rfl rfl rfl rfl ?_ rfl (Nat.zero_add _).symm
    intro q hq
    cases hq
    have sound : point.sent ≤ point.payload.length := conserved.insides j _ point at_ rfl
    exact sound

/-- A writer is spawned. -/
private theorem Conserved.spawned {u : Coroutine WriterPoint} (conserved : Conserved tr c)
    (uploaded : uploadedBytes evs = []) (recved : recvedBytes evs = 0) (start : c'.start = c.start)
    (writers : c'.writers = c.writers ++ [u]) (written : writerWritten u = 0)
    (window : c'.pcb.rcvWnd + (writerHeld u + c'.backlog.length) = c.pcb.rcvWnd + c.backlog.length) :
    Conserved (tr ++ evs) c' := by
  have sums (f : Coroutine WriterPoint → Nat) : (c'.writers.map f).sum = (c.writers.map f).sum + f u := by
    rw [writers, List.map_append, List.sum_append]
    exact congrArg _ (Nat.add_zero _)
  constructor
  · have before := conserved.window
    simp only [Conn.held, sums, start] at before ⊢
    omega
  · have before := conserved.reported
    rw [uploadedBytes_append, uploaded, List.append_nil, recvedBytes_append]
    simp only [Conn.written, sums, start] at before ⊢
    omega
  · rw [start]
    exact conserved.inside
  · intro i t q hi hq
    rw [writers] at hi
    rcases Nat.lt_or_ge i c.writers.length with old | new
    · rw [List.getElem?_append_left old] at hi
      exact conserved.insides i t q hi hq
    · have last : i = c.writers.length := by
        have := (List.getElem?_eq_some_iff.mp hi).1
        simp only [List.length_append, List.length_singleton] at this
        omega
      rw [last, List.getElem?_concat_length, Option.some.injEq] at hi
      rw [← hi, written]
      exact Nat.zero_le _

/-- A packet of `n` bytes lowers the window by `n` and is queued, or popped at once. -/
private theorem proxied_conserved {p : Pbuf} (conserved : Conserved tr c) (start : d.start = c.start)
    (writers : d.writers = c.writers) (queue : d.pbufQueue = c.pbufQueue)
    (window : d.pcb.rcvWnd + p.totLen = c.pcb.rcvWnd) :
    Conserved (tr ++ (d.proxyTcpPacket p).2) (d.proxyTcpPacket p).1 := by
  have grown : ((d.pbufQueue ++ [p]).flatMap Pbuf.bytes).length = c.backlog.length + p.totLen := by
    simp [queue, Conn.backlog, Pbuf.totLen]
  simp only [Conn.proxyTcpPacket]
  split
  · obtain ⟨u, writers', start', pcb, written, held⟩ := writerLoop_held { d with
      pbufQueue := d.pbufQueue ++ [p], remoteSending := true, writers := d.writers ++ [Coroutine.finished] }
      d.writers.length
    refine conserved.spawned rfl rfl (start'.trans start) ?_ written ?_
    · rw [writers', List.set_append_right _ _ (Nat.le_refl _), Nat.sub_self, writers]
      rfl
    · rw [held, pcb]
      change d.pcb.rcvWnd + ((d.pbufQueue ++ [p]).flatMap Pbuf.bytes).length = _
      omega
  · refine conserved.ofStart rfl writers ?_ ?_ ?_
    · exact start ▸ conserved.inside
    · change d.pcb.rcvWnd + (startHeld d.start + ((d.pbufQueue ++ [p]).flatMap Pbuf.bytes).length) = _
      rw [start]
      omega
    · rw [start]
      exact (Nat.zero_add _).symm

/-- A handshake is closed from outside only, by `Stop()`, which erases the session. -/
def Unclosed (c : Conn) : Prop := c.inMap = true → c.Greeting → c.status ≠ .close

private theorem Resumes.unclosed {room : Room} {id : CoroId} (move : Resumes c room id evs c') (shape : Shape c)
    (unclosed : Unclosed c) : Unclosed c' := by
  intro found greeting closed
  rw [move.aside.inMap] at found
  have before (point : c'.start.point? = c.start.point?) (status : c'.status = c.status) : False := by
    refine unclosed found ?_ (status ▸ closed)
    rwa [Conn.Greeting, point] at greeting
  have starts {p : StartPoint} {n : Nat} (at_ : c.start = .completed p (.ok n)) (greets : p.greets = true)
      (status : c'.status = c.status) : False :=
    unclosed found ⟨p, point?_of_completed at_, greets⟩ (status ▸ closed)
  cases move with
  | startFailed | rejected | drainEnds | downloadEnds | parks =>
    obtain ⟨p, at_, _⟩ := greeting
    cases at_
  | connected => cases closed
  | greets at_ next => exact starts at_ next.greets.1 rfl
  | requests at_ => exact starts at_ rfl rfl
  | relays => simp at closed
  | drainWritesOn =>
    cases (Conn.greeting_awaitStart _ _).mp greeting
  | drains _ _ opened | downloads _ opened | writerPops _ _ opened =>
    exact opened (by simpa [Conn.awaitStart] using closed)
  | writerFollows _ _ opened => exact opened closed
  | writerFailed at_ =>
    rw [shape.writers_of_greeting greeting] at at_
    cases at_
  | readerParks _ opened | readerReads _ opened => exact opened (by simpa [Conn.awaitReader] using closed)
  | startDangles | writerWritesOn | writerEnds | writerDangles | readerFailed | readerEnds | readerDangles =>
    exact before rfl rfl

private theorem Stays.unclosed {a : TcpAct} {r : Outcome} (stays : Stays c a r) (shape : Shape c)
    (unclosed : Unclosed c) : Unclosed r.1 := by
  cases stays with
  | @acknowledged seg | @chained seg =>
    obtain ⟨_, _, _, eq⟩ := c.acknowledged_eq seg
    rw [eq]
    exact unclosed
  | @proxied seg p =>
    obtain ⟨_, _, _, eq⟩ := c.acknowledged_eq seg
    obtain ⟨_, _, _, _, eq'⟩ := (c.acknowledged seg).proxyTcpPacket_eq p
    rw [eq', eq]
    exact unclosed
  | socket move =>
    rw [Unclosed, move.aside.inMap, move.status, Conn.Greeting, move.point?]
    exact unclosed
  | resumed move => exact move.unclosed shape unclosed

/-- Only the handshake takes a session out of `SESSION_CLOSE`. -/
private theorem Resumes.opened {room : Room} {id : CoroId} (move : Resumes c room id evs c')
    (opened : c'.status ≠ .close) : c.status ≠ .close ∨ c.Greeting := by
  cases move with
  | startFailed | rejected | drainEnds | downloadEnds | parks | writerFailed => exact absurd rfl opened
  | connected at_ => exact Or.inr ⟨_, point?_of_completed at_, rfl⟩
  | relays at_ => exact Or.inr ⟨_, point?_of_completed at_, rfl⟩
  | drains _ _ before | downloads _ before | writerPops _ _ before | writerFollows _ _ before | readerParks _ before
  | readerReads _ before => exact Or.inl before
  | greets | requests | drainWritesOn | startDangles | writerWritesOn | writerEnds | writerDangles | readerFailed
  | readerEnds | readerDangles => exact Or.inl opened

private theorem Stays.conserved {a : TcpAct} {r : Outcome} (stays : Stays c a r) (service : InService c)
    (found : c.inMap = true) (shape : Shape c) (unclosed : Unclosed c)
    (conserved : c.status ≠ .close → Conserved tr c) (opened : r.1.status ≠ .close) (live : r.1.halted = false) :
    Conserved (tr ++ r.2) r.1 := by
  cases stays with
  | @acknowledged seg bare open_ =>
    obtain ⟨_, _, _, eq⟩ := c.acknowledged_eq seg
    have none_ : seg.tcplen = 0 := by simp [Segment.tcplen, bare, open_]
    have window : (c.pcb.tcpProcess seg).rcvWnd = c.pcb.rcvWnd := by
      rw [Pcb.tcpProcess_established service.state, none_]
      rfl
    rw [eq] at opened ⊢
    exact (conserved opened).congr rfl rfl window rfl rfl rfl
  | @proxied seg p ok carried _ opened' open_ =>
    obtain ⟨_, _, _, eq⟩ := c.acknowledged_eq seg
    have filled : seg.tcplen = p.totLen := by simp [Segment.tcplen, carried, open_]
    have fits := Conn.tcplen_le ok
    refine proxied_conserved (conserved opened') ?_ ?_ ?_ ?_ <;> rw [eq]
    change (c.pcb.tcpProcess seg).rcvWnd + p.totLen = c.pcb.rcvWnd
    rw [Pcb.tcpProcess_established service.state]
    change c.pcb.rcvWnd - seg.tcplen + p.totLen = c.pcb.rcvWnd
    omega
  | chained => cases live
  | socket move => exact move.conserved shape (conserved (move.status ▸ opened))
  | resumed move =>
    have before : c.status ≠ .close := (move.opened opened).elim id (unclosed found)
    exact move.conserved shape before opened live (conserved before)

/-- What is reported to the window is in hand. -/
theorem Resumes.recved {room : Room} {id : CoroId} (move : Resumes c room id evs c') (shape : Shape c) {n : Nat}
    (used : .used (.tcpRecved n) ∈ evs) : n ≤ c.held := by
  have start {front : Pbuf} {sent m : Nat} (at_ : c.start = .completed (.drainWrite front sent) (.ok m)) :
      front.len ≤ c.held := by
    have held : startHeld c.start = front.len := by rw [at_]; rfl
    rw [Conn.held, held]
    exact Nat.le_add_right _ _
  have writer {j m : Nat} {point : WriterPoint} (at_ : c.writers[j]? = some (.completed point (.ok m))) :
      point.payload.length ≤ c.held := by
    have held : (c.writers.map writerHeld).sum = point.payload.length + point.next.flatten.length :=
      Solo.sum shape.writers at_ rfl rfl
    rw [Conn.held, held]
    omega
  cases move with
  | drains at_ =>
    rcases List.mem_append.mp used with reported | looped
    · obtain rfl : n = _ := by simpa using reported
      exact start at_
    · cases Conn.mem_drainLoop _ looped
  | relays =>
    rcases List.mem_cons.mp used with reported | looped
    · cases reported
    · cases Conn.mem_drainLoop _ looped
  | startDangles at_ touches =>
    cases touches with
    | drain =>
      obtain rfl : n = _ := by simpa using used
      exact start at_
    | request | download => simp [Conn.localUses] at used
  | writerFollows at_ | writerPops at_ | writerDangles at_ =>
    obtain rfl : n = _ := by simpa using used
    exact writer at_
  | _ => simp [Conn.localUses] at used

end Conservation

theorem reap_mapped {c : Conn} (found : c.inMap = true) : c.reap = (c, []) := by
  simp [Conn.reap, found]

theorem conserved_run {ts : List (Transition Conn TcpAct TcpEvent)} {c : Conn} (run : connMachine.Run ts c)
    (found : c.inMap = true) (opened : c.status ≠ .close) (live : c.halted = false) :
    Conserved (Machine.trace ts) c := by
  refine (run.invariant_trace (fun tr c => (Filed c ∧ Shape c ∧ Unclosed c) ∧
    (c.inMap = true → c.status ≠ .close → c.halted = false → Conserved tr c)) ?_ ?_).2 found opened live
  · intro c init
    refine ⟨⟨filed_init init, shape_init init, ?_⟩, ?_⟩
    · rintro _ greeting closed
      obtain ⟨_, _, _, opened, _, _, rfl⟩ := init
      cases opened
      · obtain ⟨p, at_, _⟩ := greeting
        cases at_
      · cases closed
    · obtain ⟨_, _, _, opened, _, _, rfl⟩ := init
      intro _ _ _
      cases opened <;> exact ⟨rfl, rfl, Nat.le_refl _, fun j t point hj => nomatch hj⟩
  · rintro tr c a c' out ⟨⟨filed, shape, unclosed⟩, conserved⟩ h
    refine ⟨⟨filed_step filed h, shape_step shape h, ?_⟩, ?_⟩ <;>
      obtain ⟨live, r, happens, rfl, rfl⟩ := happens_of_step h
    · intro found
      rw [Conn.inMap_reap] at found
      obtain ⟨_, _, stays⟩ := happens.stays filed live found
      rw [reap_mapped found]
      exact stays.unclosed shape unclosed found
    · intro found opened live'
      rw [Conn.inMap_reap] at found
      obtain ⟨before, service, stays⟩ := happens.stays filed live found
      rw [reap_mapped found] at opened live' ⊢
      rw [List.append_nil]
      exact stays.conserved service before shape unclosed (fun opened => conserved before opened live) opened live'

/-- In every run, while a session is in the map and not closed, the receive window lacks exactly
the bytes queued and dequeued, the clamp of `tcp_recved` has nothing to cut off, and what the socket has
accepted beyond what was reported belongs to the buffers being written. -/
theorem receive_window_conserved {ts : List (Transition Conn TcpAct TcpEvent)} {c : Conn} (run : connMachine.Run ts c)
    (found : c.inMap = true) (opened : c.status ≠ .close) (live : c.halted = false) :
    (c.pcb.rcvWnd ≤ tcpWnd ∧ tcpWnd - c.pcb.rcvWnd = c.backlog.length + c.held) ∧
      (uploadedBytes (Machine.trace ts)).length = recvedBytes (Machine.trace ts) + c.written ∧
      (∀ a c' out n, connMachine.step c a = some (c', out) → .used (.tcpRecved n) ∈ out → c.pcb.rcvWnd + n ≤ tcpWnd) ∧
      c.backlog.length ≤ tcpWnd := by
  have conserved := conserved_run run found opened live
  have window := conserved.window
  refine ⟨⟨by omega, by omega⟩, conserved.reported, fun a c' out n h used => ?_, by omega⟩
  obtain ⟨_, _, _, _, _, move, reported⟩ := resumes_of_used h used
  have := move.recved (shape_run run) reported
  omega

/-- Two packets wait in the queue and one is being drained. -/
theorem receive_window_conserved_early : ∃ ts c, connMachine.Run ts c ∧ c.inMap = true ∧ c.status ≠ .close ∧
    c.halted = false ∧ c.backlog.length = 2 ∧
    ((c.pcb.rcvWnd ≤ tcpWnd ∧ tcpWnd - c.pcb.rcvWnd = c.backlog.length + c.held) ∧
      (uploadedBytes (Machine.trace ts)).length = recvedBytes (Machine.trace ts) + c.written ∧
      (∀ a c' out n, connMachine.step c a = some (c', out) → .used (.tcpRecved n) ∈ out → c.pcb.rcvWnd + n ≤ tcpWnd) ∧
      c.backlog.length ≤ tcpWnd) := by
  obtain ⟨ts, c, run, h⟩ := Machine.Run.exists_of_exec connMachine webConn
    ([.input ⟨0, false, some ⟨[1, 2, 3], []⟩, false⟩, .input ⟨0, false, some ⟨[4], []⟩, false⟩,
      .input ⟨0, false, some ⟨[5], []⟩, false⟩] ++ greeting ++ [.accept 2])
    (fun _ c => decide (c.inMap = true ∧ c.status ≠ .close ∧ c.halted = false ∧ c.backlog.length = 2)) webConn_init
    (by decide +kernel)
  obtain ⟨found, opened, live, waiting⟩ := of_decide_eq_true h
  exact ⟨ts, c, run, found, opened, live, waiting, receive_window_conserved run found opened live⟩

end Tunosocks.Tcp
