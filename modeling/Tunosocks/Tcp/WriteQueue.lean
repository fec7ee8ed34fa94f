import Mathlib.Data.List.Nodup
import Tunosocks.Tcp.Shape

/-! The writes pending on the remote socket: the queue holds each pending write once, and
the bytes of the packets popped so far are in pending writes or in writes that completed short. -/
namespace Tunosocks.Tcp
open Foundation Coroutine

/-- What a pending write of the drain loop has still to send. -/
def startLeft : Coroutine StartPoint → List UInt8
  | .suspended (.drainWrite front sent) => front.payload.drop sent
  | _ => []

/-- What a completed write of the drain loop has still to send. -/
def startRest : Coroutine StartPoint → List UInt8
  | .completed (.drainWrite front sent) (.ok n) => front.payload.drop (sent + n)
  | _ => []

def writerLeft : Coroutine WriterPoint → List UInt8
  | .suspended point => point.offered
  | _ => []

def writerRest : Coroutine WriterPoint → List UInt8
  | .completed point (.ok n) => point.payload.drop (point.sent + n)
  | _ => []

namespace Conn

def left (c : Conn) : CoroId → List UInt8
  | .start => startLeft c.start
  | .writer j => ((c.writers[j]?).map writerLeft).getD []
  | .reader _ => []

/-- What the pending writes will send, in the order of the socket's queue. -/
def pending (c : Conn) : List UInt8 := c.writeQueue.flatMap c.left

/-- What writes that have completed short will go on to send. -/
def resting (c : Conn) : List UInt8 := startRest c.start ++ c.writers.flatMap writerRest

end Conn

/-! ### The socket's queue of writes -/

/-- Whether a point is a write. -/
def StartPoint.writes : StartPoint → Bool
  | .methodWrite _ | .requestWrite _ | .drainWrite .. => true
  | _ => false

/-- The queue holds pending writes, each once. -/
structure Lined (c : Conn) : Prop where
  nodup : c.writeQueue.Nodup
  start : .start ∈ c.writeQueue → ∃ p, c.start = .suspended p ∧ p.writes = true
  writer : ∀ j, .writer j ∈ c.writeQueue → ∃ p, c.writers[j]? = some (.suspended p)

namespace Lined
variable {c : Conn}

private theorem congr {c' : Conn} (lined : Lined c) (start : c'.start = c.start) (writers : c'.writers = c.writers)
    (queue : c'.writeQueue = c.writeQueue) : Lined c' := by
  refine ⟨queue ▸ lined.nodup, ?_, ?_⟩
  · rw [queue, start]
    exact lined.start
  · rw [queue, writers]
    exact lined.writer

private theorem awaitStart {d : Conn} {point : StartPoint} (lined : Lined c) (free : ∀ p, c.start ≠ .suspended p)
    (start : d.start = c.start) (writers : d.writers = c.writers) (queue : d.writeQueue = c.writeQueue) :
    Lined (d.awaitStart point) := by
  have same : Lined d := lined.congr start writers queue
  have fresh : .start ∉ d.writeQueue := fun h => (same.start h).elim fun p hp => free p (start ▸ hp.1)
  simp only [Conn.awaitStart]
  by_cases nothing : (point.offered d.remoteRecvBuff).getD [] = []
  · rw [if_pos nothing, List.append_nil]
    exact ⟨same.nodup, fun h => absurd h fresh, same.writer⟩
  · rw [if_neg nothing]
    refine ⟨?_, ?_, ?_⟩
    · exact List.nodup_append.mpr ⟨same.nodup, List.nodup_singleton _, fun a ha b hb eq =>
        fresh (List.mem_singleton.mp hb ▸ eq ▸ ha)⟩
    · intro _
      refine ⟨point, if_neg ?_, ?_⟩
      · intro eq
        simp [eq] at nothing
      · cases point <;> first | rfl | exact absurd rfl nothing
    · intro j h
      rcases List.mem_append.mp h with old | new
      · exact same.writer j old
      · cases List.mem_singleton.mp new

private theorem setWriter (lined : Lined c) {j : Nat} (free : .writer j ∉ c.writeQueue) (t : Coroutine WriterPoint) :
    Lined { c with writers := c.writers.set j t } := by
  refine ⟨lined.nodup, lined.start, fun k h => ?_⟩
  have other : j ≠ k := by
    rintro rfl
    exact free h
  obtain ⟨p, hp⟩ := lined.writer k h
  exact ⟨p, (List.getElem?_set_ne other).trans hp⟩

private theorem awaitWriter {d : Conn} {j : Nat} {point : WriterPoint} (lined : Lined c)
    (free : .writer j ∉ c.writeQueue) (bound : j < c.writers.length) (start : d.start = c.start)
    (writers : d.writers = c.writers) (queue : d.writeQueue = c.writeQueue) : Lined (d.awaitWriter j point) := by
  rw [← queue] at free
  rw [← writers] at bound
  have same : Lined d := lined.congr start writers queue
  have set := same.setWriter free (if point.offered = [] then .completed point (.ok 0) else .suspended point)
  simp only [Conn.awaitWriter]
  by_cases nothing : point.offered = []
  · simp only [if_pos nothing, List.append_nil]
    simp only [if_pos nothing] at set
    exact set
  · simp only [if_neg nothing] at set ⊢
    refine ⟨?_, ?_, ?_⟩
    · exact List.nodup_append.mpr ⟨same.nodup, List.nodup_singleton _, fun a ha b hb eq =>
        free (List.mem_singleton.mp hb ▸ eq ▸ ha)⟩
    · intro h
      rcases List.mem_append.mp h with old | new
      · exact same.start old
      · cases List.mem_singleton.mp new
    · intro k h
      rcases List.mem_append.mp h with old | new
      · exact set.writer k old
      · cases List.mem_singleton.mp new
        exact ⟨point, List.getElem?_set_self bound⟩

private theorem dropStart (lined : Lined c) {rest : List CoroId} (oldest : c.writeQueue = .start :: rest)
    (t : Coroutine StartPoint) : Lined { c with writeQueue := rest, start := t } := by
  have nodup := lined.nodup
  rw [oldest] at nodup
  refine ⟨(List.nodup_cons.mp nodup).2, fun h => absurd h (List.nodup_cons.mp nodup).1, fun j h => ?_⟩
  exact lined.writer j (oldest ▸ List.mem_cons_of_mem _ h)

private theorem dropWriter (lined : Lined c) {j : Nat} {rest : List CoroId} (oldest : c.writeQueue = .writer j :: rest)
    (t : Coroutine WriterPoint) : Lined { c with writeQueue := rest, writers := c.writers.set j t } := by
  have nodup := lined.nodup
  rw [oldest] at nodup
  have kept : Lined { c with writeQueue := rest } :=
    ⟨(List.nodup_cons.mp nodup).2, fun h => lined.start (oldest ▸ List.mem_cons_of_mem _ h),
      fun k h => lined.writer k (oldest ▸ List.mem_cons_of_mem _ h)⟩
  exact kept.setWriter (List.nodup_cons.mp nodup).1 t

/-- The coroutine of `Start` may change freely while no write of its is pending. -/
private theorem changeStart {c' : Conn} (lined : Lined c) (absent : .start ∉ c.writeQueue)
    (writers : c'.writers = c.writers) (queue : c'.writeQueue = c.writeQueue) : Lined c' := by
  refine ⟨queue ▸ lined.nodup, ?_, ?_⟩
  · rw [queue]
    exact fun h => absurd h absent
  · rw [queue, writers]
    exact lined.writer

theorem not_mem_reading (lined : Lined c) {p : StartPoint} (at_ : c.start = .suspended p)
    (reads : p.writes = false) : .start ∉ c.writeQueue := by
  intro h
  obtain ⟨q, hq, writes⟩ := lined.start h
  cases at_.symm.trans hq
  rw [reads] at writes
  cases writes

/-- A coroutine whose write has completed is not in the queue. -/
theorem not_mem_start (lined : Lined c) {p : StartPoint} {r : Completion} (at_ : c.start = .completed p r) :
    .start ∉ c.writeQueue := by
  intro h
  obtain ⟨q, hq, _⟩ := lined.start h
  cases at_.symm.trans hq

theorem not_mem_writer (lined : Lined c) {j : Nat} {p : WriterPoint} {r : Completion}
    (at_ : c.writers[j]? = some (.completed p r)) : .writer j ∉ c.writeQueue := by
  intro h
  obtain ⟨q, hq⟩ := lined.writer j h
  cases at_.symm.trans hq

end Lined

private theorem lined_writerLoop {c d : Conn} (lined : Lined c) {j : Nat} (free : .writer j ∉ c.writeQueue)
    (bound : j < c.writers.length) (start : d.start = c.start) (writers : d.writers = c.writers)
    (queue : d.writeQueue = c.writeQueue) : Lined (d.writerLoop j) := by
  rcases d.writerLoop_cases j with ⟨_, loop⟩ | ⟨front, rest, _, loop⟩
  · rw [loop]
    exact (lined.setWriter free .finished).congr start (congrArg (List.set · j _) writers) queue
  · rw [loop]
    exact lined.awaitWriter free bound start writers queue

private theorem lined_writerSpawned {c : Conn} {p : Pbuf} (lined : Lined c) :
    Lined ({ c with
      pbufQueue := c.pbufQueue ++ [p], remoteSending := true
      writers := c.writers ++ [Coroutine.finished] }.writerLoop c.writers.length) := by
  have fresh : .writer c.writers.length ∉ c.writeQueue := by
    intro h
    obtain ⟨q, hq⟩ := lined.writer _ h
    rw [List.getElem?_eq_none (Nat.le_refl _)] at hq
    cases hq
  have grown : Lined { c with writers := c.writers ++ [Coroutine.finished] } := by
    refine ⟨lined.nodup, lined.start, fun k h => ?_⟩
    obtain ⟨q, hq⟩ := lined.writer k h
    exact ⟨q, (List.getElem?_append_left (List.getElem?_eq_some_iff.mp hq).1).trans hq⟩
  exact lined_writerLoop grown fresh (by simp) rfl rfl rfl

theorem Callback.lined {seg : Segment} {c c' : Conn} {evs : List TcpEvent} (move : Callback seg c evs c')
    (lined : Lined c) : Lined c' := by
  cases move with
  | stopped => exact ⟨List.nodup_nil, fun h => absurd h List.not_mem_nil, fun _ h => absurd h List.not_mem_nil⟩
  | writerSpawned => exact lined_writerSpawned lined
  | _ => exact ⟨lined.nodup, lined.start, lined.writer⟩

private theorem not_writes {p : StartPoint} {window : Nat × Nat} (takes : p.window = some window) :
    p.writes = false := by
  cases p <;> first | rfl | cases takes

theorem SocketMove.lined {c c' : Conn} {a : TcpAct} {evs : List TcpEvent} (move : SocketMove c a evs c')
    (lined : Lined c) : Lined c' := by
  cases move with
  | startAccepts oldest | startWriteFails oldest => exact lined.dropStart oldest _
  | writerAccepts oldest | writerWriteFails oldest => exact lined.dropWriter oldest _
  | connected at_ | connectFailed at_ => exact lined.changeStart (lined.not_mem_reading at_ rfl) rfl rfl
  | startArrives _ at_ takes | startReadFails _ at_ takes =>
    exact lined.changeStart (lined.not_mem_reading at_ (not_writes takes)) rfl rfl
  | readerArrives | readerReadFails | transmits => exact lined.congr rfl rfl rfl

private theorem free_of_completed {α : Type} {t : Coroutine α} {p : α} {r : Completion} (at_ : t = .completed p r) :
    ∀ q, t ≠ .suspended q := by
  intro q h
  cases at_.symm.trans h

private theorem lined_drainLoop {c d : Conn} (lined : Lined c) (free : ∀ p, c.start ≠ .suspended p)
    (start : d.start = c.start) (writers : d.writers = c.writers) (queue : d.writeQueue = c.writeQueue) :
    Lined d.drainLoop.1 := by
  rcases d.drainLoop_cases with ⟨_, loop⟩ | ⟨front, rest, _, ⟨_, loop⟩ | ⟨_, loop⟩⟩
  · rw [loop]
    exact lined.awaitStart free start writers queue
  · rw [loop]
    exact lined.awaitStart free start writers queue
  · rw [loop]
    exact lined.congr start writers queue

theorem Resumes.lined {c c' : Conn} {room : Room} {id : CoroId} {evs : List TcpEvent}
    (move : Resumes c room id evs c') (lined : Lined c) : Lined c' := by
  have bound {j : Nat} {t : Coroutine WriterPoint} (at_ : c.writers[j]? = some t) : j < c.writers.length :=
    (List.getElem?_eq_some_iff.mp at_).1
  cases move with
  | startFailed at_ | rejected at_ | drainEnds at_ | downloadEnds at_ =>
    exact lined.changeStart (lined.not_mem_start at_) rfl rfl
  | connected at_ | greets at_ | requests at_ | drainWritesOn at_ =>
    exact lined.awaitStart (free_of_completed at_) rfl rfl rfl
  | relays at_ | drains at_ =>
    exact lined_drainLoop lined (free_of_completed at_) rfl rfl rfl
  | @parks n at_ =>
    obtain ⟨pcb, eq, _⟩ := c.writeLocal_eq n room
    rw [eq]
    exact lined.changeStart (lined.not_mem_start at_) rfl rfl
  | @downloads n at_ =>
    obtain ⟨pcb, eq, _⟩ := c.writeLocal_eq n room
    rw [eq]
    exact lined.awaitStart (free_of_completed at_) rfl rfl rfl
  | startDangles | writerDangles | readerDangles | readerFailed | readerEnds => exact lined.congr rfl rfl rfl
  | writerFailed at_ | writerEnds at_ =>
    exact (lined.setWriter (lined.not_mem_writer at_) .finished).congr rfl rfl rfl
  | writerWritesOn at_ | writerFollows at_ =>
    exact lined.awaitWriter (lined.not_mem_writer at_) (bound at_) rfl rfl rfl
  | writerPops at_ =>
    exact lined_writerLoop lined (lined.not_mem_writer at_) (bound at_) rfl rfl rfl
  | @readerParks j n | @readerReads j n =>
    obtain ⟨pcb, eq, _⟩ := c.writeLocal_eq n room
    rw [eq]
    exact lined.congr rfl rfl rfl

/-! ### Where the bytes of popped packets are -/

/-- The bytes of local packets a point of `Start` has still to send. -/
def StartPoint.left : StartPoint → List UInt8
  | .drainWrite front sent => front.payload.drop sent
  | _ => []

namespace Conn
variable {c d : Conn}

theorem left_of_start_absent (writers : d.writers = c.writers) {id : CoroId} (other : id ≠ .start) :
    d.left id = c.left id := by
  cases id with
  | start => exact absurd rfl other
  | writer j => simp only [left, writers]
  | reader j => rfl

theorem left_of_writer_absent {j : Nat} {t : Coroutine WriterPoint} (start : d.start = c.start)
    (writers : d.writers = c.writers.set j t) {id : CoroId} (other : id ≠ .writer j) : d.left id = c.left id := by
  cases id with
  | start => simp only [left, start]
  | writer k =>
    have distinct : j ≠ k := by
      rintro rfl
      exact other rfl
    simp only [left, writers, List.getElem?_set_ne distinct]
  | reader k => rfl

theorem pending_awaitStart (absent : .start ∉ d.writeQueue) (point : StartPoint) :
    (d.awaitStart point).pending = d.pending ++ point.left := by
  have kept : d.writeQueue.flatMap (d.awaitStart point).left = d.writeQueue.flatMap d.left :=
    List.flatMap_congr fun id h => left_of_start_absent (by rfl) fun eq => absent (eq ▸ h)
  have new : (if (point.offered d.remoteRecvBuff).getD [] = [] then [] else [CoroId.start]).flatMap
      (d.awaitStart point).left = point.left := by
    cases point with
    | drainWrite front sent =>
      by_cases nothing : ((StartPoint.drainWrite front sent).offered d.remoteRecvBuff).getD [] = []
      · rw [if_pos nothing]
        exact nothing.symm
      · have waits : (d.awaitStart (.drainWrite front sent)).start = .suspended (.drainWrite front sent) :=
          if_neg fun eq => nothing (by rw [eq]; rfl)
        rw [if_neg nothing, List.flatMap_singleton, left, waits]
        rfl
    | _ =>
      split
      · rfl
      · simp only [List.flatMap_singleton, left, awaitStart]
        split <;> rfl
  calc (d.awaitStart point).pending = d.writeQueue.flatMap (d.awaitStart point).left ++
        (if (point.offered d.remoteRecvBuff).getD [] = [] then [] else [CoroId.start]).flatMap
          (d.awaitStart point).left := List.flatMap_append
    _ = d.pending ++ point.left := by rw [kept, new, pending]

theorem resting_awaitStart (point : StartPoint) :
    (d.awaitStart point).resting = d.writers.flatMap writerRest := by
  have none_ : startRest (d.awaitStart point).start = [] := by
    simp only [awaitStart]
    split
    · next nothing =>
      cases point with
      | drainWrite front sent => simpa [startRest, StartPoint.offered] using nothing
      | _ => rfl
    · rfl
  rw [resting, none_, List.nil_append]
  rfl

theorem pending_awaitWriter {j : Nat} (absent : .writer j ∉ d.writeQueue) (bound : j < d.writers.length)
    (point : WriterPoint) : (d.awaitWriter j point).pending = d.pending ++ point.offered := by
  have kept : d.writeQueue.flatMap (d.awaitWriter j point).left = d.writeQueue.flatMap d.left :=
    List.flatMap_congr fun id h => left_of_writer_absent (by rfl) (by rfl) fun eq => absent (eq ▸ h)
  have new : (if point.offered = [] then [] else [CoroId.writer j]).flatMap (d.awaitWriter j point).left =
      point.offered := by
    by_cases nothing : point.offered = []
    · rw [if_pos nothing, nothing]
      rfl
    · rw [if_neg nothing]
      simp [left, awaitWriter, nothing, List.getElem?_set_self bound, writerLeft]
  calc (d.awaitWriter j point).pending = d.writeQueue.flatMap (d.awaitWriter j point).left ++
        (if point.offered = [] then [] else [CoroId.writer j]).flatMap (d.awaitWriter j point).left :=
        List.flatMap_append
    _ = d.pending ++ point.offered := by rw [kept, new, pending]

theorem writerRest_await (point : WriterPoint) :
    writerRest (if point.offered = [] then .completed point (.ok 0) else .suspended point) = [] := by
  split
  · next nothing => exact nothing
  · rfl

/-- A write that has just begun holds nothing back. -/
theorem writerRest_awaitWriter {j : Nat} {t : Coroutine WriterPoint} {p : WriterPoint} (solo : Solo d.writing)
    (at_ : d.writers[j]? = some t) (live : t.point? = some p) (point : WriterPoint) :
    (d.awaitWriter j point).writers.flatMap writerRest = [] :=
  (solo.flatMap_set at_ live _ rfl).trans (writerRest_await point)

end Conn

end Tunosocks.Tcp
