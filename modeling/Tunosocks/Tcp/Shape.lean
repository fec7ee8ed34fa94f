import Tunosocks.Tcp.Status

/-! Which coroutines of a session exist together. During the handshake there is only the
one of `Start`, there is never more than one writer or more than one reader, and the
flags say whether there is one. -/
namespace Tunosocks.Tcp
open Foundation Coroutine

/-- Whether a point belongs to the handshake. -/
def StartPoint.greets : StartPoint → Bool
  | .drainWrite .. | .downloadRead => false
  | _ => true

namespace Conn

/-- The coroutine of `Start` is in the handshake. -/
def Greeting (c : Conn) : Prop := ∃ p, c.start.point? = some p ∧ p.greets = true

/-- The points of the writers, none for those that have returned. -/
def writing (c : Conn) : List (Option WriterPoint) := c.writers.map point?

def reading (c : Conn) : List (Option Unit) := c.readers.map point?

end Conn

structure Shape (c : Conn) : Prop where
  simple : ∀ p ∈ c.pbufQueue, p.len = p.totLen
  active : ∀ p, c.start.point? = some p → c.reading = [] ∧ c.shouldReadFromRemote = true
  greeting : c.Greeting → c.writing = [] ∧ c.remoteSending = false ∧ c.status ≠ .relaying
  opening : c.status = .init ∨ c.status = .handshaking → c.Greeting
  ended : c.start.point? = none → c.status = .close
  unwritten : ∀ p, c.start.point? = some p → p ≠ .downloadRead → c.pcb.writes = []
  writers : Solo c.writing
  idle : c.remoteSending = false → AllGone c.writing
  sending : c.remoteSending = true → c.status ≠ .close → ¬ AllGone c.writing
  readers : Solo c.reading
  parked : c.shouldReadFromRemote = false → AllGone c.reading

/-- While the coroutine of `Start` is there, nobody else reads. -/
theorem Shape.readers_of_start {c : Conn} (shape : Shape c) {p : StartPoint} (at_ : c.start.point? = some p) :
    c.readers = [] :=
  List.map_eq_nil_iff.mp (shape.active p at_).1

/-- A reader exists only when the coroutine of `Start` has returned. -/
theorem Shape.start_of_reader {c : Conn} (shape : Shape c) {j : Nat} {t : Coroutine Unit}
    (at_ : c.readers[j]? = some t) : c.start.point? = none := by
  cases h : c.start.point? with
  | none => rfl
  | some p =>
    rw [shape.readers_of_start h] at at_
    cases at_

theorem Shape.closed_of_reader {c : Conn} (shape : Shape c) {j : Nat} {t : Coroutine Unit}
    (at_ : c.readers[j]? = some t) : c.status = .close :=
  shape.ended (shape.start_of_reader at_)

/-- There is no writer during the handshake. -/
theorem Shape.writers_of_greeting {c : Conn} (shape : Shape c) (greeting : c.Greeting) : c.writers = [] :=
  List.map_eq_nil_iff.mp (shape.greeting greeting).1

/-- The shape depends on the points of the coroutines only. -/
theorem Shape.congr {c c' : Conn} (shape : Shape c) (start : c'.start.point? = c.start.point?)
    (writing : c'.writing = c.writing) (reading : c'.reading = c.reading)
    (should : c'.shouldReadFromRemote = c.shouldReadFromRemote) (sending : c'.remoteSending = c.remoteSending)
    (status : c'.status = c.status ∨ c'.status = .close) (writes : c'.pcb.writes = c.pcb.writes)
    (simple : ∀ p ∈ c'.pbufQueue, p.len = p.totLen) : Shape c' := by
  have same : c'.Greeting ↔ c.Greeting := by rw [Conn.Greeting, Conn.Greeting, start]
  have kept : ∀ s, s ≠ .close → c'.status = s → c.status = s := by
    intro s hs h
    rcases status with eq | eq
    · exact eq ▸ h
    · exact absurd (h.symm.trans eq) hs
  constructor
  · exact simple
  · rw [start, reading, should]
    exact shape.active
  · rw [same, writing, sending]
    intro greets
    obtain ⟨h, h', h''⟩ := shape.greeting greets
    exact ⟨h, h', fun relaying => h'' (kept _ (by simp) relaying)⟩
  · rw [same]
    rintro (h | h)
    · exact shape.opening (Or.inl (kept _ (by simp) h))
    · exact shape.opening (Or.inr (kept _ (by simp) h))
  · rw [start]
    exact fun gone => status.elim (fun eq => eq.trans (shape.ended gone)) id
  · rw [start, writes]
    exact shape.unwritten
  · rw [writing]
    exact shape.writers
  · rw [sending, writing]
    exact shape.idle
  · rw [sending, writing]
    intro on opened
    exact shape.sending on fun closed => opened (status.elim (fun eq => eq.trans closed) id)
  · rw [reading]
    exact shape.readers
  · rw [should, reading]
    exact shape.parked

namespace Conn
variable (c : Conn)

@[simp] theorem point?_awaitStart (p : StartPoint) : (c.awaitStart p).start.point? = some p := by
  simp only [awaitStart]
  split <;> rfl

variable {c} in
theorem suspended_awaitStart {p q : StartPoint} (h : (c.awaitStart p).start = .suspended q) : q = p := by
  simp only [awaitStart] at h
  split at h <;> cases h
  rfl

variable {c} in
/-- An operation that is over as soon as it begins is the write of nothing. -/
theorem completed_awaitStart {p q : StartPoint} {r : Completion} (h : (c.awaitStart p).start = .completed q r) :
    q = p ∧ r = .ok 0 ∧ p.offered c.remoteRecvBuff = some [] := by
  simp only [awaitStart] at h
  split at h
  · next offered =>
    cases h
    exact ⟨rfl, rfl, offered⟩
  · cases h

theorem greeting_awaitStart (p : StartPoint) : (c.awaitStart p).Greeting ↔ p.greets = true := by
  simp [Greeting]

@[simp] theorem writing_awaitWriter (j : Nat) (point : WriterPoint) :
    (c.awaitWriter j point).writing = c.writing.set j (some point) := by
  simp only [writing, awaitWriter, List.map_set]
  split <;> rfl

@[simp] theorem reading_awaitReader (j : Nat) : (c.awaitReader j).reading = c.reading.set j (some ()) := by
  simp only [reading, awaitReader, List.map_set]
  rfl

end Conn

/-- What a block refers to in the buffer. -/
def Pcb.lent (pcb : Pcb) : List Nat × List (Nat × Nat) := (pcb.writes, pcb.strays)

theorem LwipChange.lent {seg : Segment} {pcb pcb' : Pcb} {evs : List TcpEvent}
    (change : LwipChange seg pcb evs pcb') : pcb'.lent = pcb.lent := by
  cases change with
  | processed =>
    simp only [Pcb.tcpProcess]
    split <;> (repeat' split) <;> rfl
  | closed =>
    simp only [Pcb.tcpClose]
    split <;> (repeat' split) <;> rfl
  | finCounted | freed | aborted => rfl

theorem LwipChange.writes {seg : Segment} {pcb pcb' : Pcb} {evs : List TcpEvent}
    (change : LwipChange seg pcb evs pcb') : pcb'.writes = pcb.writes := congrArg Prod.fst change.lent

theorem SocketMove.point? {c c' : Conn} {a : TcpAct} {evs : List TcpEvent} (move : SocketMove c a evs c') :
    c'.start.point? = c.start.point? := by
  cases move with
  | connected at_ | connectFailed at_ | startAccepts _ at_ | startWriteFails _ at_ | startArrives _ at_
  | startReadFails _ at_ =>
    rw [at_]
    rfl
  | _ => rfl

theorem SocketMove.shape {c c' : Conn} {a : TcpAct} {evs : List TcpEvent} (move : SocketMove c a evs c')
    (shape : Shape c) : Shape c' := by
  have same := move.point?
  cases move with
  | connected | connectFailed | startAccepts | startWriteFails | startArrives | startReadFails =>
    exact shape.congr same rfl rfl rfl rfl (Or.inl rfl) rfl shape.simple
  | writerAccepts _ at_ | writerWriteFails _ at_ =>
    exact shape.congr rfl (map_point?_set at_ _ rfl) rfl rfl rfl (Or.inl rfl) rfl shape.simple
  | readerArrives _ at_ | readerReadFails _ at_ =>
    exact shape.congr rfl rfl (map_point?_set at_ _ rfl) rfl rfl (Or.inl rfl) rfl shape.simple
  | transmits => exact shape.congr rfl rfl rfl rfl rfl (Or.inl rfl) rfl shape.simple

private theorem not_allGone_set {α : Type} {l : List (Option α)} {j : Nat} {o : Option α} (hj : l[j]? = some o)
    (a : α) : ¬ AllGone (l.set j (some a)) := by
  intro gone
  have bound := (List.getElem?_eq_some_iff.mp hj).1
  exact gone j a (List.getElem?_set_self bound)

private theorem writer_shape {c : Conn} {p : Pbuf} (shape : Shape c) (simple : p.len = p.totLen)
    (relaying : c.status = .relaying) (idle : c.remoteSending = false) :
    Shape ({ c with
      pbufQueue := c.pbufQueue ++ [p], remoteSending := true
      writers := c.writers ++ [Coroutine.finished] }.writerLoop c.writers.length) := by
  have queue : ∀ q ∈ c.pbufQueue ++ [p], q.len = q.totLen := by
    intro q hq
    rcases List.mem_append.mp hq with old | new
    · exact shape.simple q old
    · rw [List.mem_singleton.mp new]
      exact simple
  have off : ¬ c.Greeting := fun greets => (shape.greeting greets).2.2 relaying
  rcases Conn.writerLoop_cases { c with
      pbufQueue := c.pbufQueue ++ [p], remoteSending := true
      writers := c.writers ++ [Coroutine.finished] } c.writers.length with ⟨empty, _⟩ | ⟨front, rest, popped, loop⟩
  · simp at empty
  · rw [loop]
    have extended : (c.writing ++ [none]).set c.writers.length (some ⟨front, front.payload, front.next, 0⟩) =
        c.writing ++ [some ⟨front, front.payload, front.next, 0⟩] := by
      rw [List.set_append_right _ _ (by simp [Conn.writing])]
      simp [Conn.writing]
    have writing : (Conn.awaitWriter { c with
        pbufQueue := rest, remoteSending := true
        writers := c.writers ++ [Coroutine.finished] } c.writers.length ⟨front, front.payload, front.next, 0⟩).writing =
          c.writing ++ [some ⟨front, front.payload, front.next, 0⟩] := by
      rw [Conn.writing_awaitWriter, ← extended]
      simp [Conn.writing, point?]
    constructor
    · intro q hq
      refine queue q ?_
      change c.pbufQueue ++ [p] = front :: rest at popped
      rw [popped]
      exact List.mem_cons_of_mem _ hq
    · exact shape.active
    · exact fun greets => absurd greets off
    · rintro (h | h) <;> cases relaying.symm.trans h
    · exact shape.ended
    · exact shape.unwritten
    · rw [writing]
      exact (shape.idle idle).concat _
    · intro h
      cases h
    · intro _ _ gone
      rw [writing] at gone
      exact gone c.writing.length _ List.getElem?_concat_length
    · exact shape.readers
    · exact shape.parked

private theorem reader_shape {c : Conn} (shape : Shape c) (parked : c.shouldReadFromRemote = false) :
    Shape ({ c with
      shouldReadFromRemote := true, readers := c.readers ++ [Coroutine.finished] }.awaitReader c.readers.length) := by
  have ended : ∀ p, c.start.point? ≠ some p := by
    intro p at_
    rw [(shape.active p at_).2] at parked
    cases parked
  have reading : (Conn.awaitReader { c with
      shouldReadFromRemote := true, readers := c.readers ++ [Coroutine.finished] } c.readers.length).reading =
        c.reading ++ [some ()] := by
    rw [Conn.reading_awaitReader]
    simp only [Conn.reading, List.map_append, List.map_cons, List.map_nil, point?]
    rw [List.set_append_right _ _ (by simp)]
    simp
  constructor
  · exact shape.simple
  · exact fun p at_ => absurd at_ (ended p)
  · rintro ⟨p, at_, _⟩
    exact absurd at_ (ended p)
  · exact shape.opening
  · exact shape.ended
  · exact fun p at_ => absurd at_ (ended p)
  · exact shape.writers
  · exact shape.idle
  · exact shape.sending
  · rw [reading]
    exact (shape.parked parked).concat _
  · intro h
    cases h

theorem Callback.shape {seg : Segment} {c c' : Conn} {evs : List TcpEvent} (move : Callback seg c evs c')
    (shape : Shape c) : Shape c' := by
  cases move with
  | lwip change => exact shape.congr rfl rfl rfl rfl rfl (Or.inl rfl) change.writes shape.simple
  | stoppedAgain | refused => exact shape
  | stopped =>
    exact shape.congr (point?_cancel _) (map_point?_cancel _) (map_point?_cancel _) rfl rfl (Or.inr rfl) rfl
      shape.simple
  | stopDangles | crashed | erased => exact shape.congr rfl rfl rfl rfl rfl (Or.inl rfl) rfl shape.simple
  | @queued p _ simple =>
    refine shape.congr rfl rfl rfl rfl rfl (Or.inl rfl) rfl ?_
    intro q hq
    rcases List.mem_append.mp hq with old | new
    · exact shape.simple q old
    · rw [List.mem_singleton.mp new]
      exact simple
  | writerSpawned _ simple _ relaying idle => exact writer_shape shape simple relaying idle
  | readerSpawned parked => exact reader_shape shape parked

/-- The coroutine of `Start` moves on: while it is there, no reader is. -/
private theorem Shape.of_start {c c' : Conn} (shape : Shape c) {p : StartPoint} (at_ : c.start.point? = some p)
    (writing : c'.writing = c.writing) (reading : c'.reading = c.reading)
    (sending : c'.remoteSending = c.remoteSending) (simple : ∀ q ∈ c'.pbufQueue, q.len = q.totLen)
    (active : ∀ p', c'.start.point? = some p' → c'.shouldReadFromRemote = true)
    (greeting : c'.Greeting → c.Greeting ∧ c'.status ≠ .relaying)
    (opening : c'.status = .init ∨ c'.status = .handshaking → c'.Greeting)
    (ended : c'.start.point? = none → c'.status = .close)
    (unwritten : ∀ p', c'.start.point? = some p' → p' ≠ .downloadRead → c'.pcb.writes = [])
    (closed : c.status = .close → c'.status = .close ∨ c.Greeting) : Shape c' := by
  have none_ : c.reading = [] := (shape.active p at_).1
  constructor
  · exact simple
  · exact fun p' h => ⟨reading.trans none_, active p' h⟩
  · intro greets
    obtain ⟨before, after⟩ := greeting greets
    rw [writing, sending]
    exact ⟨(shape.greeting before).1, (shape.greeting before).2.1, after⟩
  · exact opening
  · exact ended
  · exact unwritten
  · rw [writing]
    exact shape.writers
  · rw [sending, writing]
    exact shape.idle
  · rw [sending, writing]
    intro on opened
    refine shape.sending on fun h => ?_
    rcases closed h with h' | greets
    · exact opened h'
    · rw [(shape.greeting greets).2.1] at on
      cases on
  · rw [reading]
    exact shape.readers
  · intro _
    rw [reading, none_]
    exact AllGone.nil

/-- The one writer moves on or returns. -/
private theorem Shape.of_writer {c c' : Conn} (shape : Shape c) {j : Nat} {point : WriterPoint}
    {o : Option WriterPoint} (at_ : c.writing[j]? = some (some point)) (writing : c'.writing = c.writing.set j o)
    (start : c'.start = c.start) (reading : c'.reading = c.reading)
    (should : c'.shouldReadFromRemote = c.shouldReadFromRemote) (writes : c'.pcb.writes = c.pcb.writes)
    (simple : ∀ q ∈ c'.pbufQueue, q.len = q.totLen) (status : c'.status = c.status ∨ c'.status = .close)
    (off : c'.remoteSending = false → o = none)
    (on : c'.remoteSending = true → c'.status ≠ .close → o ≠ none) : Shape c' := by
  have past : ¬ c.Greeting := by
    intro greets
    rw [(shape.greeting greets).1] at at_
    cases at_
  have past' : ¬ c'.Greeting := by rwa [Conn.Greeting, start]
  constructor
  · exact simple
  · rw [start, reading, should]
    exact shape.active
  · exact fun greets => absurd greets past'
  · intro h
    rcases status with eq | eq
    · rw [eq] at h
      exact absurd (shape.opening h) past
    · rw [eq] at h
      rcases h with h | h <;> cases h
  · rw [start]
    exact fun gone => status.elim (fun eq => eq.trans (shape.ended gone)) id
  · rw [start, writes]
    exact shape.unwritten
  · rw [writing]
    exact shape.writers.set at_ o
  · intro h
    rw [writing, off h]
    exact shape.writers.finish at_
  · intro h opened
    rw [writing]
    obtain ⟨point', rfl⟩ := Option.ne_none_iff_exists'.mp (on h opened)
    exact not_allGone_set at_ point'
  · rw [reading]
    exact shape.readers
  · rw [should, reading]
    exact shape.parked

/-- The one reader moves on or returns. -/
private theorem Shape.of_reader {c c' : Conn} (shape : Shape c) {j : Nat} {o : Option Unit}
    (at_ : c.reading[j]? = some (some ())) (reading : c'.reading = c.reading.set j o) (start : c'.start = c.start)
    (writing : c'.writing = c.writing) (sending : c'.remoteSending = c.remoteSending)
    (queue : c'.pbufQueue = c.pbufQueue) (status : c'.status = c.status)
    (off : c'.shouldReadFromRemote = false → o = none) : Shape c' := by
  have ended : ∀ p, c'.start.point? ≠ some p := by
    intro p h
    rw [start] at h
    rw [(shape.active p h).1] at at_
    cases at_
  have ended' : c.start.point? = c'.start.point? := by rw [start]
  constructor
  · rw [queue]
    exact shape.simple
  · exact fun p h => absurd h (ended p)
  · rintro ⟨p, h, _⟩
    exact absurd h (ended p)
  · rw [status]
    intro h
    obtain ⟨p, h, _⟩ := shape.opening h
    exact absurd (ended' ▸ h) (ended p)
  · rw [start, status]
    exact shape.ended
  · exact fun p h => absurd h (ended p)
  · rw [writing]
    exact shape.writers
  · rw [sending, writing]
    exact shape.idle
  · rw [sending, writing, status]
    exact shape.sending
  · rw [reading]
    exact shape.readers.set at_ o
  · intro h
    rw [reading, off h]
    exact shape.readers.finish at_

private theorem Shape.of_ended {c c' : Conn} (shape : Shape c) {p : StartPoint} (at_ : c.start.point? = some p)
    (writing : c'.writing = c.writing) (reading : c'.reading = c.reading)
    (sending : c'.remoteSending = c.remoteSending) (queue : c'.pbufQueue = c.pbufQueue) (start : c'.start = .finished)
    (status : c'.status = .close) : Shape c' := by
  have ended : ∀ p', c'.start.point? ≠ some p' := by
    intro p' h
    rw [start] at h
    cases h
  refine shape.of_start at_ writing reading sending (queue ▸ shape.simple) (fun p' h => absurd h (ended p')) ?_ ?_
    (fun _ => status) (fun p' h => absurd h (ended p')) (fun _ => Or.inl status)
  · rintro ⟨p', h, _⟩
    exact absurd h (ended p')
  · rw [status]
    rintro (h | h) <;> cases h

/-- The handshake goes on. -/
private theorem Shape.of_greeting {c c' : Conn} (shape : Shape c) {p p' : StartPoint} (at_ : c.start.point? = some p)
    (greets : p.greets = true) (next : c'.start.point? = some p') (greets' : p'.greets = true)
    (writing : c'.writing = c.writing) (reading : c'.reading = c.reading)
    (should : c'.shouldReadFromRemote = c.shouldReadFromRemote) (sending : c'.remoteSending = c.remoteSending)
    (queue : c'.pbufQueue = c.pbufQueue) (pcb : c'.pcb = c.pcb)
    (status : c'.status = c.status ∨ c'.status = .handshaking) : Shape c' := by
  have before : c.Greeting := ⟨p, at_, greets⟩
  refine shape.of_start at_ writing reading sending (queue ▸ shape.simple) (fun _ _ => ?_) (fun _ => ⟨before, ?_⟩)
    (fun _ => ⟨p', next, greets'⟩) (fun gone => nomatch next.symm.trans gone) (fun _ _ _ => ?_)
    (fun _ => Or.inr before)
  · exact should.trans (shape.active p at_).2
  · rcases status with eq | eq
    · exact eq ▸ (shape.greeting before).2.2
    · simp [eq]
  · rw [pcb]
    refine shape.unwritten p at_ ?_
    rintro rfl
    cases greets

/-- The relay goes on. -/
private theorem Shape.of_relay {c c' : Conn} (shape : Shape c) {p p' : StartPoint} (at_ : c.start.point? = some p)
    (next : c'.start.point? = some p') (relays : p'.greets = false)
    (writing : c'.writing = c.writing) (reading : c'.reading = c.reading)
    (should : c'.shouldReadFromRemote = c.shouldReadFromRemote) (sending : c'.remoteSending = c.remoteSending)
    (simple : ∀ q ∈ c'.pbufQueue, q.len = q.totLen) (unwritten : p' ≠ .downloadRead → c'.pcb.writes = [])
    (status : c'.status = .relaying ∧ p.greets = true ∨ c'.status = c.status ∧ p.greets = false) : Shape c' := by
  have past : ¬ c'.Greeting := by
    rintro ⟨q, h, greets⟩
    cases next.symm.trans h
    rw [relays] at greets
    cases greets
  refine shape.of_start at_ writing reading sending simple (fun _ _ => should.trans (shape.active p at_).2)
    (fun h => absurd h past) ?_ (fun gone => nomatch next.symm.trans gone) ?_ ?_
  · intro h
    rcases status with ⟨eq, _⟩ | ⟨eq, off⟩
    · rw [eq] at h
      rcases h with h | h <;> cases h
    · rw [eq] at h
      obtain ⟨q, hq, greets⟩ := shape.opening h
      cases at_.symm.trans hq
      rw [off] at greets
      cases greets
  · intro q h
    cases next.symm.trans h
    exact unwritten
  · intro h
    rcases status with ⟨_, greets⟩ | ⟨eq, _⟩
    · exact Or.inr ⟨p, at_, greets⟩
    · exact Or.inl (eq.trans h)

private theorem drainLoop_shape {c : Conn} (shape : Shape c) {p : StartPoint} (at_ : c.start.point? = some p)
    (early : p ≠ .downloadRead) (status : Status) (pcb : Pcb) (writes : pcb.writes = c.pcb.writes)
    (opened : status = .relaying ∧ p.greets = true ∨ status = c.status ∧ p.greets = false) :
    Shape ({ c with status, pcb }.drainLoop).1 := by
  have unwritten : pcb.writes = [] := writes.trans (shape.unwritten p at_ early)
  rcases Conn.drainLoop_cases { c with status, pcb } with ⟨_, loop⟩ | ⟨front, rest, popped, ⟨_, loop⟩ | ⟨chained, _⟩⟩
  · rw [loop]
    exact shape.of_relay at_ (Conn.point?_awaitStart _ _) rfl rfl rfl rfl rfl shape.simple (fun h => absurd rfl h)
      opened
  · rw [loop]
    change c.pbufQueue = front :: rest at popped
    refine shape.of_relay at_ (Conn.point?_awaitStart _ _) rfl rfl rfl rfl rfl ?_ (fun _ => unwritten) opened
    intro q hq
    exact shape.simple q (popped ▸ List.mem_cons_of_mem _ hq)
  · change c.pbufQueue = front :: rest at popped
    exact absurd (shape.simple front (popped ▸ List.mem_cons_self)) chained

theorem Greets.greets {p p' : StartPoint} {n : Nat} (h : Greets p n p') : p.greets = true ∧ p'.greets = true := by
  cases h <;> exact ⟨rfl, rfl⟩

private theorem writerLoop_shape {c : Conn} (shape : Shape c) {j : Nat} {point : WriterPoint}
    (at_ : c.writing[j]? = some (some point)) (pcb : Pcb) (writes : pcb.writes = c.pcb.writes) :
    Shape ({ c with pcb }.writerLoop j) := by
  rcases Conn.writerLoop_cases { c with pcb } j with ⟨_, loop⟩ | ⟨front, rest, popped, loop⟩
  · rw [loop]
    refine shape.of_writer (o := none) at_ ?_ rfl rfl rfl writes shape.simple (Or.inl rfl) (fun _ => rfl)
      (fun h => nomatch h)
    simp [Conn.writing, point?]
  · rw [loop]
    change c.pbufQueue = front :: rest at popped
    refine shape.of_writer at_ (Conn.writing_awaitWriter _ _ _) rfl rfl rfl writes ?_ (Or.inl rfl) ?_
      (fun _ _ => Option.some_ne_none _)
    · intro q hq
      exact shape.simple q (popped ▸ List.mem_cons_of_mem _ hq)
    · intro h
      exact absurd at_ (shape.idle h j point)

theorem Resumes.shape {c c' : Conn} {room : Room} {id : CoroId} {evs : List TcpEvent}
    (move : Resumes c room id evs c') (shape : Shape c) : Shape c' := by
  have on {j : Nat} {point : WriterPoint} (at_ : c.writing[j]? = some (some point)) : c.remoteSending ≠ false :=
    fun h => shape.idle h j point at_
  have reads {j : Nat} (at_ : c.reading[j]? = some (some ())) : c.shouldReadFromRemote ≠ false :=
    fun h => shape.parked h j () at_
  cases move with
  | startFailed at_ | rejected at_ | drainEnds at_ | downloadEnds at_ =>
    exact shape.of_ended (point?_of_completed at_) rfl rfl rfl rfl rfl rfl
  | connected at_ =>
    exact shape.of_greeting (point?_of_completed at_) rfl (Conn.point?_awaitStart _ _) rfl rfl rfl rfl rfl rfl rfl
      (Or.inr rfl)
  | greets at_ next =>
    exact shape.of_greeting (point?_of_completed at_) next.greets.1 (Conn.point?_awaitStart _ _) next.greets.2 rfl
      rfl rfl rfl rfl
      rfl (Or.inl rfl)
  | requests at_ =>
    exact shape.of_greeting (point?_of_completed at_) rfl (Conn.point?_awaitStart _ _) rfl rfl rfl rfl rfl rfl rfl
      (Or.inl rfl)
  | relays at_ =>
    exact drainLoop_shape shape (point?_of_completed at_) (by simp) .relaying c.pcb rfl (Or.inl ⟨rfl, rfl⟩)
  | drainWritesOn at_ =>
    exact shape.of_relay (point?_of_completed at_) (Conn.point?_awaitStart _ _) rfl rfl rfl rfl rfl shape.simple
      (fun _ => shape.unwritten _ (point?_of_completed at_) (by simp)) (Or.inr ⟨rfl, rfl⟩)
  | drains at_ => exact drainLoop_shape shape (point?_of_completed at_) (by simp) c.status _ rfl (Or.inr ⟨rfl, rfl⟩)
  | @parks n at_ =>
    obtain ⟨pcb, eq, _⟩ := c.writeLocal_eq n room
    rw [eq]
    exact shape.of_ended (point?_of_completed at_) rfl rfl rfl rfl rfl rfl
  | @downloads n at_ =>
    obtain ⟨pcb, eq, _⟩ := c.writeLocal_eq n room
    rw [eq]
    exact shape.of_relay (point?_of_completed at_) (Conn.point?_awaitStart _ _) rfl rfl rfl rfl rfl shape.simple
      (fun h => absurd rfl h) (Or.inr ⟨rfl, rfl⟩)
  | startDangles | writerDangles | readerDangles =>
    exact shape.congr rfl rfl rfl rfl rfl (Or.inl rfl) rfl shape.simple
  | writerFailed at_ =>
    refine shape.of_writer (o := none) (points_of_completed at_) ?_ rfl rfl rfl rfl shape.simple (Or.inr rfl)
      (fun h => absurd h (on (points_of_completed at_))) (fun _ h => absurd rfl h)
    simp [Conn.writing, point?]
  | writerWritesOn at_ =>
    exact shape.of_writer (points_of_completed at_) (Conn.writing_awaitWriter _ _ _) rfl rfl rfl rfl shape.simple
      (Or.inl rfl) (fun h => absurd h (on (points_of_completed at_))) (fun _ _ => Option.some_ne_none _)
  | writerEnds at_ _ closed =>
    refine shape.of_writer (o := none) (points_of_completed at_) ?_ rfl rfl rfl rfl shape.simple (Or.inl rfl)
      (fun _ => rfl) (fun _ h => absurd closed h)
    simp [Conn.writing, point?]
  | writerFollows at_ =>
    exact shape.of_writer (points_of_completed at_) (Conn.writing_awaitWriter _ _ _) rfl rfl rfl rfl shape.simple
      (Or.inl rfl) (fun h => absurd h (on (points_of_completed at_))) (fun _ _ => Option.some_ne_none _)
  | writerPops at_ => exact writerLoop_shape shape (points_of_completed at_) _ rfl
  | readerFailed at_ | readerEnds at_ =>
    refine shape.of_reader (o := none) (points_of_completed at_) ?_ rfl rfl rfl rfl rfl (fun _ => rfl)
    simp [Conn.reading, point?]
  | @readerParks j n at_ =>
    obtain ⟨pcb, eq, _⟩ := c.writeLocal_eq n room
    rw [eq]
    refine shape.of_reader (o := none) (points_of_completed at_) ?_ rfl rfl rfl rfl rfl (fun _ => rfl)
    simp [Conn.reading, point?]
  | @readerReads j n at_ =>
    obtain ⟨pcb, eq, _⟩ := c.writeLocal_eq n room
    rw [eq]
    exact shape.of_reader (points_of_completed at_) (Conn.reading_awaitReader _ _) rfl rfl rfl rfl rfl
      (fun h => absurd h (reads (points_of_completed at_)))

theorem shape_reap {c : Conn} (shape : Shape c) : Shape c.reap.1 := by
  unfold Conn.reap
  split
  · exact shape.congr rfl rfl rfl rfl rfl (Or.inl rfl) rfl fun p hp => nomatch hp
  · exact shape

theorem TcpStep.shape {c c' : Conn} {a : TcpAct} {evs : List TcpEvent} (step : TcpStep c a evs c') (shape : Shape c) :
    Shape c' := by
  cases step with
  | input chain | reset chain => exact chain.keeps Shape (fun _ _ _ shape move => move.shape shape) shape
  | socket move => exact move.shape shape
  | resumed move => exact move.shape shape

theorem shape_init {c : Conn} (h : connMachine.Init c) : Shape c := by
  obtain ⟨localIp, localPort, buff, opened, _, _, rfl⟩ := h
  constructor
  · exact fun p hp => nomatch hp
  · exact fun _ _ => ⟨rfl, rfl⟩
  · intro _
    refine ⟨rfl, rfl, ?_⟩
    cases opened <;> simp [Conn.listenerAcceptFunc]
  · intro h
    cases opened
    · rcases h with h | h <;> cases h
    · exact ⟨.connect, rfl, rfl⟩
  · intro gone
    cases opened
    · rfl
    · cases gone
  · exact fun _ _ _ => rfl
  · exact AllGone.nil.solo
  · exact fun _ => AllGone.nil
  · exact fun h => nomatch h
  · exact AllGone.nil.solo
  · exact fun _ => AllGone.nil

theorem shape_step {c c' : Conn} {a : TcpAct} {out : List TcpEvent} (shape : Shape c)
    (h : connMachine.step c a = some (c', out)) : Shape c' := by
  obtain ⟨_, mid, evs, step, rfl, rfl⟩ := tcpStep_of_step h
  exact shape_reap (step.shape shape)

theorem shape_run {ts : List (Transition Conn TcpAct TcpEvent)} {c : Conn} (run : connMachine.Run ts c) : Shape c :=
  run.invariant Shape (fun _ => shape_init) fun _ _ _ _ => shape_step

/-- What every move preserves in a state of the right shape holds in every run. -/
theorem invariant_of_moves {ts : List (Transition Conn TcpAct TcpEvent)} {c : Conn} (run : connMachine.Run ts c)
    (I : Conn → Prop) (initial : ∀ c, connMachine.Init c → I c)
    (callback : ∀ {seg c evs c'}, Callback seg c evs c' → Shape c → I c → I c')
    (socket : ∀ {c a evs c'}, SocketMove c a evs c' → Shape c → I c → I c')
    (resumes : ∀ {c room id evs c'}, Resumes c room id evs c' → Shape c → I c → I c')
    (reaped : ∀ c, I c → I c.reap.1) : I c := by
  refine (run.invariant (fun c => Shape c ∧ I c) (fun c h => ⟨shape_init h, initial c h⟩) ?_).2
  rintro c a c' out ⟨shape, before⟩ h
  obtain ⟨_, mid, evs, step, rfl, rfl⟩ := tcpStep_of_step h
  refine ⟨shape_reap (step.shape shape), reaped mid ?_⟩
  cases step with
  | input chain | reset chain =>
    exact (chain.keeps (fun c => Shape c ∧ I c)
      (fun _ _ _ before move => ⟨move.shape before.1, callback move before.1 before.2⟩) ⟨shape, before⟩).2
  | socket move => exact socket move shape before
  | resumed move => exact resumes move shape before

/-- The same for what is said of the events as well, from one state on. -/
theorem preserved_by_moves {as : List TcpAct} {ts : List (Transition Conn TcpAct TcpEvent)} {first last : Conn}
    (ran : connMachine.exec first as = some (ts, last)) (I : List TcpEvent → Conn → Prop) (shaped : Shape first)
    (initial : I [] first)
    (callback : ∀ {seg tr c evs c'}, Callback seg c evs c' → Shape c → I tr c → I (tr ++ evs) c')
    (socket : ∀ {tr c a evs c'}, SocketMove c a evs c' → Shape c → I tr c → I (tr ++ evs) c')
    (resumes : ∀ {tr c room id evs c'}, Resumes c room id evs c' → Shape c → I tr c → I (tr ++ evs) c')
    (reaped : ∀ tr c, I tr c → I (tr ++ c.reap.2) c.reap.1) : I (Machine.trace ts) last := by
  refine (Machine.exec_preserves ran (fun tr c => Shape c ∧ I tr c) ⟨shaped, initial⟩ ?_).2
  rintro tr c a c' out ⟨shape, before⟩ h
  obtain ⟨_, mid, evs, step, rfl, rfl⟩ := tcpStep_of_step h
  rw [← List.append_assoc]
  refine ⟨shape_reap (step.shape shape), reaped _ mid ?_⟩
  cases step with
  | input chain | reset chain =>
    exact (chain.preserves (fun tr c => Shape c ∧ I tr c)
      (fun _ _ _ _ before move => ⟨move.shape before.1, callback move before.1 before.2⟩) tr ⟨shape, before⟩).2
  | socket move => exact socket move shape before
  | resumed move => exact resumes move shape before

end Tunosocks.Tcp
