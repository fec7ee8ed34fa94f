import Tunosocks.Tcp.Mapped

/-! The reads of the remote socket into `remote_recv_buff_`, which the handshake and both
download loops share: there is never more than one, and a download that stops for want of
send buffer is taken up again. -/
namespace Tunosocks.Tcp
open Foundation Coroutine

/-- A coroutine has a read outstanding. -/
def Conn.Reads (c : Conn) : CoroId → Prop
  | .start => ∃ point, c.start = .suspended point ∧ point.window ≠ none
  | .writer _ => False
  | .reader j => c.readers[j]? = some (.suspended ())

/-- The socket's read queue holds the one outstanding read, if there is one. -/
structure OneRead (c : Conn) : Prop where
  queued : ∀ id, id ∈ c.readQueue ↔ c.Reads id
  few : c.readQueue.length ≤ 1

section Moves
variable {c c' d : Conn} {evs : List TcpEvent}

private theorem OneRead.congr (one : OneRead c) (start : c'.start = c.start) (readers : c'.readers = c.readers)
    (queue : c'.readQueue = c.readQueue) : OneRead c' := by
  constructor
  · intro id
    rw [queue, one.queued id]
    cases id <;> simp only [Conn.Reads, start, readers]
  · rw [queue]
    exact one.few

private theorem OneRead.idle (none_ : ∀ id, ¬ c.Reads id) (queue : c.readQueue = []) : OneRead c := by
  constructor
  · intro id
    rw [queue]
    exact iff_of_false List.not_mem_nil (none_ id)
  · rw [queue]
    exact Nat.zero_le 1

private theorem OneRead.only (id : CoroId) (reads : c.Reads id) (alone : ∀ id', c.Reads id' → id' = id)
    (queue : c.readQueue = [id]) : OneRead c := by
  constructor
  · intro id'
    rw [queue, List.mem_singleton]
    exact ⟨fun same => same ▸ reads, alone id'⟩
  · rw [queue]
    exact Nat.le_refl 1

private theorem OneRead.empty (one : OneRead c) (none_ : ∀ id, ¬ c.Reads id) : c.readQueue = [] :=
  List.eq_nil_iff_forall_not_mem.mpr fun id listed => none_ id ((one.queued id).mp listed)

private theorem none_of_start (shape : Shape c) {p : StartPoint} {r : Completion} (at_ : c.start = .completed p r) :
    ∀ id, ¬ c.Reads id := by
  intro id reads
  cases id with
  | start =>
    obtain ⟨point, h, _⟩ := reads
    cases at_.symm.trans h
  | writer j => exact reads
  | reader j =>
    rw [Conn.Reads, shape.readers_of_start (point?_of_completed at_)] at reads
    cases reads

private theorem none_of_reader (shape : Shape c) {j : Nat} {r : Completion}
    (at_ : c.readers[j]? = some (.completed () r)) : ∀ id, ¬ c.Reads id := by
  intro id reads
  cases id with
  | start =>
    obtain ⟨point, h, _⟩ := reads
    have ended := shape.start_of_reader at_
    rw [h] at ended
    cases ended
  | writer i => exact reads
  | reader i =>
    have other : c.reading[i]? = some (some ()) := by
      rw [Conn.reading, List.getElem?_map, reads]
      rfl
    have same : i = j := shape.readers i j () () other (points_of_completed at_)
    subst same
    cases reads.symm.trans at_

private theorem none_of_parked (shape : Shape c) (parked : c.shouldReadFromRemote = false) : ∀ id, ¬ c.Reads id := by
  intro id reads
  cases id with
  | start =>
    obtain ⟨point, h, _⟩ := reads
    have on := (shape.active point (by rw [h]; rfl)).2
    cases parked.symm.trans on
  | writer i => exact reads
  | reader i =>
    refine shape.parked parked i () ?_
    rw [Conn.reading, List.getElem?_map, reads]
    rfl

/-- The coroutine of `Start` begins its next operation. -/
private theorem OneRead.awaitStart (queue : d.readQueue = []) (readers : d.readers = []) (point : StartPoint) :
    OneRead (d.awaitStart point) := by
  have others : ∀ id, (d.awaitStart point).Reads id → id = .start := by
    intro id reads
    cases id with
    | start => rfl
    | writer j => exact reads.elim
    | reader j =>
      change d.readers[j]? = _ at reads
      rw [readers] at reads
      cases reads
  by_cases window : point.window = none
  · refine OneRead.idle (fun id reads => ?_) (by simp [Conn.awaitStart, queue, window])
    obtain rfl := others id reads
    obtain ⟨point', at_, window'⟩ := reads
    have same : (d.awaitStart point).start.point? = some point' := by rw [at_]; rfl
    rw [Conn.point?_awaitStart, Option.some.injEq] at same
    exact window' (same ▸ window)
  · have offered : point.offered d.remoteRecvBuff ≠ some [] := by
      cases point <;> simp_all [StartPoint.offered, StartPoint.window]
    refine OneRead.only .start ⟨point, ?_, window⟩ others (by simp [Conn.awaitStart, queue, window])
    simp only [Conn.awaitStart, if_neg offered]

/-- A reader begins its next read. -/
private theorem OneRead.awaitReader {j : Nat} (queue : d.readQueue = []) (bound : j < d.readers.length)
    (none_ : ∀ id, d.Reads id → id = .reader j) : OneRead (d.awaitReader j) := by
  refine OneRead.only (.reader j) (List.getElem?_set_self bound) (fun id reads => ?_)
    (by simp [Conn.awaitReader, queue])
  cases id with
  | start => exact none_ .start reads
  | writer i => exact reads.elim
  | reader i =>
    by_cases same : j = i
    · rw [same]
    · change (d.readers.set j _)[i]? = _ at reads
      rw [List.getElem?_set_ne same] at reads
      exact none_ (.reader i) reads

private theorem oneRead_readerSpawned (one : OneRead c) (shape : Shape c) (parked : c.shouldReadFromRemote = false) :
    OneRead ({ c with
      shouldReadFromRemote := true, readers := c.readers ++ [Coroutine.finished] }.awaitReader c.readers.length) := by
  have none_ := none_of_parked shape parked
  refine OneRead.awaitReader (one.empty none_) (by simp) (fun id reads => ?_)
  cases id with
  | start => exact absurd reads (none_ .start)
  | writer i => exact reads.elim
  | reader i =>
    change (c.readers ++ [Coroutine.finished])[i]? = _ at reads
    rcases Nat.lt_or_ge i c.readers.length with old | new
    · rw [List.getElem?_append_left old] at reads
      exact absurd reads (none_ (.reader i))
    · have bound := (List.getElem?_eq_some_iff.mp reads).1
      simp only [List.length_append, List.length_singleton] at bound
      rw [Nat.le_antisymm (by omega) new]

private theorem Callback.oneRead {seg : Segment} (move : Callback seg c evs c') (shape : Shape c) (one : OneRead c) :
    OneRead c' := by
  cases move with
  | stopped =>
    refine OneRead.idle (fun id reads => ?_) rfl
    cases id with
    | start =>
      obtain ⟨point, at_, _⟩ := reads
      exact cancel_ne_suspended _ _ at_
    | writer j => exact reads
    | reader j =>
      change (c.readers.map cancel)[j]? = _ at reads
      rw [List.getElem?_map, Option.map_eq_some_iff] at reads
      obtain ⟨t, _, cancelled⟩ := reads
      exact cancel_ne_suspended t () cancelled
  | writerSpawned =>
    obtain ⟨_, _, _, _, eq⟩ := Conn.writerLoop_eq _ c.writers.length
    rw [eq]
    exact one.congr rfl rfl rfl
  | readerSpawned parked => exact oneRead_readerSpawned one shape parked
  | lwip | stoppedAgain | stopDangles | erased | queued | refused | crashed => exact one.congr rfl rfl rfl

/-- The outstanding read ends. -/
private theorem OneRead.pop (one : OneRead c) {id : CoroId} {rest : List CoroId} (oldest : c.readQueue = id :: rest) :
    rest = [] ∧ ∀ id', c.Reads id' → id' = id := by
  have few := one.few
  rw [oldest, List.length_cons] at few
  have empty : rest = [] := List.length_eq_zero_iff.mp (by omega)
  refine ⟨empty, fun id' reads => ?_⟩
  have listed := (one.queued id').mpr reads
  rw [oldest, empty] at listed
  exact List.mem_singleton.mp listed

private theorem OneRead.startEnds (one : OneRead c) {rest : List CoroId} (oldest : c.readQueue = .start :: rest)
    (start : ∀ p, c'.start ≠ .suspended p) (readers : c'.readers = c.readers) (queue : c'.readQueue = rest) :
    OneRead c' := by
  obtain ⟨empty, alone⟩ := one.pop oldest
  refine OneRead.idle (fun id reads => ?_) (queue.trans empty)
  cases id with
  | start =>
    obtain ⟨point, at_, _⟩ := reads
    exact start point at_
  | writer j => exact reads
  | reader j =>
    rw [Conn.Reads, readers] at reads
    cases alone (.reader j) reads

/-- Whoever reads once a reader does not wait any more has done so before, and is another. -/
private theorem reads_before {j : Nat} {t : Coroutine Unit} (ended : t ≠ .suspended ()) (start : c'.start = c.start)
    (readers : c'.readers = c.readers.set j t) {id : CoroId} (reads : c'.Reads id) : c.Reads id ∧ id ≠ .reader j := by
  cases id with
  | start =>
    rw [Conn.Reads, start] at reads
    exact ⟨reads, nofun⟩
  | writer i => exact reads.elim
  | reader i =>
    rw [Conn.Reads, readers] at reads
    by_cases same : j = i
    · subst same
      rw [List.getElem?_set_self'] at reads
      cases h : c.readers[j]? <;> simp [h, ended] at reads
    · rw [List.getElem?_set_ne same] at reads
      refine ⟨reads, fun eq => same ?_⟩
      cases eq
      rfl

private theorem OneRead.readerEnds (one : OneRead c) {j : Nat} {rest : List CoroId}
    (oldest : c.readQueue = .reader j :: rest) (r : Completion) (start : c'.start = c.start)
    (readers : c'.readers = c.readers.set j (.completed () r)) (queue : c'.readQueue = rest) : OneRead c' := by
  obtain ⟨empty, alone⟩ := one.pop oldest
  refine OneRead.idle (fun id reads => ?_) (queue.trans empty)
  obtain ⟨before, other⟩ := reads_before (by simp) start readers reads
  exact other (alone id before)

private theorem SocketMove.oneRead {a : TcpAct} (move : SocketMove c a evs c') (shape : Shape c) (one : OneRead c) :
    OneRead c' := by
  -- a write or the connect of `Start` ends while nobody reads
  have writes {p : StartPoint} {r : Completion} (at_ : c.start = .suspended p) (window : p.window = none)
      (start : c'.start = .completed p r) (readers : c'.readers = c.readers) (queue : c'.readQueue = c.readQueue) :
      OneRead c' := by
    have none_ : ∀ id, ¬ c.Reads id := by
      intro id reads
      cases id with
      | start =>
        obtain ⟨point, h, window'⟩ := reads
        cases at_.symm.trans h
        exact window' window
      | writer j => exact reads
      | reader j =>
        rw [Conn.Reads, shape.readers_of_start (p := p) (by rw [at_]; rfl)] at reads
        cases reads
    refine OneRead.idle (fun id reads => ?_) (queue.trans (one.empty none_))
    cases id with
    | start =>
      obtain ⟨point, h, _⟩ := reads
      cases start.symm.trans h
    | writer j => exact reads
    | reader j =>
      rw [Conn.Reads, readers] at reads
      exact none_ (.reader j) reads
  have silent {p : StartPoint} {bytes : List UInt8} (offers : p.offered c.remoteRecvBuff = some bytes) :
      p.window = none := by
    cases p <;> simp_all [StartPoint.offered, StartPoint.window]
  cases move with
  | connected at_ | connectFailed at_ => exact writes at_ rfl rfl rfl rfl
  | startAccepts _ at_ offers | startWriteFails _ at_ offers => exact writes at_ (silent offers) rfl rfl rfl
  | startArrives oldest | startReadFails oldest => exact one.startEnds oldest (fun p => nofun) rfl rfl
  | readerArrives oldest | readerReadFails oldest => exact one.readerEnds oldest _ rfl rfl rfl
  | writerAccepts | writerWriteFails | transmits => exact one.congr rfl rfl rfl

private theorem Resumes.oneRead {room : Room} {id : CoroId} (move : Resumes c room id evs c') (shape : Shape c)
    (one : OneRead c) : OneRead c' := by
  have starts {p : StartPoint} {r : Completion} (at_ : c.start = .completed p r) :
      c.readQueue = [] ∧ c.readers = [] :=
    ⟨one.empty (none_of_start shape at_), shape.readers_of_start (point?_of_completed at_)⟩
  have awaits {d : Conn} {p : StartPoint} {r : Completion} (at_ : c.start = .completed p r) (point : StartPoint)
      (queue : d.readQueue = c.readQueue) (readers : d.readers = c.readers) : OneRead (d.awaitStart point) :=
    .awaitStart (queue.trans (starts at_).1) (readers.trans (starts at_).2) point
  have ends {p : StartPoint} {r : Completion} (at_ : c.start = .completed p r) (start : c'.start = .finished)
      (readers : c'.readers = c.readers) (queue : c'.readQueue = c.readQueue) : OneRead c' := by
    refine OneRead.idle (fun id reads => ?_) (queue.trans (starts at_).1)
    cases id with
    | start =>
      obtain ⟨point, h, _⟩ := reads
      cases start.symm.trans h
    | writer j => exact reads
    | reader j =>
      rw [Conn.Reads, readers, (starts at_).2] at reads
      cases reads
  have drains {p : StartPoint} {r : Completion} (at_ : c.start = .completed p r) (status : Status) (pcb : Pcb) :
      OneRead ({ c with status, pcb }.drainLoop).1 := by
    rcases Conn.drainLoop_cases { c with status, pcb } with ⟨_, loop⟩ | ⟨_, _, _, ⟨_, loop⟩ | ⟨_, loop⟩⟩
    · rw [loop]
      exact awaits at_ _ (by rfl) (by rfl)
    · rw [loop]
      exact awaits at_ _ (by rfl) (by rfl)
    · rw [loop]
      exact one.congr rfl rfl rfl
  have returns {j : Nat} {r : Completion} (at_ : c.readers[j]? = some (.completed () r)) (start : c'.start = c.start)
      (readers : c'.readers = c.readers.set j .finished) (queue : c'.readQueue = c.readQueue) : OneRead c' := by
    have none_ := none_of_reader shape at_
    refine OneRead.idle (fun id reads => ?_) (queue.trans (one.empty none_))
    exact none_ id (reads_before (by simp) start readers reads).1
  cases move with
  | startFailed at_ | rejected at_ | drainEnds at_ | downloadEnds at_ => exact ends at_ rfl rfl rfl
  | connected at_ | greets at_ | requests at_ | drainWritesOn at_ => exact awaits at_ _ (by rfl) (by rfl)
  | relays at_ => exact drains at_ _ _
  | drains at_ => exact drains at_ _ _
  | @parks n at_ =>
    obtain ⟨pcb, eq, _⟩ := c.writeLocal_eq n room
    rw [eq] at ends ⊢
    exact ends at_ rfl rfl rfl
  | @downloads n at_ =>
    obtain ⟨pcb, eq, _⟩ := c.writeLocal_eq n room
    rw [eq]
    exact awaits at_ _ (by rfl) (by rfl)
  | writerPops =>
    obtain ⟨_, _, _, _, eq⟩ := Conn.writerLoop_eq _ _
    rw [eq]
    exact one.congr rfl rfl rfl
  | readerFailed at_ | readerEnds at_ => exact returns at_ rfl rfl rfl
  | @readerParks j n at_ =>
    obtain ⟨pcb, eq, _⟩ := c.writeLocal_eq n room
    rw [eq] at returns ⊢
    exact returns at_ rfl rfl rfl
  | @readerReads j n at_ =>
    obtain ⟨pcb, eq, _⟩ := c.writeLocal_eq n room
    rw [eq]
    have none_ := none_of_reader shape at_
    exact .awaitReader (one.empty none_) (List.getElem?_eq_some_iff.mp at_).1 fun id reads => absurd reads (none_ id)
  | startDangles | writerFailed | writerWritesOn | writerEnds | writerFollows | writerDangles | readerDangles =>
    exact one.congr rfl rfl rfl

end Moves

/-- In every run, the socket has at most one read outstanding, that of the one coroutine that
waits in a read, and no reader exists during the handshake. -/
theorem single_reader {ts : List (Transition Conn TcpAct TcpEvent)} {c : Conn} (run : connMachine.Run ts c) :
    c.readQueue.length ≤ 1 ∧ (∀ id, id ∈ c.readQueue ↔ c.Reads id) ∧ (∀ i j, c.Reads i → c.Reads j → i = j) ∧
      (c.Greeting → AllGone c.reading) := by
  have one : OneRead c := by
    refine invariant_of_moves run OneRead ?_ (fun move => move.oneRead) (fun move => move.oneRead)
      (fun move => move.oneRead) ?_
    · rintro c ⟨_, _, _, opened, _, _, rfl⟩
      refine OneRead.idle (fun id reads => ?_) rfl
      cases id with
      | start =>
        obtain ⟨point, at_, window⟩ := reads
        cases opened
        · cases at_
        · cases at_
          exact window rfl
      | writer j => exact reads
      | reader j => cases reads
    · intro c one
      obtain ⟨_, _, eq⟩ := c.reap_eq
      rw [eq]
      exact one.congr rfl rfl rfl
  refine ⟨one.few, one.queued, fun i j reads reads' => ?_, fun ⟨p, at_, _⟩ => ?_⟩
  · obtain ⟨id, only⟩ : ∃ id, c.readQueue = [id] :=
      List.length_eq_one_iff.mp (Nat.le_antisymm one.few (List.length_pos_of_mem ((one.queued i).mpr reads)))
    have first := (one.queued i).mpr reads
    have second := (one.queued j).mpr reads'
    rw [only, List.mem_singleton] at first second
    rw [first, second]
  · rw [((shape_run run).active p at_).1]
    exact AllGone.nil

/-- The first download loop has parked and an acknowledgement has started a reader. -/
theorem single_reader_restarted : ∃ ts c, connMachine.Run ts c ∧ c.readQueue = [.reader 0] ∧
    c.readQueue.length ≤ 1 ∧ (∀ id, id ∈ c.readQueue ↔ c.Reads id) ∧ (∀ i j, c.Reads i → c.Reads j → i = j) ∧
      (c.Greeting → AllGone c.reading) := by
  obtain ⟨ts, c, run, reads⟩ := Machine.Run.exists_of_exec connMachine webConn
    (greeting ++ flood ++ [.transmit 0 1436 [] false, .input ⟨1436, false, none, false⟩])
    (fun _ c => c.readQueue == [.reader 0]) webConn_init (by decide +kernel)
  exact ⟨ts, c, run, beq_iff_eq.mp reads, single_reader run⟩

/-! ### The wake-up -/

/-- The send buffer holds what is neither queued nor acknowledged. -/
def Balanced (c : Conn) : Prop := c.pcb.sndBuf + c.pcb.queued = tcpWnd + c.pcb.acked

/-- While its session is in the map, a reader is parked only below the threshold. -/
def Parked (c : Conn) : Prop := c.inMap = true → c.shouldReadFromRemote = false → c.pcb.sndBuf ≤ readThreshold

section Wakeup
variable {c c' : Conn} {evs : List TcpEvent}

theorem LwipChange.balance {seg : Segment} {pcb pcb' : Pcb} (change : LwipChange seg pcb evs pcb') :
    pcb'.sndBuf + pcb.acked = pcb.sndBuf + pcb'.acked ∧ pcb'.queued = pcb.queued := by
  refine ⟨?_, congrArg List.sum change.writes⟩
  cases change with
  | processed =>
    simp only [Pcb.tcpProcess]
    split <;> (repeat' split) <;> simp only <;> omega
  | closed =>
    simp only [Pcb.tcpClose]
    split <;> (repeat' split) <;> rfl
  | finCounted | freed | aborted => rfl

private theorem Balanced.congr (balanced : Balanced c) (sndBuf : c'.pcb.sndBuf = c.pcb.sndBuf)
    (writes : c'.pcb.writes = c.pcb.writes) (acked : c'.pcb.acked = c.pcb.acked) : Balanced c' := by
  rw [Balanced, Pcb.queued, sndBuf, writes, acked]
  exact balanced

theorem Callback.balanced {seg : Segment} (move : Callback seg c evs c') (balanced : Balanced c) :
    Balanced c' := by
  cases move with
  | @lwip evs pcb change =>
    obtain ⟨kept, queued⟩ := change.balance
    unfold Balanced at *
    simp only at *
    omega
  | writerSpawned =>
    obtain ⟨_, _, _, _, eq⟩ := Conn.writerLoop_eq _ c.writers.length
    rw [eq]
    exact balanced
  | _ => exact balanced.congr rfl rfl rfl

/-- `tcp_write` takes from the send buffer what it queues. -/
theorem writeLocal_balance (c : Conn) (n : Nat) (room : Room) : ∃ sndBuf writes strays,
    c.writeLocal n room = { c with pcb := { c.pcb with sndBuf, writes, strays } } ∧ sndBuf ≤ c.pcb.sndBuf ∧
      sndBuf + writes.sum = c.pcb.sndBuf + c.pcb.queued := by
  obtain ⟨pcb, eq, rfl | taken⟩ := c.writeLocal_eq n room
  · exact ⟨_, _, _, eq, Nat.le_refl _, rfl⟩
  · simp only [Pcb.tcpWrite] at taken
    split at taken
    · next fits =>
      cases taken
      refine ⟨_, _, _, eq, Nat.sub_le _ _, ?_⟩
      simp only [Pcb.queued, List.sum_append, List.sum_cons, List.sum_nil]
      omega
    · cases taken

theorem Resumes.balanced {room : Room} {id : CoroId} (move : Resumes c room id evs c')
    (balanced : Balanced c) : Balanced c' := by
  cases move with
  | relays | drains =>
    obtain ⟨_, _, _, _, _, eq⟩ := Conn.drainLoop_eq _
    rw [eq]
    exact balanced
  | writerPops =>
    obtain ⟨_, _, _, _, eq⟩ := Conn.writerLoop_eq _ _
    rw [eq]
    exact balanced
  | @parks n | @downloads n | @readerParks _ n | @readerReads _ n =>
    obtain ⟨_, _, _, eq, _, kept⟩ := writeLocal_balance c n room
    rw [eq]
    exact kept.trans balanced
  | _ => exact balanced.congr rfl rfl rfl

theorem balanced_run {ts : List (Transition Conn TcpAct TcpEvent)} (run : connMachine.Run ts c) :
    Balanced c := by
  refine invariant_of_moves run Balanced ?_ (fun move _ => move.balanced) (fun move _ balanced => ?_)
    (fun move _ => move.balanced) (fun c balanced => ?_)
  · rintro c ⟨_, _, _, _, _, _, rfl⟩
    rfl
  · cases move <;> exact balanced
  · obtain ⟨_, _, eq⟩ := c.reap_eq
    rw [eq]
    exact balanced

/-- An acknowledgement leaves a reader parked only below the threshold. -/
private theorem parked_acknowledged {seg : Segment} (service : InService c) (found : c.inMap = true)
    (parked : Parked c) (still : (c.acknowledged seg).shouldReadFromRemote = false) :
    (c.acknowledged seg).pcb.sndBuf ≤ readThreshold := by
  have buffer : (c.acknowledged seg).pcb.sndBuf = c.pcb.sndBuf + seg.acked := by
    obtain ⟨_, _, _, eq⟩ := c.acknowledged_eq seg
    rw [eq, Pcb.tcpProcess_established service.state]
  rw [buffer]
  have processed : (c.pcb.tcpProcess seg).sndBuf = c.pcb.sndBuf + seg.acked := by
    rw [Pcb.tcpProcess_established service.state]
  simp only [Conn.acknowledged, processed] at still
  split at still
  · simp only [Conn.readFromRemote] at still
    split at still
    · next on => cases on.symm.trans still
    · cases still
  · next low =>
    have before : c.pcb.sndBuf ≤ readThreshold := parked found still
    rw [not_and_or] at low
    omega

private theorem Stays.parked {a : TcpAct} {r : Outcome} (stays : Stays c a r) (service : InService c)
    (found : c.inMap = true) (parked : Parked c) (still : r.1.shouldReadFromRemote = false) :
    r.1.pcb.sndBuf ≤ readThreshold := by
  cases stays with
  | acknowledged | chained => exact parked_acknowledged service found parked still
  | @proxied seg p =>
    obtain ⟨_, _, _, _, eq⟩ := (c.acknowledged seg).proxyTcpPacket_eq p
    rw [eq] at still ⊢
    exact parked_acknowledged service found parked still
  | socket move => cases move <;> exact parked found still
  | @resumed id room _ _ move =>
    cases move with
    | relays | drains =>
      obtain ⟨_, _, _, _, _, eq⟩ := Conn.drainLoop_eq _
      rw [eq] at still ⊢
      exact parked found still
    | writerPops =>
      obtain ⟨_, _, _, _, eq⟩ := Conn.writerLoop_eq _ _
      rw [eq] at still ⊢
      exact parked found still
    | parks _ _ _ low | readerParks _ _ _ low => exact Nat.le_of_lt low
    | @downloads n | @readerReads _ n =>
      obtain ⟨_, _, _, eq, le, _⟩ := writeLocal_balance c n room
      rw [eq] at still ⊢
      exact le.trans (parked found still)
    | _ => exact parked found still

private theorem parked_run {ts : List (Transition Conn TcpAct TcpEvent)} (run : connMachine.Run ts c) : Parked c := by
  refine (run.invariant (fun c => Filed c ∧ Parked c) ?_ ?_).2
  · intro c init
    refine ⟨filed_init init, ?_⟩
    obtain ⟨_, _, _, _, _, _, rfl⟩ := init
    exact fun _ parked => nomatch parked
  · rintro c a c' out ⟨filed, parked⟩ h
    refine ⟨filed_step filed h, ?_⟩
    obtain ⟨live, r, happens, rfl, rfl⟩ := happens_of_step h
    have after : Parked r.1 := by
      intro found still
      obtain ⟨before, service, stays⟩ := happens.stays filed live found
      exact stays.parked service before parked still
    obtain ⟨_, _, eq⟩ := r.1.reap_eq
    rw [eq]
    exact after

/-- The acknowledgement that makes room starts a reader. -/
private theorem acknowledged_wakes {seg : Segment} (service : InService c) (parked : c.shouldReadFromRemote = false)
    (acks : 0 < seg.acked) (room : readThreshold < c.pcb.sndBuf + seg.acked) :
    (c.acknowledged seg).shouldReadFromRemote = true ∧
      (c.acknowledged seg).readers[c.readers.length]? = some (.suspended ()) := by
  have processed : (c.pcb.tcpProcess seg).sndBuf = c.pcb.sndBuf + seg.acked := by
    rw [Pcb.tcpProcess_established service.state]
  simp [Conn.acknowledged, processed, acks, room, Conn.readFromRemote, parked, Conn.awaitReader]

end Wakeup

/-- In every run in which `Stop()` has not been called, a parked reader means that bytes are
unacknowledged, and the segment that lifts the send buffer above the threshold starts a reader. -/
theorem no_lost_wakeup {ts : List (Transition Conn TcpAct TcpEvent)} {c : Conn} (run : connMachine.Run ts c)
    (unstopped : .stopped ∉ Machine.trace ts) (parked : c.shouldReadFromRemote = false) :
    (c.pcb.sndBuf ≤ readThreshold ∧ readThreshold < tcpWnd) ∧ c.pcb.acked < c.pcb.queued ∧
      ∀ seg c' out, connMachine.step c (.input seg) = some (c', out) → readThreshold < c.pcb.sndBuf + seg.acked →
        c'.shouldReadFromRemote = true ∧ (.stopped ∈ out ∨ c'.Reads (.reader c.readers.length)) := by
  have found := inMap_of_unstopped run unstopped
  have low := parked_run run found parked
  have bound : readThreshold < tcpWnd := by decide
  have balance : c.pcb.sndBuf + c.pcb.queued = tcpWnd + c.pcb.acked := balanced_run run
  refine ⟨⟨low, bound⟩, by omega, fun seg c' out h room => ?_⟩
  obtain ⟨live, r, happens, rfl, rfl⟩ := happens_of_step h
  have filed := filed_run run
  have service := filed.mapped found live
  obtain ⟨_, _, eq⟩ := r.1.reap_eq
  have woken := acknowledged_wakes service parked (by omega) room
  suffices wakes : r.1.shouldReadFromRemote = true ∧ (.stopped ∈ r.2 ∨ r.1.Reads (.reader c.readers.length)) by
    rw [eq]
    exact ⟨wakes.1, wakes.2.imp_left (List.mem_append_left _)⟩
  cases happens with
  | input ok =>
    have served := Conn.tcpInput_served service live found filed.window ok
    clear eq
    generalize c.tcpInput seg = r at served
    cases served with
    | acknowledged | chained => exact ⟨woken.1, Or.inr woken.2⟩
    | @proxied p =>
      obtain ⟨_, _, _, _, eq⟩ := (c.acknowledged seg).proxyTcpPacket_eq p
      rw [eq]
      exact ⟨woken.1, Or.inr woken.2⟩
    | left _ leaves => exact ⟨leaves.should.trans woken.1, Or.inl leaves.stopped⟩
  | socket move => cases move

/-- The first download loop has parked. -/
theorem no_lost_wakeup_flooded : ∃ ts c, connMachine.Run ts c ∧ .stopped ∉ Machine.trace ts ∧
    c.shouldReadFromRemote = false ∧
    ((c.pcb.sndBuf ≤ readThreshold ∧ readThreshold < tcpWnd) ∧ c.pcb.acked < c.pcb.queued ∧
      ∀ seg c' out, connMachine.step c (.input seg) = some (c', out) → readThreshold < c.pcb.sndBuf + seg.acked →
        c'.shouldReadFromRemote = true ∧ (.stopped ∈ out ∨ c'.Reads (.reader c.readers.length))) := by
  obtain ⟨ts, c, run, h⟩ := Machine.Run.exists_of_exec connMachine webConn (greeting ++ flood)
    (fun ts c => decide (.stopped ∉ Machine.trace ts) && decide (c.shouldReadFromRemote = false)) webConn_init
    (by decide +kernel)
  simp only [Bool.and_eq_true, decide_eq_true_eq] at h
  exact ⟨ts, c, run, h.1, h.2, no_lost_wakeup run h.1 h.2⟩

end Tunosocks.Tcp
