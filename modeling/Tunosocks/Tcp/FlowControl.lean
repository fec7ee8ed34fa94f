import Tunosocks.Tcp.Detach
import Tunosocks.Tcp.Reader

/-! The download's flow control: a read is outstanding only while the send buffer has room for all it can bring. -/
namespace Tunosocks.Tcp
open Foundation Coroutine

/-- Some coroutine is in the read of a download loop. -/
def Conn.Downloads (c : Conn) : Prop := c.start.point? = some .downloadRead ∨ some () ∈ c.reading

/-- Whoever reads for the local peer has room, and what a read has brought fits the buffer it was read into. -/
structure Roomy (c : Conn) : Prop where
  room : c.Downloads → readThreshold ≤ c.pcb.sndBuf
  start : ∀ n, c.start = .completed .downloadRead (.ok n) → n ≤ tcpRecvBuffSize
  reader : ∀ n, .completed () (.ok n) ∈ c.readers → n ≤ tcpRecvBuffSize

section Moves
variable {c c' : Conn} {evs : List TcpEvent}

/-- No read has ended in this move. -/
private theorem Roomy.next (roomy : Roomy c) (room : c'.Downloads → readThreshold ≤ c'.pcb.sndBuf)
    (start : ∀ n, c'.start = .completed .downloadRead (.ok n) → c.start = .completed .downloadRead (.ok n))
    (reader : ∀ n, .completed () (.ok n) ∈ c'.readers → .completed () (.ok n) ∈ c.readers) : Roomy c' :=
  ⟨room, fun n at_ => roomy.start n (start n at_), fun n at_ => roomy.reader n (reader n at_)⟩

/-- The coroutines that download and the send buffer stay. -/
private theorem Roomy.congr (roomy : Roomy c) (start : c'.start = c.start) (readers : c'.readers = c.readers)
    (room : c.pcb.sndBuf ≤ c'.pcb.sndBuf) : Roomy c' := by
  refine roomy.next ?_ (fun n at_ => start ▸ at_) (fun n at_ => readers ▸ at_)
  rw [Conn.Downloads, Conn.reading, start, readers]
  exact fun downloads => (roomy.room downloads).trans room

/-- `Start` waits at a point outside the download. -/
private theorem Roomy.elsewhere (roomy : Roomy c) (at_ : c'.start.point? ≠ some .downloadRead)
    (readers : c'.readers = []) : Roomy c' := by
  refine roomy.next ?_ (fun n h => absurd (point?_of_completed h) at_) ?_
  · rintro (h | h)
    · exact absurd h at_
    · rw [Conn.reading, readers] at h
      cases h
  · rw [readers]
    intro n h
    cases h

private theorem LwipChange.room {seg : Segment} {pcb pcb' : Pcb} (change : LwipChange seg pcb evs pcb') :
    pcb.sndBuf ≤ pcb'.sndBuf := by
  cases change with
  | processed =>
    simp only [Pcb.tcpProcess]
    split <;> (repeat' split) <;> simp only <;> omega
  | closed =>
    simp only [Pcb.tcpClose]
    split <;> (repeat' split) <;> exact Nat.le_refl _
  | finCounted | freed | aborted => exact Nat.le_refl _

private theorem Callback.roomy {seg : Segment} (move : Callback seg c evs c') (roomy : Roomy c) : Roomy c' := by
  cases move with
  | lwip change => exact roomy.congr rfl rfl change.room
  | stopped =>
    refine roomy.next ?_ (fun n at_ => cancel_eq_completed_ok.mp at_) (fun n at_ => ?_)
    · intro downloads
      refine roomy.room ?_
      rw [Conn.Downloads, Conn.reading] at downloads ⊢
      change (c.start.cancel.point? = _ ∨ some () ∈ (c.readers.map cancel).map Coroutine.point?) at downloads
      rwa [point?_cancel, map_point?_cancel] at downloads
    · obtain ⟨t, ht, cancelled⟩ := List.mem_map.mp at_
      exact cancel_eq_completed_ok.mp cancelled ▸ ht
  | writerSpawned =>
    obtain ⟨_, _, _, _, eq⟩ := Conn.writerLoop_eq _ c.writers.length
    rw [eq]
    exact roomy.congr rfl rfl (Nat.le_refl _)
  | readerSpawned _ _ readable =>
    refine roomy.next (fun _ => Nat.le_of_lt readable) (fun n at_ => at_) (fun n at_ => ?_)
    rcases List.mem_or_eq_of_mem_set at_ with old | new
    · simpa using old
    · cases new
  | stoppedAgain | stopDangles | erased | queued | refused | crashed => exact roomy.congr rfl rfl (Nat.le_refl _)

/-- An operation of `Start` ends; a download's read brings no more than it asked for. -/
private theorem Roomy.startEnds (roomy : Roomy c) {point : StartPoint} {r : Completion}
    (at_ : c.start = .suspended point) (short : ∀ n, point = .downloadRead → r = .ok n → n ≤ tcpRecvBuffSize)
    (start : c'.start = .completed point r) (readers : c'.readers = c.readers) (pcb : c'.pcb = c.pcb) : Roomy c' := by
  refine ⟨?_, ?_, fun n h => roomy.reader n (readers ▸ h)⟩
  · rw [Conn.Downloads, Conn.reading, start, readers, pcb]
    intro downloads
    refine roomy.room ?_
    rwa [Conn.Downloads, at_]
  · rw [start]
    intro n ended
    cases ended
    exact short n rfl rfl

private theorem Roomy.readerEnds (roomy : Roomy c) {j : Nat} {r : Completion}
    (at_ : c.readers[j]? = some (.suspended ())) (short : ∀ n, r = .ok n → n ≤ tcpRecvBuffSize)
    (start : c'.start = c.start) (readers : c'.readers = c.readers.set j (.completed () r)) (pcb : c'.pcb = c.pcb) :
    Roomy c' := by
  have reading : c'.reading = c.reading := by
    rw [Conn.reading, readers]
    exact map_point?_set at_ _ rfl
  refine ⟨?_, fun n h => roomy.start n (start ▸ h), ?_⟩
  · rw [Conn.Downloads, reading, start, pcb]
    exact roomy.room
  · rw [readers]
    intro n h
    rcases List.mem_or_eq_of_mem_set h with old | new
    · exact roomy.reader n old
    · cases new
      exact short n rfl

private theorem SocketMove.roomy {a : TcpAct} (move : SocketMove c a evs c') (roomy : Roomy c) : Roomy c' := by
  cases move with
  | connected at_ | connectFailed at_ => exact roomy.startEnds at_ (fun _ other => nomatch other) rfl rfl rfl
  | startAccepts _ at_ offers =>
    refine roomy.startEnds at_ (fun n download _ => ?_) rfl rfl rfl
    subst download
    cases offers
  | startArrives _ at_ takes _ le =>
    refine roomy.startEnds at_ (fun n download ended => ?_) rfl rfl rfl
    subst download
    cases takes
    cases ended
    exact le
  | startWriteFails _ at_ | startReadFails _ at_ =>
    refine roomy.startEnds at_ (fun n _ ended => ?_) rfl rfl rfl
    cases ended
  | readerArrives _ at_ _ le =>
    refine roomy.readerEnds at_ (fun n ended => ?_) rfl rfl rfl
    cases ended
    exact le
  | readerReadFails _ at_ =>
    refine roomy.readerEnds at_ (fun n ended => ?_) rfl rfl rfl
    cases ended
  | writerAccepts | writerWriteFails | transmits => exact roomy.congr rfl rfl (Nat.le_refl _)

/-- Before the first read of the download nothing has been written, so the whole send buffer is there. -/
private theorem room_unwritten (shape : Shape c) (balanced : Balanced c) {point : StartPoint} {r : Completion}
    (at_ : c.start = .completed point r) (early : point ≠ .downloadRead) : readThreshold ≤ c.pcb.sndBuf := by
  have none_ : c.pcb.writes = [] := shape.unwritten point (point?_of_completed at_) early
  have whole : c.pcb.sndBuf + 0 = tcpWnd + c.pcb.acked := by
    rw [← balanced, Pcb.queued, none_]
    rfl
  have bound : readThreshold ≤ tcpWnd := by decide
  omega

/-- `Start` begins its next operation with room in the send buffer. -/
private theorem Roomy.awaits {d : Conn} (room : readThreshold ≤ d.pcb.sndBuf) (readers : d.readers = [])
    (point : StartPoint) : Roomy (d.awaitStart point) := by
  refine ⟨fun _ => room, fun n ended => ?_, ?_⟩
  · obtain ⟨rfl, _, offered⟩ := Conn.completed_awaitStart ended
    cases offered
  · change ∀ n, _ ∈ d.readers → _
    rw [readers]
    intro n h
    cases h

private theorem Roomy.drainLoop (roomy : Roomy c) {d : Conn} (same : d.pcb.sndBuf = c.pcb.sndBuf)
    (start : d.start = c.start) (readers : d.readers = c.readers) (alone : c.readers = [])
    (room : readThreshold ≤ c.pcb.sndBuf) : Roomy d.drainLoop.1 := by
  rw [← same] at room
  rcases d.drainLoop_cases with ⟨_, loop⟩ | ⟨_, _, _, ⟨_, loop⟩ | ⟨_, loop⟩⟩ <;> rw [loop]
  · exact .awaits room (readers.trans alone) _
  · refine Roomy.awaits ?_ ?_ _
    · exact room
    · exact readers.trans alone
  · exact roomy.congr start readers same.ge

/-- A reader returns; there was no other. -/
private theorem Roomy.returns (roomy : Roomy c) (shape : Shape c) {j : Nat} {r : Completion}
    (at_ : c.readers[j]? = some (.completed () r)) (start : c'.start = c.start)
    (readers : c'.readers = c.readers.set j .finished) : Roomy c' := by
  have gone : AllGone c'.reading := by
    rw [Conn.reading, readers, List.map_set]
    exact shape.readers.finish (points_of_completed at_)
  refine roomy.next ?_ (fun n h => start ▸ h) ?_
  · rintro (h | h)
    · rw [start, shape.start_of_reader at_] at h
      cases h
    · obtain ⟨i, hi⟩ := List.getElem?_of_mem h
      exact absurd hi (gone i ())
  · rw [readers]
    intro n h
    rcases List.mem_or_eq_of_mem_set h with old | new
    · exact old
    · cases new

private theorem Resumes.roomy {room : Room} {id : CoroId} (move : Resumes c room id evs c') (shape : Shape c)
    (balanced : Balanced c) (roomy : Roomy c) : Roomy c' := by
  have alone {p : StartPoint} {r : Completion} (at_ : c.start = .completed p r) : c.readers = [] :=
    shape.readers_of_start (point?_of_completed at_)
  cases move with
  | startFailed at_ | rejected at_ | drainEnds at_ | downloadEnds at_ => exact roomy.elsewhere nofun (alone at_)
  | connected at_ => exact roomy.elsewhere (by simp) (alone at_)
  | greets at_ next => exact roomy.elsewhere (by cases next <;> simp) (alone at_)
  | requests at_ => exact roomy.elsewhere (by simp) (alone at_)
  | drainWritesOn at_ => exact roomy.elsewhere (by simp) (alone at_)
  | relays at_ => exact roomy.drainLoop rfl rfl rfl (alone at_) (room_unwritten shape balanced at_ nofun)
  | drains at_ => exact roomy.drainLoop rfl rfl rfl (alone at_) (room_unwritten shape balanced at_ nofun)
  | @parks n at_ =>
    obtain ⟨pcb, eq, _⟩ := c.writeLocal_eq n room
    rw [eq]
    exact roomy.elsewhere nofun (alone at_)
  | @downloads n at_ _ _ high =>
    obtain ⟨pcb, eq, _⟩ := c.writeLocal_eq n room
    rw [eq] at high ⊢
    exact .awaits high (alone at_) _
  | writerPops =>
    obtain ⟨_, _, _, _, eq⟩ := Conn.writerLoop_eq _ _
    rw [eq]
    exact roomy.congr rfl rfl (Nat.le_refl _)
  | readerFailed at_ | readerEnds at_ => exact roomy.returns shape at_ rfl rfl
  | @readerParks j n at_ =>
    obtain ⟨pcb, eq, _⟩ := c.writeLocal_eq n room
    rw [eq]
    exact roomy.returns shape at_ rfl rfl
  | @readerReads j n at_ _ _ high =>
    obtain ⟨pcb, eq, _⟩ := c.writeLocal_eq n room
    rw [eq] at high ⊢
    refine roomy.next (fun _ => high) (fun n h => h) (fun n h => ?_)
    rcases List.mem_or_eq_of_mem_set h with old | new
    · exact old
    · cases new
  | startDangles | writerFailed | writerWritesOn | writerEnds | writerFollows | writerDangles | readerDangles =>
    exact roomy.congr rfl rfl (Nat.le_refl _)

private theorem mem_localUses {n m : Nat} {room : Room} {taken : Bool}
    (used : TcpEvent.used (.tcpWrite n taken) ∈ (c.localUses m room).map .used) :
    n = m ∧ taken = (c.pcb.tcpWrite n room).isSome := by
  simp only [Conn.localUses, List.map_cons, List.map_nil, List.mem_cons, TcpEvent.used.injEq, PcbUse.tcpWrite.injEq,
    reduceCtorEq, List.not_mem_nil, or_false] at used
  obtain ⟨rfl, rfl⟩ := used
  exact ⟨rfl, rfl⟩

/-- A call of `tcp_write`: who makes it, and what with. -/
private theorem Resumes.writes {room : Room} {id : CoroId} (move : Resumes c room id evs c') {n : Nat} {taken : Bool}
    (used : .used (.tcpWrite n taken) ∈ evs) : taken = (c.pcb.tcpWrite n room).isSome ∧
      (c.start = .completed .downloadRead (.ok n) ∨ ∃ j : Nat, c.readers[j]? = some (.completed () (.ok n))) := by
  cases move with
  | parks at_ | downloads at_ =>
    obtain ⟨rfl, rfl⟩ := mem_localUses used
    exact ⟨rfl, Or.inl at_⟩
  | readerParks at_ | readerReads at_ =>
    obtain ⟨rfl, rfl⟩ := mem_localUses used
    exact ⟨rfl, Or.inr ⟨_, at_⟩⟩
  | readerDangles at_ =>
    obtain ⟨rfl, rfl⟩ := mem_localUses ((List.mem_append.mp used).resolve_right (by simp))
    exact ⟨rfl, Or.inr ⟨_, at_⟩⟩
  | startDangles at_ touches =>
    have here := (List.mem_append.mp used).resolve_right (by simp)
    cases touches with
    | download =>
      obtain ⟨rfl, rfl⟩ := mem_localUses here
      exact ⟨rfl, Or.inl at_⟩
    | request | drain => simp at here
  | relays | drains =>
    simp only [List.mem_append, List.mem_cons, TcpEvent.used.injEq, reduceCtorEq, List.not_mem_nil, or_self,
      false_or] at used
    cases Conn.mem_drainLoop _ used
  | _ => simp at used

private theorem roomy_run {ts : List (Transition Conn TcpAct TcpEvent)} (run : connMachine.Run ts c) : Roomy c := by
  refine (invariant_of_moves run (fun c => Balanced c ∧ Roomy c) ?_ ?_ ?_ ?_ ?_).2
  · rintro c ⟨_, _, _, opened, _, _, rfl⟩
    refine ⟨rfl, fun downloads => ?_, fun n at_ => ?_, fun n at_ => nomatch at_⟩
    · cases opened <;> rcases downloads with h | h <;> cases h
    · cases opened <;> cases at_
  · exact fun move _ before => ⟨move.balanced before.1, move.roomy before.2⟩
  · refine fun move _ before => ⟨?_, move.roomy before.2⟩
    cases move <;> exact before.1
  · exact fun move shape before => ⟨move.balanced before.1, move.roomy shape before.1 before.2⟩
  · rintro c ⟨balanced, roomy⟩
    obtain ⟨_, _, eq⟩ := c.reap_eq
    rw [eq]
    exact ⟨balanced, roomy.congr rfl rfl (Nat.le_refl _)⟩

end Moves

/-- In every run, each `tcp_write` of a download loop asks for at most what the send buffer has at that moment, and is
refused, if it is, for the state of the connection or for want of queue or memory. -/
theorem download_fits_send_buffer {ts : List (Transition Conn TcpAct TcpEvent)} {c : Conn}
    (run : connMachine.Run ts c) : ∀ t ∈ ts, ∀ n taken, .used (.tcpWrite n taken) ∈ t.out →
      n ≤ t.pre.pcb.sndBuf ∧ t.pre.pcb.sndBuf + t.pre.pcb.queued = tcpWnd + t.pre.pcb.acked ∧
        (taken = false → (t.pre.pcb.state ≠ .established ∧ t.pre.pcb.state ≠ .closeWait) ∨
          ∃ id, t.act = .resume id .full) := by
  intro t ht n taken used
  obtain ⟨_, _, _, before, step⟩ := run.split ht
  obtain ⟨id, room, _, _, act, move, called⟩ := resumes_of_used step used
  obtain ⟨rfl, who⟩ := move.writes called
  have roomy := roomy_run before
  have small : tcpRecvBuffSize ≤ readThreshold := by decide
  have fits : n ≤ t.pre.pcb.sndBuf := by
    rcases who with at_ | ⟨j, at_⟩
    · exact ((roomy.start n at_).trans small).trans (roomy.room (Or.inl (point?_of_completed at_)))
    · have reads : some () ∈ t.pre.reading := List.mem_of_getElem? (points_of_completed at_)
      exact ((roomy.reader n (List.mem_of_getElem? at_)).trans small).trans (roomy.room (Or.inr reads))
  refine ⟨fits, balanced_run before, fun refused => ?_⟩
  by_cases full : room = .full
  · exact Or.inr ⟨id, full ▸ act⟩
  · refine Or.inl ?_
    by_contra sendable
    rw [not_and_or, not_not, not_not] at sendable
    rw [Pcb.tcpWrite, if_pos ⟨sendable, fits, full⟩] at refused
    cases refused

/-- The send buffer runs low: the last read is written with room and parks the loop. -/
theorem download_fits_send_buffer_flooded : ∃ ts c, connMachine.Run ts c ∧
    .used (.tcpWrite 1436 true) ∈ Machine.trace ts ∧ c.pcb.sndBuf < readThreshold ∧
    ∀ t ∈ ts, ∀ n taken, .used (.tcpWrite n taken) ∈ t.out →
      n ≤ t.pre.pcb.sndBuf ∧ t.pre.pcb.sndBuf + t.pre.pcb.queued = tcpWnd + t.pre.pcb.acked ∧
        (taken = false → (t.pre.pcb.state ≠ .established ∧ t.pre.pcb.state ≠ .closeWait) ∨
          ∃ id, t.act = .resume id .full) := by
  obtain ⟨ts, c, run, h⟩ := Machine.Run.exists_of_exec connMachine webConn (greeting ++ flood)
    (fun ts c => decide (.used (.tcpWrite 1436 true) ∈ Machine.trace ts ∧ c.pcb.sndBuf < readThreshold)) webConn_init
    (by decide +kernel)
  obtain ⟨written, low⟩ := of_decide_eq_true h
  exact ⟨ts, c, run, written, low, download_fits_send_buffer run⟩

end Tunosocks.Tcp
