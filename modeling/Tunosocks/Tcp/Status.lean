import Tunosocks.Tcp.Moves

/-! How a session's status changes over its life: what closes it, and what takes it
out of `SESSION_CLOSE` again. -/
namespace Tunosocks.Tcp
open Foundation

/-! ### Frame lemmas -/

namespace Conn
variable (c : Conn)

theorem drainLoop_cases : c.pbufQueue = [] ∧ c.drainLoop = (c.awaitStart .downloadRead, []) ∨
    ∃ front rest, c.pbufQueue = front :: rest ∧
      (front.len = front.totLen ∧
          c.drainLoop = ({ c with pbufQueue := rest }.awaitStart (.drainWrite front 0), []) ∨
        front.len ≠ front.totLen ∧ c.drainLoop = (c.crash, [.crashed])) := by
  unfold drainLoop
  split
  · next empty => exact Or.inl ⟨empty, rfl⟩
  · next front rest popped =>
    refine Or.inr ⟨front, rest, popped, ?_⟩
    split
    · next simple => exact Or.inl ⟨simple, rfl⟩
    · next chained => exact Or.inr ⟨chained, rfl⟩

/-- What the drain loop can touch. -/
theorem drainLoop_eq : ∃ pbufQueue start readQueue writeQueue halted,
    c.drainLoop.1 = { c with pbufQueue, start, readQueue, writeQueue, halted } := by
  rcases c.drainLoop_cases with ⟨_, loop⟩ | ⟨_, _, _, ⟨_, loop⟩ | ⟨_, loop⟩⟩ <;> rw [loop] <;>
    exact ⟨_, _, _, _, _, rfl⟩

theorem drainLoop_events : c.drainLoop.2 = [] ∨ c.drainLoop.2 = [.crashed] := by
  rcases c.drainLoop_cases with ⟨_, loop⟩ | ⟨_, _, _, ⟨_, loop⟩ | ⟨_, loop⟩⟩ <;> rw [loop]
  · exact Or.inl rfl
  · exact Or.inl rfl
  · exact Or.inr rfl

theorem writeLocal_eq (n : Nat) (room : Room) :
    ∃ pcb, c.writeLocal n room = { c with pcb } ∧ (pcb = c.pcb ∨ c.pcb.tcpWrite n room = some pcb) := by
  unfold writeLocal
  split
  · next pcb taken => exact ⟨pcb, rfl, Or.inr taken⟩
  · exact ⟨c.pcb, rfl, Or.inl rfl⟩

theorem writerLoop_cases (j : Nat) : c.pbufQueue = [] ∧
      c.writerLoop j = { c with remoteSending := false, writers := c.writers.set j .finished } ∨
    ∃ front rest, c.pbufQueue = front :: rest ∧
      c.writerLoop j = { c with pbufQueue := rest }.awaitWriter j ⟨front, front.payload, front.next, 0⟩ := by
  unfold writerLoop
  split
  · next empty => exact Or.inl ⟨empty, rfl⟩
  · next front rest popped => exact Or.inr ⟨front, rest, popped, rfl⟩

/-- What the writer's loop can touch. -/
theorem writerLoop_eq (j : Nat) : ∃ pbufQueue remoteSending writers writeQueue,
    c.writerLoop j = { c with pbufQueue, remoteSending, writers, writeQueue } := by
  rcases c.writerLoop_cases j with ⟨_, loop⟩ | ⟨front, rest, _, loop⟩
  · exact ⟨_, _, _, _, loop⟩
  · exact ⟨_, _, _, _, loop⟩

theorem reap_eq : ∃ destroyed pbufQueue, c.reap.1 = { c with destroyed, pbufQueue } := by
  unfold reap
  split
  · exact ⟨true, [], rfl⟩
  · exact ⟨c.destroyed, c.pbufQueue, rfl⟩

@[simp] theorem status_drainLoop : c.drainLoop.1.status = c.status := by
  obtain ⟨_, _, _, _, _, eq⟩ := c.drainLoop_eq
  rw [eq]

@[simp] theorem status_writerLoop (j : Nat) : (c.writerLoop j).status = c.status := by
  obtain ⟨_, _, _, _, eq⟩ := c.writerLoop_eq j
  rw [eq]

@[simp] theorem status_writeLocal (n : Nat) (room : Room) : (c.writeLocal n room).status = c.status := by
  obtain ⟨_, eq, _⟩ := c.writeLocal_eq n room
  rw [eq]

@[simp] theorem status_reap : c.reap.1.status = c.status := by
  obtain ⟨_, _, eq⟩ := c.reap_eq
  rw [eq]

theorem mem_reap {e : TcpEvent} (he : e ∈ c.reap.2) : e = .destroyed ∨ ∃ p, e = .pbufFreed p := by
  unfold reap at he
  split at he
  · rcases List.mem_append.mp he with freed | last
    · obtain ⟨p, _, rfl⟩ := List.mem_map.mp freed
      exact Or.inr ⟨p, rfl⟩
    · exact Or.inl (List.mem_singleton.mp last)
  · cases he

/-- Any other event comes from before. -/
theorem mem_before_reap {evs : List TcpEvent} {e : TcpEvent} (he : e ∈ evs ++ c.reap.2) (other : e ≠ .destroyed)
    (kept : ∀ p, e ≠ .pbufFreed p) : e ∈ evs := by
  rcases List.mem_append.mp he with before | reaped
  · exact before
  · rcases c.mem_reap reaped with eq | ⟨p, eq⟩
    · exact absurd eq other
    · exact absurd eq (kept p)

theorem mem_drainLoop {e : TcpEvent} (he : e ∈ c.drainLoop.2) : e = .crashed := by
  rcases c.drainLoop_events with none_ | crashed
  · rw [none_] at he
    cases he
  · rw [crashed] at he
    exact List.mem_singleton.mp he

end Conn

theorem SocketMove.status {c c' : Conn} {a : TcpAct} {evs : List TcpEvent} (move : SocketMove c a evs c') :
    c'.status = c.status := by
  cases move <;> rfl

/-- A callback leaves the status alone or closes it. -/
theorem Callback.status {seg : Segment} {c c' : Conn} {evs : List TcpEvent} (move : Callback seg c evs c') :
    c'.status = c.status ∨ c'.status = .close ∧ .stopped ∈ evs := by
  cases move with
  | stopped => exact Or.inr ⟨rfl, List.mem_singleton_self _⟩
  | writerSpawned => exact Or.inl (Conn.status_writerLoop ..)
  | _ => exact Or.inl rfl

theorem callbacks_status {seg : Segment} {c c' : Conn} {evs : List TcpEvent}
    (chain : Chain (Callback seg) c evs c') : c'.status = c.status ∨ c'.status = .close ∧ .stopped ∈ evs := by
  refine chain.preserves (fun tr d => d.status = c.status ∨ d.status = .close ∧ .stopped ∈ tr) ?_ [] (Or.inl rfl)
  intro tr d evs d' before move
  rcases move.status with same | ⟨closed, stopped⟩
  · rw [same]
    exact before.imp_right fun h => ⟨h.1, List.mem_append_left _ h.2⟩
  · exact Or.inr ⟨closed, List.mem_append_right _ stopped⟩

/-! ### What closes a session -/

/-- A step that closes the session calls `Stop()` or finds a failed operation. -/
def ClosesForCause (t : Transition Conn TcpAct TcpEvent) : Prop :=
  t.pre.status ≠ .close → t.post.status = .close → .stopped ∈ t.out ∨ .failed ∈ t.out

/-- The download loop of `handleRemoteRead` goes on and the bytes it has read leave
less than the threshold in the send buffer. -/
def Parks (t : Transition Conn TcpAct TcpEvent) : Prop :=
  ∃ n room, t.act = .resume .start room ∧ t.pre.start = .completed .downloadRead (.ok n) ∧
    t.pre.status ≠ .close ∧ t.pre.pcb.freed = false ∧ (t.pre.writeLocal n room).pcb.sndBuf < readThreshold

private theorem resumes_closes {c c' : Conn} {room : Room} {id : CoroId} {evs : List TcpEvent}
    (move : Resumes c room id evs c') (opened : c.status ≠ .close) (closed : c'.status = .close) :
    .failed ∈ evs ∨ ∃ n, id = .start ∧ c.start = .completed .downloadRead (.ok n) ∧ c.pcb.freed = false ∧
      (c.writeLocal n room).pcb.sndBuf < readThreshold := by
  cases move with
  | startFailed | rejected | writerFailed => exact Or.inl (List.mem_singleton_self _)
  | parks at_ _ alive low => exact Or.inr ⟨_, rfl, at_, alive, low⟩
  | connected => cases closed
  | relays => simp at closed
  | drainEnds _ _ already | downloadEnds _ already | writerEnds _ _ already | readerEnds _ already =>
    exact absurd already opened
  | drains => exact absurd (by simpa using closed) opened
  | downloads | readerParks | readerReads =>
    exact absurd (by simpa [Conn.awaitStart, Conn.awaitReader] using closed) opened
  | writerPops => exact absurd (by simpa using closed) opened
  | greets | requests | drainWritesOn | startDangles | writerWritesOn | writerFollows | writerDangles | readerFailed
  | readerDangles => exact absurd closed opened

private theorem uses_quiet {uses : List PcbUse} {mid : Conn} {e : TcpEvent} (he : e ∈ uses.map .used ++ mid.reap.2) :
    e ≠ .stopped ∧ e ≠ .failed := by
  rcases List.mem_append.mp he with used | reaped
  · obtain ⟨_, _, rfl⟩ := List.mem_map.mp used
    exact ⟨by simp, by simp⟩
  · rcases mid.mem_reap reaped with rfl | ⟨p, rfl⟩ <;> exact ⟨by simp, by simp⟩

/-- Resuming the download with too little send buffer left closes the session silently. -/
private theorem parks_closes {c c' : Conn} {room : Room} {n : Nat} {out : List TcpEvent}
    (h : connMachine.step c (.resume .start room) = some (c', out)) (at_ : c.start = .completed .downloadRead (.ok n))
    (opened : c.status ≠ .close) (alive : c.pcb.freed = false)
    (low : (c.writeLocal n room).pcb.sndBuf < readThreshold) :
    c'.status = .close ∧ .stopped ∉ out ∧ .failed ∉ out := by
  have resumed : c.startResumes n room .downloadRead =
      ({ c.writeLocal n room with shouldReadFromRemote := false }.endStart, (c.localUses n room).map .used) := by
    simp only [Conn.startResumes, if_neg opened, Conn.usePcb, alive, if_pos low, List.append_nil]
    rfl
  obtain ⟨rfl, rfl⟩ := step_start h at_
  rw [resumed, Conn.status_reap]
  exact ⟨rfl, fun he => (uses_quiet he).1 rfl, fun he => (uses_quiet he).2 rfl⟩

private theorem closes_step_iff {c c' : Conn} {a : TcpAct} {out : List TcpEvent}
    (h : connMachine.step c a = some (c', out)) : ClosesForCause ⟨c, a, out, c'⟩ ↔ ¬ Parks ⟨c, a, out, c'⟩ := by
  constructor
  · rintro cause ⟨n, room, rfl, at_, opened, alive, low⟩
    obtain ⟨closed, stopped, failed⟩ := parks_closes h at_ opened alive low
    rcases cause opened closed with he | he
    · exact stopped he
    · exact failed he
  · intro free opened closed
    obtain ⟨_, mid, evs, step, rfl, rfl⟩ := tcpStep_of_step h
    simp only [Conn.status_reap] at closed
    cases step with
    | input chain | reset chain =>
      rcases callbacks_status chain with same | ⟨_, stopped⟩
      · exact absurd (same ▸ closed) opened
      · exact Or.inl (List.mem_append_left _ stopped)
    | socket move => exact absurd (move.status ▸ closed) opened
    | resumed move =>
      rcases resumes_closes move opened closed with failed | ⟨n, rfl, at_, alive, low⟩
      · exact Or.inr (List.mem_append_left _ failed)
      · exact absurd ⟨n, _, rfl, at_, opened, alive, low⟩ free

/-- In every run, the session closes only for a cause exactly when the first download
loop never parks. -/
theorem closes_for_cause_iff {ts : List (Transition Conn TcpAct TcpEvent)} {c : Conn} (run : connMachine.Run ts c) :
    (∀ t ∈ ts, ClosesForCause t) ↔ ∀ t ∈ ts, ¬ Parks t :=
  run.forall_congr (fun _ => True) (fun _ _ => trivial) (fun _ _ _ _ _ _ => trivial) _ _
    fun _ _ _ _ _ h => closes_step_iff h

/-- A connection to 9.9.9.9:80. -/
def webConn : Conn := Conn.listenerAcceptFunc [9, 9, 9, 9] 80 ⟨List.replicate 1436 0, List.length_replicate⟩ true

theorem webConn_init : connMachine.Init webConn := ⟨_, _, _, _, rfl, by decide, rfl⟩

/-- A handshake in which every operation succeeds at once. -/
def greeting : List TcpAct :=
  [.connected, .resume .start .free, .accept 3, .resume .start .free, .arrive [5, 0], .resume .start .free,
    .accept 10, .resume .start .free, .arrive [5, 0, 0, 1, 0, 0, 0, 0, 0, 0], .resume .start .free]

theorem closes_for_cause_iff_greeting : ∃ ts c, connMachine.Run ts c ∧ c.status = .relaying ∧
    ((∀ t ∈ ts, ClosesForCause t) ↔ ∀ t ∈ ts, ¬ Parks t) := by
  obtain ⟨ts, c, run, relaying⟩ := Machine.Run.exists_of_exec connMachine webConn greeting
    (fun _ c => c.status == .relaying) webConn_init (by decide +kernel)
  exact ⟨ts, c, run, by simpa using relaying, closes_for_cause_iff run⟩

/-- The server sends full buffers and the local peer acknowledges nothing. -/
def flood : List TcpAct :=
  (List.replicate 44 [TcpAct.arrive (List.replicate 1436 0), .resume .start .free]).flatten

/-- The 44th buffer leaves 2351 bytes in the send buffer and the session closes itself. -/
theorem flood_closes : ∃ ts c, connMachine.Run ts c ∧ ∃ t ∈ ts, ¬ ClosesForCause t := by
  obtain ⟨ts, c, run, silent⟩ := Machine.Run.exists_of_exec connMachine webConn (greeting ++ flood)
    (fun ts _ => ts.any fun t => t.pre.status == .relaying && t.post.status == .close &&
      !t.out.contains .stopped && !t.out.contains .failed) webConn_init (by decide +kernel)
  obtain ⟨t, ht, facts⟩ := List.any_eq_true.mp silent
  simp only [Bool.and_eq_true, beq_iff_eq, Bool.not_eq_true', List.contains_eq_mem, decide_eq_false_iff_not] at facts
  obtain ⟨⟨⟨before, after⟩, stopped⟩, failed⟩ := facts
  refine ⟨ts, c, run, t, ht, fun cause => ?_⟩
  rcases cause (by simp [before]) after with he | he
  · exact stopped he
  · exact failed he

/-! ### What reopens a session -/

/-- `SESSION_CLOSE` is left no more. -/
def StaysClosed (t : Transition Conn TcpAct TcpEvent) : Prop := t.pre.status = .close → t.post.status = .close

/-- The coroutine of `Start` goes on after a connect, or after a valid reply, that
completed before the session was closed. -/
def Revives (t : Transition Conn TcpAct TcpEvent) : Prop :=
  ∃ n room, t.act = .resume .start room ∧ t.pre.status = .close ∧
    (t.pre.start = .completed .connect (.ok n) ∨ ∃ got, t.pre.start = .completed (.requestRead got) (.ok n) ∧
      10 ≤ got + n ∧ t.pre.replyValid = true)

private theorem resumes_closed {c c' : Conn} {room : Room} {id : CoroId} {evs : List TcpEvent}
    (move : Resumes c room id evs c') (closed : c.status = .close) :
    c'.status = .close ∨ ∃ n, id = .start ∧ (c.start = .completed .connect (.ok n) ∨
      ∃ got, c.start = .completed (.requestRead got) (.ok n) ∧ 10 ≤ got + n ∧ c.replyValid = true) := by
  cases move with
  | connected at_ => exact Or.inr ⟨_, rfl, Or.inl at_⟩
  | relays at_ whole valid => exact Or.inr ⟨_, rfl, Or.inr ⟨_, at_, whole, valid⟩⟩
  | drains | downloads | parks | writerPops | readerParks | readerReads => contradiction
  | startFailed | rejected | drainEnds | downloadEnds | writerFailed => exact Or.inl rfl
  | greets | requests | drainWritesOn | startDangles | writerWritesOn | writerEnds | writerFollows | writerDangles
  | readerFailed | readerEnds | readerDangles => exact Or.inl closed

private theorem revives_reopens {c c' : Conn} {room : Room} {n : Nat} {out : List TcpEvent}
    (h : connMachine.step c (.resume .start room) = some (c', out))
    (ready : c.start = .completed .connect (.ok n) ∨ ∃ got, c.start = .completed (.requestRead got) (.ok n) ∧
      10 ≤ got + n ∧ c.replyValid = true) : c'.status ≠ .close := by
  rcases ready with at_ | ⟨got, at_, whole, valid⟩
  · obtain ⟨rfl, rfl⟩ := step_start h at_
    rw [Conn.status_reap]
    exact Status.noConfusion
  · obtain ⟨rfl, rfl⟩ := step_start h at_
    have reopened : (c.startResumes n room (.requestRead got)).1.status = .relaying := by
      simp only [Conn.startResumes, if_neg (Nat.not_lt.mpr whole), valid, if_true, Conn.status_drainLoop]
    rw [Conn.status_reap, reopened]
    exact Status.noConfusion

private theorem staysClosed_step_iff {c c' : Conn} {a : TcpAct} {out : List TcpEvent}
    (h : connMachine.step c a = some (c', out)) : StaysClosed ⟨c, a, out, c'⟩ ↔ ¬ Revives ⟨c, a, out, c'⟩ := by
  constructor
  · rintro stays ⟨n, room, rfl, closed, ready⟩
    exact revives_reopens h ready (stays closed)
  · intro free closed
    obtain ⟨_, mid, evs, step, rfl, rfl⟩ := tcpStep_of_step h
    show mid.reap.1.status = .close
    rw [Conn.status_reap]
    cases step with
    | input chain | reset chain =>
      rcases callbacks_status chain with same | ⟨closed', _⟩
      · exact same.trans closed
      · exact closed'
    | socket move => exact move.status.trans closed
    | resumed move =>
      rcases resumes_closed move closed with closed' | ⟨n, rfl, ready⟩
      · exact closed'
      · exact absurd ⟨n, _, rfl, closed, ready⟩ free

/-- In every run, `SESSION_CLOSE` is absorbing exactly when no completion of the
handshake that the cancellation missed is taken up. -/
theorem stays_closed_iff {ts : List (Transition Conn TcpAct TcpEvent)} {c : Conn} (run : connMachine.Run ts c) :
    (∀ t ∈ ts, StaysClosed t) ↔ ∀ t ∈ ts, ¬ Revives t :=
  run.forall_congr (fun _ => True) (fun _ _ => trivial) (fun _ _ _ _ _ _ => trivial) _ _
    fun _ _ _ _ _ h => staysClosed_step_iff h

theorem stays_closed_iff_greeting : ∃ ts c, connMachine.Run ts c ∧ c.status = .relaying ∧
    ((∀ t ∈ ts, StaysClosed t) ↔ ∀ t ∈ ts, ¬ Revives t) := by
  obtain ⟨ts, c, run, relaying⟩ := Machine.Run.exists_of_exec connMachine webConn greeting
    (fun _ c => c.status == .relaying) webConn_init (by decide +kernel)
  exact ⟨ts, c, run, by simpa using relaying, stays_closed_iff run⟩

/-- The local peer closes between the completion of the connect and its handler. -/
theorem connect_revives : ∃ ts c, connMachine.Run ts c ∧
    ∃ t ∈ ts, t.pre.status = .close ∧ t.post.status = .handshaking ∧ ¬ StaysClosed t := by
  obtain ⟨ts, c, run, revived⟩ := Machine.Run.exists_of_exec connMachine webConn
    [.connected, .input ⟨0, false, none, true⟩, .resume .start .free]
    (fun ts _ => ts.any fun t => t.pre.status == .close && t.post.status == .handshaking) webConn_init
    (by decide +kernel)
  obtain ⟨t, ht, facts⟩ := List.any_eq_true.mp revived
  simp only [Bool.and_eq_true, beq_iff_eq] at facts
  refine ⟨ts, c, run, t, ht, facts.1, facts.2, fun stays => ?_⟩
  have closed := stays facts.1
  rw [facts.2] at closed
  cases closed

end Tunosocks.Tcp
