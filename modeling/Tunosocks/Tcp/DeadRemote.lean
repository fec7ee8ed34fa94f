import Tunosocks.Tcp.Handshake
import Tunosocks.Tcp.Mapped

/-! A remote socket that has failed: the session is closed by the time the coroutine that met the
failure has returned, stays closed, and takes no further packet. -/
namespace Tunosocks.Tcp
open Foundation Coroutine

namespace Conn

/-- The operation a coroutine waited for has failed or met the end of the stream, and its handler is queued. -/
def FailedIn (c : Conn) : CoroId → Prop
  | .start => ∃ point, c.start = .completed point .error
  | .writer j => ∃ point, c.writers[j]? = some (.completed point .error)
  | .reader j => c.readers[j]? = some (.completed () .error)

/-- The coroutine has returned. -/
def EndedIn (c : Conn) : CoroId → Prop
  | .start => c.start = .finished
  | .writer j => c.writers[j]? = some .finished
  | .reader j => c.readers[j]? = some .finished

end Conn

/-- A segment with data does not reach `ProxyTcpPacket`: the packet is freed, the session leaves the map and
the block is closed. -/
def Refuses (c : Conn) : Prop :=
  ∀ seg p c' out, connMachine.step c (.input seg) = some (c', out) → seg.data = some p →
    (∀ q, .proxied q ∉ out) ∧
      (p.len = p.totLen → .pbufFreed p ∈ out ∧ .cleared ∈ out ∧ .tcpClosed ∈ out ∧ c'.inMap = false ∧ Retired c')

/-! ### The failure is recorded -/

section Steps
variable {c c' : Conn} {evs : List TcpEvent}

private theorem Callback.no_failed {seg : Segment} (move : Callback seg c evs c') : .failed ∉ evs := by
  cases move with
  | lwip change => cases change <;> simp
  | _ => simp

private theorem SocketMove.no_failed {a : TcpAct} (move : SocketMove c a evs c') : .failed ∉ evs := by
  cases move with
  | @startAccepts _ point => cases point <;> simp [StartPoint.accepted]
  | @startArrives _ point => cases point <;> simp [StartPoint.received]
  | _ => simp

private theorem past_of_ended (ended : c.start.point? = none) : ¬ c.Greeting := by
  rintro ⟨p, at_, _⟩
  cases ended.symm.trans at_

/-- The readers leave the status as it is, but they exist only when `Start` has closed the session. -/
private theorem Resumes.fails {room : Room} {id : CoroId} (move : Resumes c room id evs c') (shape : Shape c)
    (failed : .failed ∈ evs) : c'.status = .close ∧ ¬ c'.Greeting := by
  cases move with
  | startFailed | rejected => exact ⟨rfl, past_of_ended rfl⟩
  | writerFailed at_ =>
    refine ⟨rfl, fun greeting => ?_⟩
    have alone : c.writers = [] := shape.writers_of_greeting greeting
    rw [alone] at at_
    cases at_
  | readerFailed at_ => exact ⟨shape.closed_of_reader at_, past_of_ended (shape.start_of_reader at_)⟩
  | relays | drains =>
    simp only [List.mem_append, List.mem_cons, reduceCtorEq, List.not_mem_nil, false_or, or_false] at failed
    cases Conn.mem_drainLoop _ failed
  | startDangles _ touches => cases touches <;> simp [Conn.localUses] at failed
  | _ => simp [Conn.localUses] at failed

/-- Past the handshake a closed session is not reopened. -/
private theorem TcpStep.stays_closed {a : TcpAct} (step : TcpStep c a evs c') (shape : Shape c)
    (closed : c.status = .close) (past : ¬ c.Greeting) : c'.status = .close ∧ ¬ c'.Greeting := by
  have outlasts := step.outlasts shape past
  have shape' := step.shape shape
  refine ⟨?_, outlasts.past⟩
  cases status : c'.status with
  | init => exact absurd (shape'.opening (Or.inl status)) outlasts.past
  | handshaking => exact absurd (shape'.opening (Or.inr status)) outlasts.past
  | relaying => cases closed.symm.trans (outlasts.status status)
  | close => rfl

end Steps

/-- Running the handler of a failed operation ends the coroutine. -/
private theorem failed_ends {c c' : Conn} {id : CoroId} {room : Room} {out : List TcpEvent}
    (h : connMachine.step c (.resume id room) = some (c', out)) (failed : c.FailedIn id) :
    .failed ∈ out ∧ c'.EndedIn id := by
  obtain ⟨_, h⟩ := Option.ite_none_left_eq_some.mp h
  obtain ⟨r, resumed, h⟩ := Option.map_eq_some_iff.mp h
  cases h
  obtain ⟨_, _, reaped⟩ := r.1.reap_eq
  cases id with
  | start =>
    obtain ⟨point, at_⟩ := failed
    simp only [Conn.act, Conn.resume, at_, Option.some.injEq] at resumed
    subst resumed
    refine ⟨List.mem_append_left _ (List.mem_singleton_self _), ?_⟩
    show (c.endStart.reap.1).start = .finished
    rw [reaped]
    rfl
  | writer j =>
    obtain ⟨point, at_⟩ := failed
    simp only [Conn.act, Conn.resume, at_, Option.some.injEq] at resumed
    subst resumed
    refine ⟨List.mem_append_left _ (List.mem_singleton_self _), ?_⟩
    simp only [Conn.EndedIn, reaped]
    exact List.getElem?_set_self (List.getElem?_eq_some_iff.mp at_).1
  | reader j =>
    have at_ : c.readers[j]? = some (.completed () .error) := failed
    simp only [Conn.act, Conn.resume, at_, Option.some.injEq] at resumed
    subst resumed
    refine ⟨List.mem_append_left _ (List.mem_singleton_self _), ?_⟩
    simp only [Conn.EndedIn, reaped]
    exact List.getElem?_set_self (List.getElem?_eq_some_iff.mp at_).1

private theorem recorded_step {c c' : Conn} {a : TcpAct} {out : List TcpEvent} (shape : Shape c)
    (h : connMachine.step c a = some (c', out))
    (cause : c.status = .close ∧ ¬ c.Greeting ∨ .failed ∈ out) : c'.status = .close ∧ ¬ c'.Greeting := by
  obtain ⟨_, mid, evs, step, rfl, rfl⟩ := tcpStep_of_step h
  have recorded : mid.status = .close ∧ ¬ mid.Greeting := by
    rcases cause with ⟨closed, past⟩ | failed
    · exact step.stays_closed shape closed past
    · have failed : .failed ∈ evs := mid.mem_before_reap failed nofun nofun
      cases step with
      | input chain | reset chain =>
        have none_ : .failed ∉ [] ++ evs := by
          refine chain.preserves (fun tr _ => .failed ∉ tr) ?_ [] List.not_mem_nil
          exact fun tr _ _ _ before move h => (List.mem_append.mp h).elim before move.no_failed
        exact absurd failed none_
      | socket move => exact absurd failed move.no_failed
      | resumed move => exact move.fails shape failed
  obtain ⟨_, _, eq⟩ := mid.reap_eq
  rw [eq]
  exact recorded

/-- From the first failure a coroutine has found, the session is closed. -/
private theorem recorded_run {ts : List (Transition Conn TcpAct TcpEvent)} {c : Conn} (run : connMachine.Run ts c)
    (failed : .failed ∈ Machine.trace ts) : c.status = .close := by
  have known := run.invariant_trace
    (fun tr c => Shape c ∧ (.failed ∈ tr → c.status = .close ∧ ¬ c.Greeting)) ?_ ?_
  · exact (known.2 failed).1
  · exact fun c init => ⟨shape_init init, fun failed => nomatch failed⟩
  · rintro tr c a c' out ⟨shape, before⟩ h
    refine ⟨shape_step shape h, fun failed => recorded_step shape h ?_⟩
    exact (List.mem_append.mp failed).imp_left before

/-! ### The next packet is refused -/

section Refusal
variable {c : Conn} {seg : Segment}

private theorem whileAlive_events (r : Outcome) (f : Conn → Outcome) : r.2 <+: (whileAlive r f).2 := by
  unfold whileAlive
  split
  · exact List.prefix_rfl
  · exact List.prefix_append ..

private theorem closed_no_proxied {evs : List TcpEvent} {d : Conn} (chain : Chain (Callback seg) c evs d)
    (closed : c.status = .close) (q : Pbuf) : .proxied q ∉ evs := by
  have known := chain.preserves (fun tr d => d.status = .close ∧ .proxied q ∉ tr) ?_ [] ⟨closed, List.not_mem_nil⟩
  · exact known.2
  · rintro tr d evs d' ⟨closed, before⟩ move
    refine ⟨move.status.elim (fun same => same.trans closed) And.left, fun h => ?_⟩
    rcases List.mem_append.mp h with h | h
    · exact before h
    · cases move with
      | lwip change => cases change <;> simp at h
      | queued _ _ _ opened => exact opened closed
      | writerSpawned _ _ _ relaying => cases closed.symm.trans relaying
      | _ => simp at h

/-- `Handle` frees the packet and `tcp_recv_func` clears the session and closes the block. -/
private theorem tcpInput_refused {p : Pbuf} (service : InService c) (live : c.halted = false) (found : c.inMap = true)
    (closed : c.status = .close) (carried : seg.data = some p) (simple : p.len = p.totLen) :
    [.pbufFreed p, .stopped, .cleared, .tcpClosed] <+: (c.tcpInput seg).2 := by
  have pending := Conn.pending_acknowledged seg service live found
  have refused : (whileAlive (c.acknowledged seg, []) fun c => c.deliver (some p)).2 =
      [.pbufFreed p, .stopped, .cleared, .tcpClosed] := by
    rw [whileAlive_live (r := (c.acknowledged seg, [])) pending.allocated pending.live, andThen,
      Conn.deliver_refused pending simple closed]
    rfl
  rw [Conn.tcpInput_inService service, carried, ← refused]
  exact (whileAlive_events _ _).trans (whileAlive_events _ _)

private theorem refuses_of_closed (filed : Filed c) (closed : c.status = .close) : Refuses c := by
  intro seg p c' out h carried
  have proxied (q : Pbuf) : .proxied q ∉ out := by
    obtain ⟨mid, evs, chain, rfl, rfl⟩ := input_chain h
    exact fun passed => closed_no_proxied chain closed q (mid.mem_before_reap passed nofun nofun)
  refine ⟨proxied, fun simple => ?_⟩
  obtain ⟨live, r, happens, rfl, rfl⟩ := happens_of_step h
  cases happens with
  | socket move => cases move
  | input ok =>
    obtain ⟨found, service⟩ := filed.serves live ok (.inl (by simp [carried]))
    have events := tcpInput_refused service live found closed carried simple
    have served := Conn.tcpInput_served service live found filed.window ok
    have left : Leaves c seg (c.tcpInput seg) := by
      generalize c.tcpInput seg = r at served
      cases served with
      | acknowledged bare => cases bare.symm.trans carried
      | proxied _ _ opened => exact absurd closed opened
      | chained carried' chained =>
        cases carried'.symm.trans carried
        exact absurd simple chained
      | left _ leaves => exact leaves
    have event {e : TcpEvent} (he : e ∈ [TcpEvent.pbufFreed p, .stopped, .cleared, .tcpClosed]) :
        e ∈ (c.tcpInput seg).2 ++ (c.tcpInput seg).1.reap.2 := List.mem_append_left _ (events.subset he)
    obtain ⟨_, _, eq⟩ := (c.tcpInput seg).1.reap_eq
    refine ⟨event (by simp), event (by simp), event (by simp), ?_, ?_⟩
    · rw [Conn.inMap_reap]
      exact left.erased
    · rw [eq]
      exact left.retired

end Refusal

/-- In every run, in whichever coroutine an operation on the remote socket has failed, the session is closed when that
coroutine has returned and ever after, and the next packet of the local peer is refused. -/
theorem dead_remote_is_recorded {ts : List (Transition Conn TcpAct TcpEvent)} {c : Conn} (run : connMachine.Run ts c)
    {t : Transition Conn TcpAct TcpEvent} {id : CoroId} {room : Room} (ht : t ∈ ts) (resumed : t.act = .resume id room)
    (failed : t.pre.FailedIn id) :
    t.post.EndedIn id ∧ t.post.status = .close ∧ c.status = .close ∧ Refuses t.post ∧ Refuses c := by
  obtain ⟨us, vs, rfl, before, h⟩ := run.split ht
  rw [resumed] at h
  obtain ⟨found, ended⟩ := failed_ends h failed
  have after := before.next h
  have closed := recorded_run after (by rw [Machine.trace_snoc]; exact List.mem_append_right _ found)
  have later : c.status = .close :=
    recorded_run run (List.mem_flatMap.mpr ⟨t, List.mem_append_right _ List.mem_cons_self, found⟩)
  exact ⟨ended, closed, later, refuses_of_closed (filed_run after) closed, refuses_of_closed (filed_run run) later⟩

/-- The server closes its stream while the resumed loop reads. -/
theorem dead_remote_is_recorded_resumed : ∃ ts c, connMachine.Run ts c ∧ ∃ t ∈ ts,
    t.act = .resume (.reader 0) .free ∧ t.pre.FailedIn (.reader 0) ∧
    (connMachine.step c (.input ⟨0, false, some ⟨[7], []⟩, false⟩)).isSome ∧
    (t.post.EndedIn (.reader 0) ∧ t.post.status = .close ∧ c.status = .close ∧ Refuses t.post ∧ Refuses c) := by
  obtain ⟨ts, c, run, h⟩ := Machine.Run.exists_of_exec connMachine webConn
    (greeting ++ flood ++
      [.transmit 0 1436 [] false, .input ⟨1436, false, none, false⟩, .failRead, .resume (.reader 0) .free])
    (fun ts c => (connMachine.step c (.input ⟨0, false, some ⟨[7], []⟩, false⟩)).isSome && ts.any fun t =>
      t.act == .resume (.reader 0) .free && t.pre.readers[0]? == some (.completed () .error)) webConn_init
    (by decide +kernel)
  simp only [Bool.and_eq_true, List.any_eq_true, beq_iff_eq] at h
  obtain ⟨accepted, t, ht, resumed, failed⟩ := h
  exact ⟨ts, c, run, t, ht, resumed, failed, accepted, dead_remote_is_recorded run ht resumed failed⟩

end Tunosocks.Tcp
