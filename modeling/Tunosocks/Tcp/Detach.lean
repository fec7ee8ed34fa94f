import Tunosocks.Tcp.Shape

/-! Use of the control block by the coroutines of a session that `Clear` has already
detached from it. -/
namespace Tunosocks.Tcp
open Foundation Coroutine

/-- No coroutine uses the block once the session is erased from the map. -/
def NoUseAfterClear (tr : List TcpEvent) : Prop :=
  tr.Pairwise fun e e' => e = .cleared → ∀ use, e' ≠ .used use

/-- After `Clear` the coroutine of `Start` goes on with a method reply, or with a whole
and valid request reply. -/
def UsesDetached (t : Transition Conn TcpAct TcpEvent) : Prop :=
  ∃ n room, t.act = .resume .start room ∧ t.pre.inMap = false ∧
    (t.pre.start = .completed .methodRead (.ok n) ∨ ∃ got, t.pre.start = .completed (.requestRead got) (.ok n) ∧
      10 ≤ got + n ∧ t.pre.replyValid = true)

/-! ### What the moves observe -/

theorem Callback.no_use {seg : Segment} {c c' : Conn} {evs : List TcpEvent} (move : Callback seg c evs c')
    (use : PcbUse) : .used use ∉ evs := by
  cases move with
  | lwip change => cases change <;> simp
  | _ => simp

theorem SocketMove.no_use {c c' : Conn} {a : TcpAct} {evs : List TcpEvent} (move : SocketMove c a evs c') :
    (∀ use, .used use ∉ evs) ∧ .cleared ∉ evs := by
  cases move with
  | @startAccepts _ point => cases point <;> simp [StartPoint.accepted]
  | @startArrives _ point => cases point <;> simp [StartPoint.received]
  | _ => simp

theorem Resumes.not_cleared {c c' : Conn} {room : Room} {id : CoroId} {evs : List TcpEvent}
    (move : Resumes c room id evs c') : .cleared ∉ evs := by
  cases move with
  | relays | drains =>
    intro h
    simp only [List.mem_append, List.mem_cons, reduceCtorEq, List.not_mem_nil, false_or, or_false] at h
    cases Conn.mem_drainLoop _ h
  | startDangles _ touches => cases touches <;> simp
  | _ => simp

theorem no_use_reap (c : Conn) : (∀ use, .used use ∉ c.reap.2) ∧ .cleared ∉ c.reap.2 := by
  refine ⟨fun use h => ?_, fun h => ?_⟩
  · rcases c.mem_reap h with h | ⟨_, h⟩ <;> cases h
  · rcases c.mem_reap h with h | ⟨_, h⟩ <;> cases h

/-- Only a coroutine that goes on uses the block. -/
theorem resumes_of_used {c c' : Conn} {a : TcpAct} {out : List TcpEvent} {use : PcbUse}
    (h : connMachine.step c a = some (c', out)) (used : .used use ∈ out) :
    ∃ id room evs mid, a = .resume id room ∧ Resumes c room id evs mid ∧ .used use ∈ evs := by
  obtain ⟨_, mid, evs, step, rfl, rfl⟩ := tcpStep_of_step h
  have here : .used use ∈ evs := (List.mem_append.mp used).resolve_right ((no_use_reap mid).1 use)
  cases step with
  | input chain | reset chain =>
    have unused : ∀ use, .used use ∉ [] ++ evs := by
      refine chain.preserves (fun tr _ => ∀ use, .used use ∉ tr) ?_ [] (fun _ => List.not_mem_nil)
      exact fun tr _ _ _ before move use h => (List.mem_append.mp h).elim (before use) (move.no_use use)
    exact absurd here (unused use)
  | socket move => exact absurd here (move.no_use.1 use)
  | resumed move => exact ⟨_, _, _, _, rfl, move, here⟩

/-- Events without a use keep the order. -/
private theorem NoUseAfterClear.append {tr evs : List TcpEvent} (before : NoUseAfterClear tr)
    (none_ : ∀ use, .used use ∉ evs) : NoUseAfterClear (tr ++ evs) := by
  refine List.pairwise_append.mpr ⟨before, ?_, ?_⟩
  · exact List.pairwise_of_forall_mem_list fun _ _ e' he' _ use eq => none_ use (eq ▸ he')
  · exact fun _ _ e' he' _ use eq => none_ use (eq ▸ he')

/-- Uses before any clearing keep the order too. -/
private theorem NoUseAfterClear.append_mapped {tr evs : List TcpEvent} (before : .cleared ∉ tr)
    (after : .cleared ∉ evs) : NoUseAfterClear (tr ++ evs) :=
  List.pairwise_of_forall_mem_list fun _ he _ _ eq =>
    absurd (eq ▸ he) (fun h => (List.mem_append.mp h).elim before after)

/-- What holds of a session when no coroutine has used the block after `Clear`. -/
structure Detached (tr : List TcpEvent) (c : Conn) : Prop where
  shape : Shape c
  ordered : NoUseAfterClear tr
  mapped : c.inMap = true → .cleared ∉ tr
  gone : c.inMap = false → c.halted = false → c.status = .close ∨ c.Greeting

theorem Callback.point? {seg : Segment} {c c' : Conn} {evs : List TcpEvent} (move : Callback seg c evs c') :
    c'.start.point? = c.start.point? := by
  cases move with
  | stopped => exact point?_cancel _
  | writerSpawned =>
    obtain ⟨_, _, _, _, eq⟩ := Conn.writerLoop_eq _ c.writers.length
    rw [eq]
  | _ => rfl

private theorem Callback.inMap {seg : Segment} {c c' : Conn} {evs : List TcpEvent} (move : Callback seg c evs c') :
    c'.inMap = c.inMap ∧ .cleared ∉ evs ∨
      c'.inMap = false ∧ .cleared ∈ evs ∧ (c.status = .close ∨ c.halted = true) := by
  cases move with
  | lwip change => exact Or.inl ⟨rfl, by cases change <;> simp⟩
  | erased _ ended => exact Or.inr ⟨rfl, List.mem_singleton_self _, ended⟩
  | writerSpawned =>
    obtain ⟨_, _, _, _, eq⟩ := Conn.writerLoop_eq _ c.writers.length
    rw [eq]
    exact Or.inl ⟨rfl, by simp⟩
  | _ => exact Or.inl ⟨rfl, by simp⟩

theorem Callback.halted {seg : Segment} {c c' : Conn} {evs : List TcpEvent} (move : Callback seg c evs c')
    (live : c'.halted = false) : c.halted = false := by
  cases move with
  | stopDangles | crashed => cases live
  | writerSpawned =>
    obtain ⟨_, _, _, _, eq⟩ := Conn.writerLoop_eq _ c.writers.length
    rw [eq] at live
    exact live
  | _ => exact live

private theorem Callback.detached {seg : Segment} {tr : List TcpEvent} {c c' : Conn} {evs : List TcpEvent}
    (move : Callback seg c evs c') (before : Detached tr c) : Detached (tr ++ evs) c' := by
  refine ⟨move.shape before.shape, before.ordered.append move.no_use, ?_, ?_⟩
  · intro found
    rcases move.inMap with ⟨same, none_⟩ | ⟨erased, _⟩
    · rw [same] at found
      exact fun h => (List.mem_append.mp h).elim (before.mapped found) none_
    · rw [erased] at found
      cases found
  · intro lost live
    have closed : c.status = .close ∨ c.Greeting := by
      rcases move.inMap with ⟨same, _⟩ | ⟨_, _, ended | halted⟩
      · exact before.gone (same ▸ lost) (move.halted live)
      · exact Or.inl ended
      · rw [move.halted live] at halted
        cases halted
    rcases closed with closed | greets
    · rcases move.status with same | ⟨closed', _⟩
      · exact Or.inl (same.trans closed)
      · exact Or.inl closed'
    · rw [Conn.Greeting, move.point?]
      exact Or.inr greets

/-- A coroutine of a detached session uses the block in two places only, and elsewhere
the session stays closed or in its handshake. -/
private theorem Resumes.detached {c c' : Conn} {room : Room} {id : CoroId} {evs : List TcpEvent}
    (move : Resumes c room id evs c') (shape : Shape c) (gone : c.status = .close ∨ c.Greeting) :
    (c'.status = .close ∨ c'.Greeting) ∧ (∀ use, .used use ∉ evs) ∨
      id = .start ∧ ∃ n, c.start = .completed .methodRead (.ok n) ∨
        ∃ got, c.start = .completed (.requestRead got) (.ok n) ∧ 10 ≤ got + n ∧ c.replyValid = true := by
  have relay {point : StartPoint} {n : Nat} (at_ : c.start = .completed point (.ok n)) (relays : point.greets = false) :
      c.status = .close := by
    refine gone.resolve_right ?_
    rintro ⟨p, at', greets⟩
    rw [at_] at at'
    cases at'
    rw [relays] at greets
    cases greets
  have writes {j : Nat} {point : WriterPoint} (at_ : c.writing[j]? = some (some point)) : c.status = .close := by
    refine gone.resolve_right fun greets => ?_
    rw [(shape.greeting greets).1] at at_
    cases at_
  have reads {j : Nat} (at_ : c.reading[j]? = some (some ())) : c.status = .close := by
    refine gone.resolve_right ?_
    rintro ⟨p, at', _⟩
    rw [(shape.active p at').1] at at_
    cases at_
  cases move with
  | startFailed | rejected | drainEnds | downloadEnds | writerFailed => exact Or.inl ⟨Or.inl rfl, by simp⟩
  | connected => exact Or.inl ⟨Or.inr ⟨_, Conn.point?_awaitStart _ _, rfl⟩, by simp⟩
  | greets _ next => exact Or.inl ⟨Or.inr ⟨_, Conn.point?_awaitStart _ _, next.greets.2⟩, by simp⟩
  | requests at_ => exact Or.inr ⟨rfl, _, Or.inl at_⟩
  | relays at_ whole valid => exact Or.inr ⟨rfl, _, Or.inr ⟨_, at_, whole, valid⟩⟩
  | drainWritesOn at_ => exact Or.inl ⟨Or.inl (relay at_ rfl), by simp⟩
  | drains at_ _ opened | parks at_ opened | downloads at_ opened => exact absurd (relay at_ rfl) opened
  | startDangles at_ touches =>
    cases touches with
    | request => exact Or.inr ⟨rfl, _, Or.inl at_⟩
    | drain _ opened | download opened => exact absurd (relay at_ rfl) opened
  | writerWritesOn at_ | writerEnds at_ => exact Or.inl ⟨Or.inl (writes (points_of_completed at_)), by simp⟩
  | writerFollows at_ _ opened | writerPops at_ _ opened | writerDangles at_ _ opened =>
    exact absurd (writes (points_of_completed at_)) opened
  | readerFailed at_ | readerEnds at_ => exact Or.inl ⟨Or.inl (reads (points_of_completed at_)), by simp⟩
  | readerParks at_ opened | readerReads at_ opened | readerDangles at_ opened =>
    exact absurd (reads (points_of_completed at_)) opened

private theorem Resumes.inMap {c c' : Conn} {room : Room} {id : CoroId} {evs : List TcpEvent}
    (move : Resumes c room id evs c') : c'.inMap = c.inMap := by
  cases move with
  | relays =>
    obtain ⟨_, _, _, _, _, eq⟩ := Conn.drainLoop_eq { c with status := .relaying }
    rw [eq]
  | @drains front =>
    obtain ⟨_, _, _, _, _, eq⟩ := Conn.drainLoop_eq { c with pcb := c.pcb.tcpRecved front.len }
    rw [eq]
  | @writerPops j =>
    obtain ⟨_, _, _, _, eq⟩ := Conn.writerLoop_eq _ j
    rw [eq]
  | @parks n | @downloads n | @readerParks _ n | @readerReads _ n =>
    obtain ⟨pcb, eq, _⟩ := c.writeLocal_eq n room
    simp only [eq, Conn.endStart, Conn.awaitStart, Conn.awaitReader]
  | _ => rfl

private theorem Detached.reap {tr : List TcpEvent} {c : Conn} (before : Detached tr c) :
    Detached (tr ++ c.reap.2) c.reap.1 := by
  have same : c.reap.1.inMap = c.inMap ∧ c.reap.1.halted = c.halted ∧ c.reap.1.start = c.start := by
    unfold Conn.reap
    split <;> exact ⟨rfl, rfl, rfl⟩
  refine ⟨shape_reap before.shape, before.ordered.append (no_use_reap c).1, ?_, ?_⟩
  · rw [same.1]
    exact fun found h => (List.mem_append.mp h).elim (before.mapped found) (no_use_reap c).2
  · rw [same.1, same.2.1, Conn.status_reap, Conn.Greeting, same.2.2]
    exact before.gone

private theorem detached_step {tr : List TcpEvent} {c c' : Conn} {a : TcpAct} {out : List TcpEvent}
    (before : Detached tr c) (h : connMachine.step c a = some (c', out)) (spared : ¬ UsesDetached ⟨c, a, out, c'⟩) :
    Detached (tr ++ out) c' := by
  obtain ⟨live, mid, evs, step, rfl, rfl⟩ := tcpStep_of_step h
  suffices after : Detached (tr ++ evs) mid by
    rw [← List.append_assoc]
    exact after.reap
  have shape := step.shape before.shape
  cases step with
  | input chain | reset chain =>
    exact chain.preserves Detached (fun _ _ _ _ before move => move.detached before) tr before
  | socket move =>
    have same : mid.inMap = c.inMap ∧ mid.halted = c.halted := by cases move <;> exact ⟨rfl, rfl⟩
    refine ⟨shape, before.ordered.append move.no_use.1, ?_, ?_⟩
    · rw [same.1]
      exact fun found h => (List.mem_append.mp h).elim (before.mapped found) move.no_use.2
    · rw [same.1, same.2, move.status, Conn.Greeting, move.point?]
      exact before.gone
  | resumed move =>
    cases found : c.inMap with
    | true =>
      refine ⟨shape, .append_mapped (before.mapped found) move.not_cleared, ?_, ?_⟩
      · exact fun _ h => (List.mem_append.mp h).elim (before.mapped found) move.not_cleared
      · intro lost
        rw [move.inMap, found] at lost
        cases lost
    | false =>
      rcases move.detached before.shape (before.gone found live) with ⟨gone, none_⟩ | ⟨rfl, n, touched⟩
      · refine ⟨shape, before.ordered.append none_, ?_, fun _ _ => gone⟩
        intro found'
        rw [move.inMap, found] at found'
        cases found'
      · exact absurd ⟨n, _, rfl, found, touched⟩ spared

/-- A session that is not in the map has been cleared. -/
private theorem cleared_step {tr : List TcpEvent} {c c' : Conn} {a : TcpAct} {out : List TcpEvent}
    (before : c.inMap = false → .cleared ∈ tr) (h : connMachine.step c a = some (c', out)) :
    c'.inMap = false → .cleared ∈ tr ++ out := by
  obtain ⟨_, mid, evs, step, rfl, rfl⟩ := tcpStep_of_step h
  suffices after : mid.inMap = false → .cleared ∈ tr ++ evs by
    have same : mid.reap.1.inMap = mid.inMap := by
      unfold Conn.reap
      split <;> rfl
    rw [same, ← List.append_assoc]
    exact fun lost => List.mem_append_left _ (after lost)
  cases step with
  | input chain | reset chain =>
    refine chain.preserves (fun tr c => c.inMap = false → .cleared ∈ tr) ?_ tr before
    intro tr c evs c' before move lost
    rcases move.inMap with ⟨same, _⟩ | ⟨_, cleared, _⟩
    · exact List.mem_append_left _ (before (same ▸ lost))
    · exact List.mem_append_right _ cleared
  | socket move =>
    have same : mid.inMap = c.inMap := by cases move <;> rfl
    exact fun lost => List.mem_append_left _ (before (same ▸ lost))
  | resumed move => exact fun lost => List.mem_append_left _ (before (move.inMap ▸ lost))

private theorem used_usePcb {c : Conn} {use : PcbUse} {uses : List PcbUse} {rest : Outcome} (h : use ∈ uses) :
    .used use ∈ (c.usePcb uses rest).2 := by
  unfold Conn.usePcb
  split <;> exact List.mem_append_left _ (List.mem_map_of_mem h)

private theorem used_of_usesDetached {c c' : Conn} {a : TcpAct} {out : List TcpEvent}
    (h : connMachine.step c a = some (c', out)) (touched : UsesDetached ⟨c, a, out, c'⟩) :
    .used .localPort ∈ out := by
  obtain ⟨n, room, rfl, _, at_ | ⟨got, at_, whole, valid⟩⟩ := touched
  · rw [(step_start h at_).2]
    exact List.mem_append_left _ (used_usePcb (List.mem_cons_of_mem _ (List.mem_singleton_self _)))
  · rw [(step_start h at_).2]
    refine List.mem_append_left _ ?_
    simp only [Conn.startResumes, if_neg (Nat.not_lt.mpr whole), valid, if_true]
    exact List.mem_cons_self

/-- In every run, no coroutine uses the block after `Clear` exactly when `Start` takes up
no reply of the handshake after it. -/
theorem no_use_after_clear_iff {ts : List (Transition Conn TcpAct TcpEvent)} {c : Conn} (run : connMachine.Run ts c) :
    NoUseAfterClear (Machine.trace ts) ↔ ∀ t ∈ ts, ¬ UsesDetached t := by
  constructor
  · intro ordered t ht touched
    obtain ⟨us, vs, rfl, earlier, step⟩ := run.split ht
    have lost : t.pre.inMap = false := by
      obtain ⟨_, _, _, lost, _⟩ := touched
      exact lost
    have cleared : .cleared ∈ Machine.trace us := by
      refine earlier.invariant_trace (fun tr c => c.inMap = false → .cleared ∈ tr) ?_
        (fun _ _ _ _ _ => cleared_step) lost
      rintro c ⟨_, _, _, _, _, _, rfl⟩ lost
      cases lost
    have used : .used .localPort ∈ t.out := used_of_usesDetached step touched
    have parts : Machine.trace (us ++ t :: vs) = Machine.trace us ++ (t.out ++ Machine.trace vs) := by
      simp [Machine.trace]
    rw [parts] at ordered
    exact (List.pairwise_append.mp ordered).2.2 _ cleared _ (List.mem_append_left _ used) rfl _ rfl
  · intro spared
    refine (run.guarded_trace (fun t => ¬ UsesDetached t) Detached ?_
      (fun _ _ _ _ _ before h spared => detached_step before h spared) spared).ordered
    intro c init
    refine ⟨shape_init init, .nil, fun _ => List.not_mem_nil, ?_⟩
    obtain ⟨_, _, _, _, _, _, rfl⟩ := init
    intro lost
    cases lost

theorem no_use_after_clear_iff_greeting : ∃ ts c, connMachine.Run ts c ∧ c.status = .relaying ∧
    (NoUseAfterClear (Machine.trace ts) ↔ ∀ t ∈ ts, ¬ UsesDetached t) := by
  obtain ⟨ts, c, run, relaying⟩ := Machine.Run.exists_of_exec connMachine webConn greeting
    (fun _ c => c.status == .relaying) webConn_init (by decide +kernel)
  exact ⟨ts, c, run, by simpa using relaying, no_use_after_clear_iff run⟩

/-- The local peer closes between the arrival of the method reply and its handler. -/
theorem method_reply_touches : ∃ ts c, connMachine.Run ts c ∧ ¬ NoUseAfterClear (Machine.trace ts) := by
  obtain ⟨ts, c, run, late⟩ := Machine.Run.exists_of_exec connMachine webConn
    (greeting.take 5 ++ [.input ⟨0, false, none, true⟩, .resume .start .free])
    (fun ts _ => (Machine.trace ts).reverse.take 3 == [.used .localPort, .used .localIp, .cleared]) webConn_init
    (by decide +kernel)
  refine ⟨ts, c, run, fun ordered => ?_⟩
  have reversed := List.pairwise_reverse.mpr ordered
  rw [← List.take_append_drop 3 (Machine.trace ts).reverse, beq_iff_eq.mp late] at reversed
  simp at reversed

end Tunosocks.Tcp
