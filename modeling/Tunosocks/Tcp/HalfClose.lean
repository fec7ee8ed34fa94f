import Mathlib.Algebra.Order.BigOperators.Group.List
import Mathlib.Data.Multiset.OrderedMonoid
import Mathlib.Tactic.Abel
import Tunosocks.Tcp.Backlog

/-! The FIN of the local peer. `tcp_recv_func` closes the block and stops the session at once, so what
becomes of the bytes under way in either direction depends on how far they have come by then. -/
namespace Tunosocks.Tcp
open Foundation Coroutine

/-! ### Bytes on their way to the server -/

/-- The bytes of the packet in the drain loop that the socket has not accepted. -/
def startUnsent : Coroutine StartPoint → Multiset UInt8
  | .suspended (.drainWrite front sent) | .completed (.drainWrite front sent) .error => ↑(front.payload.drop sent)
  | .completed (.drainWrite front sent) (.ok n) => ↑(front.payload.drop (sent + n))
  | _ => 0

def writerUnsent : Coroutine WriterPoint → Multiset UInt8
  | .suspended point | .completed point .error => ↑(point.payload.drop point.sent ++ point.next.flatten)
  | .completed point (.ok n) => ↑(point.payload.drop (point.sent + n) ++ point.next.flatten)
  | .finished => 0

/-- The bytes that are queued or in a write. -/
def Conn.unsent (c : Conn) : Multiset UInt8 := ↑c.backlog + startUnsent c.start + (c.writers.map writerUnsent).sum

/-- Bytes of local packets reach the socket or are still under way; they may also be lost, but none appears. -/
def Carries (c : Conn) (evs : List TcpEvent) (c' : Conn) : Prop :=
  (↑(uploadedBytes evs) : Multiset UInt8) + c'.unsent ≤ c.unsent + ↑(proxiedBytes evs)

section Carriage
variable {c c' : Conn} {evs : List TcpEvent}

theorem startUnsent_of_point {p : StartPoint} {t : Coroutine StartPoint} (at_ : t.point? = some p)
    (other : ∀ front sent, p ≠ .drainWrite front sent) : startUnsent t = 0 := by
  cases t with
  | finished => cases at_
  | suspended q =>
    cases at_
    cases p with
    | drainWrite front sent => exact absurd rfl (other front sent)
    | _ => rfl
  | completed q r =>
    cases at_
    cases p with
    | drainWrite front sent => exact absurd rfl (other front sent)
    | _ => cases r <;> rfl

theorem startUnsent_awaitStart (d : Conn) (p : StartPoint) :
    startUnsent (d.awaitStart p).start = startUnsent (.suspended p) := by
  simp only [Conn.awaitStart]
  split
  · cases p <;> rfl
  · rfl

theorem writerUnsent_awaits (point : WriterPoint) :
    writerUnsent (if point.offered = [] then .completed point (.ok 0) else .suspended point) =
      ↑(point.payload.drop point.sent ++ point.next.flatten) := by
  split <;> rfl

theorem startUnsent_cancel (t : Coroutine StartPoint) : startUnsent t.cancel = startUnsent t := by
  cases t with
  | suspended p => cases p <;> rfl
  | _ => rfl

theorem writerUnsent_cancel (t : Coroutine WriterPoint) : writerUnsent t.cancel = writerUnsent t := by
  cases t <;> rfl

/-- The socket accepts some of the bytes it is offered. -/
theorem take_add_drop (n : Nat) (data : List UInt8) : (↑(data.take n) + ↑(data.drop n) : Multiset UInt8) = ↑data := by
  rw [Multiset.coe_add, List.take_append_drop]

theorem Carries.congr (quiet : Quiet evs) (queue : c'.pbufQueue = c.pbufQueue) (start : c'.start = c.start)
    (writers : c'.writers = c.writers) : Carries c evs c' := by
  rw [Carries, quiet.1, quiet.2, Conn.unsent, Conn.unsent, Conn.backlog, Conn.backlog, queue, start, writers]
  exact (zero_add _).trans_le (add_zero _).ge

/-- The coroutine of `Start` moves bytes from the queue to its hand and from there to the socket. -/
theorem Carries.ofStart (writers : c'.writers = c.writers)
    (le : (↑(uploadedBytes evs) : Multiset UInt8) + (↑c'.backlog + startUnsent c'.start) ≤
      ↑c.backlog + startUnsent c.start + ↑(proxiedBytes evs)) : Carries c evs c' := by
  have widened := add_le_add_left le (c.writers.map writerUnsent).sum
  rw [Carries, Conn.unsent, Conn.unsent, writers, ← add_assoc, add_right_comm _ _ (proxiedBytes evs : Multiset UInt8)]
  exact widened

/-- So does a writer. -/
theorem Carries.ofWriter {j : Nat} {t u : Coroutine WriterPoint} (at_ : c.writers[j]? = some t)
    (start : c'.start = c.start) (writers : c'.writers = c.writers.set j u)
    (le : (↑(uploadedBytes evs) : Multiset UInt8) + (↑c'.backlog + writerUnsent u) ≤
      ↑c.backlog + writerUnsent t + ↑(proxiedBytes evs)) : Carries c evs c' := by
  have moved := sum_set_add at_ u writerUnsent
  refine le_of_add_le_add_right (a := writerUnsent t) ?_
  calc (↑(uploadedBytes evs) : Multiset UInt8) + c'.unsent + writerUnsent t
      = ↑(uploadedBytes evs) + (↑c'.backlog + writerUnsent u) + startUnsent c.start +
          (c.writers.map writerUnsent).sum := by
        rw [Conn.unsent, start, writers, add_assoc, add_assoc (_ + _) _ (writerUnsent t), moved]
        abel
    _ ≤ ↑c.backlog + writerUnsent t + ↑(proxiedBytes evs) + startUnsent c.start + (c.writers.map writerUnsent).sum := by
        gcongr
    _ = c.unsent + ↑(proxiedBytes evs) + writerUnsent t := by
        rw [Conn.unsent]
        abel

private theorem backlog_popped {front : Pbuf} {rest : List Pbuf} (popped : c.pbufQueue = front :: rest) :
    (↑({ c with pbufQueue := rest }.backlog) + ↑front.bytes : Multiset UInt8) = ↑c.backlog := by
  rw [Conn.backlog, Conn.backlog, popped, List.flatMap_cons, ← Multiset.coe_add, add_comm]

private theorem drainLoop_unsent (d : Conn) (simple : ∀ p ∈ d.pbufQueue, p.len = p.totLen) :
    d.drainLoop.2 = [] ∧ d.drainLoop.1.writers = d.writers ∧
      ↑d.drainLoop.1.backlog + startUnsent d.drainLoop.1.start = (↑d.backlog : Multiset UInt8) := by
  rcases d.drainLoop_cases with ⟨empty, loop⟩ | ⟨front, rest, popped, ⟨whole, loop⟩ | ⟨chained, _⟩⟩
  · rw [loop, startUnsent_awaitStart]
    exact ⟨rfl, rfl, add_zero _⟩
  · rw [loop, startUnsent_awaitStart, ← backlog_popped popped, Pbuf.bytes_of_simple whole]
    exact ⟨rfl, rfl, rfl⟩
  · exact absurd (simple front (popped ▸ List.mem_cons_self)) chained

private theorem writerLoop_unsent (d : Conn) (j : Nat) : ∃ u,
    (d.writerLoop j).writers = d.writers.set j u ∧ (d.writerLoop j).start = d.start ∧
      ↑(d.writerLoop j).backlog + writerUnsent u = (↑d.backlog : Multiset UInt8) := by
  rcases d.writerLoop_cases j with ⟨empty, loop⟩ | ⟨front, rest, popped, loop⟩
  · rw [loop]
    exact ⟨.finished, rfl, rfl, add_zero _⟩
  · rw [loop]
    refine ⟨_, rfl, rfl, ?_⟩
    rw [writerUnsent_awaits, ← backlog_popped popped]
    rfl

private theorem unsent_queued (p : Pbuf) (writers : List (Coroutine WriterPoint))
    (same : (writers.map writerUnsent).sum = (c.writers.map writerUnsent).sum)
    (queue : c'.pbufQueue = c.pbufQueue ++ [p]) (start : c'.start = c.start) (spawned : c'.writers = writers) :
    c'.unsent = c.unsent + ↑p.bytes := by
  have grown : c'.backlog = c.backlog ++ p.bytes := by simp [Conn.backlog, queue]
  rw [Conn.unsent, Conn.unsent, grown, start, spawned, same, ← Multiset.coe_add]
  abel

private theorem Callback.carries {seg : Segment} (move : Callback seg c evs c') : Carries c evs c' := by
  cases move with
  | lwip change => cases change <;> exact .congr ⟨rfl, rfl⟩ rfl rfl rfl
  | stopped =>
    have start : startUnsent c.cancel.start = startUnsent c.start := startUnsent_cancel _
    have writers : (c.cancel.writers.map writerUnsent).sum = (c.writers.map writerUnsent).sum := by
      rw [Conn.cancel, List.map_map, show writerUnsent ∘ Coroutine.cancel = writerUnsent from
        funext writerUnsent_cancel]
    rw [Carries]
    refine (zero_add _).trans_le ((add_zero _).trans ?_).ge
    rw [Conn.unsent, ← start, ← writers]
    rfl
  | @queued p =>
    have queued : Conn.unsent { c with pbufQueue := c.pbufQueue ++ [p] } = c.unsent + ↑p.bytes :=
      unsent_queued p c.writers rfl rfl rfl rfl
    rw [Carries, queued, proxiedBytes_one]
    exact (zero_add _).le
  | @writerSpawned p =>
    obtain ⟨u, writers, start, taken⟩ := writerLoop_unsent { c with
      pbufQueue := c.pbufQueue ++ [p], remoteSending := true, writers := c.writers ++ [.finished] } c.writers.length
    have queued : Conn.unsent { c with
        pbufQueue := c.pbufQueue ++ [p], remoteSending := true, writers := c.writers ++ [.finished] } =
          c.unsent + ↑p.bytes := by
      refine unsent_queued p _ ?_ rfl rfl rfl
      simp [writerUnsent]
    have loops : Carries _ [] _ := Carries.ofWriter (t := .finished) (by simp) start writers ?_
    · rw [Carries, queued] at loops
      rw [Carries, proxiedBytes_one]
      exact loops.trans_eq (add_zero _)
    · exact (zero_add _).trans_le (taken.trans ((add_zero _).trans (add_zero _)).symm).le
  | stoppedAgain | stopDangles | erased | refused | readerSpawned | crashed => exact .congr ⟨rfl, rfl⟩ rfl rfl rfl

/-- The coroutine of `Start` has nothing in hand any more. -/
private theorem Carries.rests (quiet : Quiet evs) (queue : c'.pbufQueue = c.pbufQueue)
    (writers : c'.writers = c.writers) (idle : startUnsent c'.start = 0) : Carries c evs c' := by
  refine .ofStart writers ?_
  rw [quiet.1, quiet.2, idle, Conn.backlog, Conn.backlog, queue]
  exact ((zero_add _).trans (add_zero _)).trans_le (le_self_add.trans le_self_add)

/-- A writer holds no more than before. -/
private theorem Carries.writes {j : Nat} {t u : Coroutine WriterPoint} (at_ : c.writers[j]? = some t)
    (quiet : Quiet evs) (queue : c'.pbufQueue = c.pbufQueue) (start : c'.start = c.start)
    (writers : c'.writers = c.writers.set j u) (le : writerUnsent u ≤ writerUnsent t) : Carries c evs c' := by
  refine .ofWriter at_ start writers ?_
  rw [quiet.1, quiet.2, Conn.backlog, Conn.backlog, queue]
  exact (zero_add _).trans_le ((add_le_add_right le _).trans (add_zero _).ge)

private theorem SocketMove.carries {a : TcpAct} (move : SocketMove c a evs c') : Carries c evs c' := by
  cases move with
  | connected at_ | connectFailed at_ => exact .rests ⟨rfl, rfl⟩ rfl rfl rfl
  | @startAccepts n point bytes _ _ at_ offers =>
    cases point with
    | drainWrite front sent =>
      cases offers
      refine .ofStart rfl ?_
      have parts := take_add_drop n (front.payload.drop sent)
      rw [List.drop_drop] at parts
      have bytes : uploadedBytes [StartPoint.accepted ((front.payload.drop sent).take n) (.drainWrite front sent)] =
          (front.payload.drop sent).take n := List.append_nil _
      rw [at_, bytes, startUnsent, startUnsent, ← parts, add_left_comm]
      exact (add_zero _).ge
    | _ => exact .rests ⟨rfl, rfl⟩ rfl rfl rfl
  | @writerAccepts n j point _ _ at_ =>
    refine .ofWriter at_ rfl rfl ?_
    have parts := take_add_drop n (point.payload.drop point.sent)
    rw [List.drop_drop] at parts
    have bytes : uploadedBytes [.uploaded (point.offered.take n)] = (point.payload.drop point.sent).take n :=
      List.append_nil _
    rw [bytes, writerUnsent, writerUnsent, ← Multiset.coe_add, ← Multiset.coe_add, ← parts, add_left_comm]
    exact (congrArg ((c.backlog : Multiset UInt8) + ·) (add_assoc _ _ _).symm).trans_le (add_zero _).ge
  | @startWriteFails point _ _ _ at_ =>
    refine .ofStart rfl ?_
    rw [at_]
    cases point <;> exact (zero_add _).trans_le (add_zero _).ge
  | writerWriteFails _ at_ => exact .writes at_ ⟨rfl, rfl⟩ rfl rfl rfl le_rfl
  | @startArrives _ point _ _ _ _ _ takes => cases point <;> cases takes <;> exact .rests ⟨rfl, rfl⟩ rfl rfl rfl
  | @startReadFails point _ _ _ _ takes => cases point <;> cases takes <;> exact .rests ⟨rfl, rfl⟩ rfl rfl rfl
  | readerArrives | readerReadFails | transmits => exact .congr ⟨rfl, rfl⟩ rfl rfl rfl

private theorem Resumes.carries {room : Room} {id : CoroId} (move : Resumes c room id evs c') (shape : Shape c) :
    Carries c evs c' := by
  have awaits {d : Conn} {p : StartPoint} (other : ∀ front sent, p ≠ .drainWrite front sent) :
      startUnsent (d.awaitStart p).start = 0 := startUnsent_of_point (d.point?_awaitStart p) other
  cases move with
  | startFailed | rejected | drainEnds | downloadEnds => exact .rests ⟨rfl, rfl⟩ rfl rfl rfl
  | connected | requests => exact .rests ⟨rfl, rfl⟩ rfl rfl (awaits nofun)
  | greets _ next => exact .rests ⟨rfl, rfl⟩ rfl rfl (awaits (by cases next <;> nofun))
  | relays at_ =>
    obtain ⟨quiet, writers, taken⟩ := drainLoop_unsent { c with status := .relaying } shape.simple
    rw [quiet]
    refine .ofStart writers ?_
    rw [taken]
    exact (zero_add _).trans_le (le_self_add.trans le_self_add)
  | @drainWritesOn front sent n at_ =>
    refine .ofStart rfl ?_
    rw [startUnsent_awaitStart, at_]
    exact (zero_add _).trans_le (add_zero _).ge
  | @drains front sent n at_ =>
    obtain ⟨quiet, writers, taken⟩ := drainLoop_unsent { c with pcb := c.pcb.tcpRecved front.len } shape.simple
    rw [quiet]
    refine .ofStart writers ?_
    rw [taken]
    exact (zero_add _).trans_le (le_self_add.trans le_self_add)
  | @parks n =>
    obtain ⟨_, eq, _⟩ := c.writeLocal_eq n room
    rw [eq]
    exact .rests ⟨rfl, rfl⟩ rfl rfl rfl
  | @downloads n =>
    obtain ⟨_, eq, _⟩ := c.writeLocal_eq n room
    rw [eq]
    exact .rests ⟨rfl, rfl⟩ rfl rfl (awaits nofun)
  | startDangles _ touches => cases touches <;> exact .congr ⟨rfl, rfl⟩ rfl rfl rfl
  | writerFailed at_ | writerEnds at_ => exact .writes at_ ⟨rfl, rfl⟩ rfl rfl rfl (Multiset.zero_le _)
  | @writerWritesOn j n point at_ =>
    refine .writes at_ ⟨rfl, rfl⟩ rfl rfl rfl ?_
    rw [writerUnsent_awaits]
    rfl
  | @writerFollows j n point payload next at_ _ _ _ chained =>
    refine .writes at_ ⟨rfl, rfl⟩ rfl rfl rfl ?_
    rw [writerUnsent_awaits, writerUnsent, chained, ← Multiset.coe_add (List.drop (point.sent + n) _)]
    exact Multiset.le_add_left _ _
  | @writerPops j n point at_ =>
    obtain ⟨u, writers, start, taken⟩ := writerLoop_unsent { c with pcb := c.pcb.tcpRecved point.payload.length } j
    refine .ofWriter at_ start writers ?_
    rw [taken]
    exact (zero_add _).trans_le (le_self_add.trans le_self_add)
  | writerDangles | readerFailed | readerEnds => exact .congr ⟨rfl, rfl⟩ rfl rfl rfl
  | @readerParks _ n | @readerReads _ n =>
    obtain ⟨_, eq, _⟩ := c.writeLocal_eq n room
    rw [eq]
    exact .congr ⟨rfl, rfl⟩ rfl rfl rfl
  | readerDangles => exact .congr ⟨rfl, rfl⟩ rfl rfl rfl

private theorem Carries.trans {d : Conn} {evs' : List TcpEvent} (first : Carries c evs d) (second : Carries d evs' c') :
    Carries c (evs ++ evs') c' := by
  rw [Carries, uploadedBytes_append, proxiedBytes_append, ← Multiset.coe_add, ← Multiset.coe_add, add_assoc]
  calc (↑(uploadedBytes evs) : Multiset UInt8) + (↑(uploadedBytes evs') + c'.unsent)
      ≤ ↑(uploadedBytes evs) + (d.unsent + ↑(proxiedBytes evs')) := add_le_add_right second _
    _ = ↑(uploadedBytes evs) + d.unsent + ↑(proxiedBytes evs') := (add_assoc _ _ _).symm
    _ ≤ c.unsent + ↑(proxiedBytes evs) + ↑(proxiedBytes evs') := add_le_add_left first _
    _ = c.unsent + (↑(proxiedBytes evs) + ↑(proxiedBytes evs')) := add_assoc _ _ _

private theorem reap_carries (c : Conn) : Carries c c.reap.2 c.reap.1 := by
  have quiet := c.quiet_reap
  unfold Conn.reap at quiet ⊢
  split
  · next done =>
    rw [if_pos done] at quiet
    refine .ofStart rfl ?_
    rw [quiet.1, quiet.2]
    exact ((zero_add _).trans (zero_add _)).trans_le ((Multiset.le_add_left _ _).trans le_self_add)
  · exact .congr ⟨rfl, rfl⟩ rfl rfl rfl

private theorem TcpStep.carries {a : TcpAct} (step : TcpStep c a evs c') (shape : Shape c) : Carries c evs c' := by
  cases step with
  | input chain | reset chain =>
    refine chain.preserves (fun tr d => Carries c tr d) ?_ [] (.congr ⟨rfl, rfl⟩ rfl rfl rfl)
    exact fun tr d evs d' before move => before.trans move.carries
  | socket move => exact move.carries
  | resumed move => exact move.carries shape

end Carriage

/-- In every run, the bytes the socket has accepted are bytes of packets passed on, none of them twice. -/
theorem uploaded_le_proxied {ts : List (Transition Conn TcpAct TcpEvent)} {c : Conn} (run : connMachine.Run ts c) :
    (↑(uploadedBytes (Machine.trace ts)) : Multiset UInt8) ≤ ↑(proxiedBytes (Machine.trace ts)) := by
  have known := run.invariant_trace (fun tr c => Shape c ∧ ∃ first, Conn.unsent first = 0 ∧ Carries first tr c) ?_ ?_
  · obtain ⟨_, first, none_, carries⟩ := known
    rw [Carries, none_, zero_add] at carries
    exact le_self_add.trans carries
  · intro c init
    refine ⟨shape_init init, c, ?_, .congr ⟨rfl, rfl⟩ rfl rfl rfl⟩
    obtain ⟨_, _, _, opened, _, _, rfl⟩ := init
    cases opened <;> rfl
  · rintro tr c a c' out ⟨shape, first, none_, carries⟩ h
    refine ⟨shape_step shape h, first, none_, ?_⟩
    obtain ⟨_, mid, evs, step, rfl, rfl⟩ := tcpStep_of_step h
    exact carries.trans ((step.carries shape).trans (reap_carries mid))

/-! ### Bytes taken off the window -/

/-- The window lacks the bytes accepted and not yet reported, and nothing is reported before it is written. -/
structure Credited (tr : List TcpEvent) (c : Conn) : Prop where
  window : c.pcb.rcvWnd + (proxiedBytes tr).length = tcpWnd + recvedBytes tr
  written : recvedBytes tr ≤ (uploadedBytes tr).length

section Credit
variable {tr evs : List TcpEvent} {c c' : Conn}

private theorem Credited.congr (credited : Credited tr c) (window : c'.pcb.rcvWnd = c.pcb.rcvWnd)
    (proxied : proxiedBytes evs = []) (recved : recvedBytes evs = 0) : Credited (tr ++ evs) c' := by
  constructor
  · rw [window, proxiedBytes_append, proxied, List.append_nil, recvedBytes_append, recved]
    exact credited.window
  · rw [recvedBytes_append, recved, uploadedBytes_append, List.length_append]
    exact credited.written.trans (Nat.le_add_right _ _)

/-- A coroutine leaves the window alone, or reports a buffer it has written. -/
private theorem Resumes.credits {room : Room} {id : CoroId} (move : Resumes c room id evs c') (shape : Shape c)
    (live : c'.halted = false) :
    proxiedBytes evs = [] ∧ (recvedBytes evs = 0 ∧ c'.pcb.rcvWnd = c.pcb.rcvWnd ∨
      ∃ n, .used (.tcpRecved n) ∈ evs ∧ recvedBytes evs = n ∧ c'.pcb.rcvWnd = min (c.pcb.rcvWnd + n) tcpWnd ∧
        c.status ≠ .close ∧ c'.status ≠ .close) := by
  cases move with
  | startDangles | writerDangles | readerDangles => cases live
  | relays =>
    have quiet := (drainLoop_unsent { c with status := .relaying } shape.simple).1
    obtain ⟨_, _, _, _, _, eq⟩ := Conn.drainLoop_eq { c with status := .relaying }
    rw [quiet, eq]
    exact ⟨rfl, Or.inl ⟨rfl, rfl⟩⟩
  | @drains front sent n at_ _ opened =>
    have quiet := (drainLoop_unsent { c with pcb := c.pcb.tcpRecved front.len } shape.simple).1
    obtain ⟨_, _, _, _, _, eq⟩ := Conn.drainLoop_eq { c with pcb := c.pcb.tcpRecved front.len }
    rw [quiet, eq]
    exact ⟨rfl, Or.inr ⟨front.len, by simp, by simp [recvedBytes], rfl, opened, opened⟩⟩
  | @writerFollows j n point _ _ _ _ opened =>
    exact ⟨rfl, Or.inr ⟨point.payload.length, by simp, rfl, rfl, opened, opened⟩⟩
  | @writerPops j n point _ _ opened =>
    obtain ⟨_, _, _, _, eq⟩ := Conn.writerLoop_eq { c with pcb := c.pcb.tcpRecved point.payload.length } j
    rw [eq]
    exact ⟨rfl, Or.inr ⟨point.payload.length, by simp, rfl, rfl, opened, opened⟩⟩
  | @parks n | @downloads n | @readerParks _ n | @readerReads _ n =>
    obtain ⟨_, _, _, eq⟩ := c.writeLocal_pcb n room
    rw [eq]
    exact ⟨rfl, Or.inl ⟨rfl, rfl⟩⟩
  | _ => exact ⟨rfl, Or.inl ⟨rfl, rfl⟩⟩

private theorem SocketMove.credits {a : TcpAct} (move : SocketMove c a evs c') :
    proxiedBytes evs = [] ∧ recvedBytes evs = 0 ∧ c'.pcb.rcvWnd = c.pcb.rcvWnd := by
  cases move with
  | @startAccepts _ point => cases point <;> exact ⟨rfl, rfl, rfl⟩
  | @startArrives _ point => cases point <;> exact ⟨rfl, rfl, rfl⟩
  | _ => exact ⟨rfl, rfl, rfl⟩

end Credit

/-- In every run, while a session is in the map, whatever its status. -/
private theorem credited_run {ts : List (Transition Conn TcpAct TcpEvent)} {c : Conn} (run : connMachine.Run ts c)
    (found : c.inMap = true) (live : c.halted = false) : Credited (Machine.trace ts) c := by
  induction run with
  | init init =>
    obtain ⟨_, _, _, opened, _, _, rfl⟩ := init
    exact ⟨rfl, le_rfl⟩
  | @next ts c c' a out before h ih =>
    have after := before.next h
    obtain ⟨live', r, happens, rfl, rfl⟩ := happens_of_step h
    rw [Conn.inMap_reap] at found
    obtain ⟨mapped, service, stays⟩ := happens.stays (filed_run before) live' found
    have credited := ih mapped live'
    rw [reap_mapped found] at live after ⊢
    rw [Machine.trace_snoc, List.append_nil]
    change Credited (Machine.trace ts ++ r.2) r.1
    cases stays with
    | @acknowledged seg bare open_ =>
      have window := (Conn.pending_acknowledged seg service live' mapped).window
      have none_ : seg.tcplen = 0 := by simp [Segment.tcplen, bare, open_]
      rw [none_] at window
      exact credited.congr window rfl rfl
    | @proxied seg p ok carried _ opened open_ =>
      have window := ((Conn.pending_acknowledged seg service live' mapped).proxied p).window
      have filled : seg.tcplen = p.bytes.length := by simp [Segment.tcplen, carried, open_, Pbuf.totLen]
      have fits := Conn.tcplen_le ok
      have before := credited.window
      have passed : ((c.acknowledged seg).proxyTcpPacket p).2 = [.proxied p] := by
        obtain ⟨_, _, _, _, eq⟩ := (c.acknowledged seg).proxyTcpPacket_eq p
        rw [eq]
      rw [passed]
      constructor
      · rw [proxiedBytes_append, proxiedBytes_one, List.length_append, recvedBytes_append]
        change _ = tcpWnd + (recvedBytes (Machine.trace ts) + 0)
        omega
      · rw [recvedBytes_append, uploadedBytes_append, List.length_append]
        exact Nat.add_le_add credited.written (Nat.zero_le _)
    | chained => cases live
    | socket move =>
      obtain ⟨proxied, recved, window⟩ := move.credits
      exact credited.congr window proxied recved
    | resumed move =>
      obtain ⟨proxied, ⟨recved, window⟩ | ⟨n, used, recved, window, opened, opened'⟩⟩ :=
        move.credits (shape_run before) live
      · exact credited.congr window proxied recved
      · -- an open session holds what it reports, so the clamp cuts nothing off
        have conserved := (conserved_run before mapped opened live').window
        have held := move.recved (shape_run before) used
        have reported := (conserved_run after found opened' live).reported
        rw [Machine.trace_snoc, List.append_nil] at reported
        refine ⟨?_, reported.ge.trans' (Nat.le_add_right _ _)⟩
        have before := credited.window
        rw [window, proxiedBytes_append, proxied, List.append_nil, recvedBytes_append, recved]
        omega

/-! ### The upload at the FIN -/

/-- The FIN of the local peer is answered by one of this side, and the server has been given every byte accepted
before it. -/
def HalfClosesWhole (tr : List TcpEvent) (t : Transition Conn TcpAct TcpEvent) : Prop :=
  ∀ seg, t.act = .input seg → seg.fin = true →
    t.post.pcb.state = .lastAck ∧ t.post.pcb.freed = false ∧ (uploadedBytes tr).Perm (proxiedBytes (tr ++ t.out))

/-- A FIN comes alone and finds the whole window open. -/
def FinComesLast (t : Transition Conn TcpAct TcpEvent) : Prop :=
  ∀ seg, t.act = .input seg → seg.fin = true → seg.data = none ∧ t.pre.pcb.rcvWnd = tcpWnd

/-- An operation on the remote socket fails of its own accord. -/
def TcpAct.failsAlone : TcpAct → Bool
  | .connectFailed | .failWrite | .failRead => true
  | _ => false

section Fin
variable {c c' : Conn} {seg : Segment} {out : List TcpEvent}

theorem input_of_step (h : connMachine.step c (.input seg) = some (c', out)) :
    c.halted = false ∧ c.pcb.accepts seg = true ∧ c'.pcb = (c.tcpInput seg).1.pcb ∧
      out = (c.tcpInput seg).2 ++ (c.tcpInput seg).1.reap.2 := by
  obtain ⟨live, r, happens, rfl, rfl⟩ := happens_of_step h
  cases happens with
  | socket move => cases move
  | input ok =>
    obtain ⟨_, _, eq⟩ := (c.tcpInput seg).1.reap_eq
    exact ⟨live, ok, by rw [eq], rfl⟩

private theorem fin_answered_iff (filed : Filed c) (h : connMachine.step c (.input seg) = some (c', out))
    (fin : seg.fin = true) :
    c'.pcb.state = .lastAck ∧ c'.pcb.freed = false ↔ seg.data = none ∧ c.pcb.rcvWnd = tcpWnd := by
  obtain ⟨live, ok, pcb, _⟩ := input_of_step h
  obtain ⟨found, service⟩ := filed.serves live ok (.inr fin)
  have served := Conn.tcpInput_served service live found filed.window ok
  rw [pcb]
  by_cases simple : ∀ p, seg.data = some p → p.len = p.totLen
  · have freed := Conn.tcpInput_fin service live found filed.window ok fin simple
    have retired : Retired (c.tcpInput seg).1 := by
      generalize c.tcpInput seg = r at served
      cases served with
      | acknowledged _ open_ | proxied _ _ _ open_ => cases open_.symm.trans fin
      | chained carried chained => exact absurd (simple _ carried) chained
      | left _ leaves => exact leaves.retired
    constructor
    · rintro ⟨_, allocated⟩
      by_contra short
      cases allocated.symm.trans (freed.mpr short)
    · intro last
      have allocated : (c.tcpInput seg).1.pcb.freed = false := by
        rw [Bool.eq_false_iff]
        exact fun gone => freed.mp gone last
      rcases retired with gone | ⟨state, _⟩
      · cases allocated.symm.trans gone
      · exact ⟨state, allocated⟩
  · obtain ⟨p, carried, chained⟩ : ∃ p, seg.data = some p ∧ p.len ≠ p.totLen := by
      simpa using simple
    have waiting := (Conn.pending_acknowledged seg service live found).closeWait fin
    rw [Conn.tcpInput_chained service live found carried chained]
    refine iff_of_false ?_ (fun last => nomatch carried.symm.trans last.1)
    exact fun answered => nomatch answered.1.symm.trans waiting

/-- A segment without data passes no packet on. -/
private theorem Callback.unproxied {c c' : Conn} {evs : List TcpEvent} (move : Callback seg c evs c')
    (bare : seg.data = none) : proxiedBytes evs = [] := by
  cases move with
  | lwip change => cases change <;> rfl
  | queued carried | writerSpawned carried => cases bare.symm.trans carried
  | _ => rfl

private theorem input_unproxied (h : connMachine.step c (.input seg) = some (c', out)) (bare : seg.data = none) :
    proxiedBytes out = [] := by
  obtain ⟨mid, evs, chain, rfl, rfl⟩ := input_chain h
  have passed : proxiedBytes ([] ++ evs) = [] := by
    refine chain.preserves (fun tr _ => proxiedBytes tr = []) ?_ [] rfl
    intro tr d evs d' before move
    rw [proxiedBytes_append, before, move.unproxied bare, List.nil_append]
  rw [mid.quiet_reap.proxied]
  exact passed

end Fin

private theorem halfClosesWhole_iff {ts : List (Transition Conn TcpAct TcpEvent)} {c c' : Conn} {a : TcpAct}
    {out : List TcpEvent} (run : connMachine.Run ts c) (h : connMachine.step c a = some (c', out)) :
    HalfClosesWhole (Machine.trace ts) ⟨c, a, out, c'⟩ ↔ FinComesLast ⟨c, a, out, c'⟩ := by
  refine forall_congr' fun seg => forall₂_congr fun input fin => ?_
  obtain rfl : a = .input seg := input
  have answered := fin_answered_iff (filed_run run) h fin
  rw [← and_assoc, answered]
  refine and_iff_left_of_imp fun last => ?_
  obtain ⟨live, ok, _⟩ := input_of_step h
  obtain ⟨found, _⟩ := (filed_run run).serves live ok (.inr fin)
  have credited := credited_run run found live
  have all : (proxiedBytes (Machine.trace ts)).length ≤ (uploadedBytes (Machine.trace ts)).length := by
    have window := credited.window
    have written := credited.written
    have last : c.pcb.rcvWnd = tcpWnd := last.2
    omega
  rw [proxiedBytes_append, input_unproxied h last.1, List.append_nil]
  exact Multiset.coe_eq_coe.mp (Multiset.eq_of_le_of_card_le (uploaded_le_proxied run) all)

/-- In every run, the half-close of the local peer loses nothing of its upload exactly when each FIN comes alone and
after `tcp_recved` has reported everything before it. -/
theorem half_close_whole_iff {ts : List (Transition Conn TcpAct TcpEvent)} {c : Conn} (run : connMachine.Run ts c) :
    Machine.Along HalfClosesWhole [] ts ↔ ∀ t ∈ ts, FinComesLast t :=
  run.along_congr _ _ fun _ _ _ _ _ before h => halfClosesWhole_iff before h

/-- A byte is uploaded and reported before the FIN comes. -/
theorem half_close_whole_iff_written : ∃ ts c, connMachine.Run ts c ∧
    (∃ t ∈ ts, t.act = .input ⟨0, false, none, true⟩ ∧ t.pre.pcb.rcvWnd = tcpWnd) ∧
    proxiedBytes (Machine.trace ts) = [7] ∧ uploadedBytes (Machine.trace ts) = [7] ∧
    (Machine.Along HalfClosesWhole [] ts ↔ ∀ t ∈ ts, FinComesLast t) := by
  obtain ⟨ts, c, run, h⟩ := Machine.Run.exists_of_exec connMachine webConn
    (greeting ++ [.input ⟨0, false, some ⟨[7], []⟩, false⟩, .accept 1, .resume (.writer 0) .free,
      .input ⟨0, false, none, true⟩])
    (fun ts _ => (ts.any fun t => decide (t.act = .input ⟨0, false, none, true⟩ ∧ t.pre.pcb.rcvWnd = tcpWnd)) &&
      decide (proxiedBytes (Machine.trace ts) = [7] ∧ uploadedBytes (Machine.trace ts) = [7])) webConn_init
    (by decide +kernel)
  simp only [Bool.and_eq_true, List.any_eq_true, decide_eq_true_eq] at h
  exact ⟨ts, c, run, h.1, h.2.1, h.2.2, half_close_whole_iff run⟩

/-- A request and a FIN come before the connect completes: the peer is reset and the byte is freed unwritten. -/
theorem half_close_drops_upload : ∃ ts c, connMachine.Run ts c ∧ (∀ t ∈ ts, t.act.failsAlone = false) ∧
    c.pcb.freed = true ∧ c.destroyed = true ∧ proxiedBytes (Machine.trace ts) = [7] ∧
    uploadedBytes (Machine.trace ts) = [] ∧ ¬ Machine.Along HalfClosesWhole [] ts := by
  obtain ⟨ts, c, run, h⟩ := Machine.Run.exists_of_exec connMachine webConn
    [.input ⟨0, false, some ⟨[7], []⟩, false⟩, .input ⟨0, false, none, true⟩, .resume .start .free]
    (fun ts c => (ts.all fun t => !t.act.failsAlone) && decide (c.pcb.freed = true ∧ c.destroyed = true ∧
      proxiedBytes (Machine.trace ts) = [7] ∧ uploadedBytes (Machine.trace ts) = []) &&
      ts.any fun t => decide (t.act = .input ⟨0, false, none, true⟩ ∧ t.pre.pcb.rcvWnd ≠ tcpWnd)) webConn_init
    (by decide +kernel)
  simp only [Bool.and_eq_true, List.all_eq_true, Bool.not_eq_true', List.any_eq_true, decide_eq_true_eq] at h
  obtain ⟨⟨alone, reset, destroyed, proxied, uploaded⟩, t, ht, fin, short⟩ := h
  refine ⟨ts, c, run, alone, reset, destroyed, proxied, uploaded, fun whole => ?_⟩
  have last := (run.along_congr _ _ fun _ _ _ _ _ before h => halfClosesWhole_iff before h).mp whole t ht
  exact short (last _ fin rfl).2

end Tunosocks.Tcp
