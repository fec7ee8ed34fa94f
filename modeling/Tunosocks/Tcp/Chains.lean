import Tunosocks.Tcp.Mapped
import Tunosocks.Tcp.Stream

/-! Chains of buffers on the way up: the assertion in front of both paths, and the bytes each of them writes. -/
namespace Tunosocks.Tcp
open Foundation Coroutine

namespace Conn

/-- The packet of which a coroutine, when it goes on, finds all bytes written. -/
def doneWith (c : Conn) : CoroId → Option Pbuf
  | .start =>
    match c.start with
    | .completed (.drainWrite front sent) (.ok n) => if front.len ≤ sent + n then some front else none
    | _ => none
  | .writer j =>
    match c.writers[j]? with
    | some (.completed point (.ok n)) =>
      if point.payload.length ≤ point.sent + n ∧ point.next = [] then some point.front else none
    | _ => none
  | .reader _ => none

end Conn

/-- What the remote socket has accepted of the packet a coroutine is writing: the count starts again with the next. -/
def tally (id : CoroId) (bytes : List UInt8) (t : Transition Conn TcpAct TcpEvent) : List UInt8 :=
  match t.act with
  | .accept _ => if t.pre.writeQueue.head? = some id then bytes ++ uploadedBytes t.out else bytes
  | .resume id' _ => if id' = id ∧ t.pre.doneWith id ≠ none then [] else bytes
  | _ => bytes

def writtenBy (id : CoroId) (ts : List (Transition Conn TcpAct TcpEvent)) : List UInt8 := ts.foldl (tally id) []

/-- Whenever the drain loop or a writer is done with a packet, the bytes accepted of it are those of its chain. -/
def WritesWhole (ts : List (Transition Conn TcpAct TcpEvent)) : Prop :=
  ∀ us t vs, ts = us ++ t :: vs → ∀ id room p, t.act = .resume id room → t.pre.doneWith id = some p →
    writtenBy id us = p.bytes

/-- No assertion fails on the data of a segment. -/
def AcceptsChain (t : Transition Conn TcpAct TcpEvent) : Prop :=
  ∀ seg p, t.act = .input seg → seg.data = some p → .crashed ∉ t.out

/-- All bytes of the delivered chain are in its first buffer. -/
def SingleBuffer (t : Transition Conn TcpAct TcpEvent) : Prop :=
  ∀ seg p, t.act = .input seg → seg.data = some p → p.len = p.totLen

/-! ### The bytes of the packet a coroutine holds -/

/-- What the drain loop has had accepted of its packet, with `more` bytes it has not been told of. -/
def StartPoint.Counts (bytes : List UInt8) (more : Nat) : StartPoint → Prop
  | .drainWrite front sent => front.len = front.totLen ∧ bytes = front.payload.take (sent + more)
  | .downloadRead => True
  | _ => bytes = []

def StartTallied (bytes : List UInt8) (t : Coroutine StartPoint) : Prop :=
  ∀ p, t.point? = some p → p.Counts bytes t.transferred

/-- What a writer has had accepted: the buffers before the present one and the beginning of that. -/
def WriterTallied (bytes : List UInt8) (t : Coroutine WriterPoint) : Prop :=
  ∀ point, t.point? = some point → ∃ before,
    point.front.payload :: point.front.next = before ++ point.payload :: point.next ∧
      bytes = before.flatten ++ point.payload.take (point.sent + t.transferred)

structure Tallied (bytes : CoroId → List UInt8) (c : Conn) : Prop where
  start : StartTallied (bytes .start) c.start
  writers : ∀ j t, c.writers[j]? = some t → WriterTallied (bytes (.writer j)) t
  fresh : ∀ j, c.writers.length ≤ j → bytes (.writer j) = []

section Moves
variable {c c' : Conn} {evs : List TcpEvent} {bytes : CoroId → List UInt8}

private theorem StartTallied.congr {w : List UInt8} {t t' : Coroutine StartPoint} (tallied : StartTallied w t)
    (point : t'.point? = t.point?) (same : t'.transferred = t.transferred) : StartTallied w t' := by
  rw [StartTallied, point, same]
  exact tallied

private theorem WriterTallied.congr {w : List UInt8} {t t' : Coroutine WriterPoint} (tallied : WriterTallied w t)
    (point : t'.point? = t.point?) (same : t'.transferred = t.transferred) : WriterTallied w t' := by
  rw [WriterTallied, point, same]
  exact tallied

private theorem startTallied_finished {w : List UInt8} : StartTallied w .finished := nofun

private theorem writerTallied_finished {w : List UInt8} : WriterTallied w .finished := nofun

/-- The buffer being written is accepted whole. -/
private theorem WriterTallied.whole {w : List UInt8} {point : WriterPoint} {n : Nat}
    (tallied : WriterTallied w (.completed point (.ok n))) (whole : point.payload.length ≤ point.sent + n) :
    ∃ before, point.front.payload :: point.front.next = before ++ point.payload :: point.next ∧
      w = before.flatten ++ point.payload := by
  obtain ⟨before, chain, counted⟩ := tallied point rfl
  exact ⟨before, chain, counted.trans (congrArg (before.flatten ++ ·) (List.take_of_length_le whole))⟩

/-- The writers and their counts stay. -/
private theorem Tallied.of_start {bytes' : CoroId → List UInt8} (tallied : Tallied bytes c)
    (start : StartTallied (bytes' .start) c'.start) (writers : c'.writers = c.writers)
    (same : ∀ j, bytes' (.writer j) = bytes (.writer j)) : Tallied bytes' c' := by
  refine ⟨start, fun j t at_ => ?_, fun j past => ?_⟩
  · rw [same j]
    exact tallied.writers j t (writers ▸ at_)
  · rw [same j]
    exact tallied.fresh j (writers ▸ past)

private theorem Tallied.same (tallied : Tallied bytes c) (start : c'.start = c.start)
    (writers : c'.writers = c.writers) : Tallied bytes c' :=
  tallied.of_start (start ▸ tallied.start) writers fun _ => rfl

/-- One writer is replaced, and its count. -/
private theorem Tallied.of_writer {bytes' : CoroId → List UInt8} (tallied : Tallied bytes c) {j : Nat}
    {t : Coroutine WriterPoint} (start : c'.start = c.start) (writers : c'.writers = c.writers.set j t)
    (new : WriterTallied (bytes' (.writer j)) t) (past : c.writers.length ≤ j → bytes' (.writer j) = [])
    (same : ∀ id, id ≠ .writer j → bytes' id = bytes id) : Tallied bytes' c' := by
  have other {i : Nat} (ne : j ≠ i) : bytes' (.writer i) = bytes (.writer i) :=
    same _ fun h => ne (CoroId.writer.inj h).symm
  refine ⟨?_, fun i t' at_ => ?_, fun i beyond => ?_⟩
  · rw [start, same .start nofun]
    exact tallied.start
  · rw [writers] at at_
    by_cases eq : j = i
    · subst eq
      rw [List.getElem?_set_self'] at at_
      obtain ⟨_, _, rfl⟩ := Option.map_eq_some_iff.mp at_
      exact new
    · rw [List.getElem?_set_ne eq] at at_
      rw [other eq]
      exact tallied.writers i t' at_
  · rw [writers, List.length_set] at beyond
    by_cases eq : j = i
    · subst eq
      exact past beyond
    · rw [other eq]
      exact tallied.fresh i beyond

private theorem Tallied.set (tallied : Tallied bytes c) {j : Nat} {t : Coroutine WriterPoint}
    (start : c'.start = c.start) (writers : c'.writers = c.writers.set j t)
    (new : WriterTallied (bytes (.writer j)) t) : Tallied bytes c' :=
  tallied.of_writer start writers new (tallied.fresh j) fun _ _ => rfl

/-- A writer waits for the next write of its packet. -/
private theorem Tallied.awaitWriter {bytes' : CoroId → List UInt8} {d : Conn} (tallied : Tallied bytes c) {j : Nat}
    {point : WriterPoint} (start : d.start = c.start) (writers : d.writers = c.writers)
    (held : ∃ before, point.front.payload :: point.front.next = before ++ point.payload :: point.next ∧
      bytes' (.writer j) = before.flatten ++ point.payload.take point.sent)
    (past : c.writers.length ≤ j → bytes' (.writer j) = []) (same : ∀ id, id ≠ .writer j → bytes' id = bytes id) :
    Tallied bytes' (d.awaitWriter j point) := by
  have replaced : (d.awaitWriter j point).writers = c.writers.set j
      (if point.offered = [] then .completed point (.ok 0) else .suspended point) := by
    rw [← writers]
    rfl
  refine tallied.of_writer start replaced ?_ past same
  split
  all_goals
    rintro _ ⟨⟩
    exact held

/-- A writer begins a packet, or has none left. -/
private theorem Tallied.writerLoop {bytes' : CoroId → List UInt8} {d : Conn} (tallied : Tallied bytes c) {j : Nat}
    (start : d.start = c.start) (writers : d.writers = c.writers) (none_ : bytes' (.writer j) = [])
    (same : ∀ id, id ≠ .writer j → bytes' id = bytes id) : Tallied bytes' (d.writerLoop j) := by
  rcases d.writerLoop_cases j with ⟨_, loop⟩ | ⟨front, rest, _, loop⟩
  · rw [loop]
    refine tallied.of_writer start ?_ writerTallied_finished (fun _ => none_) same
    rw [← writers]
  · rw [loop]
    exact tallied.awaitWriter start writers ⟨[], rfl, none_⟩ (fun _ => none_) same

/-- `Start` waits for its next operation, with nothing of a packet accepted or the next part still to go. -/
private theorem Tallied.awaitStart {bytes' : CoroId → List UInt8} {d : Conn} (tallied : Tallied bytes c)
    (p : StartPoint) (writers : d.writers = c.writers) (same : ∀ id, id ≠ .start → bytes' id = bytes id)
    (next : p.Counts (bytes' .start) 0) : Tallied bytes' (d.awaitStart p) := by
  refine tallied.of_start (fun q at_ => ?_) writers fun j => same (.writer j) nofun
  have idle : (d.awaitStart p).start.transferred = 0 := by
    unfold Conn.awaitStart
    split <;> rfl
  cases (d.point?_awaitStart p).symm.trans at_
  rw [idle]
  exact next

/-- The drain loop begins a packet, goes on to the download or fails an assertion. -/
private theorem Tallied.drainLoop {bytes' : CoroId → List UInt8} {d : Conn} (tallied : Tallied bytes c)
    (writers : d.writers = c.writers) (none_ : bytes' .start = []) (same : ∀ id, id ≠ .start → bytes' id = bytes id) :
    d.drainLoop.1.halted = true ∨ Tallied bytes' d.drainLoop.1 := by
  rcases d.drainLoop_cases with ⟨_, loop⟩ | ⟨front, rest, _, ⟨simple, loop⟩ | ⟨_, loop⟩⟩
  · rw [loop]
    exact Or.inr (tallied.awaitStart .downloadRead writers same trivial)
  · rw [loop]
    exact Or.inr (tallied.awaitStart (.drainWrite front 0) writers same ⟨simple, none_⟩)
  · rw [loop]
    exact Or.inl rfl

/-- A writer is added that has not begun. -/
private theorem Tallied.spawn {d : Conn} (tallied : Tallied bytes c) (start : d.start = c.start)
    (writers : d.writers = c.writers ++ [.finished]) : Tallied bytes d := by
  refine ⟨start ▸ tallied.start, fun j t at_ => ?_, fun j past => tallied.fresh j ?_⟩
  · rw [writers, List.getElem?_append] at at_
    split at at_
    · exact tallied.writers j t at_
    · obtain rfl : t = .finished := List.mem_singleton.mp (List.mem_of_getElem? at_)
      exact writerTallied_finished
  · rw [writers, List.length_append] at past
    exact Nat.le_trans (Nat.le_add_right _ _) past

private theorem Tallied.cancel (tallied : Tallied bytes c) : Tallied bytes c.cancel := by
  refine ⟨tallied.start.congr (point?_cancel _) (transferred_cancel _), fun j t at_ => ?_, fun j past => ?_⟩
  · have at_ : (c.writers.map Coroutine.cancel)[j]? = some t := at_
    rw [List.getElem?_map] at at_
    obtain ⟨t', at', rfl⟩ := Option.map_eq_some_iff.mp at_
    exact (tallied.writers j t' at').congr (point?_cancel _) (transferred_cancel _)
  · have past : (c.writers.map Coroutine.cancel).length ≤ j := past
    rw [List.length_map] at past
    exact tallied.fresh j past

private theorem Callback.tallied {seg : Segment} (move : Callback seg c evs c') (tallied : Tallied bytes c) :
    Tallied bytes c' := by
  cases move with
  | stopped => exact tallied.cancel.same rfl rfl
  | @writerSpawned p =>
    have spawned : Tallied bytes { c with
        pbufQueue := c.pbufQueue ++ [p], remoteSending := true, writers := c.writers ++ [.finished] } :=
      tallied.spawn rfl rfl
    exact spawned.writerLoop rfl rfl (tallied.fresh _ (Nat.le_refl _)) fun _ _ => rfl
  | _ => exact tallied.same rfl rfl

/-- An operation of `Start` ends that is not a write of the drain loop, or fails. -/
private theorem StartTallied.completes {w : List UInt8} {t : Coroutine StartPoint} {p : StartPoint} {r : Completion}
    (tallied : StartTallied w t) (at_ : t = .suspended p) (silent : r = .error ∨ p.window ≠ none ∨ p = .connect) :
    StartTallied w (.completed p r) := by
  subst at_
  have before := tallied p rfl
  rintro _ ⟨⟩
  cases p with
  | drainWrite front sent =>
    rcases silent with rfl | silent | silent
    · exact before
    · exact absurd rfl silent
    · cases silent
  | _ => exact before

private theorem take_grows (payload : List UInt8) (sent n : Nat) :
    payload.take (sent + 0) ++ ((payload.drop sent).take n ++ []) = payload.take (sent + n) := by
  rw [Nat.add_zero, List.append_nil, ← List.take_add]

/-- The socket takes more of what `Start` writes. -/
private theorem StartTallied.accepts {w bytes : List UInt8} {t : Coroutine StartPoint} {p : StartPoint} {n : Nat}
    {buff : RecvBuff} (tallied : StartTallied w t) (at_ : t = .suspended p) (offers : p.offered buff = some bytes) :
    StartTallied (w ++ uploadedBytes [p.accepted (bytes.take n)]) (.completed p (.ok n)) := by
  subst at_
  have before := tallied p rfl
  rintro _ ⟨⟩
  cases p with
  | drainWrite front sent =>
    cases offers
    obtain ⟨simple, rfl⟩ := before
    refine ⟨simple, ?_⟩
    exact take_grows front.payload sent n
  | downloadRead => trivial
  | methodWrite | requestWrite =>
    obtain rfl : w = [] := before
    rfl
  | _ => cases offers

/-- What an action adds to the count of each coroutine. -/
private theorem SocketMove.tallied {a : TcpAct} {tail : List TcpEvent} {last : Conn} (move : SocketMove c a evs c')
    (tallied : Tallied bytes c) (quiet : uploadedBytes tail = []) :
    Tallied (fun id => tally id (bytes id) ⟨c, a, evs ++ tail, last⟩) c' := by
  have added : uploadedBytes (evs ++ tail) = uploadedBytes evs := by
    rw [uploadedBytes_append, quiet, List.append_nil]
  cases move with
  | startAccepts oldest at_ offers =>
    refine tallied.of_start ?_ rfl fun j => ?_
    · simp only [tally, oldest, List.head?_cons, if_true, added]
      exact tallied.start.accepts at_ offers
    · simp [tally, oldest]
  | @writerAccepts n j point rest oldest at_ =>
    obtain ⟨before, chain, counted⟩ := tallied.writers j _ at_ point rfl
    refine tallied.of_writer rfl rfl ?_ ?_ fun id other => ?_
    · rintro _ ⟨⟩
      refine ⟨before, chain, ?_⟩
      simp only [tally, oldest, List.head?_cons, if_true, added, counted, List.append_assoc]
      exact congrArg (before.flatten ++ ·) (take_grows point.payload point.sent n)
    · intro past
      rw [List.getElem?_eq_none past] at at_
      cases at_
    · have apart : ¬ CoroId.writer j = id := fun h => other h.symm
      simp [tally, oldest, apart]
  | connected at_ => exact tallied.of_start (tallied.start.completes at_ (Or.inr (Or.inr rfl))) rfl fun _ => rfl
  | connectFailed at_ | startReadFails _ at_ | startWriteFails _ at_ =>
    exact tallied.of_start (tallied.start.completes at_ (Or.inl rfl)) rfl fun _ => rfl
  | startArrives _ at_ takes =>
    refine tallied.of_start (tallied.start.completes at_ (Or.inr (Or.inl ?_))) rfl fun _ => rfl
    rw [takes]
    nofun
  | writerWriteFails _ at_ => exact tallied.set rfl rfl ((tallied.writers _ _ at_).congr rfl rfl)
  | readerArrives | readerReadFails | transmits => exact tallied.same rfl rfl

private theorem doneWith_drain {front : Pbuf} {sent n : Nat}
    (at_ : c.start = .completed (.drainWrite front sent) (.ok n)) :
    c.doneWith .start = if front.len ≤ sent + n then some front else none := by
  simp only [Conn.doneWith, at_]

private theorem doneWith_writer {j n : Nat} {point : WriterPoint}
    (at_ : c.writers[j]? = some (.completed point (.ok n))) :
    c.doneWith (.writer j) =
      if point.payload.length ≤ point.sent + n ∧ point.next = [] then some point.front else none := by
  simp only [Conn.doneWith, at_]

/-- During the handshake nothing of a packet is accepted. -/
private theorem Tallied.early (tallied : Tallied bytes c) {p : StartPoint} {n : Nat}
    (at_ : c.start = .completed p (.ok n)) (greets : p.greets = true) :
    c.doneWith .start = none ∧ bytes .start = [] := by
  have counted := tallied.start p (point?_of_completed at_)
  cases p with
  | drainWrite | downloadRead => cases greets
  | _ => exact ⟨by simp only [Conn.doneWith, at_], counted⟩

/-- A coroutine that goes on keeps the count of its packet, or begins a new one when it is done with it. -/
private theorem Resumes.tallied {room : Room} {id : CoroId} {bytes' : CoroId → List UInt8}
    (move : Resumes c room id evs c') (tallied : Tallied bytes c)
    (same : ∀ other, other ≠ id → bytes' other = bytes other)
    (kept : c.doneWith id = none → bytes' id = bytes id) (reset : c.doneWith id ≠ none → bytes' id = []) :
    c'.halted = true ∨ Tallied bytes' c' := by
  have ends {d : Conn} (gone : d.start = .finished) (writers : d.writers = c.writers) (id_ : id = .start) :
      Tallied bytes' d := by
    refine tallied.of_start ?_ writers fun j => same (.writer j) (by rw [id_]; nofun)
    rw [gone]
    exact startTallied_finished
  have aside {d : Conn} (start : d.start = c.start) (writers : d.writers = c.writers)
      (reads : ∀ j, CoroId.writer j ≠ id) (start_ : CoroId.start ≠ id) : Tallied bytes' d := by
    refine tallied.of_start ?_ writers fun j => same _ (reads j)
    rw [start, same _ start_]
    exact tallied.start
  have inside {j : Nat} {t : Coroutine WriterPoint} (at_ : c.writers[j]? = some t) {w : List UInt8}
      (past : c.writers.length ≤ j) : w = [] := by
    rw [List.getElem?_eq_none past] at at_
    cases at_
  cases move with
  | startFailed | rejected | drainEnds | downloadEnds => exact Or.inr (ends rfl rfl rfl)
  | @parks n =>
    obtain ⟨pcb, eq, _⟩ := c.writeLocal_eq n room
    rw [eq]
    exact Or.inr (ends rfl rfl rfl)
  | connected at_ | requests at_ =>
    obtain ⟨none_, empty⟩ := tallied.early at_ rfl
    exact Or.inr (tallied.awaitStart _ rfl same ((kept none_).trans empty))
  | greets at_ next =>
    obtain ⟨none_, empty⟩ := tallied.early at_ next.greets.1
    refine Or.inr (tallied.awaitStart _ rfl same ?_)
    cases next <;> exact (kept none_).trans empty
  | relays at_ =>
    obtain ⟨none_, empty⟩ := tallied.early at_ rfl
    refine tallied.drainLoop ?_ ((kept none_).trans empty) same
    rfl
  | drainWritesOn at_ short =>
    have none_ : c.doneWith .start = none := by rw [doneWith_drain at_, if_neg (Nat.not_le.mpr short)]
    obtain ⟨simple, counted⟩ := tallied.start _ (point?_of_completed at_)
    rw [at_] at counted
    exact Or.inr (tallied.awaitStart _ rfl same ⟨simple, (kept none_).trans counted⟩)
  | drains at_ whole =>
    have done : c.doneWith .start ≠ none := by
      rw [doneWith_drain at_, if_pos whole]
      nofun
    refine tallied.drainLoop ?_ (reset done) same
    rfl
  | @downloads n =>
    obtain ⟨pcb, eq, _⟩ := c.writeLocal_eq n room
    rw [eq]
    refine Or.inr (tallied.awaitStart _ ?_ same trivial)
    rfl
  | startDangles | writerDangles | readerDangles => exact Or.inl rfl
  | writerFailed at_ | writerEnds at_ =>
    exact Or.inr (tallied.of_writer rfl rfl writerTallied_finished (inside at_) same)
  | @writerWritesOn j n point at_ short =>
    have none_ : c.doneWith (.writer j) = none := by
      rw [doneWith_writer at_, if_neg fun h => Nat.not_le.mpr short h.1]
    obtain ⟨before, chain, counted⟩ := tallied.writers j _ at_ point rfl
    exact Or.inr (tallied.awaitWriter rfl rfl ⟨before, chain, (kept none_).trans counted⟩ (inside at_) same)
  | @writerFollows j n point payload next at_ whole _ _ chained =>
    have none_ : c.doneWith (.writer j) = none := by
      rw [doneWith_writer at_, if_neg]
      rintro ⟨_, last⟩
      cases chained.symm.trans last
    obtain ⟨before, chain, all⟩ := (tallied.writers j _ at_).whole whole
    refine Or.inr (tallied.awaitWriter rfl rfl ⟨before ++ [point.payload], ?_, ?_⟩ (inside at_) same)
    · rw [List.append_assoc, ← chained]
      exact chain
    · rw [kept none_, all]
      simp
  | @writerPops j n point at_ whole _ _ last =>
    have done : c.doneWith (.writer j) ≠ none := by
      rw [doneWith_writer at_, if_pos ⟨whole, last⟩]
      nofun
    refine Or.inr (tallied.writerLoop ?_ ?_ (reset done) same)
    · rfl
    · rfl
  | readerFailed | readerEnds => exact Or.inr (aside rfl rfl (fun _ => nofun) nofun)
  | @readerParks j n | @readerReads j n =>
    obtain ⟨pcb, eq, _⟩ := c.writeLocal_eq n room
    rw [eq]
    refine Or.inr (aside ?_ ?_ (fun _ => nofun) nofun)
    · rfl
    · rfl

/-- All bytes of the chain have been accepted. -/
private theorem Tallied.done (tallied : Tallied bytes c) {id : CoroId} {p : Pbuf} (done : c.doneWith id = some p) :
    bytes id = p.bytes := by
  cases id with
  | reader => cases done
  | start =>
    simp only [Conn.doneWith] at done
    split at done
    · next front sent n at_ =>
      obtain ⟨whole, same⟩ := Option.ite_none_right_eq_some.mp done
      cases same
      obtain ⟨simple, counted⟩ := tallied.start _ (point?_of_completed at_)
      rw [at_] at counted
      rw [Pbuf.bytes_of_simple simple]
      exact counted.trans (List.take_of_length_le whole)
    · cases done
  | writer j =>
    simp only [Conn.doneWith] at done
    split at done
    · next point n at_ =>
      obtain ⟨⟨whole, last⟩, same⟩ := Option.ite_none_right_eq_some.mp done
      cases same
      obtain ⟨before, chain, all⟩ := (tallied.writers j _ at_).whole whole
      have bytes_ : point.front.bytes = (point.front.payload :: point.front.next).flatten := rfl
      rw [all, bytes_, chain, last]
      simp
    · cases done

/-- The counts after one step. -/
private theorem tallied_step {ts : List (Transition Conn TcpAct TcpEvent)} {a : TcpAct} {out : List TcpEvent}
    (tallied : Tallied (writtenBy · ts) c) (h : connMachine.step c a = some (c', out)) :
    c'.halted = true ∨ Tallied (writtenBy · (ts ++ [⟨c, a, out, c'⟩])) c' := by
  have counted : (writtenBy · (ts ++ [⟨c, a, out, c'⟩])) =
      fun id => tally id (writtenBy id ts) ⟨c, a, out, c'⟩ := by
    funext id
    rw [writtenBy, List.foldl_append]
    rfl
  rw [counted]
  obtain ⟨_, mid, evs, step, rfl, rfl⟩ := tcpStep_of_step h
  obtain ⟨_, _, eq⟩ := mid.reap_eq
  have reaped {bytes' : CoroId → List UInt8} (h : mid.halted = true ∨ Tallied bytes' mid) :
      mid.reap.1.halted = true ∨ Tallied bytes' mid.reap.1 := by
    rw [eq]
    exact h.imp_right fun tallied => tallied.same rfl rfl
  refine reaped ?_
  cases step with
  | input chain | reset chain =>
    exact Or.inr (chain.keeps (Tallied (writtenBy · ts)) (fun _ _ _ tallied move => move.tallied tallied) tallied)
  | socket move => exact Or.inr (move.tallied tallied (silent_reap mid).2.2)
  | @resumed id room _ _ move =>
    refine move.tallied tallied (fun other apart => ?_) (fun none_ => ?_) (fun done => ?_)
    · simp [tally, apart.symm]
    · simp [tally, none_]
    · simp [tally, done]

end Moves

private theorem tallied_run {ts : List (Transition Conn TcpAct TcpEvent)} {c : Conn} (run : connMachine.Run ts c) :
    c.halted = true ∨ Tallied (writtenBy · ts) c := by
  induction run with
  | init h =>
    obtain ⟨_, _, _, opened, _, _, rfl⟩ := h
    refine Or.inr ⟨?_, nofun, fun _ _ => rfl⟩
    cases opened
    · exact startTallied_finished
    · rintro _ ⟨⟩
      rfl
  | next run step ih =>
    have live : _ = false := (happens_of_step step).1
    exact tallied_step (ih.resolve_left (by rw [live]; nofun)) step

/-- Both paths write the bytes of the whole chain, in every run. -/
theorem writesWhole_run {ts : List (Transition Conn TcpAct TcpEvent)} {c : Conn} (run : connMachine.Run ts c) :
    WritesWhole ts := by
  rintro us t vs rfl id room p act done
  obtain ⟨before, step⟩ := run.upTo
  have live : t.pre.halted = false := (happens_of_step step).1
  exact ((tallied_run before).resolve_left (by rw [live]; nofun)).done done

private theorem calm_reap (c : Conn) : .crashed ∉ c.reap.2 := by
  unfold Conn.reap
  split
  · simp
  · exact List.not_mem_nil

private theorem calm_served {c : Conn} {seg : Segment} {p : Pbuf} {r : Outcome} (served : Served c seg r)
    (carried : seg.data = some p) (simple : p.len = p.totLen) : .crashed ∉ r.2 := by
  cases served with
  | acknowledged bare => exact List.not_mem_nil
  | @proxied q =>
    obtain ⟨_, _, _, _, eq⟩ := (c.acknowledged seg).proxyTcpPacket_eq q
    rw [eq]
    simp
  | chained carried' chained =>
    cases carried.symm.trans carried'
    exact absurd simple chained
  | left _ leaves => exact leaves.calm

/-- Data fails the assertion exactly if it is not in one buffer. -/
private theorem accepts_iff {c c' : Conn} {a : TcpAct} {out : List TcpEvent} (filed : Filed c)
    (h : connMachine.step c a = some (c', out)) :
    AcceptsChain ⟨c, a, out, c'⟩ ↔ SingleBuffer ⟨c, a, out, c'⟩ := by
  refine forall₂_congr fun seg p => forall₂_congr fun act carried => ?_
  obtain ⟨live, r, happens, rfl, rfl⟩ := happens_of_step h
  obtain rfl : a = .input seg := act
  cases happens with
  | socket move => cases move
  | input ok =>
    cases found : c.inMap with
    | false =>
      rcases filed.erased found live with freed | ⟨state, _⟩
      · simp [Pcb.accepts, freed] at ok
      · cases carried.symm.trans (Conn.tcplen_lastAck state ok).1
    | true =>
      have service := filed.mapped found live
      by_cases simple : p.len = p.totLen
      · refine iff_of_true (fun crashed => ?_) simple
        have calm := calm_served (Conn.tcpInput_served service live found filed.window ok) carried simple
        exact (List.mem_append.mp crashed).elim calm (calm_reap _)
      · refine iff_of_false (not_not.mpr ?_) simple
        rw [Conn.tcpInput_chained service live found carried simple]
        exact List.mem_append_left _ (List.mem_singleton.mpr rfl)

/-- In every run the chains lwIP delivers are accepted and written whole by both paths exactly if each of them has all
its bytes in one buffer. -/
theorem chains_forwarded_iff {ts : List (Transition Conn TcpAct TcpEvent)} {c : Conn} (run : connMachine.Run ts c) :
    ((∀ t ∈ ts, AcceptsChain t) ∧ WritesWhole ts) ↔ ∀ t ∈ ts, SingleBuffer t := by
  rw [and_iff_left (writesWhole_run run)]
  exact run.forall_congr Filed (fun _ => filed_init) (fun _ _ _ _ => filed_step) AcceptsChain SingleBuffer
    fun _ _ _ _ => accepts_iff

/-- The chain of buffers of a segment. -/
def TcpAct.chain : TcpAct → Option Pbuf
  | .input seg => seg.data
  | _ => none

theorem TcpAct.chain_eq_some {a : TcpAct} {p : Pbuf} :
    a.chain = some p ↔ ∃ seg, a = .input seg ∧ seg.data = some p := by
  cases a <;> simp [chain]

/-- One packet is drained, in two writes, and one goes through a writer. -/
theorem chains_forwarded_iff_drained : ∃ ts c, connMachine.Run ts c ∧ writtenBy (.writer 0) ts = [4] ∧
    (∀ t ∈ ts, AcceptsChain t) ∧ WritesWhole ts := by
  obtain ⟨ts, c, run, facts⟩ := Machine.Run.exists_of_exec connMachine webConn
    ([.input ⟨0, false, some ⟨[1, 2, 3], []⟩, false⟩] ++ greeting ++ [.accept 2, .resume .start .free, .accept 1,
      .resume .start .free, .input ⟨0, false, some ⟨[4, 5], []⟩, false⟩, .accept 1])
    (fun ts _ => decide (writtenBy (.writer 0) ts = [4]) && ts.all fun t =>
      t.act.chain.all fun p => p.len == p.totLen) webConn_init (by decide +kernel)
  simp only [Bool.and_eq_true, decide_eq_true_eq, List.all_eq_true] at facts
  obtain ⟨written, single⟩ := facts
  refine ⟨ts, c, run, written, (chains_forwarded_iff run).mpr fun t mem seg p act carried => ?_⟩
  have simple := single t mem
  rw [TcpAct.chain_eq_some.mpr ⟨seg, act, carried⟩] at simple
  simpa using simple

/-- The second of two segments comes first, and the first completes it. -/
theorem chain_fails_assertion : ∃ ts c, connMachine.Run ts c ∧ c.halted = true ∧ ¬ ∀ t ∈ ts, AcceptsChain t := by
  obtain ⟨ts, c, run, facts⟩ := Machine.Run.exists_of_exec connMachine webConn
    (greeting ++ [.input ⟨0, false, some ⟨[1, 2], [[3, 4]]⟩, false⟩])
    (fun ts c => c.halted && ts.any fun t => t.act.chain.isSome && t.out.contains .crashed)
    webConn_init (by decide +kernel)
  simp only [Bool.and_eq_true, List.any_eq_true, Option.isSome_iff_exists, List.contains_iff_mem] at facts
  obtain ⟨halted, t, mem, ⟨p, delivered⟩, crashed⟩ := facts
  obtain ⟨seg, act, carried⟩ := TcpAct.chain_eq_some.mp delivered
  exact ⟨ts, c, run, halted, fun accepts => accepts t mem seg p act carried crashed⟩

end Tunosocks.Tcp
