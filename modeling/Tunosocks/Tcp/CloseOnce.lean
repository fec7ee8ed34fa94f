import Tunosocks.Tcp.Mapped

/-! The calls of `tcp_close` in `tcp_recv_func`: on which block, and in which state of it. -/
namespace Tunosocks.Tcp
open Foundation Coroutine

/-- On `tcp_active_pcbs`, also in the middle of `tcp_input`: the reset in `tcp_close` takes the block off at once, the
acknowledgement of the last FIN only with the delayed close. -/
def Pcb.listed (pcb : Pcb) : Bool :=
  !pcb.freed && (!pcb.closed || pcb.state == .lastAck) && pcb.state != .timeWait

namespace Conn

/-- The block `tcp_recv_func` hands to `tcp_close`. -/
def closesOn (c : Conn) : Option Pbuf → Option Pcb
  | none => if c.pcb.state = .closeWait then some c.pcb else none
  | some p =>
    if p.len = p.totLen ∧ (c.handle p).2 = false then some (andThen (c.handle p).1 clear).1.pcb else none

/-- The same for the data of a segment, in the state in which `tcp_input` comes to it. -/
def dataCloses (c : Conn) (data : Option Pbuf) : List Pcb :=
  if c.pcb.freed || c.halted || c.pcb.rxClosed then [] else (data.bind fun p => c.closesOn (some p)).toList

/-- The FIN's place in the window is given back before the callback. -/
def finCounted (c : Conn) : Conn :=
  { c with pcb := { c.pcb with rcvWnd := if c.pcb.rcvWnd = tcpWnd then tcpWnd else c.pcb.rcvWnd + 1 } }

def finCloses (c : Conn) (fin : Bool) : List Pcb :=
  if c.pcb.freed || c.halted || !fin then [] else (c.finCounted.closesOn none).toList

/-- The blocks handed to `tcp_close` while a segment is processed, in order. -/
def closeCalls (c : Conn) (seg : Segment) : List Pcb :=
  (c.beforeData seg).1.dataCloses seg.data ++
    (c.beforeFin seg).1.finCloses seg.fin

end Conn

/-- The blocks `tcp_recv_func` hands to `tcp_close` in one step. -/
def closeCalls (t : Transition Conn TcpAct TcpEvent) : List Pcb :=
  match t.act with
  | .input seg => t.pre.closeCalls seg
  | _ => []

/-- A segment with data and FIN comes for a session that is in the map and closed. -/
def RefusesWithFin (t : Transition Conn TcpAct TcpEvent) : Prop :=
  ∃ seg p, t.act = .input seg ∧ seg.data = some p ∧ p.len = p.totLen ∧ seg.fin = true ∧
    t.pre.inMap = true ∧ t.pre.status = .close

/-! ### The calls are the ones observed -/

section Observed
variable {c : Conn} {seg : Segment}

private theorem unclosed_clear : .tcpClosed ∉ c.clear.2 := by
  have stopped : .tcpClosed ∉ c.stop.2 := by
    unfold Conn.stop
    repeat' split
    all_goals simp
  unfold Conn.clear
  split
  · simpa [andThen] using stopped
  · exact List.not_mem_nil

private theorem unclosed_handle (p : Pbuf) : .tcpClosed ∉ (c.handle p).1.2 := by
  unfold Conn.handle
  repeat' split
  · simp
  · obtain ⟨_, _, _, _, eq⟩ := c.proxyTcpPacket_eq p
    rw [eq]
    simp
  · simp

private theorem unclosed_tcpErrFunc : .tcpClosed ∉ c.tcpErrFunc.2 := by
  unfold Conn.tcpErrFunc
  repeat' split
  · simp
  · exact unclosed_clear
  · exact List.not_mem_nil

private theorem unclosed_tcpAbort : .tcpClosed ∉ c.tcpAbort.2 := by
  unfold Conn.tcpAbort
  split
  · simp
  · simpa [andThen] using unclosed_tcpErrFunc

private theorem unclosed_tcpSentFunc : .tcpClosed ∉ c.tcpSentFunc.2 := by
  unfold Conn.tcpSentFunc
  repeat' split
  · simp
  · exact List.not_mem_nil
  · exact List.not_mem_nil
  · exact unclosed_tcpAbort

private theorem unclosed_delayedClose : .tcpClosed ∉ c.delayedClose.2 := by
  unfold Conn.delayedClose
  repeat' split
  · simp [andThen]
  · simpa [andThen] using unclosed_tcpErrFunc
  · exact List.not_mem_nil

private theorem count_whileAlive {r : Outcome} {f : Conn → Outcome} :
    (whileAlive r f).2.count .tcpClosed =
      r.2.count .tcpClosed + if r.1.pcb.freed || r.1.halted then 0 else (f r.1).2.count .tcpClosed := by
  unfold whileAlive
  split
  · rfl
  · exact List.count_append

private theorem count_beforeData : (c.beforeData seg).2.count .tcpClosed = 0 := by
  have sent : (c.afterSent seg).2.count .tcpClosed = 0 := by
    unfold Conn.afterSent
    split
    · exact List.count_eq_zero.mpr unclosed_tcpSentFunc
    · rfl
  rw [Conn.beforeData, count_whileAlive, sent, List.count_eq_zero.mpr unclosed_delayedClose]
  simp

private theorem count_tcpRecvFunc (data : Option Pbuf) :
    (c.tcpRecvFunc data).2.count .tcpClosed = (c.closesOn data).toList.length := by
  cases data with
  | none =>
    simp only [Conn.tcpRecvFunc, Conn.closesOn]
    split
    · simp [andThen, Conn.tcpClose, List.count_eq_zero.mpr unclosed_clear]
    · rfl
  | some p =>
    have handled := List.count_eq_zero.mpr (unclosed_handle (c := c) p)
    simp only [Conn.tcpRecvFunc, Conn.closesOn]
    by_cases simple : p.len = p.totLen
    · cases taken : (c.handle p).2 with
      | true => simp [simple, handled]
      | false => simp [simple, andThen, Conn.tcpClose, handled, List.count_eq_zero.mpr unclosed_clear]
    · simp [simple]

private theorem count_deliver (data : Option Pbuf) (live : (c.pcb.freed || c.halted) = false) :
    (c.deliver data).2.count .tcpClosed = (c.dataCloses data).length := by
  cases data with
  | none => simp [Conn.deliver, Conn.dataCloses]
  | some p =>
    simp only [Conn.deliver, Conn.dataCloses, live, Bool.false_or, Option.bind_some]
    split
    · simp [andThen, List.count_eq_zero.mpr unclosed_tcpAbort]
    · exact count_tcpRecvFunc (some p)

private theorem count_deliverFin (fin : Bool) (live : (c.pcb.freed || c.halted) = false) :
    (c.deliverFin fin).2.count .tcpClosed = (c.finCloses fin).length := by
  cases fin with
  | false => simp [Conn.deliverFin, Conn.finCloses]
  | true =>
    simp only [Conn.deliverFin, Conn.finCloses, live, if_true, Bool.not_true, Bool.or_false]
    exact count_tcpRecvFunc none

/-- Every call is observed, and nothing else is. -/
theorem count_tcpInput (c : Conn) (seg : Segment) :
    (c.tcpInput seg).2.count .tcpClosed = (c.closeCalls seg).length := by
  have data {d : Conn} : (if d.pcb.freed || d.halted then 0 else (d.deliver seg.data).2.count .tcpClosed) =
      (d.dataCloses seg.data).length := by
    split
    · next gone => simp [Conn.dataCloses, gone]
    · next live => exact count_deliver seg.data (by simpa using live)
  have fin {d : Conn} : (if d.pcb.freed || d.halted then 0 else (d.deliverFin seg.fin).2.count .tcpClosed) =
      (d.finCloses seg.fin).length := by
    split
    · next gone => simp [Conn.finCloses, gone]
    · next live => exact count_deliverFin seg.fin (by simpa using live)
  rw [Conn.tcpInput, count_whileAlive, Conn.afterFin, count_whileAlive, fin, Conn.beforeFin, count_whileAlive,
    count_beforeData, data, List.count_eq_zero.mpr unclosed_delayedClose, Conn.closeCalls, Conn.beforeFin,
    List.length_append]
  simp

private theorem unclosed_reap : .tcpClosed ∉ c.reap.2 := by
  unfold Conn.reap
  split
  · simp
  · exact List.not_mem_nil

private theorem SocketMove.no_close {a : TcpAct} {evs : List TcpEvent} {c' : Conn} (move : SocketMove c a evs c') :
    .tcpClosed ∉ evs := by
  cases move with
  | @startAccepts n point => cases point <;> simp [StartPoint.accepted]
  | @startArrives data point => cases point <;> simp [StartPoint.received]
  | _ => simp

private theorem Resumes.no_close {room : Room} {id : CoroId} {evs : List TcpEvent} {c' : Conn}
    (move : Resumes c room id evs c') : .tcpClosed ∉ evs := by
  have drained (d : Conn) : .tcpClosed ∉ d.drainLoop.2 := by
    rcases d.drainLoop_cases with ⟨_, loop⟩ | ⟨_, _, _, ⟨_, loop⟩ | ⟨_, loop⟩⟩ <;> rw [loop] <;> simp
  cases move with
  | relays => simpa using drained _
  | drains => simpa using drained _
  | startDangles _ touches => cases touches <;> simp
  | _ => simp

/-- The calls of one step are the ones it reports. -/
theorem count_step {c' : Conn} {a : TcpAct} {out : List TcpEvent} (h : connMachine.step c a = some (c', out)) :
    out.count .tcpClosed = (closeCalls ⟨c, a, out, c'⟩).length := by
  obtain ⟨_, r, happens, rfl, rfl⟩ := happens_of_step h
  rw [List.count_append, List.count_eq_zero.mpr unclosed_reap, Nat.add_zero]
  cases happens with
  | input => exact count_tcpInput c _
  | reset =>
    rw [Conn.tcpReset, andThen, List.append_nil, List.count_eq_zero.mpr unclosed_tcpErrFunc]
    rfl
  | resumed move =>
    rw [List.count_eq_zero.mpr move.no_close]
    rfl
  | socket move =>
    rw [List.count_eq_zero.mpr move.no_close]
    cases move <;> rfl

end Observed

/-! ### The calls for one segment -/

section Segments
variable {c d : Conn} {seg : Segment} {p : Pbuf}

/-- Whatever has become of the block meanwhile, a FIN is a call. -/
private theorem finCloses_closeWait (state : d.pcb.state = .closeWait) (allocated : d.pcb.freed = false)
    (live : d.halted = false) (fin : seg.fin = true) : d.finCloses seg.fin = [d.finCounted.pcb] := by
  have state' : d.finCounted.pcb.state = .closeWait := state
  simp [Conn.finCloses, Conn.closesOn, allocated, live, fin, state']

/-- For a block that is still open it is a call on a block on the list. -/
private theorem finCloses_pending (pending : Conn.Pending c seg d) (fin : seg.fin = true) :
    d.finCloses seg.fin = [d.finCounted.pcb] ∧ d.finCounted.pcb.listed = true := by
  have state : d.finCounted.pcb.state = .closeWait := pending.closeWait fin
  have opened : d.finCounted.pcb.closed = false := pending.opened
  have allocated : d.finCounted.pcb.freed = false := pending.allocated
  refine ⟨finCloses_closeWait (pending.closeWait fin) pending.allocated pending.live fin, ?_⟩
  simp [Pcb.listed, state, opened, allocated]

private theorem finCloses_open (d : Conn) (open_ : seg.fin = false) : d.finCloses seg.fin = [] := by
  simp [Conn.finCloses, open_]

/-- What is called for a segment when the data makes no call and leaves the block open. -/
private theorem one_call (pending : Conn.Pending c seg d) :
    (d.finCloses seg.fin).length ≤ 1 ∧ ∀ pcb ∈ d.finCloses seg.fin, pcb.listed = true := by
  by_cases fin : seg.fin = true
  · obtain ⟨calls, listed⟩ := finCloses_pending pending fin
    rw [calls]
    exact ⟨Nat.le_refl _, fun pcb h => List.mem_singleton.mp h ▸ listed⟩
  · rw [finCloses_open d (by simpa using fin)]
    exact ⟨Nat.zero_le _, nofun⟩

private theorem closeCalls_inService (service : InService c) : c.closeCalls seg =
    (c.acknowledged seg).dataCloses seg.data ++
      (whileAlive (c.acknowledged seg, []) fun c => c.deliver seg.data).1.finCloses seg.fin := by
  rw [Conn.closeCalls, Conn.beforeFin, Conn.beforeData_inService service]

private theorem closeCalls_bare (service : InService c) (bare : seg.data = none) :
    c.closeCalls seg = (c.acknowledged seg).finCloses seg.fin := by
  have none_ : (c.acknowledged seg).dataCloses none = [] := by simp [Conn.dataCloses]
  rw [closeCalls_inService service, bare, whileAlive_quiet (r := (c.acknowledged seg, [])) rfl, none_, List.nil_append]

private theorem closeCalls_chained (service : InService c) (live : c.halted = false) (found : c.inMap = true)
    (carried : seg.data = some p) (chained : p.len ≠ p.totLen) : c.closeCalls seg = [] := by
  have pending := Conn.pending_acknowledged seg service live found
  have none_ : (c.acknowledged seg).dataCloses (some p) = [] := by simp [Conn.dataCloses, Conn.closesOn, chained]
  rw [closeCalls_inService service, carried,
    whileAlive_live (r := (c.acknowledged seg, [])) pending.allocated pending.live, andThen,
    Conn.deliver_chained pending chained, none_]
  simp [Conn.finCloses, Conn.crash]

private theorem closeCalls_proxied (service : InService c) (live : c.halted = false) (found : c.inMap = true)
    (carried : seg.data = some p) (simple : p.len = p.totLen) (opened : c.status ≠ .close) :
    c.closeCalls seg = ((c.acknowledged seg).proxyTcpPacket p).1.finCloses seg.fin := by
  have pending := Conn.pending_acknowledged seg service live found
  have opened' : (c.acknowledged seg).status ≠ .close := pending.status ▸ opened
  have none_ : (c.acknowledged seg).dataCloses (some p) = [] := by
    simp [Conn.dataCloses, Conn.closesOn, Conn.handle, pending.found, opened']
  rw [closeCalls_inService service, carried,
    whileAlive_live (r := (c.acknowledged seg, [])) pending.allocated pending.live, andThen,
    Conn.deliver_proxied pending simple opened, none_, List.nil_append]

/-- Data for a closed session is a call of its own, on a block on the list. It takes the block off the list, and a FIN
in the same segment is another call. -/
private theorem closeCalls_refused (service : InService c) (live : c.halted = false) (found : c.inMap = true)
    (window : c.pcb.rcvWnd ≤ tcpWnd) (ok : c.pcb.accepts seg = true) (carried : seg.data = some p)
    (simple : p.len = p.totLen) (closed : c.status = .close) : (c.acknowledged seg).pcb.listed = true ∧
      ∃ again, c.closeCalls seg = (c.acknowledged seg).pcb :: if seg.fin then [again] else [] := by
  have pending := Conn.pending_acknowledged seg service live found
  have short := pending.window_lt (Conn.tcplen_pos carried ok) window
  generalize acknowledged : c.acknowledged seg = d at pending short
  have closed' : d.status = .close := pending.status.trans closed
  have away : d.detached = { d with inMap := false } := by rw [Conn.detached, if_pos closed']
  have first : d.dataCloses (some p) = [d.pcb] := by
    have cleared := Conn.clear_found pending.found pending.allocated
    simp [Conn.dataCloses, Conn.closesOn, Conn.handle, pending.found, closed', simple, andThen, cleared, away,
      pending.allocated, pending.live, pending.receiving]
  refine ⟨?_, ?_⟩
  · have state := pending.state
    split at state <;> simp [Pcb.listed, state, pending.opened, pending.allocated]
  · rw [closeCalls_inService service, acknowledged, carried, first,
      whileAlive_live (r := (d, [])) pending.allocated pending.live, andThen,
      Conn.deliver_refused pending simple closed, away]
    by_cases fin : seg.fin = true
    · have state : d.pcb.tcpClose.state = .closeWait ∧ d.pcb.tcpClose.freed = d.pcb.freed := by
        simp [Pcb.tcpClose, pending.closeWait fin, Nat.ne_of_lt short]
      have second := finCloses_closeWait (d := { d with inMap := false, pcb := d.pcb.tcpClose }) state.1
        (state.2.trans pending.allocated) pending.live fin
      refine ⟨Conn.pcb (Conn.finCounted { d with inMap := false, pcb := d.pcb.tcpClose }), ?_⟩
      rw [if_pos fin]
      exact congrArg (d.pcb :: ·) second
    · exact ⟨d.pcb, by simp [Conn.finCloses, fin]⟩

/-- What one segment can call: nothing if the session stays in the map, twice exactly if it brings data and a FIN to a
closed session, and otherwise at most once, on a block on the list. -/
private theorem closeCalls_cases (service : InService c) (live : c.halted = false) (found : c.inMap = true)
    (window : c.pcb.rcvWnd ≤ tcpWnd) (ok : c.pcb.accepts seg = true) :
    (∃ p, seg.data = some p ∧ p.len = p.totLen ∧ seg.fin = true ∧ c.status = .close) ∧
        2 ≤ (c.closeCalls seg).length ∨
      ¬(∃ p, seg.data = some p ∧ p.len = p.totLen ∧ seg.fin = true ∧ c.status = .close) ∧
        (c.closeCalls seg).length ≤ 1 ∧ ∀ pcb ∈ c.closeCalls seg, pcb.listed = true := by
  have pending := Conn.pending_acknowledged seg service live found
  cases carried : seg.data with
  | none =>
    rw [closeCalls_bare service carried]
    exact Or.inr ⟨nofun, one_call pending⟩
  | some p =>
    by_cases simple : p.len = p.totLen
    · by_cases closed : c.status = .close
      · obtain ⟨listed, again, calls⟩ := closeCalls_refused service live found window ok carried simple closed
        rw [calls]
        by_cases fin : seg.fin = true
        · refine Or.inl ⟨⟨p, rfl, simple, fin, closed⟩, ?_⟩
          rw [if_pos fin]
          exact Nat.le_refl _
        · refine Or.inr ⟨fun ⟨_, _, _, fin', _⟩ => fin fin', ?_⟩
          rw [if_neg fin]
          exact ⟨Nat.le_refl _, fun pcb h => List.mem_singleton.mp h ▸ listed⟩
      · rw [closeCalls_proxied service live found carried simple closed]
        exact Or.inr ⟨fun ⟨_, _, _, _, closed'⟩ => closed closed', one_call (pending.proxied p)⟩
    · rw [closeCalls_chained service live found carried simple]
      refine Or.inr ⟨fun ⟨q, same, simple', _⟩ => ?_, Nat.zero_le _, nofun⟩
      cases same
      exact simple simple'

end Segments

/-- A block out of service is not closed any more. -/
private theorem closeCalls_lost {c : Conn} {seg : Segment} (filed : Filed c) (live : c.halted = false)
    (lost : c.inMap = false) (ok : c.pcb.accepts seg = true) : c.closeCalls seg = [] := by
  rcases filed.erased lost live with freed | ⟨state, _⟩
  · simp [Pcb.accepts, freed] at ok
  · obtain ⟨bare, open_⟩ := Conn.tcplen_lastAck state ok
    simp [Conn.closeCalls, Conn.dataCloses, Conn.finCloses, bare, open_]

/-- A call goes with the end of the session's time in the map. -/
private theorem closeCalls_leave {c : Conn} {seg : Segment} (service : InService c) (live : c.halted = false)
    (found : c.inMap = true) (window : c.pcb.rcvWnd ≤ tcpWnd) (ok : c.pcb.accepts seg = true)
    (called : c.closeCalls seg ≠ []) : (c.tcpInput seg).1.inMap = false := by
  have served := Conn.tcpInput_served service live found window ok
  generalize c.tcpInput seg = r at served
  cases served with
  | acknowledged bare open_ =>
    rw [closeCalls_bare service bare, finCloses_open _ open_] at called
    exact absurd rfl called
  | proxied carried simple opened open_ =>
    rw [closeCalls_proxied service live found carried simple opened, finCloses_open _ open_] at called
    exact absurd rfl called
  | chained carried chained => exact absurd (closeCalls_chained service live found carried chained) called
  | left _ leaves => exact leaves.erased

section Steps
variable {c c' : Conn} {a : TcpAct} {out : List TcpEvent}

private theorem erased_step (filed : Filed c) (h : connMachine.step c a = some (c', out)) (lost : c.inMap = false) :
    c'.inMap = false := by
  obtain ⟨live, r, happens, rfl, rfl⟩ := happens_of_step h
  rw [Conn.inMap_reap]
  exact happens.erased filed live lost

private theorem called_step (filed : Filed c) (h : connMachine.step c a = some (c', out))
    (called : closeCalls ⟨c, a, out, c'⟩ ≠ []) : c.inMap = true ∧ c'.inMap = false := by
  obtain ⟨live, r, happens, rfl, rfl⟩ := happens_of_step h
  rw [Conn.inMap_reap]
  cases happens with
  | @input seg ok =>
    have called : c.closeCalls seg ≠ [] := called
    cases found : c.inMap with
    | false => exact absurd (closeCalls_lost filed live found ok) called
    | true => exact ⟨rfl, closeCalls_leave (filed.mapped found live) live found filed.window ok called⟩
  | reset | resumed => exact absurd rfl called
  | socket move => cases move <;> exact absurd rfl called

private theorem closeCalls_other (other : ∀ seg, a ≠ .input seg) : closeCalls ⟨c, a, out, c'⟩ = [] := by
  cases a with
  | input seg => exact absurd rfl (other seg)
  | _ => rfl

private theorem calls_step (filed : Filed c) (h : connMachine.step c a = some (c', out)) :
    RefusesWithFin ⟨c, a, out, c'⟩ ∧ 2 ≤ (closeCalls ⟨c, a, out, c'⟩).length ∨
      ¬ RefusesWithFin ⟨c, a, out, c'⟩ ∧ (closeCalls ⟨c, a, out, c'⟩).length ≤ 1 ∧
        ∀ pcb ∈ closeCalls ⟨c, a, out, c'⟩, pcb.listed = true := by
  by_cases brings : ∃ seg, a = .input seg
  · obtain ⟨seg, rfl⟩ := brings
    obtain ⟨live, r, happens, rfl, rfl⟩ := happens_of_step h
    cases happens with
    | input ok =>
      change _ ∧ 2 ≤ (c.closeCalls seg).length ∨ _ ∧ (c.closeCalls seg).length ≤ 1 ∧ ∀ pcb ∈ c.closeCalls seg, _
      cases found : c.inMap with
      | false =>
        rw [closeCalls_lost filed live found ok]
        refine Or.inr ⟨?_, Nat.zero_le _, List.forall_mem_nil _⟩
        rintro ⟨_, _, _, _, _, _, found', _⟩
        cases found.symm.trans found'
      | true =>
        refine (closeCalls_cases (filed.mapped found live) live found filed.window ok).imp ?_ ?_
        · rintro ⟨⟨p, carried, simple, fin, closed⟩, twice⟩
          exact ⟨⟨seg, p, rfl, carried, simple, fin, found, closed⟩, twice⟩
        · rintro ⟨spared, calls⟩
          refine ⟨?_, calls⟩
          rintro ⟨seg', p, same, carried, simple, fin, _, closed⟩
          cases same
          exact spared ⟨p, carried, simple, fin, closed⟩
    | socket move => cases move
  · rw [closeCalls_other (not_exists.mp brings)]
    refine Or.inr ⟨?_, Nat.zero_le _, List.forall_mem_nil _⟩
    rintro ⟨seg, _, act, _⟩
    exact brings ⟨seg, act⟩

/-- The first call is the last: it takes the session out of the map. -/
private theorem calls_run {ts : List (Transition Conn TcpAct TcpEvent)} (run : connMachine.Run ts c) :
    (∀ t ∈ ts, ¬ RefusesWithFin t) →
      ((ts.flatMap closeCalls).length ≤ 1 ∧ ∀ pcb ∈ ts.flatMap closeCalls, pcb.listed = true) ∧
        (ts.flatMap closeCalls ≠ [] → c.inMap = false) := by
  induction run with
  | init => exact fun _ => ⟨⟨Nat.zero_le _, nofun⟩, fun called => absurd rfl called⟩
  | @next ts s t a out run step ih =>
    intro spared
    have filed := filed_run run
    obtain ⟨⟨once, listed⟩, left⟩ := ih fun t mem => spared t (List.mem_append_left _ mem)
    have last := spared _ (List.mem_append_right _ (List.mem_singleton.mpr rfl))
    obtain ⟨_, once', listed'⟩ := (calls_step filed step).resolve_left fun h => last h.1
    rw [List.flatMap_append, List.flatMap_singleton]
    by_cases called : closeCalls ⟨s, a, out, t⟩ = []
    · rw [called, List.append_nil]
      exact ⟨⟨once, listed⟩, fun before => erased_step filed step (left before)⟩
    · obtain ⟨found, lost⟩ := called_step filed step called
      have first : ts.flatMap closeCalls = [] := by
        by_contra before
        cases (left before).symm.trans found
      rw [first, List.nil_append]
      exact ⟨⟨once', listed'⟩, fun _ => lost⟩

end Steps

/-- In every run `tcp_close` is called at most once, and on a block on the list of active ones, exactly if no segment
with data and FIN comes for a closed session. -/
theorem closed_once_iff {ts : List (Transition Conn TcpAct TcpEvent)} {c : Conn} (run : connMachine.Run ts c) :
    ((Machine.trace ts).count .tcpClosed ≤ 1 ∧ ∀ pcb ∈ ts.flatMap closeCalls, pcb.listed = true) ↔
      ∀ t ∈ ts, ¬ RefusesWithFin t := by
  have observed : (Machine.trace ts).count .tcpClosed = (ts.flatMap closeCalls).length := by
    induction run with
    | init => rfl
    | next _ step ih => rw [Machine.trace_snoc, List.count_append, ih, count_step step]; simp
  rw [observed]
  constructor
  · rintro ⟨once, _⟩ t mem refuses
    obtain ⟨us, vs, rfl, run', step⟩ := run.split mem
    rcases calls_step (filed_run run') step with ⟨_, twice⟩ | ⟨spared, _⟩
    · have twice : 2 ≤ (closeCalls t).length := twice
      simp only [List.flatMap_append, List.flatMap_cons, List.length_append] at once
      omega
    · exact spared refuses
  · exact fun spared => (calls_run run spared).1

/-- The remote socket fails, and the local peer sends data to the closed session. -/
theorem closed_once_iff_refused : ∃ ts c, connMachine.Run ts c ∧ (Machine.trace ts).count .tcpClosed = 1 ∧
    ∀ pcb ∈ ts.flatMap closeCalls, pcb.listed = true := by
  obtain ⟨ts, c, run, facts⟩ := Machine.Run.exists_of_exec connMachine webConn
    [.connectFailed, .resume .start .free, .input ⟨0, false, some ⟨[1, 2], []⟩, false⟩]
    (fun ts _ => decide ((Machine.trace ts).count .tcpClosed = 1) && ts.all fun t =>
      match t.act with
      | .input seg => !seg.fin
      | _ => true) webConn_init (by decide +kernel)
  simp only [Bool.and_eq_true, decide_eq_true_eq, List.all_eq_true] at facts
  obtain ⟨once, plain⟩ := facts
  refine ⟨ts, c, run, once, ((closed_once_iff run).mpr fun t mem => ?_).2⟩
  rintro ⟨seg, p, act, _, _, fin, _⟩
  have open_ := plain t mem
  simp [act, fin] at open_

/-- With a FIN in the same segment the block is closed twice, the second time when it is off the list. -/
theorem refused_fin_closes_twice : ∃ ts c, connMachine.Run ts c ∧ (Machine.trace ts).count .tcpClosed = 2 ∧
    ∃ pcb ∈ ts.flatMap closeCalls, pcb.listed = false := by
  obtain ⟨ts, c, run, facts⟩ := Machine.Run.exists_of_exec connMachine webConn
    [.connectFailed, .resume .start .free, .input ⟨0, false, some ⟨[1, 2], []⟩, true⟩]
    (fun ts _ => decide ((Machine.trace ts).count .tcpClosed = 2 ∧ ∃ pcb ∈ ts.flatMap closeCalls, pcb.listed = false))
    webConn_init (by decide +kernel)
  obtain ⟨twice, off⟩ := of_decide_eq_true facts
  exact ⟨ts, c, run, twice, off⟩

end Tunosocks.Tcp
