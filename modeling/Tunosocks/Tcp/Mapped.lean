import Tunosocks.Tcp.Shape

/-! The control block over the life of its session's entry in the map: what lwIP still does
with it while the entry is there, and what is left of it afterwards. -/
namespace Tunosocks.Tcp
open Foundation Coroutine

/-- The block of a session in the map. -/
structure InService (c : Conn) : Prop where
  state : c.pcb.state = .established
  linked : c.pcb.callbackArg = true
  receiving : c.pcb.rxClosed = false
  opened : c.pcb.closed = false
  allocated : c.pcb.freed = false
  alive : c.destroyed = false

/-- The block is gone or only waits for its FIN to be acknowledged. -/
def Retired (c : Conn) : Prop :=
  c.pcb.freed = true ∨ c.pcb.state = .lastAck ∧ c.pcb.rxClosed = true ∧ c.pcb.closed = false

/-- Until the process aborts, the block of a session is in service while the session is in the map and retired
afterwards. -/
structure Filed (c : Conn) : Prop where
  window : c.pcb.rcvWnd ≤ tcpWnd
  mapped : c.inMap = true → c.halted = false → InService c
  erased : c.inMap = false → c.halted = false → Retired c

/-! ### One segment -/

theorem whileAlive_live {r : Outcome} {f : Conn → Outcome} (allocated : r.1.pcb.freed = false)
    (live : r.1.halted = false) : whileAlive r f = andThen r f := by
  simp [whileAlive, allocated, live]

theorem whileAlive_quiet {r : Outcome} {f : Conn → Outcome} (quiet : f r.1 = (r.1, [])) : whileAlive r f = r := by
  simp [whileAlive, andThen, quiet]

theorem whileAlive_freed {r : Outcome} {f : Conn → Outcome} (freed : r.1.pcb.freed = true) : whileAlive r f = r := by
  simp [whileAlive, freed]

theorem whileAlive_halted {r : Outcome} {f : Conn → Outcome} (halted : r.1.halted = true) : whileAlive r f = r := by
  simp [whileAlive, halted]

/-- What a segment can touch. -/
theorem Pcb.tcpProcess_eq (pcb : Pcb) (seg : Segment) : ∃ state closed, pcb.tcpProcess seg = { pcb with
    acked := pcb.acked + seg.acked, sndBuf := pcb.sndBuf + seg.acked, rcvWnd := pcb.rcvWnd - seg.tcplen
    state, closed } := by
  simp only [tcpProcess]
  split <;> (repeat' split) <;> exact ⟨_, _, rfl⟩

theorem Pcb.tcpClose_eq (pcb : Pcb) : ∃ state closed, pcb.tcpClose = { pcb with rxClosed := true, state, closed } := by
  simp only [tcpClose]
  split <;> (repeat' split) <;> exact ⟨_, _, rfl⟩

theorem Pcb.tcpProcess_established {pcb : Pcb} (state : pcb.state = .established) (seg : Segment) :
    pcb.tcpProcess seg = { pcb with
      acked := pcb.acked + seg.acked, sndBuf := pcb.sndBuf + seg.acked, rcvWnd := pcb.rcvWnd - seg.tcplen
      state := if seg.fin then .closeWait else .established } := by
  simp only [tcpProcess, state]
  split
  · rfl
  · rw [← state]

theorem Pcb.tcpClose_closeWait (pcb : Pcb) (state : pcb.state = .closeWait) : ∃ state closed,
    pcb.tcpClose = { pcb with rxClosed := true, state, closed } ∧
      (pcb.rcvWnd ≠ tcpWnd ∧ closed = true ∨ pcb.rcvWnd = tcpWnd ∧ state = .lastAck ∧ closed = pcb.closed) := by
  simp only [tcpClose, state]
  split
  · next taken => exact ⟨_, _, rfl, Or.inr ⟨taken, rfl, rfl⟩⟩
  · next left => exact ⟨_, _, rfl, Or.inl ⟨left, rfl⟩⟩

theorem finCounted_le {wnd : Nat} (le : wnd ≤ tcpWnd) : (if wnd = tcpWnd then tcpWnd else wnd + 1) ≤ tcpWnd := by
  split <;> omega

namespace Conn
variable {c : Conn} {seg : Segment}

theorem delayedClose_opened (opened : c.pcb.closed = false) : c.delayedClose = (c, []) := by
  simp [delayedClose, opened]

theorem delayedClose_closed (closed : c.pcb.closed = true) (rxClosed : c.pcb.rxClosed = true) :
    c.delayedClose = (c.freeBlock, []) := by
  simp [delayedClose, closed, rxClosed, andThen]

theorem whileAlive_delayedClose_opened {r : Outcome} (opened : r.1.pcb.closed = false) :
    whileAlive r delayedClose = r := whileAlive_quiet (delayedClose_opened opened)

theorem whileAlive_delayedClose_closed {r : Outcome} (closed : r.1.pcb.closed = true)
    (rxClosed : r.1.pcb.rxClosed = true)
    (allocated : r.1.pcb.freed = false) (live : r.1.halted = false) :
    whileAlive r delayedClose = (r.1.freeBlock, r.2) := by
  simp [whileAlive, andThen, delayedClose_closed closed rxClosed, allocated, live]

/-- The segment has been processed and its acknowledgement reported. -/
def acknowledged (c : Conn) (seg : Segment) : Conn :=
  let d := { c with pcb := c.pcb.tcpProcess seg }
  if 0 < seg.acked ∧ readThreshold < d.pcb.sndBuf then d.readFromRemote else d

/-- `Clear` has found the session. -/
def detached (c : Conn) : Conn :=
  if c.status = .close then { c with inMap := false }
  else { c.cancel with status := .close, pcb := { c.pcb with callbackArg := false }, inMap := false }

theorem readFromRemote_eq (c : Conn) :
    ∃ shouldReadFromRemote readers readQueue,
      c.readFromRemote = { c with shouldReadFromRemote, readers, readQueue } := by
  unfold readFromRemote
  split
  · exact ⟨_, _, _, rfl⟩
  · exact ⟨_, _, _, rfl⟩

/-- What an acknowledgement can touch. -/
theorem acknowledged_eq (c : Conn) (seg : Segment) : ∃ shouldReadFromRemote readers readQueue,
    c.acknowledged seg = { c with pcb := c.pcb.tcpProcess seg, shouldReadFromRemote, readers, readQueue } := by
  simp only [acknowledged]
  split
  · exact readFromRemote_eq _
  · exact ⟨_, _, _, rfl⟩

theorem proxyTcpPacket_eq (c : Conn) (p : Pbuf) : ∃ pbufQueue remoteSending writers writeQueue,
    c.proxyTcpPacket p = ({ c with pbufQueue, remoteSending, writers, writeQueue }, [.proxied p]) := by
  simp only [proxyTcpPacket]
  split
  · obtain ⟨_, _, _, _, eq⟩ := Conn.writerLoop_eq _ c.writers.length
    rw [eq]
    exact ⟨_, _, _, _, rfl⟩
  · exact ⟨_, _, _, _, rfl⟩

theorem clear_found (found : c.inMap = true) (allocated : c.pcb.freed = false) :
    c.clear = (c.detached, [.stopped, .cleared]) := by
  simp only [clear, found, if_true, stop, allocated, detached]
  split <;> rfl

theorem clear_lost (lost : c.inMap = false) : c.clear = (c, []) := by
  simp [clear, lost]

theorem detached_eq (c : Conn) : ∃ start writers readers readQueue writeQueue, c.detached =
    { c with
      status := .close, inMap := false, start, writers, readers, readQueue, writeQueue
      pcb := { c.pcb with callbackArg := if c.status = .close then c.pcb.callbackArg else false } } := by
  unfold detached
  split
  · next closed => exact ⟨c.start, c.writers, c.readers, c.readQueue, c.writeQueue, by rw [← closed]⟩
  · exact ⟨_, _, _, _, _, rfl⟩

/-- The acknowledgement is reported to a session that exists. -/
theorem sent_inService (service : InService c) : c.afterSent seg = (c.acknowledged seg, []) := by
  have linked : (c.pcb.tcpProcess seg).callbackArg = true := by
    rw [Pcb.tcpProcess_established service.state]
    exact service.linked
  by_cases acks : 0 < seg.acked
  · simp [afterSent, processed, acks, andThen, tcpSentFunc, linked, service.alive, acknowledged, isRemoteReadable]
  · simp [afterSent, processed, acks, acknowledged]

theorem delayed_inService (service : InService c) :
    whileAlive (c.acknowledged seg, []) delayedClose = (c.acknowledged seg, []) := by
  refine whileAlive_delayedClose_opened ?_
  obtain ⟨_, _, _, eq⟩ := c.acknowledged_eq seg
  rw [eq, Pcb.tcpProcess_established service.state]
  exact service.opened

/-- A segment that brings nothing to deliver. -/
theorem tcpInput_bare (bare : seg.data = none) (open_ : seg.fin = false) :
    c.tcpInput seg = whileAlive (c.beforeData seg) delayedClose := by
  simp only [tcpInput, afterFin, beforeFin, bare, open_]
  rw [whileAlive_quiet (f := fun c => c.deliver none) rfl, whileAlive_quiet (f := fun c => c.deliverFin false) rfl]

theorem beforeData_inService (service : InService c) : c.beforeData seg = (c.acknowledged seg, []) := by
  simp only [beforeData, sent_inService service, delayed_inService service]

theorem tcpInput_inService (service : InService c) :
    c.tcpInput seg = whileAlive (whileAlive (whileAlive (c.acknowledged seg, []) fun c => c.deliver seg.data)
      fun c => c.deliverFin seg.fin) delayedClose := by
  rw [← beforeData_inService service]
  rfl

/-- What the block and the flags are once a segment has been acknowledged. -/
structure Pending (c : Conn) (seg : Segment) (d : Conn) : Prop where
  state : d.pcb.state = if seg.fin then .closeWait else .established
  linked : d.pcb.callbackArg = true
  receiving : d.pcb.rxClosed = false
  opened : d.pcb.closed = false
  allocated : d.pcb.freed = false
  window : d.pcb.rcvWnd = c.pcb.rcvWnd - seg.tcplen
  alive : d.destroyed = false
  live : d.halted = false
  status : d.status = c.status
  found : d.inMap = true

theorem Pending.closeWait {d : Conn} (pending : Pending c seg d) (fin : seg.fin = true) :
    d.pcb.state = .closeWait := by
  rw [pending.state, if_pos fin]

/-- A segment that takes sequence numbers leaves the window short. -/
theorem Pending.window_lt {d : Conn} (pending : Pending c seg d) (pos : 0 < seg.tcplen)
    (window : c.pcb.rcvWnd ≤ tcpWnd) : d.pcb.rcvWnd < tcpWnd := by
  have lowered := pending.window
  have : tcpWnd = 65535 := rfl
  omega

theorem pending_acknowledged (seg : Segment) (service : InService c) (live : c.halted = false)
    (found : c.inMap = true) :
    Pending c seg (c.acknowledged seg) := by
  obtain ⟨_, _, _, eq⟩ := c.acknowledged_eq seg
  rw [eq, Pcb.tcpProcess_established service.state]
  exact ⟨rfl, service.linked, service.receiving, service.opened, service.allocated, rfl, service.alive, live, rfl,
    found⟩

theorem Pending.proxied {d : Conn} (pending : Pending c seg d) (p : Pbuf) : Pending c seg (d.proxyTcpPacket p).1 := by
  obtain ⟨_, _, _, _, eq⟩ := d.proxyTcpPacket_eq p
  rw [eq]
  exact ⟨pending.state, pending.linked, pending.receiving, pending.opened, pending.allocated, pending.window,
    pending.alive, pending.live, pending.status, pending.found⟩

theorem deliver_proxied {d : Conn} (pending : Pending c seg d) {p : Pbuf} (simple : p.len = p.totLen)
    (opened : c.status ≠ .close) : d.deliver (some p) = d.proxyTcpPacket p := by
  have opened' : d.status ≠ .close := pending.status ▸ opened
  simp [deliver, pending.receiving, tcpRecvFunc, simple, handle, pending.found, opened']

theorem deliver_chained {d : Conn} (pending : Pending c seg d) {p : Pbuf} (chained : p.len ≠ p.totLen) :
    d.deliver (some p) = (d.crash, [.crashed]) := by
  simp [deliver, pending.receiving, tcpRecvFunc, chained]

theorem deliver_refused {d : Conn} (pending : Pending c seg d) {p : Pbuf} (simple : p.len = p.totLen)
    (closed : c.status = .close) : d.deliver (some p) =
      ({ d.detached with pcb := d.detached.pcb.tcpClose }, [.pbufFreed p, .stopped, .cleared, .tcpClosed]) := by
  have closed' : d.status = .close := pending.status.trans closed
  have cleared := clear_found pending.found pending.allocated
  simp [deliver, pending.receiving, tcpRecvFunc, simple, handle, pending.found, closed', andThen, cleared, tcpClose]

/-- The FIN of the local peer is passed on to a block in CLOSE_WAIT. -/
theorem deliverFin_closeWait {d : Conn} (state : d.pcb.state = .closeWait) :
    d.deliverFin true = andThen ({ d with pcb := { d.pcb with
      rcvWnd := if d.pcb.rcvWnd = tcpWnd then tcpWnd else d.pcb.rcvWnd + 1 }.tcpClose }, [.tcpClosed]) clear := by
  simp only [deliverFin, if_true, tcpRecvFunc, state, tcpClose]

end Conn

/-- A segment that ends the session's time in the map. The link from the block to the session is cut only if
the session was not already closed. -/
structure Leaves (c : Conn) (seg : Segment) (r : Outcome) : Prop where
  erased : r.1.inMap = false
  closed : r.1.status = .close
  live : r.1.halted = false
  alive : r.1.destroyed = false
  retired : Retired r.1
  window : r.1.pcb.rcvWnd ≤ tcpWnd
  linked : r.1.pcb.callbackArg = decide (c.status = .close)
  calm : .crashed ∉ r.2
  stopped : .stopped ∈ r.2
  should : r.1.shouldReadFromRemote = (c.acknowledged seg).shouldReadFromRemote
  readers : r.1.readers = (c.acknowledged seg).readers ∨ r.1.readers = (c.acknowledged seg).readers.map cancel

/-- What one segment does to a connection whose session is in the map. -/
inductive Served (c : Conn) (seg : Segment) : Outcome → Prop where
  | acknowledged (bare : seg.data = none) (open_ : seg.fin = false) : Served c seg (c.acknowledged seg, [])
  | proxied {p : Pbuf} (carried : seg.data = some p) (simple : p.len = p.totLen) (opened : c.status ≠ .close)
      (open_ : seg.fin = false) : Served c seg ((c.acknowledged seg).proxyTcpPacket p)
  | chained {p : Pbuf} (carried : seg.data = some p) (chained : p.len ≠ p.totLen) :
      Served c seg ((c.acknowledged seg).crash, [.crashed])
  | left {r : Outcome} (ends : seg.fin = true ∨ c.status = .close ∧ seg.data ≠ none) (leaves : Leaves c seg r) :
      Served c seg r

namespace Conn
variable {c d : Conn} {seg : Segment}

theorem detached_readers (d : Conn) : d.detached.readers = d.readers ∨
    d.detached.readers = d.readers.map Coroutine.cancel := by
  unfold detached
  split
  · exact Or.inl rfl
  · exact Or.inr rfl

/-- The local peer has closed its side. -/
private theorem fin_leaves {evs : List TcpEvent} (pending : Pending c seg d) (fin : seg.fin = true)
    (window : c.pcb.rcvWnd ≤ tcpWnd) (calm : .crashed ∉ evs)
    (should : d.shouldReadFromRemote = (c.acknowledged seg).shouldReadFromRemote)
    (readers : d.readers = (c.acknowledged seg).readers) :
    Leaves c seg (whileAlive (whileAlive (d, evs) fun c => c.deliverFin seg.fin) delayedClose) ∧
      ((whileAlive (whileAlive (d, evs) fun c => c.deliverFin seg.fin) delayedClose).1.pcb.freed = true ↔
        d.pcb.rcvWnd + 1 ≠ tcpWnd) := by
  have state := pending.closeWait fin
  have counted := finCounted_le (pending.window.trans_le ((Nat.sub_le _ _).trans window))
  generalize bumped : (if d.pcb.rcvWnd = tcpWnd then tcpWnd else d.pcb.rcvWnd + 1) = wnd at counted
  -- the FIN itself has lowered the window
  have whole : wnd = d.pcb.rcvWnd + 1 := by
    have lowered := pending.window_lt (by simp [Segment.tcplen, fin]) window
    rw [← bumped, if_neg (Nat.ne_of_lt lowered)]
  obtain ⟨state', closed', close, ended⟩ :=
    Pcb.tcpClose_closeWait { d.pcb with rcvWnd := wnd } state
  have cleared : Conn.clear { d with pcb := { d.pcb with
      rcvWnd := wnd, rxClosed := true, state := state', closed := closed' } } = _ :=
    clear_found pending.found pending.allocated
  have kept := detached_readers { d with pcb := { d.pcb with
    rcvWnd := wnd, rxClosed := true, state := state', closed := closed' } }
  obtain ⟨_, _, readers', _, _, eq⟩ := detached_eq { d with pcb := { d.pcb with
    rcvWnd := wnd, rxClosed := true, state := state', closed := closed' } }
  have hungUp := whileAlive_live (r := (d, evs)) (f := fun c => c.deliverFin seg.fin) pending.allocated pending.live
  rw [fin, andThen, deliverFin_closeWait state, bumped, close, andThen, cleared, eq] at hungUp
  rw [fin, hungUp]
  have calm' : .crashed ∉ evs ++ [TcpEvent.tcpClosed, .stopped, .cleared] := by simpa using calm
  have link : (if d.status = .close then d.pcb.callbackArg else false) = decide (c.status = .close) := by
    rw [pending.status, pending.linked, Bool.if_true_left, Bool.or_false]
  have woken : readers' = (c.acknowledged seg).readers ∨
      readers' = (c.acknowledged seg).readers.map Coroutine.cancel := by
    rw [← readers]
    rw [eq] at kept
    exact kept
  rw [← whole]
  rcases ended with ⟨left, rfl⟩ | ⟨taken, rfl, rfl⟩
  · rw [whileAlive_delayedClose_closed rfl rfl]
    · refine ⟨?_, iff_of_true rfl left⟩
      exact ⟨rfl, rfl, pending.live, pending.alive, Or.inl rfl, counted, link, calm', by simp, should, woken⟩
    · exact pending.allocated
    · exact pending.live
  · rw [whileAlive_delayedClose_opened]
    · refine ⟨?_, iff_of_false ?_ (not_not.mpr taken)⟩
      · exact ⟨rfl, rfl, pending.live, pending.alive, Or.inr ⟨rfl, rfl, pending.opened⟩, counted, link, calm',
          by simp, should, woken⟩
      · exact Bool.eq_false_iff.mp pending.allocated
    · exact pending.opened

/-- A packet has come for a session that is already closed. -/
private theorem refused_leaves {p : Pbuf} (pending : Pending c seg d) (simple : p.len = p.totLen)
    (closed : c.status = .close) (window : d.pcb.rcvWnd < tcpWnd)
    (should : d.shouldReadFromRemote = (c.acknowledged seg).shouldReadFromRemote)
    (readers : d.readers = (c.acknowledged seg).readers) :
    Leaves c seg (whileAlive (whileAlive (whileAlive (d, []) fun c => c.deliver (some p))
      fun c => c.deliverFin seg.fin) delayedClose) ∧
      (whileAlive (whileAlive (whileAlive (d, []) fun c => c.deliver (some p))
        fun c => c.deliverFin seg.fin) delayedClose).1.pcb.freed = true := by
  have away : d.detached = { d with inMap := false } := by rw [detached, if_pos (pending.status.trans closed)]
  have reset : d.pcb.tcpClose = { d.pcb with rxClosed := true, closed := true } := by
    have state := pending.state
    simp only [Pcb.tcpClose]
    split at state <;> rw [state] <;> exact if_neg (Nat.ne_of_lt window)
  have delivered : whileAlive (d, []) (fun c => c.deliver (some p)) =
      ({ d with inMap := false, pcb := { d.pcb with rxClosed := true, closed := true } },
        [.pbufFreed p, .stopped, .cleared, .tcpClosed]) := by
    rw [whileAlive_live (r := (d, [])) pending.allocated pending.live, andThen, deliver_refused pending simple closed,
      away, reset]
    rfl
  rw [delivered]
  have link : true = decide (c.status = .close) := (decide_eq_true closed).symm
  cases fin : seg.fin with
  | false =>
    rw [whileAlive_quiet (f := fun c => c.deliverFin false) rfl, whileAlive_delayedClose_closed rfl rfl]
    · exact ⟨⟨rfl, pending.status.trans closed, pending.live, pending.alive, Or.inl rfl, Nat.le_of_lt window,
        pending.linked.trans link, by simp, by simp, should, Or.inl readers⟩, rfl⟩
    · exact pending.allocated
    · exact pending.live
  | true =>
    have state := pending.closeWait fin
    have counted := finCounted_le (Nat.le_of_lt window)
    generalize bumped : (if d.pcb.rcvWnd = tcpWnd then tcpWnd else d.pcb.rcvWnd + 1) = wnd at counted
    obtain ⟨state', closed', close, ended⟩ :=
      Pcb.tcpClose_closeWait { d.pcb with rxClosed := true, closed := true, rcvWnd := wnd } state
    obtain rfl : closed' = true := ended.elim And.right fun h => h.2.2
    rw [whileAlive_live (f := fun c => c.deliverFin true), andThen, deliverFin_closeWait, andThen, clear_lost, bumped,
      close, whileAlive_delayedClose_closed]
    · exact ⟨⟨rfl, pending.status.trans closed, pending.live, pending.alive, Or.inl rfl, counted,
        pending.linked.trans link, by simp, by simp, should, Or.inl readers⟩, rfl⟩
    all_goals first | rfl | exact pending.allocated | exact pending.live | exact state

theorem tcplen_pos {p : Pbuf} (carried : seg.data = some p) (ok : c.pcb.accepts seg = true) : 0 < seg.tcplen := by
  simp only [Pcb.accepts, carried, Bool.and_eq_true, Option.all_some, decide_eq_true_eq] at ok
  simp only [Segment.tcplen, carried]
  exact Nat.lt_of_lt_of_le ok.2 (Nat.le_add_right _ _)

theorem tcplen_le (ok : c.pcb.accepts seg = true) : seg.tcplen ≤ c.pcb.rcvWnd := by
  simp only [Pcb.accepts, Bool.and_eq_true, Bool.or_eq_true, decide_eq_true_eq] at ok
  rcases ok.1.2 with none_ | fits
  · exact none_.trans_le (Nat.zero_le _)
  · exact fits.2

/-- The assertion on the packet aborts the process. -/
theorem tcpInput_chained {p : Pbuf} (service : InService c) (live : c.halted = false) (found : c.inMap = true)
    (carried : seg.data = some p) (chained : p.len ≠ p.totLen) :
    c.tcpInput seg = ((c.acknowledged seg).crash, [.crashed]) := by
  have pending := pending_acknowledged seg service live found
  have crashed : whileAlive (c.acknowledged seg, []) (fun c => c.deliver (some p)) =
      ((c.acknowledged seg).crash, [.crashed]) := by
    rw [whileAlive_live (r := (c.acknowledged seg, [])) pending.allocated pending.live, andThen,
      deliver_chained pending chained]
    rfl
  rw [tcpInput_inService service, carried, crashed, whileAlive_halted (f := fun c => c.deliverFin seg.fin) rfl,
    whileAlive_halted rfl]

theorem tcpInput_served (service : InService c) (live : c.halted = false) (found : c.inMap = true)
    (window : c.pcb.rcvWnd ≤ tcpWnd) (ok : c.pcb.accepts seg = true) : Served c seg (c.tcpInput seg) := by
  have pending := pending_acknowledged seg service live found
  rw [tcpInput_inService service]
  cases carried : seg.data with
  | none =>
    rw [whileAlive_quiet (r := (c.acknowledged seg, [])) rfl]
    cases fin : seg.fin with
    | false =>
      rw [whileAlive_quiet (r := (c.acknowledged seg, [])) rfl, whileAlive_delayedClose_opened]
      · exact .acknowledged carried fin
      · exact pending.opened
    | true =>
      rw [← fin]
      exact .left (Or.inl fin) (fin_leaves pending fin window List.not_mem_nil rfl rfl).1
  | some p =>
    by_cases simple : p.len = p.totLen
    · by_cases closed : c.status = .close
      · refine .left (Or.inr ⟨closed, by simp [carried]⟩) (refused_leaves pending simple closed ?_ rfl rfl).1
        exact pending.window_lt (tcplen_pos carried ok) window
      · have pending' := pending.proxied p
        obtain ⟨_, _, _, _, eq⟩ := (c.acknowledged seg).proxyTcpPacket_eq p
        have passed : whileAlive (c.acknowledged seg, []) (fun c => c.deliver (some p)) =
            (c.acknowledged seg).proxyTcpPacket p := by
          rw [whileAlive_live (r := (c.acknowledged seg, [])) pending.allocated pending.live, andThen,
            deliver_proxied pending simple closed]
          rfl
        rw [passed]
        cases fin : seg.fin with
        | false =>
          rw [whileAlive_quiet (f := fun c => c.deliverFin false) rfl, whileAlive_delayedClose_opened pending'.opened]
          exact .proxied carried simple closed fin
        | true =>
          rw [eq] at pending' ⊢
          rw [← fin]
          exact .left (Or.inl fin) (fin_leaves pending' fin window (by simp) rfl rfl).1
    · rw [← carried, ← tcpInput_inService service, tcpInput_chained service live found carried simple]
      exact .chained carried simple

/-- The FIN of the local peer ends with a reset unless it comes alone and everything before it has been taken. -/
theorem tcpInput_fin (service : InService c) (live : c.halted = false) (found : c.inMap = true)
    (window : c.pcb.rcvWnd ≤ tcpWnd) (ok : c.pcb.accepts seg = true) (fin : seg.fin = true)
    (simple : ∀ p, seg.data = some p → p.len = p.totLen) :
    (c.tcpInput seg).1.pcb.freed = true ↔ ¬ (seg.data = none ∧ c.pcb.rcvWnd = tcpWnd) := by
  have pending := pending_acknowledged seg service live found
  have fits := tcplen_le ok
  rw [tcpInput_inService service]
  cases carried : seg.data with
  | none =>
    have one : seg.tcplen = 1 := by simp [Segment.tcplen, carried, fin]
    rw [whileAlive_quiet (r := (c.acknowledged seg, [])) rfl,
      (fin_leaves pending fin window List.not_mem_nil rfl rfl).2, pending.window, one,
      Nat.sub_add_cancel (one ▸ fits)]
    simp
  | some p =>
    have simple := simple p carried
    have pos := tcplen_pos carried ok
    refine iff_of_true ?_ nofun
    by_cases closed : c.status = .close
    · exact (refused_leaves pending simple closed (pending.window_lt pos window) rfl rfl).2
    · have pending' := pending.proxied p
      obtain ⟨_, _, _, _, eq⟩ := (c.acknowledged seg).proxyTcpPacket_eq p
      rw [whileAlive_live (r := (c.acknowledged seg, [])) pending.allocated pending.live, andThen,
        deliver_proxied pending simple closed]
      rw [eq] at pending' ⊢
      refine (fin_leaves pending' fin window (by simp) rfl rfl).2.mpr ?_
      rw [pending'.window]
      have filled : seg.tcplen = p.totLen + 1 := by simp [Segment.tcplen, carried, fin]
      have some_ : 0 < p.totLen := by
        simp only [Pcb.accepts, carried, Bool.and_eq_true, Option.all_some, decide_eq_true_eq] at ok
        exact ok.2
      have : tcpWnd = 65535 := rfl
      omega

end Conn

/-- What one event does to a connection whose session has been erased. A session that is left linked and has
been destroyed is used. -/
structure Lingers (c : Conn) (r : Outcome) : Prop where
  erased : r.1.inMap = false
  retired : r.1.halted = false → Retired r.1
  window : r.1.pcb.rcvWnd ≤ tcpWnd
  linked : r.1.pcb.callbackArg = c.pcb.callbackArg
  alive : r.1.destroyed = c.destroyed
  calm : c.pcb.callbackArg = false ∨ c.destroyed = false → c.halted = false → r.1.halted = false ∧ .crashed ∉ r.2

namespace Conn
variable {c : Conn} {seg : Segment}

theorem tcplen_lastAck (state : c.pcb.state = .lastAck) (ok : c.pcb.accepts seg = true) :
    seg.data = none ∧ seg.fin = false := by
  simp only [Pcb.accepts, Pcb.receives, state, Bool.false_and, Bool.or_false, Bool.and_eq_true, decide_eq_true_eq] at ok
  obtain ⟨⟨_, empty⟩, filled⟩ := ok
  cases carried : seg.data with
  | none =>
    refine ⟨rfl, ?_⟩
    cases fin : seg.fin with
    | false => rfl
    | true => simp [Segment.tcplen, fin] at empty
  | some p =>
    simp only [carried, Option.all_some, decide_eq_true_eq] at filled
    simp only [Segment.tcplen, carried] at empty
    omega

/-- A block whose closing is complete goes at the end of the input. -/
private theorem settles {r : Outcome} (rxClosed : r.1.pcb.rxClosed = true) :
    whileAlive (whileAlive r delayedClose) delayedClose = (r.1.freeBlock, r.2) ∨
      whileAlive (whileAlive r delayedClose) delayedClose = r ∧
        (r.1.pcb.freed = true ∨ r.1.halted = true ∨ r.1.pcb.closed = false) := by
  by_cases freed : r.1.pcb.freed = true
  · rw [whileAlive_freed freed, whileAlive_freed freed]
    exact Or.inr ⟨rfl, Or.inl freed⟩
  by_cases halted : r.1.halted = true
  · rw [whileAlive_halted halted, whileAlive_halted halted]
    exact Or.inr ⟨rfl, Or.inr (Or.inl halted)⟩
  by_cases closed : r.1.pcb.closed = true
  · rw [whileAlive_delayedClose_closed closed rxClosed (by simpa using freed) (by simpa using halted),
      whileAlive_freed rfl]
    exact Or.inl rfl
  · have opened : r.1.pcb.closed = false := by simpa using closed
    rw [whileAlive_delayedClose_opened opened, whileAlive_delayedClose_opened opened]
    exact Or.inr ⟨rfl, Or.inr (Or.inr opened)⟩

private theorem Lingers.settle {r : Outcome} (erased : r.1.inMap = false) (state : r.1.pcb.state = .lastAck)
    (rxClosed : r.1.pcb.rxClosed = true) (window : r.1.pcb.rcvWnd ≤ tcpWnd)
    (linked : r.1.pcb.callbackArg = c.pcb.callbackArg) (alive : r.1.destroyed = c.destroyed)
    (calm : c.pcb.callbackArg = false ∨ c.destroyed = false → c.halted = false → r.1.halted = false ∧ .crashed ∉ r.2) :
    Lingers c (whileAlive (whileAlive r delayedClose) delayedClose) := by
  rcases settles rxClosed with freed | ⟨same, kept⟩
  · rw [freed]
    exact ⟨erased, fun _ => Or.inl rfl, window, linked, alive, calm⟩
  · rw [same]
    refine ⟨erased, fun live => ?_, window, linked, alive, calm⟩
    rcases kept with freed | halted | opened
    · exact Or.inl freed
    · rw [live] at halted
      cases halted
    · exact Or.inr ⟨state, rxClosed, opened⟩

/-- The acknowledgement of a block that waits for its last one is reported. -/
private theorem tcpSentFunc_cases (d : Conn) (state : d.pcb.state = .lastAck) :
    d.tcpSentFunc = (d.crash, [.crashed]) ∧ d.pcb.callbackArg = true ∧ d.destroyed = true ∨
      d.tcpSentFunc = (d.freeBlock, [.tcpAborted]) ∨
      ∃ shouldReadFromRemote readers readQueue,
        d.tcpSentFunc = ({ d with shouldReadFromRemote, readers, readQueue }, []) := by
  unfold tcpSentFunc
  split
  · next linked =>
    split
    · next gone => exact Or.inl ⟨rfl, linked, gone⟩
    · refine Or.inr (Or.inr ?_)
      split
      · obtain ⟨_, _, _, eq⟩ := d.readFromRemote_eq
        rw [eq]
        exact ⟨_, _, _, rfl⟩
      · exact ⟨_, _, _, rfl⟩
  · next cut =>
    refine Or.inr (Or.inl ?_)
    simp [tcpAbort, state, andThen, tcpErrFunc, freeBlock, cut]

/-- A block that waits for the last acknowledgement is freed or waits on. -/
theorem tcpInput_lastAck (state : c.pcb.state = .lastAck) (rxClosed : c.pcb.rxClosed = true) (lost : c.inMap = false)
    (window : c.pcb.rcvWnd ≤ tcpWnd) (ok : c.pcb.accepts seg = true) : Lingers c (c.tcpInput seg) := by
  obtain ⟨bare, open_⟩ := tcplen_lastAck state ok
  have none_ : seg.tcplen = 0 := by simp [Segment.tcplen, bare, open_]
  obtain ⟨closed, processed⟩ : ∃ closed, c.pcb.tcpProcess seg = { c.pcb with
      acked := c.pcb.acked + seg.acked, sndBuf := c.pcb.sndBuf + seg.acked, closed } := by
    simp only [Pcb.tcpProcess, state, none_, Nat.sub_zero]
    split
    · exact ⟨true, by rw [← state]⟩
    · exact ⟨c.pcb.closed, by rw [← state]⟩
  simp only [tcpInput_bare bare open_, beforeData, afterSent, Conn.processed, processed]
  split
  · rw [andThen]
    rcases tcpSentFunc_cases { c with pcb := { c.pcb with
        acked := c.pcb.acked + seg.acked, sndBuf := c.pcb.sndBuf + seg.acked, closed } } state with
      ⟨used, linked, gone⟩ | aborted | ⟨_, _, _, woken⟩
    · rw [used]
      refine Lingers.settle lost state rxClosed window rfl rfl fun spared => ?_
      rcases spared with h | h
      · cases linked.symm.trans h
      · cases gone.symm.trans h
    · rw [aborted]
      exact Lingers.settle lost state rxClosed window rfl rfl fun _ live => ⟨live, by simp⟩
    · rw [woken]
      exact Lingers.settle lost state rxClosed window rfl rfl fun _ live => ⟨live, by simp⟩
  · exact Lingers.settle lost state rxClosed window rfl rfl fun _ live => ⟨live, List.not_mem_nil⟩

/-- A reset frees the block. -/
theorem tcpReset_inService (service : InService c) (found : c.inMap = true) :
    c.tcpReset = (c.detached.freeBlock, [.stopped, .cleared]) := by
  simp [tcpReset, tcpErrFunc, service.linked, service.alive, clear_found found service.allocated, andThen]

theorem tcpReset_erased (lost : c.inMap = false) (window : c.pcb.rcvWnd ≤ tcpWnd) : Lingers c c.tcpReset := by
  cases linked : c.pcb.callbackArg with
  | true =>
    cases alive : c.destroyed with
    | true =>
      have used : c.tcpReset = (c.crash.freeBlock, [.crashed]) := by
        simp [tcpReset, tcpErrFunc, linked, alive, andThen]
      rw [used]
      refine ⟨lost, fun _ => Or.inl rfl, window, rfl, rfl, fun spared => ?_⟩
      rw [linked, alive] at spared
      rcases spared with h | h <;> cases h
    | false =>
      have freed : c.tcpReset = (c.freeBlock, []) := by
        simp [tcpReset, tcpErrFunc, linked, alive, andThen, clear_lost lost]
      rw [freed]
      exact ⟨lost, fun _ => Or.inl rfl, window, rfl, rfl, fun _ live => ⟨live, List.not_mem_nil⟩⟩
  | false =>
    have freed : c.tcpReset = (c.freeBlock, []) := by
      simp [tcpReset, tcpErrFunc, linked, andThen]
    rw [freed]
    exact ⟨lost, fun _ => Or.inl rfl, window, rfl, rfl, fun _ live => ⟨live, List.not_mem_nil⟩⟩

end Conn

/-! ### Whole runs -/

/-- What the coroutines and the remote socket leave alone. -/
structure Aside (c c' : Conn) : Prop where
  inMap : c'.inMap = c.inMap
  state : c'.pcb.state = c.pcb.state
  linked : c'.pcb.callbackArg = c.pcb.callbackArg
  receiving : c'.pcb.rxClosed = c.pcb.rxClosed
  opened : c'.pcb.closed = c.pcb.closed
  allocated : c'.pcb.freed = c.pcb.freed
  alive : c'.destroyed = c.destroyed
  window : c.pcb.rcvWnd ≤ tcpWnd → c'.pcb.rcvWnd ≤ tcpWnd

section Moves
variable {c c' : Conn} {evs : List TcpEvent}

theorem Conn.writeLocal_pcb (c : Conn) (n : Nat) (room : Room) :
    ∃ sndBuf writes strays, c.writeLocal n room = { c with pcb := { c.pcb with sndBuf, writes, strays } } := by
  obtain ⟨pcb, eq, rfl | taken⟩ := c.writeLocal_eq n room
  · exact ⟨_, _, _, eq⟩
  · simp only [Pcb.tcpWrite] at taken
    split at taken
    · cases taken
      exact ⟨_, _, _, eq⟩
    · cases taken

private theorem Aside.recved (n : Nat) : Aside c { c with pcb := c.pcb.tcpRecved n } :=
  ⟨rfl, rfl, rfl, rfl, rfl, rfl, rfl, fun _ => Nat.min_le_right _ _⟩

private theorem Aside.drainLoop {d : Conn} (aside : Aside c d) : Aside c d.drainLoop.1 := by
  obtain ⟨_, _, _, _, _, eq⟩ := d.drainLoop_eq
  rw [eq]
  exact ⟨aside.inMap, aside.state, aside.linked, aside.receiving, aside.opened, aside.allocated, aside.alive,
    aside.window⟩

private theorem Aside.writerLoop {d : Conn} (aside : Aside c d) (j : Nat) : Aside c (d.writerLoop j) := by
  obtain ⟨_, _, _, _, eq⟩ := d.writerLoop_eq j
  rw [eq]
  exact ⟨aside.inMap, aside.state, aside.linked, aside.receiving, aside.opened, aside.allocated, aside.alive,
    aside.window⟩

theorem SocketMove.aside {a : TcpAct} (move : SocketMove c a evs c') : Aside c c' := by
  cases move <;> exact ⟨rfl, rfl, rfl, rfl, rfl, rfl, rfl, id⟩

theorem Resumes.aside {room : Room} {id : CoroId} (move : Resumes c room id evs c') : Aside c c' := by
  cases move with
  | relays => exact Aside.drainLoop ⟨rfl, rfl, rfl, rfl, rfl, rfl, rfl, fun h => h⟩
  | drains => exact (Aside.recved _).drainLoop
  | writerPops => exact (Aside.recved _).writerLoop _
  | writerFollows => exact ⟨rfl, rfl, rfl, rfl, rfl, rfl, rfl, fun _ => Nat.min_le_right _ _⟩
  | @parks n | @downloads n | @readerParks _ n | @readerReads _ n =>
    obtain ⟨_, _, _, eq⟩ := c.writeLocal_pcb n room
    rw [eq]
    exact ⟨rfl, rfl, rfl, rfl, rfl, rfl, rfl, fun h => h⟩
  | _ => exact ⟨rfl, rfl, rfl, rfl, rfl, rfl, rfl, fun h => h⟩

theorem Aside.filed (aside : Aside c c') (filed : Filed c) (live : c.halted = false) : Filed c' := by
  constructor
  · exact aside.window filed.window
  · intro found _
    have service := filed.mapped (aside.inMap ▸ found) live
    exact ⟨aside.state.trans service.state, aside.linked.trans service.linked, aside.receiving.trans service.receiving,
      aside.opened.trans service.opened, aside.allocated.trans service.allocated, aside.alive.trans service.alive⟩
  · intro lost _
    rw [Retired, aside.allocated, aside.state, aside.receiving, aside.opened]
    exact filed.erased (aside.inMap ▸ lost) live

end Moves

namespace Filed
variable {c : Conn} {seg : Segment} {r : Outcome}

theorem of_leaves (leaves : Leaves c seg r) : Filed r.1 := by
  refine ⟨leaves.window, fun found => ?_, fun _ _ => leaves.retired⟩
  cases leaves.erased.symm.trans found

theorem of_lingers (lingers : Lingers c r) : Filed r.1 := by
  refine ⟨lingers.window, fun found => ?_, fun _ => lingers.retired⟩
  cases lingers.erased.symm.trans found

/-- A connection that stays in the map without a FIN stays in service. -/
theorem of_pending {d : Conn} (pending : Conn.Pending c seg d) (filed : Filed c) (open_ : seg.fin = false) :
    Filed d := by
  constructor
  · rw [pending.window]
    exact (Nat.sub_le _ _).trans filed.window
  · intro _ _
    refine ⟨?_, pending.linked, pending.receiving, pending.opened, pending.allocated, pending.alive⟩
    rw [pending.state, open_]
    rfl
  · intro lost
    cases lost.symm.trans pending.found

theorem of_served (served : Served c seg r) (service : InService c) (filed : Filed c) (live : c.halted = false)
    (found : c.inMap = true) : Filed r.1 := by
  have pending := Conn.pending_acknowledged seg service live found
  cases served with
  | acknowledged _ open_ => exact filed.of_pending pending open_
  | proxied _ _ _ open_ => exact filed.of_pending (pending.proxied _) open_
  | chained =>
    refine ⟨?_, (fun _ live => nomatch live), (fun _ live => nomatch live)⟩
    exact pending.window.trans_le ((Nat.sub_le _ _).trans filed.window)
  | left _ leaves => exact of_leaves leaves

theorem freed {d : Conn} (lost : d.inMap = false) (window : d.pcb.rcvWnd ≤ tcpWnd) : Filed d.freeBlock :=
  ⟨window, (fun found => nomatch lost.symm.trans found), fun _ _ => Or.inl rfl⟩

/-- The only blocks of erased sessions that segments still come for. -/
theorem lastAck (filed : Filed c) (live : c.halted = false) (lost : c.inMap = false) (ok : c.pcb.accepts seg = true) :
    c.pcb.state = .lastAck ∧ c.pcb.rxClosed = true ∧ c.pcb.closed = false := by
  rcases filed.erased lost live with freed | waits
  · simp [Pcb.accepts, freed] at ok
  · exact waits

theorem lingers (filed : Filed c) (live : c.halted = false) (lost : c.inMap = false) (ok : c.pcb.accepts seg = true) :
    Lingers c (c.tcpInput seg) := by
  obtain ⟨state, rxClosed, _⟩ := filed.lastAck live lost ok
  exact Conn.tcpInput_lastAck state rxClosed lost filed.window ok

/-- Only a block in service is handed data or a FIN. -/
theorem serves (filed : Filed c) (live : c.halted = false) (ok : c.pcb.accepts seg = true)
    (handed : seg.data ≠ none ∨ seg.fin = true) : c.inMap = true ∧ InService c := by
  cases found : c.inMap with
  | true => exact ⟨rfl, filed.mapped found live⟩
  | false =>
    obtain ⟨bare, open_⟩ := Conn.tcplen_lastAck (filed.lastAck live found ok).1 ok
    rcases handed with carried | fin
    · exact absurd bare carried
    · cases open_.symm.trans fin

theorem tcpInput (filed : Filed c) (live : c.halted = false) (ok : c.pcb.accepts seg = true) :
    Filed (c.tcpInput seg).1 := by
  cases found : c.inMap with
  | true =>
    have service := filed.mapped found live
    exact of_served (Conn.tcpInput_served service live found filed.window ok) service filed live found
  | false => exact of_lingers (filed.lingers live found ok)

theorem tcpReset (filed : Filed c) (live : c.halted = false) : Filed c.tcpReset.1 := by
  cases found : c.inMap with
  | true =>
    obtain ⟨_, _, _, _, _, eq⟩ := c.detached_eq
    rw [Conn.tcpReset_inService (filed.mapped found live) found, eq]
    exact freed rfl filed.window
  | false => exact of_lingers (Conn.tcpReset_erased found filed.window)

theorem reap {d : Conn} (filed : Filed d) : Filed d.reap.1 := by
  unfold Conn.reap
  split
  · next gone => exact ⟨filed.window, (fun found => nomatch gone.2.1.symm.trans found), filed.erased⟩
  · exact filed

end Filed

/-- What an action is: a segment, a reset, or a move that leaves the block's life alone. -/
inductive Happens (c : Conn) : TcpAct → Outcome → Prop where
  | input {seg : Segment} (ok : c.pcb.accepts seg = true) : Happens c (.input seg) (c.tcpInput seg)
  | reset : Happens c .reset c.tcpReset
  | socket {a : TcpAct} {evs : List TcpEvent} {c' : Conn} (move : SocketMove c a evs c') : Happens c a (c', evs)
  | resumed {id : CoroId} {room : Room} {evs : List TcpEvent} {c' : Conn} (move : Resumes c room id evs c') :
      Happens c (.resume id room) (c', evs)

theorem happens_of_act {c : Conn} {a : TcpAct} {r : Outcome} (acted : c.act a = some r) : Happens c a r := by
  obtain ⟨c', evs⟩ := r
  cases a with
  | input seg =>
    obtain ⟨ok, acted⟩ := Option.ite_none_right_eq_some.mp acted
    rw [← Option.some.inj acted]
    exact .input ok
  | reset =>
    obtain ⟨_, acted⟩ := Option.ite_none_left_eq_some.mp acted
    rw [← Option.some.inj acted]
    exact .reset
  | resume id room =>
    cases tcpStep_of_act acted with
    | socket move => exact .socket move
    | resumed move => exact .resumed move
  | _ =>
    cases tcpStep_of_act acted with
    | socket move => exact .socket move

theorem Happens.filed {c : Conn} {a : TcpAct} {r : Outcome} (happens : Happens c a r) (filed : Filed c)
    (live : c.halted = false) : Filed r.1 := by
  cases happens with
  | input ok => exact filed.tcpInput live ok
  | reset => exact filed.tcpReset live
  | socket move => exact move.aside.filed filed live
  | resumed move => exact move.aside.filed filed live

theorem happens_of_step {c c' : Conn} {a : TcpAct} {out : List TcpEvent} (h : connMachine.step c a = some (c', out)) :
    c.halted = false ∧ ∃ r, Happens c a r ∧ c' = r.1.reap.1 ∧ out = r.2 ++ r.1.reap.2 := by
  obtain ⟨live, h⟩ := Option.ite_none_left_eq_some.mp h
  obtain ⟨r, acted, h⟩ := Option.map_eq_some_iff.mp h
  cases h
  exact ⟨by simpa using live, r, happens_of_act acted, rfl, rfl⟩

theorem filed_init {c : Conn} (h : connMachine.Init c) : Filed c := by
  obtain ⟨_, _, _, _, _, _, rfl⟩ := h
  exact ⟨Nat.le_refl _, fun _ _ => ⟨rfl, rfl, rfl, rfl, rfl, rfl⟩, fun lost => nomatch lost⟩

theorem filed_step {c c' : Conn} {a : TcpAct} {out : List TcpEvent} (filed : Filed c)
    (h : connMachine.step c a = some (c', out)) : Filed c' := by
  obtain ⟨live, r, happens, rfl, rfl⟩ := happens_of_step h
  exact (happens.filed filed live).reap

/-- What an action is that leaves the session in the map. -/
inductive Stays (c : Conn) : TcpAct → Outcome → Prop where
  | acknowledged {seg : Segment} (bare : seg.data = none) (open_ : seg.fin = false) :
      Stays c (.input seg) (c.acknowledged seg, [])
  | proxied {seg : Segment} {p : Pbuf} (ok : c.pcb.accepts seg = true) (carried : seg.data = some p)
      (simple : p.len = p.totLen) (opened : c.status ≠ .close) (open_ : seg.fin = false) :
      Stays c (.input seg) ((c.acknowledged seg).proxyTcpPacket p)
  | chained {seg : Segment} {p : Pbuf} (carried : seg.data = some p) (chained : p.len ≠ p.totLen) :
      Stays c (.input seg) ((c.acknowledged seg).crash, [.crashed])
  | socket {a : TcpAct} {evs : List TcpEvent} {c' : Conn} (move : SocketMove c a evs c') : Stays c a (c', evs)
  | resumed {id : CoroId} {room : Room} {evs : List TcpEvent} {c' : Conn} (move : Resumes c room id evs c') :
      Stays c (.resume id room) (c', evs)

theorem Stays.inMap {c : Conn} {a : TcpAct} {r : Outcome} (stays : Stays c a r) (service : InService c)
    (live : c.halted = false) (found : c.inMap = true) : r.1.inMap = true := by
  cases stays with
  | @acknowledged seg | @chained seg => exact (Conn.pending_acknowledged seg service live found).found
  | @proxied seg p => exact ((Conn.pending_acknowledged seg service live found).proxied p).found
  | socket move => exact move.aside.inMap.trans found
  | resumed move => exact move.aside.inMap.trans found

/-- An erased session stays erased. -/
theorem Happens.erased {c : Conn} {a : TcpAct} {r : Outcome} (happens : Happens c a r) (filed : Filed c)
    (live : c.halted = false) (lost : c.inMap = false) : r.1.inMap = false := by
  cases happens with
  | input ok => exact (filed.lingers live lost ok).erased
  | reset => exact (Conn.tcpReset_erased lost filed.window).erased
  | socket move => exact move.aside.inMap.trans lost
  | resumed move => exact move.aside.inMap.trans lost

/-- An action on a session in the map leaves it there, or calls `Stop()`. -/
theorem Happens.stays_or_stops {c : Conn} {a : TcpAct} {r : Outcome} (happens : Happens c a r) (service : InService c)
    (window : c.pcb.rcvWnd ≤ tcpWnd) (live : c.halted = false) (found : c.inMap = true) :
    Stays c a r ∨ r.1.inMap = false ∧ .stopped ∈ r.2 := by
  cases happens with
  | @input seg ok =>
    have served := Conn.tcpInput_served service live found window ok
    generalize c.tcpInput seg = r at served
    cases served with
    | acknowledged bare open_ => exact Or.inl (.acknowledged bare open_)
    | proxied carried simple opened open_ => exact Or.inl (.proxied ok carried simple opened open_)
    | chained carried chained => exact Or.inl (.chained carried chained)
    | left _ leaves => exact Or.inr ⟨leaves.erased, leaves.stopped⟩
  | reset =>
    obtain ⟨_, _, _, _, _, eq⟩ := c.detached_eq
    rw [Conn.tcpReset_inService service found, eq]
    exact Or.inr ⟨rfl, List.mem_cons_self⟩
  | socket move => exact Or.inl (.socket move)
  | resumed move => exact Or.inl (.resumed move)

/-- Inversion of an action after which the session is in the map. -/
theorem Happens.stays {c : Conn} {a : TcpAct} {r : Outcome} (happens : Happens c a r) (filed : Filed c)
    (live : c.halted = false) (found : r.1.inMap = true) : c.inMap = true ∧ InService c ∧ Stays c a r := by
  cases before : c.inMap with
  | false => cases (happens.erased filed live before).symm.trans found
  | true =>
    have service := filed.mapped before live
    rcases happens.stays_or_stops service filed.window live before with stays | ⟨lost, _⟩
    · exact ⟨rfl, service, stays⟩
    · cases lost.symm.trans found

/-- In every run the block is in service while its session is in the map. -/
theorem filed_run {ts : List (Transition Conn TcpAct TcpEvent)} {c : Conn} (run : connMachine.Run ts c) : Filed c :=
  run.invariant Filed (fun _ => filed_init) fun _ _ _ _ => filed_step

@[simp] theorem Conn.inMap_reap (c : Conn) : c.reap.1.inMap = c.inMap := by
  obtain ⟨_, _, eq⟩ := c.reap_eq
  rw [eq]

theorem inMap_of_unstopped {ts : List (Transition Conn TcpAct TcpEvent)} {c : Conn} (run : connMachine.Run ts c)
    (unstopped : .stopped ∉ Machine.trace ts) : c.inMap = true := by
  have known : Filed c ∧ (c.inMap = false → .stopped ∈ Machine.trace ts) := by
    refine run.invariant_trace (fun tr c => Filed c ∧ (c.inMap = false → .stopped ∈ tr)) ?_ ?_
    · intro c init
      refine ⟨filed_init init, ?_⟩
      obtain ⟨_, _, _, _, _, _, rfl⟩ := init
      exact fun lost => nomatch lost
    · rintro tr c a c' out ⟨filed, before⟩ h
      refine ⟨filed_step filed h, fun lost => ?_⟩
      obtain ⟨live, r, happens, rfl, rfl⟩ := happens_of_step h
      rw [Conn.inMap_reap] at lost
      cases found : c.inMap with
      | true =>
        have stopped : .stopped ∈ r.2 := by
          rcases happens.stays_or_stops (filed.mapped found live) filed.window live found with stays | ⟨_, stopped⟩
          · cases (stays.inMap (filed.mapped found live) live found).symm.trans lost
          · exact stopped
        exact List.mem_append_right _ (List.mem_append_left _ stopped)
      | false => exact List.mem_append_left _ (before found)
  cases found : c.inMap with
  | true => rfl
  | false => exact absurd (known.2 found) unstopped

end Tunosocks.Tcp
