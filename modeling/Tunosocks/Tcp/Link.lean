import Tunosocks.Tcp.Mapped

/-! The link from a control block to its session, `callback_arg`: `Clear` cuts it unless the
session has already closed itself. -/
namespace Tunosocks.Tcp
open Foundation Coroutine

namespace Conn

/-- No operation is pending on the remote socket. -/
def Cancelled (c : Conn) : Prop :=
  c.readQueue = [] ∧ c.writeQueue = [] ∧ (∀ p, c.start ≠ .suspended p) ∧
    (∀ (j : Nat) p, c.writers[j]? ≠ some (.suspended p)) ∧ ∀ j : Nat, c.readers[j]? ≠ some (.suspended ())

/-- The block no longer points to the session, and the session waits for nothing. -/
def Unlinked (c : Conn) : Prop := c.pcb.callbackArg = false ∧ c.Cancelled

/-- The states in which lwIP makes its callbacks for a segment: `tcp_sent_func`, the delayed close,
`tcp_recv_func` with the data and with the FIN, and the delayed close again. -/
def stages (c : Conn) : TcpAct → List Conn
  | .input seg =>
    [(c.processed seg).1, (c.afterSent seg).1, (c.beforeData seg).1, (c.beforeFin seg).1, (c.afterFin seg).1]
  | .reset => [c]
  | _ => []

/-- The argument of `tcp_sent_func` and `tcp_err_func` is null or a session in the map. -/
def Linked (c : Conn) : Prop := c.pcb.callbackArg = true → c.inMap = true

end Conn

/-- Data, a FIN or a reset: what makes the callbacks clear a session that is closed. -/
def TcpAct.hangsUp : TcpAct → Bool
  | .input seg => seg.data.isSome || seg.fin
  | .reset => true
  | _ => false

/-- lwIP hangs up a connection whose session is in the map and already closed. -/
def ClearsClosed (t : Transition Conn TcpAct TcpEvent) : Prop :=
  t.pre.inMap = true ∧ t.pre.status = .close ∧ t.act.hangsUp = true

instance (t : Transition Conn TcpAct TcpEvent) : Decidable (ClearsClosed t) :=
  inferInstanceAs (Decidable (_ ∧ _ ∧ _))

section Link
variable {c d : Conn} {seg : Segment}

theorem cancelled_cancel (c : Conn) : c.cancel.Cancelled := by
  refine ⟨rfl, rfl, fun p => cancel_ne_suspended _ _, fun j p h => ?_, fun j h => ?_⟩
  · change (c.writers.map cancel)[j]? = _ at h
    rw [List.getElem?_map, Option.map_eq_some_iff] at h
    obtain ⟨t, _, cancelled⟩ := h
    exact cancel_ne_suspended t p cancelled
  · change (c.readers.map cancel)[j]? = _ at h
    rw [List.getElem?_map, Option.map_eq_some_iff] at h
    obtain ⟨t, _, cancelled⟩ := h
    exact cancel_ne_suspended t () cancelled

/-- `Clear` detaches exactly the sessions that have not closed themselves. -/
private theorem unlinked_clear_iff (service : InService c) (found : c.inMap = true) :
    c.clear.1.Unlinked ↔ c.status ≠ .close := by
  rw [Conn.clear_found found service.allocated]
  unfold Conn.detached
  split
  · next closed =>
    exact iff_of_false (fun unlinked => nomatch service.linked.symm.trans unlinked.1) (not_not_intro closed)
  · next opened => exact iff_of_true ⟨rfl, cancelled_cancel c⟩ opened

/-- The FIN cuts the link of a session that is open. -/
private theorem deliverFin_unlinks (pending : Conn.Pending c seg d) (fin : seg.fin = true)
    (opened : c.status ≠ .close) :
    (d.deliverFin true).1.pcb.callbackArg = false := by
  have state := pending.closeWait fin
  obtain ⟨state', closed', close, _⟩ := Pcb.tcpClose_closeWait { d.pcb with
    rcvWnd := if d.pcb.rcvWnd = tcpWnd then tcpWnd else d.pcb.rcvWnd + 1 } state
  have cleared : Conn.clear { d with pcb := { d.pcb with
      rcvWnd := if d.pcb.rcvWnd = tcpWnd then tcpWnd else d.pcb.rcvWnd + 1
      rxClosed := true, state := state', closed := closed' } } = _ :=
    Conn.clear_found pending.found pending.allocated
  obtain ⟨_, _, _, _, _, eq⟩ := Conn.detached_eq { d with pcb := { d.pcb with
    rcvWnd := if d.pcb.rcvWnd = tcpWnd then tcpWnd else d.pcb.rcvWnd + 1
    rxClosed := true, state := state', closed := closed' } }
  rw [Conn.deliverFin_closeWait state, close, andThen, cleared, eq]
  exact if_neg (pending.status ▸ opened)

private theorem stages_inService (service : InService c) (live : c.halted = false) (found : c.inMap = true)
    (spared : c.status = .close → seg.data = none ∧ seg.fin = false) :
    ∀ d ∈ c.stages (.input seg), d.Linked := by
  have pending := Conn.pending_acknowledged seg service live found
  -- what the data leaves: the session is in the map, and stopped there only by an assertion
  obtain ⟨e, evs, delivered, found', kept⟩ : ∃ e evs,
      whileAlive (c.acknowledged seg, []) (fun c => c.deliver seg.data) = (e, evs) ∧ e.inMap = true ∧
        (e.halted = true ∨ Conn.Pending c seg e) := by
    cases carried : seg.data with
    | none => exact ⟨_, _, whileAlive_quiet rfl, pending.found, Or.inr pending⟩
    | some p =>
      have opened : c.status ≠ .close := fun closed => by
        cases (spared closed).1.symm.trans carried
      rw [whileAlive_live (r := (c.acknowledged seg, [])) pending.allocated pending.live, andThen]
      by_cases simple : p.len = p.totLen
      · rw [Conn.deliver_proxied pending simple opened]
        exact ⟨_, _, rfl, (pending.proxied p).found, Or.inr (pending.proxied p)⟩
      · rw [Conn.deliver_chained pending simple]
        exact ⟨_, _, rfl, pending.found, Or.inl rfl⟩
  have finished : (whileAlive (e, evs) fun c => c.deliverFin seg.fin).1.Linked := by
    cases fin : seg.fin with
    | false =>
      rw [whileAlive_quiet (f := fun c => c.deliverFin false) rfl]
      exact fun _ => found'
    | true =>
      rcases kept with halted | pending'
      · rw [whileAlive_halted (r := (e, evs)) halted]
        exact fun _ => found'
      · have opened : c.status ≠ .close := fun closed => by
          cases (spared closed).2.symm.trans fin
        rw [whileAlive_live (r := (e, evs)) pending'.allocated pending'.live]
        intro linked
        cases (deliverFin_unlinks pending' fin opened).symm.trans linked
  simp only [Conn.stages, Conn.sent_inService service, Conn.afterFin, Conn.beforeFin, Conn.beforeData_inService service,
    delivered, List.forall_mem_cons]
  exact ⟨fun _ => found, fun _ => pending.found, fun _ => pending.found, fun _ => found', finished,
    List.forall_mem_nil _⟩

private theorem callbackArg_tcpProcess (pcb : Pcb) (seg : Segment) :
    (pcb.tcpProcess seg).callbackArg = pcb.callbackArg := by
  obtain ⟨_, _, eq⟩ := pcb.tcpProcess_eq seg
  rw [eq]

private theorem sent_cut (cut : c.pcb.callbackArg = false) : c.tcpSentFunc.1.pcb.callbackArg = false := by
  simp only [Conn.tcpSentFunc, cut, Bool.false_eq_true, if_false, Conn.tcpAbort]
  split
  · exact cut
  · simp [andThen, Conn.tcpErrFunc, Conn.freeBlock, cut]

private theorem delayed_cut {r : Outcome} (cut : r.1.pcb.callbackArg = false) :
    (whileAlive r Conn.delayedClose).1.pcb.callbackArg = false := by
  unfold whileAlive
  split
  · exact cut
  · simp only [andThen, Conn.delayedClose, Conn.tcpErrFunc, cut]
    split
    · split <;> exact cut
    · exact cut

/-- Once the link is cut, no callback gets the session. -/
private theorem stages_erased (state : c.pcb.state = .lastAck) (cut : c.pcb.callbackArg = false)
    (ok : c.pcb.accepts seg = true) : ∀ d ∈ c.stages (.input seg), d.Linked := by
  obtain ⟨bare, open_⟩ := Conn.tcplen_lastAck state ok
  have processed : ({ c with pcb := c.pcb.tcpProcess seg } : Conn).pcb.callbackArg = false :=
    (callbackArg_tcpProcess _ _).trans cut
  have sent : (c.afterSent seg).1.pcb.callbackArg = false := by
    unfold Conn.afterSent
    split
    · exact sent_cut processed
    · exact processed
  have closed : (c.beforeData seg).1.pcb.callbackArg = false := delayed_cut sent
  have null : ∀ d : Conn, d.pcb.callbackArg = false → d.Linked := fun d cut linked =>
    absurd (cut.symm.trans linked) Bool.false_ne_true
  simp only [Conn.stages, Conn.afterFin, Conn.beforeFin, bare, open_, List.forall_mem_cons]
  rw [whileAlive_quiet (f := fun c => c.deliver none) rfl, whileAlive_quiet (f := fun c => c.deliverFin false) rfl]
  exact ⟨null _ processed, null _ sent, null _ closed, null _ closed, null _ closed, List.forall_mem_nil _⟩

private theorem Happens.linked {a : TcpAct} {r : Outcome} (happens : Happens c a r) (filed : Filed c)
    (live : c.halted = false) (linked : c.Linked)
    (spared : c.inMap = true → c.status = .close → a.hangsUp = false) :
    r.1.Linked ∧ ∀ d ∈ c.stages a, d.Linked := by
  cases found : c.inMap with
  | true =>
    have service := filed.mapped found live
    cases happens with
    | @input seg ok =>
      have bare (closed : c.status = .close) : seg.data = none ∧ seg.fin = false := by
        simpa [TcpAct.hangsUp] using spared found closed
      refine ⟨?_, stages_inService service live found bare⟩
      have served := Conn.tcpInput_served service live found filed.window ok
      have pending := Conn.pending_acknowledged seg service live found
      generalize c.tcpInput seg = r at served
      cases served with
      | acknowledged | chained => exact fun _ => pending.found
      | proxied => exact fun _ => (pending.proxied _).found
      | left ends leaves =>
        intro linked
        have closed : c.status = .close := by simpa using leaves.linked.symm.trans linked
        obtain ⟨none_, open_⟩ := bare closed
        rcases ends with fin | ⟨_, carried⟩
        · cases open_.symm.trans fin
        · exact absurd none_ carried
    | reset =>
      refine ⟨?_, fun d hd => List.mem_singleton.mp hd ▸ linked⟩
      have opened : c.status ≠ .close := fun closed => nomatch spared found closed
      obtain ⟨_, _, _, _, _, eq⟩ := c.detached_eq
      rw [Conn.tcpReset_inService service found, eq]
      exact fun linked => nomatch (if_neg opened).symm.trans linked
    | socket move =>
      refine ⟨fun _ => move.aside.inMap.trans found, ?_⟩
      cases move <;> exact fun _ h => nomatch h
    | resumed move => exact ⟨fun _ => move.aside.inMap.trans found, fun _ h => nomatch h⟩
  | false =>
    have cut : c.pcb.callbackArg = false := by
      cases h : c.pcb.callbackArg with
      | false => rfl
      | true => cases found.symm.trans (linked h)
    have null {d : Conn} (same : d.pcb.callbackArg = c.pcb.callbackArg) : d.Linked :=
      fun linked => nomatch (same.trans cut).symm.trans linked
    cases happens with
    | input ok =>
      exact ⟨null (filed.lingers live found ok).linked, stages_erased (filed.lastAck live found ok).1 cut ok⟩
    | reset =>
      exact ⟨null (Conn.tcpReset_erased found filed.window).linked, fun d hd => List.mem_singleton.mp hd ▸ linked⟩
    | socket move =>
      refine ⟨null move.aside.linked, ?_⟩
      cases move <;> exact fun _ h => nomatch h
    | resumed move => exact ⟨null move.aside.linked, fun _ h => nomatch h⟩

end Link

private theorem linked_step {c c' : Conn} {a : TcpAct} {out : List TcpEvent} (before : Filed c ∧ c.Linked)
    (h : connMachine.step c a = some (c', out)) (spared : ¬ ClearsClosed ⟨c, a, out, c'⟩) :
    (Filed c' ∧ c'.Linked) ∧ ∀ d ∈ c.stages a, d.Linked := by
  obtain ⟨live, r, happens, rfl, rfl⟩ := happens_of_step h
  obtain ⟨linked, stages⟩ := happens.linked before.1 live before.2 fun found closed => by
    simpa using fun hangsUp => spared ⟨found, closed, hangsUp⟩
  obtain ⟨_, _, eq⟩ := r.1.reap_eq
  refine ⟨⟨(happens.filed before.1 live).reap, ?_⟩, stages⟩
  rw [eq]
  exact linked

private theorem linked_init {c : Conn} (h : connMachine.Init c) : Filed c ∧ c.Linked := by
  refine ⟨filed_init h, ?_⟩
  obtain ⟨_, _, _, _, _, _, rfl⟩ := h
  exact fun _ => rfl

/-- In every state reached, `Clear` detaches the session exactly when it has not closed itself; and in every run
in which lwIP hangs up no connection whose session has, the block points to a session in the map or to none,
also whenever lwIP makes a callback. -/
theorem clear_unlinks {ts : List (Transition Conn TcpAct TcpEvent)} {c : Conn} (run : connMachine.Run ts c) :
    (c.inMap = true → c.halted = false → (c.clear.1.Unlinked ↔ c.status ≠ .close)) ∧
      ((∀ t ∈ ts, ¬ ClearsClosed t) → c.Linked ∧ ∀ t ∈ ts, ∀ d ∈ t.pre.stages t.act, d.Linked) := by
  refine ⟨fun found live => unlinked_clear_iff ((filed_run run).mapped found live) found, fun spared => ⟨?_, ?_⟩⟩
  · exact (run.guarded_trace (fun t => ¬ ClearsClosed t) (fun _ c => Filed c ∧ c.Linked) (fun _ => linked_init)
      (fun _ _ _ _ _ before h spared => (linked_step before h spared).1) spared).2
  · intro t ht
    obtain ⟨before, h⟩ := run.guarded_pre (fun t => ¬ ClearsClosed t) (fun c => Filed c ∧ c.Linked)
      (fun _ => linked_init)
      (fun _ _ _ _ before h spared => (linked_step before h spared).1) spared ht
    exact (linked_step before h (spared t ht)).2

/-- The local peer closes a connection that relays. -/
theorem clear_unlinks_relaying : ∃ ts c, connMachine.Run ts c ∧ .cleared ∈ Machine.trace ts ∧
    (∀ t ∈ ts, ¬ ClearsClosed t) ∧
    ((c.inMap = true → c.halted = false → (c.clear.1.Unlinked ↔ c.status ≠ .close)) ∧
      ((∀ t ∈ ts, ¬ ClearsClosed t) → c.Linked ∧ ∀ t ∈ ts, ∀ d ∈ t.pre.stages t.act, d.Linked)) := by
  obtain ⟨ts, c, run, h⟩ := Machine.Run.exists_of_exec connMachine webConn
    (greeting ++ [.input ⟨0, false, none, true⟩])
    (fun ts _ => decide (.cleared ∈ Machine.trace ts ∧ ∀ t ∈ ts, ¬ ClearsClosed t)) webConn_init (by decide +kernel)
  obtain ⟨cleared, spared⟩ := of_decide_eq_true h
  exact ⟨ts, c, run, cleared, spared, clear_unlinks run⟩

/-- The server closes, then the local peer: the block waits in LAST_ACK with a pointer to a session that has been
destroyed, and the acknowledgement of what it had sent uses it. -/
theorem last_ack_uses_destroyed_session : ∃ ts c, connMachine.Run ts c ∧
    (c.pcb.freed = false ∧ c.pcb.callbackArg = true ∧ c.inMap = false ∧ c.destroyed = true) ∧
    ∃ c' out, connMachine.step c (.input ⟨1, false, none, false⟩) = some (c', out) ∧ .crashed ∈ out := by
  obtain ⟨ts, c, run, h⟩ := Machine.Run.exists_of_exec connMachine webConn
    (greeting ++ [.arrive [7], .resume .start .free, .transmit 0 1 [] false, .failRead, .resume .start .free,
      .input ⟨0, false, none, true⟩])
    (fun _ c => decide (c.pcb.freed = false ∧ c.pcb.callbackArg = true ∧ c.inMap = false ∧ c.destroyed = true) &&
      (connMachine.step c (.input ⟨1, false, none, false⟩)).any fun r => r.2.contains .crashed) webConn_init
    (by decide +kernel)
  obtain ⟨stale, used⟩ := (Bool.and_eq_true _ _).mp h
  obtain ⟨⟨c', out⟩, step, crashed⟩ := (Option.any_eq_true _ _).mp used
  exact ⟨ts, c, run, of_decide_eq_true stale, c', out, step, by simpa using crashed⟩

end Tunosocks.Tcp
