import Tunosocks.Tcp.HalfClose

/-! The download at the FIN of the local peer. `tcp_recv_func` queues a FIN behind the data and cuts the
link to the session; `tcp_sent_func` takes the cut link for a dead connection. -/
namespace Tunosocks.Tcp
open Foundation Coroutine

/-- From the FIN of the local peer on, the block goes only when the peer has acknowledged everything that
`tcp_write` accepted, and, once a FIN of this side is queued behind it, that FIN too. -/
def KeepsAccepted (t : Transition Conn TcpAct TcpEvent) : Prop :=
  ∀ seg, t.act = .input seg → seg.fin = true ∨ t.pre.pcb.state = .lastAck →
    .tcpAborted ∈ t.out ∨ t.post.pcb.freed = true →
      t.post.pcb.acked = t.post.pcb.queued ∧ (t.pre.pcb.state = .lastAck → seg.finAcked = true)

/-- The FIN comes while the upload is not all reported and the download not all acknowledged, or a later segment
acknowledges data to a block whose link is cut and leaves the FIN unacknowledged. -/
def CutsShort (t : Transition Conn TcpAct TcpEvent) : Prop :=
  ∃ seg, t.act = .input seg ∧
    (seg.fin = true ∧ (∀ p, seg.data = some p → p.len = p.totLen) ∧
        ¬ (seg.data = none ∧ t.pre.pcb.rcvWnd = tcpWnd) ∧ t.pre.pcb.acked + seg.acked ≠ t.pre.pcb.queued ∨
      t.pre.pcb.state = .lastAck ∧ t.pre.pcb.callbackArg = false ∧ 0 < seg.acked ∧ seg.finAcked = false)

/-! ### What a segment does to the send side -/

section Send
variable {c c' d : Conn} {seg : Segment} {evs : List TcpEvent}

/-- A callback for a segment that acknowledges nothing leaves the send side alone. -/
private theorem Callback.send (move : Callback seg c evs c') (none_ : seg.acked = 0) :
    c'.pcb.acked = c.pcb.acked ∧ c'.pcb.writes = c.pcb.writes := by
  cases move with
  | lwip change =>
    cases change with
    | processed =>
      obtain ⟨_, _, eq⟩ := c.pcb.tcpProcess_eq seg
      rw [eq, none_]
      exact ⟨rfl, rfl⟩
    | closed =>
      obtain ⟨_, _, eq⟩ := c.pcb.tcpClose_eq
      rw [eq]
      exact ⟨rfl, rfl⟩
    | _ => exact ⟨rfl, rfl⟩
  | writerSpawned =>
    obtain ⟨_, _, _, _, eq⟩ := Conn.writerLoop_eq _ c.writers.length
    rw [eq]
    exact ⟨rfl, rfl⟩
  | _ => exact ⟨rfl, rfl⟩

/-- An aborted block is gone for good. -/
private theorem Callback.aborts (move : Callback seg c evs c') (before : c.pcb.freed = true ∨ .tcpAborted ∈ evs) :
    c'.pcb.freed = true := by
  cases move with
  | lwip change =>
    cases change with
    | processed =>
      obtain ⟨_, _, eq⟩ := c.pcb.tcpProcess_eq seg
      rw [eq]
      simpa using before
    | closed =>
      obtain ⟨_, _, eq⟩ := c.pcb.tcpClose_eq
      rw [eq]
      simpa using before
    | finCounted => simpa using before
    | freed | aborted => rfl
  | writerSpawned =>
    obtain ⟨_, _, _, _, eq⟩ := Conn.writerLoop_eq _ c.writers.length
    rw [eq]
    simpa using before
  | _ => exact before.elim id fun h => by simp at h

/-- What the acknowledgement of a segment adds, and nothing else changes on the send side. -/
def Acknowledges (c : Conn) (seg : Segment) (d : Conn) : Prop :=
  d.pcb.acked = c.pcb.acked + seg.acked ∧ d.pcb.queued = c.pcb.queued

private theorem Acknowledges.byMoves {r : Outcome} {seg' : Segment} (before : Acknowledges c seg d)
    (none_ : seg'.acked = 0) (moves : ByMoves seg' d r) : Acknowledges c seg r.1 := by
  refine moves.keeps (Acknowledges c seg) ?_ before
  rintro d evs d' ⟨acked, queued⟩ move
  obtain ⟨acked', writes⟩ := move.send none_
  exact ⟨acked'.trans acked, (congrArg List.sum writes).trans queued⟩

private theorem Acknowledges.whileAlive {r : Outcome} {f : Conn → Outcome} {seg' : Segment}
    (before : Acknowledges c seg r.1) (none_ : seg'.acked = 0) (moves : ByMoves seg' r.1 (f r.1)) :
    Acknowledges c seg (whileAlive r f).1 := by
  unfold Tcp.whileAlive
  split
  · exact before
  · have after : Acknowledges c seg (f r.1).1 := before.byMoves none_ moves
    exact after

private theorem tcpInput_acknowledges (c : Conn) (seg : Segment) : Acknowledges c seg (c.tcpInput seg).1 := by
  have processed : Acknowledges c seg { c with pcb := c.pcb.tcpProcess seg } := by
    obtain ⟨_, _, eq⟩ := c.pcb.tcpProcess_eq seg
    rw [eq]
    exact ⟨rfl, rfl⟩
  refine .whileAlive (.whileAlive (.whileAlive (.whileAlive ?_ rfl (@byMoves_delayedClose .empty _))
    rfl (@byMoves_deliver ⟨0, false, seg.data, false⟩ _)) rfl (@byMoves_deliverFin ⟨0, false, none, seg.fin⟩ _))
    rfl (@byMoves_delayedClose .empty _)
  unfold Conn.afterSent
  split
  · exact processed.byMoves rfl (@byMoves_tcpSentFunc .empty _)
  · exact processed

private theorem freed_of_aborted {out : List TcpEvent} (h : connMachine.step c (.input seg) = some (c', out))
    (aborted : .tcpAborted ∈ out) : c'.pcb.freed = true := by
  obtain ⟨mid, evs, chain, rfl, rfl⟩ := input_chain h
  have gone : .tcpAborted ∈ [] ++ evs → mid.pcb.freed = true := by
    refine chain.preserves (fun tr d => .tcpAborted ∈ tr → d.pcb.freed = true) ?_ [] nofun
    exact fun tr d evs d' before move h => move.aborts ((List.mem_append.mp h).imp_left before)
  obtain ⟨_, _, eq⟩ := mid.reap_eq
  rw [eq]
  exact gone (mid.mem_before_reap aborted nofun nofun)

/-! ### The last acknowledgements -/

/-- A block in LAST_ACK goes with the acknowledgement of its FIN, or is aborted by `tcp_sent_func`. -/
private theorem lastAck_freed (state : c.pcb.state = .lastAck) (opened : c.pcb.closed = false)
    (allocated : c.pcb.freed = false) (ok : c.pcb.accepts seg = true)
    (freed : (c.tcpInput seg).1.pcb.freed = true) :
    seg.finAcked = true ∨ c.pcb.callbackArg = false ∧ 0 < seg.acked := by
  by_contra neither
  obtain ⟨unacked, kept⟩ := not_or.mp neither
  obtain ⟨bare, open_⟩ := Conn.tcplen_lastAck state ok
  have processed : (c.pcb.tcpProcess seg).closed = false ∧ (c.pcb.tcpProcess seg).freed = false ∧
      (c.pcb.tcpProcess seg).callbackArg = c.pcb.callbackArg := by
    simp only [Pcb.tcpProcess, state, if_neg unacked]
    exact ⟨opened, allocated, trivial⟩
  -- the acknowledgement is reported to a session that is still linked
  have sent : ∃ d evs, c.afterSent seg = (d, evs) ∧ d.pcb = c.pcb.tcpProcess seg := by
    unfold Conn.afterSent Conn.processed
    split
    · next pos =>
      have linked : (c.pcb.tcpProcess seg).callbackArg = true := by
        rw [processed.2.2, ← Bool.not_eq_false]
        exact fun cut => kept ⟨cut, pos⟩
      simp only [andThen, Conn.tcpSentFunc, linked, if_true]
      split
      · exact ⟨_, _, rfl, rfl⟩
      · split
        · obtain ⟨_, _, _, eq⟩ := Conn.readFromRemote_eq { c with pcb := c.pcb.tcpProcess seg }
          rw [eq]
          exact ⟨_, _, rfl, rfl⟩
        · exact ⟨_, _, rfl, rfl⟩
    · exact ⟨_, _, rfl, rfl⟩
  obtain ⟨d, evs, eq, pcb⟩ := sent
  have still : d.pcb.closed = false := by rw [pcb, processed.1]
  have before : c.beforeData seg = (d, evs) := by
    simp only [Conn.beforeData, eq]
    exact Conn.whileAlive_delayedClose_opened still
  rw [Conn.tcpInput_bare bare open_, before, Conn.whileAlive_delayedClose_opened still] at freed
  change d.pcb.freed = true at freed
  rw [pcb, processed.2.1] at freed
  cases freed

private theorem lastAck_aborted (state : c.pcb.state = .lastAck) (ok : c.pcb.accepts seg = true)
    (cut : c.pcb.callbackArg = false) (pos : 0 < seg.acked) : (c.tcpInput seg).1.pcb.freed = true := by
  obtain ⟨bare, open_⟩ := Conn.tcplen_lastAck state ok
  obtain ⟨state', closed, processed⟩ := c.pcb.tcpProcess_eq seg
  have gone : (andThen ({ c with pcb := c.pcb.tcpProcess seg }, []) Conn.tcpSentFunc).1.pcb.freed = true := by
    simp only [processed, andThen, Conn.tcpSentFunc, cut, Bool.false_eq_true, if_false, Conn.tcpAbort]
    split
    · rfl
    · simp [Conn.tcpErrFunc, Conn.freeBlock]
  have sent : c.afterSent seg = andThen ({ c with pcb := c.pcb.tcpProcess seg }, []) Conn.tcpSentFunc := if_pos pos
  rw [Conn.tcpInput_bare bare open_, Conn.beforeData, sent, whileAlive_freed gone, whileAlive_freed gone]
  exact gone

end Send

private theorem keepsAccepted_iff {c c' : Conn} {a : TcpAct} {out : List TcpEvent} (filed : Filed c)
    (h : connMachine.step c a = some (c', out)) : KeepsAccepted ⟨c, a, out, c'⟩ ↔ ¬ CutsShort ⟨c, a, out, c'⟩ := by
  constructor
  · rintro keeps ⟨seg, rfl : a = .input seg, ⟨fin, simple, early, unacked⟩ | ⟨state, cut, pos, unacked⟩⟩
    · obtain ⟨live, ok, pcb, _⟩ := input_of_step h
      obtain ⟨found, service⟩ := filed.serves live ok (.inr fin)
      have freed := (Conn.tcpInput_fin service live found filed.window ok fin simple).mpr early
      obtain ⟨acked, queued⟩ := tcpInput_acknowledges c seg
      rw [← pcb] at freed acked queued
      obtain ⟨all, _⟩ := keeps seg rfl (Or.inl fin) (Or.inr freed)
      exact unacked (acked.symm.trans (all.trans queued))
    · obtain ⟨live, ok, pcb, _⟩ := input_of_step h
      have freed := lastAck_aborted state ok cut pos
      rw [← pcb] at freed
      obtain ⟨_, acked⟩ := keeps seg rfl (Or.inr state) (Or.inr freed)
      cases unacked.symm.trans (acked state)
  · rintro kept seg (rfl : a = .input seg) half gone
    obtain ⟨live, ok, pcb, _⟩ := input_of_step h
    obtain ⟨acked, queued⟩ := tcpInput_acknowledges c seg
    have freed : c'.pcb.freed = true := gone.elim (freed_of_aborted h) id
    rw [← pcb] at acked queued
    rcases half with fin | state
    · obtain ⟨found, service⟩ := filed.serves live ok (.inr fin)
      refine ⟨?_, fun state => nomatch service.state.symm.trans state⟩
      rw [acked, queued]
      by_contra unacked
      rw [pcb] at freed
      by_cases simple : ∀ p, seg.data = some p → p.len = p.totLen
      · have early := (Conn.tcpInput_fin service live found filed.window ok fin simple).mp freed
        exact kept ⟨seg, rfl, Or.inl ⟨fin, simple, early, unacked⟩⟩
      · obtain ⟨p, carried, chained⟩ : ∃ p, seg.data = some p ∧ p.len ≠ p.totLen := by simpa using simple
        rw [Conn.tcpInput_chained service live found carried chained] at freed
        cases (Conn.pending_acknowledged seg service live found).allocated.symm.trans freed
    · have lost : c.inMap = false := by
        cases found : c.inMap with
        | true => cases (filed.mapped found live).state.symm.trans state
        | false => rfl
      have opened := (filed.lastAck live lost ok).2.2
      have allocated : c.pcb.freed = false := by
        cases gone : c.pcb.freed with
        | false => rfl
        | true => simp [Pcb.accepts, gone] at ok
      rw [pcb] at freed
      have finAcked : seg.finAcked = true := by
        rcases lastAck_freed state opened allocated ok freed with finAcked | ⟨cut, pos⟩
        · exact finAcked
        · by_contra unacked
          exact kept ⟨seg, rfl, Or.inr ⟨state, cut, pos, by simpa using unacked⟩⟩
      refine ⟨?_, fun _ => finAcked⟩
      rw [acked, queued]
      simp only [Pcb.accepts, finAcked, Bool.and_eq_true, Bool.or_eq_true, Bool.not_true, Bool.false_eq_true, false_or,
        beq_iff_eq] at ok
      exact ok.1.1.2.2

/-- The server sends two buffers, lwIP sends them on and the local peer answers with a FIN. -/
private def lastPage : List TcpAct :=
  greeting ++ [.arrive [1, 2], .resume .start .free, .arrive [3], .resume .start .free, .transmit 0 3 [] false,
    .input ⟨0, false, none, true⟩]

end Tunosocks.Tcp
