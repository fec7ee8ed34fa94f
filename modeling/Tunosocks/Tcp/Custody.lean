import Mathlib.Algebra.Order.BigOperators.Group.List
import Mathlib.Data.Multiset.OrderedMonoid
import Mathlib.Tactic.Abel
import Tunosocks.Tcp.Detach
import Tunosocks.Tcp.Mapped

/-! Who owns a local packet: the queue, the drain loop, a writer, or nobody any more. Packets are
told apart by their content, so the accounts are multisets. -/
namespace Tunosocks.Tcp
open Foundation Coroutine

/-- The packets given to `pbuf_free`. -/
def releasedPackets (tr : List TcpEvent) : Multiset Pbuf :=
  (tr.map fun
    | .pbufFreed p => {p}
    | _ => 0).sum

/-- The packet the drain loop has dequeued and not let go. -/
def startPackets (t : Coroutine StartPoint) : Multiset Pbuf :=
  match t.point? with
  | some (.drainWrite front _) => {front}
  | _ => 0

def writerPackets (t : Coroutine WriterPoint) : Multiset Pbuf :=
  match t.point? with
  | some point => {point.front}
  | none => 0

/-- The packet whose `async_write` in the drain loop has bytes left. -/
def startWriting : Coroutine StartPoint → Multiset Pbuf
  | .suspended (.drainWrite front _) => {front}
  | .completed (.drainWrite front sent) (.ok n) => if sent + n < front.len then {front} else 0
  | _ => 0

namespace Conn

/-- The packets a writer has dequeued and not let go. -/
def writerHands (c : Conn) : Multiset Pbuf := (c.writers.map writerPackets).sum

def custody (c : Conn) : Multiset Pbuf := ↑c.pbufQueue + startPackets c.start + c.writerHands

/-- The packets queued or being written. -/
def unfinished (c : Conn) : Multiset Pbuf := ↑c.pbufQueue + startWriting c.start + c.writerHands

/-- The packet an action passes to `TcpHandler::Handle`. -/
def handled (c : Conn) : TcpAct → Multiset Pbuf
  | .input seg =>
    match seg.data with
    | some p =>
      let d := (c.beforeData seg).1
      if d.pcb.freed || d.halted || d.pcb.rxClosed || decide (p.len ≠ p.totLen) then 0 else {p}
    | none => 0
  | _ => 0

/-- The packet with which a coroutine returns: after a failed write, or, in a writer, when the
session has been closed during the write. -/
def dropped (c : Conn) : TcpAct → Multiset Pbuf
  | .resume .start _ =>
    match c.start with
    | .completed (.drainWrite front _) .error => {front}
    | _ => 0
  | .resume (.writer j) _ =>
    match c.writers[j]? with
    | some (.completed point .error) => {point.front}
    | some (.completed point (.ok n)) =>
      if c.status = .close ∧ point.payload.length ≤ point.sent + n then {point.front} else 0
    | _ => 0
  | _ => 0

end Conn

def handledPackets (ts : List (Transition Conn TcpAct TcpEvent)) : Multiset Pbuf :=
  (ts.map fun t => t.pre.handled t.act).sum

def droppedPackets (ts : List (Transition Conn TcpAct TcpEvent)) : Multiset Pbuf :=
  (ts.map fun t => t.pre.dropped t.act).sum

section Moves
variable {c c' d : Conn} {evs : List TcpEvent} {seg : Segment}

theorem releasedPackets_append (tr evs : List TcpEvent) :
    releasedPackets (tr ++ evs) = releasedPackets tr + releasedPackets evs := by
  simp [releasedPackets]

private theorem releasedPackets_used (uses : List PcbUse) : releasedPackets (uses.map .used) = 0 := by
  induction uses with
  | nil => rfl
  | cons use uses ih => simpa [releasedPackets] using ih

private theorem releasedPackets_pbufFreed (queue : List Pbuf) :
    releasedPackets (queue.map .pbufFreed ++ [.destroyed]) = queue := by
  induction queue with
  | nil => rfl
  | cons p queue ih =>
    rw [List.map_cons, List.cons_append, ← List.singleton_append, releasedPackets_append, ih]
    rfl

/-- The accounts look at the queue and at the points of the coroutines. -/
private theorem custody_congr (queue : c'.pbufQueue = c.pbufQueue) (start : c'.start.point? = c.start.point?)
    (writing : c'.writing = c.writing) : c'.custody = c.custody := by
  have hands (c : Conn) : c.writerHands = (c.writing.map fun
      | some point => {point.front}
      | none => 0).sum := by
    rw [Conn.writerHands, Conn.writing, List.map_map]
    rfl
  rw [Conn.custody, Conn.custody, queue, startPackets, start, ← startPackets, hands, hands, writing]

private theorem custody_start (c c' : Conn) (queue : c'.pbufQueue = c.pbufQueue) (writers : c'.writers = c.writers) :
    c'.custody + startPackets c.start = c.custody + startPackets c'.start := by
  rw [Conn.custody, Conn.custody, Conn.writerHands, writers, queue, Conn.writerHands]
  abel

private theorem custody_awaitStart (d : Conn) (p : StartPoint) :
    (d.awaitStart p).custody + startPackets d.start = d.custody + startPackets (.suspended p) := by
  have awaits : startPackets (d.awaitStart p).start = startPackets (.suspended p) := by
    rw [startPackets, Conn.point?_awaitStart]
    rfl
  rw [← awaits]
  exact custody_start d (d.awaitStart p) rfl rfl

private theorem custody_writer (c c' : Conn) {j : Nat} {t : Coroutine WriterPoint} (u : Coroutine WriterPoint)
    (at_ : c.writers[j]? = some t) (queue : c'.pbufQueue = c.pbufQueue) (start : c'.start = c.start)
    (writers : c'.writers = c.writers.set j u) : c'.custody + writerPackets t = c.custody + writerPackets u := by
  have moved := sum_set_add at_ u writerPackets
  rw [Conn.custody, Conn.custody, queue, start, add_assoc, Conn.writerHands, writers, moved, ← add_assoc,
    Conn.writerHands]

private theorem custody_awaitWriter (d : Conn) {j : Nat} {t : Coroutine WriterPoint} (at_ : d.writers[j]? = some t)
    (point : WriterPoint) : (d.awaitWriter j point).custody + writerPackets t = d.custody + {point.front} := by
  have awaits : writerPackets (if point.offered = [] then .completed point (.ok 0) else .suspended point) =
      {point.front} := by
    split <;> rfl
  rw [← awaits]
  exact custody_writer d (d.awaitWriter j point) _ at_ rfl rfl rfl

private theorem custody_pop {front : Pbuf} {rest : List Pbuf} (popped : c.pbufQueue = front :: rest) :
    { c with pbufQueue := rest }.custody + {front} = c.custody := by
  have queue : (↑rest + {front} : Multiset Pbuf) = ↑c.pbufQueue := by
    rw [popped, add_comm, Multiset.singleton_add, Multiset.cons_coe]
  rw [Conn.custody, Conn.custody, ← queue, Conn.writerHands, Conn.writerHands]
  abel

private theorem custody_startEnds (c c' : Conn) (queue : c'.pbufQueue = c.pbufQueue) (writers : c'.writers = c.writers)
    (ends : c'.start = .finished) : c'.custody + startPackets c.start = c.custody := by
  have same := custody_start c c' queue writers
  rw [ends] at same
  exact same.trans (add_zero _)

private theorem custody_writerEnds (c c' : Conn) {j : Nat} {t : Coroutine WriterPoint} (at_ : c.writers[j]? = some t)
    (queue : c'.pbufQueue = c.pbufQueue) (start : c'.start = c.start) (ends : c'.writers = c.writers.set j .finished) :
    c'.custody + writerPackets t = c.custody :=
  (custody_writer c c' .finished at_ queue start ends).trans (add_zero _)

/-- The drain loop lets go of its packet and takes the next one. -/
private theorem custody_drainLoop (d : Conn) (simple : ∀ p ∈ d.pbufQueue, p.len = p.totLen) :
    d.drainLoop.2 = [] ∧ d.drainLoop.1.custody + startPackets d.start = d.custody := by
  rcases d.drainLoop_cases with ⟨empty, loop⟩ | ⟨front, rest, popped, ⟨_, loop⟩ | ⟨chained, _⟩⟩
  · rw [loop]
    exact ⟨rfl, (custody_awaitStart d .downloadRead).trans (add_zero _)⟩
  · rw [loop, ← custody_pop popped]
    exact ⟨rfl, custody_awaitStart { d with pbufQueue := rest } (.drainWrite front 0)⟩
  · exact absurd (simple front (popped ▸ List.mem_cons_self)) chained

/-- So does the writer. -/
private theorem custody_writerLoop (d : Conn) {j : Nat} {t : Coroutine WriterPoint} (at_ : d.writers[j]? = some t) :
    (d.writerLoop j).custody + writerPackets t = d.custody := by
  rcases d.writerLoop_cases j with ⟨empty, loop⟩ | ⟨front, rest, popped, loop⟩
  · rw [loop]
    refine custody_writerEnds d ?_ at_ ?_ ?_ ?_ <;> rfl
  · rw [loop, ← custody_pop popped]
    exact custody_awaitWriter { d with pbufQueue := rest } at_ _

/-- Nothing but data changes hands in a callback. -/
private theorem Callback.custody (move : Callback seg c evs c') (bare : seg.data = none) :
    releasedPackets evs + c'.custody = c.custody := by
  cases move with
  | queued carried | writerSpawned carried | refused carried => cases bare.symm.trans carried
  | lwip change => cases change <;> exact zero_add _
  | stopped =>
    refine (zero_add _).trans (custody_congr rfl (point?_cancel _) ?_)
    exact map_point?_cancel _
  | stoppedAgain | stopDangles | erased | readerSpawned | crashed => exact zero_add _

private theorem custody_byMoves {r : Outcome} (moves : ByMoves seg c r) (bare : seg.data = none) :
    releasedPackets r.2 + r.1.custody = c.custody := by
  refine moves.preserves (fun tr d => releasedPackets tr + d.custody = c.custody) ?_ [] (zero_add _)
  intro tr d evs d' before move
  rw [releasedPackets_append, add_assoc, move.custody bare, before]

private theorem SocketMove.custody {a : TcpAct} (move : SocketMove c a evs c') :
    releasedPackets evs = 0 ∧ c'.custody = c.custody := by
  have same := move.point?
  cases move with
  | @startAccepts _ point =>
    refine ⟨?_, custody_congr rfl same rfl⟩
    cases point <;> rfl
  | @startArrives _ point =>
    refine ⟨?_, custody_congr rfl same rfl⟩
    cases point <;> rfl
  | writerAccepts _ at_ | writerWriteFails _ at_ => exact ⟨rfl, custody_congr rfl rfl (map_point?_set at_ _ rfl)⟩
  | connected | connectFailed | startWriteFails | readerArrives | startReadFails | readerReadFails | transmits =>
    exact ⟨rfl, custody_congr rfl same rfl⟩

/-- The drain loop has released a packet it still points to, and then used a block that is gone. -/
def DrainDangles (c : Conn) (evs : List TcpEvent) (c' : Conn) : Prop :=
  c' = c.crash ∧ ∃ front sent n, c.start = .completed (.drainWrite front sent) (.ok n) ∧ front.len ≤ sent + n ∧
    releasedPackets evs = {front}

private theorem startPackets_idle {t : Coroutine StartPoint} {p : StartPoint} (at_ : t.point? = some p)
    (other : ∀ front sent, p ≠ .drainWrite front sent) : startPackets t = 0 := by
  rw [startPackets, at_]
  cases p with
  | drainWrite front sent => exact absurd rfl (other front sent)
  | _ => rfl

private theorem Resumes.custody {room : Room} {id : CoroId} (move : Resumes c room id evs c') (shape : Shape c) :
    releasedPackets evs + c'.custody + c.dropped (.resume id room) = c.custody ∨ DrainDangles c evs c' := by
  -- away from the drain loop, the coroutine of `Start` holds nothing
  have passes {p : StartPoint} {n : Nat} (at_ : c.start = .completed p (.ok n))
      (other : ∀ front sent, p ≠ .drainWrite front sent) (after : startPackets c'.start = 0)
      (released : releasedPackets evs = 0) (queue : c'.pbufQueue = c.pbufQueue) (writers : c'.writers = c.writers) :
      releasedPackets evs + c'.custody + c.dropped (.resume .start room) = c.custody := by
    have before := startPackets_idle (point?_of_completed at_) other
    have same := custody_start c c' queue writers
    rw [before, after, add_zero, add_zero] at same
    simp [released, same, Conn.dropped, at_]
  have undropped {p : StartPoint} {n : Nat} (at_ : c.start = .completed p (.ok n)) :
      c.dropped (.resume .start room) = 0 := by
    simp [Conn.dropped, at_]
  have next {d : Conn} {p : StartPoint} (other : ∀ front sent, p ≠ .drainWrite front sent) :
      startPackets (d.awaitStart p).start = 0 := startPackets_idle (d.point?_awaitStart p) other
  have local_ {n : Nat} : (c.writeLocal n room).pbufQueue = c.pbufQueue ∧ (c.writeLocal n room).writers = c.writers ∧
      (c.writeLocal n room).start = c.start := by
    obtain ⟨pcb, eq, _⟩ := c.writeLocal_eq n room
    rw [eq]
    exact ⟨rfl, rfl, rfl⟩
  have kept {j : Nat} (released : releasedPackets evs = 0) (same : c'.custody = c.custody) :
      releasedPackets evs + c'.custody + c.dropped (.resume (.reader j) room) = c.custody := by
    simp [released, same, Conn.dropped]
  -- a writer keeps its packet while it has bytes of it to write
  have writes {j n : Nat} {point : WriterPoint} (at_ : c.writers[j]? = some (.completed point (.ok n)))
      (released : releasedPackets evs = 0) (goes : c.status = .close → point.sent + n < point.payload.length)
      (same : c'.custody + {point.front} = c.custody + {point.front}) :
      releasedPackets evs + c'.custody + c.dropped (.resume (.writer j) room) = c.custody := by
    have keeps : ¬ (c.status = .close ∧ point.payload.length ≤ point.sent + n) := by
      rintro ⟨closed, whole⟩
      exact absurd (goes closed) (Nat.not_lt.mpr whole)
    simp only [Conn.dropped, at_, if_neg keeps, released, zero_add, add_zero]
    exact add_right_cancel same
  cases move with
  | @startFailed point at_ =>
    have lost : c.dropped (.resume .start room) = startPackets c.start := by
      cases point <;> simp only [Conn.dropped, at_, startPackets, point?]
    rw [lost]
    exact Or.inl ((congrArg (· + _) (zero_add _)).trans (custody_startEnds c c.endStart rfl rfl rfl))
  | connected at_ => exact Or.inl (passes at_ (by simp) (next (by simp)) rfl rfl rfl)
  | greets at_ step => refine Or.inl (passes at_ ?_ (next ?_) rfl rfl rfl) <;> cases step <;> simp
  | requests at_ => exact Or.inl (passes at_ (by simp) (next (by simp)) rfl rfl rfl)
  | rejected at_ => exact Or.inl (passes at_ (by simp) rfl rfl rfl rfl)
  | relays at_ =>
    obtain ⟨quiet, same⟩ := custody_drainLoop { c with status := .relaying } shape.simple
    rw [startPackets_idle (point?_of_completed at_) (by simp), add_zero] at same
    rw [quiet, undropped at_, add_zero]
    exact Or.inl ((zero_add _).trans same)
  | @drainWritesOn front sent n at_ =>
    have same := custody_awaitStart c (.drainWrite front (sent + n))
    rw [at_] at same
    rw [undropped at_, add_zero]
    exact Or.inl ((zero_add _).trans (add_right_cancel same))
  | @drainEnds front sent n at_ =>
    have same := custody_startEnds c c.endStart rfl rfl rfl
    rw [at_] at same
    rw [undropped at_, add_zero]
    exact Or.inl ((add_comm _ _).trans same)
  | @drains front sent n at_ =>
    obtain ⟨quiet, same⟩ := custody_drainLoop { c with pcb := c.pcb.tcpRecved front.len } shape.simple
    have holds : startPackets c.start = {front} := by
      rw [at_]
      rfl
    rw [holds] at same
    rw [quiet, undropped at_, add_zero]
    exact Or.inl ((add_comm _ _).trans same)
  | downloadEnds at_ => exact Or.inl (passes at_ (by simp) rfl rfl rfl rfl)
  | parks at_ => exact Or.inl (passes at_ (by simp) rfl (releasedPackets_used _) local_.1 local_.2.1)
  | downloads at_ => exact Or.inl (passes at_ (by simp) (next (by simp)) (releasedPackets_used _) local_.1 local_.2.1)
  | startDangles at_ touches =>
    cases touches with
    | drain whole => exact Or.inr ⟨rfl, _, _, _, at_, whole, rfl⟩
    | request =>
      rw [undropped at_, add_zero]
      exact Or.inl (zero_add _)
    | download =>
      rw [undropped at_, add_zero, releasedPackets_append, releasedPackets_used]
      exact Or.inl (zero_add _)
  | @writerFailed j point at_ =>
    have same := custody_writerEnds c { c with status := .close, writers := c.writers.set j .finished } at_ rfl rfl rfl
    simp only [Conn.dropped, at_]
    exact Or.inl ((congrArg (· + _) (zero_add _)).trans same)
  | writerWritesOn at_ short => exact Or.inl (writes at_ rfl (fun _ => short) (custody_awaitWriter c at_ _))
  | @writerEnds j n point at_ whole closed =>
    have same := custody_writerEnds c { c with writers := c.writers.set j .finished } at_ rfl rfl rfl
    simp only [Conn.dropped, at_, closed, whole, and_self, if_true]
    exact Or.inl ((congrArg (· + _) (zero_add _)).trans same)
  | @writerFollows j n point _ _ at_ _ opened =>
    refine Or.inl (writes at_ rfl (fun closed => absurd closed opened) ?_)
    exact custody_awaitWriter { c with pcb := c.pcb.tcpRecved point.payload.length } at_ _
  | @writerPops j n point at_ _ opened =>
    have same := custody_writerLoop { c with pcb := c.pcb.tcpRecved point.payload.length } at_
    simp only [Conn.dropped, at_, opened, false_and, if_false, add_zero]
    exact Or.inl ((add_comm _ _).trans same)
  | writerDangles at_ _ opened => exact Or.inl (writes at_ rfl (fun closed => absurd closed opened) rfl)
  | readerFailed | readerEnds => exact Or.inl (kept rfl rfl)
  | readerParks | readerReads =>
    refine Or.inl (kept (releasedPackets_used _) (custody_congr local_.1 (congrArg _ local_.2.2) ?_))
    exact congrArg (List.map point?) local_.2.1
  | readerDangles =>
    refine Or.inl (kept ?_ rfl)
    rw [releasedPackets_append, releasedPackets_used]
    rfl

/-- The packet is queued, or taken by a writer that is spawned for it. -/
private theorem custody_proxied (d : Conn) (p : Pbuf) : (d.proxyTcpPacket p).1.custody = d.custody + {p} := by
  have queued : { d with pbufQueue := d.pbufQueue ++ [p] }.custody = d.custody + {p} := by
    have queue : (↑(d.pbufQueue ++ [p]) : Multiset Pbuf) = ↑d.pbufQueue + {p} := by
      rw [← Multiset.coe_add]
      rfl
    rw [Conn.custody, Conn.custody, queue, Conn.writerHands, Conn.writerHands]
    abel
  simp only [Conn.proxyTcpPacket]
  split
  · have idle : { d with
        pbufQueue := d.pbufQueue ++ [p], remoteSending := true
        writers := d.writers ++ [Coroutine.finished] }.custody = d.custody + {p} := by
      rw [← queued]
      simp only [Conn.custody, Conn.writerHands, List.map_append, List.sum_append]
      exact congrArg (_ + ·) (add_zero _)
    have taken := custody_writerLoop { d with
      pbufQueue := d.pbufQueue ++ [p], remoteSending := true
      writers := d.writers ++ [Coroutine.finished] } (j := d.writers.length) (t := .finished) (by simp)
    exact (add_zero _).symm.trans (taken.trans idle)
  · exact queued

/-- What a callback takes and lets go. -/
def Settles (c : Conn) (r : Outcome) (taken : Multiset Pbuf) : Prop :=
  releasedPackets r.2 + r.1.custody = c.custody + taken

private theorem Settles.whileAlive {r : Outcome} {f : Conn → Outcome} {taken : Multiset Pbuf}
    (first : Settles c r taken)
    (second : releasedPackets (f r.1).2 + (f r.1).1.custody = r.1.custody) : Settles c (whileAlive r f) taken := by
  unfold Tcp.whileAlive
  split
  · exact first
  · rw [Settles, andThen, releasedPackets_append, add_assoc, second]
    exact first

private theorem beforeData_settles (c : Conn) (seg : Segment) : Settles c (c.beforeData seg) 0 := by
  refine Settles.whileAlive ?_ (custody_byMoves (@byMoves_delayedClose .empty _) rfl)
  rw [Settles, add_zero, Conn.afterSent]
  split
  · have sent := custody_byMoves (@byMoves_tcpSentFunc .empty { c with pcb := c.pcb.tcpProcess seg }) rfl
    exact sent
  · exact zero_add _

/-- `Handle` takes the packet or releases it. -/
private theorem data_settles (filed : Filed c) (live : c.halted = false) (ok : c.pcb.accepts seg = true) :
    Settles c (whileAlive (c.beforeData seg) fun c => c.deliver seg.data) (c.handled (.input seg)) := by
  cases carried : seg.data with
  | none =>
    rw [whileAlive_quiet (f := fun c => c.deliver none) rfl]
    simpa only [Conn.handled, carried] using beforeData_settles c seg
  | some p =>
    obtain ⟨found, service⟩ := filed.serves live ok (.inl (by simp [carried]))
    have before : c.beforeData seg = (c.acknowledged seg, []) := Conn.beforeData_inService service
    have pending := Conn.pending_acknowledged seg service live found
    have settled : (c.acknowledged seg).custody = c.custody := by
      have settles := beforeData_settles c seg
      rw [Settles, before, add_zero] at settles
      exact (zero_add _).symm.trans settles
    rw [before, whileAlive_live pending.allocated pending.live, Settles, andThen, ← settled]
    have takes : c.handled (.input seg) = if p.len = p.totLen then {p} else 0 := by
      simp [Conn.handled, carried, before, pending.allocated, pending.live, pending.receiving]
    rw [takes]
    by_cases simple : p.len = p.totLen
    · rw [if_pos simple]
      by_cases closed : c.status = .close
      · have cleared := custody_byMoves (@byMoves_clear .empty (c.acknowledged seg)) rfl
        rw [Conn.clear_found pending.found pending.allocated] at cleared
        simp only [Conn.deliver_refused pending simple closed, List.nil_append]
        rw [add_comm _ ({p} : Multiset Pbuf)]
        exact congrArg ({p} + ·) ((zero_add _).symm.trans cleared)
      · simp only [Conn.deliver_proxied pending simple closed, List.nil_append]
        rw [custody_proxied]
        obtain ⟨_, _, _, _, eq⟩ := (c.acknowledged seg).proxyTcpPacket_eq p
        rw [eq]
        exact zero_add _
    · simp only [if_neg simple, Conn.deliver_chained pending simple, List.nil_append]
      exact (zero_add _).trans (add_zero _).symm

private theorem tcpInput_settles (filed : Filed c) (live : c.halted = false) (ok : c.pcb.accepts seg = true) :
    Settles c (c.tcpInput seg) (c.handled (.input seg)) := by
  have stages : c.tcpInput seg = whileAlive (whileAlive (whileAlive (c.beforeData seg) fun c => c.deliver seg.data)
      fun c => c.deliverFin seg.fin) Conn.delayedClose := rfl
  rw [stages]
  refine Settles.whileAlive (Settles.whileAlive (data_settles filed live ok) ?_) ?_
  · exact custody_byMoves (@byMoves_deliverFin ⟨0, false, none, seg.fin⟩ _) rfl
  · exact custody_byMoves (@byMoves_delayedClose .empty _) rfl

/-- What one action does to the accounts. -/
private theorem Happens.custody {a : TcpAct} {r : Outcome} (happens : Happens c a r) (filed : Filed c) (shape : Shape c)
    (live : c.halted = false) :
    releasedPackets r.2 + r.1.custody + c.dropped a = c.custody + c.handled a ∨
      DrainDangles c r.2 r.1 ∧ c.handled a = 0 := by
  cases happens with
  | input ok => exact Or.inl ((add_zero _).trans (tcpInput_settles filed live ok))
  | reset =>
    have kept := custody_byMoves (@byMoves_tcpReset .empty c) rfl
    exact Or.inl ((add_zero _).trans (kept.trans (add_zero _).symm))
  | @socket a _ _ move =>
    obtain ⟨released, same⟩ := move.custody
    rw [released, same]
    refine Or.inl ?_
    cases move <;> exact congrArg (· + _) (zero_add _)
  | resumed move =>
    rcases move.custody shape with same | dangles
    · exact Or.inl (same.trans (add_zero _).symm)
    · exact Or.inr ⟨dangles, rfl⟩

/-- A destroyed session owns nothing. -/
structure Disposed (c : Conn) : Prop where
  queue : c.pbufQueue = []
  start : c.start = .finished
  writers : ∀ t ∈ c.writers, t = .finished
  erased : c.inMap = false

private theorem Disposed.custody (disposed : Disposed c) : c.custody = 0 := by
  have hands : c.writerHands = 0 := by
    refine List.sum_eq_zero fun packets hp => ?_
    obtain ⟨t, ht, rfl⟩ := List.mem_map.mp hp
    rw [disposed.writers t ht]
    rfl
  rw [Conn.custody, disposed.queue, disposed.start, hands]
  rfl

private theorem Disposed.writer (disposed : Disposed c) {j : Nat} {t : Coroutine WriterPoint}
    (at_ : c.writers[j]? = some t) : t = .finished := disposed.writers t (List.mem_of_getElem? at_)

private theorem Callback.disposed (move : Callback seg c evs c') (disposed : Disposed c) : Disposed c' := by
  cases move with
  | queued _ _ found | writerSpawned _ _ found | erased found => cases disposed.erased.symm.trans found
  | stopped =>
    refine ⟨disposed.queue, congrArg Coroutine.cancel disposed.start, fun t ht => ?_, disposed.erased⟩
    obtain ⟨u, hu, rfl⟩ := List.mem_map.mp ht
    rw [disposed.writers u hu]
    rfl
  | lwip | stoppedAgain | stopDangles | refused | readerSpawned | crashed =>
    exact ⟨disposed.queue, disposed.start, disposed.writers, disposed.erased⟩

private theorem Callback.destroyed (move : Callback seg c evs c') : c'.destroyed = c.destroyed := by
  cases move with
  | writerSpawned =>
    obtain ⟨_, _, _, _, eq⟩ := Conn.writerLoop_eq _ c.writers.length
    rw [eq]
  | _ => rfl

private theorem SocketMove.disposed {a : TcpAct} (move : SocketMove c a evs c') (disposed : Disposed c) :
    Disposed c' := by
  cases move with
  | connected at_ | connectFailed at_ | startAccepts _ at_ | startWriteFails _ at_ | startArrives _ at_
  | startReadFails _ at_ => cases disposed.start.symm.trans at_
  | writerAccepts _ at_ | writerWriteFails _ at_ => cases disposed.writer at_
  | readerArrives | readerReadFails | transmits =>
    exact ⟨disposed.queue, disposed.start, disposed.writers, disposed.erased⟩

private theorem Resumes.disposed {room : Room} {id : CoroId} (move : Resumes c room id evs c') (disposed : Disposed c) :
    Disposed c' := by
  cases move with
  | startFailed at_ | connected at_ | greets at_ | requests at_ | rejected at_ | relays at_ | drainWritesOn at_
  | drainEnds at_ | drains at_ | downloadEnds at_ | parks at_ | downloads at_ | startDangles at_ =>
    cases disposed.start.symm.trans at_
  | writerFailed at_ | writerWritesOn at_ | writerEnds at_ | writerFollows at_ | writerPops at_ | writerDangles at_ =>
    cases disposed.writer at_
  | @readerParks j n | @readerReads j n =>
    obtain ⟨pcb, eq, _⟩ := c.writeLocal_eq n room
    rw [eq]
    exact ⟨disposed.queue, disposed.start, disposed.writers, disposed.erased⟩
  | readerFailed | readerEnds | readerDangles =>
    exact ⟨disposed.queue, disposed.start, disposed.writers, disposed.erased⟩

private theorem disposed_reap (before : c.destroyed = true → Disposed c) :
    c.reap.1.destroyed = true → Disposed c.reap.1 := by
  unfold Conn.reap
  split
  · next ends =>
    obtain ⟨_, erased, start, writers, _⟩ := ends
    refine fun _ => ⟨rfl, isFinished_iff.mp start, fun t ht => ?_, erased⟩
    exact isFinished_iff.mp (List.all_eq_true.mp writers t ht)
  · exact before

end Moves

private theorem disposed_run {ts : List (Transition Conn TcpAct TcpEvent)} {c : Conn} (run : connMachine.Run ts c) :
    c.destroyed = true → Disposed c := by
  refine invariant_of_moves run (fun c => c.destroyed = true → Disposed c) ?_
    (fun move _ before h => move.disposed (before (move.destroyed.symm.trans h)))
    (fun move _ before h => move.disposed (before (move.aside.alive.symm.trans h)))
    (fun move _ before h => move.disposed (before (move.aside.alive.symm.trans h))) (fun _ => disposed_reap)
  rintro c ⟨_, _, _, _, _, _, rfl⟩ h
  cases h

/-- Every packet passed to `Handle` is released, owned, or was dropped by a coroutine. -/
structure Accounted (ts : List (Transition Conn TcpAct TcpEvent)) (c : Conn) : Prop where
  balanced : c.halted = false ∨ c.destroyed = true →
    releasedPackets (Machine.trace ts) + c.custody + droppedPackets ts = handledPackets ts
  once : releasedPackets (Machine.trace ts) + c.unfinished ≤ handledPackets ts

private theorem unfinished_le (c : Conn) : c.unfinished ≤ c.custody := by
  have writing : startWriting c.start ≤ startPackets c.start := by
    unfold startWriting
    split
    · next at_ =>
      rw [at_]
      exact le_rfl
    · next at_ =>
      rw [at_]
      split
      · exact le_rfl
      · exact Multiset.zero_le _
    · exact Multiset.zero_le _
  exact add_le_add_left (add_le_add_right writing _) _

private theorem reap_settles (c : Conn) : releasedPackets c.reap.2 + c.reap.1.custody = c.custody := by
  unfold Conn.reap
  split
  · rw [releasedPackets_pbufFreed, Conn.custody, Conn.custody, Conn.writerHands, Conn.writerHands, Multiset.coe_nil]
    abel
  · exact zero_add _

private theorem accounted_snoc {ts : List (Transition Conn TcpAct TcpEvent)} {t : Transition Conn TcpAct TcpEvent}
    (before : releasedPackets (Machine.trace ts) + t.pre.custody + droppedPackets ts = handledPackets ts)
    (moved : releasedPackets t.out + t.post.custody + t.pre.dropped t.act = t.pre.custody + t.pre.handled t.act) :
    Accounted (ts ++ [t]) t.post := by
  have dropped : droppedPackets (ts ++ [t]) = droppedPackets ts + t.pre.dropped t.act := by
    simp [droppedPackets]
  have handled : handledPackets (ts ++ [t]) = handledPackets ts + t.pre.handled t.act := by
    simp [handledPackets]
  have after : releasedPackets (Machine.trace (ts ++ [t])) + t.post.custody + droppedPackets (ts ++ [t]) =
      handledPackets (ts ++ [t]) := by
    rw [Machine.trace_snoc, releasedPackets_append, dropped, handled]
    calc releasedPackets (Machine.trace ts) + releasedPackets t.out + t.post.custody +
          (droppedPackets ts + t.pre.dropped t.act)
        = releasedPackets (Machine.trace ts) + droppedPackets ts +
          (releasedPackets t.out + t.post.custody + t.pre.dropped t.act) := by abel
      _ = releasedPackets (Machine.trace ts) + t.pre.custody + droppedPackets ts + t.pre.handled t.act := by
        rw [moved]
        abel
      _ = handledPackets ts + t.pre.handled t.act := by rw [before]
  refine ⟨fun _ => after, ?_⟩
  calc releasedPackets (Machine.trace (ts ++ [t])) + t.post.unfinished
      ≤ releasedPackets (Machine.trace (ts ++ [t])) + t.post.custody := add_le_add_right (unfinished_le _) _
    _ ≤ handledPackets (ts ++ [t]) := after ▸ Multiset.le_add_right _ _

/-- The packet the drain loop still points to has been written whole. -/
private theorem dangles_once {ts : List (Transition Conn TcpAct TcpEvent)} {t : Transition Conn TcpAct TcpEvent}
    {evs : List TcpEvent} {mid : Conn}
    (before : releasedPackets (Machine.trace ts) + t.pre.custody + droppedPackets ts =
      handledPackets ts) (dangles : DrainDangles t.pre evs mid) (out : t.out = evs ++ mid.reap.2)
    (post : t.post = mid.reap.1) (alive : t.pre.destroyed = false) : Accounted (ts ++ [t]) t.post := by
  obtain ⟨rfl, front, sent, n, at_, whole, released⟩ := dangles
  have unreaped : t.pre.crash.reap = (t.pre.crash, []) := by
    simp [Conn.reap, Conn.crash, at_, isFinished]
  rw [unreaped] at out post
  have written : t.post.unfinished + {front} = t.pre.custody := by
    have idle : startWriting t.pre.start = 0 := by
      rw [at_, startWriting, if_neg (Nat.not_lt.mpr whole)]
    have held : startPackets t.pre.start = {front} := by
      rw [at_]
      rfl
    have same : t.post.unfinished = ↑t.pre.pbufQueue + startWriting t.pre.start + t.pre.writerHands := by
      rw [post]
      rfl
    rw [same, Conn.custody, idle, held]
    abel
  refine ⟨fun h => ?_, ?_⟩
  · rw [post] at h
    rcases h with live | destroyed
    · cases live
    · cases alive.symm.trans destroyed
  · have handled : handledPackets (ts ++ [t]) = handledPackets ts + t.pre.handled t.act := by
      simp [handledPackets]
    rw [Machine.trace_snoc, releasedPackets_append, out, List.append_nil, released, handled, ← before]
    calc releasedPackets (Machine.trace ts) + {front} + t.post.unfinished
        = releasedPackets (Machine.trace ts) + t.pre.custody := by
          rw [← written]
          abel
      _ ≤ releasedPackets (Machine.trace ts) + t.pre.custody + (droppedPackets ts + t.pre.handled t.act) :=
          Multiset.le_add_right _ _
      _ = releasedPackets (Machine.trace ts) + t.pre.custody + droppedPackets ts + t.pre.handled t.act :=
          (add_assoc _ _ _).symm

private theorem accounted_run {ts : List (Transition Conn TcpAct TcpEvent)} {c : Conn} (run : connMachine.Run ts c) :
    Accounted ts c := by
  induction run with
  | init h =>
    obtain ⟨_, _, _, opened, _, _, rfl⟩ := h
    cases opened
    · exact ⟨fun _ => rfl, le_rfl⟩
    · exact ⟨fun _ => rfl, le_rfl⟩
  | @next ts c c' a out run h ih =>
    obtain ⟨live, r, happens, rfl, rfl⟩ := happens_of_step h
    have before := ih.balanced (Or.inl live)
    rcases happens.custody (filed_run run) (shape_run run) live with moved | ⟨dangles, _⟩
    · refine accounted_snoc before ?_
      rw [releasedPackets_append, add_assoc (releasedPackets r.2), reap_settles]
      exact moved
    · refine dangles_once before dangles rfl rfl (Bool.eq_false_iff.mpr fun destroyed => ?_)
      obtain ⟨_, _, _, _, at_, _⟩ := dangles
      cases (disposed_run run destroyed).start.symm.trans at_

/-- In every run no packet passed to `Handle` is released twice, or while it is queued or being written; and when
its session has been destroyed every one has been released exactly if no coroutine returned with one in hand. -/
theorem released_once_iff {ts : List (Transition Conn TcpAct TcpEvent)} {c : Conn} (run : connMachine.Run ts c) :
    releasedPackets (Machine.trace ts) + c.unfinished ≤ handledPackets ts ∧
      (c.destroyed = true →
        (releasedPackets (Machine.trace ts) = handledPackets ts ↔ ∀ t ∈ ts, t.pre.dropped t.act = 0)) := by
  have accounted := accounted_run run
  refine ⟨accounted.once, fun destroyed => ?_⟩
  have balanced := accounted.balanced (Or.inr destroyed)
  rw [(disposed_run run destroyed).custody, add_zero] at balanced
  have none_ : droppedPackets ts = 0 ↔ ∀ t ∈ ts, t.pre.dropped t.act = 0 := by
    rw [droppedPackets, List.sum_eq_zero_iff, List.forall_mem_map]
  rw [← none_, ← balanced, left_eq_add]

/-- A packet that arrives early is written by the drain loop, then the local peer closes. -/
theorem released_once_iff_drained : ∃ ts c, connMachine.Run ts c ∧
    (c.destroyed = true ∧ handledPackets ts ≠ 0 ∧ ∀ t ∈ ts, t.pre.dropped t.act = 0) ∧
    (releasedPackets (Machine.trace ts) + c.unfinished ≤ handledPackets ts ∧
      (c.destroyed = true →
        (releasedPackets (Machine.trace ts) = handledPackets ts ↔ ∀ t ∈ ts, t.pre.dropped t.act = 0))) := by
  obtain ⟨ts, c, run, h⟩ := Machine.Run.exists_of_exec connMachine webConn
    ([.input ⟨0, false, some ⟨[1], []⟩, false⟩] ++ greeting ++
      [.accept 1, .resume .start .free, .input ⟨0, false, none, true⟩, .resume .start .free])
    (fun ts c => decide (c.destroyed = true ∧ handledPackets ts ≠ 0 ∧ ∀ t ∈ ts, t.pre.dropped t.act = 0)) webConn_init
    (by decide +kernel)
  exact ⟨ts, c, run, of_decide_eq_true h, released_once_iff run⟩

/-- The local peer closes while a writer waits: the write is cancelled and the packet stays allocated. -/
theorem cancelled_write_leaks : ∃ ts c, connMachine.Run ts c ∧ c.destroyed = true ∧
    handledPackets ts = {⟨[1], []⟩} ∧ releasedPackets (Machine.trace ts) = 0 := by
  obtain ⟨ts, c, run, h⟩ := Machine.Run.exists_of_exec connMachine webConn
    (greeting ++ [.input ⟨0, false, some ⟨[1], []⟩, false⟩, .input ⟨0, false, none, true⟩, .resume (.writer 0) .free,
      .resume .start .free])
    (fun ts c => decide (c.destroyed = true ∧ handledPackets ts = {⟨[1], []⟩} ∧ releasedPackets (Machine.trace ts) = 0))
    webConn_init (by decide +kernel)
  exact ⟨ts, c, run, of_decide_eq_true h⟩

end Tunosocks.Tcp
