import Tunosocks.Tcp.Stream

/-! Along every run in which the drain loop and a writer do not get in each other's way,
the remote socket accepts the bytes of local packets in the order of their arrival. -/
namespace Tunosocks.Tcp
open Foundation Coroutine

/-! ### The callbacks -/

section Callbacks
variable {tr : List TcpEvent} {c : Conn}

theorem InOrder.queued (order : InOrder tr c) (p : Pbuf) :
    InOrder (tr ++ [.proxied p]) { c with pbufQueue := c.pbufQueue ++ [p] } := by
  have uploaded : uploadedBytes [.proxied p] = [] := rfl
  refine order.imp (fun intact => ?_) (fun stalled => ?_)
  · refine ⟨?_, intact.start, intact.writers, intact.whole⟩
    have backlog : Conn.backlog { c with pbufQueue := c.pbufQueue ++ [p] } = c.backlog ++ p.bytes := by
      rw [Conn.backlog, List.flatMap_append, List.flatMap_singleton]
      rfl
    rw [uploadedBytes_append, proxiedBytes_append, uploaded, proxiedBytes_one, List.append_nil, ← intact.bytes, backlog]
    simp only [List.append_assoc]
    rfl
  · refine ⟨?_, stalled.past, stalled.start, stalled.writers, stalled.stuck⟩
    rw [uploadedBytes_append, proxiedBytes_append, uploaded, List.append_nil]
    exact stalled.ordered.trans (List.prefix_append _ _)

private theorem startRest_cancel (t : Coroutine StartPoint) : startRest t.cancel = startRest t := by
  cases t with
  | suspended p => cases p <;> rfl
  | _ => rfl

private theorem writerRest_cancel (t : Coroutine WriterPoint) : writerRest t.cancel = writerRest t := by
  cases t <;> rfl

private theorem cancel_of_completed {α : Type} {t : Coroutine α} {p : α} {r : Completion} (h : t = .completed p r) :
    t.cancel = .completed p r := by
  rw [h]
  rfl

private theorem eq_of_cancel_failed {α : Type} {t : Coroutine α} {p : α} (h : t.cancel = .completed p .error) :
    t = .suspended p ∨ t = .completed p .error := by
  cases t with
  | suspended q =>
    cases h
    exact Or.inl rfl
  | completed q r => exact Or.inr h
  | finished => cases h

/-- A local packet is in a write that the remote socket has not accepted. -/
def Conn.Sending (c : Conn) : Prop :=
  (∃ front sent, c.start = .suspended (.drainWrite front sent)) ∨
    ∃ (j : Nat) (point : WriterPoint), c.writers[j]? = some (.suspended point)

private theorem resting_cancel : c.cancel.resting = c.resting := by
  rw [Conn.resting, Conn.resting, Conn.cancel, startRest_cancel, List.flatMap_map]
  exact congrArg (startRest c.start ++ ·) (congrArg (c.writers.flatMap ·) (funext writerRest_cancel))

private theorem Intact.resting_of_sending (intact : Intact tr c) (shape : Shape c) (sending : c.Sending) :
    c.resting = [] := by
  rcases sending with ⟨front, sent, at_⟩ | ⟨j, point, at_⟩
  · by_cases gone : AllGone c.writing
    · rw [Conn.resting, at_, rest_of_gone gone]
      rfl
    · exact intact.whole ⟨draining_of at_ rfl, gone⟩
  · by_cases drains : c.Draining
    · exact intact.whole ⟨drains, busy_of at_ rfl⟩
    · rw [resting_of_writer shape at_ rfl, startRest_eq_nil drains]
      rfl

private theorem not_greeting_of_sending (shape : Shape c) (sending : c.Sending) : ¬ c.Greeting := by
  rcases sending with ⟨front, sent, at_⟩ | ⟨j, point, at_⟩
  · exact not_greeting_of_draining (draining_of at_ rfl)
  · exact not_greeting_of_busy shape (busy_of at_ rfl)

private theorem pending_of_not_sending (quiet : ¬ c.Sending) : c.pending = [] := by
  refine List.flatMap_eq_nil_iff.mpr fun id _ => ?_
  cases id with
  | reader k => rfl
  | start =>
    rw [Conn.left]
    cases h : c.start with
    | suspended p =>
      cases p with
      | drainWrite front sent => exact absurd (Or.inl ⟨front, sent, h⟩) quiet
      | _ => rfl
    | _ => rfl
  | writer k =>
    rw [Conn.left]
    cases h : c.writers[k]? with
    | none => rfl
    | some t =>
      cases t with
      | suspended point => exact absurd (Or.inr ⟨k, point, h⟩) quiet
      | _ => rfl

/-- `Stop()` fails the pending writes, whose packets are then lost. -/
theorem InOrder.stopped {pcb : Pcb} (order : InOrder tr c) (shape : Shape c) (opened : c.status ≠ .close) :
    InOrder (tr ++ [.stopped]) { c.cancel with status := .close, pcb } := by
  have resting : Conn.resting { c.cancel with status := .close, pcb } = c.resting := resting_cancel
  have points : c.start.cancel.point? = c.start.point? := point?_cancel _
  have greeting : Conn.Greeting { c.cancel with status := .close, pcb } ↔ c.Greeting := by
    rw [Conn.Greeting, Conn.Greeting, ← points]
    rfl
  have draining : Conn.Draining { c.cancel with status := .close, pcb } ↔ c.Draining := by
    rw [Conn.Draining, Conn.Draining, ← points]
    rfl
  have writing : Conn.writing { c.cancel with status := .close, pcb } = c.writing := map_point?_cancel _
  have waits : ∀ (j : Nat) (point : WriterPoint), (c.writers.map cancel)[j]? ≠ some (.suspended point) := by
    intro j point h
    obtain ⟨t, _, ht⟩ := Option.map_eq_some_iff.mp (List.getElem?_map.symm.trans h)
    exact cancel_ne_suspended t point ht
  have quiet : Quiet [.stopped] := ⟨rfl, rfl⟩
  rcases order with intact | stalled
  · by_cases sending : c.Sending
    · refine Or.inr ⟨?_, ?_, fun front sent => cancel_ne_suspended _ _, waits, Or.inl ⟨rfl, ?_⟩⟩
      · rw [quiet.uploaded, quiet.proxied]
        exact intact.ordered
      · exact fun h => not_greeting_of_sending shape sending (greeting.mp h)
      · exact resting.trans (intact.resting_of_sending shape sending)
    · refine Or.inl ⟨?_, ?_, ?_, ?_⟩
      · have bytes := intact.bytes
        rw [pending_of_not_sending sending] at bytes
        rw [quiet.uploaded, quiet.proxied, resting]
        exact bytes
      · intro front sent h
        rcases eq_of_cancel_failed h with h | h
        · exact sending (Or.inl ⟨front, sent, h⟩)
        · exact intact.start front sent h
      · intro j point h
        obtain ⟨t, at_, ht⟩ := Option.map_eq_some_iff.mp (List.getElem?_map.symm.trans h)
        rcases eq_of_cancel_failed ht with rfl | rfl
        · exact sending (Or.inr ⟨j, point, at_⟩)
        · exact intact.writers j point at_
      · rw [Conn.Overlap, draining, writing, resting]
        exact intact.whole
  · refine Or.inr ⟨?_, fun h => stalled.past (greeting.mp h), fun front sent => cancel_ne_suspended _ _, waits, ?_⟩
    · rw [quiet.uploaded, quiet.proxied]
      exact stalled.ordered
    · rcases stalled.stuck with ⟨closed, _⟩ | ⟨⟨front, sent, failed⟩, gone⟩ | ⟨idle, j, point, failed⟩
      · exact absurd closed opened
      · exact Or.inr (Or.inl ⟨⟨front, sent, cancel_of_completed failed⟩, writing ▸ gone⟩)
      · refine Or.inr (Or.inr ⟨fun h => idle (draining.mp h), j, point, ?_⟩)
        exact List.getElem?_map.trans (by rw [failed]; rfl)

theorem Callback.inOrder {seg : Segment} {c' : Conn} {evs : List TcpEvent} (move : Callback seg c evs c')
    (order : InOrder tr c) (shape : Shape c) (lined : Lined c) (settled : seg.data ≠ none → ¬ c.ShortDrain) :
    InOrder (tr ++ evs) c' := by
  cases move with
  | lwip change =>
    refine order.congr rfl rfl rfl rfl (Or.inl rfl) ?_
    cases change <;> exact ⟨rfl, rfl⟩
  | stoppedAgain | stopDangles | erased | refused | readerSpawned | crashed =>
    exact order.congr rfl rfl rfl rfl (Or.inl rfl) ⟨rfl, rfl⟩
  | stopped opened => exact order.stopped shape opened
  | @queued p => exact order.queued p
  | writerSpawned carried simple _ relaying idle =>
    exact order.writerSpawned shape lined simple relaying idle (settled (by rw [carried]; exact Option.some_ne_none _))

/-- No callback gives the drain loop something to take up. -/
theorem Callback.settled {seg : Segment} {c' : Conn} {evs : List TcpEvent} (move : Callback seg c evs c')
    (settled : ¬ c.ShortDrain) : ¬ c'.ShortDrain := by
  cases move with
  | stopped =>
    rintro ⟨relaying, _⟩
    cases relaying
  | writerSpawned =>
    obtain ⟨_, _, _, _, eq⟩ := Conn.writerLoop_eq _ c.writers.length
    rw [eq]
    exact settled
  | _ => exact settled

end Callbacks

/-! ### The remote socket -/

section Socket
variable {tr evs : List TcpEvent} {c c' : Conn}

/-- What keeps the two from getting in each other's way: no packet arrives while the
drain loop has a short write to take up, and while both hold a packet every write is
accepted as a whole. -/
def Conn.KeepsOrder (c : Conn) : TcpAct → Prop
  | .input seg => seg.data ≠ none → ¬ c.ShortDrain
  | .accept n => c.Overlap → ∀ id ∈ c.writeQueue.head?, (c.left id).length ≤ n
  | .failWrite => ¬ c.Overlap
  | _ => True

instance (c : Conn) (a : TcpAct) : Decidable (c.KeepsOrder a) := by
  unfold Conn.KeepsOrder
  split <;> infer_instance

/-- Points of `Start` that hold no packet. -/
private theorem InOrder.between {p : StartPoint} (order : InOrder tr c) (at_ : c.start.point? = some p)
    (unheld : ∀ front sent, p ≠ .drainWrite front sent) (same : c'.start.point? = c.start.point?)
    (writers : c'.writers = c.writers) (queue : c'.pending = c.pending) (packets : c'.pbufQueue = c.pbufQueue)
    (status : c'.status = c.status) (quiet : Quiet evs) : InOrder (tr ++ evs) c' := by
  refine order.of_start (not_draining at_ unheld) (not_draining (same.trans at_) unheld) writers queue packets ?_
    (fun _ closed => status.trans closed) quiet
  rw [Conn.Greeting, Conn.Greeting, same]
  exact id

private theorem pending_start {queue : List CoroId} (before : ¬ c.Draining) (after : ¬ c'.Draining)
    (writers : c'.writers = c.writers) : queue.flatMap c'.left = queue.flatMap c.left := by
  refine List.flatMap_congr fun id _ => ?_
  by_cases same : id = .start
  · rw [same, startLeft_eq_nil before, startLeft_eq_nil after]
  · exact Conn.left_of_start_absent writers same

private theorem pending_start_drops {rest : List CoroId} (before : ¬ c.Draining) (after : ¬ c'.Draining)
    (writers : c'.writers = c.writers) (oldest : c.writeQueue = .start :: rest) (queue : c'.writeQueue = rest) :
    c'.pending = c.pending := by
  rw [Conn.pending, Conn.pending, oldest, queue, List.flatMap_cons, startLeft_eq_nil before,
    pending_start before after writers]
  rfl

private theorem unheld_of_window {p : StartPoint} {window : Nat × Nat} (takes : p.window = some window)
    (front : Pbuf) (sent : Nat) : p ≠ .drainWrite front sent := by
  rintro rfl
  cases takes

private theorem drainWrite_or (p : StartPoint) :
    (∃ front sent, p = .drainWrite front sent) ∨ ∀ front sent, p ≠ .drainWrite front sent := by
  cases p with
  | drainWrite front sent => exact Or.inl ⟨front, sent, rfl⟩
  | _ => exact Or.inr fun _ _ h => nomatch h

private theorem accepted_quiet {p : StartPoint} (unheld : ∀ front sent, p ≠ .drainWrite front sent)
    (data : List UInt8) :
    Quiet [p.accepted data] := by
  cases p with
  | drainWrite front sent => exact absurd rfl (unheld front sent)
  | _ => exact ⟨rfl, rfl⟩

private theorem received_quiet (p : StartPoint) (data : List UInt8) : Quiet [p.received data] := by
  cases p <;> exact ⟨rfl, rfl⟩

theorem SocketMove.inOrder {a : TcpAct} (move : SocketMove c a evs c') (order : InOrder tr c) (shape : Shape c)
    (lined : Lined c) (keeps : c.KeepsOrder a) : InOrder (tr ++ evs) c' := by
  have still {p : StartPoint} (at_ : c.start = .suspended p) : c.start.point? = some p := by rw [at_]; rfl
  cases move with
  | connected at_ | connectFailed at_ =>
    have unheld : ∀ front sent, StartPoint.connect ≠ .drainWrite front sent := fun _ _ h => nomatch h
    exact order.between (still at_) unheld (still at_).symm rfl
      (pending_start (not_draining (still at_) unheld) (not_draining rfl unheld) rfl) rfl rfl ⟨rfl, rfl⟩
  | @startAccepts n point bytes rest oldest at_ offers pos le =>
    rcases drainWrite_or point with ⟨front, sent, rfl⟩ | unheld
    · cases offers
      rcases order with intact | stalled
      · refine Or.inl (intact.drainAccepts lined oldest at_ fun overlap => ?_)
        have fits := keeps overlap .start (by rw [oldest]; rfl)
        rwa [Conn.left, at_] at fits
      · exact absurd at_ (stalled.start front sent)
    · exact order.between (still at_) unheld (still at_).symm rfl
        (pending_start_drops (not_draining (still at_) unheld) (not_draining rfl unheld) rfl oldest rfl) rfl rfl
        (accepted_quiet unheld _)
  | @startWriteFails point bytes rest oldest at_ offers =>
    rcases drainWrite_or point with ⟨front, sent, rfl⟩ | unheld
    · rcases order with intact | stalled
      · exact Or.inr (intact.drainFails at_ keeps)
      · exact absurd at_ (stalled.start front sent)
    · exact order.between (still at_) unheld (still at_).symm rfl
        (pending_start_drops (not_draining (still at_) unheld) (not_draining rfl unheld) rfl oldest rfl) rfl rfl
        ⟨rfl, rfl⟩
  | @writerAccepts n j point rest oldest at_ pos le =>
    rcases order with intact | stalled
    · refine Or.inl (intact.writerAccepts shape lined oldest at_ fun overlap => ?_)
      have fits := keeps overlap (.writer j) (by rw [oldest]; rfl)
      rwa [Conn.left, at_] at fits
    · exact absurd at_ (stalled.writers j point)
  | @writerWriteFails j point rest oldest at_ =>
    rcases order with intact | stalled
    · exact Or.inr (intact.writerFails shape at_ keeps)
    · exact absurd at_ (stalled.writers j point)
  | startArrives _ at_ takes =>
    have unheld := unheld_of_window takes
    exact order.between (still at_) unheld (still at_).symm rfl
      (pending_start (not_draining (still at_) unheld) (not_draining rfl unheld) rfl) rfl rfl (received_quiet _ _)
  | startReadFails _ at_ takes =>
    have unheld := unheld_of_window takes
    exact order.between (still at_) unheld (still at_).symm rfl
      (pending_start (not_draining (still at_) unheld) (not_draining rfl unheld) rfl) rfl rfl ⟨rfl, rfl⟩
  | readerArrives | readerReadFails | transmits =>
    exact order.congr rfl rfl rfl rfl (Or.inl rfl) ⟨rfl, rfl⟩

end Socket

/-! ### The coroutines -/

/-- What a writer has popped is in its first buffer: `tcp_recv_func` lets no other packet in. -/
def Conn.Flat (c : Conn) : Prop := ∀ point, some point ∈ c.writing → point.next.flatten = []

section Flat
variable {c c' : Conn} {evs : List TcpEvent}

private theorem Conn.Flat.congr (flat : c.Flat) (writing : c'.writing = c.writing) : c'.Flat := by
  rw [Conn.Flat, writing]
  exact flat

private theorem Conn.Flat.set (flat : c.Flat) {j : Nat} {o : Option WriterPoint}
    (writing : c'.writing = c.writing.set j o) (new : ∀ point, o = some point → point.next.flatten = []) : c'.Flat := by
  intro point h
  rw [writing] at h
  rcases List.mem_or_eq_of_mem_set h with old | eq
  · exact flat point old
  · exact new point eq.symm

private theorem Conn.Flat.writerLoop {d : Conn} (flat : c.Flat) (j : Nat) (writing : d.writing = c.writing)
    (simple : ∀ p ∈ d.pbufQueue, p.len = p.totLen) : (d.writerLoop j).Flat := by
  rcases d.writerLoop_cases j with ⟨_, loop⟩ | ⟨front, rest, popped, loop⟩
  · rw [loop]
    refine flat.set (j := j) (o := none) ?_ (fun _ h => nomatch h)
    rw [← writing, Conn.writing, List.map_set]
    rfl
  · rw [loop]
    refine flat.set (writing ▸ Conn.writing_awaitWriter _ _ _) ?_
    rintro _ ⟨⟩
    exact Pbuf.flat_of_simple (simple front (popped ▸ List.mem_cons_self))

theorem Callback.flat {seg : Segment} (move : Callback seg c evs c') (shape : Shape c) (flat : c.Flat) : c'.Flat := by
  cases move with
  | stopped => exact flat.congr (map_point?_cancel _)
  | @writerSpawned p _ simple =>
    have grown : Conn.Flat { c with writers := c.writers ++ [Coroutine.finished] } := by
      intro point h
      rw [Conn.writing, List.map_append] at h
      rcases List.mem_append.mp h with old | new
      · exact flat point old
      · cases List.mem_singleton.mp new
    refine grown.writerLoop _ rfl fun q hq => ?_
    rcases List.mem_append.mp hq with old | new
    · exact shape.simple q old
    · exact List.mem_singleton.mp new ▸ simple
  | _ => exact flat

theorem SocketMove.flat {a : TcpAct} (move : SocketMove c a evs c') (flat : c.Flat) : c'.Flat := by
  cases move with
  | writerAccepts _ at_ | writerWriteFails _ at_ => exact flat.congr (map_point?_set at_ _ rfl)
  | _ => exact flat

private theorem writing_drainLoop (d : Conn) : d.drainLoop.1.writing = d.writing := by
  obtain ⟨_, _, _, _, _, eq⟩ := d.drainLoop_eq
  rw [eq]
  rfl

theorem Resumes.flat {room : Room} {id : CoroId} (move : Resumes c room id evs c') (shape : Shape c) (flat : c.Flat) :
    c'.Flat := by
  have gone {d : Conn} {j : Nat} (writers : d.writers = c.writers.set j .finished) : d.Flat := by
    refine flat.set (j := j) (o := none) ?_ (fun _ h => nomatch h)
    rw [Conn.writing, writers, List.map_set]
    rfl
  have chain {j n : Nat} {point : WriterPoint} (at_ : c.writers[j]? = some (.completed point (.ok n))) :
      point.next.flatten = [] := flat point (List.mem_of_getElem? (points_of_completed at_))
  cases move with
  | relays | drains => exact flat.congr (writing_drainLoop _)
  | @parks n | @downloads n | @readerParks j n | @readerReads j n =>
    obtain ⟨pcb, eq, _⟩ := c.writeLocal_eq n room
    rw [eq]
    exact flat
  | writerFailed | writerEnds => exact gone rfl
  | writerWritesOn at_ =>
    have same := chain at_
    refine flat.set (Conn.writing_awaitWriter _ _ _) ?_
    rintro _ ⟨⟩
    exact same
  | writerFollows at_ _ _ _ chained =>
    refine flat.set (Conn.writing_awaitWriter _ _ _) ?_
    rintro _ ⟨⟩
    have empty := chain at_
    rw [chained, List.flatten_cons] at empty
    exact (List.append_eq_nil_iff.mp empty).2
  | writerPops at_ => exact flat.writerLoop _ rfl shape.simple
  | _ => exact flat

end Flat

section Coroutines
variable {tr evs : List TcpEvent} {c c' : Conn}

private theorem pending_finish (lined : Lined c) {p : StartPoint} {r : Completion} (at_ : c.start = .completed p r)
    (writers : c'.writers = c.writers) (queue : c'.writeQueue = c.writeQueue) : c'.pending = c.pending := by
  rw [Conn.pending, Conn.pending, queue]
  exact List.flatMap_congr fun id h =>
    Conn.left_of_start_absent writers fun eq => lined.not_mem_start at_ (eq ▸ h)

/-- `Start` returns at a point that holds no packet. -/
private theorem InOrder.ends {p : StartPoint} {r : Completion} (order : InOrder tr c) (lined : Lined c)
    (at_ : c.start = .completed p r) (unheld : ∀ front sent, p ≠ .drainWrite front sent)
    (start : c'.start = .finished) (writers : c'.writers = c.writers) (queue : c'.writeQueue = c.writeQueue)
    (packets : c'.pbufQueue = c.pbufQueue) (status : c'.status = .close) (quiet : Quiet evs) :
    InOrder (tr ++ evs) c' := by
  have gone : c'.start.point? = none := by rw [start]; rfl
  refine order.of_start (not_draining (point?_of_completed at_) unheld) ?_ writers
    (pending_finish lined at_ writers queue) packets ?_ (fun _ _ => status) quiet
  · rintro ⟨front, sent, h⟩
    cases gone.symm.trans h
  · rintro _ ⟨q, h, _⟩
    cases gone.symm.trans h

/-- `Start` goes on from one point that holds no packet to another. -/
private theorem InOrder.goesOn {d : Conn} {p p' : StartPoint} {r : Completion} (order : InOrder tr c) (lined : Lined c)
    (at_ : c.start = .completed p r) (unheld : ∀ front sent, p ≠ .drainWrite front sent)
    (unheld' : ∀ front sent, p' ≠ .drainWrite front sent) (writers : d.writers = c.writers)
    (queue : d.writeQueue = c.writeQueue) (packets : d.pbufQueue = c.pbufQueue)
    (status : d.status = c.status ∧ p.greets = p'.greets ∨ p.greets = true) (quiet : Quiet evs) :
    InOrder (tr ++ evs) (d.awaitStart p') := by
  have absent : .start ∉ d.writeQueue := queue ▸ lined.not_mem_start at_
  have same : d.pending = c.pending := pending_finish lined at_ writers queue
  have left : p'.left = [] := by
    cases p' with
    | drainWrite front sent => exact absurd rfl (unheld' front sent)
    | _ => rfl
  refine order.of_start (not_draining (point?_of_completed at_) unheld)
    (not_draining (Conn.point?_awaitStart _ _) unheld') writers ?_ packets ?_ ?_ quiet
  · rw [Conn.pending_awaitStart absent, left, List.append_nil, same]
  · intro past greets
    refine past ⟨p, point?_of_completed at_, ?_⟩
    rcases status with ⟨_, eq⟩ | greets'
    · exact eq.trans ((Conn.greeting_awaitStart _ _).mp greets)
    · exact greets'
  · intro past closed
    rcases status with ⟨eq, _⟩ | greets
    · exact eq.trans closed
    · exact absurd ⟨p, point?_of_completed at_, greets⟩ past

private theorem Greets.unheld {p p' : StartPoint} {n : Nat} (h : Greets p n p') :
    (∀ front sent, p ≠ .drainWrite front sent) ∧ ∀ front sent, p' ≠ .drainWrite front sent := by
  cases h <;> exact ⟨(fun _ _ h => nomatch h), (fun _ _ h => nomatch h)⟩

private theorem quiet_drainLoop (d : Conn) : Quiet d.drainLoop.2 := by
  rcases d.drainLoop_events with eq | eq <;> rw [eq] <;> exact ⟨rfl, rfl⟩

private theorem Quiet.append {evs' : List TcpEvent} (first : Quiet evs) (second : Quiet evs') :
    Quiet (evs ++ evs') := by
  constructor
  · rw [second.uploaded, first.1]
  · rw [second.proxied, first.2]

private theorem Touches.quiet {room : Room} {n : Nat} {p : StartPoint} (h : Touches c room n p evs) : Quiet evs := by
  cases h <;> exact ⟨rfl, rfl⟩

/-- The reply is in and the relay begins. -/
private theorem InOrder.relays {got n : Nat} (order : InOrder tr c) (shape : Shape c) (lined : Lined c)
    (at_ : c.start = .completed (.requestRead got) (.ok n)) :
    InOrder (tr ++ .used .localPort :: ({ c with status := .relaying }.drainLoop).2)
      ({ c with status := .relaying }.drainLoop).1 := by
  have greets : c.Greeting := ⟨_, point?_of_completed at_, rfl⟩
  have quiet : Quiet ([.used .localPort] ++ (Conn.drainLoop { c with status := .relaying }).2) :=
    .append ⟨rfl, rfl⟩ (quiet_drainLoop _)
  rcases order with intact | stalled
  · have resting : c.resting = [] := by
      have none_ : AllGone c.writing := (shape.greeting greets).1 ▸ AllGone.nil
      rw [Conn.resting, rest_of_gone none_, at_]
      rfl
    exact Or.inl (intact.drainLoop (lined.not_mem_start at_) resting shape.simple rfl rfl rfl rfl quiet)
  · exact absurd greets stalled.past

/-- A packet is drained and the loop goes on. -/
private theorem InOrder.drains {front : Pbuf} {sent n : Nat} {pcb : Pcb} (order : InOrder tr c) (shape : Shape c)
    (lined : Lined c) (at_ : c.start = .completed (.drainWrite front sent) (.ok n)) (whole : front.len ≤ sent + n)
    (opened : c.status ≠ .close) (first : Quiet evs) :
    InOrder (tr ++ (evs ++ ({ c with pcb }.drainLoop).2)) ({ c with pcb }.drainLoop).1 := by
  have drains : c.Draining := draining_of at_ rfl
  have nothing : startRest c.start = [] := by
    rw [at_]
    exact List.drop_of_length_le whole
  rcases order with intact | stalled
  · exact Or.inl (intact.drainLoop (lined.not_mem_start at_) (intact.resting_of_drained drains nothing) shape.simple
      rfl rfl rfl rfl (first.append (quiet_drainLoop _)))
  · rcases stalled.stuck with ⟨closed, _⟩ | ⟨⟨_, _, failed⟩, _⟩ | ⟨idle, _⟩
    · exact absurd closed opened
    · cases at_.symm.trans failed
    · exact absurd drains idle

theorem Resumes.inOrder {room : Room} {id : CoroId} (move : Resumes c room id evs c') (order : InOrder tr c)
    (shape : Shape c) (lined : Lined c) (flat : c.Flat) : InOrder (tr ++ evs) c' := by
  have drained {front : Pbuf} {sent n : Nat} (at_ : c.start = .completed (.drainWrite front sent) (.ok n))
      (whole : front.len ≤ sent + n) : startRest c.start = [] := by
    rw [at_]
    exact List.drop_of_length_le whole
  cases move with
  | @startFailed point at_ =>
    rcases drainWrite_or point with ⟨front, sent, rfl⟩ | unheld
    · exact order.drainReturns (draining_of at_ rfl) (by rw [at_]; rfl) rfl (pending_finish lined at_ rfl rfl) rfl rfl
        rfl ⟨rfl, rfl⟩
    · exact order.ends lined at_ unheld rfl rfl rfl rfl rfl ⟨rfl, rfl⟩
  | rejected at_ | downloadEnds at_ =>
    exact order.ends lined at_ (fun _ _ h => nomatch h) rfl rfl rfl rfl rfl ⟨rfl, rfl⟩
  | connected at_ | requests at_ =>
    exact order.goesOn lined at_ (fun _ _ h => nomatch h) (fun _ _ h => nomatch h) rfl rfl rfl (Or.inr rfl) ⟨rfl, rfl⟩
  | greets at_ next =>
    exact order.goesOn lined at_ next.unheld.1 next.unheld.2 rfl rfl rfl (Or.inr next.greets.1) ⟨rfl, rfl⟩
  | relays at_ => exact order.relays shape lined at_
  | drainWritesOn at_ short => exact order.drainWritesOn lined at_ short
  | drainEnds at_ whole =>
    exact order.drainReturns (draining_of at_ rfl) (drained at_ whole) rfl (pending_finish lined at_ rfl rfl) rfl rfl
      rfl ⟨rfl, rfl⟩
  | drains at_ whole opened => exact order.drains shape lined at_ whole opened ⟨rfl, rfl⟩
  | @parks n at_ =>
    obtain ⟨pcb, eq, _⟩ := c.writeLocal_eq n room
    rw [eq]
    exact order.ends lined at_ (fun _ _ h => nomatch h) rfl rfl rfl rfl rfl ⟨rfl, rfl⟩
  | @downloads n at_ =>
    obtain ⟨pcb, eq, _⟩ := c.writeLocal_eq n room
    rw [eq]
    exact order.goesOn lined at_ (fun _ _ h => nomatch h) (fun _ _ h => nomatch h) rfl rfl rfl (Or.inl ⟨rfl, rfl⟩)
      ⟨rfl, rfl⟩
  | startDangles _ touches => exact order.congr rfl rfl rfl rfl (Or.inl rfl) (touches.quiet.append ⟨rfl, rfl⟩)
  | writerFailed at_ =>
    rcases order with intact | stalled
    · exact absurd at_ (intact.writers _ _)
    · exact Or.inr (stalled.writerFailed shape at_)
  | writerWritesOn at_ short => exact order.writerWritesOn shape lined at_ short
  | writerEnds at_ whole => exact order.writerEnds shape lined at_ whole
  | writerFollows at_ whole opened _ chained =>
    have empty := flat _ (List.mem_of_getElem? (points_of_completed at_))
    rw [chained, List.flatten_cons] at empty
    rw [(List.append_eq_nil_iff.mp empty).1]
    exact order.writerFollows shape lined at_ whole opened ⟨rfl, rfl⟩
  | writerPops at_ whole opened => exact order.writerPops shape lined at_ whole opened ⟨rfl, rfl⟩
  | writerDangles | readerDangles | readerFailed | readerEnds =>
    exact order.congr rfl rfl rfl rfl (Or.inl rfl) ⟨rfl, rfl⟩
  | @readerParks j n | @readerReads j n =>
    obtain ⟨pcb, eq, _⟩ := c.writeLocal_eq n room
    rw [eq]
    exact order.congr rfl rfl rfl rfl (Or.inl rfl) ⟨rfl, rfl⟩

/-- The session goes when nothing is written any more. -/
theorem InOrder.reap (order : InOrder tr c) (shape : Shape c) : InOrder (tr ++ c.reap.2) c.reap.1 := by
  have quiet := c.quiet_reap
  unfold Conn.reap at quiet ⊢
  split
  · next done =>
    rw [if_pos done] at quiet
    obtain ⟨_, _, start, writers, _⟩ := done
    have start : c.start = .finished := isFinished_iff.mp start
    have ended : c.start.point? = none := point?_eq_none.mpr start
    have returned : ∀ t ∈ c.writers, t = .finished := fun t ht => isFinished_iff.mp (List.all_eq_true.mp writers t ht)
    refine Or.inr ⟨?_, ?_, ?_, ?_, Or.inl ⟨shape.ended ended, ?_⟩⟩
    · rw [quiet.uploaded, quiet.proxied]
      exact order.ordered
    · rintro ⟨p, at_, _⟩
      cases ended.symm.trans at_
    · exact fun front sent h => nomatch start.symm.trans h
    · intro j point h
      cases returned _ (List.mem_of_getElem? h)
    · refine List.append_eq_nil_iff.mpr ⟨by rw [start]; rfl, List.flatMap_eq_nil_iff.mpr fun t ht => ?_⟩
      rw [returned t ht]
      rfl
  · rw [List.append_nil]
    exact order

end Coroutines

/-! ### Whole runs -/

/-- The invariant of the upload. -/
structure Uploads (tr : List TcpEvent) (c : Conn) : Prop where
  shape : Shape c
  lined : Lined c
  flat : c.Flat
  order : InOrder tr c
  hailed : Hailed tr c

private theorem uploads_init {c : Conn} (h : connMachine.Init c) : Uploads [] c := by
  have shape := shape_init h
  have hailed := hailed_init h
  obtain ⟨localIp, localPort, buff, opened, _, _, rfl⟩ := h
  refine ⟨shape, ⟨List.nodup_nil, fun h => absurd h List.not_mem_nil, fun _ h => absurd h List.not_mem_nil⟩,
    fun _ h => absurd h List.not_mem_nil, Or.inl ⟨?_, ?_, ?_, ?_⟩, hailed⟩
  · cases opened <;> rfl
  · cases opened <;> exact fun _ _ h => nomatch h
  · exact fun _ _ h => nomatch h
  · cases opened <;> exact fun _ => rfl

private theorem uploads_callbacks {tr evs : List TcpEvent} {c c' : Conn} {seg : Segment}
    (chain : Chain (Callback seg) c evs c') (uploads : Uploads tr c) (settled : seg.data ≠ none → ¬ c.ShortDrain) :
    Uploads (tr ++ evs) c' := by
  refine (chain.preserves (fun tr c => Uploads tr c ∧ (seg.data ≠ none → ¬ c.ShortDrain)) ?_ tr ⟨uploads, settled⟩).1
  rintro tr c evs c' ⟨⟨shape, lined, flat, order, hailed⟩, settled⟩ move
  exact ⟨⟨move.shape shape, move.lined lined, move.flat shape flat, move.inOrder order shape lined settled,
    move.hailed hailed shape⟩, fun carries => move.settled (settled carries)⟩

private theorem uploads_tcpStep {tr evs : List TcpEvent} {c c' : Conn} {a : TcpAct} (uploads : Uploads tr c)
    (step : TcpStep c a evs c') (keeps : c.KeepsOrder a) : Uploads (tr ++ evs) c' := by
  cases step with
  | input chain => exact uploads_callbacks chain uploads keeps
  | reset chain => exact uploads_callbacks chain uploads (fun carries => absurd rfl carries)
  | socket move =>
    obtain ⟨shape, lined, flat, order, hailed⟩ := uploads
    exact ⟨move.shape shape, move.lined lined, move.flat flat, move.inOrder order shape lined keeps,
      move.hailed hailed shape⟩
  | resumed move =>
    obtain ⟨shape, lined, flat, order, hailed⟩ := uploads
    exact ⟨move.shape shape, move.lined lined, move.flat shape flat, move.inOrder order shape lined flat,
      move.hailed hailed⟩

private theorem Uploads.reap {tr : List TcpEvent} {c : Conn} (uploads : Uploads tr c) :
    Uploads (tr ++ c.reap.2) c.reap.1 := by
  obtain ⟨shape, lined, flat, order, hailed⟩ := uploads
  obtain ⟨destroyed, pbufQueue, eq⟩ := c.reap_eq
  refine ⟨shape_reap shape, ?_, ?_, order.reap shape, hailed.reap⟩
  · rw [eq]
    exact ⟨lined.nodup, lined.start, lined.writer⟩
  · rw [eq]
    exact flat

private theorem uploads_step {tr out : List TcpEvent} {c c' : Conn} {a : TcpAct} (uploads : Uploads tr c)
    (h : connMachine.step c a = some (c', out)) (keeps : c.KeepsOrder a) : Uploads (tr ++ out) c' := by
  obtain ⟨_, mid, evs, step, rfl, rfl⟩ := tcpStep_of_step h
  rw [← List.append_assoc]
  exact (uploads_tcpStep uploads step keeps).reap

/-- In every run that keeps the drain loop and the writers apart, what the remote socket has
accepted behind the two requests is a prefix of the packets passed to `ProxyTcpPacket`. -/
theorem uploads_in_order {ts : List (Transition Conn TcpAct TcpEvent)} {c : Conn} (run : connMachine.Run ts c)
    (keeps : ∀ t ∈ ts, t.pre.KeepsOrder t.act) :
    (acceptedBytes (Machine.trace ts)).drop 13 <+: proxiedBytes (Machine.trace ts) := by
  have uploads := run.guarded_trace (fun t => t.pre.KeepsOrder t.act) Uploads (fun _ => uploads_init)
    (fun _ _ _ _ _ uploads h keeps => uploads_step uploads h keeps) keeps
  rw [uploads.hailed.drop_accepted]
  exact uploads.order.ordered

/-- A segment of local data. -/
def localData (data : List UInt8) : TcpAct := .input ⟨0, false, some ⟨data, []⟩, false⟩

/-- A packet that arrives before the handshake is drained in two writes, and one that
arrives later gets a writer. -/
theorem uploads_in_order_drained : ∃ ts c, connMachine.Run ts c ∧ (∀ t ∈ ts, t.pre.KeepsOrder t.act) ∧
    (acceptedBytes (Machine.trace ts)).drop 13 = [1, 2, 3, 4] ∧
    (acceptedBytes (Machine.trace ts)).drop 13 <+: proxiedBytes (Machine.trace ts) := by
  obtain ⟨ts, c, run, facts⟩ := Machine.Run.exists_of_exec connMachine webConn
    ([localData [1, 2]] ++ greeting ++ [.accept 1, .resume .start .free, .accept 1, .resume .start .free,
      localData [3, 4], .accept 2, .resume (.writer 0) .free])
    (fun ts _ => decide ((∀ t ∈ ts, t.pre.KeepsOrder t.act) ∧
      (acceptedBytes (Machine.trace ts)).drop 13 = [1, 2, 3, 4])) webConn_init (by decide +kernel)
  obtain ⟨keeps, accepted⟩ := of_decide_eq_true facts
  exact ⟨ts, c, run, keeps, accepted, uploads_in_order run keeps⟩

/-- A packet arrives between a short write of the drain loop and its handler: its writer
goes first, and the rest of the drained packet comes behind it. -/
theorem writer_overtakes_drain : ∃ ts c, connMachine.Run ts c ∧
    ¬ (acceptedBytes (Machine.trace ts)).drop 13 <+: proxiedBytes (Machine.trace ts) := by
  obtain ⟨ts, c, run, facts⟩ := Machine.Run.exists_of_exec connMachine webConn
    ([localData [1, 2]] ++ greeting ++ [.accept 1, localData [3, 4], .resume .start .free, .accept 2, .accept 1])
    (fun ts _ => decide ((acceptedBytes (Machine.trace ts)).drop 13 = [1, 3, 4, 2] ∧
      proxiedBytes (Machine.trace ts) = [1, 2, 3, 4])) webConn_init (by decide +kernel)
  obtain ⟨accepted, proxied⟩ := of_decide_eq_true facts
  refine ⟨ts, c, run, ?_⟩
  rw [accepted, proxied]
  decide

end Tunosocks.Tcp
