import Tunosocks.Tcp.WriteQueue

/-! The order in which the remote socket accepts the bytes of local packets, while the
drain loop of `handleRemoteRead` and the writer of `ProxyTcpPacket` pop one queue. -/
namespace Tunosocks.Tcp
open Foundation Coroutine

/-- The bytes of local packets the remote socket has accepted. -/
def uploadedBytes (tr : List TcpEvent) : List UInt8 :=
  tr.flatMap fun
    | .uploaded data => data
    | _ => []

/-- The bytes of the packets passed to `ProxyTcpPacket`. -/
def proxiedBytes (tr : List TcpEvent) : List UInt8 :=
  tr.flatMap fun
    | .proxied p => p.bytes
    | _ => []

namespace Conn

def backlog (c : Conn) : List UInt8 := c.pbufQueue.flatMap Pbuf.bytes

/-- The drain loop holds a packet. -/
def Draining (c : Conn) : Prop := ∃ front sent, c.start.point? = some (.drainWrite front sent)

/-- The drain loop and a writer both hold a packet. -/
def Overlap (c : Conn) : Prop := c.Draining ∧ ¬ AllGone c.writing

/-- The drain loop has a short or failed write to take up. -/
def ShortDrain (c : Conn) : Prop :=
  c.status = .relaying ∧ ∃ front sent r, c.start = .completed (.drainWrite front sent) r ∧
    ∀ n, r = .ok n → sent + n < front.len

instance (c : Conn) : Decidable c.Draining :=
  decidable_of_iff (c.start.point?.any fun | .drainWrite .. => true | _ => false) <| by
    rw [Option.any_eq_true]
    constructor
    · rintro ⟨p, at_, holds⟩
      cases p <;> cases holds
      exact ⟨_, _, at_⟩
    · rintro ⟨front, sent, at_⟩
      exact ⟨_, at_, rfl⟩

instance (c : Conn) : Decidable c.Overlap := inferInstanceAs (Decidable (_ ∧ ¬ _))

instance (c : Conn) : Decidable c.ShortDrain :=
  match h : c.start with
  | .completed (.drainWrite front sent) (.ok n) =>
    decidable_of_iff (c.status = .relaying ∧ sent + n < front.len) <| by
      refine and_congr_right fun _ => ⟨fun short => ⟨front, sent, _, h, fun m eq => Completion.ok.inj eq ▸ short⟩, ?_⟩
      rintro ⟨_, _, _, at_, short⟩
      cases h.symm.trans at_
      exact short n rfl
  | .completed (.drainWrite front sent) .error =>
    decidable_of_iff (c.status = .relaying) <| by
      exact ⟨fun relaying => ⟨relaying, front, sent, _, h, fun _ eq => nomatch eq⟩, And.left⟩
  | .completed .connect _ | .completed (.methodWrite _) _ | .completed .methodRead _ | .completed (.requestWrite _) _
  | .completed (.requestRead _) _ | .completed .downloadRead _ | .suspended _ | .finished =>
    isFalse fun ⟨_, _, _, _, at_, _⟩ => nomatch h.symm.trans at_

end Conn

/-- Every byte passed on is accepted, in a write, or queued, in this order. -/
structure Intact (tr : List TcpEvent) (c : Conn) : Prop where
  bytes : uploadedBytes tr ++ (c.pending ++ (c.resting ++ c.backlog)) = proxiedBytes tr
  start : ∀ front sent, c.start ≠ .completed (.drainWrite front sent) .error
  writers : ∀ (j : Nat) (point : WriterPoint), c.writers[j]? ≠ some (.completed point .error)
  whole : c.Overlap → c.resting = []

/-- The one packet in a write is lost. -/
def Conn.Failed (c : Conn) : Prop :=
  (∃ front sent, c.start = .completed (.drainWrite front sent) .error) ∧ AllGone c.writing ∨
    ¬ c.Draining ∧ ∃ (j : Nat) (point : WriterPoint), c.writers[j]? = some (.completed point .error)

/-- Nothing more will be written. -/
structure Stalled (tr : List TcpEvent) (c : Conn) : Prop where
  ordered : uploadedBytes tr <+: proxiedBytes tr
  past : ¬ c.Greeting
  start : ∀ front sent, c.start ≠ .suspended (.drainWrite front sent)
  writers : ∀ (j : Nat) (point : WriterPoint), c.writers[j]? ≠ some (.suspended point)
  stuck : c.status = .close ∧ c.resting = [] ∨ c.Failed

def InOrder (tr : List TcpEvent) (c : Conn) : Prop := Intact tr c ∨ Stalled tr c

@[simp] theorem uploadedBytes_append (tr evs : List TcpEvent) :
    uploadedBytes (tr ++ evs) = uploadedBytes tr ++ uploadedBytes evs := List.flatMap_append

@[simp] theorem proxiedBytes_append (tr evs : List TcpEvent) :
    proxiedBytes (tr ++ evs) = proxiedBytes tr ++ proxiedBytes evs := List.flatMap_append

theorem proxiedBytes_one (p : Pbuf) : proxiedBytes [.proxied p] = p.bytes := List.append_nil _

theorem Intact.ordered {tr : List TcpEvent} {c : Conn} (intact : Intact tr c) : uploadedBytes tr <+: proxiedBytes tr :=
  ⟨_, intact.bytes⟩

theorem InOrder.ordered {tr : List TcpEvent} {c : Conn} (order : InOrder tr c) : uploadedBytes tr <+: proxiedBytes tr :=
  order.elim Intact.ordered Stalled.ordered

theorem Pbuf.flat_of_simple {p : Pbuf} (simple : p.len = p.totLen) : p.next.flatten = [] := by
  simp only [len, totLen, bytes, List.length_append] at simple
  exact List.length_eq_zero_iff.mp (by omega)

theorem Pbuf.bytes_of_simple {p : Pbuf} (simple : p.len = p.totLen) : p.bytes = p.payload := by
  rw [bytes, flat_of_simple simple, List.append_nil]

section Frame
variable {tr evs : List TcpEvent} {c c' : Conn}

/-- Events that move no local data. -/
def Quiet (evs : List TcpEvent) : Prop := uploadedBytes evs = [] ∧ proxiedBytes evs = []

theorem Quiet.uploaded (quiet : Quiet evs) : uploadedBytes (tr ++ evs) = uploadedBytes tr := by
  rw [uploadedBytes_append, quiet.1, List.append_nil]

theorem Quiet.proxied (quiet : Quiet evs) : proxiedBytes (tr ++ evs) = proxiedBytes tr := by
  rw [proxiedBytes_append, quiet.2, List.append_nil]

theorem Conn.quiet_reap (c : Conn) : Quiet c.reap.2 := by
  constructor
  · refine List.flatMap_eq_nil_iff.mpr fun e he => ?_
    rcases c.mem_reap he with rfl | ⟨p, rfl⟩ <;> rfl
  · refine List.flatMap_eq_nil_iff.mpr fun e he => ?_
    rcases c.mem_reap he with rfl | ⟨p, rfl⟩ <;> rfl

private theorem left_congr (start : c'.start = c.start) (writers : c'.writers = c.writers) : c'.left = c.left := by
  funext id
  cases id with
  | start => simp only [Conn.left, start]
  | writer j => simp only [Conn.left, writers]
  | reader j => rfl

/-- Moves that leave the coroutines that write alone keep the order. -/
theorem InOrder.congr (order : InOrder tr c) (start : c'.start = c.start) (writers : c'.writers = c.writers)
    (queue : c'.writeQueue = c.writeQueue) (packets : c'.pbufQueue = c.pbufQueue)
    (status : c'.status = c.status ∨ c'.status = .close) (quiet : Quiet evs) : InOrder (tr ++ evs) c' := by
  have pending : c'.pending = c.pending := by rw [Conn.pending, Conn.pending, queue, left_congr start writers]
  have resting : c'.resting = c.resting := by rw [Conn.resting, Conn.resting, start, writers]
  have writing : c'.writing = c.writing := by rw [Conn.writing, Conn.writing, writers]
  have draining : c'.Draining ↔ c.Draining := by rw [Conn.Draining, Conn.Draining, start]
  refine order.imp (fun intact => ?_) (fun stalled => ?_)
  · constructor
    · rw [quiet.uploaded, quiet.proxied, pending, resting, Conn.backlog, packets]
      exact intact.bytes
    · rw [start]
      exact intact.start
    · rw [writers]
      exact intact.writers
    · rw [Conn.Overlap, draining, writing, resting]
      exact intact.whole
  · constructor
    · rw [quiet.uploaded, quiet.proxied]
      exact stalled.ordered
    · rw [Conn.Greeting, start]
      exact stalled.past
    · rw [start]
      exact stalled.start
    · rw [writers]
      exact stalled.writers
    · rw [Conn.Failed, start, writing, draining, writers, resting]
      exact stalled.stuck.imp_left fun h => ⟨status.elim (fun eq => eq.trans h.1) id, h.2⟩

theorem startRest_eq_nil (idle : ¬ c.Draining) : startRest c.start = [] := by
  cases h : c.start with
  | completed p r =>
    cases p with
    | drainWrite front sent => exact absurd ⟨front, sent, by rw [h]; rfl⟩ idle
    | _ => cases r <;> rfl
  | _ => rfl

theorem not_draining {p : StartPoint} (at_ : c.start.point? = some p)
    (h : ∀ front sent, p ≠ .drainWrite front sent) : ¬ c.Draining := by
  rintro ⟨front, sent, at'⟩
  exact h front sent (Option.some.inj (at_.symm.trans at'))

/-- The coroutine of `Start` holds nothing back and goes to a point that holds no packet. -/
private theorem Intact.of_start (intact : Intact tr c) (after : ¬ c'.Draining) (resting : c'.resting = c.resting)
    (writers : c'.writers = c.writers) (pending : c'.pending = c.pending) (packets : c'.pbufQueue = c.pbufQueue)
    (quiet : Quiet evs) : Intact (tr ++ evs) c' := by
  constructor
  · rw [quiet.uploaded, quiet.proxied, pending, resting, Conn.backlog, packets]
    exact intact.bytes
  · exact fun front sent h => after ⟨front, sent, point?_of_completed h⟩
  · rw [writers]
    exact intact.writers
  · exact fun overlap => absurd overlap.1 after

/-- The coroutine of `Start` moves between points that hold no packet. -/
theorem InOrder.of_start (order : InOrder tr c) (before : ¬ c.Draining) (after : ¬ c'.Draining)
    (writers : c'.writers = c.writers) (pending : c'.pending = c.pending) (packets : c'.pbufQueue = c.pbufQueue)
    (past : ¬ c.Greeting → ¬ c'.Greeting) (status : ¬ c.Greeting → c.status = .close → c'.status = .close)
    (quiet : Quiet evs) : InOrder (tr ++ evs) c' := by
  have resting : c'.resting = c.resting := by
    rw [Conn.resting, Conn.resting, writers, startRest_eq_nil before, startRest_eq_nil after]
  refine order.imp (fun intact => intact.of_start after resting writers pending packets quiet) (fun stalled => ?_)
  constructor
  · rw [quiet.uploaded, quiet.proxied]
    exact stalled.ordered
  · exact past stalled.past
  · exact fun front sent h => after ⟨front, sent, by rw [h]; rfl⟩
  · rw [writers]
    exact stalled.writers
  · rw [resting]
    refine stalled.stuck.imp (fun h => ⟨status stalled.past h.1, h.2⟩) ?_
    rintro (⟨⟨front, sent, h⟩, _⟩ | ⟨_, failed⟩)
    · exact absurd ⟨front, sent, point?_of_completed h⟩ before
    · rw [Conn.Failed, writers]
      exact Or.inr ⟨after, failed⟩

end Frame

/-! ### The drain loop -/

section Drain
variable {tr : List TcpEvent} {c : Conn} {front : Pbuf} {sent n : Nat}

theorem rest_of_gone (gone : AllGone c.writing) : c.writers.flatMap writerRest = [] := gone.flatMap rfl

private theorem left_of_gone (gone : AllGone c.writing) (j : Nat) : c.left (.writer j) = [] := by
  simp only [Conn.left]
  cases h : c.writers[j]? with
  | none => rfl
  | some t =>
    cases t with
    | suspended point => exact absurd (by rw [Conn.writing, List.getElem?_map, h]; rfl) (gone j point)
    | _ => rfl

private theorem pending_of_gone (gone : AllGone c.writing) {queue : List CoroId} (absent : .start ∉ queue) :
    queue.flatMap c.left = [] := by
  refine List.flatMap_eq_nil_iff.mpr fun id h => ?_
  cases id with
  | start => exact absurd h absent
  | writer j => exact left_of_gone gone j
  | reader j => rfl

theorem draining_of {t : Coroutine StartPoint} (at_ : c.start = t)
    (h : t.point? = some (.drainWrite front sent)) : c.Draining := ⟨front, sent, by rw [at_, h]⟩

theorem Intact.drainAccepts (intact : Intact tr c) (lined : Lined c) {rest : List CoroId}
    (oldest : c.writeQueue = .start :: rest) (at_ : c.start = .suspended (.drainWrite front sent))
    (whole : c.Overlap → (front.payload.drop sent).length ≤ n) :
    Intact (tr ++ [.uploaded ((front.payload.drop sent).take n)])
      { c with writeQueue := rest, start := .completed (.drainWrite front sent) (.ok n) } := by
  have nodup := lined.nodup
  rw [oldest] at nodup
  have absent : .start ∉ rest := (List.nodup_cons.mp nodup).1
  have drains : c.Draining := draining_of at_ rfl
  have pending : c.pending = front.payload.drop sent ++ rest.flatMap c.left := by
    rw [Conn.pending, oldest, List.flatMap_cons, Conn.left, at_]
    rfl
  have resting : c.resting = c.writers.flatMap writerRest := by
    rw [Conn.resting, at_]
    rfl
  have bytes := intact.bytes
  rw [pending, resting] at bytes
  have kept : Conn.pending { c with writeQueue := rest, start := .completed (.drainWrite front sent) (.ok n) } =
      rest.flatMap c.left :=
    List.flatMap_congr fun id h => Conn.left_of_start_absent (by rfl) fun eq => absent (eq ▸ h)
  have left : Conn.resting { c with writeQueue := rest, start := .completed (.drainWrite front sent) (.ok n) } =
      (front.payload.drop sent).drop n ++ c.writers.flatMap writerRest := by
    rw [List.drop_drop]
    rfl
  constructor
  · rw [uploadedBytes_append, proxiedBytes_append, kept, left]
    simp only [uploadedBytes, proxiedBytes, List.flatMap_singleton, List.append_nil] at bytes ⊢
    rw [← bytes]
    by_cases overlap : c.Overlap
    · rw [List.take_of_length_le (whole overlap), List.drop_of_length_le (whole overlap)]
      simp only [List.append_assoc, List.nil_append]
      rfl
    · have gone : AllGone c.writing := not_not.mp fun h => overlap ⟨drains, h⟩
      rw [pending_of_gone gone absent, rest_of_gone gone, List.nil_append, List.append_nil, List.append_nil]
      conv_rhs => rw [← List.take_append_drop n (front.payload.drop sent)]
      simp only [List.append_assoc, List.nil_append]
      rfl
  · intro _ _ h
    cases h
  · exact intact.writers
  · intro overlap
    have before : c.Overlap := ⟨drains, overlap.2⟩
    have none_ := intact.whole before
    rw [resting] at none_
    rw [left, none_, List.drop_of_length_le (whole before)]
    rfl

theorem not_greeting_of_draining (drains : c.Draining) : ¬ c.Greeting := by
  rintro ⟨p, at_, greets⟩
  obtain ⟨front, sent, at'⟩ := drains
  cases at_.symm.trans at'
  cases greets

private theorem not_suspended_of_gone (gone : AllGone c.writing) (j : Nat) (point : WriterPoint) :
    c.writers[j]? ≠ some (.suspended point) := by
  intro h
  exact gone j point (by rw [Conn.writing, List.getElem?_map, h]; rfl)

theorem Intact.drainFails (intact : Intact tr c) {rest : List CoroId}
    (at_ : c.start = .suspended (.drainWrite front sent)) (alone : ¬ c.Overlap) :
    Stalled (tr ++ []) { c with writeQueue := rest, start := .completed (.drainWrite front sent) .error } := by
  have gone : AllGone c.writing := not_not.mp fun h => alone ⟨draining_of at_ rfl, h⟩
  constructor
  · rw [List.append_nil]
    exact intact.ordered
  · exact not_greeting_of_draining ⟨front, sent, rfl⟩
  · exact fun _ _ h => nomatch h
  · exact not_suspended_of_gone gone
  · exact Or.inr (Or.inl ⟨⟨front, sent, rfl⟩, gone⟩)

/-- The drain loop returns, having sent its packet or lost it. -/
theorem InOrder.drainReturns {evs : List TcpEvent} {c' : Conn} (order : InOrder tr c) (drains : c.Draining)
    (nothing : startRest c.start = []) (writers : c'.writers = c.writers) (pending : c'.pending = c.pending)
    (packets : c'.pbufQueue = c.pbufQueue) (start : c'.start = .finished) (status : c'.status = .close)
    (quiet : Quiet evs) : InOrder (tr ++ evs) c' := by
  have after : ¬ c'.Draining := by
    rintro ⟨front, sent, h⟩
    rw [start] at h
    cases h
  have resting : c'.resting = c.resting := by
    rw [Conn.resting, Conn.resting, writers, nothing, startRest_eq_nil after]
  refine order.imp (fun intact => intact.of_start after resting writers pending packets quiet) (fun stalled => ?_)
  have none_ : c.resting = [] := by
    rcases stalled.stuck with ⟨_, none_⟩ | ⟨_, gone⟩ | ⟨off, _⟩
    · exact none_
    · rw [Conn.resting, nothing, rest_of_gone gone, List.nil_append]
    · exact absurd drains off
  constructor
  · rw [quiet.uploaded, quiet.proxied]
    exact stalled.ordered
  · rintro ⟨p, h, _⟩
    rw [start] at h
    cases h
  · intro front sent h
    cases start.symm.trans h
  · rw [writers]
    exact stalled.writers
  · exact Or.inl ⟨status, resting.trans none_⟩

theorem InOrder.drainWritesOn (order : InOrder tr c) (lined : Lined c)
    (at_ : c.start = .completed (.drainWrite front sent) (.ok n)) (short : sent + n < front.len) :
    InOrder (tr ++ []) (c.awaitStart (.drainWrite front (sent + n))) := by
  have drains : c.Draining := draining_of at_ rfl
  have more : front.payload.drop (sent + n) ≠ [] := by
    intro h
    have size := congrArg List.length h
    simp only [List.length_drop, List.length_nil, Pbuf.len] at size short
    omega
  have resting : c.resting = front.payload.drop (sent + n) ++ c.writers.flatMap writerRest := by
    rw [Conn.resting, at_]
    rfl
  rcases order with intact | stalled
  · have gone : AllGone c.writing := by
      refine not_not.mp fun h => more ?_
      have none_ := intact.whole ⟨drains, h⟩
      rw [resting] at none_
      exact (List.append_eq_nil_iff.mp none_).1
    have absent := lined.not_mem_start at_
    have bytes := intact.bytes
    rw [resting, rest_of_gone gone, Conn.pending, pending_of_gone gone absent, List.append_nil,
      List.nil_append] at bytes
    refine Or.inl ⟨?_, ?_, intact.writers, ?_⟩
    · rw [List.append_nil, Conn.pending_awaitStart absent, Conn.resting_awaitStart, rest_of_gone gone, Conn.pending,
        pending_of_gone gone absent]
      exact bytes
    · intro front' sent' h
      have waits : (c.awaitStart (.drainWrite front (sent + n))).start = .suspended (.drainWrite front (sent + n)) :=
        if_neg fun eq => more (Option.some.inj eq)
      cases waits.symm.trans h
    · exact fun overlap => absurd gone overlap.2
  · rcases stalled.stuck with ⟨_, none_⟩ | ⟨⟨_, _, failed⟩, _⟩ | ⟨off, _⟩
    · rw [resting] at none_
      exact absurd (List.append_eq_nil_iff.mp none_).1 more
    · cases at_.symm.trans failed
    · exact absurd drains off

/-- The drain loop pops the next packet, or goes on to the download. -/
theorem Intact.drainLoop {evs : List TcpEvent} {d : Conn} (intact : Intact tr c)
    (absent : .start ∉ c.writeQueue) (resting : c.resting = []) (simple : ∀ p ∈ c.pbufQueue, p.len = p.totLen)
    (start : d.start = c.start) (writers : d.writers = c.writers) (queue : d.writeQueue = c.writeQueue)
    (packets : d.pbufQueue = c.pbufQueue) (quiet : Quiet evs) : Intact (tr ++ evs) d.drainLoop.1 := by
  have none_ : d.writers.flatMap writerRest = [] := by
    rw [Conn.resting] at resting
    rw [writers]
    exact (List.append_eq_nil_iff.mp resting).2
  have same : d.pending = c.pending := by rw [Conn.pending, Conn.pending, queue, left_congr start writers]
  have bytes := intact.bytes
  rw [resting, List.nil_append] at bytes
  rcases d.drainLoop_cases with ⟨empty, loop⟩ | ⟨front, rest, popped, ⟨_, loop⟩ | ⟨chained, _⟩⟩
  · rw [loop]
    have idle : ¬ (d.awaitStart .downloadRead).Draining :=
      not_draining (Conn.point?_awaitStart _ _) (by simp)
    have left : (d.awaitStart .downloadRead).pending = c.pending :=
      ((Conn.pending_awaitStart (queue ▸ absent) _).trans (List.append_nil _)).trans same
    constructor
    · rw [quiet.uploaded, quiet.proxied, left,
        Conn.resting_awaitStart, none_, List.nil_append]
      rw [Conn.backlog, ← packets] at bytes
      exact bytes
    · exact fun front sent h => idle ⟨front, sent, point?_of_completed h⟩
    · exact writers ▸ intact.writers
    · exact fun overlap => absurd overlap.1 idle
  · rw [loop]
    rw [packets] at popped
    have front_bytes : front.bytes = front.payload := Pbuf.bytes_of_simple (simple front (popped ▸ List.mem_cons_self))
    rw [Conn.backlog, popped, List.flatMap_cons, front_bytes] at bytes
    have waits : (Conn.awaitStart { d with pbufQueue := rest } (.drainWrite front 0)).resting = [] :=
      (Conn.resting_awaitStart _).trans none_
    have left : (Conn.awaitStart { d with pbufQueue := rest } (.drainWrite front 0)).pending =
        c.pending ++ front.payload := by
      rw [Conn.pending_awaitStart (queue ▸ absent), ← same]
      rfl
    constructor
    · rw [quiet.uploaded, quiet.proxied, waits, left,
        List.nil_append, List.append_assoc]
      exact bytes
    · intro front' sent' h
      obtain ⟨_, error, _⟩ := Conn.completed_awaitStart h
      cases error
    · exact writers ▸ intact.writers
    · exact fun _ => waits
  · rw [packets] at popped
    exact absurd (simple front (popped ▸ List.mem_cons_self)) chained

/-- A drain loop whose packet is sent holds nothing back, and no writer does. -/
theorem Intact.resting_of_drained (intact : Intact tr c) (drains : c.Draining)
    (nothing : startRest c.start = []) : c.resting = [] := by
  by_cases gone : AllGone c.writing
  · rw [Conn.resting, nothing, rest_of_gone gone, List.nil_append]
  · exact intact.whole ⟨drains, gone⟩

end Drain

/-! ### The writer -/

section Writer
variable {tr : List TcpEvent} {c : Conn} {j n : Nat} {point : WriterPoint}

theorem busy_of {t : Coroutine WriterPoint} (at_ : c.writers[j]? = some t) (live : t.point? = some point) :
    ¬ AllGone c.writing := by
  intro gone
  exact gone j point (by rw [Conn.writing, List.getElem?_map, at_, Option.map_some, live])

theorem not_greeting_of_busy (shape : Shape c) (busy : ¬ AllGone c.writing) : ¬ c.Greeting := by
  intro greets
  rw [(shape.greeting greets).1] at busy
  exact busy AllGone.nil

theorem startLeft_eq_nil (idle : ¬ c.Draining) : c.left .start = [] := by
  rw [Conn.left]
  cases h : c.start with
  | suspended p =>
    cases p with
    | drainWrite front sent => exact absurd ⟨front, sent, by rw [h]; rfl⟩ idle
    | _ => rfl
  | _ => rfl

/-- While a writer is the only one that holds a packet, nothing else is pending. -/
private theorem pending_of_alone (shape : Shape c) (idle : ¬ c.Draining) {t : Coroutine WriterPoint}
    (at_ : c.writers[j]? = some t) (live : t.point? = some point) {queue : List CoroId} (absent : .writer j ∉ queue) :
    queue.flatMap c.left = [] := by
  refine List.flatMap_eq_nil_iff.mpr fun id h => ?_
  cases id with
  | start => exact startLeft_eq_nil idle
  | reader k => rfl
  | writer k =>
    have other : j ≠ k := by
      rintro rfl
      exact absent h
    have gone : ((c.writers.set j .finished).map point?)[k]? = c.writing[k]? := by
      rw [List.map_set, List.getElem?_set_ne other]
      rfl
    simp only [Conn.left]
    cases hk : c.writers[k]? with
    | none => rfl
    | some u =>
      cases u with
      | suspended point' =>
        refine absurd (shape.writers j k point point' ?_ ?_) other
        · rw [Conn.writing, List.getElem?_map, at_, Option.map_some, live]
        · rw [Conn.writing, List.getElem?_map, hk]
          rfl
      | _ => rfl

/-- An entry of a list in which one entry was replaced. -/
private theorem of_set {α : Type} {l : List α} {k : Nat} {t u : α} (h : (l.set j t)[k]? = some u) :
    u = t ∨ j ≠ k ∧ l[k]? = some u := by
  by_cases same : j = k
  · subst same
    have bound := (List.getElem?_eq_some_iff.mp h).1
    rw [List.length_set] at bound
    rw [List.getElem?_set_self bound] at h
    exact Or.inl (Option.some.inj h).symm
  · rw [List.getElem?_set_ne same] at h
    exact Or.inr ⟨same, h⟩

theorem Intact.writerAccepts (intact : Intact tr c) (shape : Shape c) (lined : Lined c) {rest : List CoroId}
    (oldest : c.writeQueue = .writer j :: rest) (at_ : c.writers[j]? = some (.suspended point))
    (whole : c.Overlap → point.offered.length ≤ n) :
    Intact (tr ++ [.uploaded (point.offered.take n)])
      { c with writeQueue := rest, writers := c.writers.set j (.completed point (.ok n)) } := by
  have nodup := lined.nodup
  rw [oldest] at nodup
  have absent : .writer j ∉ rest := (List.nodup_cons.mp nodup).1
  have busy : ¬ AllGone c.writing := busy_of at_ rfl
  have pending : c.pending = point.offered ++ rest.flatMap c.left := by
    rw [Conn.pending, oldest, List.flatMap_cons, Conn.left, at_]
    rfl
  have resting : c.resting = startRest c.start := by
    rw [Conn.resting, shape.writers.flatMap at_ rfl rfl]
    exact List.append_nil _
  have bytes := intact.bytes
  rw [pending, resting] at bytes
  have kept : Conn.pending { c with writeQueue := rest, writers := c.writers.set j (.completed point (.ok n)) } =
      rest.flatMap c.left :=
    List.flatMap_congr fun id h => Conn.left_of_writer_absent (by rfl) (by rfl) fun eq => absent (eq ▸ h)
  have left : Conn.resting { c with writeQueue := rest, writers := c.writers.set j (.completed point (.ok n)) } =
      startRest c.start ++ point.offered.drop n := by
    rw [Conn.resting, shape.writers.flatMap_set at_ rfl _ rfl, WriterPoint.offered, List.drop_drop]
    rfl
  have same : Conn.Overlap { c with writeQueue := rest, writers := c.writers.set j (.completed point (.ok n)) } →
      c.Overlap := fun overlap => ⟨overlap.1, busy⟩
  constructor
  · rw [uploadedBytes_append, proxiedBytes_append, kept, left]
    simp only [uploadedBytes, proxiedBytes, List.flatMap_singleton, List.append_nil] at bytes ⊢
    rw [← bytes]
    by_cases overlap : c.Overlap
    · rw [List.take_of_length_le (whole overlap), List.drop_of_length_le (whole overlap)]
      simp only [List.append_assoc, List.append_nil]
      rfl
    · have idle : ¬ c.Draining := fun drains => overlap ⟨drains, busy⟩
      rw [pending_of_alone shape idle at_ rfl absent, startRest_eq_nil idle, List.nil_append, List.append_nil]
      conv_rhs => rw [← List.take_append_drop n point.offered]
      simp only [List.append_assoc, List.nil_append]
      rfl
  · exact intact.start
  · intro k point' h
    rcases of_set h with eq | ⟨_, old⟩
    · cases eq
    · exact intact.writers k point' old
  · intro overlap
    have none_ := intact.whole (same overlap)
    rw [resting] at none_
    rw [left, none_, List.drop_of_length_le (whole (same overlap))]
    rfl

private theorem only_writer (shape : Shape c) {k : Nat} {t u : Coroutine WriterPoint} {point' : WriterPoint}
    (at_ : c.writers[j]? = some t) (live : t.point? = some point) (at' : c.writers[k]? = some u)
    (live' : u.point? = some point') : j = k := by
  refine shape.writers j k point point' ?_ ?_
  · rw [Conn.writing, List.getElem?_map, at_, Option.map_some, live]
  · rw [Conn.writing, List.getElem?_map, at', Option.map_some, live']

theorem Intact.writerFails (intact : Intact tr c) (shape : Shape c) {rest : List CoroId}
    (at_ : c.writers[j]? = some (.suspended point)) (alone : ¬ c.Overlap) :
    Stalled (tr ++ []) { c with writeQueue := rest, writers := c.writers.set j (.completed point .error) } := by
  have busy : ¬ AllGone c.writing := busy_of at_ rfl
  have idle : ¬ c.Draining := fun drains => alone ⟨drains, busy⟩
  have past : ¬ c.Greeting := not_greeting_of_busy shape busy
  have placed := List.getElem?_set_self (a := Coroutine.completed point .error) (List.getElem?_eq_some_iff.mp at_).1
  constructor
  · rw [List.append_nil]
    exact intact.ordered
  · exact past
  · intro front sent h
    exact idle ⟨front, sent, by rw [show c.start = _ from h]; rfl⟩
  · intro k point' h
    rcases of_set h with eq | ⟨other, old⟩
    · cases eq
    · exact other (only_writer shape at_ rfl old rfl)
  · exact Or.inr (Or.inr ⟨idle, j, point, placed⟩)

/-- A writer whose write has succeeded has not stalled, unless the session is closed. -/
private theorem Stalled.writer_closed (stalled : Stalled tr c) (shape : Shape c)
    (at_ : c.writers[j]? = some (.completed point (.ok n))) : c.status = .close ∧ c.resting = [] := by
  rcases stalled.stuck with closed | ⟨_, gone⟩ | ⟨_, k, point', failed⟩
  · exact closed
  · exact absurd gone (busy_of at_ rfl)
  · cases only_writer shape at_ rfl failed rfl
    cases at_.symm.trans failed

theorem resting_of_writer (shape : Shape c) {t : Coroutine WriterPoint} (at_ : c.writers[j]? = some t)
    (live : t.point? = some point) : c.resting = startRest c.start ++ writerRest t := by
  rw [Conn.resting, shape.writers.flatMap at_ live rfl]

theorem Stalled.writerFailed (stalled : Stalled tr c) (shape : Shape c)
    (at_ : c.writers[j]? = some (.completed point .error)) :
    Stalled (tr ++ [.failed]) { c with status := .close, writers := c.writers.set j .finished } := by
  have resting : startRest c.start = [] := by
    rcases stalled.stuck with ⟨_, none_⟩ | ⟨_, gone⟩ | ⟨idle, _⟩
    · rw [resting_of_writer shape at_ rfl] at none_
      exact (List.append_eq_nil_iff.mp none_).1
    · exact absurd gone (busy_of at_ rfl)
    · exact startRest_eq_nil idle
  constructor
  · rw [uploadedBytes_append, proxiedBytes_append]
    simpa [uploadedBytes, proxiedBytes] using stalled.ordered
  · exact stalled.past
  · exact stalled.start
  · intro k point' h
    rcases of_set h with eq | ⟨_, old⟩
    · cases eq
    · exact stalled.writers k point' old
  · refine Or.inl ⟨rfl, ?_⟩
    rw [Conn.resting, shape.writers.flatMap_set at_ rfl _ rfl]
    exact List.append_eq_nil_iff.mpr ⟨resting, rfl⟩

theorem InOrder.writerWritesOn (order : InOrder tr c) (shape : Shape c) (lined : Lined c)
    (at_ : c.writers[j]? = some (.completed point (.ok n))) (short : point.sent + n < point.payload.length) :
    InOrder (tr ++ []) (c.awaitWriter j { point with sent := point.sent + n }) := by
  have more : point.payload.drop (point.sent + n) ≠ [] := by
    intro h
    have size := congrArg List.length h
    rw [List.length_drop, List.length_nil] at size
    omega
  have resting : c.resting = startRest c.start ++ point.payload.drop (point.sent + n) := resting_of_writer shape at_ rfl
  have held : c.resting ≠ [] := by
    rw [resting]
    exact fun h => more (List.append_eq_nil_iff.mp h).2
  rcases order with intact | stalled
  · have idle : ¬ c.Draining := fun drains => held (intact.whole ⟨drains, busy_of at_ rfl⟩)
    have absent := lined.not_mem_writer at_
    have bound := (List.getElem?_eq_some_iff.mp at_).1
    have bytes := intact.bytes
    rw [resting, startRest_eq_nil idle, Conn.pending, pending_of_alone shape idle at_ rfl absent, List.nil_append,
      List.nil_append] at bytes
    refine Or.inl ⟨?_, intact.start, ?_, ?_⟩
    · rw [List.append_nil, Conn.pending_awaitWriter absent bound, Conn.resting,
        Conn.writerRest_awaitWriter shape.writers at_ rfl, Conn.pending, pending_of_alone shape idle at_ rfl absent]
      change uploadedBytes tr ++ ([] ++ point.payload.drop (point.sent + n) ++
        (startRest c.start ++ [] ++ c.backlog)) = _
      rw [startRest_eq_nil idle]
      exact bytes
    · intro k point' h
      rcases of_set h with eq | ⟨_, old⟩
      · split at eq <;> cases eq
      · exact intact.writers k point' old
    · exact fun overlap => absurd overlap.1 idle
  · exact absurd (stalled.writer_closed shape at_).2 held

/-- A writer whose buffer is sent holds nothing back, and the drain loop does not either. -/
private theorem Intact.resting_of_written (intact : Intact tr c) (shape : Shape c)
    (at_ : c.writers[j]? = some (.completed point (.ok n))) (whole : point.payload.length ≤ point.sent + n) :
    c.resting = [] := by
  by_cases drains : c.Draining
  · exact intact.whole ⟨drains, busy_of at_ rfl⟩
  · rw [resting_of_writer shape at_ rfl, startRest_eq_nil drains]
    exact List.drop_of_length_le whole

/-- A writer whose buffer is sent moves on, possibly with a packet from the queue. -/
private theorem Intact.writerMoves {evs : List TcpEvent} {c' : Conn} {t : Coroutine WriterPoint} (intact : Intact tr c)
    (shape : Shape c) (at_ : c.writers[j]? = some (.completed point (.ok n)))
    (whole : point.payload.length ≤ point.sent + n) (start : c'.start = c.start)
    (writers : c'.writers = c.writers.set j t) (rest : writerRest t = []) (sound : ∀ p, t ≠ .completed p .error)
    (bytes : c'.pending ++ c'.backlog = c.pending ++ c.backlog) (quiet : Quiet evs) : Intact (tr ++ evs) c' := by
  have nothing := intact.resting_of_written shape at_ whole
  have resting : c'.resting = [] := by
    rw [resting_of_writer shape at_ rfl] at nothing
    rw [Conn.resting, writers, shape.writers.flatMap_set at_ rfl _ rfl, rest, start]
    exact List.append_eq_nil_iff.mpr ⟨(List.append_eq_nil_iff.mp nothing).1, rfl⟩
  have before := intact.bytes
  rw [nothing, List.nil_append] at before
  constructor
  · rw [quiet.uploaded, quiet.proxied, resting,
      List.nil_append, bytes]
    exact before
  · rw [start]
    exact intact.start
  · intro k point' h
    rw [writers] at h
    rcases of_set h with eq | ⟨_, old⟩
    · exact sound point' eq.symm
    · exact intact.writers k point' old
  · exact fun _ => resting

private theorem pending_writer_done {c' : Conn} (lined : Lined c) {t : Coroutine WriterPoint}
    (at_ : c.writers[j]? = some (.completed point (.ok n))) (start : c'.start = c.start)
    (writers : c'.writers = c.writers.set j t) (queue : c'.writeQueue = c.writeQueue) : c'.pending = c.pending := by
  rw [Conn.pending, Conn.pending, queue]
  exact List.flatMap_congr fun id h =>
    Conn.left_of_writer_absent start writers fun eq => lined.not_mem_writer at_ (eq ▸ h)

theorem InOrder.writerEnds (order : InOrder tr c) (shape : Shape c) (lined : Lined c)
    (at_ : c.writers[j]? = some (.completed point (.ok n))) (whole : point.payload.length ≤ point.sent + n) :
    InOrder (tr ++ []) { c with writers := c.writers.set j .finished } := by
  refine order.imp (fun intact => ?_) (fun stalled => ?_)
  · refine intact.writerMoves shape at_ whole rfl rfl rfl (fun _ h => nomatch h) ?_ ⟨rfl, rfl⟩
    exact congrArg (· ++ c.backlog) (pending_writer_done lined at_ rfl rfl rfl)
  · obtain ⟨closed, resting⟩ := stalled.writer_closed shape at_
    rw [resting_of_writer shape at_ rfl] at resting
    constructor
    · rw [List.append_nil]
      exact stalled.ordered
    · exact stalled.past
    · exact stalled.start
    · intro k point' h
      rcases of_set h with eq | ⟨_, old⟩
      · cases eq
      · exact stalled.writers k point' old
    · refine Or.inl ⟨closed, ?_⟩
      rw [Conn.resting, shape.writers.flatMap_set at_ rfl _ rfl]
      exact List.append_eq_nil_iff.mpr ⟨(List.append_eq_nil_iff.mp resting).1, rfl⟩

private theorem Intact.awaitWriter {evs : List TcpEvent} {d : Conn} {next : WriterPoint} (intact : Intact tr c)
    (shape : Shape c) (lined : Lined c) (at_ : c.writers[j]? = some (.completed point (.ok n)))
    (whole : point.payload.length ≤ point.sent + n) (start : d.start = c.start) (writers : d.writers = c.writers)
    (queue : d.writeQueue = c.writeQueue) (bytes : next.offered ++ d.backlog = c.backlog) (quiet : Quiet evs) :
    Intact (tr ++ evs) (d.awaitWriter j next) := by
  have absent : .writer j ∉ d.writeQueue := queue ▸ lined.not_mem_writer at_
  have bound : j < d.writers.length := writers ▸ (List.getElem?_eq_some_iff.mp at_).1
  have same : d.pending = c.pending := by rw [Conn.pending, Conn.pending, queue, left_congr start writers]
  refine intact.writerMoves shape at_ whole start (congrArg (List.set · j _) writers) ?_ ?_ ?_ quiet
  · exact Conn.writerRest_await next
  · intro p h
    split at h <;> cases h
  · rw [Conn.pending_awaitWriter absent bound, same, List.append_assoc]
    exact congrArg (c.pending ++ ·) bytes

theorem InOrder.writerFollows {evs : List TcpEvent} {pcb : Pcb} (order : InOrder tr c) (shape : Shape c)
    (lined : Lined c) (at_ : c.writers[j]? = some (.completed point (.ok n)))
    (whole : point.payload.length ≤ point.sent + n) (opened : c.status ≠ .close) {next : List (List UInt8)}
    (quiet : Quiet evs) : InOrder (tr ++ evs) ({ c with pcb }.awaitWriter j ⟨point.front, [], next, 0⟩) := by
  rcases order with intact | stalled
  · exact Or.inl (intact.awaitWriter shape lined at_ whole rfl rfl rfl rfl quiet)
  · exact absurd (stalled.writer_closed shape at_).1 opened

theorem InOrder.writerPops {evs : List TcpEvent} {pcb : Pcb} (order : InOrder tr c) (shape : Shape c)
    (lined : Lined c) (at_ : c.writers[j]? = some (.completed point (.ok n)))
    (whole : point.payload.length ≤ point.sent + n) (opened : c.status ≠ .close) (quiet : Quiet evs) :
    InOrder (tr ++ evs) ({ c with pcb }.writerLoop j) := by
  rcases order with intact | stalled
  · refine Or.inl ?_
    rcases Conn.writerLoop_cases { c with pcb } j with ⟨_, loop⟩ | ⟨front, rest, popped, loop⟩
    · rw [loop]
      refine intact.writerMoves shape at_ whole rfl rfl rfl (fun _ h => nomatch h) ?_ quiet
      exact congrArg (· ++ c.backlog) (pending_writer_done lined at_ rfl rfl rfl)
    · rw [loop]
      change c.pbufQueue = front :: rest at popped
      refine intact.awaitWriter shape lined at_ whole rfl rfl rfl ?_ quiet
      have front_bytes := Pbuf.bytes_of_simple (shape.simple front (popped ▸ List.mem_cons_self))
      rw [Conn.backlog, Conn.backlog, popped, List.flatMap_cons, front_bytes]
      rfl
  · exact absurd (stalled.writer_closed shape at_).1 opened

private theorem left_grown {d : Conn} (start : d.start = c.start) (writers : d.writers = c.writers ++ [.finished]) :
    d.left = c.left := by
  funext id
  cases id with
  | start => simp only [Conn.left, start]
  | reader k => rfl
  | writer k =>
    simp only [Conn.left, writers]
    by_cases old : k < c.writers.length
    · rw [List.getElem?_append_left old]
    · rw [List.getElem?_append_right (Nat.not_lt.mp old), List.getElem?_eq_none (Nat.not_lt.mp old)]
      cases k - c.writers.length <;> rfl

private theorem set_grown {α : Type} (l : List α) (a b : α) : (l ++ [a]).set l.length b = l ++ [b] := by
  rw [List.set_append_right _ _ (Nat.le_refl _), Nat.sub_self]
  rfl

private theorem Intact.spawnWriter {d : Conn} {p : Pbuf} {next : WriterPoint} (intact : Intact tr c) (lined : Lined c)
    (gone : AllGone c.writing) (nothing : startRest c.start = []) (start : d.start = c.start)
    (writers : d.writers = c.writers ++ [.finished]) (queue : d.writeQueue = c.writeQueue)
    (bytes : next.offered ++ d.backlog = c.backlog ++ p.bytes) :
    Intact (tr ++ [.proxied p]) (d.awaitWriter c.writers.length next) := by
  have absent : .writer c.writers.length ∉ d.writeQueue := by
    intro h
    obtain ⟨q, hq⟩ := lined.writer _ (queue ▸ h)
    rw [List.getElem?_eq_none (Nat.le_refl _)] at hq
    cases hq
  have bound : c.writers.length < d.writers.length := by simp [writers]
  have same : d.pending = c.pending := by rw [Conn.pending, Conn.pending, queue, left_grown start writers]
  have spawned : (d.awaitWriter c.writers.length next).writers = c.writers ++
      [if next.offered = [] then .completed next (.ok 0) else .suspended next] := by
    rw [Conn.awaitWriter, writers, set_grown]
  have resting : (d.awaitWriter c.writers.length next).resting = [] := by
    rw [Conn.resting, spawned, List.flatMap_append, rest_of_gone gone, List.flatMap_singleton, Conn.writerRest_await]
    exact List.append_eq_nil_iff.mpr ⟨start ▸ nothing, rfl⟩
  have before := intact.bytes
  rw [Conn.resting, nothing, rest_of_gone gone, List.nil_append] at before
  constructor
  · rw [uploadedBytes_append, proxiedBytes_append, Conn.pending_awaitWriter absent bound, resting, same, ← before]
    simp only [uploadedBytes, proxiedBytes, List.flatMap_singleton, List.append_nil, List.nil_append, List.append_assoc]
    exact congrArg (fun x => uploadedBytes tr ++ (c.pending ++ x)) bytes
  · exact start ▸ intact.start
  · intro k point' h
    rw [spawned] at h
    by_cases old : k < c.writers.length
    · rw [List.getElem?_append_left old] at h
      exact intact.writers k point' h
    · rw [List.getElem?_append_right (Nat.not_lt.mp old)] at h
      have new := List.mem_singleton.mp (List.mem_of_getElem? h)
      split at new <;> cases new
  · exact fun _ => resting

private theorem rest_of_settled (relaying : c.status = .relaying) (settled : ¬ c.ShortDrain) :
    startRest c.start = [] := by
  cases h : c.start with
  | completed q r =>
    cases q with
    | drainWrite front sent =>
      cases r with
      | ok n =>
        refine List.drop_of_length_le (Nat.not_lt.mp fun short => ?_)
        exact settled ⟨relaying, front, sent, _, h, fun _ eq => Completion.ok.inj eq ▸ short⟩
      | error => rfl
    | _ => cases r <;> rfl
  | _ => rfl

/-- A writer is spawned while nothing is held back, and pops the oldest packet. -/
theorem InOrder.writerSpawned {p : Pbuf} (order : InOrder tr c) (shape : Shape c) (lined : Lined c)
    (simple : p.len = p.totLen) (relaying : c.status = .relaying) (idle : c.remoteSending = false)
    (settled : ¬ c.ShortDrain) :
    InOrder (tr ++ [.proxied p]) ({ c with
      pbufQueue := c.pbufQueue ++ [p], remoteSending := true
      writers := c.writers ++ [Coroutine.finished] }.writerLoop c.writers.length) := by
  have gone : AllGone c.writing := shape.idle idle
  rcases order with intact | stalled
  · refine Or.inl ?_
    rcases Conn.writerLoop_cases { c with
        pbufQueue := c.pbufQueue ++ [p], remoteSending := true
        writers := c.writers ++ [Coroutine.finished] } c.writers.length with ⟨empty, _⟩ | ⟨front, rest, popped, loop⟩
    · exact absurd empty (by simp)
    · rw [loop]
      change c.pbufQueue ++ [p] = front :: rest at popped
      have front_simple : front.len = front.totLen := by
        rcases List.mem_append.mp (popped ▸ List.mem_cons_self : front ∈ c.pbufQueue ++ [p]) with old | new
        · exact shape.simple front old
        · exact List.mem_singleton.mp new ▸ simple
      refine intact.spawnWriter lined gone (rest_of_settled relaying settled) rfl rfl rfl ?_
      have queued := congrArg (List.flatMap Pbuf.bytes) popped
      rw [List.flatMap_append, List.flatMap_singleton, List.flatMap_cons, Pbuf.bytes_of_simple front_simple] at queued
      exact queued.symm
  · rcases stalled.stuck with ⟨closed, _⟩ | ⟨⟨front, sent, failed⟩, _⟩ | ⟨_, k, point', failed⟩
    · cases relaying.symm.trans closed
    · exact absurd ⟨relaying, front, sent, _, failed, fun _ h => nomatch h⟩ settled
    · exact absurd gone (busy_of failed rfl)

end Writer

end Tunosocks.Tcp
