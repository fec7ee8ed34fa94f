import Tunosocks.Foundation.Reference
import Tunosocks.Tcp.Shape

/-! The download: every read from the remote is stored at the start of the one buffer and
lent to lwIP, which looks at the buffer whenever it transmits. -/
namespace Tunosocks.Tcp
open Foundation Foundation.Buffer Foundation.Reference Coroutine

/-- The bytes read from the remote after the handshake. -/
def downloadedBytes (tr : List TcpEvent) : List UInt8 :=
  tr.flatMap fun
    | .downloaded data => data
    | _ => []

/-- What one event does to the references lwIP holds. -/
def TcpEvent.note (refs : List (Option Nat)) : TcpEvent → List (Option Nat)
  | .used (.tcpWrite len true) => lend refs len
  | .downloaded data => spoil refs data.length
  | .destroyed => revoke refs
  | _ => refs

/-- For every byte taken by `tcp_write`, its place in `remote_recv_buff_`, unless a later
read has been stored over it or the session is gone. -/
def references (tr : List TcpEvent) : List (Option Nat) := tr.foldl TcpEvent.note []

/-- What lwIP has transmitted is what was read from the remote, byte for byte. -/
def Faithful (tr : List TcpEvent) : Prop :=
  ∀ offset bytes, .transmitted offset bytes ∈ tr →
    ∀ (j : Nat) (b : UInt8), bytes[j]? = some b → (downloadedBytes tr)[offset + j]? = some b

/-- The bytes of the last read of `Start` are about to be refused by `tcp_write`. -/
def Conn.refuses (c : Conn) (room : Room) : Bool :=
  match c.start with
  | .completed .downloadRead (.ok n) => c.status != .close && !c.pcb.freed && (c.pcb.tcpWrite n room).isNone
  | _ => false

/-- They are about to be put behind a segment that waits to be sent again. -/
def Conn.misplaces (c : Conn) (room : Room) : Bool :=
  match c.start with
  | .completed .downloadRead (.ok n) => c.status != .close && !c.pcb.freed && c.pcb.misplaced n room != []
  | _ => false

/-- lwIP transmits bytes that no later read has been stored over, and takes what it is given, behind everything it
was given before. -/
def KeepsBytes (tr : List TcpEvent) (t : Transition Conn TcpAct TcpEvent) : Prop :=
  match t.act with
  | .transmit offset n _ _ => ∀ r ∈ slice (references tr) offset n, r.isSome = true
  | .resume .start room => t.pre.refuses room = false ∧ t.pre.misplaces room = false
  | _ => True

instance (tr : List TcpEvent) (t : Transition Conn TcpAct TcpEvent) : Decidable (KeepsBytes tr t) := by
  unfold KeepsBytes
  split <;> infer_instance

/-- The buffer, the references into it and the coroutine of `Start` agree. -/
structure Lends (tr : List TcpEvent) (c : Conn) : Prop where
  straight : c.pcb.strays = []
  refers : Refers (references tr) c.pcb.cells c.remoteRecvBuff.1 (downloadedBytes tr)
  gone : c.destroyed = true → c.start.point? = none ∧ ∀ r ∈ references tr, r = none
  early : ∀ p, c.start.point? = some p → p ≠ .downloadRead → downloadedBytes tr = []
  waits : c.start = .suspended .downloadRead → (downloadedBytes tr).length = c.pcb.cells.length
  held : ∀ n, c.start = .completed .downloadRead (.ok n) →
    n ≤ tcpRecvBuffSize ∧ ∃ before, downloadedBytes tr = before ++ c.remoteRecvBuff.1.take n ∧
      before.length = c.pcb.cells.length

section Events
variable {tr evs : List TcpEvent}

@[simp] theorem downloadedBytes_append (tr evs : List TcpEvent) :
    downloadedBytes (tr ++ evs) = downloadedBytes tr ++ downloadedBytes evs := List.flatMap_append

theorem references_append (tr evs : List TcpEvent) :
    references (tr ++ evs) = evs.foldl TcpEvent.note (references tr) := List.foldl_append

/-- Events that have nothing to do with the download. -/
def TcpEvent.inert : TcpEvent → Bool
  | .used (.tcpWrite _ true) | .downloaded _ | .destroyed | .transmitted .. => false
  | _ => true

def Inert (evs : List TcpEvent) : Prop := evs.all TcpEvent.inert = true

theorem Inert.append {evs' : List TcpEvent} (first : Inert evs) (second : Inert evs') : Inert (evs ++ evs') := by
  rw [Inert, List.all_append, first, second]
  rfl

theorem Inert.references (inert : Inert evs) (refs : List (Option Nat)) : evs.foldl TcpEvent.note refs = refs := by
  induction evs with
  | nil => rfl
  | cons e rest ih =>
    obtain ⟨first, others⟩ := Bool.and_eq_true_iff.mp (List.all_cons.symm.trans inert)
    have same : e.note refs = refs := by
      unfold TcpEvent.note
      split <;> first | rfl | cases first
    rw [List.foldl_cons, same]
    exact ih others

theorem Inert.downloaded (inert : Inert evs) : downloadedBytes evs = [] := by
  refine List.flatMap_eq_nil_iff.mpr fun e he => ?_
  have quiet := List.all_eq_true.mp inert e he
  cases e <;> first | rfl | cases quiet

theorem Inert.transmitted (inert : Inert evs) (offset : Nat) (bytes : List UInt8) :
    .transmitted offset bytes ∉ evs := fun h => nomatch List.all_eq_true.mp inert _ h

/-- What was right stays right while more is read. -/
theorem Faithful.append (faithful : Faithful tr) (none_ : ∀ offset bytes, .transmitted offset bytes ∉ evs) :
    Faithful (tr ++ evs) := by
  intro offset bytes h j b hb
  rcases List.mem_append.mp h with old | new
  · have byte := faithful offset bytes old j b hb
    rw [downloadedBytes_append, List.getElem?_append_left (List.getElem?_eq_some_iff.mp byte).1, byte]
  · exact absurd new (none_ offset bytes)

end Events

section Frame
variable {tr evs : List TcpEvent} {c c' : Conn}

private theorem cells_of_lent {pcb pcb' : Pcb} (lent : pcb'.lent = pcb.lent) : pcb'.cells = pcb.cells :=
  congrArg (fun l => l.1.flatMap List.range) lent

private theorem Lends.straight_of_lent (lends : Lends tr c) (lent : c'.pcb.lent = c.pcb.lent) : c'.pcb.strays = [] :=
  (congrArg Prod.snd lent).trans lends.straight

/-- A move that leaves the buffer and the references alone. -/
theorem Lends.inert (lends : Lends tr c) (inert : Inert evs) (lent : c'.pcb.lent = c.pcb.lent)
    (buff : c'.remoteRecvBuff = c.remoteRecvBuff) (gone : c'.destroyed = true → c.destroyed = true ∧
      (c.start.point? = none → c'.start.point? = none))
    (early : ∀ p, c'.start.point? = some p → p ≠ .downloadRead → downloadedBytes tr = [])
    (waits : c'.start = .suspended .downloadRead → (downloadedBytes tr).length = c.pcb.cells.length)
    (held : ∀ n, c'.start = .completed .downloadRead (.ok n) → c.start = .completed .downloadRead (.ok n)) :
    Lends (tr ++ evs) c' := by
  have refs : references (tr ++ evs) = references tr := by rw [references_append, inert.references]
  have bytes : downloadedBytes (tr ++ evs) = downloadedBytes tr := by
    rw [downloadedBytes_append, inert.downloaded, List.append_nil]
  have cells := cells_of_lent lent
  constructor
  · exact lends.straight_of_lent lent
  · rw [refs, bytes, cells, buff]
    exact lends.refers
  · rw [refs]
    intro h
    obtain ⟨before, point⟩ := gone h
    exact ⟨point (lends.gone before).1, (lends.gone before).2⟩
  · rwa [bytes]
  · rwa [bytes, cells]
  · rw [bytes, cells, buff]
    exact fun n h => lends.held n (held n h)

/-- The same where also the coroutine of `Start` stays where it is. -/
theorem Lends.congr (lends : Lends tr c) (inert : Inert evs) (lent : c'.pcb.lent = c.pcb.lent)
    (buff : c'.remoteRecvBuff = c.remoteRecvBuff) (destroyed : c'.destroyed = c.destroyed)
    (start : c'.start = c.start) : Lends (tr ++ evs) c' := by
  refine lends.inert inert lent buff (fun h => ⟨destroyed ▸ h, ?_⟩) ?_ ?_ ?_ <;> rw [start]
  · exact id
  · exact lends.early
  · exact lends.waits
  · exact fun _ => id

/-- The operation of `Start` fails, or one of the handshake ends, or `Start` returns. -/
theorem Lends.breaks (lends : Lends tr c) (inert : Inert evs) (lent : c'.pcb.lent = c.pcb.lent)
    (buff : c'.remoteRecvBuff = c.remoteRecvBuff) (destroyed : c'.destroyed = c.destroyed)
    (point : ∀ p, c'.start.point? = some p → c.start.point? = some p) (waits : ∀ p, c'.start ≠ .suspended p)
    (held : ∀ n, c'.start = .completed .downloadRead (.ok n) → c.start = .completed .downloadRead (.ok n)) :
    Lends (tr ++ evs) c' := by
  refine lends.inert inert lent buff (fun h => ⟨destroyed ▸ h, fun none_ => ?_⟩)
    (fun p h => lends.early p (point p h)) (fun h => absurd h (waits _)) held
  cases h : c'.start.point? with
  | none => rfl
  | some p => cases none_.symm.trans (point p h)

/-- Before the first write there is nothing to refer to. -/
private theorem Lends.references_of_unwritten (lends : Lends tr c) (unwritten : c.pcb.writes = []) :
    references tr = [] := by
  have length := lends.refers.length
  rw [Pcb.cells, unwritten] at length
  exact List.length_eq_zero_iff.mp length

/-- Before the first write the buffer may change. -/
private theorem Lends.unwritten (lends : Lends tr c) (inert : Inert evs) (unwritten : c.pcb.writes = [])
    (lent : c'.pcb.lent = c.pcb.lent) (early : downloadedBytes tr = [])
    (held : ∀ n, c'.start ≠ .completed .downloadRead (.ok n)) (alive : c'.destroyed = false) :
    Lends (tr ++ evs) c' := by
  have refs : references (tr ++ evs) = [] := by
    rw [references_append, inert.references, lends.references_of_unwritten unwritten]
  have bytes : downloadedBytes (tr ++ evs) = [] := by
    rw [downloadedBytes_append, inert.downloaded, early]
    rfl
  have cells : c'.pcb.cells = [] := by
    rw [cells_of_lent lent, Pcb.cells, unwritten]
    rfl
  refine ⟨lends.straight_of_lent lent, ?_, ?_, fun _ _ _ => bytes, fun _ => ?_, fun n h => absurd h (held n)⟩
  · rw [refs, cells]
    exact .nil _ _
  · rw [alive]
    exact fun h => nomatch h
  · rw [bytes, cells]
    rfl

/-- A session whose `Start` has not returned is there. -/
private theorem Lends.alive (lends : Lends tr c) {p : StartPoint} (at_ : c.start.point? = some p) :
    c.destroyed = false := by
  cases h : c.destroyed with
  | false => rfl
  | true => cases (lends.gone h).1.symm.trans at_

/-- `Start` goes on before the download, or begins it. -/
private theorem Lends.goesOn {d : Conn} {p p' : StartPoint} {r : Completion} (lends : Lends tr c) (shape : Shape c)
    (inert : Inert evs) (at_ : c.start = .completed p r) (early : p ≠ .downloadRead)
    (lent : d.pcb.lent = c.pcb.lent) (destroyed : d.destroyed = c.destroyed) :
    Lends (tr ++ evs) (d.awaitStart p') := by
  have point := point?_of_completed at_
  refine lends.unwritten inert (shape.unwritten p point early) lent (lends.early p point early) ?_
    (destroyed.trans (lends.alive point))
  intro n h
  obtain ⟨rfl, _, offered⟩ := Conn.completed_awaitStart h
  cases offered

/-- A read of the download stores its data over the buffer. -/
private theorem Lends.stores {data : List UInt8} (lends : Lends tr c) (lent : c'.pcb.lent = c.pcb.lent)
    (buff : c'.remoteRecvBuff = c.remoteRecvBuff.store 0 data)
    (gone : c'.destroyed = true → c.destroyed = true ∧ c'.start.point? = none)
    (early : ∀ p, c'.start.point? = some p → p = .downloadRead)
    (waits : c'.start ≠ .suspended .downloadRead)
    (held : ∀ n, c'.start = .completed .downloadRead (.ok n) → n = data.length ∧ data.length ≤ tcpRecvBuffSize ∧
      (downloadedBytes tr).length = c.pcb.cells.length) :
    Lends (tr ++ [.downloaded data]) c' := by
  have refs : references (tr ++ [.downloaded data]) = spoil (references tr) data.length := references_append _ _
  have bytes : downloadedBytes (tr ++ [.downloaded data]) = downloadedBytes tr ++ data := by
    rw [downloadedBytes_append]
    exact congrArg (downloadedBytes tr ++ ·) (List.append_nil _)
  have cells := cells_of_lent lent
  constructor
  · exact lends.straight_of_lent lent
  · rw [refs, bytes, cells, buff]
    exact (lends.refers.store data).mono data
  · intro h
    obtain ⟨before, none_⟩ := gone h
    refine ⟨none_, fun r hr => ?_⟩
    rw [refs, spoil, List.mem_map] at hr
    obtain ⟨r', hr', rfl⟩ := hr
    rw [(lends.gone before).2 r' hr']
    rfl
  · exact fun p h other => absurd (early p h) other
  · exact fun h => absurd h waits
  · intro n h
    obtain ⟨rfl, fits, length⟩ := held n h
    refine ⟨fits, downloadedBytes tr, ?_, length.trans (congrArg _ cells.symm)⟩
    rw [bytes, buff]
    have stored : slice (writeAt c.remoteRecvBuff.1 0 data) 0 data.length = data :=
      slice_writeAt_same rfl (by rw [c.remoteRecvBuff.2, Nat.zero_add]; exact fits)
    exact congrArg (downloadedBytes tr ++ ·) stored.symm

private theorem cells_tcpWrite {pcb pcb' : Pcb} {n : Nat} {room : Room} (taken : pcb.tcpWrite n room = some pcb') :
    pcb'.cells = pcb.cells ++ List.range n := by
  obtain ⟨_, eq⟩ := Option.ite_none_right_eq_some.mp taken
  rw [← Option.some.inj eq, Pcb.cells, Pcb.cells, List.flatMap_append, List.flatMap_singleton]

/-- `tcp_write` takes what the last read has stored. -/
private theorem Lends.lent {n : Nat} {pcb : Pcb} {room : Room} (lends : Lends tr c)
    (at_ : c.start = .completed .downloadRead (.ok n)) (taken : c.pcb.tcpWrite n room = some pcb)
    (behind : c.pcb.misplaced n room = []) (written : c'.pcb = pcb) (buff : c'.remoteRecvBuff = c.remoteRecvBuff)
    (destroyed : c'.destroyed = c.destroyed)
    (early : ∀ p, c'.start.point? = some p → p = .downloadRead)
    (held : ∀ n, c'.start ≠ .completed .downloadRead (.ok n)) :
    Lends (tr ++ (c.localUses n room).map .used) c' := by
  obtain ⟨fits, before, stream, length⟩ := lends.held n at_
  have room_ : n ≤ c.remoteRecvBuff.1.length := by rw [c.remoteRecvBuff.2]; exact fits
  have cells : c'.pcb.cells = c.pcb.cells ++ List.range n := written ▸ cells_tcpWrite taken
  have uses : (c.localUses n room).map TcpEvent.used =
      [.used (.tcpWrite n true), .used .tcpOutput, .used .tcpSndbuf] := by
    rw [Conn.localUses, taken]
    rfl
  have refs : references (tr ++ (c.localUses n room).map .used) = lend (references tr) n := by
    rw [uses]
    exact references_append _ _
  have bytes : downloadedBytes (tr ++ (c.localUses n room).map .used) = downloadedBytes tr := by
    rw [uses, downloadedBytes_append]
    exact List.append_nil _
  constructor
  · obtain ⟨_, eq⟩ := Option.ite_none_right_eq_some.mp taken
    rw [written, ← Option.some.inj eq, lends.straight, behind]
    rfl
  · rw [refs, bytes, cells, buff]
    exact lends.refers.lend stream length room_
  · rw [destroyed, lends.alive (point?_of_completed at_)]
    exact fun h => nomatch h
  · exact fun p h other => absurd (early p h) other
  · intro _
    rw [bytes, stream, cells, List.length_append, List.length_append, length, List.length_take_of_le room_,
      List.length_range]
  · exact fun m h => absurd h (held m)

end Frame

section Moves
variable {tr evs : List TcpEvent} {c c' : Conn}

theorem Callback.inert {seg : Segment} (move : Callback seg c evs c') : Inert evs := by
  cases move with
  | lwip change => cases change <;> rfl
  | _ => rfl

theorem Callback.lends {seg : Segment} (move : Callback seg c evs c') (lends : Lends tr c) : Lends (tr ++ evs) c' := by
  have inert := move.inert
  cases move with
  | lwip change => exact lends.congr inert change.lent rfl rfl rfl
  | stopped =>
    exact lends.breaks inert rfl rfl rfl (fun p h => (point?_cancel c.start).symm.trans h)
      (fun p => cancel_ne_suspended _ p) (fun n => cancel_eq_completed_ok.mp)
  | writerSpawned =>
    obtain ⟨_, _, _, _, eq⟩ := Conn.writerLoop_eq _ c.writers.length
    rw [eq]
    exact lends.congr inert rfl rfl rfl rfl
  | _ => exact lends.congr inert rfl rfl rfl rfl

private theorem Lends.transmits (lends : Lends tr c) (lent : c'.pcb.lent = c.pcb.lent)
    (buff : c'.remoteRecvBuff = c.remoteRecvBuff) (destroyed : c'.destroyed = c.destroyed) (start : c'.start = c.start)
    {offset : Nat} {bytes : List UInt8} : Lends (tr ++ [.transmitted offset bytes]) c' := by
  have refs : references (tr ++ [.transmitted offset bytes]) = references tr := references_append _ _
  have same : downloadedBytes (tr ++ [.transmitted offset bytes]) = downloadedBytes tr := by
    rw [downloadedBytes_append]
    exact List.append_nil _
  have cells := cells_of_lent lent
  constructor
  · exact lends.straight_of_lent lent
  · rw [refs, same, cells, buff]
    exact lends.refers
  · rw [refs, destroyed, start]
    exact lends.gone
  · rw [same, start]
    exact lends.early
  · rw [same, start, cells]
    exact lends.waits
  · rw [same, start, cells, buff]
    exact lends.held

/-- A read of `Start` stores what has arrived. -/
private theorem Lends.arrives {data : List UInt8} {point : StartPoint} {off size : Nat} {rest : List CoroId}
    (lends : Lends tr c) (shape : Shape c) (at_ : c.start = .suspended point) (takes : point.window = some (off, size))
    (le : data.length ≤ size) :
    Lends (tr ++ [point.received data]) { c with
      readQueue := rest, remoteRecvBuff := c.remoteRecvBuff.store off data
      start := .completed point (.ok data.length) } := by
  have at' : c.start.point? = some point := by rw [at_]; rfl
  by_cases download : point = .downloadRead
  · subst download
    cases takes
    refine lends.stores rfl rfl ?_ (fun p h => (Option.some.inj h).symm) (fun h => nomatch h) ?_
    · intro h
      cases (lends.alive at').symm.trans h
    · intro n h
      cases h
      exact ⟨rfl, le, lends.waits at_⟩
  · refine lends.unwritten ?_ (shape.unwritten point at' download) rfl (lends.early point at' download) ?_
      (lends.alive at')
    · cases point <;> first | rfl | exact absurd rfl download
    · intro n h
      cases h
      exact download rfl

theorem SocketMove.lends {a : TcpAct} (move : SocketMove c a evs c') (lends : Lends tr c) (shape : Shape c) :
    Lends (tr ++ evs) c' := by
  have still {p : StartPoint} (at_ : c.start = .suspended p) : c.start.point? = some p := by rw [at_]; rfl
  cases move with
  | connected at_ | connectFailed at_ | startWriteFails _ at_ | startReadFails _ at_ =>
    exact lends.breaks rfl rfl rfl rfl (fun p h => (still at_).trans h) (fun _ h => nomatch h) (fun _ h => nomatch h)
  | @startAccepts n point bytes rest oldest at_ offers =>
    refine lends.breaks ?_ rfl rfl rfl (fun p h => (still at_).trans h) (fun _ h => nomatch h) ?_
    · cases point <;> rfl
    · intro m h
      cases h
      cases offers
  | startArrives _ at_ takes _ le => exact lends.arrives shape at_ takes le
  | @readerArrives data j rest oldest at_ =>
    have ended := shape.start_of_reader at_
    have finished := point?_eq_none.mp ended
    refine lends.stores rfl rfl (fun h => ⟨h, ended⟩) (fun p h => nomatch ended.symm.trans h) ?_ ?_
    · exact fun h => nomatch finished.symm.trans h
    · exact fun n h => nomatch finished.symm.trans h
  | writerAccepts | writerWriteFails | readerReadFails => exact lends.congr rfl rfl rfl rfl rfl
  | transmits => refine lends.transmits ?_ ?_ ?_ ?_ <;> rfl

private theorem inert_drainLoop (d : Conn) : Inert d.drainLoop.2 := by
  rcases d.drainLoop_events with eq | eq <;> rw [eq] <;> rfl

private theorem Lends.drainLoop {d : Conn} {p : StartPoint} {r : Completion} (lends : Lends tr c) (shape : Shape c)
    (first : Inert evs) (at_ : c.start = .completed p r) (early : p ≠ .downloadRead) (start : d.start = c.start)
    (buff : d.remoteRecvBuff = c.remoteRecvBuff) (lent : d.pcb.lent = c.pcb.lent)
    (destroyed : d.destroyed = c.destroyed) : Lends (tr ++ (evs ++ d.drainLoop.2)) d.drainLoop.1 := by
  have inert : Inert (evs ++ d.drainLoop.2) := first.append (inert_drainLoop d)
  rcases d.drainLoop_cases with ⟨_, loop⟩ | ⟨front, rest, _, ⟨_, loop⟩ | ⟨_, loop⟩⟩ <;> rw [loop] at inert ⊢
  · exact lends.goesOn shape inert at_ early lent destroyed
  · exact lends.goesOn shape inert at_ early lent destroyed
  · exact lends.congr inert lent buff destroyed start

/-- What `Start` reads in the download is lent, unless `tcp_write` refuses it. -/
private theorem Lends.writes {n : Nat} {room : Room} (lends : Lends tr c)
    (at_ : c.start = .completed .downloadRead (.ok n)) (opened : c.status ≠ .close) (alive : c.pcb.freed = false)
    (takes : c.refuses room = false) (behind : c.misplaces room = false) (buff : c'.remoteRecvBuff = c.remoteRecvBuff)
    (written : c'.pcb = (c.writeLocal n room).pcb) (destroyed : c'.destroyed = c.destroyed)
    (early : ∀ p, c'.start.point? = some p → p = .downloadRead)
    (held : ∀ n, c'.start ≠ .completed .downloadRead (.ok n)) :
    Lends (tr ++ (c.localUses n room).map .used) c' := by
  cases taken : c.pcb.tcpWrite n room with
  | none => simp [Conn.refuses, at_, opened, alive, taken] at takes
  | some pcb =>
    have straight : c.pcb.misplaced n room = [] := by simpa [Conn.misplaces, at_, opened, alive] using behind
    refine lends.lent at_ taken straight ?_ buff destroyed early held
    rw [written, Conn.writeLocal, taken]

private theorem writeLocal_frame (c : Conn) (n : Nat) (room : Room) :
    (c.writeLocal n room).remoteRecvBuff = c.remoteRecvBuff ∧ (c.writeLocal n room).destroyed = c.destroyed := by
  obtain ⟨pcb, eq, _⟩ := c.writeLocal_eq n room
  rw [eq]
  exact ⟨rfl, rfl⟩

theorem Resumes.lends {room : Room} {id : CoroId} (move : Resumes c room id evs c') (lends : Lends tr c)
    (shape : Shape c) (takes : id = .start → c.refuses room = false ∧ c.misplaces room = false)
    (going : c'.halted = false) :
    Lends (tr ++ evs) c' := by
  have ends {d : Conn} (inert : Inert evs) (cells : d.pcb = c.pcb) (buff : d.remoteRecvBuff = c.remoteRecvBuff)
      (destroyed : d.destroyed = c.destroyed) (start : d.start = .finished) : Lends (tr ++ evs) d := by
    refine lends.breaks inert (congrArg Pcb.lent cells) buff destroyed ?_ ?_ ?_ <;> rw [start] <;> intro _ h <;>
      cases h
  cases move with
  | startFailed | rejected | drainEnds | downloadEnds => exact ends rfl rfl rfl rfl rfl
  | connected at_ | requests at_ => exact lends.goesOn shape rfl at_ (fun h => nomatch h) rfl rfl
  | greets at_ next =>
    refine lends.goesOn shape rfl at_ ?_ rfl rfl
    rintro rfl
    cases next
  | drainWritesOn at_ => exact lends.goesOn shape rfl at_ (fun h => nomatch h) rfl rfl
  | relays at_ =>
    have first : Inert [.used .localPort] := rfl
    exact lends.drainLoop shape first at_ (fun h => nomatch h) rfl rfl rfl rfl
  | drains at_ => exact lends.drainLoop shape rfl at_ (fun h => nomatch h) rfl rfl rfl rfl
  | @parks n at_ opened alive =>
    obtain ⟨buff, destroyed⟩ := writeLocal_frame c n room
    exact lends.writes at_ opened alive (takes rfl).1 (takes rfl).2 buff rfl destroyed (fun _ h => nomatch h)
      (fun _ h => nomatch h)
  | @downloads n at_ opened alive =>
    obtain ⟨buff, destroyed⟩ := writeLocal_frame c n room
    refine lends.writes at_ opened alive (takes rfl).1 (takes rfl).2 buff rfl destroyed ?_ ?_
    · exact fun p h => (Option.some.inj ((Conn.point?_awaitStart _ _).symm.trans h)).symm
    · intro m h
      cases (Conn.completed_awaitStart h).2.2
  | startDangles | writerDangles | readerDangles => cases going
  | writerFailed | writerWritesOn | writerEnds | writerFollows | readerFailed | readerEnds =>
    exact lends.congr rfl rfl rfl rfl rfl
  | @writerPops j =>
    obtain ⟨_, _, _, _, eq⟩ := Conn.writerLoop_eq _ j
    rw [eq]
    exact lends.congr rfl rfl rfl rfl rfl
  | readerParks at_ opened | readerReads at_ opened => exact absurd (shape.closed_of_reader at_) opened

private theorem inert_pbufFreed (queue : List Pbuf) : Inert (queue.map .pbufFreed) := by
  refine List.all_eq_true.mpr fun e he => ?_
  obtain ⟨p, _, rfl⟩ := List.mem_map.mp he
  rfl

/-- The buffer goes with the session. -/
theorem Lends.reap (lends : Lends tr c) : Lends (tr ++ c.reap.2) c.reap.1 := by
  unfold Conn.reap
  split
  · next done =>
    have ended : c.start.point? = none := point?_eq_none.mpr (isFinished_iff.mp done.2.2.1)
    have finished := point?_eq_none.mp ended
    have refs : references (tr ++ (c.pbufQueue.map .pbufFreed ++ [.destroyed])) = revoke (references tr) := by
      rw [references_append, List.foldl_append, (inert_pbufFreed c.pbufQueue).references]
      rfl
    have bytes : downloadedBytes (tr ++ (c.pbufQueue.map .pbufFreed ++ [.destroyed])) = downloadedBytes tr := by
      rw [downloadedBytes_append, downloadedBytes_append, (inert_pbufFreed c.pbufQueue).downloaded]
      exact List.append_nil _
    refine ⟨lends.straight, ?_, fun _ => ⟨ended, fun r hr => ?_⟩, (fun p h => nomatch ended.symm.trans h),
      (fun h => nomatch finished.symm.trans h), (fun n h => nomatch finished.symm.trans h)⟩
    · rw [refs, bytes]
      exact lends.refers.revoke
    · rw [refs, revoke, List.mem_map] at hr
      obtain ⟨_, _, eq⟩ := hr
      exact eq.symm
  · rw [List.append_nil]
    exact lends

end Moves

/-! ### Whole runs -/

section Runs
variable {tr evs : List TcpEvent} {c c' : Conn}

private theorem Resumes.not_transmitted {room : Room} {id : CoroId} (move : Resumes c room id evs c') (offset : Nat)
    (bytes : List UInt8) : .transmitted offset bytes ∉ evs := by
  have loop (d : Conn) : .transmitted offset bytes ∉ d.drainLoop.2 := (inert_drainLoop d).transmitted offset bytes
  cases move with
  | relays | drains => simp [loop]
  | startDangles _ touches => cases touches <;> simp [Conn.localUses]
  | _ => simp [Conn.localUses]

private theorem length_cells (pcb : Pcb) : pcb.cells.length = pcb.queued := by
  simp [Pcb.cells, Pcb.queued, List.length_flatMap]

/-- Without strays a segment carries the bytes of its own numbers. -/
private theorem carried_straight {pcb : Pcb} (straight : pcb.strays = []) (offset n : Nat) (stray : Bool) :
    pcb.carried offset n stray = slice pcb.cells offset n := by
  rw [Pcb.carried, straight]
  refine List.ext_getElem? fun i => ?_
  rw [List.getElem?_mapIdx]
  cases stray <;> cases (slice pcb.cells offset n)[i]? <;> rfl

/-- What is transmitted through references that stand is what was read. -/
private theorem Faithful.transmits {offset n : Nat} {memory : List UInt8} {stray : Bool} (faithful : Faithful tr)
    (lends : Lends tr c)
    (standing : ∀ r ∈ slice (references tr) offset n, r.isSome = true) (pos : 0 < n)
    (le : offset + n ≤ c.pcb.queued) :
    Faithful (tr ++ [.transmitted offset ((c.pcb.carried offset n stray).map fun i =>
      (if c.destroyed then memory else c.remoteRecvBuff.1).getD i 0)]) := by
  rw [carried_straight lends.straight]
  have alive : c.destroyed = false := by
    refine Bool.eq_false_iff.mpr fun destroyed => ?_
    have bound : offset < (references tr).length := by
      rw [lends.refers.length, length_cells]
      omega
    have at_ : (slice (references tr) offset n)[0]? = some (references tr)[offset] := by
      rw [getElem?_slice, if_pos pos, Nat.add_zero, List.getElem?_eq_getElem bound]
    have stands := standing _ (List.mem_of_getElem? at_)
    rw [(lends.gone destroyed).2 _ (List.getElem_mem bound)] at stands
    cases stands
  intro offset' bytes h j b hb
  have same : ∀ e, downloadedBytes (tr ++ [.transmitted offset e]) = downloadedBytes tr := by
    intro e
    rw [downloadedBytes_append]
    exact List.append_nil _
  rw [same]
  rcases List.mem_append.mp h with old | new
  · exact faithful offset' bytes old j b hb
  · cases List.mem_singleton.mp new
    rw [alive] at hb
    exact lends.refers.read standing 0 hb

private theorem SocketMove.faithful {a : TcpAct} {t : Transition Conn TcpAct TcpEvent} (move : SocketMove c a evs c')
    (faithful : Faithful tr) (lends : Lends tr c) (keeps : KeepsBytes tr t) (act : t.act = a) :
    Faithful (tr ++ evs) := by
  cases move with
  | transmits _ pos le =>
    rw [KeepsBytes, act] at keeps
    exact faithful.transmits lends keeps pos le
  | @startAccepts n point | @startArrives data point =>
    refine faithful.append fun offset bytes h => ?_
    cases point <;> cases List.mem_singleton.mp h
  | _ => exact faithful.append (by simp)

/-- The invariant of the download. A crash may leave a `tcp_write` half done. -/
structure Downloads (tr : List TcpEvent) (c : Conn) : Prop where
  shape : Shape c
  faithful : Faithful tr
  lends : c.halted = false → Lends tr c

private theorem downloads_init (h : connMachine.Init c) : Downloads [] c := by
  have shape := shape_init h
  obtain ⟨localIp, localPort, buff, opened, _, _, rfl⟩ := h
  refine ⟨shape, fun _ _ h => absurd h List.not_mem_nil,
    fun _ => ⟨rfl, .nil _ _, ?_, fun _ _ _ => rfl, fun _ => rfl, ?_⟩⟩
  · exact fun h => nomatch h
  · intro n h
    cases opened <;> cases h

private theorem reap_not_transmitted (c : Conn) (offset : Nat) (bytes : List UInt8) :
    .transmitted offset bytes ∉ c.reap.2 := by
  unfold Conn.reap
  split <;> simp

private theorem downloads_callbacks {seg : Segment} (chain : Chain (Callback seg) c evs c') (faithful : Faithful tr)
    (lends : Lends tr c) : Faithful (tr ++ evs) ∧ Lends (tr ++ evs) c' := by
  refine chain.preserves (fun tr c => Faithful tr ∧ Lends tr c) ?_ tr ⟨faithful, lends⟩
  rintro tr c evs c' ⟨faithful, lends⟩ move
  exact ⟨faithful.append move.inert.transmitted, move.lends lends⟩

private theorem downloads_tcpStep {a : TcpAct} {t : Transition Conn TcpAct TcpEvent} (step : TcpStep c a evs c')
    (faithful : Faithful tr) (lends : Lends tr c) (shape : Shape c) (keeps : KeepsBytes tr t) (pre : t.pre = c)
    (act : t.act = a) : Faithful (tr ++ evs) ∧ (c'.halted = false → Lends (tr ++ evs) c') := by
  cases step with
  | input chain | reset chain =>
    obtain ⟨faithful', lends'⟩ := downloads_callbacks chain faithful lends
    exact ⟨faithful', fun _ => lends'⟩
  | socket move => exact ⟨move.faithful faithful lends keeps act, fun _ => move.lends lends shape⟩
  | @resumed id room _ _ move =>
    refine ⟨faithful.append move.not_transmitted, move.lends lends shape ?_⟩
    rintro rfl
    rw [KeepsBytes, act] at keeps
    exact pre ▸ keeps

private theorem downloads_step {a : TcpAct} {out : List TcpEvent} (downloads : Downloads tr c)
    (h : connMachine.step c a = some (c', out)) (keeps : KeepsBytes tr ⟨c, a, out, c'⟩) : Downloads (tr ++ out) c' := by
  have shape := shape_step downloads.shape h
  obtain ⟨going, mid, evs, step, rfl, rfl⟩ := tcpStep_of_step h
  obtain ⟨faithful, lends⟩ :=
    downloads_tcpStep step downloads.faithful (downloads.lends going) downloads.shape keeps rfl rfl
  rw [← List.append_assoc]
  refine ⟨shape, faithful.append (reap_not_transmitted mid), fun still => (lends ?_).reap⟩
  obtain ⟨_, _, eq⟩ := mid.reap_eq
  rwa [eq] at still

/-- In every run in which lwIP transmits no byte after a later read has been stored over it, takes every write and
queues it behind the ones before, it transmits at every offset of the stream the byte read there. -/
theorem downloads_faithfully {ts : List (Transition Conn TcpAct TcpEvent)} {c : Conn} (run : connMachine.Run ts c)
    (keeps : Machine.Along KeepsBytes [] ts) : Faithful (Machine.trace ts) :=
  (run.along KeepsBytes Downloads (fun _ => downloads_init)
    (fun _ _ _ _ _ downloads h keeps => downloads_step downloads h keeps) keeps).faithful

/-- Two reads, each transmitted before the next one ends, and a retransmission of bytes
that the second, shorter read has left alone. -/
theorem downloads_faithfully_promptly : ∃ ts c, connMachine.Run ts c ∧ Machine.Along KeepsBytes [] ts ∧
    .transmitted 1 [2, 3] ∈ Machine.trace ts ∧ .transmitted 3 [4] ∈ Machine.trace ts ∧
    Faithful (Machine.trace ts) := by
  obtain ⟨ts, c, run, facts⟩ := Machine.Run.exists_of_exec connMachine webConn
    (greeting ++ [.arrive [1, 2, 3], .resume .start .free, .transmit 0 3 [] false, .arrive [4], .transmit 1 2 [] false,
      .resume .start .free, .transmit 3 1 [] false])
    (fun ts _ => decide (Machine.Along KeepsBytes [] ts ∧ .transmitted 1 [2, 3] ∈ Machine.trace ts ∧
      .transmitted 3 [4] ∈ Machine.trace ts)) webConn_init (by decide +kernel)
  obtain ⟨keeps, again, next⟩ := of_decide_eq_true facts
  exact ⟨ts, c, run, keeps, again, next, downloads_faithfully run keeps⟩

/-- The window of the local peer is closed when the first read is written, and the second
read is stored over it before it is sent. -/
theorem later_read_is_transmitted : ∃ ts c, connMachine.Run ts c ∧
    downloadedBytes (Machine.trace ts) = [1, 2, 3, 4] ∧ .transmitted 0 [3, 4] ∈ Machine.trace ts ∧
    ¬ Faithful (Machine.trace ts) := by
  obtain ⟨ts, c, run, facts⟩ := Machine.Run.exists_of_exec connMachine webConn
    (greeting ++ [.arrive [1, 2], .resume .start .free, .arrive [3, 4], .transmit 0 2 [] false])
    (fun ts _ => decide (downloadedBytes (Machine.trace ts) = [1, 2, 3, 4] ∧
      .transmitted 0 [3, 4] ∈ Machine.trace ts)) webConn_init (by decide +kernel)
  obtain ⟨read, sent⟩ := of_decide_eq_true facts
  refine ⟨ts, c, run, read, sent, fun faithful => ?_⟩
  have first := faithful 0 [3, 4] sent 0 3 rfl
  rw [read] at first
  cases first

end Runs

end Tunosocks.Tcp
