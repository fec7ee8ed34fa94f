import Tunosocks.Tcp.Upload

/-! The stream of bytes the remote socket accepts: the 3 bytes of the method request and
the 10 bytes of the SOCKS5 request, then the bytes of local packets. -/
namespace Tunosocks.Tcp
open Foundation Coroutine

/-- All bytes the remote socket has accepted. -/
def acceptedBytes (tr : List TcpEvent) : List UInt8 :=
  tr.flatMap fun
    | .greeted data | .uploaded data => data
    | _ => []

/-- The bytes of the handshake among them. -/
def greetedBytes (tr : List TcpEvent) : List UInt8 :=
  tr.flatMap fun
    | .greeted data => data
    | _ => []

namespace StartPoint

/-- How much of the handshake is accepted before the operation at a point begins. -/
def hailed : StartPoint → Nat
  | .connect => 0
  | .methodWrite sent => sent
  | .methodRead => 3
  | .requestWrite sent => 3 + sent
  | _ => 13

/-- How much of it is accepted when the operation has transferred `n` bytes. -/
def hailedAfter (n : Nat) : StartPoint → Nat
  | .methodWrite sent => sent + n
  | .requestWrite sent => 3 + (sent + n)
  | p => p.hailed

/-- How much of it is accepted when the composed operation is over. -/
def hailedAtMost : StartPoint → Nat
  | .methodWrite _ => 3
  | .requestWrite _ => 13
  | p => p.hailed

end StartPoint

/-- The handshake's bytes come first, and all of them before any other. -/
structure Hailed (tr : List TcpEvent) (c : Conn) : Prop where
  bytes : acceptedBytes tr = greetedBytes tr ++ uploadedBytes tr
  most : (greetedBytes tr).length ≤ 13
  waits : ∀ p, c.start = .suspended p → (greetedBytes tr).length = p.hailed
  done : ∀ p n, c.start = .completed p (.ok n) →
    (greetedBytes tr).length = p.hailedAfter n ∧ p.hailedAfter n ≤ p.hailedAtMost
  relays : ∀ p, c.start.point? = some p → p.greets = false → (greetedBytes tr).length = 13
  writers : ¬ AllGone c.writing → (greetedBytes tr).length = 13
  uploads : uploadedBytes tr ≠ [] → (greetedBytes tr).length = 13
  early : c.Greeting → uploadedBytes tr = []

/-- What follows the handshake is what was accepted of local packets. -/
theorem Hailed.drop_accepted {tr : List TcpEvent} {c : Conn} (hailed : Hailed tr c) :
    (acceptedBytes tr).drop 13 = uploadedBytes tr := by
  rw [hailed.bytes]
  by_cases none_ : uploadedBytes tr = []
  · rw [none_, List.append_nil, List.drop_of_length_le hailed.most]
  · rw [← hailed.uploads none_, List.drop_left]

section Moves
variable {tr evs : List TcpEvent} {c c' : Conn}

/-- Events in which the remote socket accepts nothing. -/
def Silent (evs : List TcpEvent) : Prop := acceptedBytes evs = [] ∧ greetedBytes evs = [] ∧ uploadedBytes evs = []

private theorem acceptedBytes_append (tr evs : List TcpEvent) :
    acceptedBytes (tr ++ evs) = acceptedBytes tr ++ acceptedBytes evs := List.flatMap_append

theorem greetedBytes_append (tr evs : List TcpEvent) :
    greetedBytes (tr ++ evs) = greetedBytes tr ++ greetedBytes evs := List.flatMap_append

theorem Silent.append {evs' : List TcpEvent} (first : Silent evs) (second : Silent evs') : Silent (evs ++ evs') := by
  refine ⟨?_, ?_, ?_⟩
  · rw [acceptedBytes_append, first.1, second.1, List.append_nil]
  · rw [greetedBytes_append, first.2.1, second.2.1, List.append_nil]
  · rw [uploadedBytes_append, first.2.2, second.2.2, List.append_nil]

/-- A move in which nothing is accepted has only to keep what is known of the coroutines. -/
private theorem Hailed.silent (hailed : Hailed tr c) (silent : Silent evs)
    (waits : ∀ p, c'.start = .suspended p → (greetedBytes tr).length = p.hailed)
    (done : ∀ p n, c'.start = .completed p (.ok n) →
      (greetedBytes tr).length = p.hailedAfter n ∧ p.hailedAfter n ≤ p.hailedAtMost)
    (relays : ∀ p, c'.start.point? = some p → p.greets = false → (greetedBytes tr).length = 13)
    (writers : ¬ AllGone c'.writing → (greetedBytes tr).length = 13) (early : c'.Greeting → c.Greeting) :
    Hailed (tr ++ evs) c' := by
  have accepted : acceptedBytes (tr ++ evs) = acceptedBytes tr := by
    rw [acceptedBytes_append, silent.1, List.append_nil]
  have greeted : greetedBytes (tr ++ evs) = greetedBytes tr := by
    rw [greetedBytes_append, silent.2.1, List.append_nil]
  have uploaded : uploadedBytes (tr ++ evs) = uploadedBytes tr := by
    rw [uploadedBytes_append, silent.2.2, List.append_nil]
  constructor
  · rw [accepted, greeted, uploaded]
    exact hailed.bytes
  · rw [greeted]
    exact hailed.most
  · rwa [greeted]
  · rwa [greeted]
  · rwa [greeted]
  · rwa [greeted]
  · rw [greeted, uploaded]
    exact hailed.uploads
  · rw [uploaded]
    exact fun greets => hailed.early (early greets)

/-- The coroutine of `Start` stays where it is. -/
private theorem Hailed.congr (hailed : Hailed tr c) (silent : Silent evs) (start : c'.start = c.start)
    (writers : AllGone c.writing → AllGone c'.writing) : Hailed (tr ++ evs) c' := by
  refine hailed.silent silent ?_ ?_ ?_ (fun h => hailed.writers fun gone => h (writers gone)) ?_
  · rw [start]
    exact hailed.waits
  · rw [start]
    exact hailed.done
  · rw [start]
    exact hailed.relays
  · rw [Conn.Greeting, Conn.Greeting, start]
    exact id

/-- The operation of `Start` ends without a byte accepted, or `Start` returns. -/
private theorem Hailed.breaks (hailed : Hailed tr c) (silent : Silent evs) (waits : ∀ p, c'.start ≠ .suspended p)
    (done : ∀ p n, c'.start = .completed p (.ok n) → c.start = .completed p (.ok n))
    (point : ∀ p, c'.start.point? = some p → c.start.point? = some p) (writers : c'.writing = c.writing) :
    Hailed (tr ++ evs) c' := by
  refine hailed.silent silent (fun p h => absurd h (waits p)) (fun p n h => hailed.done p n (done p n h))
    (fun p h => hailed.relays p (point p h)) (writers ▸ hailed.writers) ?_
  rintro ⟨p, at_, greets⟩
  exact ⟨p, point p at_, greets⟩

/-- `Start` goes on to its next operation. -/
private theorem Hailed.goesOn {d : Conn} {p p' : StartPoint} {n : Nat} (hailed : Hailed tr c) (silent : Silent evs)
    (at_ : c.start = .completed p (.ok n)) (next : p.hailedAfter n ≤ p.hailedAtMost → p'.hailed = p.hailedAfter n)
    (fits : p'.hailed ≤ p'.hailedAtMost) (greets : p'.greets = true → p.greets = true)
    (writers : d.writing = c.writing) :
    Hailed (tr ++ evs) (d.awaitStart p') := by
  obtain ⟨length, most⟩ := hailed.done p n at_
  have length : (greetedBytes tr).length = p'.hailed := length.trans (next most).symm
  refine hailed.silent silent ?_ ?_ ?_ ?_ ?_
  · intro q h
    cases Conn.suspended_awaitStart h
    exact length
  · intro q m h
    obtain ⟨rfl, ended, _⟩ := Conn.completed_awaitStart h
    cases ended
    have same : q.hailedAfter 0 = q.hailed := by cases q <;> rfl
    rw [same]
    exact ⟨length, fits⟩
  · intro q h relays
    cases (Conn.point?_awaitStart _ _).symm.trans h
    rw [length]
    cases p' <;> first | rfl | cases relays
  · exact fun h => hailed.writers (writers ▸ h)
  · intro greets'
    exact ⟨p, point?_of_completed at_, greets ((Conn.greeting_awaitStart _ _).mp greets')⟩

/-- Once the handshake is out, only its length matters. -/
private theorem Hailed.of_thirteen (bytes : acceptedBytes tr = greetedBytes tr ++ uploadedBytes tr)
    (thirteen : (greetedBytes tr).length = 13) (past : ¬ c.Greeting) : Hailed tr c := by
  have relays {p : StartPoint} (at_ : c.start.point? = some p) : p.greets = false :=
    Bool.eq_false_iff.mpr fun greets => past ⟨p, at_, greets⟩
  refine ⟨bytes, thirteen.le, ?_, ?_, fun _ _ _ => thirteen, fun _ => thirteen, fun _ => thirteen,
    fun greets => absurd greets past⟩
  · intro p h
    have off : p.greets = false := relays (by rw [h]; rfl)
    rw [thirteen]
    cases p <;> first | rfl | cases off
  · intro p n h
    have off : p.greets = false := relays (point?_of_completed h)
    rw [thirteen]
    cases p <;> first | exact ⟨rfl, Nat.le_refl _⟩ | cases off

private theorem Hailed.uploaded (hailed : Hailed tr c) (thirteen : (greetedBytes tr).length = 13)
    (past : ¬ c'.Greeting) (data : List UInt8) : Hailed (tr ++ [.uploaded data]) c' := by
  have greeted : greetedBytes (tr ++ [.uploaded data]) = greetedBytes tr := by
    rw [greetedBytes_append]
    exact List.append_nil _
  refine .of_thirteen ?_ (greeted ▸ thirteen) past
  rw [acceptedBytes_append, greeted, uploadedBytes_append, hailed.bytes, List.append_assoc]
  rfl

/-- Bytes of the handshake are accepted. -/
private theorem Hailed.greeted {p : StartPoint} {n : Nat} {data : List UInt8} (hailed : Hailed tr c)
    (at_ : c.start = .suspended p) (greets : p.greets = true) (grows : p.hailedAfter n = p.hailed + data.length)
    (fits : p.hailedAfter n ≤ p.hailedAtMost) (start : c'.start = .completed p (.ok n))
    (gone : AllGone c'.writing) : Hailed (tr ++ [.greeted data]) c' := by
  have point : c.start.point? = some p := by rw [at_]; rfl
  have none_ : uploadedBytes tr = [] := hailed.early ⟨p, point, greets⟩
  have greeted : greetedBytes (tr ++ [.greeted data]) = greetedBytes tr ++ data := by
    rw [greetedBytes_append]
    exact congrArg (greetedBytes tr ++ ·) (List.append_nil _)
  have uploaded : uploadedBytes (tr ++ [.greeted data]) = [] := by
    rw [uploadedBytes_append, none_]
    rfl
  have length : (greetedBytes tr ++ data).length = p.hailedAfter n := by
    rw [List.length_append, hailed.waits p at_, grows]
  have most : p.hailedAtMost ≤ 13 := by cases p <;> simp [StartPoint.hailedAtMost, StartPoint.hailed]
  constructor
  · rw [acceptedBytes_append, greeted, uploaded, hailed.bytes, none_, List.append_nil, List.append_nil]
    exact congrArg (greetedBytes tr ++ ·) (List.append_nil _)
  · rw [greeted, length]
    exact fits.trans most
  · exact fun q h => nomatch start.symm.trans h
  · intro q m h
    cases start.symm.trans h
    rw [greeted]
    exact ⟨length, fits⟩
  · intro q h off
    rw [start] at h
    cases h
    rw [greets] at off
    cases off
  · exact fun h => absurd gone h
  · exact fun h => absurd uploaded h
  · exact fun _ => uploaded

/-- A connect or a read of `Start` succeeds. -/
private theorem Hailed.received {p : StartPoint} {n : Nat} (hailed : Hailed tr c) (silent : Silent evs)
    (at_ : c.start = .suspended p) (reads : p.writes = false) (start : c'.start = .completed p (.ok n))
    (writers : c'.writing = c.writing) : Hailed (tr ++ evs) c' := by
  have point : c.start.point? = some p := by rw [at_]; rfl
  have point' : c'.start.point? = some p := point?_of_completed start
  have same : p.hailedAfter n = p.hailed ∧ p.hailedAtMost = p.hailed := by
    cases p <;> first | exact ⟨rfl, rfl⟩ | cases reads
  refine hailed.silent silent (fun q h => nomatch start.symm.trans h) ?_ ?_ (writers ▸ hailed.writers) ?_
  · intro q m h
    cases start.symm.trans h
    rw [same.1, same.2]
    exact ⟨hailed.waits p at_, Nat.le_refl _⟩
  · intro q h
    cases point'.symm.trans h
    exact hailed.relays p point
  · rw [Conn.Greeting, Conn.Greeting, point', point]
    exact id

/-! ### The three kinds of moves -/

theorem Callback.hailed {seg : Segment} (move : Callback seg c evs c') (hailed : Hailed tr c) (shape : Shape c) :
    Hailed (tr ++ evs) c' := by
  cases move with
  | lwip change =>
    refine hailed.congr ?_ rfl id
    cases change <;> exact ⟨rfl, rfl, rfl⟩
  | stopped =>
    exact hailed.breaks ⟨rfl, rfl, rfl⟩ (fun p => cancel_ne_suspended _ p) (fun p n => cancel_eq_completed_ok.mp)
      (fun p h => (point?_cancel c.start).symm.trans h) (map_point?_cancel _)
  | writerSpawned _ _ _ relaying =>
    have past : ¬ c.Greeting := fun greets => (shape.greeting greets).2.2 relaying
    have thirteen : (greetedBytes tr).length = 13 := by
      cases at_ : c.start.point? with
      | none => cases relaying.symm.trans (shape.ended at_)
      | some q => exact hailed.relays q at_ (Bool.eq_false_iff.mpr fun greets => past ⟨q, at_, greets⟩)
    obtain ⟨_, _, _, _, eq⟩ := Conn.writerLoop_eq _ c.writers.length
    rw [eq]
    exact hailed.silent ⟨rfl, rfl, rfl⟩ hailed.waits hailed.done (fun _ _ _ => thirteen) (fun _ => thirteen) id
  | _ => exact hailed.congr ⟨rfl, rfl, rfl⟩ rfl id

private theorem greeted_accepts {p : StartPoint} {n : Nat} {buff : RecvBuff} {bytes : List UInt8}
    (offers : p.offered buff = some bytes) (pos : 0 < n) (le : n ≤ bytes.length) (greets : p.greets = true) :
    p.hailedAfter n = p.hailed + (bytes.take n).length ∧ p.hailedAfter n ≤ p.hailedAtMost := by
  rw [List.length_take, Nat.min_eq_left le]
  cases p with
  | methodWrite sent =>
    cases offers
    simp only [defaultMethodRequest, List.length_drop, List.length_cons, List.length_nil] at le
    exact ⟨rfl, by simp only [StartPoint.hailedAfter, StartPoint.hailedAtMost]; omega⟩
  | requestWrite sent =>
    cases offers
    rw [Buffer.length_slice] at le
    exact ⟨(Nat.add_assoc ..).symm, by simp only [StartPoint.hailedAfter, StartPoint.hailedAtMost]; omega⟩
  | drainWrite => cases greets
  | _ => cases offers

theorem SocketMove.hailed {a : TcpAct} (move : SocketMove c a evs c') (hailed : Hailed tr c) (shape : Shape c) :
    Hailed (tr ++ evs) c' := by
  cases move with
  | connected at_ => exact hailed.received ⟨rfl, rfl, rfl⟩ at_ rfl rfl rfl
  | connectFailed at_ | startWriteFails _ at_ | startReadFails _ at_ =>
    exact hailed.breaks ⟨rfl, rfl, rfl⟩ (fun _ h => nomatch h) (fun _ _ h => nomatch h)
      (fun p h => (by rw [at_]; exact h)) rfl
  | @startAccepts n point bytes rest oldest at_ offers pos le =>
    have at' : c.start.point? = some point := by rw [at_]; rfl
    cases greets : point.greets with
    | false =>
      have accepted : point.accepted (bytes.take n) = .uploaded (bytes.take n) := by
        cases point with
        | drainWrite => rfl
        | downloadRead => cases offers
        | _ => cases greets
      rw [accepted]
      refine hailed.uploaded (hailed.relays point at' greets) ?_ _
      rintro ⟨q, h, greets'⟩
      cases h
      exact Bool.noConfusion (greets.symm.trans greets')
    | true =>
      have accepted : point.accepted (bytes.take n) = .greeted (bytes.take n) := by
        cases point <;> first | rfl | cases greets
      obtain ⟨grows, fits⟩ := greeted_accepts offers pos le greets
      have gone : AllGone c.writing := (shape.greeting ⟨point, at', greets⟩).1 ▸ AllGone.nil
      rw [accepted]
      exact hailed.greeted at_ greets grows fits rfl gone
  | @writerAccepts n j point rest oldest at_ =>
    have busy : ¬ AllGone c.writing := busy_of at_ rfl
    refine hailed.uploaded (hailed.writers busy) ?_ _
    exact fun greets => not_greeting_of_busy shape busy greets
  | @startArrives data point _ _ _ _ at_ takes =>
    refine hailed.received ?_ at_ ?_ rfl rfl
    · cases point <;> exact ⟨rfl, rfl, rfl⟩
    · cases point <;> first | rfl | cases takes
  | writerWriteFails _ at_ => exact hailed.congr ⟨rfl, rfl, rfl⟩ rfl fun gone => absurd gone (busy_of at_ rfl)
  | readerArrives | readerReadFails | transmits => exact hailed.congr ⟨rfl, rfl, rfl⟩ rfl id

private theorem Touches.silent {room : Room} {n : Nat} {p : StartPoint} (h : Touches c room n p evs) : Silent evs := by
  cases h <;> exact ⟨rfl, rfl, rfl⟩

private theorem Greets.hailed {p p' : StartPoint} {n : Nat} (h : Greets p n p') :
    (p.hailedAfter n ≤ p.hailedAtMost → p'.hailed = p.hailedAfter n) ∧ p'.hailed ≤ p'.hailedAtMost := by
  cases h with
  | methodWritesOn short => exact ⟨fun _ => rfl, short.le⟩
  | methodWritten whole => exact ⟨fun most => Nat.le_antisymm whole most, Nat.le_refl _⟩
  | requestWritesOn short => exact ⟨fun _ => rfl, Nat.add_le_add_left short.le 3⟩
  | requestWritten whole => exact ⟨fun most => Nat.le_antisymm (Nat.add_le_add_left whole 3) most, Nat.le_refl _⟩
  | replyReadsOn => exact ⟨fun _ => rfl, Nat.le_refl _⟩

/-- `Start` goes on to the drain loop, or from one round of it to the next. -/
private theorem Hailed.drainLoop {d : Conn} {p : StartPoint} {n : Nat} (hailed : Hailed tr c) (silent : Silent evs)
    (at_ : c.start = .completed p (.ok n)) (thirteen : p.hailedAfter n = 13) (start : d.start = c.start)
    (writers : d.writing = c.writing) : Hailed (tr ++ (evs ++ d.drainLoop.2)) d.drainLoop.1 := by
  rcases d.drainLoop_cases with ⟨_, loop⟩ | ⟨front, rest, _, ⟨_, loop⟩ | ⟨_, loop⟩⟩
  · rw [loop, List.append_nil]
    exact hailed.goesOn silent at_ (fun _ => thirteen.symm) (Nat.le_refl _) (fun h => nomatch h) writers
  · rw [loop, List.append_nil]
    exact hailed.goesOn silent at_ (fun _ => thirteen.symm) (Nat.le_refl _) (fun h => nomatch h) writers
  · rw [loop]
    refine hailed.congr (silent.append ⟨rfl, rfl, rfl⟩) start fun gone => ?_
    change AllGone d.writing
    rwa [writers]

theorem Resumes.hailed {room : Room} {id : CoroId} (move : Resumes c room id evs c') (hailed : Hailed tr c) :
    Hailed (tr ++ evs) c' := by
  have ends {d : Conn} (silent : Silent evs) (start : d.start = .finished) (writers : d.writers = c.writers) :
      Hailed (tr ++ evs) d := by
    refine hailed.breaks silent ?_ ?_ ?_ (congrArg (List.map point?) writers) <;> rw [start]
    · exact fun _ h => nomatch h
    · exact fun _ _ h => nomatch h
    · exact fun _ h => nomatch h
  cases move with
  | startFailed | rejected | drainEnds | downloadEnds => exact ends ⟨rfl, rfl, rfl⟩ rfl rfl
  | connected at_ | requests at_ =>
    exact hailed.goesOn ⟨rfl, rfl, rfl⟩ at_ (fun _ => rfl) (by decide) (fun _ => rfl) rfl
  | greets at_ next =>
    exact hailed.goesOn ⟨rfl, rfl, rfl⟩ at_ next.hailed.1 next.hailed.2 (fun _ => next.greets.1) rfl
  | relays at_ =>
    have first : Silent [.used .localPort] := ⟨rfl, rfl, rfl⟩
    exact hailed.drainLoop first at_ rfl rfl rfl
  | drainWritesOn at_ =>
    exact hailed.goesOn ⟨rfl, rfl, rfl⟩ at_ (fun _ => rfl) (Nat.le_refl _) (fun h => nomatch h) rfl
  | drains at_ => exact hailed.drainLoop ⟨rfl, rfl, rfl⟩ at_ rfl rfl rfl
  | @parks n =>
    obtain ⟨pcb, eq, _⟩ := c.writeLocal_eq n room
    rw [eq]
    exact ends ⟨rfl, rfl, rfl⟩ rfl rfl
  | @downloads n at_ =>
    obtain ⟨pcb, eq, _⟩ := c.writeLocal_eq n room
    rw [eq]
    exact hailed.goesOn ⟨rfl, rfl, rfl⟩ at_ (fun _ => rfl) (Nat.le_refl _) (fun h => nomatch h) rfl
  | startDangles _ touches => exact hailed.congr (touches.silent.append ⟨rfl, rfl, rfl⟩) rfl (fun gone => gone)
  | writerFailed at_ | writerWritesOn at_ | writerEnds at_ | writerFollows at_ =>
    exact hailed.congr ⟨rfl, rfl, rfl⟩ rfl fun gone => absurd gone (busy_of at_ rfl)
  | @writerPops j n point at_ =>
    obtain ⟨_, _, _, _, eq⟩ := Conn.writerLoop_eq _ j
    rw [eq]
    exact hailed.congr ⟨rfl, rfl, rfl⟩ rfl fun gone => absurd gone (busy_of at_ rfl)
  | writerDangles | readerDangles | readerFailed | readerEnds =>
    exact hailed.congr ⟨rfl, rfl, rfl⟩ rfl (fun gone => gone)
  | @readerParks j n | @readerReads j n =>
    obtain ⟨pcb, eq, _⟩ := c.writeLocal_eq n room
    rw [eq]
    exact hailed.congr ⟨rfl, rfl, rfl⟩ rfl (fun gone => gone)

private theorem silent_pbufFreed (queue : List Pbuf) : Silent (queue.map .pbufFreed) := by
  induction queue with
  | nil => exact ⟨rfl, rfl, rfl⟩
  | cons p rest ih =>
    have first : Silent [.pbufFreed p] := ⟨rfl, rfl, rfl⟩
    exact first.append ih

/-- The destruction of a session is no business of the remote socket. -/
theorem silent_reap (c : Conn) : Silent c.reap.2 := by
  unfold Conn.reap
  split
  · exact (silent_pbufFreed _).append ⟨rfl, rfl, rfl⟩
  · exact ⟨rfl, rfl, rfl⟩

theorem Hailed.reap (hailed : Hailed tr c) : Hailed (tr ++ c.reap.2) c.reap.1 := by
  obtain ⟨_, _, eq⟩ := c.reap_eq
  rw [eq]
  exact hailed.congr (silent_reap c) rfl id

theorem hailed_init (h : connMachine.Init c) : Hailed [] c := by
  obtain ⟨localIp, localPort, buff, opened, _, _, rfl⟩ := h
  refine ⟨rfl, Nat.zero_le _, ?_, ?_, ?_, fun h => absurd AllGone.nil h, fun h => absurd rfl h, fun _ => rfl⟩
  · rintro p at_
    cases opened <;> cases at_
    rfl
  · rintro p n at_
    cases opened <;> cases at_
  · rintro p at_ relays
    cases opened <;> cases at_
    cases relays

end Moves

end Tunosocks.Tcp
