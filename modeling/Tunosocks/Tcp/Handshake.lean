import Tunosocks.Tcp.Download
import Tunosocks.Tcp.Upload

/-! The SOCKS5 handshake as the server sees it: the chunks its reads return, the reply they make up
and what the session does then. -/
namespace Tunosocks.Tcp
open Foundation Foundation.Buffer Coroutine

/-- The chunks returned by the reads of the handshake. -/
def answers (tr : List TcpEvent) : List (List UInt8) :=
  tr.filterMap fun
    | .answered data => some data
    | _ => none

/-- All bytes read from the server. -/
def serverBytes (tr : List TcpEvent) : List UInt8 :=
  tr.flatMap fun
    | .answered data | .downloaded data => data
    | _ => []

/-- The session has been in `SESSION_RELAYING`. -/
def Relayed (ts : List (Transition Conn TcpAct TcpEvent)) : Prop := ∃ t ∈ ts, t.post.status = .relaying

/-- The first read returned one or two bytes, and the next ten begin with 05 00 00 01. -/
def Replied : List (List UInt8) → Prop
  | [] => False
  | m :: rest => (m ≠ [] ∧ m.length ≤ 2) ∧ rest.flatten.length = 10 ∧ rest.flatten.take 4 = [5, 0, 0, 1]

/-- Before the answer to the method request. -/
def StartPoint.opens : StartPoint → Bool
  | .connect | .methodWrite _ | .methodRead => true
  | _ => false

/-- Where the handshake stands, with the chunks read so far. -/
inductive Progress (c : Conn) : List (List UInt8) → Prop where
  | opening {p : StartPoint} (at_ : c.start.point? = some p) (opens : p.opens = true)
      (unread : ∀ n, c.start ≠ .completed .methodRead (.ok n)) : Progress c []
  | chosen {m : List UInt8} {n : Nat} (at_ : c.start = .completed .methodRead (.ok n))
      (size : m ≠ [] ∧ m.length ≤ 2) : Progress c [m]
  | requesting {m : List UInt8} {sent : Nat} (at_ : c.start.point? = some (.requestWrite sent))
      (size : m ≠ [] ∧ m.length ≤ 2) : Progress c [m]
  | replying {m : List UInt8} {rest : List (List UInt8)} {got : Nat} (at_ : c.start.point? = some (.requestRead got))
      (unread : ∀ n, c.start ≠ .completed (.requestRead got) (.ok n)) (size : m ≠ [] ∧ m.length ≤ 2) (short : got < 10)
      (stored : rest.flatten = slice c.remoteRecvBuff.1 0 got) : Progress c (m :: rest)
  | replied {m : List UInt8} {rest : List (List UInt8)} {got n : Nat}
      (at_ : c.start = .completed (.requestRead got) (.ok n)) (size : m ≠ [] ∧ m.length ≤ 2) (fits : got + n ≤ 10)
      (stored : rest.flatten = slice c.remoteRecvBuff.1 0 (got + n)) : Progress c (m :: rest)

section Moves
variable {c c' : Conn} {evs : List TcpEvent} {chunks : List (List UInt8)}

@[simp] theorem answers_append (tr evs : List TcpEvent) : answers (tr ++ evs) = answers tr ++ answers evs :=
  List.filterMap_append

@[simp] theorem serverBytes_append (tr evs : List TcpEvent) :
    serverBytes (tr ++ evs) = serverBytes tr ++ serverBytes evs := List.flatMap_append

private theorem greeting_congr (start : c'.start.point? = c.start.point?) : c'.Greeting ↔ c.Greeting := by
  rw [Conn.Greeting, Conn.Greeting, start]

/-- The handshake stays where it is, or its operation is cancelled. -/
private theorem Progress.congr (progress : Progress c chunks) (start : c'.start = c.start ∨ c'.start = c.start.cancel)
    (buff : c'.remoteRecvBuff = c.remoteRecvBuff) : Progress c' chunks := by
  have point : c'.start.point? = c.start.point? := by
    rcases start with eq | eq <;> simp [eq]
  have done (p : StartPoint) (n : Nat) :
      c'.start = .completed p (.ok n) ↔ c.start = .completed p (.ok n) := by
    rcases start with eq | eq <;> simp [eq]
  cases progress with
  | opening at_ opens unread => exact .opening (point.trans at_) opens fun n h => unread n ((done _ _).mp h)
  | chosen at_ size => exact .chosen ((done _ _).mpr at_) size
  | requesting at_ size => exact .requesting (point.trans at_) size
  | replying at_ unread size short stored =>
    exact .replying (point.trans at_) (fun n h => unread n ((done _ _).mp h)) size short (buff ▸ stored)
  | replied at_ size fits stored => exact .replied ((done _ _).mpr at_) size fits (buff ▸ stored)

/-- A step that is none of the server's business, but may cancel. -/
structure Unheard (c : Conn) (evs : List TcpEvent) (c' : Conn) : Prop where
  start : c'.start = c.start ∨ c'.start = c.start.cancel ∧ .stopped ∈ evs
  buff : c'.remoteRecvBuff = c.remoteRecvBuff
  answered : answers evs = []
  server : serverBytes evs = []
  downloaded : downloadedBytes evs = []
  uploaded : uploadedBytes evs = []

private theorem Callback.unheard {seg : Segment} (move : Callback seg c evs c') : Unheard c evs c' := by
  cases move with
  | stopped => exact ⟨Or.inr ⟨rfl, List.mem_singleton.mpr rfl⟩, rfl, rfl, rfl, rfl, rfl⟩
  | lwip change => cases change <;> exact ⟨Or.inl rfl, rfl, rfl, rfl, rfl, rfl⟩
  | writerSpawned =>
    obtain ⟨_, _, _, _, eq⟩ := Conn.writerLoop_eq _ c.writers.length
    rw [eq]
    exact ⟨Or.inl rfl, rfl, rfl, rfl, rfl, rfl⟩
  | stoppedAgain | stopDangles | erased | queued | refused | readerSpawned | crashed =>
    exact ⟨Or.inl rfl, rfl, rfl, rfl, rfl, rfl⟩

theorem unheard_chain {seg : Segment} (chain : Chain (Callback seg) c evs c') : Unheard c evs c' := by
  induction chain with
  | nil => exact ⟨Or.inl rfl, rfl, rfl, rfl, rfl, rfl⟩
  | @snoc d e evs evs' first move ih =>
    have last := move.unheard
    refine ⟨?_, last.buff.trans ih.buff, ?_, ?_, ?_, ?_⟩
    · rcases ih.start with same | ⟨cancelled, stopped⟩
      · rcases last.start with same' | ⟨cancelled, stopped⟩
        · exact Or.inl (same'.trans same)
        · exact Or.inr ⟨by rw [cancelled, same], List.mem_append_right _ stopped⟩
      · refine Or.inr ⟨?_, List.mem_append_left _ stopped⟩
        rcases last.start with same' | ⟨cancelled', _⟩
        · exact same'.trans cancelled
        · rw [cancelled', cancelled, cancel_cancel]
    · rw [answers_append, ih.answered, last.answered]
      rfl
    · rw [serverBytes_append, ih.server, last.server]
      rfl
    · rw [downloadedBytes_append, ih.downloaded, last.downloaded]
      rfl
    · rw [uploadedBytes_append, ih.uploaded, last.uploaded]
      rfl

theorem Progress.greeting (progress : Progress c chunks) : c.Greeting := by
  cases progress with
  | @opening p at_ opens =>
    refine ⟨p, at_, ?_⟩
    cases p <;> first | rfl | cases opens
  | chosen at_ => exact ⟨_, point?_of_completed at_, rfl⟩
  | requesting at_ => exact ⟨_, at_, rfl⟩
  | replying at_ => exact ⟨_, at_, rfl⟩
  | replied at_ => exact ⟨_, point?_of_completed at_, rfl⟩

private theorem Progress.at (progress : Progress c chunks) {p : StartPoint} (at_ : c.start.point? = some p) :
    p.greets = true := by
  obtain ⟨q, at', greets⟩ := progress.greeting
  cases at_.symm.trans at'
  exact greets

/-- An operation of the handshake ends that is not a successful read. -/
private theorem Progress.completes (progress : Progress c chunks) {p : StartPoint} {r : Completion}
    (at_ : c.start = .suspended p) (done : c'.start = .completed p r) (silent : r = .error ∨ p.window = none)
    (buff : c'.remoteRecvBuff = c.remoteRecvBuff) : Progress c' chunks := by
  have point : c'.start.point? = c.start.point? := by
    rw [done, at_]
    rfl
  have unread (q : StartPoint) (reads : q.window ≠ none) (n : Nat) : c'.start ≠ .completed q (.ok n) := by
    rw [done]
    rintro ⟨⟩
    exact silent.elim nofun reads
  cases progress with
  | opening at' opens => exact .opening (point.trans at') opens (unread _ nofun)
  | chosen at' | replied at' => cases at_.symm.trans at'
  | requesting at' size => exact .requesting (point.trans at') size
  | replying at' _ size short stored =>
    exact .replying (point.trans at') (unread _ nofun) size short (buff ▸ stored)

/-- A read of the handshake returns. -/
private theorem Progress.reads (progress : Progress c chunks) {d : Conn} {p : StartPoint} {off size : Nat}
    {data : List UInt8}
    (at_ : c.start = .suspended p) (takes : p.window = some (off, size)) (some_ : data ≠ []) (le : data.length ≤ size)
    (done : d.start = .completed p (.ok data.length)) (buff : d.remoteRecvBuff = c.remoteRecvBuff.store off data) :
    p ≠ .downloadRead ∧ Progress d (chunks ++ [data]) := by
  have greets := progress.at (show c.start.point? = some p by rw [at_]; rfl)
  cases progress with
  | chosen at' | replied at' => cases at_.symm.trans at'
  | requesting at' =>
    rw [at_] at at'
    cases at'
    cases takes
  | opening at' opens =>
    rw [at_] at at'
    cases at'
    cases p with
    | methodRead =>
      cases takes
      exact ⟨nofun, .chosen done ⟨some_, le⟩⟩
    | connect | methodWrite => cases takes
    | _ => cases opens
  | @replying m rest got at' _ size short stored =>
    rw [at_] at at'
    cases at'
    cases takes
    have room : off + data.length ≤ c.remoteRecvBuff.1.length := by
      have bound : tcpRecvBuffSize = 1436 := rfl
      rw [c.remoteRecvBuff.2]
      omega
    have bytes : (rest ++ [data]).flatten = slice d.remoteRecvBuff.1 0 (off + data.length) := by
      have before : slice (writeAt c.remoteRecvBuff.1 off data) 0 off = slice c.remoteRecvBuff.1 0 off :=
        slice_writeAt_disjoint (Or.inl (by omega))
      have same : slice (writeAt c.remoteRecvBuff.1 off data) (0 + off) data.length = data := by
        rw [Nat.zero_add]
        exact slice_writeAt_same rfl room
      rw [buff, ← slice_append]
      exact (List.flatten_append.trans (by rw [stored, List.flatten_singleton])).trans
        (congrArg₂ (· ++ ·) before same).symm
    exact ⟨nofun, .replied done size (by omega) bytes⟩

/-- The coroutine of `Start` leaves the handshake. -/
inductive Concludes (c : Conn) (chunks : List (List UInt8)) (c' : Conn) : Prop where
  | failed {p : StartPoint} (at_ : c.start = .completed p .error) (gone : c'.start = .finished)
      (writers : c'.writers = c.writers)
  | rejected {m : List UInt8} {rest : List (List UInt8)} (read : chunks = m :: rest) (whole : rest.flatten.length = 10)
      (invalid : rest.flatten.take 4 ≠ [5, 0, 0, 1]) (gone : c'.start = .finished) (writers : c'.writers = c.writers)
  | relays (valid : Replied chunks) (status : c'.status = .relaying) (past : ¬ c'.Greeting)

/-- What a step during the handshake does. -/
structure Advances (c : Conn) (chunks : List (List UInt8)) (evs : List TcpEvent) (c' : Conn) : Prop where
  downloaded : downloadedBytes evs = []
  uploaded : uploadedBytes evs = []
  server : serverBytes evs = (answers evs).flatten
  goes : Progress c' (chunks ++ answers evs) ∨ answers evs = [] ∧ Concludes c chunks c'

private theorem Advances.quiet (answered : answers evs = []) (server : serverBytes evs = [])
    (downloaded : downloadedBytes evs = []) (uploaded : uploadedBytes evs = [])
    (goes : Progress c' chunks ∨ Concludes c chunks c') : Advances c chunks evs c' := by
  refine ⟨downloaded, uploaded, ?_, ?_⟩
  · rw [server, answered]
    rfl
  · rw [answered, List.append_nil]
    exact goes.imp_right fun ends => ⟨rfl, ends⟩

private theorem Unheard.advances (unheard : Unheard c evs c') (progress : Progress c chunks) :
    Advances c chunks evs c' :=
  .quiet unheard.answered unheard.server unheard.downloaded unheard.uploaded
    (Or.inl (progress.congr (unheard.start.imp_right And.left) unheard.buff))

private theorem SocketMove.advances {a : TcpAct} (move : SocketMove c a evs c') (shape : Shape c)
    (progress : Progress c chunks) : Advances c chunks evs c' := by
  have completes {p : StartPoint} {r : Completion} {d : Conn} (at_ : c.start = .suspended p)
      (done : d.start = .completed p r) (silent : r = .error ∨ p.window = none)
      (buff : d.remoteRecvBuff = c.remoteRecvBuff) : Advances c chunks [] d :=
    .quiet rfl rfl rfl rfl (Or.inl (progress.completes at_ done silent buff))
  cases move with
  | connected at_ => exact completes at_ rfl (Or.inr rfl) rfl
  | connectFailed at_ | startWriteFails _ at_ | startReadFails _ at_ => exact completes at_ rfl (Or.inl rfl) rfl
  | @startAccepts n point bytes rest oldest at_ offers =>
    have greets := progress.at (show c.start.point? = some point by rw [at_]; rfl)
    cases point with
    | methodWrite | requestWrite =>
      exact .quiet rfl rfl rfl rfl (Or.inl (progress.completes at_ rfl (Or.inr rfl) rfl))
    | drainWrite => cases greets
    | _ => cases offers
  | @startArrives data point off size rest oldest at_ takes some_ le =>
    obtain ⟨early, next⟩ := progress.reads (d := { c with
      readQueue := rest, remoteRecvBuff := c.remoteRecvBuff.store off data
      start := .completed point (.ok data.length) }) at_ takes some_ le rfl rfl
    have answered : point.received data = .answered data := by
      cases point with
      | downloadRead => exact absurd rfl early
      | _ => rfl
    rw [answered]
    exact ⟨rfl, rfl, rfl, Or.inl next⟩
  | writerAccepts _ at_ | writerWriteFails _ at_ =>
    rw [shape.writers_of_greeting progress.greeting] at at_
    cases at_
  | readerArrives _ at_ | readerReadFails _ at_ =>
    obtain ⟨p, at', _⟩ := progress.greeting
    cases at'.symm.trans (shape.start_of_reader at_)
  | transmits => exact .quiet rfl rfl rfl rfl (Or.inl (progress.congr (Or.inl rfl) rfl))

theorem heard_uses (uses : List PcbUse) : answers (uses.map .used) = [] ∧ serverBytes (uses.map .used) = [] ∧
    downloadedBytes (uses.map .used) = [] ∧ uploadedBytes (uses.map .used) = [] := by
  induction uses with
  | nil => exact ⟨rfl, rfl, rfl, rfl⟩
  | cons use uses ih => exact ih

/-- What has been read when an operation has transferred `n` bytes. -/
def Heard (c : Conn) (n : Nat) (chunks : List (List UInt8)) : StartPoint → Prop
  | .connect | .methodWrite _ => chunks = []
  | .methodRead | .requestWrite _ => ∃ m, chunks = [m] ∧ m ≠ [] ∧ m.length ≤ 2
  | .requestRead got => ∃ m rest, chunks = m :: rest ∧ (m ≠ [] ∧ m.length ≤ 2) ∧ got + n ≤ 10 ∧
      rest.flatten = slice c.remoteRecvBuff.1 0 (got + n)
  | _ => False

private theorem Progress.heard {p : StartPoint} {n : Nat} (progress : Progress c chunks)
    (at_ : c.start = .completed p (.ok n)) : Heard c n chunks p := by
  cases progress with
  | opening at' opens unread =>
    rw [at_] at at'
    cases at'
    cases p with
    | methodRead => exact absurd at_ (unread n)
    | connect | methodWrite => rfl
    | _ => cases opens
  | chosen at' size =>
    cases at_.symm.trans at'
    exact ⟨_, rfl, size⟩
  | requesting at' size =>
    rw [at_] at at'
    cases at'
    exact ⟨_, rfl, size⟩
  | replying at' unread =>
    rw [at_] at at'
    cases at'
    exact absurd at_ (unread n)
  | replied at' size fits stored =>
    cases at_.symm.trans at'
    exact ⟨_, _, rfl, size, fits, stored⟩

/-- A read is awaited. -/
theorem awaits_suspended (d : Conn) {p : StartPoint} (reads : p.window ≠ none) :
    (d.awaitStart p).start = .suspended p := by
  cases p with
  | methodRead | requestRead | downloadRead => rfl
  | _ => exact absurd rfl reads

private theorem Progress.next {d : Conn} {p p' : StartPoint} {n : Nat} (progress : Progress c chunks)
    (at_ : c.start = .completed p (.ok n)) (next : Greets p n p') (buff : d.remoteRecvBuff = c.remoteRecvBuff) :
    Progress (d.awaitStart p') chunks := by
  have heard := progress.heard at_
  have point := d.point?_awaitStart p'
  have unread (reads : p'.window ≠ none) (n : Nat) : (d.awaitStart p').start ≠ .completed p' (.ok n) := by
    rw [awaits_suspended d reads]
    nofun
  cases next with
  | methodWritesOn =>
    obtain rfl : chunks = [] := heard
    refine .opening point rfl fun n h => ?_
    cases point.symm.trans (point?_of_completed h)
  | methodWritten =>
    obtain rfl : chunks = [] := heard
    exact .opening point rfl (unread nofun)
  | requestWritesOn =>
    obtain ⟨m, rfl, size⟩ := heard
    exact .requesting point size
  | requestWritten =>
    obtain ⟨m, rfl, size⟩ := heard
    exact .replying point (unread nofun) size (by omega) rfl
  | replyReadsOn short =>
    obtain ⟨m, rest, rfl, size, _, stored⟩ := heard
    refine .replying point (unread nofun) size short ?_
    rw [stored, ← buff]
    rfl

/-- The reply is complete, and the first four bytes of the buffer are its first four. -/
private theorem Progress.complete {got n : Nat} (progress : Progress c chunks)
    (at_ : c.start = .completed (.requestRead got) (.ok n)) (whole : 10 ≤ got + n) :
    ∃ m rest, chunks = m :: rest ∧ (m ≠ [] ∧ m.length ≤ 2) ∧ rest.flatten.length = 10 ∧
      rest.flatten.take 4 = slice c.remoteRecvBuff.1 0 4 := by
  obtain ⟨m, rest, rfl, size, fits, stored⟩ := progress.heard at_
  have bound : tcpRecvBuffSize = 1436 := rfl
  have length : c.remoteRecvBuff.1.length = 1436 := c.remoteRecvBuff.2
  have ten : got + n = 10 := by omega
  rw [ten] at stored
  refine ⟨m, rest, rfl, size, ?_, ?_⟩
  · rw [stored]
    exact length_slice_of_le (by omega)
  · have first : slice (slice c.remoteRecvBuff.1 0 10) 0 4 = slice c.remoteRecvBuff.1 (0 + 0) 4 :=
      slice_slice (by omega)
    rw [stored]
    exact first

private theorem Resumes.advances {room : Room} {id : CoroId} (move : Resumes c room id evs c') (shape : Shape c)
    (progress : Progress c chunks) : Advances c chunks evs c' := by
  have past {p : StartPoint} {n : Nat} (at_ : c.start = .completed p (.ok n)) (late : p.greets = false) : False := by
    cases late.symm.trans (progress.at (point?_of_completed at_))
  have unwritten {j : Nat} {t : Coroutine WriterPoint} (at_ : c.writers[j]? = some t) : False := by
    rw [shape.writers_of_greeting progress.greeting] at at_
    cases at_
  have unreadBy {j : Nat} {t : Coroutine Unit} (at_ : c.readers[j]? = some t) : False := by
    obtain ⟨p, at', _⟩ := progress.greeting
    cases at'.symm.trans (shape.start_of_reader at_)
  cases move with
  | startFailed at_ => exact .quiet rfl rfl rfl rfl (Or.inr (.failed at_ rfl rfl))
  | connected at_ =>
    obtain rfl : chunks = [] := progress.heard at_
    refine .quiet rfl rfl rfl rfl (Or.inl (.opening (Conn.point?_awaitStart _ _) rfl fun n h => ?_))
    cases (Conn.point?_awaitStart _ _).symm.trans (point?_of_completed h)
  | greets at_ next => exact .quiet rfl rfl rfl rfl (Or.inl (progress.next at_ next rfl))
  | requests at_ =>
    obtain ⟨m, rfl, size⟩ := progress.heard at_
    exact .quiet rfl rfl rfl rfl (Or.inl (.requesting (Conn.point?_awaitStart _ _) size))
  | rejected at_ whole invalid =>
    obtain ⟨m, rest, read, size, ten, four⟩ := progress.complete at_ whole
    refine .quiet rfl rfl rfl rfl (Or.inr (.rejected read ten ?_ rfl rfl))
    rw [four]
    simpa [Conn.replyValid] using invalid
  | relays at_ whole valid =>
    obtain ⟨m, rest, rfl, size, ten, four⟩ := progress.complete at_ whole
    have replied : Replied (m :: rest) := ⟨size, ten, four.trans (by simpa [Conn.replyValid] using valid)⟩
    have past (d : Conn) {p : StartPoint} := d.greeting_awaitStart p
    rcases Conn.drainLoop_cases { c with status := .relaying } with
      ⟨_, loop⟩ | ⟨front, rest', popped, ⟨_, loop⟩ | ⟨chained, _⟩⟩
    · rw [loop]
      exact .quiet rfl rfl rfl rfl (Or.inr (.relays replied rfl fun greets => nomatch (past _).mp greets))
    · rw [loop]
      exact .quiet rfl rfl rfl rfl (Or.inr (.relays replied rfl fun greets => nomatch (past _).mp greets))
    · exact absurd (shape.simple front (popped ▸ List.mem_cons_self)) chained
  | startDangles at_ touches =>
    cases touches with
    | drain | download => exact (past at_ rfl).elim
    | request => exact .quiet rfl rfl rfl rfl (Or.inl (progress.congr (Or.inl rfl) rfl))
  | drainWritesOn at_ | drainEnds at_ | drains at_ | downloadEnds at_ | parks at_ | downloads at_ =>
    exact (past at_ rfl).elim
  | writerFailed at_ | writerWritesOn at_ | writerEnds at_ | writerFollows at_ | writerPops at_ | writerDangles at_ =>
    exact (unwritten at_).elim
  | readerFailed at_ | readerEnds at_ | readerParks at_ | readerReads at_ | readerDangles at_ =>
    exact (unreadBy at_).elim

theorem TcpStep.advances {a : TcpAct} (step : TcpStep c a evs c') (shape : Shape c) (progress : Progress c chunks) :
    Advances c chunks evs c' := by
  cases step with
  | input chain | reset chain => exact (unheard_chain chain).advances progress
  | socket move => exact move.advances shape progress
  | resumed move => exact move.advances shape progress

/-- What a step after the handshake does. -/
structure Outlasts (c : Conn) (evs : List TcpEvent) (c' : Conn) : Prop where
  past : ¬ c'.Greeting
  answered : answers evs = []
  server : serverBytes evs = downloadedBytes evs
  status : c'.status = .relaying → c.status = .relaying

theorem Unheard.point? (unheard : Unheard c evs c') : c'.start.point? = c.start.point? := by
  rcases unheard.start with same | ⟨cancelled, _⟩
  · rw [same]
  · rw [cancelled, point?_cancel]

private theorem Outlasts.quiet (past : ¬ c'.Greeting) (answered : answers evs = []) (server : serverBytes evs = [])
    (downloaded : downloadedBytes evs = []) (status : c'.status = c.status ∨ c'.status = .close) :
    Outlasts c evs c' := by
  refine ⟨past, answered, server.trans downloaded.symm, fun relaying => ?_⟩
  rcases status with same | closed
  · exact same.symm.trans relaying
  · cases closed.symm.trans relaying

private theorem SocketMove.outlasts {a : TcpAct} (move : SocketMove c a evs c') (past : ¬ c.Greeting) :
    Outlasts c evs c' := by
  have past' : ¬ c'.Greeting := fun greets => past ((greeting_congr move.point?).mp greets)
  have late {p : StartPoint} (at_ : c.start = .suspended p) : p.greets = false := by
    cases h : p.greets with
    | false => rfl
    | true => exact absurd ⟨p, by rw [at_]; rfl, h⟩ past
  cases move with
  | @startAccepts n point bytes rest oldest at_ offers =>
    cases point with
    | drainWrite => exact .quiet past' rfl rfl rfl (Or.inl rfl)
    | methodWrite | requestWrite => cases late at_
    | _ => cases offers
  | @startArrives data point off size rest oldest at_ takes =>
    cases point with
    | downloadRead => exact ⟨past', rfl, rfl, id⟩
    | methodRead | requestRead => cases late at_
    | _ => cases takes
  | readerArrives => exact ⟨past', rfl, rfl, id⟩
  | connected | connectFailed | startWriteFails | startReadFails | writerAccepts | writerWriteFails | readerReadFails
  | transmits => exact .quiet past' rfl rfl rfl (Or.inl rfl)

private theorem Resumes.outlasts {room : Room} {id : CoroId} (move : Resumes c room id evs c') (shape : Shape c)
    (past : ¬ c.Greeting) : Outlasts c evs c' := by
  have early {p : StartPoint} {n : Nat} (at_ : c.start = .completed p (.ok n)) (greets : p.greets = true) : False :=
    past ⟨p, point?_of_completed at_, greets⟩
  have ended {d : Conn} (gone : d.start = .finished) : ¬ d.Greeting := by
    rintro ⟨p, at', _⟩
    rw [gone] at at'
    cases at'
  have goes {d : Conn} {p : StartPoint} (late : p.greets = false) : ¬ (d.awaitStart p).Greeting := by
    rintro ⟨q, at', greets⟩
    cases (d.point?_awaitStart p).symm.trans at'
    cases late.symm.trans greets
  cases move with
  | startFailed => exact .quiet (ended rfl) rfl rfl rfl (Or.inr rfl)
  | connected at_ | requests at_ | rejected at_ | relays at_ => exact (early at_ rfl).elim
  | greets at_ next => exact (early at_ next.greets.1).elim
  | drainWritesOn => exact .quiet (goes rfl) rfl rfl rfl (Or.inl rfl)
  | drainEnds | downloadEnds => exact .quiet (ended rfl) rfl rfl rfl (Or.inr rfl)
  | @drains front sent n =>
    rcases Conn.drainLoop_cases { c with pcb := c.pcb.tcpRecved front.len } with
      ⟨_, loop⟩ | ⟨next, rest, popped, ⟨_, loop⟩ | ⟨chained, _⟩⟩
    · rw [loop]
      exact .quiet (goes rfl) rfl rfl rfl (Or.inl rfl)
    · rw [loop]
      exact .quiet (goes rfl) rfl rfl rfl (Or.inl rfl)
    · exact absurd (shape.simple next (popped ▸ List.mem_cons_self)) chained
  | @parks n =>
    obtain ⟨answered, server, downloaded, _⟩ := heard_uses (c.localUses n room)
    exact .quiet (ended rfl) answered server downloaded (Or.inr rfl)
  | @downloads n =>
    obtain ⟨answered, server, downloaded, _⟩ := heard_uses (c.localUses n room)
    obtain ⟨pcb, eq, _⟩ := c.writeLocal_eq n room
    refine .quiet (goes rfl) answered server downloaded (Or.inl ?_)
    rw [eq]
    rfl
  | startDangles at_ touches =>
    cases touches with
    | request => exact (early at_ rfl).elim
    | drain => exact .quiet past rfl rfl rfl (Or.inl rfl)
    | download => exact .quiet past rfl rfl rfl (Or.inl rfl)
  | writerFailed => exact .quiet past rfl rfl rfl (Or.inr rfl)
  | @writerPops j n point =>
    obtain ⟨_, _, _, _, eq⟩ := Conn.writerLoop_eq { c with pcb := c.pcb.tcpRecved point.payload.length } j
    rw [eq]
    exact .quiet past rfl rfl rfl (Or.inl rfl)
  | writerWritesOn | writerEnds | writerFollows | writerDangles | readerFailed | readerEnds =>
    exact .quiet past rfl rfl rfl (Or.inl rfl)
  | @readerParks j n | @readerReads j n =>
    obtain ⟨pcb, eq, _⟩ := c.writeLocal_eq n room
    rw [eq]
    exact .quiet past rfl rfl rfl (Or.inl rfl)
  | readerDangles => exact .quiet past rfl rfl rfl (Or.inl rfl)

theorem TcpStep.outlasts {a : TcpAct} (step : TcpStep c a evs c') (shape : Shape c) (past : ¬ c.Greeting) :
    Outlasts c evs c' := by
  cases step with
  | input chain | reset chain =>
    have unheard := unheard_chain chain
    exact .quiet (fun greets => past ((greeting_congr unheard.point?).mp greets)) unheard.answered unheard.server
      unheard.downloaded ((callbacks_status chain).imp_right And.left)
  | socket move => exact move.outlasts past
  | resumed move => exact move.outlasts shape past

/-- The handshake has failed: no coroutine is left to write to the server. -/
structure Barren (c : Conn) : Prop where
  start : c.start = .finished
  writers : c.writers = []

theorem Barren.closed (barren : Barren c) (shape : Shape c) : c.status = .close :=
  shape.ended (by rw [barren.start]; rfl)

private theorem Callback.barren {seg : Segment} (move : Callback seg c evs c') (shape : Shape c) (barren : Barren c) :
    Barren c' := by
  have closed := barren.closed shape
  cases move with
  | writerSpawned _ _ _ relaying => cases closed.symm.trans relaying
  | stopped opened => exact absurd closed opened
  | lwip | stoppedAgain | stopDangles | erased | queued | refused | readerSpawned | crashed =>
    exact ⟨barren.start, barren.writers⟩

theorem TcpStep.barren {a : TcpAct} (step : TcpStep c a evs c') (shape : Shape c) (barren : Barren c) :
    Barren c' ∧ uploadedBytes evs = [] := by
  have ended {t : Coroutine StartPoint} (at_ : c.start = t) (runs : t ≠ .finished) : False :=
    runs (at_.symm.trans barren.start)
  have alone {j : Nat} {t : Coroutine WriterPoint} (at_ : c.writers[j]? = some t) : False := by
    rw [barren.writers] at at_
    cases at_
  cases step with
  | input chain | reset chain =>
    refine ⟨?_, (unheard_chain chain).uploaded⟩
    exact (chain.keeps (fun c => Shape c ∧ Barren c)
      (fun _ _ _ before move => ⟨move.shape before.1, move.barren before.1 before.2⟩) ⟨shape, barren⟩).2
  | socket move =>
    cases move with
    | connected at_ | connectFailed at_ | startAccepts _ at_ | startWriteFails _ at_ | startArrives _ at_
    | startReadFails _ at_ => exact (ended at_ nofun).elim
    | writerAccepts _ at_ | writerWriteFails _ at_ => exact (alone at_).elim
    | readerArrives | readerReadFails | transmits => exact ⟨⟨barren.start, barren.writers⟩, rfl⟩
  | resumed move =>
    cases move with
    | startFailed at_ | connected at_ | greets at_ | requests at_ | rejected at_ | relays at_ | drainWritesOn at_
    | drainEnds at_ | drains at_ | downloadEnds at_ | parks at_ | downloads at_ | startDangles at_ =>
      exact (ended at_ nofun).elim
    | writerFailed at_ | writerWritesOn at_ | writerEnds at_ | writerFollows at_ | writerPops at_ | writerDangles at_ =>
      exact (alone at_).elim
    | readerFailed | readerEnds => exact ⟨⟨barren.start, barren.writers⟩, rfl⟩
    | readerParks _ opened | readerReads _ opened | readerDangles _ opened =>
      exact absurd (barren.closed shape) opened

/-- An operation of the handshake fails before the reply is complete. -/
theorem Progress.unreplied {p : StartPoint} (progress : Progress c chunks) (at_ : c.start = .completed p .error) :
    ¬ Replied chunks := by
  cases progress with
  | opening => exact id
  | chosen at' | replied at' => cases at_.symm.trans at'
  | requesting => exact fun replied => nomatch replied.2.1
  | @replying m rest got _ _ _ short stored =>
    rintro ⟨_, ten, _⟩
    rw [stored, length_slice] at ten
    omega

end Moves

/-! ### Whole runs -/

theorem relayed_snoc {ts : List (Transition Conn TcpAct TcpEvent)} {t : Transition Conn TcpAct TcpEvent} :
    Relayed (ts ++ [t]) ↔ Relayed ts ∨ t.post.status = .relaying := by
  simp [Relayed, or_and_right, exists_or]

private theorem relayed_of_status {ts : List (Transition Conn TcpAct TcpEvent)} {c : Conn} (run : connMachine.Run ts c)
    (relaying : c.status = .relaying) : Relayed ts := by
  cases run with
  | init h =>
    obtain ⟨_, _, _, opened, _, _, rfl⟩ := h
    cases opened <;> cases relaying
  | next => exact relayed_snoc.mpr (Or.inr relaying)

theorem heard_reap (c : Conn) : answers c.reap.2 = [] ∧ serverBytes c.reap.2 = [] ∧
    downloadedBytes c.reap.2 = [] ∧ uploadedBytes c.reap.2 = [] := by
  have freed (queue : List Pbuf) : answers (queue.map .pbufFreed ++ [.destroyed]) = [] ∧
      serverBytes (queue.map .pbufFreed ++ [.destroyed]) = [] ∧
      downloadedBytes (queue.map .pbufFreed ++ [.destroyed]) = [] ∧
      uploadedBytes (queue.map .pbufFreed ++ [.destroyed]) = [] := by
    induction queue with
    | nil => exact ⟨rfl, rfl, rfl, rfl⟩
    | cons p queue ih => exact ih
  unfold Conn.reap
  split
  · exact freed _
  · exact ⟨rfl, rfl, rfl, rfl⟩

/-- What a session has read and done, during the handshake and after it. -/
structure Answered (ts : List (Transition Conn TcpAct TcpEvent)) (c : Conn) : Prop where
  bytes : serverBytes (Machine.trace ts) = (answers (Machine.trace ts)).flatten ++ downloadedBytes (Machine.trace ts)
  early : c.Greeting → Progress c (answers (Machine.trace ts)) ∧ ¬ Relayed ts ∧
    downloadedBytes (Machine.trace ts) = [] ∧ uploadedBytes (Machine.trace ts) = []
  decided : ¬ c.Greeting → (Relayed ts ↔ Replied (answers (Machine.trace ts)))
  barren : ¬ c.Greeting → ¬ Relayed ts → Barren c ∧ uploadedBytes (Machine.trace ts) = []

private theorem not_greeting_of_finished {c : Conn} (gone : c.start = .finished) : ¬ c.Greeting := by
  rintro ⟨p, at_, _⟩
  rw [gone] at at_
  cases at_

theorem Concludes.past {c c' : Conn} {chunks : List (List UInt8)} (ends : Concludes c chunks c') :
    ¬ c'.Greeting := by
  cases ends with
  | failed _ gone | rejected _ _ _ gone => exact not_greeting_of_finished gone
  | relays _ _ past => exact past

/-- The handshake ends with `SESSION_RELAYING` exactly if the reply is a valid one. -/
private theorem Concludes.decided {c c' : Conn} {chunks : List (List UInt8)} (ends : Concludes c chunks c')
    (progress : Progress c chunks) (shape : Shape c') : c'.status = .relaying ↔ Replied chunks := by
  have closed (gone : c'.start = .finished) : c'.status ≠ .relaying := by
    rw [shape.ended (by rw [gone]; rfl)]
    nofun
  cases ends with
  | failed at_ gone => exact iff_of_false (closed gone) (progress.unreplied at_)
  | rejected read _ invalid gone =>
    refine iff_of_false (closed gone) ?_
    rw [read]
    exact fun replied => invalid replied.2.2
  | relays valid status => exact iff_of_true status valid

private theorem Concludes.barren {c c' : Conn} {chunks : List (List UInt8)} (ends : Concludes c chunks c')
    (shape : Shape c) (progress : Progress c chunks) (closed : c'.status ≠ .relaying) : Barren c' := by
  have alone := shape.writers_of_greeting progress.greeting
  cases ends with
  | failed _ gone writers => exact ⟨gone, writers.trans alone⟩
  | rejected _ _ _ gone writers => exact ⟨gone, writers.trans alone⟩
  | relays _ status => exact absurd status closed

private theorem answered_greeting {ts : List (Transition Conn TcpAct TcpEvent)} {c mid : Conn} {a : TcpAct}
    {evs : List TcpEvent} (before : Answered ts c) (shape : Shape c) (greets : c.Greeting)
    (step : TcpStep c a evs mid) :
    Answered (ts ++ [⟨c, a, evs ++ mid.reap.2, mid.reap.1⟩]) mid.reap.1 := by
  obtain ⟨progress, unrelayed, downloaded, uploaded⟩ := before.early greets
  obtain ⟨answered', server', downloaded', uploaded'⟩ := heard_reap mid
  have shape' : Shape mid := step.shape shape
  have advances := step.advances shape progress
  obtain ⟨_, _, eq⟩ := mid.reap_eq
  have greeting : mid.reap.1.Greeting ↔ mid.Greeting := greeting_congr (by rw [eq])
  have relayed : Relayed (ts ++ [⟨c, a, evs ++ mid.reap.2, mid.reap.1⟩]) ↔ mid.status = .relaying := by
    rw [relayed_snoc, eq]
    exact ⟨fun h => h.resolve_left unrelayed, Or.inr⟩
  have goes := advances.goes
  constructor
  · simp only [Machine.trace_snoc, serverBytes_append, answers_append, downloadedBytes_append, before.bytes, answered',
      server', downloaded', downloaded, advances.downloaded, advances.server, List.append_nil, List.flatten_append]
  · intro greets'
    have greets' := greeting.mp greets'
    simp only [Machine.trace_snoc, answers_append, downloadedBytes_append, uploadedBytes_append, answered', downloaded',
      uploaded', downloaded, uploaded, advances.downloaded, advances.uploaded, List.append_nil, relayed]
    rcases goes with progress' | ⟨_, ends⟩
    · exact ⟨progress'.congr (Or.inl (by rw [eq])) (by rw [eq]), (shape'.greeting greets').2.2, trivial, trivial⟩
    · exact absurd greets' ends.past
  · intro past
    rcases goes with progress' | ⟨quiet, ends⟩
    · exact absurd (greeting.mpr progress'.greeting) past
    · rw [relayed, Machine.trace_snoc, answers_append, answers_append, quiet, answered', List.append_nil,
        List.append_nil]
      exact ends.decided progress shape'
  · intro past unrelayed'
    rw [relayed] at unrelayed'
    rcases goes with progress' | ⟨quiet, ends⟩
    · exact absurd (greeting.mpr progress'.greeting) past
    · have barren := ends.barren shape progress unrelayed'
      refine ⟨⟨?_, ?_⟩, ?_⟩
      · rw [eq]
        exact barren.start
      · rw [eq]
        exact barren.writers
      · simp only [Machine.trace_snoc, uploadedBytes_append, uploaded, uploaded', advances.uploaded, List.append_nil]

private theorem answered_past {ts : List (Transition Conn TcpAct TcpEvent)} {c mid : Conn} {a : TcpAct}
    {evs : List TcpEvent} (before : Answered ts c) (relays : c.status = .relaying → Relayed ts) (shape : Shape c)
    (past : ¬ c.Greeting) (step : TcpStep c a evs mid) :
    Answered (ts ++ [⟨c, a, evs ++ mid.reap.2, mid.reap.1⟩]) mid.reap.1 := by
  obtain ⟨answered', server', downloaded', uploaded'⟩ := heard_reap mid
  have outlasts := step.outlasts shape past
  obtain ⟨_, _, eq⟩ := mid.reap_eq
  have greeting : mid.reap.1.Greeting ↔ mid.Greeting := greeting_congr (by rw [eq])
  have relayed : Relayed (ts ++ [⟨c, a, evs ++ mid.reap.2, mid.reap.1⟩]) ↔ Relayed ts := by
    rw [relayed_snoc, eq]
    exact ⟨fun h => h.elim id fun status => relays (outlasts.status status), Or.inl⟩
  constructor
  · simp only [Machine.trace_snoc, serverBytes_append, answers_append, downloadedBytes_append, before.bytes, answered',
      server', downloaded', outlasts.answered, outlasts.server, List.append_nil, List.append_assoc]
  · exact fun greets => absurd (greeting.mp greets) outlasts.past
  · intro _
    rw [relayed, Machine.trace_snoc, answers_append, answers_append, outlasts.answered, answered', List.append_nil,
      List.append_nil]
    exact before.decided past
  · intro _ unrelayed
    rw [relayed] at unrelayed
    obtain ⟨barren, uploaded⟩ := before.barren past unrelayed
    obtain ⟨barren', none_⟩ := step.barren shape barren
    refine ⟨⟨?_, ?_⟩, ?_⟩
    · rw [eq]
      exact barren'.start
    · rw [eq]
      exact barren'.writers
    · simp only [Machine.trace_snoc, uploadedBytes_append, uploaded, uploaded', none_, List.append_nil]

theorem answered_run {ts : List (Transition Conn TcpAct TcpEvent)} {c : Conn} (run : connMachine.Run ts c) :
    Answered ts c := by
  induction run with
  | init h =>
    have unrelayed : ¬ Relayed [] := fun h => nomatch h.choose_spec.1
    obtain ⟨_, _, _, opened, _, _, rfl⟩ := h
    refine ⟨rfl, fun greets => ⟨?_, unrelayed, rfl, rfl⟩, fun _ => iff_of_false unrelayed id, fun past _ => ⟨?_, rfl⟩⟩
    · obtain ⟨p, at_, _⟩ := greets
      cases opened
      · cases at_
      · exact .opening rfl rfl nofun
    · cases opened
      · exact ⟨rfl, rfl⟩
      · exact absurd ⟨.connect, rfl, rfl⟩ past
  | @next ts c c' a out run h ih =>
    obtain ⟨_, mid, evs, step, rfl, rfl⟩ := tcpStep_of_step h
    by_cases greets : c.Greeting
    · exact answered_greeting ih (shape_run run) greets step
    · exact answered_past ih (relayed_of_status run) (shape_run run) greets step

/-- The method reply 05 00 and a request reply 05 00 00 01 with an address and a port. -/
def WellAnswered (bytes : List UInt8) : Prop := 12 ≤ bytes.length ∧ bytes.take 6 = [5, 0, 5, 0, 0, 1]

/-- Where the server's bytes are a valid reply, the bytes before it decide. -/
private theorem wellAnswered_iff {m : List UInt8} {rest : List (List UInt8)} (replied : Replied (m :: rest))
    (more : List UInt8) : WellAnswered ((m :: rest).flatten ++ more) ↔ m = [5, 0] := by
  obtain ⟨⟨some_, le⟩, ten, four⟩ := replied
  have parts : rest.flatten = [5, 0, 0, 1] ++ rest.flatten.drop 4 := by
    rw [← four, List.take_append_drop]
  have six : (rest.flatten.drop 4).length = 6 := by
    rw [List.length_drop, ten]
  rw [List.flatten_cons, parts, WellAnswered]
  match m, some_, le with
  | [a], _, _ => simp
  | [a, b], _, _ =>
    have length : 12 ≤ ([a, b] ++ ([5, 0, 0, 1] ++ rest.flatten.drop 4) ++ more).length := by
      simp only [List.length_append, List.length_cons, List.length_nil, six]
      omega
    rw [and_iff_right length]
    simp

private theorem Progress.waits {c : Conn} {chunks : List (List UInt8)} (progress : Progress c chunks) :
    chunks.flatten.length < 12 ∨ ∃ got n, c.start = .completed (.requestRead got) (.ok n) := by
  cases progress with
  | opening => exact Or.inl (by simp)
  | chosen _ size => exact Or.inl (by simpa using by omega)
  | requesting _ size => exact Or.inl (by simpa using by omega)
  | replying _ _ size short stored =>
    rw [List.flatten_cons, List.length_append, stored, length_slice]
    exact Or.inl (by omega)
  | replied at_ => exact Or.inr ⟨_, _, at_⟩

instance (ts : List (Transition Conn TcpAct TcpEvent)) : Decidable (Relayed ts) := by
  unfold Relayed
  infer_instance

instance (bytes : List UInt8) : Decidable (WellAnswered bytes) := by
  unfold WellAnswered
  infer_instance

end Tunosocks.Tcp
