import Tunosocks.Socks5.Codec
import Tunosocks.Tcp.Handshake
import Tunosocks.Tcp.Mapped
import Tunosocks.Tcp.Stream

/-! The ten bytes `handleSocks5Request` writes. VER and RSV are left over in the buffer: from the
answer to the method request and from before the session. -/
namespace Tunosocks.Tcp
open Foundation Foundation.Buffer Coroutine Socks5

/-- The CONNECT request for an IPv4 address. -/
def connectRequest (ip : List UInt8) (port : Nat) : List UInt8 := [5, 1, 0, 1] ++ ip ++ netBytes port

/-- What the remote socket has accepted of the request, behind the method request. -/
def requestWritten (tr : List TcpEvent) : List UInt8 := (greetedBytes tr).drop defaultMethodRequest.length

/-- What the read behind the method request returned. -/
def methodReply (tr : List TcpEvent) : List UInt8 := (answers tr).headD []

/-- The buffer of the request after the answer `m`. -/
def RecvBuff.asked (buff : RecvBuff) (ip : List UInt8) (port : Nat) (m : List UInt8) : RecvBuff :=
  (buff.store 0 m).socks5Request ip port

/-- Both requests, when the server answered `m` to the first. -/
def spokenWords (ip : List UInt8) (port : Nat) (buff : RecvBuff) (m : List UInt8) : List UInt8 :=
  defaultMethodRequest ++ slice (buff.asked ip port m).1 0 10

/-- The requests are being written, or their answer awaited. -/
def StartPoint.asks : StartPoint → Bool
  | .connect | .methodWrite _ | .methodRead | .requestWrite _ => true
  | _ => false

section Request
variable {ip : List UInt8} {port : Nat} {buff : RecvBuff} {m : List UInt8}

private theorem length_asked : (buff.asked ip port m).1.length = 1436 := (buff.asked ip port m).2

private theorem length_spokenWords : (spokenWords ip port buff m).length = 13 := by
  rw [spokenWords, List.length_append, length_slice, length_asked]
  rfl

/-- Only five of the request's fields are stored: command, address type, address and port. -/
private theorem asked_bytes (a b c d : UInt8) {x y z : UInt8} (held : slice (buff.store 0 m).1 0 3 = [x, y, z]) :
    slice (buff.asked [a, b, c, d] port m).1 0 10 = [x, 1, z, 1] ++ [a, b, c, d] ++ netBytes port := by
  have built : (buff.asked [a, b, c, d] port m).1 = _ := constructSocks5Request_ntoa a b c d (buff.store 0 m).1 0 port
  have length : (buff.store 0 m).1.length = 1436 := (buff.store 0 m).2
  have front : slice (buff.asked [a, b, c, d] port m).1 0 3 = [x, 1, z] := by
    rw [built, slice_writeAt_disjoint (Or.inl (by omega)), slice_writeAt_inside (Nat.zero_le _), held]
    rfl
  have tail : slice (buff.asked [a, b, c, d] port m).1 (0 + 3) 7 = [1, a, b, c, d] ++ netBytes port := by
    rw [built, slice_writeAt_same (by rfl)]
    rw [length_writeAt, length]
    omega
  rw [← slice_append _ 0 3 7, front, tail]
  rfl

/-- The request is right exactly if the two bytes it does not store are. -/
private theorem asked_eq_iff (four : ip.length = 4) (size : m ≠ [] ∧ m.length ≤ 2) :
    slice (buff.asked ip port m).1 0 10 = connectRequest ip port ↔ m.head? = some 5 ∧ buff.1[2]? = some 0 := by
  have length : buff.1.length = 1436 := buff.2
  obtain ⟨some_, le⟩ := size
  obtain ⟨a, b, c, d, rfl⟩ : ∃ a b c d, ip = [a, b, c, d] := by
    match ip, four with
    | [a, b, c, d], _ => exact ⟨a, b, c, d, rfl⟩
  obtain ⟨x, y, z, held⟩ : ∃ x y z, slice (writeAt buff.1 0 m) 0 3 = [x, y, z] := by
    apply List.length_eq_three.mp
    rw [length_slice_of_le]
    rw [length_writeAt, length]
    omega
  have version : m.head? = some x := by
    have first : (writeAt buff.1 0 m)[0]? = some x :=
      (getElem?_slice _ 0 3 0).symm.trans (congrArg (·[0]?) held)
    have pos : 0 < m.length := List.length_pos_iff.mpr some_
    rw [getElem?_writeAt_inside (Nat.le_refl _) (by omega) (by omega)] at first
    rw [List.head?_eq_getElem?]
    exact first
  have reserved : buff.1[2]? = some z := by
    have third : (writeAt buff.1 0 m)[2]? = some z :=
      (getElem?_slice _ 0 3 2).symm.trans (congrArg (·[2]?) held)
    rwa [getElem?_writeAt_outside (Or.inr (by omega))] at third
  rw [asked_bytes a b c d held, version, reserved, connectRequest]
  simp

end Request

/-- What the server has been told is the beginning of the method request, or of both requests. -/
def Said (ip : List UInt8) (port : Nat) (buff : RecvBuff) (tr : List TcpEvent) : Prop :=
  greetedBytes tr <+: defaultMethodRequest ∨ ∃ m rest, answers tr = m :: rest ∧ (m ≠ [] ∧ m.length ≤ 2) ∧
    greetedBytes tr <+: spokenWords ip port buff m

/-- Where the two requests stand, with the buffer the second is written from. -/
inductive Spoken (ip : List UInt8) (port : Nat) (buff : RecvBuff) (tr : List TcpEvent) (c : Conn) : Prop where
  | opening {p : StartPoint} (at_ : c.start.point? = some p) (opens : p.opens = true)
      (unread : ∀ n, c.start ≠ .completed .methodRead (.ok n)) (answered : answers tr = [])
      (held : c.remoteRecvBuff = buff) (said : greetedBytes tr <+: defaultMethodRequest)
  | chosen {m : List UInt8} {n : Nat} (at_ : c.start = .completed .methodRead (.ok n)) (answered : answers tr = [m])
      (size : m ≠ [] ∧ m.length ≤ 2) (held : c.remoteRecvBuff = buff.store 0 m)
      (said : greetedBytes tr <+: defaultMethodRequest)
  | requesting {m : List UInt8} {sent : Nat} (at_ : c.start.point? = some (.requestWrite sent))
      (answered : answers tr = [m]) (size : m ≠ [] ∧ m.length ≤ 2) (held : c.remoteRecvBuff = buff.asked ip port m)
      (said : greetedBytes tr <+: spokenWords ip port buff m)
  | past (late : ∀ p, c.start.point? = some p → p.asks = false) (said : Said ip port buff tr)

section Moves
variable {ip : List UInt8} {port : Nat} {buff : RecvBuff} {tr evs : List TcpEvent} {c c' : Conn}

theorem Spoken.said (spoken : Spoken ip port buff tr c) : Said ip port buff tr := by
  cases spoken with
  | opening _ _ _ _ _ said | chosen _ _ _ _ said => exact Or.inl said
  | requesting _ answered size _ said => exact Or.inr ⟨_, [], answered, size, said⟩
  | past _ said => exact said

private theorem Said.append (said : Said ip port buff tr) (mute : greetedBytes evs = []) :
    Said ip port buff (tr ++ evs) := by
  have same : greetedBytes (tr ++ evs) = greetedBytes tr := by rw [greetedBytes_append, mute, List.append_nil]
  rcases said with early | ⟨m, rest, answered, size, said⟩
  · exact Or.inl (same ▸ early)
  · refine Or.inr ⟨m, rest ++ answers evs, ?_, size, same ▸ said⟩
    rw [answers_append, answered, List.cons_append]

/-- The requests are over, whatever the server answers. -/
private theorem Spoken.goesPast (spoken : Spoken ip port buff tr c) (mute : greetedBytes evs = [])
    (late : ∀ p, c'.start.point? = some p → p.asks = false) : Spoken ip port buff (tr ++ evs) c' :=
  .past late (spoken.said.append mute)

/-- `Start` stays where it is, or its operation ends without a byte. -/
private theorem Spoken.stays (spoken : Spoken ip port buff tr c) (mute : greetedBytes evs = [])
    (unheard : answers evs = []) (point : c'.start.point? = c.start.point?)
    (done : ∀ n, c'.start = .completed .methodRead (.ok n) ↔ c.start = .completed .methodRead (.ok n))
    (held : c'.remoteRecvBuff = c.remoteRecvBuff) : Spoken ip port buff (tr ++ evs) c' := by
  have same : greetedBytes (tr ++ evs) = greetedBytes tr := by rw [greetedBytes_append, mute, List.append_nil]
  have heard : answers (tr ++ evs) = answers tr := by rw [answers_append, unheard, List.append_nil]
  cases spoken with
  | opening at_ opens unread answered held' said =>
    exact .opening (point.trans at_) opens (fun n h => unread n ((done n).mp h)) (heard.trans answered)
      (held.trans held') (same ▸ said)
  | chosen at_ answered size held' said =>
    exact .chosen ((done _).mpr at_) (heard.trans answered) size (held.trans held') (same ▸ said)
  | requesting at_ answered size held' said =>
    exact .requesting (point.trans at_) (heard.trans answered) size (held.trans held') (same ▸ said)
  | past late said => exact .past (fun p h => late p (point.symm.trans h)) (said.append mute)

private theorem drop_spokenWords (m : List UInt8) (sent : Nat) :
    (spokenWords ip port buff m).drop (3 + sent) = slice (buff.asked ip port m).1 sent (10 - sent) := by
  have tail : (spokenWords ip port buff m).drop 3 = slice (buff.asked ip port m).1 0 10 := rfl
  rw [← List.drop_drop, tail, slice, slice, List.drop_zero, List.drop_take]

/-- More of the words is accepted. -/
private theorem greeted_extends {words data : List UInt8} {k : Nat} (said : greetedBytes tr <+: words)
    (length : (greetedBytes tr).length = k) (next : data <+: words.drop k) :
    greetedBytes (tr ++ [.greeted data]) <+: words := by
  have grows : greetedBytes (tr ++ [.greeted data]) = greetedBytes tr ++ data := by
    rw [greetedBytes_append]
    exact congrArg (greetedBytes tr ++ ·) (List.append_nil data)
  obtain ⟨rest, rfl⟩ := said
  rw [← length, List.drop_left] at next
  rw [grows]
  exact (List.prefix_append_right_inj _).mpr next

/-- An operation ends that is not the read of the answer. -/
private theorem Spoken.completes (spoken : Spoken ip port buff tr c) {p : StartPoint} {r : Completion}
    (mute : greetedBytes evs = []) (unheard : answers evs = []) (at_ : c.start = .suspended p)
    (done : c'.start = .completed p r) (unread : r = .error ∨ p ≠ .methodRead)
    (held : c'.remoteRecvBuff = c.remoteRecvBuff) : Spoken ip port buff (tr ++ evs) c' := by
  refine spoken.stays mute unheard ?_ (fun n => iff_of_false ?_ ?_) held
  · rw [done, at_]
    rfl
  · rw [done]
    rintro ⟨⟩
    exact unread.elim nofun fun other => other rfl
  · rw [at_]
    nofun

/-- The socket takes a part of what a write offers. -/
private theorem Spoken.accepts (spoken : Spoken ip port buff tr c) (hailed : Hailed tr c) {p : StartPoint} {n : Nat}
    {bytes : List UInt8} (at_ : c.start = .suspended p) (offers : p.offered c.remoteRecvBuff = some bytes)
    (done : c'.start = .completed p (.ok n)) (held : c'.remoteRecvBuff = c.remoteRecvBuff) :
    Spoken ip port buff (tr ++ [p.accepted (bytes.take n)]) c' := by
  have at' : c.start.point? = some p := by rw [at_]; rfl
  have point : c'.start.point? = some p := point?_of_completed done
  have length := hailed.waits p at_
  have heard (data : List UInt8) : answers (tr ++ [.greeted data]) = answers tr := by
    rw [answers_append]
    exact List.append_nil _
  cases p with
  | methodWrite sent =>
    cases offers
    cases spoken with
    | opening _ _ _ answered held' said =>
      refine .opening point rfl (fun n h => ?_) ((heard _).trans answered) (held.trans held') ?_
      · cases done.symm.trans h
      · exact greeted_extends said length (List.take_prefix n _)
    | chosen at_' => cases at_.symm.trans at_'
    | requesting at_' => cases at'.symm.trans at_'
    | past late => cases late _ at'
  | requestWrite sent =>
    cases offers
    cases spoken with
    | opening at_' opens =>
      cases at'.symm.trans at_'
      cases opens
    | chosen at_' => cases at_.symm.trans at_'
    | requesting at_' answered size held' said =>
      refine .requesting point ((heard _).trans answered) size (held.trans held') ?_
      refine greeted_extends said length ?_
      rw [StartPoint.hailed, drop_spokenWords, ← held']
      exact List.take_prefix n _
    | past late => cases late _ at'
  | drainWrite =>
    refine spoken.goesPast rfl fun p h => ?_
    cases point.symm.trans h
    rfl
  | _ => cases offers

/-- A read of `Start` returns. -/
private theorem Spoken.arrives (spoken : Spoken ip port buff tr c) {p : StartPoint} {off size : Nat}
    {data : List UInt8} (at_ : c.start = .suspended p) (takes : p.window = some (off, size)) (some_ : data ≠ [])
    (le : data.length ≤ size) (done : c'.start = .completed p (.ok data.length))
    (held : c'.remoteRecvBuff = c.remoteRecvBuff.store off data) :
    Spoken ip port buff (tr ++ [p.received data]) c' := by
  have at' : c.start.point? = some p := by rw [at_]; rfl
  have point : c'.start.point? = some p := point?_of_completed done
  cases p with
  | methodRead =>
    cases takes
    cases spoken with
    | opening _ _ _ answered held' said =>
      refine .chosen done ?_ ⟨some_, le⟩ (by rw [held, held']) ?_
      · rw [answers_append, answered]
        rfl
      · rw [greetedBytes_append]
        exact (List.append_nil (greetedBytes tr)).symm ▸ said
    | chosen at_' => cases at_.symm.trans at_'
    | requesting at_' => cases at'.symm.trans at_'
    | past late => cases late _ at'
  | requestRead | downloadRead =>
    refine spoken.goesPast rfl fun p h => ?_
    cases point.symm.trans h
    rfl
  | _ => cases takes

private theorem SocketMove.spoken {a : TcpAct} (move : SocketMove c a evs c') (shape : Shape c) (hailed : Hailed tr c)
    (spoken : Spoken ip port buff tr c) : Spoken ip port buff (tr ++ evs) c' := by
  cases move with
  | connected at_ => exact spoken.completes rfl rfl at_ rfl (Or.inr nofun) rfl
  | connectFailed at_ | startWriteFails _ at_ | startReadFails _ at_ =>
    exact spoken.completes rfl rfl at_ rfl (Or.inl rfl) rfl
  | startAccepts _ at_ offers => exact spoken.accepts hailed at_ offers rfl rfl
  | startArrives _ at_ takes some_ le => exact spoken.arrives at_ takes some_ le rfl rfl
  | writerAccepts | writerWriteFails | readerReadFails | transmits =>
    exact spoken.stays rfl rfl rfl (fun _ => Iff.rfl) rfl
  | readerArrives _ at_ =>
    refine spoken.goesPast rfl fun p h => ?_
    cases h.symm.trans (shape.start_of_reader at_)

private theorem Callback.spoken {seg : Segment} (move : Callback seg c evs c') (spoken : Spoken ip port buff tr c) :
    Spoken ip port buff (tr ++ evs) c' := by
  have unheard := unheard_chain (.single move)
  refine spoken.stays ?_ unheard.answered unheard.point? (fun n => ?_) unheard.buff
  · cases move with
    | lwip change => cases change <;> rfl
    | _ => rfl
  · rcases unheard.start with same | ⟨cancelled, _⟩
    · rw [same]
    · rw [cancelled, cancel_eq_completed_ok]

/-- Before the answer to the method request is awaited. -/
private theorem Spoken.unanswered (spoken : Spoken ip port buff tr c) {p : StartPoint} (at_ : c.start.point? = some p)
    (opens : p.opens = true) (early : p ≠ .methodRead) :
    answers tr = [] ∧ c.remoteRecvBuff = buff ∧ greetedBytes tr <+: defaultMethodRequest := by
  cases spoken with
  | opening _ _ _ answered held said => exact ⟨answered, held, said⟩
  | chosen at' =>
    cases (point?_of_completed at').symm.trans at_
    exact absurd rfl early
  | requesting at' =>
    cases at'.symm.trans at_
    cases opens
  | past late =>
    have asks := late p at_
    cases p with
    | connect | methodWrite | methodRead => cases asks
    | _ => cases opens

/-- The coroutine of `Start` waits for the next operation of the requests. -/
private theorem Spoken.next {d : Conn} {p p' : StartPoint} {n : Nat} (spoken : Spoken ip port buff tr c)
    (at_ : c.start = .completed p (.ok n)) (next : Greets p n p') (held : d.remoteRecvBuff = c.remoteRecvBuff) :
    Spoken ip port buff (tr ++ []) (d.awaitStart p') := by
  have at' := point?_of_completed at_
  have point := d.point?_awaitStart p'
  rw [List.append_nil]
  cases next with
  | methodWritesOn =>
    obtain ⟨answered, held', said⟩ := spoken.unanswered at' rfl nofun
    refine .opening point rfl (fun n h => ?_) answered (held.trans held') said
    cases point.symm.trans (point?_of_completed h)
  | methodWritten =>
    obtain ⟨answered, held', said⟩ := spoken.unanswered at' rfl nofun
    refine .opening point rfl (fun n h => ?_) answered (held.trans held') said
    have reads : StartPoint.methodRead.window ≠ none := nofun
    cases (awaits_suspended d reads).symm.trans h
  | requestWritesOn =>
    cases spoken with
    | opening at_' opens =>
      cases at'.symm.trans at_'
      cases opens
    | chosen at_' => cases at_.symm.trans at_'
    | requesting _ answered size held' said => exact .requesting point answered size (held.trans held') said
    | past late => cases late _ at'
  | requestWritten | replyReadsOn =>
    refine .past (fun q h => ?_) spoken.said
    cases point.symm.trans h
    rfl

private theorem Spoken.requests {n : Nat} (spoken : Spoken ip port buff tr c)
    (at_ : c.start = .completed .methodRead (.ok n)) (address : c.pcb.localIp = ip ∧ c.pcb.localPort = port) :
    Spoken ip port buff (tr ++ [.used .localIp, .used .localPort])
      ({ c with remoteRecvBuff := c.remoteRecvBuff.socks5Request c.pcb.localIp c.pcb.localPort }.awaitStart
        (.requestWrite 0)) := by
  have at' := point?_of_completed at_
  have same : greetedBytes (tr ++ [.used .localIp, .used .localPort]) = greetedBytes tr := by
    rw [greetedBytes_append]
    exact List.append_nil _
  cases spoken with
  | opening at_' _ unread => exact absurd at_ (unread n)
  | chosen _ answered size held said =>
    refine .requesting (Conn.point?_awaitStart _ _) ?_ size ?_ ?_
    · rw [answers_append, answered]
      rfl
    · change c.remoteRecvBuff.socks5Request c.pcb.localIp c.pcb.localPort = _
      rw [held, address.1, address.2]
      rfl
    · rw [same]
      exact said.trans (List.prefix_append _ _)
  | requesting at_' => cases at'.symm.trans at_'
  | past late => cases late _ at'

private theorem Resumes.spoken {room : Room} {id : CoroId} (move : Resumes c room id evs c')
    (address : c.pcb.localIp = ip ∧ c.pcb.localPort = port) (spoken : Spoken ip port buff tr c) :
    Spoken ip port buff (tr ++ evs) c' := by
  have waits {d : Conn} {p : StartPoint} (late : p.asks = false) (q : StartPoint)
      (h : (d.awaitStart p).start.point? = some q) : q.asks = false := by
    cases (d.point?_awaitStart p).symm.trans h
    exact late
  have drained {d : Conn} {p : StartPoint} {n : Nat} {first : List TcpEvent} (at_ : c.start = .completed p (.ok n))
      (late : p.asks = false) (start : d.start = c.start) (mute : greetedBytes first = []) :
      Spoken ip port buff (tr ++ (first ++ d.drainLoop.2)) d.drainLoop.1 := by
    rcases d.drainLoop_cases with ⟨_, loop⟩ | ⟨front, rest, _, ⟨_, loop⟩ | ⟨_, loop⟩⟩
    · rw [loop, List.append_nil]
      exact spoken.goesPast mute (waits rfl)
    · rw [loop, List.append_nil]
      exact spoken.goesPast mute (waits rfl)
    · rw [loop]
      refine spoken.goesPast (by rw [greetedBytes_append, mute]; rfl) fun q h => ?_
      cases (point?_of_completed (start.trans at_)).symm.trans h
      exact late
  cases move with
  | startFailed | rejected | drainEnds | downloadEnds | parks => exact spoken.goesPast rfl nofun
  | connected at_ =>
    obtain ⟨answered, held, said⟩ := spoken.unanswered (point?_of_completed at_) rfl nofun
    rw [List.append_nil]
    refine .opening (Conn.point?_awaitStart _ _) rfl (fun n h => ?_) answered held said
    cases (Conn.point?_awaitStart _ _).symm.trans (point?_of_completed h)
  | greets at_ next => exact spoken.next at_ next rfl
  | requests at_ => exact spoken.requests at_ address
  | relays at_ =>
    have mute : greetedBytes [.used .localPort] = [] := rfl
    refine drained at_ rfl ?_ mute
    rfl
  | drains at_ =>
    refine drained at_ rfl ?_ ?_
    · rfl
    · rfl
  | drainWritesOn => exact spoken.goesPast rfl (waits rfl)
  | downloads => exact spoken.goesPast rfl (waits rfl)
  | startDangles _ touches =>
    cases touches <;> exact spoken.stays rfl rfl rfl (fun _ => Iff.rfl) rfl
  | writerPops =>
    obtain ⟨_, _, _, _, eq⟩ := Conn.writerLoop_eq _ _
    rw [eq]
    exact spoken.stays rfl rfl rfl (fun _ => Iff.rfl) rfl
  | @readerParks j n | @readerReads j n =>
    obtain ⟨pcb, eq, _⟩ := c.writeLocal_eq n room
    rw [eq]
    exact spoken.stays rfl rfl rfl (fun _ => Iff.rfl) rfl
  | writerFailed | writerWritesOn | writerEnds | writerFollows | writerDangles | readerFailed | readerEnds
  | readerDangles => exact spoken.stays rfl rfl rfl (fun _ => Iff.rfl) rfl

/-- The address of the accepted connection never changes. -/
private theorem LwipChange.address {seg : Segment} {pcb pcb' : Pcb} (change : LwipChange seg pcb evs pcb') :
    pcb'.localIp = pcb.localIp ∧ pcb'.localPort = pcb.localPort := by
  cases change with
  | processed =>
    obtain ⟨_, _, eq⟩ := pcb.tcpProcess_eq seg
    rw [eq]
    exact ⟨rfl, rfl⟩
  | closed =>
    obtain ⟨_, _, eq⟩ := pcb.tcpClose_eq
    rw [eq]
    exact ⟨rfl, rfl⟩
  | finCounted | freed | aborted => exact ⟨rfl, rfl⟩

private theorem Callback.address {seg : Segment} (move : Callback seg c evs c') :
    c'.pcb.localIp = c.pcb.localIp ∧ c'.pcb.localPort = c.pcb.localPort := by
  cases move with
  | lwip change => exact change.address
  | writerSpawned =>
    obtain ⟨_, _, _, _, eq⟩ := Conn.writerLoop_eq _ c.writers.length
    rw [eq]
    exact ⟨rfl, rfl⟩
  | _ => exact ⟨rfl, rfl⟩

private theorem SocketMove.address {a : TcpAct} (move : SocketMove c a evs c') :
    c'.pcb.localIp = c.pcb.localIp ∧ c'.pcb.localPort = c.pcb.localPort := by
  cases move <;> exact ⟨rfl, rfl⟩

private theorem writeLocal_address (n : Nat) (room : Room) :
    (c.writeLocal n room).pcb.localIp = c.pcb.localIp ∧ (c.writeLocal n room).pcb.localPort = c.pcb.localPort := by
  obtain ⟨pcb, eq, same | taken⟩ := c.writeLocal_eq n room
  · rw [eq, same]
    exact ⟨rfl, rfl⟩
  · rw [eq]
    unfold Pcb.tcpWrite at taken
    split at taken <;> cases taken
    exact ⟨rfl, rfl⟩

private theorem Resumes.address {room : Room} {id : CoroId} (move : Resumes c room id evs c') :
    c'.pcb.localIp = c.pcb.localIp ∧ c'.pcb.localPort = c.pcb.localPort := by
  have drained (d : Conn) : d.drainLoop.1.pcb = d.pcb := by
    obtain ⟨_, _, _, _, _, eq⟩ := d.drainLoop_eq
    rw [eq]
  cases move with
  | relays | drains =>
    rw [drained]
    exact ⟨rfl, rfl⟩
  | writerPops =>
    obtain ⟨_, _, _, _, eq⟩ := Conn.writerLoop_eq _ _
    rw [eq]
    exact ⟨rfl, rfl⟩
  | parks | downloads | readerParks | readerReads => exact writeLocal_address _ room
  | _ => exact ⟨rfl, rfl⟩

end Moves

/-- The two requests of a connection, from the state `listener_accept_func` leaves. -/
private theorem said_exec {ip : List UInt8} {port : Nat} {buff : RecvBuff} {opened : Bool} {as : List TcpAct}
    {ts : List (Transition Conn TcpAct TcpEvent)} {c : Conn} (four : ip.length = 4) (hp : port < 65536)
    (ran : connMachine.exec (Conn.listenerAcceptFunc ip port buff opened) as = some (ts, c)) :
    Said ip port buff (Machine.trace ts) := by
  have init : connMachine.Init (Conn.listenerAcceptFunc ip port buff opened) :=
    ⟨ip, port, buff, opened, four, hp, rfl⟩
  have address {c c' : Conn} (before : c.pcb.localIp = ip ∧ c.pcb.localPort = port)
      (same : c'.pcb.localIp = c.pcb.localIp ∧ c'.pcb.localPort = c.pcb.localPort) :
      c'.pcb.localIp = ip ∧ c'.pcb.localPort = port := ⟨same.1.trans before.1, same.2.trans before.2⟩
  refine (preserved_by_moves ran (fun tr c => Hailed tr c ∧ (c.pcb.localIp = ip ∧ c.pcb.localPort = port) ∧
    Spoken ip port buff tr c) (shape_init init) ⟨hailed_init init, ⟨rfl, rfl⟩, ?_⟩ ?_ ?_ ?_ ?_).2.2.said
  · cases opened
    · exact .past nofun (Or.inl (List.nil_prefix))
    · exact .opening rfl rfl nofun rfl rfl List.nil_prefix
  · rintro seg tr c evs c' move shape ⟨hailed, here, spoken⟩
    exact ⟨move.hailed hailed shape, address here move.address, move.spoken spoken⟩
  · rintro tr c a evs c' move shape ⟨hailed, here, spoken⟩
    exact ⟨move.hailed hailed shape, address here move.address, move.spoken shape hailed spoken⟩
  · rintro tr c room id evs c' move shape ⟨hailed, here, spoken⟩
    exact ⟨move.hailed hailed, address here move.address, move.spoken here spoken⟩
  · rintro tr c ⟨hailed, here, spoken⟩
    obtain ⟨_, _, eq⟩ := c.reap_eq
    refine ⟨hailed.reap, ?_, ?_⟩
    · rw [eq]
      exact here
    · rw [eq]
      exact spoken.stays (silent_reap c).2.1 (heard_reap c).1 rfl (fun _ => Iff.rfl) rfl

/-- When its ten bytes are out, the request is the one for the destination exactly if the server's
answer began with 5 and the buffer happened to hold 0 where RSV goes. -/
theorem connect_request_iff {ip : List UInt8} {port : Nat} {buff : RecvBuff} {opened : Bool} {as : List TcpAct}
    {ts : List (Transition Conn TcpAct TcpEvent)} {c : Conn} (four : ip.length = 4) (hp : port < 65536)
    (ran : connMachine.exec (Conn.listenerAcceptFunc ip port buff opened) as = some (ts, c))
    (whole : 10 ≤ (requestWritten (Machine.trace ts)).length) :
    requestWritten (Machine.trace ts) = connectRequest ip port ↔
      (methodReply (Machine.trace ts)).head? = some 5 ∧ buff.1[2]? = some 0 := by
  have thirteen : 13 ≤ (greetedBytes (Machine.trace ts)).length := by
    rw [requestWritten, List.length_drop] at whole
    have three : defaultMethodRequest.length = 3 := rfl
    omega
  rcases said_exec four hp ran with early | ⟨m, rest, answered, size, said⟩
  · have short := early.length_le
    have three : defaultMethodRequest.length = 3 := rfl
    omega
  · have spoken : greetedBytes (Machine.trace ts) = spokenWords ip port buff m :=
      said.eq_of_length (Nat.le_antisymm said.length_le (length_spokenWords.trans_le thirteen))
    have written : requestWritten (Machine.trace ts) = slice (buff.asked ip port m).1 0 10 := by
      rw [requestWritten, spoken, spokenWords, List.drop_left]
    have reply : methodReply (Machine.trace ts) = m := by
      rw [methodReply, answered]
      rfl
    rw [written, reply]
    exact asked_eq_iff four size

/-- A buffer as the allocator may leave it. -/
def filledBuff (b : UInt8) : RecvBuff := ⟨List.replicate 1436 b, List.length_replicate⟩

/-- The request is written in two parts from a buffer of zeros. -/
theorem connect_request_iff_zeros : ∃ ts c,
    connMachine.exec (Conn.listenerAcceptFunc [9, 9, 9, 9] 443 (filledBuff 0) true)
      [.connected, .resume .start .free, .accept 3, .resume .start .free, .arrive [5, 0], .resume .start .free,
        .accept 4, .resume .start .free, .accept 6] = some (ts, c) ∧
    requestWritten (Machine.trace ts) = [5, 1, 0, 1, 9, 9, 9, 9, 1, 187] := by
  obtain ⟨⟨ts, c⟩, ran, facts⟩ := (Option.any_eq_true
    (fun r => decide (10 ≤ (requestWritten (Machine.trace r.1)).length ∧ methodReply (Machine.trace r.1) = [5, 0]))
    (connMachine.exec (Conn.listenerAcceptFunc [9, 9, 9, 9] 443 (filledBuff 0) true)
      [.connected, .resume .start .free, .accept 3, .resume .start .free, .arrive [5, 0], .resume .start .free,
        .accept 4, .resume .start .free, .accept 6])).mp (by decide +kernel)
  obtain ⟨whole, reply⟩ := of_decide_eq_true facts
  refine ⟨ts, c, ran, (connect_request_iff rfl (by decide) ran whole).mpr ⟨?_, rfl⟩⟩
  rw [reply]
  rfl

/-- The server answers as it should, and RSV is what the buffer held before. -/
theorem connect_request_leftover : ∃ ts c,
    connMachine.exec (Conn.listenerAcceptFunc [9, 9, 9, 9] 443 (filledBuff 205) true)
      [.connected, .resume .start .free, .accept 3, .resume .start .free, .arrive [5, 0], .resume .start .free,
        .accept 10] = some (ts, c) ∧
    requestWritten (Machine.trace ts) = [5, 1, 205, 1, 9, 9, 9, 9, 1, 187] ∧
    requestWritten (Machine.trace ts) ≠ connectRequest [9, 9, 9, 9] 443 := by
  obtain ⟨⟨ts, c⟩, ran, facts⟩ := (Option.any_eq_true
    (fun r => requestWritten (Machine.trace r.1) == [5, 1, 205, 1, 9, 9, 9, 9, 1, 187])
    (connMachine.exec (Conn.listenerAcceptFunc [9, 9, 9, 9] 443 (filledBuff 205) true)
      [.connected, .resume .start .free, .accept 3, .resume .start .free, .arrive [5, 0], .resume .start .free,
        .accept 10])).mp (by decide +kernel)
  have written : requestWritten (Machine.trace ts) = [5, 1, 205, 1, 9, 9, 9, 9, 1, 187] := by simpa using facts
  refine ⟨ts, c, ran, written, ?_⟩
  rw [written]
  decide

end Tunosocks.Tcp
