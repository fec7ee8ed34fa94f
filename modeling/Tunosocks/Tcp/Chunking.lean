import Tunosocks.Tcp.Handshake

/-! How the server's bytes are cut into reads. The first read of the handshake may return one byte
of the two it asks for; everything behind it is then read one byte too early. -/
namespace Tunosocks.Tcp
open Foundation Foundation.Buffer Coroutine

namespace Conn

/-- The bytes an action passes to `tcp_write`. -/
def gives (c : Conn) : TcpAct → List UInt8
  | .resume .start _ =>
    match c.start with
    | .completed .downloadRead (.ok n) => if c.status = .close then [] else c.remoteRecvBuff.1.take n
    | _ => []
  | .resume (.reader j) _ =>
    match c.readers[j]? with
    | some (.completed _ (.ok n)) => if c.status = .close then [] else c.remoteRecvBuff.1.take n
    | _ => []
  | _ => []

end Conn

/-- The bytes passed on to the local peer. -/
def relayedBytes (ts : List (Transition Conn TcpAct TcpEvent)) : List UInt8 := ts.flatMap fun t => t.pre.gives t.act

/-- What has been got from the server after the handshake has been given to lwIP, but for the last read. -/
structure Passes (got given : List UInt8) (c : Conn) : Prop where
  kept : given <+: got
  early : ∀ p, c.start.point? = some p → p ≠ .downloadRead → got = []
  waits : c.start = .suspended .downloadRead → given = got
  held : c.halted = false → ∀ n, c.start = .completed .downloadRead (.ok n) → got = given ++ c.remoteRecvBuff.1.take n

section Moves
variable {c c' : Conn} {evs : List TcpEvent} {got given : List UInt8}

private theorem Passes.congr (passes : Passes got given c) (live : c.halted = false)
    (start : c'.start = c.start ∨ c'.start = c.start.cancel) (buff : c'.remoteRecvBuff = c.remoteRecvBuff) :
    Passes got given c' := by
  have point : c'.start.point? = c.start.point? := by
    rcases start with eq | eq <;> simp [eq]
  refine ⟨passes.kept, fun p h => passes.early p (point ▸ h), fun h => ?_, fun _ n h => ?_⟩
  · rcases start with eq | eq
    · exact passes.waits (eq ▸ h)
    · exact absurd (eq ▸ h) (cancel_ne_suspended _ _)
  · rw [buff]
    refine passes.held live n ?_
    rcases start with eq | eq
    · exact eq ▸ h
    · exact cancel_eq_completed_ok.mp (eq ▸ h)

/-- The coroutine of `Start` returns. -/
private theorem Passes.ends (kept : given <+: got) (gone : c'.start = .finished) : Passes got given c' := by
  refine ⟨kept, fun p h => ?_, fun h => ?_, fun _ n h => ?_⟩
  · rw [gone] at h
    cases h
  · cases gone.symm.trans h
  · cases gone.symm.trans h

/-- It waits in an operation before the download. -/
private theorem Passes.precedes {p : StartPoint} (none_ : got = []) (kept : given <+: got)
    (at_ : c'.start.point? = some p) (other : p ≠ .downloadRead) : Passes got given c' := by
  refine ⟨kept, fun _ _ _ => none_, fun h => ?_, fun _ n h => ?_⟩
  · rw [h] at at_
    cases at_
    exact absurd rfl other
  · rw [h] at at_
    cases at_
    exact absurd rfl other

private theorem SocketMove.passes {a : TcpAct} (move : SocketMove c a evs c') (shape : Shape c)
    (live : c.halted = false)
    (passes : Passes got given c) : Passes (got ++ downloadedBytes evs) (given ++ c.gives a) c' := by
  -- an operation of `Start` that ends is not a read of the download
  have completes {p : StartPoint} {r : Completion} {d : Conn} (at_ : c.start = .suspended p)
      (done : d.start = .completed p r) (fails : p = .downloadRead → r = .error) : Passes got given d := by
    refine ⟨passes.kept, fun q h => ?_, fun h => ?_, fun _ n h => ?_⟩
    · refine passes.early q ?_
      rw [done] at h
      rw [at_]
      exact h
    · cases done.symm.trans h
    · cases done.symm.trans h
      cases fails rfl
  cases move with
  | connected at_ =>
    simp only [Conn.gives, List.append_nil, downloadedBytes, List.flatMap_nil]
    exact completes at_ rfl nofun
  | connectFailed at_ | startWriteFails _ at_ | startReadFails _ at_ =>
    simp only [Conn.gives, List.append_nil, downloadedBytes, List.flatMap_nil]
    exact completes at_ rfl fun _ => rfl
  | @startAccepts n point bytes rest oldest at_ offers =>
    have silent : downloadedBytes [point.accepted (bytes.take n)] = [] := by
      cases point <;> rfl
    rw [silent, List.append_nil]
    simp only [Conn.gives, List.append_nil]
    refine completes at_ rfl ?_
    rintro rfl
    cases offers
  | @startArrives data point off size rest oldest at_ takes some_ le =>
    simp only [Conn.gives, List.append_nil]
    cases point with
    | downloadRead =>
      cases takes
      refine ⟨passes.kept.trans (List.prefix_append _ _), fun p h other => ?_, nofun, fun _ n h => ?_⟩
      · cases h
        exact absurd rfl other
      · cases h
        have fits : 0 + data.length ≤ c.remoteRecvBuff.1.length := by
          rw [c.remoteRecvBuff.2]
          omega
        have stored : slice (writeAt c.remoteRecvBuff.1 0 data) 0 data.length = data := slice_writeAt_same rfl fits
        rw [passes.waits at_]
        exact congrArg (got ++ ·) ((List.append_nil _).trans stored.symm)
    | _ =>
      have silent : got ++ downloadedBytes [.answered data] = got := List.append_nil got
      exact silent.symm ▸ completes at_ rfl nofun
  | readerArrives _ at_ =>
    simp only [Conn.gives, List.append_nil]
    exact .ends (passes.kept.trans (List.prefix_append _ _)) (point?_eq_none.mp (shape.start_of_reader at_))
  | writerAccepts | writerWriteFails | readerReadFails | transmits =>
    simp only [Conn.gives, List.append_nil, downloadedBytes, List.flatMap_nil, List.flatMap_cons]
    exact passes.congr live (Or.inl rfl) rfl

private theorem Resumes.passes {room : Room} {id : CoroId} (move : Resumes c room id evs c') (shape : Shape c)
    (live : c.halted = false) (passes : Passes got given c) :
    Passes (got ++ downloadedBytes evs) (given ++ c.gives (.resume id room)) c' := by
  have still {d : Conn} (silent : downloadedBytes evs = []) (kept : c.gives (.resume id room) = [])
      (next : Passes got given d) : Passes (got ++ downloadedBytes evs) (given ++ c.gives (.resume id room)) d := by
    rw [silent, kept, List.append_nil, List.append_nil]
    exact next
  -- before the download nothing has been read for the local peer
  have before {p : StartPoint} {n : Nat} (at_ : c.start = .completed p (.ok n)) (other : p ≠ .downloadRead) :
      got = [] ∧ c.gives (.resume .start room) = [] := by
    refine ⟨passes.early p (point?_of_completed at_) other, ?_⟩
    cases p with
    | downloadRead => exact absurd rfl other
    | _ => simp only [Conn.gives, at_]
  have drained (d : Conn) (simple : ∀ p ∈ d.pbufQueue, p.len = p.totLen) (none_ : got = []) :
      downloadedBytes d.drainLoop.2 = [] ∧ Passes got given d.drainLoop.1 := by
    have nothing : given = got := by
      rw [none_]
      exact List.prefix_nil.mp (none_ ▸ passes.kept)
    rcases d.drainLoop_cases with ⟨_, loop⟩ | ⟨front, rest, popped, ⟨_, loop⟩ | ⟨chained, _⟩⟩
    · rw [loop]
      have waiting := awaits_suspended d (p := .downloadRead) nofun
      exact ⟨rfl, passes.kept, fun _ _ _ => none_, fun _ => nothing, fun _ n h => nomatch waiting.symm.trans h⟩
    · rw [loop]
      exact ⟨rfl, .precedes none_ passes.kept (Conn.point?_awaitStart _ _) nofun⟩
    · exact absurd (simple front (popped ▸ List.mem_cons_self)) chained
  have gives {n : Nat} (at_ : c.start = .completed .downloadRead (.ok n)) (opened : c.status ≠ .close) :
      given ++ c.gives (.resume .start room) = got := by
    rw [passes.held live n at_]
    simp only [Conn.gives, at_, if_neg opened]
  cases move with
  | startFailed at_ => exact still rfl (by simp only [Conn.gives, at_]) (.ends passes.kept rfl)
  | connected at_ | requests at_ =>
    obtain ⟨none_, kept⟩ := before at_ nofun
    exact still rfl kept (.precedes none_ passes.kept (Conn.point?_awaitStart _ _) nofun)
  | greets at_ next =>
    obtain ⟨none_, kept⟩ := before at_ (by cases next <;> nofun)
    exact still rfl kept (.precedes none_ passes.kept (Conn.point?_awaitStart _ _) (by cases next <;> nofun))
  | rejected at_ =>
    obtain ⟨none_, kept⟩ := before at_ nofun
    exact still rfl kept (.ends passes.kept rfl)
  | relays at_ =>
    obtain ⟨none_, kept⟩ := before at_ nofun
    obtain ⟨silent, next⟩ := drained { c with status := .relaying } shape.simple none_
    exact still silent kept next
  | drainWritesOn at_ =>
    obtain ⟨none_, kept⟩ := before at_ nofun
    exact still rfl kept (.precedes none_ passes.kept (Conn.point?_awaitStart _ _) nofun)
  | drainEnds at_ =>
    obtain ⟨none_, kept⟩ := before at_ nofun
    exact still rfl kept (.ends passes.kept rfl)
  | @drains front sent n at_ =>
    obtain ⟨none_, kept⟩ := before at_ nofun
    obtain ⟨silent, next⟩ := drained { c with pcb := c.pcb.tcpRecved front.len } shape.simple none_
    exact still silent kept next
  | downloadEnds at_ closed =>
    exact still rfl (by simp only [Conn.gives, at_, if_pos closed]) (.ends passes.kept rfl)
  | @parks n at_ opened =>
    rw [gives at_ opened, (heard_uses _).2.2.1, List.append_nil]
    exact .ends (List.prefix_refl _) rfl
  | @downloads n at_ opened =>
    have waiting := awaits_suspended (c.writeLocal n room) (p := .downloadRead) nofun
    rw [gives at_ opened, (heard_uses _).2.2.1, List.append_nil]
    refine ⟨List.prefix_refl _, fun p h other => ?_, fun _ => rfl, fun _ n h => nomatch waiting.symm.trans h⟩
    rw [waiting] at h
    cases h
    exact absurd rfl other
  | startDangles at_ touches =>
    cases touches with
    | request | drain =>
      exact still rfl (before at_ nofun).2 (passes.congr live (Or.inl rfl) rfl)
    | download opened =>
      rw [gives at_ opened, downloadedBytes_append, (heard_uses _).2.2.1]
      simp only [downloadedBytes, List.flatMap_cons, List.flatMap_nil, List.append_nil]
      exact ⟨List.prefix_refl _, passes.early, fun _ => rfl, fun halted => nomatch halted⟩
  | @writerPops j n point =>
    obtain ⟨_, _, _, _, eq⟩ := Conn.writerLoop_eq { c with pcb := c.pcb.tcpRecved point.payload.length } j
    rw [eq]
    exact still rfl rfl (passes.congr live (Or.inl rfl) rfl)
  | writerFailed | writerWritesOn | writerEnds | writerFollows | writerDangles =>
    exact still rfl rfl (passes.congr live (Or.inl rfl) rfl)
  | readerFailed at_ => exact still rfl (by simp only [Conn.gives, at_]) (passes.congr live (Or.inl rfl) rfl)
  | readerEnds at_ closed =>
    exact still rfl (by simp only [Conn.gives, at_, if_pos closed]) (passes.congr live (Or.inl rfl) rfl)
  | readerParks at_ opened | readerReads at_ opened | readerDangles at_ opened =>
    exact absurd (shape.closed_of_reader at_) opened

private theorem passes_run {ts : List (Transition Conn TcpAct TcpEvent)} (run : connMachine.Run ts c) :
    Passes (downloadedBytes (Machine.trace ts)) (relayedBytes ts) c := by
  induction run with
  | init h =>
    obtain ⟨_, _, _, opened, _, _, rfl⟩ := h
    cases opened
    · exact .ends (List.prefix_refl _) rfl
    · exact .precedes (p := .connect) rfl (List.prefix_refl _) rfl nofun
  | @next ts c c' a out run h ih =>
    obtain ⟨live, mid, evs, step, rfl, rfl⟩ := tcpStep_of_step h
    obtain ⟨_, _, eq⟩ := mid.reap_eq
    have relayed : relayedBytes (ts ++ [⟨c, a, evs ++ mid.reap.2, mid.reap.1⟩]) = relayedBytes ts ++ c.gives a := by
      simp [relayedBytes]
    rw [relayed, Machine.trace_snoc, downloadedBytes_append, downloadedBytes_append, (heard_reap mid).2.2.1,
      List.append_nil]
    have next : Passes (downloadedBytes (Machine.trace ts) ++ downloadedBytes evs)
        (relayedBytes ts ++ c.gives a) mid := by
      cases step with
      | input chain | reset chain =>
        have unheard := unheard_chain chain
        rw [unheard.downloaded]
        simp only [Conn.gives, List.append_nil]
        exact ih.congr live (unheard.start.imp_right And.left) unheard.buff
      | socket move => exact move.passes (shape_run run) live ih
      | resumed move => exact move.passes (shape_run run) live ih
    rw [eq]
    exact ⟨next.kept, next.early, next.waits, next.held⟩

end Moves
/-! ### The verdict on a stream -/

/-- A stream has a valid request reply behind its first `k` bytes. -/
def AcceptedAt (k : Nat) (stream : List UInt8) : Prop := k + 10 ≤ stream.length ∧ slice stream k 4 = [5, 0, 0, 1]

/-- During the handshake only the end of the stream makes an operation fail, and the local peer does not hang up. -/
def Calm (stream : List UInt8) (tr : List TcpEvent) (t : Transition Conn TcpAct TcpEvent) : Prop :=
  t.pre.Greeting → t.act ≠ .connectFailed ∧ t.act ≠ .failWrite ∧ (t.act = .failRead → serverBytes tr = stream) ∧
    .stopped ∉ t.out

/-- A run in which the reads return a stream, cut in some way, and the handshake comes to its end. -/
structure Cut (stream : List UInt8) (ts : List (Transition Conn TcpAct TcpEvent)) (c : Conn) : Prop where
  reads : serverBytes (Machine.trace ts) <+: stream
  calm : Machine.Along (Calm stream) [] ts
  begun : ∃ t ∈ ts, t.pre.Greeting
  ended : ¬ c.Greeting

/-- How many bytes the first read returned. -/
def firstRead (tr : List TcpEvent) : Nat := ((answers tr).headD []).length

section Verdict
variable {stream : List UInt8} {c c' : Conn} {evs : List TcpEvent} {a : TcpAct} {chunks : List (List UInt8)}

/-- An operation of `Start` that has failed has failed before, or fails now. -/
private theorem TcpStep.faults (step : TcpStep c a evs c') (shape : Shape c) (greets : c.Greeting) {p : StartPoint}
    (error : c'.start = .completed p .error) : c.start = .completed p .error ∧ serverBytes evs = [] ∨ .stopped ∈ evs ∨
      a = .connectFailed ∨ a = .failWrite ∨ a = .failRead ∧ serverBytes evs = [] := by
  obtain ⟨q, at', early⟩ := greets
  have awaits {d : Conn} {p' : StartPoint} (h : (d.awaitStart p').start = .completed p .error) : False := by
    obtain ⟨_, error, _⟩ := Conn.completed_awaitStart h
    cases error
  cases step with
  | input chain | reset chain =>
    have unheard := unheard_chain chain
    rcases unheard.start with same | ⟨_, stopped⟩
    · exact Or.inl ⟨same ▸ error, unheard.server⟩
    · exact Or.inr (Or.inl stopped)
  | socket move =>
    cases move with
    | connected | startAccepts | startArrives => cases error
    | connectFailed => exact Or.inr (Or.inr (Or.inl rfl))
    | startWriteFails => exact Or.inr (Or.inr (Or.inr (Or.inl rfl)))
    | startReadFails | readerReadFails => exact Or.inr (Or.inr (Or.inr (Or.inr ⟨rfl, rfl⟩)))
    | readerArrives _ at_ => cases at'.symm.trans (shape.start_of_reader at_)
    | writerAccepts | writerWriteFails | transmits => exact Or.inl ⟨error, rfl⟩
  | resumed move =>
    have drained {d : Conn} (start : d.start ≠ .completed p .error) : d.drainLoop.1.start ≠ .completed p .error := by
      intro h
      rcases d.drainLoop_cases with ⟨_, loop⟩ | ⟨_, _, _, ⟨_, loop⟩ | ⟨_, loop⟩⟩
      · rw [loop] at h
        exact awaits h
      · rw [loop] at h
        exact awaits h
      · rw [loop] at h
        exact start h
    cases move with
    | startFailed | rejected | drainEnds | downloadEnds | parks => cases error
    | connected | greets | requests | drainWritesOn | downloads => exact (awaits error).elim
    | relays at_ =>
      refine absurd error (drained (d := { c with status := .relaying }) ?_)
      intro h
      cases at_.symm.trans h
    | @drains front _ _ at_ =>
      refine absurd error (drained (d := { c with pcb := c.pcb.tcpRecved front.len }) ?_)
      intro h
      cases at_.symm.trans h
    | startDangles at_ => cases at_.symm.trans error
    | @writerPops j n point =>
      obtain ⟨_, _, _, _, eq⟩ := Conn.writerLoop_eq { c with pcb := c.pcb.tcpRecved point.payload.length } j
      rw [eq] at error
      exact Or.inl ⟨error, rfl⟩
    | writerFailed | writerWritesOn | writerEnds | writerFollows | writerDangles | readerFailed | readerEnds =>
      exact Or.inl ⟨error, rfl⟩
    | readerParks at_ | readerReads at_ | readerDangles at_ => cases at'.symm.trans (shape.start_of_reader at_)

private theorem acceptedAt_iff {m r : List UInt8} (reads : m ++ r <+: stream) (ten : r.length = 10) :
    AcceptedAt m.length stream ↔ r.take 4 = [5, 0, 0, 1] := by
  obtain ⟨more, rfl⟩ := reads
  have four : slice (m ++ r ++ more) m.length 4 = r.take 4 := by
    rw [slice, List.append_assoc, List.drop_left, List.take_append_of_le_length (by omega)]
  have long : m.length + 10 ≤ (m ++ r ++ more).length := by
    simp only [List.length_append]
    omega
  rw [AcceptedAt, and_iff_right long, four]

/-- The handshake ends as the stream says, counted from the first read. -/
private theorem Concludes.verdict (ends : Concludes c chunks c') (progress : Progress c chunks)
    (reads : chunks.flatten <+: stream) (faults : ∀ p, c.start = .completed p .error → chunks.flatten = stream) :
    Replied chunks ↔ AcceptedAt (chunks.headD []).length stream := by
  cases ends with
  | failed at_ =>
    refine iff_of_false (progress.unreplied at_) fun accepted => ?_
    have whole := faults _ at_
    have long := accepted.1
    rw [← whole] at long
    cases progress with
    | opening => simp at long
    | chosen at' | replied at' => cases at_.symm.trans at'
    | requesting =>
      simp only [List.flatten_singleton, List.headD_cons] at long
      omega
    | replying _ _ _ short stored =>
      rw [List.flatten_cons, List.length_append, stored, length_slice, List.headD_cons] at long
      omega
  | @rejected m rest read ten invalid =>
    subst read
    have accepted := acceptedAt_iff (List.flatten_cons ▸ reads) ten
    rw [List.headD_cons, accepted]
    exact iff_of_false (fun replied => invalid replied.2.2) invalid
  | relays valid =>
    refine iff_of_true valid ?_
    cases chunks with
    | nil => exact valid.elim
    | cons m rest =>
      have accepted := acceptedAt_iff (List.flatten_cons ▸ reads) valid.2.1
      rw [List.headD_cons, accepted]
      exact valid.2.2

private theorem Concludes.sized (ends : Concludes c chunks c') (progress : Progress c chunks)
    (faults : ∀ p, c.start = .completed p .error → chunks.flatten = stream) :
    stream = [] ∨ (chunks.headD []).length = 1 ∨ (chunks.headD []).length = 2 := by
  have some_ {m : List UInt8} (size : m ≠ [] ∧ m.length ≤ 2) : m.length = 1 ∨ m.length = 2 := by
    have := List.length_pos_iff.mpr size.1
    omega
  cases progress with
  | opening =>
    cases ends with
    | failed at_ => exact Or.inl (faults _ at_).symm
    | rejected read => cases read
    | relays valid => exact valid.elim
  | chosen _ size | requesting _ size | replying _ _ size | replied _ size => exact Or.inr (some_ size)

/-- What is known of a run that reads a stream, before and after the end of the handshake. -/
structure Judged (stream : List UInt8) (ts : List (Transition Conn TcpAct TcpEvent)) (c : Conn) : Prop where
  faults : c.Greeting → ∀ p, c.start = .completed p .error → serverBytes (Machine.trace ts) = stream
  verdict : ¬ c.Greeting → (∃ t ∈ ts, t.pre.Greeting) →
    (Replied (answers (Machine.trace ts)) ↔ AcceptedAt (firstRead (Machine.trace ts)) stream) ∧
      (stream = [] ∨ firstRead (Machine.trace ts) = 1 ∨ firstRead (Machine.trace ts) = 2)

private theorem judged_run {ts : List (Transition Conn TcpAct TcpEvent)} (run : connMachine.Run ts c) :
    serverBytes (Machine.trace ts) <+: stream → Machine.Along (Calm stream) [] ts → Judged stream ts c := by
  induction run with
  | init h =>
    obtain ⟨_, _, _, opened, _, _, rfl⟩ := h
    refine fun _ _ => ⟨fun _ p error => ?_, fun _ begun => nomatch begun.choose_spec.1⟩
    cases opened <;> cases error
  | @next ts c c' a out run h ih =>
    intro reads along
    obtain ⟨calm, last⟩ := Machine.along_snoc.mp along
    obtain ⟨_, mid, evs, step, rfl, rfl⟩ := tcpStep_of_step h
    obtain ⟨_, _, eq⟩ := mid.reap_eq
    have start : mid.reap.1.start = mid.start := by rw [eq]
    have greeting : mid.reap.1.Greeting ↔ mid.Greeting := by rw [Conn.Greeting, Conn.Greeting, start]
    have server : serverBytes (Machine.trace (ts ++ [⟨c, a, evs ++ mid.reap.2, mid.reap.1⟩])) =
        serverBytes (Machine.trace ts) ++ serverBytes evs := by
      simp only [Machine.trace_snoc, serverBytes_append, (heard_reap mid).2.1, List.append_nil]
    have answered : answers (Machine.trace (ts ++ [⟨c, a, evs ++ mid.reap.2, mid.reap.1⟩])) =
        answers (Machine.trace ts) ++ answers evs := by
      simp only [Machine.trace_snoc, answers_append, (heard_reap mid).1, List.append_nil]
    rw [server] at reads
    have before := ih ((List.prefix_append _ _).trans reads) calm
    have shape := shape_run run
    by_cases greets : c.Greeting
    · obtain ⟨progress, _, downloaded, _⟩ := (answered_run run).early greets
      have bytes := (answered_run run).bytes
      rw [downloaded, List.append_nil] at bytes
      obtain ⟨noConnect, noWrite, atEnd, noStop⟩ := last greets
      constructor
      · intro _ p error
        rw [server]
        rcases step.faults shape greets (start ▸ error) with ⟨same, silent⟩ | stopped | failed | failed |
          ⟨failed, silent⟩
        · rw [silent, List.append_nil]
          exact before.faults greets p same
        · exact absurd (List.mem_append_left _ stopped) noStop
        · exact absurd failed noConnect
        · exact absurd failed noWrite
        · rw [silent, List.append_nil]
          exact atEnd failed
      · intro past _
        rcases (step.advances shape progress).goes with progress' | ⟨quiet, ends⟩
        · exact absurd (greeting.mpr progress'.greeting) past
        · rw [firstRead, answered, quiet, List.append_nil]
          have faults (p : StartPoint) (error : c.start = .completed p .error) :=
            bytes.symm.trans (before.faults greets p error)
          exact ⟨ends.verdict progress (bytes ▸ (List.prefix_append _ _).trans reads) faults,
            ends.sized progress faults⟩
    · have outlasts := step.outlasts shape greets
      refine ⟨fun greets' => absurd (greeting.mp greets') outlasts.past, fun _ begun => ?_⟩
      obtain ⟨t, ht, begun⟩ := begun
      rw [firstRead, answered, outlasts.answered, List.append_nil]
      refine before.verdict greets ⟨t, ?_, begun⟩
      rcases List.mem_append.mp ht with old | new
      · exact old
      · rw [List.mem_singleton.mp new] at begun
        exact absurd begun greets

/-- A calm run relays exactly if the stream has a valid reply behind the first read. -/
private theorem Cut.relayed_iff {ts : List (Transition Conn TcpAct TcpEvent)} (cut : Cut stream ts c)
    (run : connMachine.Run ts c) : Relayed ts ↔ AcceptedAt (firstRead (Machine.trace ts)) stream :=
  ((answered_run run).decided cut.ended).trans ((judged_run run cut.reads cut.calm).verdict cut.ended cut.begun).1

/-- Only one of the two offsets can be right. -/
private theorem acceptedAt_once : ¬ (AcceptedAt 1 stream ∧ AcceptedAt 2 stream) := by
  rintro ⟨⟨_, first⟩, ⟨_, second⟩⟩
  have zero : stream[2]? = some 0 := by
    have byte := getElem?_slice stream 1 4 1
    rw [first] at byte
    exact byte.symm
  have five : stream[2]? = some 5 := by
    have byte := getElem?_slice stream 2 4 0
    rw [second] at byte
    exact byte.symm
  cases zero.symm.trans five

private theorem not_acceptedAt_nil (k : Nat) : ¬ AcceptedAt k [] := by
  rintro ⟨long, _⟩
  cases long

/-- Two different offsets with one verdict both fail. -/
private theorem refused_of_agree {k k' : Nat} (sized : stream = [] ∨ k = 1 ∨ k = 2)
    (sized' : stream = [] ∨ k' = 1 ∨ k' = 2) (differ : k ≠ k') (verdict : AcceptedAt k stream ↔ AcceptedAt k' stream) :
    ¬ AcceptedAt 1 stream ∧ ¬ AcceptedAt 2 stream := by
  rcases sized with rfl | rfl | rfl
  · exact ⟨not_acceptedAt_nil 1, not_acceptedAt_nil 2⟩
  · rcases sized' with rfl | rfl | rfl
    · exact ⟨not_acceptedAt_nil 1, not_acceptedAt_nil 2⟩
    · exact absurd rfl differ
    · exact ⟨fun h => acceptedAt_once ⟨h, verdict.mp h⟩, fun h => acceptedAt_once ⟨verdict.mpr h, h⟩⟩
  · rcases sized' with rfl | rfl | rfl
    · exact ⟨not_acceptedAt_nil 1, not_acceptedAt_nil 2⟩
    · exact ⟨fun h => acceptedAt_once ⟨h, verdict.mpr h⟩, fun h => acceptedAt_once ⟨verdict.mp h, h⟩⟩
    · exact absurd rfl differ

end Verdict

/-- The session has read a stream to its end and waits for more. -/
def Exhausts (stream : List UInt8) (ts : List (Transition Conn TcpAct TcpEvent)) (c : Conn) : Prop :=
  serverBytes (Machine.trace ts) = stream ∧ c.start = .suspended .downloadRead

/-- Two sessions end the handshake in the same way, and what they pass on to the local peer is one sequence. -/
structure SameOutcome (stream : List UInt8) (ts₁ ts₂ : List (Transition Conn TcpAct TcpEvent)) (c₁ c₂ : Conn) :
    Prop where
  verdict : Relayed ts₁ ↔ Relayed ts₂
  closed : ¬ Relayed ts₁ → ¬ Relayed ts₂ → c₁.status = .close ∧ c₂.status = .close
  relayed : Relayed ts₁ → Relayed ts₂ → relayedBytes ts₁ <+: relayedBytes ts₂ ∨ relayedBytes ts₂ <+: relayedBytes ts₁
  whole : Relayed ts₁ → Relayed ts₂ → Exhausts stream ts₁ c₁ → Exhausts stream ts₂ c₂ →
    relayedBytes ts₁ = relayedBytes ts₂

section Outcome
variable {stream : List UInt8} {ts ts₁ ts₂ : List (Transition Conn TcpAct TcpEvent)} {c c₁ c₂ : Conn}

private theorem Cut.relays (cut : Cut stream ts c) (run : connMachine.Run ts c) (relayed : Relayed ts) :
    relayedBytes ts <+: stream.drop (firstRead (Machine.trace ts) + 10) ∧
      (Exhausts stream ts c → relayedBytes ts = stream.drop (firstRead (Machine.trace ts) + 10)) := by
  have answered := answered_run run
  have passes := passes_run run
  have replied := (answered.decided cut.ended).mp relayed
  have length : (answers (Machine.trace ts)).flatten.length = firstRead (Machine.trace ts) + 10 := by
    cases read : answers (Machine.trace ts) with
    | nil =>
      rw [read] at replied
      exact replied.elim
    | cons m rest =>
      rw [read] at replied
      rw [List.flatten_cons, List.length_append, replied.2.1, firstRead, read, List.headD_cons]
  have downloaded : downloadedBytes (Machine.trace ts) =
      (serverBytes (Machine.trace ts)).drop (firstRead (Machine.trace ts) + 10) := by
    rw [answered.bytes, ← length, List.drop_left]
  constructor
  · refine passes.kept.trans ?_
    rw [downloaded]
    exact cut.reads.drop _
  · rintro ⟨whole, waiting⟩
    rw [passes.waits waiting, downloaded, whole]

private theorem Cut.sized (cut : Cut stream ts c) (run : connMachine.Run ts c) :
    stream = [] ∨ firstRead (Machine.trace ts) = 1 ∨ firstRead (Machine.trace ts) = 2 :=
  ((judged_run run cut.reads cut.calm).verdict cut.ended cut.begun).2

private theorem Cut.closed (cut : Cut stream ts c) (run : connMachine.Run ts c) (unrelayed : ¬ Relayed ts) :
    c.status = .close :=
  ((answered_run run).barren cut.ended unrelayed).1.closed (shape_run run)

/-- A stream that is refused behind one byte and behind two is not relayed. -/
private theorem Cut.unrelayed (cut : Cut stream ts c) (run : connMachine.Run ts c) (refused : ¬ AcceptedAt 1 stream)
    (refused' : ¬ AcceptedAt 2 stream) : ¬ Relayed ts := by
  rw [cut.relayed_iff run]
  rcases cut.sized run with rfl | one | two
  · exact not_acceptedAt_nil _
  · rwa [one]
  · rwa [two]

/-- Two ways of cutting a stream lead to the same outcome exactly if their first reads are equally long, or the
stream is refused behind one byte and behind two. -/
theorem same_outcome_iff (run₁ : connMachine.Run ts₁ c₁) (run₂ : connMachine.Run ts₂ c₂) (cut₁ : Cut stream ts₁ c₁)
    (cut₂ : Cut stream ts₂ c₂) : SameOutcome stream ts₁ ts₂ c₁ c₂ ↔
      firstRead (Machine.trace ts₁) = firstRead (Machine.trace ts₂) ∨
        ¬ AcceptedAt 1 stream ∧ ¬ AcceptedAt 2 stream := by
  have relayed₁ := cut₁.relayed_iff run₁
  have relayed₂ := cut₂.relayed_iff run₂
  constructor
  · intro same
    have verdict := same.verdict
    rw [relayed₁, relayed₂] at verdict
    by_cases equal : firstRead (Machine.trace ts₁) = firstRead (Machine.trace ts₂)
    · exact Or.inl equal
    · exact Or.inr (refused_of_agree (cut₁.sized run₁) (cut₂.sized run₂) equal verdict)
  · rintro (equal | ⟨refused, refused'⟩)
    · refine ⟨?_, fun no₁ no₂ => ⟨cut₁.closed run₁ no₁, cut₂.closed run₂ no₂⟩, fun yes₁ yes₂ => ?_,
        fun yes₁ yes₂ all₁ all₂ => ?_⟩
      · rw [relayed₁, relayed₂, equal]
      · have first := (cut₁.relays run₁ yes₁).1
        have second := (cut₂.relays run₂ yes₂).1
        rw [equal] at first
        exact List.prefix_or_prefix_of_prefix first second
      · rw [(cut₁.relays run₁ yes₁).2 all₁, (cut₂.relays run₂ yes₂).2 all₂, equal]
    · have no₁ := cut₁.unrelayed run₁ refused refused'
      have no₂ := cut₂.unrelayed run₂ refused refused'
      exact ⟨iff_of_false no₁ no₂, fun _ _ => ⟨cut₁.closed run₁ no₁, cut₂.closed run₂ no₂⟩,
        fun yes => absurd yes no₁, fun yes => absurd yes no₁⟩

end Outcome

instance (c : Conn) : Decidable c.Greeting :=
  decidable_of_iff (c.start.point?.any StartPoint.greets = true) (by simp [Conn.Greeting, Option.any_eq_true])

instance (stream : List UInt8) (tr : List TcpEvent) (t : Transition Conn TcpAct TcpEvent) :
    Decidable (Calm stream tr t) := by
  unfold Calm
  infer_instance

instance (stream : List UInt8) (ts : List (Transition Conn TcpAct TcpEvent)) (c : Conn) : Decidable (Cut stream ts c) :=
  decidable_of_iff (serverBytes (Machine.trace ts) <+: stream ∧ Machine.Along (Calm stream) [] ts ∧
    (∃ t ∈ ts, t.pre.Greeting) ∧ ¬ c.Greeting)
    ⟨fun h => ⟨h.1, h.2.1, h.2.2.1, h.2.2.2⟩, fun h => ⟨h.reads, h.calm, h.begun, h.ended⟩⟩

/-- The two replies, and two bytes for the local peer. -/
def answeredStream : List UInt8 := [5, 0, 5, 0, 0, 1, 0, 0, 0, 0, 0, 0, 7, 8]

/-- The reply comes in one piece and the two bytes behind it together, or all of them one by one. -/
theorem same_outcome_iff_bytewise : ∃ ts₁ ts₂ c₁ c₂, connMachine.Run ts₁ c₁ ∧ connMachine.Run ts₂ c₂ ∧
    Cut answeredStream ts₁ c₁ ∧ Cut answeredStream ts₂ c₂ ∧
    (SameOutcome answeredStream ts₁ ts₂ c₁ c₂ ↔ firstRead (Machine.trace ts₁) = firstRead (Machine.trace ts₂) ∨
      ¬ AcceptedAt 1 answeredStream ∧ ¬ AcceptedAt 2 answeredStream) := by
  obtain ⟨ts₁, c₁, run₁, cut₁⟩ := Machine.Run.exists_of_exec connMachine webConn
    (greeting ++ [.arrive [7, 8], .resume .start .free]) (fun ts c => decide (Cut answeredStream ts c)) webConn_init
    (by decide +kernel)
  obtain ⟨ts₂, c₂, run₂, cut₂⟩ := Machine.Run.exists_of_exec connMachine webConn
    ([.connected, .resume .start .free, .accept 3, .resume .start .free, .arrive [5, 0], .resume .start .free,
      .accept 10, .resume .start .free] ++ (answeredStream.drop 2).flatMap fun b => [.arrive [b], .resume .start .free])
    (fun ts c => decide (Cut answeredStream ts c)) webConn_init (by decide +kernel)
  have cut₁ := of_decide_eq_true cut₁
  have cut₂ := of_decide_eq_true cut₂
  exact ⟨ts₁, ts₂, c₁, c₂, run₁, run₂, cut₁, cut₂, same_outcome_iff run₁ run₂ cut₁ cut₂⟩

/-- The first read returns one byte: the reply is looked for one byte too early and refused. -/
theorem short_method_reply_closes : ∃ ts₁ ts₂ c₁ c₂, connMachine.Run ts₁ c₁ ∧ connMachine.Run ts₂ c₂ ∧
    Cut answeredStream ts₁ c₁ ∧ Cut answeredStream ts₂ c₂ ∧ Relayed ts₁ ∧ ¬ Relayed ts₂ ∧ c₂.status = .close := by
  obtain ⟨ts₁, c₁, run₁, h₁⟩ := Machine.Run.exists_of_exec connMachine webConn
    (greeting ++ [.arrive [7, 8], .resume .start .free])
    (fun ts c => decide (Cut answeredStream ts c ∧ Relayed ts)) webConn_init (by decide +kernel)
  obtain ⟨ts₂, c₂, run₂, h₂⟩ := Machine.Run.exists_of_exec connMachine webConn
    [.connected, .resume .start .free, .accept 3, .resume .start .free, .arrive [5], .resume .start .free, .accept 10,
      .resume .start .free, .arrive [0, 5, 0, 0, 1, 0, 0, 0, 0, 0], .resume .start .free]
    (fun ts c => decide (Cut answeredStream ts c ∧ ¬ Relayed ts ∧ c.status = .close)) webConn_init (by decide +kernel)
  obtain ⟨cut₁, relayed⟩ := of_decide_eq_true h₁
  obtain ⟨cut₂, unrelayed, closed⟩ := of_decide_eq_true h₂
  exact ⟨ts₁, ts₂, c₁, c₂, run₁, run₂, cut₁, cut₂, relayed, unrelayed, closed⟩

end Tunosocks.Tcp
