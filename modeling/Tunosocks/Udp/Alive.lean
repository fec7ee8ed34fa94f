import Tunosocks.Udp.Relay

/-! Which sessions of the table still receive. Entries are only ever inserted, so a session whose loop has returned
keeps its key and gets the later packets of its client. -/
namespace Tunosocks.Udp
open Foundation

/-- The coroutine of `Run` has not returned. -/
def UdpSession.Runs (s : UdpSession) : Prop := s.receiver ≠ .ended

def AllRun (h : UdpHandler) : Prop :=
  ∀ (j : Nat) key s, h.udpSessionMap[j]? = some (key, s) → s.Runs

/-- What a step forwards goes over a session whose loop runs. -/
def ForwardsAlive (t : Transition UdpHandler UdpAct UdpEvent) : Prop :=
  ∀ i src srcPort s, .forwarded i src srcPort ∈ t.out → t.post.session i = some s → s.Runs

/-- A receive loop is resumed after its `async_receive_from` has failed. -/
def LoopFails (t : Transition UdpHandler UdpAct UdpEvent) : Prop :=
  ∃ i s, t.act = .resume i ∧ t.pre.session i = some s ∧ s.receiver = .failed

section Steps
variable {platform : Platform} {server : Endpoint} {h h' : UdpHandler} {a : UdpAct} {out : List UdpEvent}

private theorem session_of_entry {i : Nat} {key : List UInt8} {s : UdpSession}
    (found : h.udpSessionMap[i]? = some (key, s)) : h.session i = some s := by
  rw [UdpHandler.session, found, Option.map_some]

private theorem allRun_step (all : AllRun h) (he : step platform server h a = some (h', out))
    (sound : ¬ LoopFails ⟨h, a, out, h'⟩) : AllRun h' := by
  refine (handlerStep_of_step he).all (P := fun _ s => s.Runs) all (fun c fresh _ ended => by cases ended) ?_
  intro i key s s' region evs found runs hm
  cases hm with
  | receive hr =>
    rw [UdpSession.Runs, receiver_receive]
    simp
  | receiveError hr => simp [UdpSession.Runs]
  | sendError => exact runs
  | relay hr =>
    rw [UdpSession.Runs, receiver_relay]
    simp
  | stop hr => exact absurd ⟨i, s, rfl, session_of_entry found, hr⟩ sound

private theorem forwardsAlive_of_allRun {t : Transition UdpHandler UdpAct UdpEvent} (all : AllRun t.post) :
    ForwardsAlive t := by
  intro i src srcPort s _ hs
  obtain ⟨⟨key, s'⟩, found, rfl⟩ := Option.map_eq_some_iff.mp hs
  exact all i key s' found

/-- The loop that fails returns and its session stays in the table. -/
private theorem not_allRun_of_loopFails (he : step platform server h a = some (h', out))
    (fails : LoopFails ⟨h, a, out, h'⟩) : ¬ AllRun h' := by
  obtain ⟨i, s, rfl, hs, failed⟩ := fails
  have hs : h.session i = some s := hs
  have stopped : step platform server h (.resume i) =
      some (h.setSession i { s with sessionStatus := .closed, receiver := .ended }, []) := by
    simp only [step, hs, Option.bind_eq_bind, Option.bind_some, resume, failed]
  rw [stopped] at he
  cases he
  obtain ⟨⟨key, s'⟩, found, rfl⟩ := Option.map_eq_some_iff.mp hs
  intro all
  have ended := all i key { s' with sessionStatus := .closed, receiver := .ended }
    (by rw [getElem?_setSession, if_pos rfl, found, Option.map_some])
  exact ended rfl

end Steps

/-- Every session of the table has a running loop, and packets are only forwarded over such sessions, exactly in the
runs in which no loop takes up a failed receive. -/
theorem sessions_run_iff {platform : Platform} {server : Endpoint} {h : UdpHandler}
    {ts : List (Transition UdpHandler UdpAct UdpEvent)} (run : (relayMachine platform server).Run ts h) :
    (∀ t ∈ ts, AllRun t.post ∧ ForwardsAlive t) ↔ ∀ t ∈ ts, ¬ LoopFails t := by
  have initial : ∀ h, (relayMachine platform server).Init h → AllRun h := by
    rintro h rfl j key s found
    cases found
  constructor
  · intro good t ht fails
    obtain ⟨_, _, _, _, he⟩ := run.split ht
    exact not_allRun_of_loopFails he fails (good t ht).1
  · intro sound t ht
    obtain ⟨before, he⟩ := run.guarded_pre (fun t => ¬ LoopFails t) AllRun initial
      (fun h a h' out all he sound => allRun_step all he sound) sound ht
    have after := allRun_step before he (sound t ht)
    exact ⟨after, forwardsAlive_of_allRun after⟩

theorem sessions_run_iff_reply : ∃ ts h, (relayMachine .win32 proxyServer).Run ts h ∧ ts.length = 3 ∧
    ((∀ t ∈ ts, AllRun t.post ∧ ForwardsAlive t) ↔ ∀ t ∈ ts, ¬ LoopFails t) := by
  have run : (relayMachine .win32 proxyServer).Run _ _ := .next (a := .sendError 0)
    (.next (a := .receive 0 proxyServer [1]) (.next (a := .input queryPacket zeroBuff) (.init rfl) rfl) rfl) rfl
  exact ⟨_, _, run, rfl, sessions_run_iff run⟩

/-- After one failed receive the client's next packet is forwarded over a session nobody receives for. -/
theorem silenced_port : ∃ ts h, (relayMachine .win32 proxyServer).Run ts h ∧ ∃ t ∈ ts, ¬ ForwardsAlive t := by
  refine ⟨_, _, .next (a := .input queryPacket zeroBuff) (.next (a := .resume 0) (.next (a := .receiveError 0)
    (.next (a := .input queryPacket zeroBuff) (.init rfl) rfl) rfl) rfl) rfl, _,
    List.mem_append_right _ (List.mem_singleton.mpr rfl), ?_⟩
  intro alive
  exact alive 0 queryPacket.src queryPacket.srcPort _ (by decide +kernel) rfl rfl

end Tunosocks.Udp
