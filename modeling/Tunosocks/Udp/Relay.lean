import Tunosocks.Udp.Handler

/-! What one step of the UDP handler can do, and where its sessions send to. -/
namespace Tunosocks.Udp
open Foundation Foundation.Buffer Socks5

/-- What an action does to the session it is about, with the region it injects. -/
inductive SessionStep (platform : Platform) (i : Nat) :
    UdpAct → UdpSession → UdpSession → Option (Nat × Nat) → List UdpEvent → Prop where
  | receive {s : UdpSession} {sender : Endpoint} {datagram : List UInt8} (hr : s.receiver = .receiving) :
      SessionStep platform i (.receive i sender datagram) s (s.receive sender datagram) none
        [.receivedFrom i sender datagram]
  | receiveError {s : UdpSession} (hr : s.receiver = .receiving) :
      SessionStep platform i (.receiveError i) s { s with receiver := .failed } none []
  | sendError {s : UdpSession} :
      SessionStep platform i (.sendError i) s { s with sessionStatus := .closed } none []
  | relay {s : UdpSession} {n : Nat} (hr : s.receiver = .received n) :
      SessionStep platform i (.resume i) s (s.relay platform n) (s.region platform n) []
  | stop {s : UdpSession} (hr : s.receiver = .failed) :
      SessionStep platform i (.resume i) s { s with sessionStatus := .closed, receiver := .ended } none []

/-- What a step does to the handler. -/
inductive HandlerStep (platform : Platform) (server : Endpoint) (h : UdpHandler) :
    UdpAct → UdpHandler → List UdpEvent → Prop where
  | created {c : ClientPacket} {fresh : RecvBuff} {sends : List UdpEvent} (absent : h.find c.udpHeader = none)
      (hsend : ∀ e ∈ sends, e = .aborted ∨ ∃ d, e = .sentTo h.udpSessionMap.length server d) :
      HandlerStep platform server h (.input c fresh)
        { h with udpSessionMap := h.udpSessionMap ++ [(c.udpHeader, newSession server fresh c.header)] }
        (.forwarded h.udpSessionMap.length c.src c.srcPort :: sends)
  | known {c : ClientPacket} {fresh : RecvBuff} {sends : List UdpEvent} {i : Nat} {entry : List UInt8 × UdpSession}
      (found : h.udpSessionMap[i]? = some entry) (port : udpHeaderEqual entry.1 c.udpHeader = true)
      (hsend : ∀ e ∈ sends, e = .aborted ∨ ∃ d, e = .sentTo i entry.2.recvEp d) :
      HandlerStep platform server h (.input c fresh) h (.forwarded i c.src c.srcPort :: sends)
  | moved {a : UdpAct} {i : Nat} {key : List UInt8} {s s' : UdpSession} {region : Option (Nat × Nat)}
      {out : List UdpEvent} (found : h.udpSessionMap[i]? = some (key, s))
      (hm : SessionStep platform i a s s' region out) :
      HandlerStep platform server h a (inject (h.setSession i s') i s' region).1
        (out ++ (inject (h.setSession i s') i s' region).2)
  | taken {k : Nat} {p : Injection} {key : List UInt8} {s : UdpSession} (hp : h.pending[k]? = some p)
      (found : h.udpSessionMap[p.session]? = some (key, s)) :
      HandlerStep platform server h (.take k) { h with pending := h.pending.eraseIdx k }
        [.taken p.index (slice s.remoteRecvBuff.1 p.off p.len)]

section Inversion
variable {platform : Platform} {server : Endpoint} {h h' : UdpHandler} {a : UdpAct} {out : List UdpEvent}

private theorem mem_sendPacketToRemote {i : Nat} {s : UdpSession} {mem : List UInt8} {data size : Nat} {e : UdpEvent}
    (he : e ∈ sendPacketToRemote i s mem data size) : e = .aborted ∨ ∃ d, e = .sentTo i s.recvEp d := by
  unfold sendPacketToRemote at he
  split at he
  · exact Or.inr ⟨_, List.mem_singleton.mp he⟩
  · exact Or.inl (List.mem_singleton.mp he)

private theorem entry_of_session {i : Nat} {s : UdpSession} (hs : h.session i = some s) :
    ∃ key, h.udpSessionMap[i]? = some (key, s) := by
  obtain ⟨⟨key, s'⟩, he, rfl⟩ := Option.map_eq_some_iff.mp hs
  exact ⟨key, he⟩

private theorem handlerStep_input {c : ClientPacket} {fresh : RecvBuff} :
    HandlerStep platform server h (.input c fresh) (handle server fresh h c.mem c.ipHeader).1
      (handle server fresh h c.mem c.ipHeader).2 := by
  cases found : h.find c.udpHeader with
  | none =>
    rw [handle_new found]
    exact .created found fun e he => mem_sendPacketToRemote he
  | some i =>
    obtain ⟨entry, he, port⟩ := find_session found
    rw [handle_known found (by rw [UdpHandler.session, he, Option.map_some])]
    exact .known he port fun e he => mem_sendPacketToRemote he

private theorem handlerStep_resume {i : Nat} {s : UdpSession} (hs : h.session i = some s)
    (hr : resume platform h i s = some (h', out)) : HandlerStep platform server h (.resume i) h' out := by
  obtain ⟨key, found⟩ := entry_of_session hs
  unfold resume at hr
  cases phase : s.receiver with
  | received n =>
    simp only [phase, Option.some.injEq] at hr
    have moved : HandlerStep platform server h (.resume i) _ _ := .moved found (.relay phase)
    rw [hr] at moved
    exact moved
  | failed =>
    simp only [phase, Option.some.injEq, Prod.mk.injEq] at hr
    obtain ⟨rfl, rfl⟩ := hr
    exact .moved found (.stop phase)
  | receiving => simp [phase] at hr
  | ended => simp [phase] at hr

/-- Every accepted step is one of these. -/
theorem handlerStep_of_step (he : step platform server h a = some (h', out)) :
    HandlerStep platform server h a h' out := by
  cases a with
  | input c fresh =>
    simp only [step, Option.some.injEq] at he
    have input : HandlerStep platform server h (.input c fresh) _ _ := handlerStep_input
    rw [he] at input
    exact input
  | receive i sender datagram =>
    obtain ⟨s, hs, he⟩ := Option.bind_eq_some_iff.mp he
    obtain ⟨key, found⟩ := entry_of_session hs
    obtain ⟨hr, he⟩ := Option.ite_none_right_eq_some.mp he
    cases he
    exact .moved found (.receive hr)
  | receiveError i =>
    obtain ⟨s, hs, he⟩ := Option.bind_eq_some_iff.mp he
    obtain ⟨key, found⟩ := entry_of_session hs
    obtain ⟨hr, he⟩ := Option.ite_none_right_eq_some.mp he
    cases he
    exact .moved found (.receiveError hr)
  | sendError i =>
    obtain ⟨s, hs, he⟩ := Option.bind_eq_some_iff.mp he
    obtain ⟨key, found⟩ := entry_of_session hs
    cases he
    exact .moved found .sendError
  | resume i =>
    obtain ⟨s, hs, hr⟩ := Option.bind_eq_some_iff.mp he
    exact handlerStep_resume hs hr
  | take k =>
    obtain ⟨p, hp, he⟩ := Option.bind_eq_some_iff.mp he
    obtain ⟨s, hs, he⟩ := Option.bind_eq_some_iff.mp he
    obtain ⟨key, found⟩ := entry_of_session hs
    cases he
    exact .taken hp found

end Inversion

section Rules
variable {platform : Platform} {server : Endpoint} {h h' : UdpHandler} {a : UdpAct} {out : List UdpEvent}

@[simp] theorem inject_udpSessionMap (h : UdpHandler) (i : Nat) (s : UdpSession) (region : Option (Nat × Nat)) :
    (inject h i s region).1.udpSessionMap = h.udpSessionMap := by
  cases region <;> rfl

theorem getElem?_setSession (h : UdpHandler) (i j : Nat) (s : UdpSession) :
    (h.setSession i s).udpSessionMap[j]? =
      if i = j then h.udpSessionMap[j]?.map (fun entry => (entry.1, s)) else h.udpSessionMap[j]? := by
  rw [UdpHandler.setSession, List.getElem?_modify]
  split <;> simp

/-- Invariants of single sessions: new sessions have them and session steps keep them. -/
theorem HandlerStep.all {P : List UInt8 → UdpSession → Prop} (hstep : HandlerStep platform server h a h' out)
    (before : ∀ (j : Nat) key s, h.udpSessionMap[j]? = some (key, s) → P key s)
    (created : ∀ c fresh, a = .input c fresh → P c.udpHeader (newSession server fresh c.header))
    (moved : ∀ (i : Nat) key s s' region evs, h.udpSessionMap[i]? = some (key, s) → P key s →
      SessionStep platform i a s s' region evs → P key s') :
    ∀ (j : Nat) key s, h'.udpSessionMap[j]? = some (key, s) → P key s := by
  intro j key s hj
  cases hstep with
  | @created c fresh _ absent hsend =>
    rw [List.getElem?_append] at hj
    split at hj
    · exact before j key s hj
    · rw [List.getElem?_singleton] at hj
      obtain ⟨-, hj⟩ := Option.ite_none_right_eq_some.mp hj
      obtain ⟨rfl, rfl⟩ := Prod.mk.inj (Option.some.inj hj)
      exact created c fresh rfl
  | known found port hsend => exact before j key s hj
  | @moved _ i key' s₀ s₁ region _ found hm =>
    rw [inject_udpSessionMap, getElem?_setSession] at hj
    split at hj
    · rename_i hij
      rw [← hij, found] at hj
      obtain ⟨rfl, rfl⟩ := Prod.mk.inj (Option.some.inj hj)
      exact moved i _ _ _ _ _ found (before i _ _ found) hm
    · exact before j key s hj
  | taken hp found => exact before j key s hj

/-- A session stays where it is, under its key and with the header it saved. -/
theorem HandlerStep.keeps {j : Nat} {key : List UInt8} {s : UdpSession}
    (hstep : HandlerStep platform server h a h' out) (found : h.udpSessionMap[j]? = some (key, s)) :
    ∃ s', h'.udpSessionMap[j]? = some (key, s') ∧ s'.ipUdpHeader = s.ipUdpHeader := by
  cases hstep with
  | created absent hsend =>
    exact ⟨s, (List.getElem?_append_left (List.getElem?_eq_some_iff.mp found).1).trans found, rfl⟩
  | known found' port hsend => exact ⟨s, found, rfl⟩
  | @moved _ i key' s₀ s₁ region _ found' hm =>
    rw [inject_udpSessionMap, getElem?_setSession]
    split
    · rename_i hij
      rw [← hij, found'] at found
      obtain ⟨rfl, rfl⟩ := Prod.mk.inj (Option.some.inj found)
      refine ⟨s₁, by rw [← hij, found', Option.map_some], ?_⟩
      cases hm with
      | receive hr => rw [ipUdpHeader_receive]
      | receiveError hr => rfl
      | sendError => rfl
      | relay hr => rw [ipUdpHeader_relay]
      | stop hr => rfl
    · exact ⟨s, found, rfl⟩
  | taken hp found' => exact ⟨s, found, rfl⟩

/-- What is observed in a step, with what it says about the states around it. -/
inductive EventOf (platform : Platform) (server : Endpoint) (h : UdpHandler) (a : UdpAct) (h' : UdpHandler) :
    UdpEvent → Prop where
  | forwardedNew {c : ClientPacket} {fresh : RecvBuff} {i : Nat} (input : a = .input c fresh)
      (created : h'.udpSessionMap[i]? = some (c.udpHeader, newSession server fresh c.header)) :
      EventOf platform server h a h' (.forwarded i c.src c.srcPort)
  | forwardedKnown {c : ClientPacket} {fresh : RecvBuff} {i : Nat} {entry : List UInt8 × UdpSession}
      (input : a = .input c fresh) (found : h.udpSessionMap[i]? = some entry)
      (port : udpHeaderEqual entry.1 c.udpHeader = true) :
      EventOf platform server h a h' (.forwarded i c.src c.srcPort)
  | sentNew {i : Nat} {d : List UInt8} : EventOf platform server h a h' (.sentTo i server d)
  | sentKnown {i : Nat} {entry : List UInt8 × UdpSession} {d : List UInt8} (found : h.udpSessionMap[i]? = some entry) :
      EventOf platform server h a h' (.sentTo i entry.2.recvEp d)
  | aborted : EventOf platform server h a h' .aborted
  | received {i : Nat} {sender : Endpoint} {d : List UInt8} (receive : a = .receive i sender d) :
      EventOf platform server h a h' (.receivedFrom i sender d)
  | injected {i n off len : Nat} {key : List UInt8} {s : UdpSession} (resume : a = .resume i)
      (found : h.udpSessionMap[i]? = some (key, s)) (hr : s.receiver = .received n)
      (hregion : s.region platform n = some (off, len)) (counted : h'.injections = h.injections + 1) :
      EventOf platform server h a h'
        (.injected h.injections i (slice (s.relay platform n).remoteRecvBuff.1 off len))
  | taken {p : Injection} {key : List UInt8} {s : UdpSession} (pending : p ∈ h.pending)
      (found : h.udpSessionMap[p.session]? = some (key, s)) :
      EventOf platform server h a h' (.taken p.index (slice s.remoteRecvBuff.1 p.off p.len))

theorem HandlerStep.eventOf {e : UdpEvent} (hstep : HandlerStep platform server h a h' out) (he : e ∈ out) :
    EventOf platform server h a h' e := by
  cases hstep with
  | @created c fresh _ absent hsend =>
    rcases List.mem_cons.mp he with rfl | sent
    · refine .forwardedNew rfl ?_
      rw [List.getElem?_append_right (Nat.le_refl _), Nat.sub_self]
      rfl
    · rcases hsend _ sent with rfl | ⟨d, rfl⟩
      · exact .aborted
      · exact .sentNew
  | known found port hsend =>
    rcases List.mem_cons.mp he with rfl | sent
    · exact .forwardedKnown rfl found port
    · rcases hsend _ sent with rfl | ⟨d, rfl⟩
      · exact .aborted
      · exact .sentKnown found
  | @moved _ i key s s' region evs found hm =>
    cases hm with
    | receive hr =>
      obtain rfl := List.mem_singleton.mp he
      exact .received rfl
    | receiveError hr => cases he
    | sendError => cases he
    | @relay _ n hr =>
      rw [List.nil_append] at he
      cases hregion : s.region platform n with
      | none =>
        rw [hregion] at he
        cases he
      | some region =>
        rw [hregion] at he
        obtain rfl := List.mem_singleton.mp he
        exact .injected rfl found hr hregion rfl
    | stop hr => cases he
  | taken hp found =>
    obtain rfl := List.mem_singleton.mp he
    exact .taken (List.mem_of_getElem? hp) found

end Rules

/-- Every datagram sent in a step goes to the configured server. -/
def GoesToServer (server : Endpoint) (t : Transition UdpHandler UdpAct UdpEvent) : Prop :=
  ∀ i dest d, .sentTo i dest d ∈ t.out → dest = server

/-- A step leaves the destination of every session as it was. -/
def KeepsDestination (t : Transition UdpHandler UdpAct UdpEvent) : Prop :=
  ∀ i s s', t.pre.session i = some s → t.post.session i = some s' → s'.recvEp = s.recvEp

/-- A datagram received in a step comes from the configured server. -/
def FromServer (server : Endpoint) (t : Transition UdpHandler UdpAct UdpEvent) : Prop :=
  ∀ i sender d, t.act = .receive i sender d → sender = server

def AllToServer (server : Endpoint) (h : UdpHandler) : Prop :=
  ∀ (j : Nat) key s, h.udpSessionMap[j]? = some (key, s) → s.recvEp = server

section Destination
variable {platform : Platform} {server : Endpoint} {h h' : UdpHandler} {a : UdpAct} {out : List UdpEvent}

private theorem allToServer_session {i : Nat} {s : UdpSession} (all : AllToServer server h)
    (hs : h.session i = some s) : s.recvEp = server := by
  obtain ⟨key, found⟩ := entry_of_session hs
  exact all i key s found

private theorem allToServer_step (all : AllToServer server h) (he : step platform server h a = some (h', out))
    (trusted : FromServer server ⟨h, a, out, h'⟩) : AllToServer server h' := by
  refine (handlerStep_of_step he).all (P := fun _ s => s.recvEp = server) all (fun _ _ _ => rfl) ?_
  intro i key s s' region evs found same hm
  cases hm with
  | @receive _ sender datagram hr =>
    rw [recvEp_receive]
    exact trusted i sender datagram rfl
  | receiveError hr => exact same
  | sendError => exact same
  | relay hr =>
    rw [recvEp_relay]
    exact same
  | stop hr => exact same

private theorem goesToServer_step (all : AllToServer server h) (he : step platform server h a = some (h', out)) :
    GoesToServer server ⟨h, a, out, h'⟩ := by
  intro i dest d sent
  cases (handlerStep_of_step he).eventOf sent with
  | sentNew => rfl
  | sentKnown found => exact all i _ _ found

/-- Where nothing moves a destination away from the server, senders are the server. -/
private theorem fromServer_step (all : AllToServer server h) (he : step platform server h a = some (h', out))
    (keeps : KeepsDestination ⟨h, a, out, h'⟩) : FromServer server ⟨h, a, out, h'⟩ := by
  rintro i sender d rfl
  obtain ⟨s, hs, he⟩ := Option.bind_eq_some_iff.mp he
  obtain ⟨hr, he⟩ := Option.ite_none_right_eq_some.mp he
  cases he
  have after : (h.setSession i (s.receive sender d)).session i = some (s.receive sender d) := by
    obtain ⟨key, found⟩ := entry_of_session hs
    rw [UdpHandler.session, getElem?_setSession, if_pos rfl, found]
    rfl
  have unmoved := keeps i s _ hs after
  rw [recvEp_receive] at unmoved
  exact unmoved.trans (allToServer_session all hs)

end Destination

/-- All datagrams go to the server and no received one changes where later ones go,
exactly in the runs in which nobody but the server sends to a session. -/
theorem sends_to_server_iff {platform : Platform} {server : Endpoint} {h : UdpHandler}
    {ts : List (Transition UdpHandler UdpAct UdpEvent)} (run : (relayMachine platform server).Run ts h) :
    (∀ t ∈ ts, GoesToServer server t ∧ KeepsDestination t) ↔ ∀ t ∈ ts, FromServer server t := by
  have initial : ∀ h, (relayMachine platform server).Init h → AllToServer server h := by
    rintro h rfl j key s hj
    cases hj
  constructor
  · intro keeps t ht
    obtain ⟨all, he⟩ := run.guarded_pre (fun t => KeepsDestination t) (AllToServer server) initial
      (fun h a h' out all he keeps => allToServer_step all he (fromServer_step all he keeps))
      (fun t ht => (keeps t ht).2) ht
    exact fromServer_step all he (keeps t ht).2
  · intro trusted t ht
    obtain ⟨all, he⟩ := run.guarded_pre (FromServer server) (AllToServer server) initial
      (fun h a h' out all he trusted => allToServer_step all he trusted) trusted ht
    have after := allToServer_step all he (trusted t ht)
    refine ⟨goesToServer_step all he, ?_⟩
    intro i s s' hs hs'
    exact (allToServer_session after hs').trans (allToServer_session all hs).symm

def proxyServer : Endpoint := ⟨0x7F000001, 1080⟩
def stranger : Endpoint := ⟨0xCB007105, 7⟩
def zeroBuff : RecvBuff := ⟨List.replicate 1500 0, List.length_replicate⟩

theorem sends_to_server_iff_reply : ∃ ts h, (relayMachine .win32 proxyServer).Run ts h ∧ ts.length = 2 ∧
    ((∀ t ∈ ts, GoesToServer proxyServer t ∧ KeepsDestination t) ↔ ∀ t ∈ ts, FromServer proxyServer t) := by
  have run : (relayMachine .win32 proxyServer).Run _ _ := .next (a := .receive 0 proxyServer [1])
    (.next (a := .input queryPacket zeroBuff) (.init rfl) rfl) rfl
  exact ⟨_, _, run, rfl, sends_to_server_iff run⟩

/-- After one datagram from a stranger the client's next packet goes to the stranger. -/
theorem stranger_redirects : ∃ ts h, (relayMachine .win32 proxyServer).Run ts h ∧
    ∃ t ∈ ts, ¬ GoesToServer proxyServer t := by
  refine ⟨_, _, .next (a := .input queryPacket zeroBuff) (.next (a := .receive 0 stranger [1])
    (.next (a := .input queryPacket zeroBuff) (.init rfl) rfl) rfl) rfl, _,
    List.mem_append_right _ (List.mem_singleton.mpr rfl), ?_⟩
  intro good
  have redirected := good 0 stranger queryPacket.relayDatagram (by decide +kernel)
  exact absurd redirected (by decide)

end Tunosocks.Udp
