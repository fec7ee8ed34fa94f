import Tunosocks.Udp.Relay
import Tunosocks.Udp.ReplyPacket

/-! What the device takes for an injection: the packet as it was built, where a session
receives again only after the device has taken what it injected before. -/
namespace Tunosocks.Udp
open Foundation Foundation.Buffer Socks5

/-- A datagram is received in a step only by a session with no injection pending. -/
def BufferFree (t : Transition UdpHandler UdpAct UdpEvent) : Prop :=
  ∀ i sender d, t.act = .receive i sender d → ∀ p ∈ t.pre.pending, p.session ≠ i

/-- The last thing session `i` did in a run is to receive `d`, in the state `s`. -/
def LastReceived (ts : List (Transition UdpHandler UdpAct UdpEvent)) (i : Nat) (s : UdpSession) (d : List UInt8) :
    Prop :=
  ∃ earlier r later, ts = earlier ++ r :: later ∧ r.pre.session i = some s ∧ (∃ sender, r.act = .receive i sender d) ∧
    ∀ t ∈ later, t.act ≠ .resume i ∧ ∀ sender d', t.act ≠ .receive i sender d'

/-- Injection `k` is the packet that `readFromRemote` builds from the datagram its session received last before it, with
the header saved for that session. -/
def BuiltFrom (platform : Platform) (ts : List (Transition UdpHandler UdpAct UdpEvent)) (k i : Nat)
    (pkt : List UInt8) : Prop :=
  ∃ before t after s d, ts = before ++ t :: after ∧ t.act = .resume i ∧ .injected k i pkt ∈ t.out ∧
    LastReceived before i s d ∧ (t.pre.session i).map UdpSession.ipUdpHeader = some s.ipUdpHeader ∧
    injectedBytes (readFromRemote platform (receiveFrom s.remoteRecvBuff.1 s.ipUdpHeader d).1 s.ipUdpHeader
      (receiveFrom s.remoteRecvBuff.1 s.ipUdpHeader d).2) = some pkt

/-- A datagram waits in the buffer of its session, and no injection is pending there. -/
def WaitsUndisturbed (ts : List (Transition UdpHandler UdpAct UdpEvent)) (h : UdpHandler) (j : Nat) (s : UdpSession)
    (n : Nat) : Prop :=
  (∀ p ∈ h.pending, p.session ≠ j) ∧ ∃ s₀ d, LastReceived ts j s₀ d ∧ s.ipUdpHeader = s₀.ipUdpHeader ∧
    s.remoteRecvBuff.1 = (receiveFrom s₀.remoteRecvBuff.1 s₀.ipUdpHeader d).1 ∧
    n = (receiveFrom s₀.remoteRecvBuff.1 s₀.ipUdpHeader d).2

/-- Pending injections still find their packets in the buffers. -/
structure Stable (platform : Platform) (ts : List (Transition UdpHandler UdpAct UdpEvent)) (h : UdpHandler) :
    Prop where
  counted : ∀ k i pkt, .injected k i pkt ∈ Machine.trace ts → k < h.injections
  unique : ∀ k i pkt i' pkt', .injected k i pkt ∈ Machine.trace ts → .injected k i' pkt' ∈ Machine.trace ts →
    i = i' ∧ pkt = pkt'
  built : ∀ k i pkt, .injected k i pkt ∈ Machine.trace ts → BuiltFrom platform ts k i pkt
  waits : ∀ (j : Nat) key s n, h.udpSessionMap[j]? = some (key, s) → s.receiver = .received n →
    WaitsUndisturbed ts h j s n
  intact : ∀ p ∈ h.pending, ∃ key s, h.udpSessionMap[p.session]? = some (key, s) ∧
    .injected p.index p.session (slice s.remoteRecvBuff.1 p.off p.len) ∈ Machine.trace ts
  taken : ∀ k pkt, .taken k pkt ∈ Machine.trace ts → ∃ i, .injected k i pkt ∈ Machine.trace ts

section Step
variable {platform : Platform} {server : Endpoint} {h h' : UdpHandler} {a : UdpAct} {out : List UdpEvent}
  {ts : List (Transition UdpHandler UdpAct UdpEvent)} {t : Transition UdpHandler UdpAct UdpEvent}

private theorem BuiltFrom.mono {k i : Nat} {pkt : List UInt8} (built : BuiltFrom platform ts k i pkt) :
    BuiltFrom platform (ts ++ [t]) k i pkt := by
  obtain ⟨before, u, after, s, d, rfl, rest⟩ := built
  exact ⟨before, u, after ++ [t], s, d, List.append_assoc .., rest⟩

private theorem LastReceived.mono {i : Nat} {s : UdpSession} {d : List UInt8} (last : LastReceived ts i s d)
    (other : t.act ≠ .resume i ∧ ∀ sender d', t.act ≠ .receive i sender d') : LastReceived (ts ++ [t]) i s d := by
  obtain ⟨earlier, r, later, rfl, found, received, quiet⟩ := last
  refine ⟨earlier, r, later ++ [t], List.append_assoc .., found, received, ?_⟩
  exact List.forall_mem_append.mpr ⟨quiet, List.forall_mem_singleton.mpr other⟩

private theorem injections_le (hstep : HandlerStep platform server h a h' out) : h.injections ≤ h'.injections := by
  cases hstep with
  | created absent hsend => exact Nat.le_refl _
  | known found port hsend => exact Nat.le_refl _
  | @moved _ i key s s' region evs found hm =>
    cases region with
    | none => exact Nat.le_refl _
    | some region => exact Nat.le_succ _
  | taken hp found => exact Nat.le_refl _

private theorem counted_step (hstep : HandlerStep platform server h a h' out) (stable : Stable platform ts h) :
    ∀ k i pkt, .injected k i pkt ∈ Machine.trace ts ++ out → k < h'.injections := by
  intro k i pkt hm
  rcases List.mem_append.mp hm with old | new
  · exact Nat.lt_of_lt_of_le (stable.counted k i pkt old) (injections_le hstep)
  · cases hstep.eventOf new with
    | injected resume found hr hregion counted =>
      rw [counted]
      exact Nat.lt_succ_self _

private theorem unique_step (hstep : HandlerStep platform server h a h' out) (stable : Stable platform ts h) :
    ∀ k i pkt i' pkt', .injected k i pkt ∈ Machine.trace ts ++ out →
      .injected k i' pkt' ∈ Machine.trace ts ++ out → i = i' ∧ pkt = pkt' := by
  have fresh {k i : Nat} {pkt : List UInt8} (new : .injected k i pkt ∈ out) : k = h.injections := by
    cases hstep.eventOf new with
    | injected => rfl
  intro k i pkt i' pkt' hm hm'
  rcases List.mem_append.mp hm with old | new <;> rcases List.mem_append.mp hm' with old' | new'
  · exact stable.unique k i pkt i' pkt' old old'
  · exact absurd (fresh new') (Nat.ne_of_lt (stable.counted k i pkt old))
  · exact absurd (fresh new) (Nat.ne_of_lt (stable.counted k i' pkt' old'))
  · cases hstep.eventOf new with
    | injected resume found hr hregion counted =>
      generalize hk : h.injections = k at new'
      cases hstep.eventOf new' with
      | injected resume' found' hr' hregion' counted' =>
        cases resume.symm.trans resume'
        cases found.symm.trans found'
        cases hr.symm.trans hr'
        cases hregion.symm.trans hregion'
        exact ⟨rfl, rfl⟩

private theorem built_step (hstep : HandlerStep platform server h a h' out) (stable : Stable platform ts h) :
    ∀ k i pkt, .injected k i pkt ∈ Machine.trace ts ++ out → BuiltFrom platform (ts ++ [⟨h, a, out, h'⟩]) k i pkt := by
  intro k i pkt hm
  rcases List.mem_append.mp hm with old | new
  · exact (stable.built k i pkt old).mono
  · have injection := new
    cases hstep.eventOf new with
    | @injected _ n off len key s resume found hr hregion counted =>
      obtain ⟨-, s₀, d, last, header, stored, read⟩ := stable.waits i key s n found hr
      refine ⟨ts, ⟨h, a, out, h'⟩, [], s₀, d, rfl, resume, injection, last, ?_, ?_⟩
      · have known : h.session i = some s := by rw [UdpHandler.session, found, Option.map_some]
        rw [known, Option.map_some, header]
      · rw [← stored, ← read, ← header]
        exact injectedBytes_region s platform _ hregion

private theorem taken_step (hstep : HandlerStep platform server h a h' out) (stable : Stable platform ts h) :
    ∀ k pkt, .taken k pkt ∈ Machine.trace ts ++ out → ∃ i, .injected k i pkt ∈ Machine.trace ts ++ out := by
  intro k pkt hm
  rcases List.mem_append.mp hm with old | new
  · obtain ⟨i, injected⟩ := stable.taken k pkt old
    exact ⟨i, List.mem_append_left _ injected⟩
  · cases hstep.eventOf new with
    | @taken p key s pending found =>
      obtain ⟨key', s', found', injected⟩ := stable.intact p pending
      cases found.symm.trans found'
      exact ⟨p.session, List.mem_append_left _ injected⟩

/-- A step leaves another session's pending injections alone. -/
private theorem inject_pending {i j : Nat} {s : UdpSession} {region : Option (Nat × Nat)} (other : i ≠ j)
    (clear : ∀ p ∈ h.pending, p.session ≠ j) :
    ∀ p ∈ (inject (h.setSession i s) i s region).1.pending, p.session ≠ j := by
  intro p hp
  cases region with
  | none => exact clear p hp
  | some region =>
    rcases List.mem_append.mp hp with old | new
    · exact clear p old
    · obtain rfl := List.mem_singleton.mp new
      exact other

/-- A session's step is no reception and no resumption of another one. -/
private theorem other_act {i j : Nat} {s s' : UdpSession} {region : Option (Nat × Nat)} {evs : List UdpEvent}
    (hm : SessionStep platform i a s s' region evs) (other : i ≠ j) :
    a ≠ .resume j ∧ ∀ sender d, a ≠ .receive j sender d := by
  cases hm <;> simp [other]

private theorem waits_step (hstep : HandlerStep platform server h a h' out) (free : BufferFree ⟨h, a, out, h'⟩)
    (stable : Stable platform ts h) (j : Nat) (key : List UInt8) (s : UdpSession) (n : Nat)
    (found : h'.udpSessionMap[j]? = some (key, s)) (hr : s.receiver = .received n) :
    WaitsUndisturbed (ts ++ [⟨h, a, out, h'⟩]) h' j s n := by
  have kept (found : h.udpSessionMap[j]? = some (key, s)) (other : a ≠ .resume j ∧ ∀ sender d, a ≠ .receive j sender d)
      (clear : (∀ p ∈ h.pending, p.session ≠ j) → ∀ p ∈ h'.pending, p.session ≠ j) :
      WaitsUndisturbed (ts ++ [⟨h, a, out, h'⟩]) h' j s n := by
    obtain ⟨undisturbed, s₀, d, last, stored⟩ := stable.waits j key s n found hr
    exact ⟨clear undisturbed, s₀, d, last.mono other, stored⟩
  cases hstep with
  | created absent hsend =>
    rw [List.getElem?_append] at found
    split at found
    · exact kept found (by simp) id
    · rw [List.getElem?_singleton] at found
      obtain ⟨-, new⟩ := Option.ite_none_right_eq_some.mp found
      cases new
      cases hr
  | known found' port hsend => exact kept found (by simp) id
  | @moved _ i key' s₀ s₁ region evs found' hm =>
    rw [inject_udpSessionMap, getElem?_setSession] at found
    split at found
    · rename_i hij
      subst hij
      rw [found'] at found
      cases found
      cases hm with
      | @receive _ sender d idle =>
        rw [receiver_receive] at hr
        have before : h.session i = some s₀ := by rw [UdpHandler.session, found', Option.map_some]
        refine ⟨free i sender d rfl, s₀, d, ⟨ts, _, [], rfl, before, ⟨sender, rfl⟩, fun t ht => by cases ht⟩,
          ipUdpHeader_receive .., ?_, ?_⟩
        · rw [UdpSession.receive]
        · rw [receiveFrom, List.length_take]
          exact (Receiver.received.inj hr).symm
      | receiveError idle => cases hr
      | sendError =>
        obtain ⟨undisturbed, s₀, d, last, stored⟩ := stable.waits i _ _ n found' hr
        exact ⟨undisturbed, s₀, d, last.mono (by simp), stored⟩
      | relay busy =>
        rw [receiver_relay] at hr
        cases hr
      | stop failed => cases hr
    · rename_i hij
      exact kept found (other_act hm hij) (inject_pending hij)
  | taken hp found' => exact kept found (by simp) fun clear p hp => clear p (List.mem_of_mem_eraseIdx hp)

private theorem intact_step (hstep : HandlerStep platform server h a h' out) (free : BufferFree ⟨h, a, out, h'⟩)
    (stable : Stable platform ts h) : ∀ p ∈ h'.pending, ∃ key s, h'.udpSessionMap[p.session]? = some (key, s) ∧
      .injected p.index p.session (slice s.remoteRecvBuff.1 p.off p.len) ∈ Machine.trace ts ++ out := by
  have kept (p : Injection) (old : p ∈ h.pending) (same : ∀ key s, h.udpSessionMap[p.session]? = some (key, s) →
      ∃ s', h'.udpSessionMap[p.session]? = some (key, s') ∧ s'.remoteRecvBuff = s.remoteRecvBuff) :
      ∃ key s, h'.udpSessionMap[p.session]? = some (key, s) ∧
        .injected p.index p.session (slice s.remoteRecvBuff.1 p.off p.len) ∈ Machine.trace ts ++ out := by
    obtain ⟨key, s, found, injected⟩ := stable.intact p old
    obtain ⟨s', found', buffer⟩ := same key s found
    exact ⟨key, s', found', by rw [buffer]; exact List.mem_append_left _ injected⟩
  intro p hp
  cases hstep with
  | created absent hsend =>
    refine kept p hp fun key s found => ⟨s, ?_, rfl⟩
    exact (List.getElem?_append_left (List.getElem?_eq_some_iff.mp found).1).trans found
  | known found port hsend => exact kept p hp fun key s found => ⟨s, found, rfl⟩
  | @moved _ i key' s₀ s₁ region evs found' hm =>
    by_cases old : p ∈ h.pending
    · refine kept p old fun key s found => ?_
      rw [inject_udpSessionMap, getElem?_setSession]
      by_cases hij : i = p.session
      · rw [if_pos hij, found, Option.map_some]
        rw [← hij, found'] at found
        cases found
        refine ⟨s₁, rfl, ?_⟩
        cases hm with
        | @receive _ sender d idle => exact absurd hij.symm (free i sender d rfl p old)
        | receiveError idle => rfl
        | sendError => rfl
        | relay busy => exact absurd hij.symm ((stable.waits i _ s₀ _ found' busy).1 p old)
        | stop failed => rfl
      · rw [if_neg hij]
        exact ⟨s, found, rfl⟩
    · cases region with
      | none => exact absurd hp old
      | some region =>
        rcases List.mem_append.mp hp with old' | new
        · exact absurd old' old
        · obtain rfl := List.mem_singleton.mp new
          refine ⟨key', s₁, ?_, ?_⟩
          · rw [inject_udpSessionMap, getElem?_setSession, if_pos rfl, found', Option.map_some]
          · exact List.mem_append_right _ (List.mem_append_right _ (List.mem_singleton.mpr rfl))
  | taken hp' found => exact kept p (List.mem_of_mem_eraseIdx hp) fun key s found => ⟨s, found, rfl⟩

private theorem stable_step (he : step platform server h a = some (h', out)) (free : BufferFree ⟨h, a, out, h'⟩)
    (stable : Stable platform ts h) : Stable platform (ts ++ [⟨h, a, out, h'⟩]) h' := by
  have hstep := handlerStep_of_step he
  have traced : Machine.trace (ts ++ [⟨h, a, out, h'⟩]) = Machine.trace ts ++ out := Machine.trace_snoc ..
  exact {
    counted := by rw [traced]; exact counted_step hstep stable
    unique := by rw [traced]; exact unique_step hstep stable
    built := by rw [traced]; exact built_step hstep stable
    waits := waits_step hstep free stable
    intact := by rw [traced]; exact intact_step hstep free stable
    taken := by rw [traced]; exact taken_step hstep stable }

/-- The induction is on the run: what an injection was built from is said by the transitions before it. -/
private theorem stable_of_run (run : (relayMachine platform server).Run ts h) (free : ∀ t ∈ ts, BufferFree t) :
    Stable platform ts h := by
  induction run with
  | init initial =>
    obtain rfl := initial
    exact ⟨fun k i pkt hm => (by cases hm), fun k i pkt i' pkt' hm => (by cases hm), fun k i pkt hm => (by cases hm),
      fun j key s n hj => (by cases hj), fun p hp => (by cases hp), fun k pkt hm => (by cases hm)⟩
  | next run he ih =>
    obtain ⟨before, last⟩ := List.forall_mem_append.mp free
    exact stable_step he (List.forall_mem_singleton.mp last) (ih before)

end Step

/-- Where sessions receive only with no injection pending, the device takes for each
injection the packet that was injected under its number, which is built from the datagram
that the session was resumed for, with its saved header. -/
theorem taken_packets_are_built {platform : Platform} {server : Endpoint} {h : UdpHandler}
    {ts : List (Transition UdpHandler UdpAct UdpEvent)} (run : (relayMachine platform server).Run ts h)
    (free : ∀ t ∈ ts, BufferFree t) {k : Nat} {pkt : List UInt8} (taken : .taken k pkt ∈ Machine.trace ts) :
    ∃ i, .injected k i pkt ∈ Machine.trace ts ∧ BuiltFrom platform ts k i pkt ∧
      ∀ i' pkt', .injected k i' pkt' ∈ Machine.trace ts → i' = i ∧ pkt' = pkt := by
  have stable := stable_of_run run free
  obtain ⟨i, injected⟩ := stable.taken k pkt taken
  refine ⟨i, injected, stable.built k i pkt injected, ?_⟩
  intro i' pkt' injected'
  exact stable.unique k i' pkt' i pkt injected' injected

def answerOne : List UInt8 := [0, 0, 0, 1, 9, 9, 9, 9, 0, 53, 1, 1, 1]
def answerTwo : List UInt8 := [0, 0, 0, 1, 9, 9, 9, 9, 0, 53, 2, 2, 2]

/-- The reply to `queryPacket` built from `answerOne`. -/
def replyOne : List UInt8 :=
  [0x45, 0, 0, 31, 0, 1, 0, 0, 64, 17, 94, 178, 9, 9, 9, 9, 10, 8, 0, 2, 0, 53, 0x0F, 0xA0, 0, 11, 209, 230, 1, 1, 1]

theorem taken_packets_are_built_once : ∃ ts h, (relayMachine .win32 proxyServer).Run ts h ∧
    .taken 0 replyOne ∈ Machine.trace ts ∧ ∃ i, .injected 0 i replyOne ∈ Machine.trace ts ∧
      BuiltFrom .win32 ts 0 i replyOne ∧
      ∀ i' pkt', .injected 0 i' pkt' ∈ Machine.trace ts → i' = i ∧ pkt' = replyOne := by
  obtain ⟨ts, h, run, facts⟩ := Machine.Run.exists_of_exec (relayMachine .win32 proxyServer) ⟨[], [], 0⟩
    [.input queryPacket zeroBuff, .receive 0 proxyServer answerOne, .resume 0, .take 0]
    (fun ts _ => (Machine.trace ts).contains (.taken 0 replyOne) && ts.all fun t => t.pre.pending.isEmpty ||
      match t.act with
      | .receive .. => false
      | _ => true) rfl (by decide +kernel)
  simp only [Bool.and_eq_true, List.contains_iff_mem, List.all_eq_true] at facts
  refine ⟨ts, h, run, facts.1, taken_packets_are_built run ?_ facts.1⟩
  intro t ht i sender d receive p hp
  have quiet := facts.2 t ht
  rw [receive] at quiet
  simp only [Bool.or_false, List.isEmpty_iff] at quiet
  rw [quiet] at hp
  cases hp

/-- The headers of `replyOne` with `answerTwo` received over their end. -/
def mixedPacket : List UInt8 :=
  [0x45, 0, 0, 31, 0, 1, 0, 0, 64, 17, 94, 178, 9, 9, 9, 9, 10, 8, 0, 0, 0, 1, 9, 9, 9, 9, 0, 53, 2, 2, 2]

/-- A second answer, received before the device has taken the first reply, is what the
device takes behind the first reply's header. -/
theorem second_answer_overwrites : ∃ ts h, (relayMachine .win32 proxyServer).Run ts h ∧
    .injected 0 0 replyOne ∈ Machine.trace ts ∧ .taken 0 mixedPacket ∈ Machine.trace ts ∧ mixedPacket ≠ replyOne := by
  obtain ⟨ts, h, run, facts⟩ := Machine.Run.exists_of_exec (relayMachine .win32 proxyServer) ⟨[], [], 0⟩
    [.input queryPacket zeroBuff, .receive 0 proxyServer answerOne, .resume 0,
      .receive 0 proxyServer answerTwo, .take 0]
    (fun ts _ => (Machine.trace ts).contains (.injected 0 0 replyOne) &&
      (Machine.trace ts).contains (.taken 0 mixedPacket)) rfl (by decide +kernel)
  simp only [Bool.and_eq_true, List.contains_iff_mem] at facts
  exact ⟨ts, h, run, facts.1, facts.2, by decide⟩

end Tunosocks.Udp
