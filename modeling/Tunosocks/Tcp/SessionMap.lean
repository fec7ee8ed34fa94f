import Mathlib.Data.List.AList
import Tunosocks.Tcp.Mapped

/-! `TcpHandler` with all its connections: the session map, keyed by the 4-tuple as `TCP_PCB_EQUAL` compares
it, and lwIP's blocks, of which at most one with a 4-tuple is active. What a callback reads through `callback_arg`
is taken to be there, so sessions are not destroyed here. -/
namespace Tunosocks.Tcp
open Foundation

/-- What `TCP_PCB_HASHER` and `TCP_PCB_EQUAL` look at. -/
structure FourTuple where
  localIp : List UInt8
  remoteIp : List UInt8
  localPort : Nat
  remotePort : Nat
  deriving DecidableEq, Repr

/-- The block is in `tcp_active_pcbs`. -/
def Pcb.active (pcb : Pcb) : Bool := !pcb.freed && pcb.state != .timeWait

/-- All connections accepted so far and the session map, which points to them. -/
structure Net where
  conns : List (FourTuple × Conn)
  sessionMap : AList fun _ : FourTuple => Nat
  halted : Bool

inductive NetAct where
  | accept (key : FourTuple) (buff : RecvBuff) (opened : Bool)
  | conn (i : Nat) (a : TcpAct)

inductive NetEvent where
  | accepted
  /-- An accept finds a session: it is closed and the new connection is refused. -/
  | refused
  /-- An accept finds a session and queues a null packet there. -/
  | queuedNull
  /-- A callback finds the session of another connection. -/
  | misdirected
  | conn (i : Nat) (e : TcpEvent)
  deriving DecidableEq

/-- Whether the callbacks for an action look into the session map. -/
def TcpAct.looksUp : TcpAct → Bool
  | .input _ | .reset => true
  | _ => false

namespace Net

def find (n : Net) (key : FourTuple) : Option Nat := n.sessionMap.lookup key

/-- lwIP has an active block with a 4-tuple. -/
def busy (n : Net) (key : FourTuple) : Bool := n.conns.any fun e => e.1 == key && e.2.pcb.active

/-- `listener_accept_func`: `Handle` with no packet. -/
def accept (n : Net) (key : FourTuple) (buff : RecvBuff) (opened : Bool) : Net × List NetEvent :=
  match n.find key with
  | none =>
    ({ n with
      conns := n.conns ++ [(key, Conn.listenerAcceptFunc key.localIp key.localPort buff opened)]
      sessionMap := n.sessionMap.insert key n.conns.length }, [.accepted])
  | some j =>
    ({ n with halted := true },
      if n.conns[j]?.any fun e => e.2.status == .close then [.refused] else [.queuedNull])

/-- A connection has acted; `Clear` has erased its entry if it took it out. -/
def update (n : Net) (i : Nat) (key : FourTuple) (r : Outcome) : Net × List NetEvent :=
  ({ conns := n.conns.set i (key, r.1)
     sessionMap := if n.find key = some i ∧ r.1.inMap = false then n.sessionMap.erase key else n.sessionMap
     halted := r.1.halted }, r.2.map (.conn i))

def act (n : Net) (i : Nat) (a : TcpAct) : Option (Net × List NetEvent) :=
  n.conns[i]?.bind fun (key, c) =>
    ({ c with inMap := n.find key == some i }.act a).map fun r =>
      if a.looksUp && (n.find key).any (· != i) then ({ n with halted := true }, [.misdirected]) else n.update i key r

end Net

def netMachine : Machine Net NetAct NetEvent where
  Init n := n = ⟨[], ∅, false⟩
  step n
    | .accept key buff opened =>
      if n.halted || n.busy key || decide (key.localIp.length ≠ 4) || decide (65536 ≤ key.localPort) then none
      else some (n.accept key buff opened)
    | .conn i a => if n.halted then none else n.act i a

/-- Every entry of the map belongs to the one active block with its 4-tuple, which has not been closed, and every
such block has an entry. -/
structure Net.Mirrored (n : Net) : Prop where
  entry : ∀ key i, n.find key = some i → ∃ c, n.conns[i]? = some (key, c) ∧ c.pcb.active = true ∧
    c.pcb.rxClosed = false ∧ ∀ j d, n.conns[j]? = some (key, d) → d.pcb.active = true → j = i
  listed : ∀ (i : Nat) key c, n.conns[i]? = some (key, c) → c.pcb.active = true → c.pcb.rxClosed = false →
    n.find key = some i

/-! ### One connection -/

/-- The block of a connection, while its session exists and nothing has failed. -/
structure Standing (c : Conn) : Prop where
  filed : Filed c
  live : c.halted = false
  alive : c.destroyed = false

/-- The packet of a segment has more than one buffer, which `tcp_recv_func` asserts it has not. -/
def Segment.Chained (seg : Segment) : Prop := ∃ p, seg.data = some p ∧ p.len ≠ p.totLen

namespace Conn

/-- Where `tcp_input` passes data to the session, the map has an entry (`assert(p == nullptr)`); where it passes
the FIN, the block is in CLOSE_WAIT. -/
structure Asserts (c : Conn) (seg : Segment) : Prop where
  found : seg.data ≠ none → (c.beforeData seg).1.pcb.freed = false → (c.beforeData seg).1.halted = false →
    (c.beforeData seg).1.inMap = true
  closeWait : seg.fin = true → (c.beforeFin seg).1.pcb.freed = false → (c.beforeFin seg).1.halted = false →
    (c.beforeFin seg).1.pcb.state = .closeWait

end Conn

section Conn
variable {c : Conn} {seg : Segment} {a : TcpAct} {r : Outcome}

/-- Data keeps `tcp_close` from sending a FIN of its own. -/
private theorem refused_closeWait {d : Conn} {p : Pbuf} (pending : Conn.Pending c seg d) (fin : seg.fin = true)
    (carried : seg.data = some p) (ok : c.pcb.accepts seg = true) (window : c.pcb.rcvWnd ≤ tcpWnd) :
    d.detached.pcb.tcpClose.state = .closeWait := by
  have state := pending.closeWait fin
  have unread : d.pcb.rcvWnd ≠ tcpWnd := by
    have pos := Conn.tcplen_pos carried ok
    have bound : tcpWnd = 65535 := rfl
    rw [pending.window]
    omega
  obtain ⟨_, _, _, _, _, eq⟩ := d.detached_eq
  simp [eq, Pcb.tcpClose, state, unread]

private theorem asserts_inService (service : InService c) (live : c.halted = false) (found : c.inMap = true)
    (window : c.pcb.rcvWnd ≤ tcpWnd) (ok : c.pcb.accepts seg = true) : c.Asserts seg := by
  have pending := Conn.pending_acknowledged seg service live found
  have before : c.beforeData seg = (c.acknowledged seg, []) := Conn.beforeData_inService service
  refine ⟨fun _ _ _ => by rw [before]; exact pending.found, fun fin => ?_⟩
  have closing := pending.closeWait fin
  rw [Conn.beforeFin, before, whileAlive_live pending.allocated pending.live]
  cases carried : seg.data with
  | none => exact fun _ _ => closing
  | some p =>
    by_cases simple : p.len = p.totLen
    · by_cases closed : c.status = .close
      · simp only [andThen, Conn.deliver_refused pending simple closed]
        exact fun _ _ => refused_closeWait pending fin carried ok window
      · simp only [andThen, Conn.deliver_proxied pending simple closed]
        exact fun _ _ => (pending.proxied p).closeWait fin
    · simp only [andThen, Conn.deliver_chained pending simple]
      intro _ halted
      cases halted

private theorem Standing.asserts (standing : Standing c) (ok : c.pcb.accepts seg = true) : c.Asserts seg := by
  cases found : c.inMap with
  | true =>
    exact asserts_inService (standing.filed.mapped found standing.live) standing.live found standing.filed.window ok
  | false =>
    obtain ⟨bare, open_⟩ := Conn.tcplen_lastAck (standing.filed.lastAck standing.live found ok).1 ok
    exact ⟨fun carried => absurd bare carried, fun fin => nomatch open_.symm.trans fin⟩

/-- In a callback no other assertion fails and nothing that is gone is used. -/
private theorem Standing.input_crashes (standing : Standing c) (ok : c.pcb.accepts seg = true)
    (crashed : .crashed ∈ (c.tcpInput seg).2) : seg.Chained := by
  cases found : c.inMap with
  | true =>
    have served := Conn.tcpInput_served (standing.filed.mapped found standing.live) standing.live found
      standing.filed.window ok
    generalize c.tcpInput seg = r at served crashed
    cases served with
    | acknowledged => cases crashed
    | @proxied p =>
      obtain ⟨_, _, _, _, eq⟩ := (c.acknowledged seg).proxyTcpPacket_eq p
      rw [eq] at crashed
      cases List.mem_singleton.mp crashed
    | chained carried chained => exact ⟨_, carried, chained⟩
    | left _ leaves => exact absurd crashed leaves.calm
  | false =>
    have lingers := standing.filed.lingers standing.live found ok
    exact absurd crashed (lingers.calm (Or.inr standing.alive) standing.live).2

private theorem Standing.reset_calm (standing : Standing c) : .crashed ∉ c.tcpReset.2 := by
  cases found : c.inMap with
  | true =>
    rw [Conn.tcpReset_inService (standing.filed.mapped found standing.live) found]
    simp
  | false =>
    exact ((Conn.tcpReset_erased found standing.filed.window).calm (Or.inr standing.alive) standing.live).2

private theorem Happens.destroyed (happens : Happens c a r) (standing : Standing c) : r.1.destroyed = false := by
  have alive := standing.alive
  cases found : c.inMap with
  | true =>
    have service := standing.filed.mapped found standing.live
    cases happens with
    | @input seg ok =>
      have served := Conn.tcpInput_served service standing.live found standing.filed.window ok
      have pending := Conn.pending_acknowledged seg service standing.live found
      generalize c.tcpInput seg = r at served
      cases served with
      | acknowledged | chained => exact pending.alive
      | proxied => exact (pending.proxied _).alive
      | left _ leaves => exact leaves.alive
    | reset =>
      obtain ⟨_, _, _, _, _, eq⟩ := c.detached_eq
      rw [Conn.tcpReset_inService service found, eq]
      exact alive
    | socket move => exact move.aside.alive.trans alive
    | resumed move => exact move.aside.alive.trans alive
  | false =>
    cases happens with
    | input ok => exact (standing.filed.lingers standing.live found ok).alive.trans alive
    | reset => exact (Conn.tcpReset_erased found standing.filed.window).alive.trans alive
    | socket move => exact move.aside.alive.trans alive
    | resumed move => exact move.aside.alive.trans alive

/-- What a callback looks up belongs to an active block. -/
private theorem active_of_looksUp (acted : c.act a = some r) (looks : a.looksUp = true) : c.pcb.active = true := by
  cases a with
  | input seg =>
    obtain ⟨ok, _⟩ := Option.ite_none_right_eq_some.mp acted
    simp only [Pcb.accepts, Bool.and_eq_true] at ok
    exact (Bool.and_eq_true _ _).mpr ok.1.1.1.1
  | reset =>
    obtain ⟨open_, _⟩ := Option.ite_none_left_eq_some.mp acted
    simpa [Pcb.active, not_or] using open_
  | _ => cases looks

/-- No action makes a block active. -/
private theorem active_of_act (acted : c.act a = some r) (active : r.1.pcb.active = true) : c.pcb.active = true := by
  have aside {d : Conn} (same : Aside c d) (active : d.pcb.active = true) : c.pcb.active = true := by
    rwa [Pcb.active, same.allocated, same.state] at active
  cases looks : a.looksUp with
  | true => exact active_of_looksUp acted looks
  | false =>
    cases happens_of_act acted with
    | input | reset => cases looks
    | socket move => exact aside move.aside active
    | resumed move => exact aside move.aside active

end Conn

/-! ### The map and its connections -/

/-- Each connection knows whether the map points to it, the map points to connections only, and of two active
blocks with one 4-tuple both are the same. -/
structure Consistent (n : Net) : Prop where
  standing : ∀ (i : Nat) key c, n.conns[i]? = some (key, c) → Standing c ∧ c.inMap = (n.find key == some i)
  known : ∀ key i, n.find key = some i → ∃ c, n.conns[i]? = some (key, c)
  alone : ∀ (i j : Nat) key c d, n.conns[i]? = some (key, c) → n.conns[j]? = some (key, d) → c.pcb.active = true →
    d.pcb.active = true → i = j

section Net
variable {n n' : Net} {i : Nat} {key : FourTuple} {c : Conn} {out : List NetEvent}

private theorem Consistent.service (consistent : Consistent n) (found : n.find key = some i) :
    ∃ c, n.conns[i]? = some (key, c) ∧ InService c := by
  obtain ⟨c, at_⟩ := consistent.known key i found
  obtain ⟨standing, mapped⟩ := consistent.standing i key c at_
  refine ⟨c, at_, standing.filed.mapped ?_ standing.live⟩
  rw [mapped, found, beq_self_eq_true]

private theorem InService.active (service : InService c) : c.pcb.active = true := by
  simp [Pcb.active, service.allocated, service.state]

theorem Consistent.mirrored (consistent : Consistent n) : n.Mirrored := by
  constructor
  · intro key i found
    obtain ⟨c, at_, service⟩ := consistent.service found
    exact ⟨c, at_, service.active, service.receiving,
      fun j d at' active => consistent.alone j i key d c at' at_ active service.active⟩
  · intro i key c at_ active receiving
    obtain ⟨standing, mapped⟩ := consistent.standing i key c at_
    cases found : c.inMap with
    | true => simpa [found] using mapped.symm
    | false =>
      rcases standing.filed.erased found standing.live with freed | ⟨_, rxClosed, _⟩
      · simp [Pcb.active, freed] at active
      · cases receiving.symm.trans rxClosed

/-- An accept finds no entry. -/
private theorem Consistent.unlisted (consistent : Consistent n) (free : n.busy key = false) : n.find key = none := by
  cases found : n.find key with
  | none => rfl
  | some i =>
    obtain ⟨c, at_, service⟩ := consistent.service found
    have busy : n.busy key = true :=
      List.any_eq_true.mpr ⟨(key, c), List.mem_of_getElem? at_, by simp [service.active]⟩
    cases free.symm.trans busy

/-- A callback finds its own session or none. -/
private theorem Consistent.directed (consistent : Consistent n) (at_ : n.conns[i]? = some (key, c))
    (active : c.pcb.active = true) : (n.find key).any (· != i) = false := by
  cases found : n.find key with
  | none => rfl
  | some j =>
    obtain ⟨d, at', service⟩ := consistent.service found
    have same := consistent.alone i j key c d at_ at' active service.active
    simp [same]

private theorem Consistent.accept (consistent : Consistent n) (free : n.busy key = false) (ip : key.localIp.length = 4)
    (port : key.localPort < 65536) (buff : RecvBuff) (opened : Bool) :
    (n.accept key buff opened).2 = [.accepted] ∧ Consistent (n.accept key buff opened).1 := by
  have unlisted := consistent.unlisted free
  rw [Net.accept, unlisted]
  refine ⟨rfl, ?_⟩
  have old {j : Nat} {k : FourTuple} {d : Conn} (at_ : n.conns[j]? = some (k, d)) : j < n.conns.length :=
    (List.getElem?_eq_some_iff.mp at_).1
  have cases_ {j : Nat} {k : FourTuple} {d : Conn}
      (at_ : (n.conns ++ [(key, Conn.listenerAcceptFunc key.localIp key.localPort buff opened)])[j]? = some (k, d)) :
      n.conns[j]? = some (k, d) ∨
        j = n.conns.length ∧ k = key ∧ d = Conn.listenerAcceptFunc key.localIp key.localPort buff opened := by
    rcases Nat.lt_or_ge j n.conns.length with lt | ge
    · rw [List.getElem?_append_left lt] at at_
      exact Or.inl at_
    · rw [List.getElem?_append_right ge, List.getElem?_singleton] at at_
      split at at_
      · cases at_
        exact Or.inr ⟨by omega, rfl, rfl⟩
      · cases at_
  constructor
  · intro j k d at_
    rcases cases_ at_ with before | ⟨rfl, rfl, rfl⟩
    · obtain ⟨standing, mapped⟩ := consistent.standing j k d before
      refine ⟨standing, mapped.trans ?_⟩
      by_cases same : k = key
      · subst same
        have other : n.conns.length ≠ j := Nat.ne_of_gt (old before)
        simp [Net.find, other, show n.sessionMap.lookup k = none from unlisted]
      · simp [Net.find, AList.lookup_insert_ne same]
    · refine ⟨⟨filed_init ⟨_, _, _, _, ip, port, rfl⟩, rfl, rfl⟩, ?_⟩
      simp [Net.find, Conn.listenerAcceptFunc]
  · intro k j found
    by_cases same : k = key
    · subst same
      have newest : n.conns.length = j := by simpa [Net.find] using found
      exact ⟨_, newest ▸ List.getElem?_concat_length⟩
    · obtain ⟨d, before⟩ := consistent.known k j (by simpa [Net.find, AList.lookup_insert_ne same] using found)
      exact ⟨d, (List.getElem?_append_left (old before)).trans before⟩
  · intro j j' k d d' at_ at' active active'
    have unused {m : Nat} {e : Conn} (before : n.conns[m]? = some (key, e)) (active : e.pcb.active = true) : False := by
      have busy : n.busy key = true := List.any_eq_true.mpr ⟨(key, e), List.mem_of_getElem? before, by simp [active]⟩
      cases free.symm.trans busy
    rcases cases_ at_ with before | ⟨rfl, rfl, rfl⟩
    · rcases cases_ at' with before' | ⟨rfl, rfl, rfl⟩
      · exact consistent.alone j j' k d d' before before' active active'
      · exact (unused before active).elim
    · rcases cases_ at' with before' | ⟨rfl, _, _⟩
      · exact (unused before' active').elim
      · rfl

private theorem find_update (r : Outcome) (k : FourTuple) : (n.update i key r).1.find k =
    if k = key ∧ n.find key = some i ∧ r.1.inMap = false then none else n.find k := by
  by_cases erases : n.find key = some i ∧ r.1.inMap = false
  · by_cases same : k = key
    · subst same
      simp [Net.update, Net.find, show n.sessionMap.lookup k = some i ∧ r.1.inMap = false from erases]
    · simp [Net.update, Net.find, same, show n.sessionMap.lookup key = some i ∧ r.1.inMap = false from erases,
        AList.lookup_erase_ne same]
  · simp [Net.update, Net.find, show ¬ (n.sessionMap.lookup key = some i ∧ r.1.inMap = false) from erases]

private theorem Consistent.update (consistent : Consistent n) (at_ : n.conns[i]? = some (key, c))
    {a : TcpAct} {r : Outcome} (acted : c.act a = some r) (live : r.1.halted = false) :
    Consistent (n.update i key r).1 := by
  obtain ⟨standing, mapped⟩ := consistent.standing i key c at_
  have happens := happens_of_act acted
  have bound := (List.getElem?_eq_some_iff.mp at_).1
  have cases_ {j : Nat} {k : FourTuple} {d : Conn} (at' : (n.conns.set i (key, r.1))[j]? = some (k, d)) :
      j = i ∧ k = key ∧ d = r.1 ∨ j ≠ i ∧ n.conns[j]? = some (k, d) := by
    by_cases same : j = i
    · subst same
      rw [List.getElem?_set_self bound] at at'
      cases at'
      exact Or.inl ⟨rfl, rfl, rfl⟩
    · rw [List.getElem?_set_ne (Ne.symm same)] at at'
      exact Or.inr ⟨same, at'⟩
  constructor
  · intro j k d at'
    rw [find_update]
    rcases cases_ at' with ⟨rfl, rfl, rfl⟩ | ⟨other, before⟩
    · refine ⟨⟨happens.filed standing.filed standing.live, live, happens.destroyed standing⟩, ?_⟩
      by_cases found : n.find k = some j
      · cases kept : r.1.inMap with
        | true => simp [found]
        | false => simp [found]
      · have lost : c.inMap = false := mapped.trans (beq_eq_false_iff_ne.mpr found)
        rw [happens.erased standing.filed standing.live lost]
        simp [found]
    · obtain ⟨standing', mapped'⟩ := consistent.standing j k d before
      refine ⟨standing', mapped'.trans ?_⟩
      split
      · next erased =>
        obtain ⟨rfl, found, _⟩ := erased
        simp [found, Ne.symm other]
      · rfl
  · intro k j found
    rw [find_update] at found
    split at found
    · cases found
    · obtain ⟨d, before⟩ := consistent.known k j found
      by_cases same : j = i
      · subst same
        cases at_.symm.trans before
        exact ⟨r.1, List.getElem?_set_self bound⟩
      · exact ⟨d, (List.getElem?_set_ne (Ne.symm same)).trans before⟩
  · intro j j' k d d' at' at'' active active'
    have was := active_of_act acted
    rcases cases_ at' with ⟨rfl, rfl, rfl⟩ | ⟨_, before⟩
    · rcases cases_ at'' with ⟨rfl, _, _⟩ | ⟨_, before'⟩
      · rfl
      · exact consistent.alone j j' k c d' at_ before' (was active) active'
    · rcases cases_ at'' with ⟨rfl, rfl, rfl⟩ | ⟨_, before'⟩
      · exact consistent.alone j j' k d c before at_ active (was active')
      · exact consistent.alone j j' k d d' before before' active active'

/-- An action of a connection is one of the connection alone. -/
private theorem Consistent.acts (consistent : Consistent n) {a : TcpAct} (h : n.act i a = some (n', out)) :
    ∃ key c r, n.conns[i]? = some (key, c) ∧ c.act a = some r ∧ n' = (n.update i key r).1 ∧
      out = r.2.map (.conn i) := by
  obtain ⟨⟨key, c⟩, at_, h⟩ := Option.bind_eq_some_iff.mp h
  obtain ⟨r, acted, h⟩ := Option.map_eq_some_iff.mp h
  have same : { c with inMap := n.find key == some i } = c := by
    rw [← (consistent.standing i key c at_).2]
  rw [same] at acted
  refine ⟨key, c, r, at_, acted, ?_⟩
  split at h
  · next strays =>
    obtain ⟨looks, foreign⟩ := (Bool.and_eq_true _ _).mp strays
    cases (consistent.directed at_ (active_of_looksUp acted looks)).symm.trans foreign
  · cases h
    exact ⟨rfl, rfl⟩

end Net

/-- What the assertions say of one step: an accept finds no entry, a callback does not find another connection's,
and no assertion fails but that of a packet with one buffer. -/
def Asserted (t : Transition Net NetAct NetEvent) : Prop :=
  match t.act with
  | .accept .. => t.out = [.accepted]
  | .conn i (.input seg) => .misdirected ∉ t.out ∧ (.conn i .crashed ∈ t.out → seg.Chained) ∧
      ∀ key c, t.pre.conns[i]? = some (key, c) → c.Asserts seg
  | .conn i .reset => .misdirected ∉ t.out ∧ .conn i .crashed ∉ t.out
  | .conn _ _ => .misdirected ∉ t.out

private theorem consistent_step {n n' : Net} {a : NetAct} {out : List NetEvent} (consistent : Consistent n)
    (h : netMachine.step n a = some (n', out)) :
    (n'.halted = false → Consistent n') ∧ Asserted ⟨n, a, out, n'⟩ := by
  cases a with
  | accept key buff opened =>
    obtain ⟨free, h⟩ := Option.ite_none_left_eq_some.mp h
    simp only [Bool.or_eq_true, decide_eq_true_eq, not_or, Bool.not_eq_true] at free
    obtain ⟨⟨⟨_, free⟩, ip⟩, port⟩ := free
    obtain ⟨accepted, next⟩ := consistent.accept free (not_not.mp ip) (Nat.lt_of_not_le port) buff opened
    rw [Option.some.injEq] at h
    rw [h] at accepted next
    exact ⟨fun _ => next, accepted⟩
  | conn i a =>
    obtain ⟨_, h⟩ := Option.ite_none_left_eq_some.mp h
    obtain ⟨key, c, r, at_, acted, rfl, rfl⟩ := consistent.acts h
    refine ⟨fun live => consistent.update at_ acted live, ?_⟩
    have standing := (consistent.standing i key c at_).1
    have directed : NetEvent.misdirected ∉ r.2.map (.conn i) := by simp
    have crashes (crashed : NetEvent.conn i .crashed ∈ r.2.map (.conn i)) : .crashed ∈ r.2 := by simpa using crashed
    cases a with
    | input seg =>
      obtain ⟨ok, acted⟩ := Option.ite_none_right_eq_some.mp acted
      obtain rfl := Option.some.inj acted
      refine ⟨directed, fun crashed => standing.input_crashes ok (crashes crashed), fun key' c' at' => ?_⟩
      cases at_.symm.trans at'
      exact standing.asserts ok
    | reset =>
      obtain ⟨_, acted⟩ := Option.ite_none_left_eq_some.mp acted
      obtain rfl := Option.some.inj acted
      exact ⟨directed, fun crashed => standing.reset_calm (crashes crashed)⟩
    | _ => exact directed

private theorem live_of_step {n n' : Net} {a : NetAct} {out : List NetEvent}
    (h : netMachine.step n a = some (n', out)) : n.halted = false := by
  cases a with
  | accept =>
    obtain ⟨free, _⟩ := Option.ite_none_left_eq_some.mp h
    simp only [Bool.or_eq_true, not_or, Bool.not_eq_true] at free
    exact free.1.1.1
  | conn =>
    obtain ⟨live, _⟩ := Option.ite_none_left_eq_some.mp h
    simpa using live

private theorem consistent_run {ts : List (Transition Net NetAct NetEvent)} {n : Net} (run : netMachine.Run ts n) :
    n.halted = false → Consistent n := by
  refine run.invariant (fun n => n.halted = false → Consistent n) ?_ ?_
  · rintro n rfl _
    exact ⟨fun i key c at_ => (nomatch at_), fun key i found => (nomatch found), fun i j key c d at_ => (nomatch at_)⟩
  · intro n a n' out before h
    exact (consistent_step (before (live_of_step h)) h).1

/-- In every run the session map mirrors the connections that are accepted and not closed, until an assertion fails or
a coroutine uses a block that is gone; and no step fails an assertion about the map or about CLOSE_WAIT. -/
theorem session_map_mirrors {ts : List (Transition Net NetAct NetEvent)} {n : Net} (run : netMachine.Run ts n) :
    (n.halted = false → n.Mirrored) ∧ ∀ t ∈ ts, Asserted t := by
  refine ⟨fun live => (consistent_run run live).mirrored, fun t ht => ?_⟩
  obtain ⟨_, _, _, before, h⟩ := run.split ht
  exact (consistent_step (consistent_run before (live_of_step h)) h).2

/-- The local peer closes and uses its port again. -/
theorem session_map_mirrors_reused : ∃ ts n, netMachine.Run ts n ∧
    (n.halted = false ∧ n.find ⟨[9, 9, 9, 9], [10, 8, 0, 2], 80, 4000⟩ = some 1) ∧
    ((n.halted = false → n.Mirrored) ∧ ∀ t ∈ ts, Asserted t) := by
  obtain ⟨ts, n, run, h⟩ := Machine.Run.exists_of_exec netMachine ⟨[], ∅, false⟩
    [.accept ⟨[9, 9, 9, 9], [10, 8, 0, 2], 80, 4000⟩ webConn.remoteRecvBuff true,
      .conn 0 (.input ⟨0, false, none, true⟩), .conn 0 (.input ⟨0, true, none, false⟩),
      .accept ⟨[9, 9, 9, 9], [10, 8, 0, 2], 80, 4000⟩ webConn.remoteRecvBuff true]
    (fun _ n => decide (n.halted = false ∧ n.find ⟨[9, 9, 9, 9], [10, 8, 0, 2], 80, 4000⟩ = some 1)) rfl
    (by decide +kernel)
  exact ⟨ts, n, run, of_decide_eq_true h, session_map_mirrors run⟩

end Tunosocks.Tcp
