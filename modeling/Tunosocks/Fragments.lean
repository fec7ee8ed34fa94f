import Tunosocks.PacketHandler
import Tunosocks.Udp.ClientNat

/-! Fragments on the UDP path. The packets of the device and the datagrams of the sessions drive one machine; `Input`
does not look at the flags, so that a fragment is handled like a whole packet and lends its flags to the replies. -/
namespace Tunosocks.PacketHandler
open Foundation Foundation.Access Foundation.Buffer Socks5 Udp

/-- The handler, and the memory around the buffer into which the packets of the device are read. -/
structure Tun where
  handler : UdpHandler
  memory : Int → UInt8

inductive TunAct where
  | packet (bytes : List UInt8) (fresh : RecvBuff)
  | udp (a : UdpAct)

def tunStep (platform : Platform) (server : Endpoint) (s : Tun) : TunAct → Option (Tun × List InputEvent)
  | .packet bytes fresh =>
    let r := (input platform server fresh s.handler bytes.length).exec (overlay bytes s.memory)
    some (⟨r.1.1, r.2⟩, r.1.2)
  | .udp (.input _ _) => none
  | .udp a => (Udp.step platform server s.handler a).map fun r => (⟨r.1, s.memory⟩, r.2.map .udp)

def tunMachine (platform : Platform) (server : Endpoint) : Machine Tun TunAct InputEvent where
  Init s := s.handler = ⟨[], [], 0⟩
  step := tunStep platform server

/-- The packet has an IPv4 header of five words or more. -/
structure IsIpv4 (platform : Platform) (packet : List UInt8) : Prop where
  version : (packet.getD (ipOffset platform) 0 &&& 0xf0) >>> 4 = 4
  fiveWords : 5 ≤ Udp.ipHl packet (ipOffset platform)
  inside : ipOffset platform + 4 * Udp.ipHl packet (ipOffset platform) ≤ packet.length

instance (platform : Platform) (packet : List UInt8) : Decidable (IsIpv4 platform packet) :=
  decidable_of_iff (_ ∧ _ ∧ _) ⟨fun h => ⟨h.1, h.2.1, h.2.2⟩, fun h => ⟨h.1, h.2, h.3⟩⟩

def IsUdp (platform : Platform) (packet : List UInt8) : Prop := packet.getD (ipOffset platform + 9) 0 = 17

def Passes (platform : Platform) (packet : List UInt8) : Prop := pass (slice packet (ipOffset platform + 16) 4) = true

/-- The two bytes of flags and fragment offset say `MF = 0` and offset 0. -/
def Unfragmented (flags : List UInt8) : Prop := flags.getD 0 0 &&& 0x3f = 0 ∧ flags.getD 1 0 = 0

instance (flags : List UInt8) : Decidable (Unfragmented flags) := inferInstanceAs (Decidable (_ ∧ _))

def flagsOf (platform : Platform) (packet : List UInt8) : List UInt8 := slice packet (ipOffset platform + 6) 2

/-- A fragment with protocol UDP is not looked at behind its first twenty header bytes. -/
def FragmentsUnread (platform : Platform) (server : Endpoint) (t : Transition Tun TunAct InputEvent) : Prop :=
  ∀ packet fresh, t.act = .packet packet fresh → IsUdp platform packet → ¬ Unfragmented (flagsOf platform packet) →
    (input platform server fresh t.pre.handler packet.length).Stays
      (Set.Ico 0 ((ipOffset platform + 20 : Nat) : Int)) (overlay packet t.pre.memory)

/-- Datagrams are forwarded for whole packets only. -/
def ForwardsWhole (platform : Platform) (t : Transition Tun TunAct InputEvent) : Prop :=
  ∀ packet fresh i dest d, t.act = .packet packet fresh → .udp (.sentTo i dest d) ∈ t.out →
    Unfragmented (flagsOf platform packet)

/-- The replies are no fragments. -/
def RepliesWhole (platform : Platform) (t : Transition Tun TunAct InputEvent) : Prop :=
  ∀ k i frame, .udp (.injected k i frame) ∈ t.out →
    Unfragmented (slice (frame.drop (linkHeader platform).length) 6 2)

/-- Whatever the device reads is an IPv4 packet. -/
def ReadsIpv4 (platform : Platform) (t : Transition Tun TunAct InputEvent) : Prop :=
  ∀ packet fresh, t.act = .packet packet fresh → IsIpv4 platform packet

/-- A UDP packet that passes the filter is a fragment. -/
def ReadsFragment (platform : Platform) (t : Transition Tun TunAct InputEvent) : Prop :=
  ∃ packet fresh, t.act = .packet packet fresh ∧ IsUdp platform packet ∧ Passes platform packet ∧
    ¬ Unfragmented (flagsOf platform packet)

section Input
variable {platform : Platform} {server : Endpoint} {fresh : RecvBuff} {h : UdpHandler} {packet : List UInt8}
  {m rest : Int → UInt8}

/-- `Handle` leaves the handler alone or adds a session with the headers that stand in memory. -/
private theorem handle_handler (server : Endpoint) (fresh : RecvBuff) (h : UdpHandler) (ipHeader : Int)
    (m : Int → UInt8) :
    ((handle server fresh h ipHeader).exec m).1.1 = h ∨ ∃ key, ((handle server fresh h ipHeader).exec m).1.1 =
      { h with udpSessionMap := h.udpSessionMap ++ [(key, newSession server fresh
        (Udp.setNatInfo (window m ipHeader (4 * (m ipHeader &&& 0x0f).toNat + 8)) 0))] } := by
  simp only [handle, exec_bind, exec_ipHl, exec_readRange]
  cases h.find (window m (ipHeader + 4 * (m ipHeader &&& 0x0f).toNat) 8) with
  | none =>
    simp only [exec_bind, exec_setNatInfo]
    cases natInfoOverruns (m ipHeader &&& 0x0f).toNat with
    | true =>
      exact Or.inl (by simp only [if_true, exec_pure])
    | false =>
      simp only [Bool.false_eq_true, if_false, exec_bind, exec_pure]
      exact Or.inr ⟨_, rfl⟩
  | some i =>
    refine Or.inl ?_
    cases known : h.session i with
    | none => simp only [known, exec_pure]
    | some s => simp only [known, exec_bind, exec_pure]

private theorem long_of_isIpv4 (ipv4 : IsIpv4 platform packet) : ipOffset platform + 20 ≤ packet.length := by
  have := ipv4.fiveWords
  have := ipv4.inside
  omega

/-- What `Input` looks at lies in the packet. -/
private theorem header_overlay (rest : Int → UInt8) (ipv4 : IsIpv4 platform packet) :
    overlay packet rest (ipOffset platform) = packet.getD (ipOffset platform) 0 ∧
    overlay packet rest ((ipOffset platform : Int) + 9) = packet.getD (ipOffset platform + 9) 0 ∧
    window (overlay packet rest) ((ipOffset platform : Int) + 16) 4 = slice packet (ipOffset platform + 16) 4 := by
  have long := long_of_isIpv4 ipv4
  have ninth : overlay packet rest (ipOffset platform + 9 : Nat) = packet.getD (ipOffset platform + 9) 0 :=
    overlay_inside (by omega) 0
  have dest : window (overlay packet rest) (ipOffset platform + 16 : Nat) 4 = slice packet (ipOffset platform + 16) 4 :=
    window_overlay (by omega)
  push_cast at ninth dest
  exact ⟨overlay_inside (by omega) 0, ninth, dest⟩

/-- UDP that passes the filter goes to the handler. -/
private theorem exec_input_handled (ipv4 : IsIpv4 platform packet) (udp : IsUdp platform packet)
    (passes : Passes platform packet) :
    ((input platform server fresh h packet.length).exec (overlay packet rest)).1 =
      (((handle server fresh h (ipOffset platform)).exec (overlay packet rest)).1.1,
        ((handle server fresh h (ipOffset platform)).exec (overlay packet rest)).1.2.map .udp) := by
  obtain ⟨vhl, proto, dest⟩ := header_overlay rest ipv4
  rw [IsUdp] at udp
  rw [Passes] at passes
  simp only [input, inputUdp, exec_bind, exec_read, vhl, ipv4.version, ne_eq, not_true_eq_false, if_false, proto, udp,
    if_true, exec_readRange, dest, passes, exec_pure]

/-- Nothing else concerns the handler. -/
private theorem exec_input_other (ipv4 : IsIpv4 platform packet)
    (refused : ¬ (IsUdp platform packet ∧ Passes platform packet)) :
    ((input platform server fresh h packet.length).exec (overlay packet rest)).1.1 = h ∧
      ∀ e, .udp e ∉ ((input platform server fresh h packet.length).exec (overlay packet rest)).1.2 := by
  obtain ⟨vhl, proto, dest⟩ := header_overlay rest ipv4
  by_cases udp : packet.getD (ipOffset platform + 9) 0 = 17
  · have blocked : pass (slice packet (ipOffset platform + 16) 4) = false := by
      rw [← Bool.not_eq_true]
      exact fun passes => refused ⟨udp, passes⟩
    simp only [input, inputUdp, exec_bind, exec_read, vhl, ipv4.version, ne_eq, not_true_eq_false, if_false, proto, udp,
      if_true, exec_readRange, dest, blocked, Bool.false_eq_true, exec_pure, List.not_mem_nil, not_false_eq_true,
      implies_true, and_self]
  · -- the result is named before `input` is unfolded, or its projections would be evaluated
    obtain ⟨segments, named⟩ : ∃ segments, segments =
        ((inputSegment platform packet.length).exec (overlay packet rest)).1 := ⟨_, rfl⟩
    have quiet (e : UdpEvent) : .udp e ∉ segments := named ▸ not_udp_of_inputSegment e
    simp only [input, exec_bind, exec_read, vhl, ipv4.version, ne_eq, not_true_eq_false, if_false, proto, udp]
    split
    · simp only [exec_pure, List.not_mem_nil, not_false_eq_true, implies_true, and_self]
    · simp only [exec_bind, exec_pure, true_and, ← named]
      exact quiet

private theorem version_of_high_bits {b : UInt8} (h : (b &&& 0xf0) >>> 4 = 4) : b.toNat / 16 = 4 := by
  have small : ∀ n < 256, (n &&& 240) >>> 4 = 4 → n / 16 = 4 := by decide +kernel
  have bits := congrArg UInt8.toNat h
  rw [UInt8.toNat_shiftRight, UInt8.toNat_and] at bits
  exact small _ b.toNat_lt bits

/-- The headers of an IPv4 packet with protocol UDP, as they stand in memory. -/
private theorem exists_clientPacket (rest : Int → UInt8) (ipv4 : IsIpv4 platform packet) (udp : IsUdp platform packet) :
    ∃ c : ClientPacket, Udp.setNatInfo (window (overlay packet rest) (ipOffset platform)
        (4 * (overlay packet rest (ipOffset platform) &&& 0x0f).toNat + 8)) 0 = c.header ∧
      slice c.mem (c.ipHeader + 6) 2 = flagsOf platform packet := by
  have long := long_of_isIpv4 ipv4
  have five := ipv4.fiveWords
  have inside := ipv4.inside
  set ip := ipOffset platform
  set hl := Udp.ipHl packet ip with hhl
  have words : (overlay packet rest ip &&& 0x0f).toNat = hl := by
    rw [overlay_inside (show ip < packet.length by omega) 0, hhl, Udp.ipHl]
  set mem := window (overlay packet rest) ip (4 * hl + 8) with hmem
  have part {a k : Nat} (header : a + k ≤ 20) : slice mem a k = slice packet (ip + a) k := by
    rw [hmem, slice_window _ (by omega)]
    exact_mod_cast window_overlay (show ip + a + k ≤ packet.length by omega)
  have first : slice mem 0 1 = slice packet ip 1 := part (by omega)
  have ninth : slice mem 9 1 = slice packet (ip + 9) 1 := part (by omega)
  have memHl : Udp.ipHl mem 0 = hl := ipHl_congr first
  have version : (mem.getD 0 0).toNat / 16 = 4 := by
    rw [getD_congr first]
    exact version_of_high_bits ipv4.version
  have protocol : slice mem (0 + 9) 1 = [17] := by
    have bound : ip + 9 < packet.length := by omega
    have byte : packet.getD (ip + 9) 0 = 17 := udp
    rw [List.getD_eq_getElem?_getD, List.getElem?_eq_getElem bound, Option.getD_some] at byte
    rw [Nat.zero_add, ninth, slice, List.drop_eq_getElem_cons bound, byte]
    rfl
  have room : 0 + 4 * Udp.ipHl mem 0 + 8 ≤ mem.length := by
    rw [memHl, hmem, length_window]
    omega
  refine ⟨⟨mem, 0, version, by rw [memHl]; exact five, protocol, room⟩, ?_, part (show 6 + 2 ≤ 20 by omega)⟩
  rw [words]
  rfl

/-- The UDP header is read exactly when the filter lets the packet pass. -/
private theorem stays_input_iff_not_passes (ipv4 : IsIpv4 platform packet) (udp : IsUdp platform packet) :
    (input platform server fresh h packet.length).Stays (Set.Ico 0 ((ipOffset platform + 20 : Nat) : Int))
      (overlay packet rest) ↔ ¬ Passes platform packet := by
  have long := long_of_isIpv4 ipv4
  have five := ipv4.fiveWords
  obtain ⟨vhl, proto, dest⟩ := header_overlay rest ipv4
  have words : (overlay packet rest (ipOffset platform) &&& 0x0f).toNat = Udp.ipHl packet (ipOffset platform) := by
    rw [vhl, Udp.ipHl]
  rw [IsUdp] at udp
  simp only [input, inputUdp, stays_bind, stays_read, exec_read, vhl, ipv4.version, ne_eq, not_true_eq_false, if_false,
    proto, udp, if_true, stays_readRange, exec_readRange, dest, Set.mem_Ico, Passes]
  by_cases passes : pass (slice packet (ipOffset platform + 16) 4) = true
  · simp only [passes, if_true, stays_bind, stays_pure, and_true, not_true_eq_false, iff_false,
      stays_handle server fresh h (Int.natCast_nonneg _) words rfl]
    omega
  · simp only [passes, Bool.false_eq_true, if_false, stays_pure, and_true, not_false_eq_true, iff_true]
    omega

end Input

/-! ### Runs -/

/-- A session that saved the header of a whole packet. -/
structure SavedWhole (s : UdpSession) (c : ClientPacket) : Prop where
  header : s.ipUdpHeader = c.header
  whole : Unfragmented (slice c.mem (c.ipHeader + 6) 2)
  fits : ∀ n, s.receiver = .received n → n ≤ recvWindow c.header

def AllWhole (h : UdpHandler) : Prop :=
  ∀ (j : Nat) key s, h.udpSessionMap[j]? = some (key, s) → ∃ c, SavedWhole s c

section Steps
variable {platform : Platform} {server : Endpoint} {s s' : Tun} {h h' : UdpHandler} {out : List InputEvent}
  {packet : List UInt8} {fresh : RecvBuff} {a : UdpAct}

/-- A step of the sessions is one of the UDP machine, without a client packet. -/
private theorem udp_of_tunStep (he : tunStep platform server s (.udp a) = some (s', out)) :
    ∃ events, Udp.step platform server s.handler a = some (s'.handler, events) ∧ out = events.map .udp ∧
      ∀ c fresh, a ≠ .input c fresh := by
  have mapped (he : (Udp.step platform server s.handler a).map (fun r => (⟨r.1, s.memory⟩, r.2.map .udp)) =
      some (s', out)) : ∃ events, Udp.step platform server s.handler a = some (s'.handler, events) ∧
        out = events.map .udp := by
    obtain ⟨⟨h', events⟩, hs, pair⟩ := Option.map_eq_some_iff.mp he
    obtain ⟨rfl, rfl⟩ := Prod.mk.inj pair
    exact ⟨events, hs, rfl⟩
  cases a with
  | input c fresh => cases he
  | receive | receiveError | sendError | resume | take =>
    obtain ⟨events, hs, rfl⟩ := mapped he
    exact ⟨events, hs, rfl, fun _ _ input => by cases input⟩

/-- What the sessions do keeps the headers they saved. -/
private theorem allWhole_udp {events : List UdpEvent} (all : AllWhole h)
    (he : Udp.step platform server h a = some (h', events)) (outside : ∀ c fresh, a ≠ .input c fresh) :
    AllWhole h' := by
  refine (handlerStep_of_step he).all (P := fun _ s => ∃ c, SavedWhole s c) all
    (fun c fresh input => absurd input (outside c fresh)) ?_
  rintro i key s s' region evs found ⟨c, saved⟩ hm
  refine ⟨c, ?_⟩
  cases hm with
  | receive hr =>
    refine ⟨by rw [ipUdpHeader_receive, saved.header], saved.whole, fun n received => ?_⟩
    rw [receiver_receive, saved.header] at received
    cases received
    exact Nat.min_le_left _ _
  | receiveError hr => exact ⟨saved.header, saved.whole, fun n received => by cases received⟩
  | sendError => exact ⟨saved.header, saved.whole, saved.fits⟩
  | relay hr =>
    refine ⟨by rw [ipUdpHeader_relay, saved.header], saved.whole, fun n received => ?_⟩
    rw [receiver_relay] at received
    cases received
  | stop hr => exact ⟨saved.header, saved.whole, fun n received => by cases received⟩

/-- A packet opens a session with its own flags, if it opens one. -/
private theorem allWhole_packet (all : AllWhole h) (ipv4 : IsIpv4 platform packet)
    (whole : IsUdp platform packet → Passes platform packet → Unfragmented (flagsOf platform packet))
    (rest : Int → UInt8) :
    AllWhole ((input platform server fresh h packet.length).exec (overlay packet rest)).1.1 := by
  by_cases handled : IsUdp platform packet ∧ Passes platform packet
  · rw [exec_input_handled ipv4 handled.1 handled.2]
    rcases handle_handler server fresh h (ipOffset platform) (overlay packet rest) with same | ⟨key, opened⟩
    · rw [same]
      exact all
    · rw [opened]
      intro j key' s hj
      obtain ⟨c, header, flags⟩ := exists_clientPacket rest ipv4 handled.1
      rw [List.getElem?_append] at hj
      split at hj
      · exact all j key' s hj
      · rw [List.getElem?_singleton] at hj
        obtain ⟨-, hj⟩ := Option.ite_none_right_eq_some.mp hj
        obtain ⟨rfl, rfl⟩ := Prod.mk.inj (Option.some.inj hj)
        exact ⟨c, header, flags ▸ whole handled.1 handled.2, fun n received => by cases received⟩
  · rw [(exec_input_other ipv4 handled).1]
    exact all

/-- A datagram is forwarded for a UDP packet that passes the filter, and nothing is injected for it. -/
private theorem packet_event {e : UdpEvent} {rest : Int → UInt8} (ipv4 : IsIpv4 platform packet)
    (he : .udp e ∈ ((input platform server fresh h packet.length).exec (overlay packet rest)).1.2) :
    IsUdp platform packet ∧ Passes platform packet ∧ ∀ k i frame, e ≠ .injected k i frame := by
  by_cases handled : IsUdp platform packet ∧ Passes platform packet
  · rw [exec_input_handled ipv4 handled.1 handled.2] at he
    obtain ⟨e', sent, same⟩ := List.mem_map.mp he
    cases same
    refine ⟨handled.1, handled.2, ?_⟩
    rintro k i frame rfl
    rcases handle_event rfl sent with ⟨overrun, -⟩ | aborted | ⟨_, _, _, other⟩
    · cases overrun
    · cases aborted
    · cases other
  · exact absurd he ((exec_input_other ipv4 handled).2 e)

private theorem allWhole_step {act : TunAct} (all : AllWhole s.handler)
    (he : tunStep platform server s act = some (s', out)) (ipv4 : ReadsIpv4 platform ⟨s, act, out, s'⟩)
    (whole : ¬ ReadsFragment platform ⟨s, act, out, s'⟩) : AllWhole s'.handler := by
  cases act with
  | packet packet fresh =>
    cases he
    exact allWhole_packet all (ipv4 packet fresh rfl)
      (fun udp passes => not_not.mp fun cut => whole ⟨packet, fresh, rfl, udp, passes, cut⟩) s.memory
  | udp a =>
    obtain ⟨events, hs, -, outside⟩ := udp_of_tunStep he
    exact allWhole_udp all hs outside

private theorem forwardsWhole_step {act : TunAct} (he : tunStep platform server s act = some (s', out))
    (ipv4 : ReadsIpv4 platform ⟨s, act, out, s'⟩) (whole : ¬ ReadsFragment platform ⟨s, act, out, s'⟩) :
    ForwardsWhole platform ⟨s, act, out, s'⟩ := by
  rintro packet fresh i dest d rfl sent
  cases he
  obtain ⟨udp, passes, -⟩ := packet_event (ipv4 packet fresh rfl) sent
  exact not_not.mp fun cut => whole ⟨packet, fresh, rfl, udp, passes, cut⟩

private theorem repliesWhole_step {act : TunAct} (all : AllWhole s.handler)
    (he : tunStep platform server s act = some (s', out)) (ipv4 : ReadsIpv4 platform ⟨s, act, out, s'⟩) :
    RepliesWhole platform ⟨s, act, out, s'⟩ := by
  intro k i frame injected
  cases act with
  | packet packet fresh =>
    cases he
    exact absurd rfl ((packet_event (ipv4 packet fresh rfl) injected).2.2 k i frame)
  | udp a =>
    obtain ⟨events, hs, rfl, outside⟩ := udp_of_tunStep he
    obtain ⟨e, seen, same⟩ := List.mem_map.mp injected
    cases same
    cases (handlerStep_of_step hs).eventOf seen with
    | @injected _ n off len key session resume found hr hregion counted =>
      obtain ⟨c, saved⟩ := all i key session found
      have bytes := injectedBytes_region session platform n hregion
      rw [saved.header] at bytes
      rw [flags_of_injected session.remoteRecvBuff.2 (saved.fits n hr) bytes]
      exact saved.whole

private theorem fragmentsUnread_iff {act : TunAct} (ipv4 : ReadsIpv4 platform ⟨s, act, out, s'⟩) :
    FragmentsUnread platform server ⟨s, act, out, s'⟩ ↔ ¬ ReadsFragment platform ⟨s, act, out, s'⟩ := by
  constructor
  · rintro unread ⟨packet, fresh, given, udp, passes, cut⟩
    exact (stays_input_iff_not_passes (ipv4 packet fresh given) udp).mp (unread packet fresh given udp cut) passes
  · intro whole packet fresh given udp cut
    rw [stays_input_iff_not_passes (ipv4 packet fresh given) udp]
    exact fun passes => whole ⟨packet, fresh, given, udp, passes, cut⟩

end Steps

/-- In runs over IPv4 packets, fragments are not read as UDP, not forwarded and do not show in the replies, exactly when
no UDP packet that passes the filter is a fragment. -/
theorem fragments_stay_out_iff {platform : Platform} {server : Endpoint} {s : Tun}
    {ts : List (Transition Tun TunAct InputEvent)} (run : (tunMachine platform server).Run ts s)
    (ipv4 : ∀ t ∈ ts, ReadsIpv4 platform t) :
    (∀ t ∈ ts, FragmentsUnread platform server t ∧ ForwardsWhole platform t ∧ RepliesWhole platform t) ↔
      ∀ t ∈ ts, ¬ ReadsFragment platform t := by
  constructor
  · intro good t ht
    exact (fragmentsUnread_iff (ipv4 t ht)).mp (good t ht).1
  · intro whole t ht
    obtain ⟨before, he⟩ := run.guarded_pre (fun t => ReadsIpv4 platform t ∧ ¬ ReadsFragment platform t)
      (fun s => AllWhole s.handler) (fun s initial j key session found => by rw [initial] at found; cases found)
      (fun s a s' out all he guard => allWhole_step all he guard.1 guard.2)
      (fun t ht => ⟨ipv4 t ht, whole t ht⟩) ht
    exact ⟨(fragmentsUnread_iff (ipv4 t ht)).mpr (whole t ht), forwardsWhole_step he (ipv4 t ht) (whole t ht),
      repliesWhole_step before he (ipv4 t ht)⟩

/-- Nothing has been read yet. -/
def emptyTun : Tun := ⟨⟨[], [], 0⟩, fun _ => 0⟩

private theorem readsIpv4_packet {s s' : Tun} {out : List InputEvent} {packet : List UInt8} {fresh : RecvBuff}
    (ipv4 : IsIpv4 .win32 packet) : ReadsIpv4 .win32 ⟨s, .packet packet fresh, out, s'⟩ := by
  intro other _ given
  cases given
  exact ipv4

theorem fragments_stay_out_query : ∃ ts s, (tunMachine .win32 proxyServer).Run ts s ∧ ts.length = 1 ∧
    (∀ t ∈ ts, ReadsIpv4 .win32 t) ∧
    ((∀ t ∈ ts, FragmentsUnread .win32 proxyServer t ∧ ForwardsWhole .win32 t ∧ RepliesWhole .win32 t) ↔
      ∀ t ∈ ts, ¬ ReadsFragment .win32 t) := by
  have start : (tunMachine .win32 proxyServer).Run [] emptyTun := .init rfl
  have run := start.next (a := .packet queryPacket.mem zeroBuff) rfl
  have ipv4 : IsIpv4 .win32 queryPacket.mem := by decide
  exact ⟨_, _, run, rfl, List.forall_mem_singleton.mpr (readsIpv4_packet ipv4),
    fragments_stay_out_iff run (List.forall_mem_singleton.mpr (readsIpv4_packet ipv4))⟩

/-- The second fragment, from 10.8.0.2 to 9.9.9.9 at offset 1480, of a datagram longer than the MTU; its data reads as
ports 1 and 2 and a length of 8. -/
def laterFragment : List UInt8 :=
  [0x45, 0, 0, 28, 0, 1, 0, 185, 64, 17, 0, 0, 10, 8, 0, 2, 9, 9, 9, 9, 0, 1, 0, 2, 0, 8, 0, 0]

/-- What is injected when the server answers it with five bytes. -/
def fragmentReply : List UInt8 :=
  [69, 0, 0, 33, 0, 1, 0, 185, 64, 17, 93, 247, 9, 9, 9, 9, 10, 8, 0, 2, 0, 53, 0, 1, 0, 13, 218, 124, 1, 2, 3, 4, 5]

/-- The data of a later fragment is forwarded as a datagram, and the reply to it is a fragment, too. -/
theorem fragment_is_forwarded : ∃ ts s, (tunMachine .win32 proxyServer).Run ts s ∧
    (∃ t ∈ ts, ¬ ForwardsWhole .win32 t) ∧ ∃ t ∈ ts, ¬ RepliesWhole .win32 t := by
  have start : (tunMachine .win32 proxyServer).Run [] emptyTun := .init rfl
  have run := ((start.next (a := .packet laterFragment zeroBuff) rfl).next
    (a := .udp (.receive 0 proxyServer fiveByteDatagram.bytes)) rfl).next (a := .udp (.resume 0)) rfl
  refine ⟨_, _, run, ⟨_, List.mem_append_left _ (List.mem_append_left _ (List.mem_singleton.mpr rfl)), ?_⟩,
    ⟨_, List.mem_append_right _ (List.mem_singleton.mpr rfl), ?_⟩⟩
  · intro good
    have sent := good laterFragment zeroBuff 0 proxyServer [0, 0, 0, 1, 9, 9, 9, 9, 0, 2] rfl (by decide +kernel)
    exact absurd sent (by decide)
  · intro good
    have whole := good 0 0 fragmentReply (by decide +kernel)
    exact absurd whole (by decide)

end Tunosocks.PacketHandler
