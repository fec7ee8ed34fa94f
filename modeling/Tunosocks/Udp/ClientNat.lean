import Tunosocks.Udp.Relay
import Tunosocks.Udp.ReplyPacket

/-! Whom the sessions answer: every injected packet is addressed from the header a
session saved, and clients that do not share a port get their own replies. -/
namespace Tunosocks.Udp
open Foundation Foundation.Buffer Socks5

/-- Destination address and UDP destination port of an injected frame. -/
def destinationOf (platform : Platform) (frame : List UInt8) : List UInt8 × List UInt8 :=
  let pkt := frame.drop (linkHeader platform).length
  (slice pkt 16 4, slice pkt (4 * ipHl pkt 0 + 2) 2)

/-- The received length keeps the zero of the padding off the destination port, and
the ports inside the injected bytes. -/
def SparesPort (c : ClientPacket) (n : Nat) : Prop :=
  6 ≤ n ∧ (n + 15 = 4 * c.ihl → c.srcPort[1]? = some 0)

theorem length_inetAddr (s : List Char) : (inetAddr s).length = 4 := by
  unfold inetAddr
  split
  · rename_i quad
    simp only [ipPattern, Bool.and_eq_true, beq_iff_eq] at quad
    rw [List.length_map, quad.1]
  · rfl

section Destination
variable {platform : Platform} {buf : List UInt8} {c : ClientPacket} {n : Nat}

/-- `readFromRemote` injects nothing or a packet built around some address. -/
theorem readFromRemote_cases (platform : Platform) (buf header : List UInt8) (n : Nat) :
    readFromRemote platform buf header n = (buf, none) ∨
      ∃ srcIp srcPort mbz udpl, srcIp.length = 4 ∧ readFromRemote platform buf header n =
        injection platform (finishPacket (paddle (overlayHeaders buf header srcIp srcPort n) n) mbz udpl n) n := by
  unfold readFromRemote
  split
  · exact Or.inl rfl
  · split
    · exact Or.inl rfl
    · exact Or.inr ⟨_, _, _, _, length_inetAddr _, rfl⟩

private theorem header_room (hb : buf.length = udpRemoteRecvBuffSize) : 4 * c.ihl + 12 ≤ buf.length := by
  have small := c.ihl_le
  rw [hb, udpRemoteRecvBuffSize]
  omega

/-- What the device is given, for whatever address was parsed. -/
theorem frame_of_injected {frame : List UInt8} (hb : buf.length = udpRemoteRecvBuffSize)
    (fits : n ≤ recvWindow c.header)
    (injected : injectedBytes (readFromRemote platform buf c.header n) = some frame) :
    ∃ srcIp srcPort mbz udpl, srcIp.length = 4 ∧
      ipHl (paddle (overlayHeaders buf c.header srcIp srcPort n) n) 4 = c.ihl ∧
      frame = linkHeader platform ++ slice (finishPacket (paddle (overlayHeaders buf c.header srcIp srcPort n) n) mbz
        udpl n) 4 (4 * c.ihl + n - 2) := by
  have h5 : 5 ≤ c.ihl := c.fiveWords
  have small := c.ihl_le
  have room := header_room (c := c) hb
  rw [recvWindow, c.length_header, udpRemoteRecvBuffSize] at fits
  rw [udpRemoteRecvBuffSize] at hb
  rcases readFromRemote_cases platform buf c.header n with silent | ⟨srcIp, srcPort, mbz, udpl, hs, built⟩
  · rw [silent] at injected
    cases injected
  · by_cases device : platform = .linux
    · rw [built, device] at injected
      cases injected
    · have first : slice (paddle (overlayHeaders buf c.header srcIp srcPort n) n) (4 + 0) 1 = slice c.header 0 1 :=
        (slice_paddle_before (by omega)).trans
          (slice_overlayHeaders_header c.ipHl_header h5 c.length_header room hs (by omega))
      have hh : ipHl (paddle (overlayHeaders buf c.header srcIp srcPort n) n) 4 = c.ihl :=
        (ipHl_congr first).trans c.ipHl_header
      rw [built, injectedBytes_injection device (ipHl_finishPacket hh h5) h5
        (by simp only [length_finishPacket, length_paddle, length_overlayHeaders]; omega)
        (by simp only [length_finishPacket, length_paddle, length_overlayHeaders, udpRemoteRecvBuffSize]; omega)]
        at injected
      exact ⟨srcIp, srcPort, mbz, udpl, hs, hh, (Option.some.inj injected).symm⟩

/-- The zero of the padding misses the address, and the port unless it is zero there. -/
private theorem padded_ends {o : List UInt8} (spares : SparesPort c n) (address : slice o 20 4 = c.src)
    (port : slice o (4 + (4 * c.ihl + 2)) 2 = c.srcPort) :
    slice (paddle o n) 20 4 = c.src ∧ slice (paddle o n) (4 + (4 * c.ihl + 2)) 2 = c.srcPort := by
  obtain ⟨long, zero⟩ := spares
  refine ⟨(slice_paddle_before (by omega)).trans address, ?_⟩
  simp only [paddle]
  split
  · rename_i odd
    by_cases hit : n + 15 = 4 * c.ihl
    · rw [slice_writeAt_inside (by omega), port,
        show 12 + (12 + 8 + n - 10) - (4 + (4 * c.ihl + 2)) = 1 by omega]
      exact (writeAt_singleton_eq_self_iff 0 (by rw [c.length_srcPort]; omega)).mpr (zero hit)
    · exact (slice_writeAt_disjoint (by simp only [List.length_singleton]; omega)).trans port
  · exact port

/-- Whatever a session injects for its client goes to its client. -/
theorem destination_of_injected {frame : List UInt8} (hb : buf.length = udpRemoteRecvBuffSize)
    (fits : n ≤ recvWindow c.header) (spares : SparesPort c n)
    (injected : injectedBytes (readFromRemote platform buf c.header n) = some frame) :
    destinationOf platform frame = (c.src, c.srcPort) := by
  have h5 : 5 ≤ c.ihl := c.fiveWords
  have long := spares.1
  obtain ⟨srcIp, srcPort, mbz, udpl, hs, hh, rfl⟩ := frame_of_injected hb fits injected
  have room := header_room (c := c) hb
  obtain ⟨address, port⟩ := padded_ends spares
    ((slice_overlayHeaders_header c.ipHl_header h5 c.length_header room hs (a := 16) (by omega)).trans
      c.header_dest)
    ((slice_overlayHeaders_header c.ipHl_header h5 c.length_header room hs (by omega)).trans c.header_destPort)
  have hl : ipHl (slice (finishPacket (paddle (overlayHeaders buf c.header srcIp srcPort n) n) mbz udpl n) 4
      (4 * c.ihl + n - 2)) 0 = c.ihl :=
    (ipHl_congr (slice_slice (by omega))).trans (ipHl_finishPacket hh h5)
  simp only [destinationOf, List.drop_left, hl]
  rw [slice_slice (by omega), slice_slice (by omega), slice_finishPacket hh h5 (by omega),
    slice_finishPacket hh h5 (by omega), address, port]

/-- The flags and the fragment offset are those of the saved header. -/
theorem flags_of_injected {frame : List UInt8} (hb : buf.length = udpRemoteRecvBuffSize)
    (fits : n ≤ recvWindow c.header)
    (injected : injectedBytes (readFromRemote platform buf c.header n) = some frame) :
    slice (frame.drop (linkHeader platform).length) 6 2 = slice c.mem (c.ipHeader + 6) 2 := by
  have h5 : 5 ≤ c.ihl := c.fiveWords
  obtain ⟨srcIp, srcPort, mbz, udpl, hs, hh, rfl⟩ := frame_of_injected hb fits injected
  have room := header_room (c := c) hb
  rw [List.drop_left, slice_slice (by omega), slice_finishPacket hh h5 (by omega), slice_paddle_before (by omega),
    slice_overlayHeaders_header c.ipHl_header h5 c.length_header room hs (a := 6) (by omega)]
  exact slice_setNatInfo rfl c.fiveWords c.inside (by omega)

end Destination

/-- No two packets of a run share a source port but not the source address. -/
def OneAddressPerPort (ts : List (Transition UdpHandler UdpAct UdpEvent)) : Prop :=
  ∀ t ∈ ts, ∀ u ∈ ts, ∀ c fresh c' fresh', t.act = .input c fresh → u.act = .input c' fresh' →
    c.srcPort = c'.srcPort → c.src = c'.src

/-- A datagram received in a step is long enough to be answered, and its length keeps
the padding off the client's port or that byte of the port is zero. -/
def HarmlessLength (t : Transition UdpHandler UdpAct UdpEvent) : Prop :=
  ∀ i sender d s, t.act = .receive i sender d → t.pre.session i = some s →
    6 ≤ d.length ∧ (d.length + 23 = s.ipUdpHeader.length → s.ipUdpHeader[s.ipUdpHeader.length - 5]? = some 0)

/-- A session that was opened for a client owning its port. -/
structure ServesOwner (owner : List UInt8 → List UInt8) (key : List UInt8) (s : UdpSession) (c : ClientPacket) :
    Prop where
  header : s.ipUdpHeader = c.header
  port : slice key 0 2 = c.srcPort
  owns : c.src = owner c.srcPort
  spares : ∀ n, s.receiver = .received n → n ≤ recvWindow c.header ∧ SparesPort c n

/-- Sessions serve owners; what was forwarded or injected over a session is their own. -/
structure ServedByOwners (platform : Platform) (owner : List UInt8 → List UInt8) (tr : List UdpEvent)
    (h : UdpHandler) : Prop where
  sessions : ∀ (j : Nat) key s, h.udpSessionMap[j]? = some (key, s) → ∃ c, ServesOwner owner key s c
  forwarded : ∀ i a p, .forwarded i a p ∈ tr → ∃ key s, ∃ c : ClientPacket,
    h.udpSessionMap[i]? = some (key, s) ∧ s.ipUdpHeader = c.header ∧ c.src = a ∧ c.srcPort = p
  injected : ∀ k i frame, .injected k i frame ∈ tr → ∃ key s, ∃ c : ClientPacket,
    h.udpSessionMap[i]? = some (key, s) ∧ s.ipUdpHeader = c.header ∧
      destinationOf platform frame = (c.src, c.srcPort)

section Owners
variable {platform : Platform} {server : Endpoint} {owner : List UInt8 → List UInt8} {h h' : UdpHandler}
  {a : UdpAct} {tr out : List UdpEvent}

/-- Packets with one header come from one client. -/
theorem ClientPacket.ends_of_header {c c' : ClientPacket} (same : c.header = c'.header) :
    c.src = c'.src ∧ c.srcPort = c'.srcPort := by
  have ihl : c.ihl = c'.ihl := by rw [← c.ipHl_header, same, c'.ipHl_header]
  rw [← c.header_dest, ← c.header_destPort, ← c'.header_dest, ← c'.header_destPort, same, ihl]
  exact ⟨rfl, rfl⟩

private theorem key_port (c : ClientPacket) : slice c.udpHeader 0 2 = c.srcPort :=
  slice_slice (by omega)

/-- A harmless datagram spares the port of the client its session serves. -/
private theorem spares_of_harmless {c : ClientPacket} {d : List UInt8} (long : 6 ≤ d.length)
    (zero : d.length + 23 = c.header.length → c.header[c.header.length - 5]? = some 0) :
    SparesPort c (min (recvWindow c.header) d.length) := by
  have h15 := c.ihl_le
  rw [recvWindow, udpRemoteRecvBuffSize]
  rw [c.length_header] at zero ⊢
  refine ⟨by omega, fun hit => ?_⟩
  rw [← c.header_destPort, getElem?_slice, if_pos (by omega), ← zero (by omega)]
  congr 1

private theorem sessions_step (owns : ∀ c fresh, a = .input c fresh → c.src = owner c.srcPort)
    (harmless : HarmlessLength ⟨h, a, out, h'⟩) (hstep : HandlerStep platform server h a h' out)
    (served : ∀ (j : Nat) key s, h.udpSessionMap[j]? = some (key, s) → ∃ c, ServesOwner owner key s c) :
    ∀ (j : Nat) key s, h'.udpSessionMap[j]? = some (key, s) → ∃ c, ServesOwner owner key s c := by
  refine hstep.all served ?_ ?_
  · intro c fresh input
    exact ⟨c, rfl, key_port c, owns c fresh input, fun n hn => by cases hn⟩
  · rintro i key s s' region evs found ⟨c, serves⟩ hm
    refine ⟨c, ?_⟩
    cases hm with
    | @receive _ sender d hr =>
      obtain ⟨long, zero⟩ := harmless i sender d s rfl (by rw [UdpHandler.session, found, Option.map_some])
      rw [serves.header] at zero
      refine ⟨by rw [ipUdpHeader_receive, serves.header], serves.port, serves.owns, ?_⟩
      intro n hn
      rw [receiver_receive, serves.header] at hn
      obtain rfl := Receiver.received.inj hn
      exact ⟨Nat.min_le_left _ _, spares_of_harmless long zero⟩
    | receiveError hr => exact ⟨serves.header, serves.port, serves.owns, fun n hn => by cases hn⟩
    | sendError => exact ⟨serves.header, serves.port, serves.owns, serves.spares⟩
    | relay hr =>
      refine ⟨by rw [ipUdpHeader_relay, serves.header], serves.port, serves.owns, ?_⟩
      intro n hn
      rw [receiver_relay] at hn
      cases hn
    | stop hr => exact ⟨serves.header, serves.port, serves.owns, fun n hn => by cases hn⟩

private theorem forwarded_step (owns : ∀ c fresh, a = .input c fresh → c.src = owner c.srcPort)
    (hstep : HandlerStep platform server h a h' out) (served : ServedByOwners platform owner tr h) :
    ∀ i src p, .forwarded i src p ∈ tr ++ out → ∃ key s, ∃ c : ClientPacket, h'.udpSessionMap[i]? = some (key, s) ∧
      s.ipUdpHeader = c.header ∧ c.src = src ∧ c.srcPort = p := by
  intro i src p sent
  rcases List.mem_append.mp sent with old | new
  · obtain ⟨key, s, c, found, header, ends⟩ := served.forwarded i src p old
    obtain ⟨s', found', same⟩ := hstep.keeps found
    exact ⟨key, s', c, found', same.trans header, ends⟩
  · cases hstep.eventOf new with
    | forwardedNew input created => exact ⟨_, _, _, created, rfl, rfl, rfl⟩
    | @forwardedKnown c fresh _ entry input found port =>
      obtain ⟨c₀, serves⟩ := served.sessions i entry.1 entry.2 found
      obtain ⟨s', found', same⟩ := hstep.keeps found
      -- One port means one owner, so the session was opened for this very client.
      have ports : c₀.srcPort = c.srcPort := by
        rw [← serves.port, ← key_port c]
        exact eq_of_beq port
      refine ⟨entry.1, s', c₀, found', same.trans serves.header, ?_, ports⟩
      rw [serves.owns, ports, ← owns c fresh input]

private theorem injected_step (hstep : HandlerStep platform server h a h' out)
    (served : ServedByOwners platform owner tr h) :
    ∀ k i frame, .injected k i frame ∈ tr ++ out → ∃ key s, ∃ c : ClientPacket, h'.udpSessionMap[i]? = some (key, s) ∧
      s.ipUdpHeader = c.header ∧ destinationOf platform frame = (c.src, c.srcPort) := by
  intro k i frame sent
  rcases List.mem_append.mp sent with old | new
  · obtain ⟨key, s, c, found, header, ends⟩ := served.injected k i frame old
    obtain ⟨s', found', same⟩ := hstep.keeps found
    exact ⟨key, s', c, found', same.trans header, ends⟩
  · cases hstep.eventOf new with
    | @injected _ n off len key s resume found hr hregion counted =>
      obtain ⟨c, serves⟩ := served.sessions i key s found
      obtain ⟨s', found', same⟩ := hstep.keeps found
      obtain ⟨fits, spares⟩ := serves.spares n hr
      refine ⟨key, s', c, found', same.trans serves.header, ?_⟩
      apply destination_of_injected s.remoteRecvBuff.2 fits spares
      rw [← serves.header]
      exact injectedBytes_region s platform n hregion

private theorem servedByOwners_step (owns : ∀ c fresh, a = .input c fresh → c.src = owner c.srcPort)
    (harmless : HarmlessLength ⟨h, a, out, h'⟩) (he : step platform server h a = some (h', out))
    (served : ServedByOwners platform owner tr h) : ServedByOwners platform owner (tr ++ out) h' where
  sessions := sessions_step owns harmless (handlerStep_of_step he) served.sessions
  forwarded := forwarded_step owns (handlerStep_of_step he) served
  injected := injected_step (handlerStep_of_step he) served

end Owners

/-- The owner of each port, in runs in which ports are not shared. -/
private theorem exists_owner {ts : List (Transition UdpHandler UdpAct UdpEvent)} (own : OneAddressPerPort ts) :
    ∃ owner : List UInt8 → List UInt8, ∀ t ∈ ts, ∀ c fresh, t.act = .input c fresh → c.src = owner c.srcPort := by
  have pick : ∀ p : List UInt8, ∃ src : List UInt8, ∀ t ∈ ts, ∀ c fresh, t.act = .input c fresh → c.srcPort = p →
      c.src = src := by
    intro p
    by_cases used : ∃ t ∈ ts, ∃ c fresh, t.act = .input c fresh ∧ c.srcPort = p
    · obtain ⟨u, hu, c', fresh', input', rfl⟩ := used
      exact ⟨c'.src, fun t ht c fresh input same => own t ht u hu c fresh c' fresh' input input' same⟩
    · exact ⟨[], fun t ht c fresh input same => absurd ⟨t, ht, c, fresh, input, same⟩ used⟩
  choose owner howner using pick
  exact ⟨owner, fun t ht c fresh input => howner c.srcPort t ht c fresh input rfl⟩

/-- Where ports are not shared and lengths are harmless, a session forwards for one
client only, and whatever it injects is addressed to that client. -/
theorem replies_reach_their_client {platform : Platform} {server : Endpoint} {h : UdpHandler}
    {ts : List (Transition UdpHandler UdpAct UdpEvent)} (run : (relayMachine platform server).Run ts h)
    (own : OneAddressPerPort ts) (harmless : ∀ t ∈ ts, HarmlessLength t) {i : Nat} {src port : List UInt8}
    (sent : .forwarded i src port ∈ Machine.trace ts) :
    (∀ src' port', .forwarded i src' port' ∈ Machine.trace ts → src' = src ∧ port' = port) ∧
      ∀ k frame, .injected k i frame ∈ Machine.trace ts → destinationOf platform frame = (src, port) := by
  obtain ⟨owner, howner⟩ := exists_owner own
  have served : ServedByOwners platform owner (Machine.trace ts) h := by
    refine run.guarded_trace (fun t => (∀ c fresh, t.act = .input c fresh → c.src = owner c.srcPort) ∧
      HarmlessLength t) (ServedByOwners platform owner) ?_ ?_ (fun t ht => ⟨howner t ht, harmless t ht⟩)
    · rintro h rfl
      exact ⟨fun j key s hj => (by cases hj), fun i a p hm => (by cases hm), fun k i frame hm => (by cases hm)⟩
    · intro tr h a h' out served he guarded
      exact servedByOwners_step guarded.1 guarded.2 he served
  obtain ⟨key, s, c, found, header, rfl, rfl⟩ := served.forwarded i src port sent
  refine ⟨?_, ?_⟩
  · intro src' port' sent'
    obtain ⟨key', s', c', found', header', rfl, rfl⟩ := served.forwarded i src' port' sent'
    obtain ⟨-, rfl⟩ := Prod.mk.inj (Option.some.inj (found.symm.trans found'))
    exact ClientPacket.ends_of_header (header'.symm.trans header)
  · intro k frame injected
    obtain ⟨key', s', c', found', header', destination⟩ := served.injected k i frame injected
    obtain ⟨-, rfl⟩ := Prod.mk.inj (Option.some.inj (found.symm.trans found'))
    obtain ⟨src, port⟩ := ClientPacket.ends_of_header (header'.symm.trans header)
    rw [destination, src, port]

theorem replies_reach_their_client_query : ∃ ts h, (relayMachine .win32 proxyServer).Run ts h ∧ ts.length = 2 ∧
    (∀ src' port', .forwarded 0 src' port' ∈ Machine.trace ts → src' = queryPacket.src ∧ port' = queryPacket.srcPort) ∧
      ∀ k frame, .injected k 0 frame ∈ Machine.trace ts →
        destinationOf .win32 frame = (queryPacket.src, queryPacket.srcPort) := by
  have run : (relayMachine .win32 proxyServer).Run _ _ := .next (a := .input queryPacket zeroBuff)
    (.next (a := .input queryPacket zeroBuff) (.init rfl) rfl) rfl
  refine ⟨_, _, run, rfl, replies_reach_their_client run ?_ ?_ (List.mem_cons_self ..)⟩
  · intro t ht u hu c fresh c' fresh' input input' _
    simp only [List.nil_append, List.cons_append, List.mem_cons, List.not_mem_nil, or_false] at ht hu
    rcases ht with rfl | rfl <;> rcases hu with rfl | rfl <;> cases input <;> cases input' <;> rfl
  · intro t ht i sender d s received _
    simp only [List.nil_append, List.cons_append, List.mem_cons, List.not_mem_nil, or_false] at ht
    rcases ht with rfl | rfl <;> cases received

/-- A packet from 10.8.0.3:4000, the port of `queryPacket` at another address. -/
def neighbourPacket : ClientPacket where
  mem := [0x45, 0, 0, 31, 0, 1, 0, 0, 64, 17, 0, 0, 10, 8, 0, 3, 9, 9, 9, 9, 0x0F, 0xA0, 0, 53, 0, 11, 0, 0, 7, 8, 9]
  ipHeader := 0
  version := rfl
  fiveWords := by decide
  protocol := rfl
  inside := by decide

/-- The packet of the second client goes over the session of the first, which has saved
the first client's address for all replies. -/
theorem neighbour_shares_session : ∃ ts h, (relayMachine .win32 proxyServer).Run ts h ∧
    .forwarded 0 queryPacket.src queryPacket.srcPort ∈ Machine.trace ts ∧
    .forwarded 0 neighbourPacket.src neighbourPacket.srcPort ∈ Machine.trace ts ∧
    queryPacket.src ≠ neighbourPacket.src ∧
    ∃ s, h.session 0 = some s ∧ s.ipUdpHeader = queryPacket.header := by
  have run : (relayMachine .win32 proxyServer).Run _ _ := .next (a := .input neighbourPacket zeroBuff)
    (.next (a := .input queryPacket zeroBuff) (.init rfl) rfl) rfl
  refine ⟨_, _, run, ?_, ?_, by decide, _, rfl, rfl⟩
  · decide +kernel
  · decide +kernel

end Tunosocks.Udp
