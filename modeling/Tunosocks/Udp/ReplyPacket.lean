import Tunosocks.Udp.Packet

/-! What a reply packet has to look like, and exactly when `readFromRemote` builds
one: every field is right except where the padding byte lands inside the packet. -/
namespace Tunosocks.Udp
open Foundation.Buffer Foundation.OnesComplement Socks5

/-- The fields a reply to `c` carrying `d` has to have. -/
structure IsReply (c : ClientPacket) (d : RelayDatagram) (pkt : List UInt8) : Prop where
  size : pkt.length = 4 * c.ihl + 8 + d.data.length
  version : (pkt.getD 0 0).toNat / 16 = 4
  ihl : ipHl pkt 0 = c.ihl
  options : slice pkt 20 (4 * c.ihl - 20) = c.options
  totalLength : netWord (slice pkt 2 2) = 4 * c.ihl + 8 + d.data.length
  ttl : slice pkt 8 1 = [64]
  protocol : slice pkt 9 1 = [17]
  source : slice pkt 12 4 = d.addr
  destination : slice pkt 16 4 = c.src
  sourcePort : slice pkt (4 * c.ihl) 2 = d.port
  destinationPort : slice pkt (4 * c.ihl + 2) 2 = c.srcPort
  udpLength : netWord (slice pkt (4 * c.ihl + 4) 2) = 8 + d.data.length
  payload : slice pkt (4 * c.ihl + 8) d.data.length = d.data
  headerSum : onesSum (wordsBE (slice pkt 0 (4 * c.ihl))) = 0xFFFF

/-- What belongs behind the first 20 bytes of the reply, its checksum as zero. -/
def replyTail (c : ClientPacket) (d : RelayDatagram) : List UInt8 :=
  c.options ++ (d.port ++ (c.srcPort ++ (netBytes (8 + d.data.length) ++ ([0, 0] ++ d.data))))

/-- The padding byte is not needed, lands behind the packet, or replaces a zero. -/
def PaddingHarmless (c : ClientPacket) (d : RelayDatagram) : Prop :=
  d.data.length % 2 = 0 ∨ c.ihl = 5 ∨ (replyTail c d)[8 + d.data.length]? = some 0

instance (c : ClientPacket) (d : RelayDatagram) : Decidable (PaddingHarmless c d) :=
  inferInstanceAs (Decidable (_ ∨ _ ∨ _))

/-- The link header each build puts before an injected packet. -/
def linkHeader : Platform → List UInt8
  | .apple => [0, 0, 0, 2]
  | _ => []

section Build
variable {c : ClientPacket} {d : RelayDatagram} {buf : List UInt8}

/-- A datagram that fits is stored whole, right in front of where the headers end. -/
theorem receiveFrom_whole (fits : d.bytes.length ≤ recvWindow c.header) :
    receiveFrom buf c.header d.bytes = (writeAt buf (4 * c.ihl + 2) d.bytes, 10 + d.data.length) := by
  have offset : recvOffset c.header = 4 * c.ihl + 2 := by
    rw [recvOffset, c.length_header]
    omega
  rw [receiveFrom, List.take_of_length_le fits, offset, d.length_bytes]

theorem room_of_fits (hb : buf.length = udpRemoteRecvBuffSize)
    (fits : d.bytes.length ≤ recvWindow c.header) : 4 * c.ihl + 22 + d.data.length ≤ buf.length := by
  rw [hb, udpRemoteRecvBuffSize]
  rw [recvWindow, udpRemoteRecvBuffSize, c.length_header, d.length_bytes] at fits
  omega

/-- The buffer right before the checksums are written. -/
def paddedBuffer (c : ClientPacket) (d : RelayDatagram) (buf : List UInt8) : List UInt8 :=
  paddle (overlayHeaders (writeAt buf (4 * c.ihl + 2) d.bytes) c.header d.addr (netWord d.port) (10 + d.data.length))
    (10 + d.data.length)

theorem length_paddedBuffer : (paddedBuffer c d buf).length = buf.length := by
  simp only [paddedBuffer, length_paddle, length_overlayHeaders, length_writeAt]

/-- The packet as it stands in the buffer at the end of `readFromRemote`. -/
def builtPacket (c : ClientPacket) (d : RelayDatagram) (buf : List UInt8) : List UInt8 :=
  slice (finishPacket (paddedBuffer c d buf) (c.header.getD 8 0) 0 (10 + d.data.length)) 4
    (4 * c.ihl + 8 + d.data.length)

/-- A relay datagram from a proper address is parsed and built into a packet. -/
theorem readFromRemote_builds (platform : Platform) (hb : buf.length = udpRemoteRecvBuffSize)
    (fits : d.bytes.length ≤ recvWindow c.header) (proper : d.addr ≠ inaddrNone) :
    readFromRemote platform (receiveFrom buf c.header d.bytes).1 c.header (receiveFrom buf c.header d.bytes).2 =
      injection platform (finishPacket (paddedBuffer c d buf) (c.header.getD 8 0) 0 (10 + d.data.length))
        (10 + d.data.length) := by
  have h5 : 5 ≤ c.ihl := c.fiveWords
  have room := room_of_fits hb fits
  have offset : recvOffset c.header = 4 * c.ihl + 2 := by
    rw [recvOffset, c.length_header]
    omega
  obtain ⟨r0, r1, hr⟩ := exists_pair d.rsv_length
  obtain ⟨a0, a1, a2, a3, ha⟩ := exists_quad d.addr_length
  obtain ⟨p0, p1, hp⟩ := exists_pair d.port_length
  have front : slice (writeAt buf (4 * c.ihl + 2) d.bytes) (4 * c.ihl + 2) 10 =
      [r0, r1, d.frag, 1, a0, a1, a2, a3, p0, p1] := by
    rw [← Nat.add_zero (4 * c.ihl + 2), slice_writeAt_part (by rw [d.length_bytes]; omega)
      (by rw [d.length_bytes]; omega)]
    simp [slice, RelayDatagram.bytes, hr, ha, hp]
  have word : hostWord [p1, p0] = netWord d.port := by simp [netWord, hostWord, hp, Nat.add_comm]
  have parsed := parseIpPort_quad r0 r1 d.frag 1 a0 a1 a2 a3 p0 p1 []
  have mbz : (writeAt (writeAt buf (4 * c.ihl + 2) d.bytes) 4 c.header).getD 12 0 = c.header.getD 8 0 := by
    apply getD_congr
    change slice _ (4 + 8) 1 = _
    exact slice_writeAt_part (by rw [c.length_header]; omega) (by rw [c.length_header, length_writeAt]; omega)
  have cleared : (overlayHeaders (writeAt buf (4 * c.ihl + 2) d.bytes) c.header d.addr (netWord d.port)
      (10 + d.data.length)).getD 12 0 = 0 := by
    apply getD_congr (y := [0]) (b := 0)
    exact (slice_overlayHeaders_pseudo c.ipHl_header h5 c.length_header (by rw [length_writeAt]; omega)).1
  rw [receiveFrom_whole fits]
  unfold readFromRemote
  simp only [offset, front]
  rw [parsed]
  simp only [inetAddr_ntoa]
  rw [← ha, if_neg proper, word, mbz, cleared]
  rfl

/-- What the device is given, on the builds that give it anything. -/
theorem injectedBytes_injection {platform : Platform} (device : platform ≠ .linux) {h n : Nat} (hh : ipHl buf 4 = h)
    (h5 : 5 ≤ h) (room : 4 * h + 2 + n ≤ buf.length) (small : buf.length ≤ udpRemoteRecvBuffSize) :
    injectedBytes (injection platform buf n) = some (linkHeader platform ++ slice buf 4 (4 * h + n - 2)) := by
  have size : (h * 4 + 8 + n + 2 ^ 64 - 10) % 2 ^ 64 = 4 * h + n - 2 := by
    simp only [udpRemoteRecvBuffSize] at small
    omega
  simp only [injectedBytes, injection, hh, size]
  cases platform with
  | win32 => rfl
  | apple =>
    have front : slice (writeAt buf 0 [0, 0, 0, 2]) 0 4 = [0, 0, 0, 2] :=
      slice_writeAt_same rfl (by omega)
    have behind : slice (writeAt buf 0 [0, 0, 0, 2]) 4 (4 * h + n - 2) = slice buf 4 (4 * h + n - 2) :=
      slice_writeAt_disjoint (Or.inr (by simp))
    simp only [Option.map_some, linkHeader]
    rw [Nat.add_comm (4 * h + n - 2) 4, ← slice_append, front, Nat.zero_add, behind]
  | linux => exact absurd rfl device

theorem length_replyTail : (replyTail c d).length = 4 * c.ihl - 12 + d.data.length := by
  have h5 : 5 ≤ c.ihl := c.fiveWords
  simp only [replyTail, List.length_append, ClientPacket.length_options, ClientPacket.length_srcPort, d.port_length,
    length_netBytes,
    List.length_cons, List.length_nil]
  omega

/-- Before padding, the bytes behind the first twenty are the reply's. -/
theorem overlay_tail (room : 4 * c.ihl + 22 + d.data.length ≤ buf.length) (small : buf.length ≤ 1500) :
    slice (overlayHeaders (writeAt buf (4 * c.ihl + 2) d.bytes) c.header d.addr (netWord d.port)
      (10 + d.data.length)) 24 (4 * c.ihl - 12 + d.data.length) = replyTail c d := by
  have data : slice (writeAt buf (4 * c.ihl + 2) d.bytes) (4 + (4 * c.ihl + 8)) d.data.length = d.data := by
    rw [show 4 + (4 * c.ihl + 8) = 4 * c.ihl + 2 + 10 by omega, slice_writeAt_part (by rw [d.length_bytes])
      (by rw [d.length_bytes]; omega)]
    obtain ⟨r0, r1, hr⟩ := exists_pair d.rsv_length
    obtain ⟨a0, a1, a2, a3, ha⟩ := exists_quad d.addr_length
    obtain ⟨p0, p1, hp⟩ := exists_pair d.port_length
    simp [slice, RelayDatagram.bytes, hr, ha, hp]
  rw [slice_overlayHeaders_tail (ClientPacket.ipHl_header c) c.fiveWords c.length_header (by rw [length_writeAt]; omega)
    d.addr_length, netBytes_netWord d.port_length, data, ClientPacket.header_options, ClientPacket.header_destPort,
    show (10 + d.data.length + 65536 - 10 + 8) % 65536 = 8 + d.data.length by omega, replyTail]

/-- Padding keeps the tail of the reply exactly when it is harmless. -/
private theorem padded_tail_iff (room : 4 * c.ihl + 22 + d.data.length ≤ buf.length) (small : buf.length ≤ 1500) :
    slice (paddedBuffer c d buf) 24 (4 * c.ihl - 12 + d.data.length) = replyTail c d ↔ PaddingHarmless c d := by
  have h5 : 5 ≤ c.ihl := c.fiveWords
  rw [paddedBuffer, slice_paddle_tail rfl, overlay_tail room small, PaddingHarmless]
  split
  · rename_i even
    exact ⟨fun _ => Or.inl even, fun _ => rfl⟩
  · rename_i odd
    by_cases five : c.ihl = 5
    · exact ⟨fun _ => Or.inr (Or.inl five), fun _ => writeAt_past (by rw [length_replyTail]; omega)⟩
    · rw [writeAt_singleton_eq_self_iff _ (by rw [length_replyTail]; omega)]
      simp only [odd, five, false_or]

/-- The same, field by field. -/
theorem overlay_fields (room : 4 * c.ihl + 22 + d.data.length ≤ buf.length) (small : buf.length ≤ 1500) :
    let o := overlayHeaders (writeAt buf (4 * c.ihl + 2) d.bytes) c.header d.addr (netWord d.port) (10 + d.data.length)
    slice o (4 + 20) (4 * c.ihl - 20) = c.options ∧ slice o (4 + 4 * c.ihl) 2 = d.port ∧
      slice o (4 + (4 * c.ihl + 2)) 2 = c.srcPort ∧ slice o (4 + (4 * c.ihl + 4)) 2 = netBytes (8 + d.data.length) ∧
        slice o (4 + (4 * c.ihl + 6)) 2 = [0, 0] ∧ slice o (4 + (4 * c.ihl + 8)) d.data.length = d.data := by
  have h5 : 5 ≤ c.ihl := c.fiveWords
  exact (slice_tail_eq_iff 4 h5 (by simp only [length_overlayHeaders, length_writeAt]; omega) c.length_options
    d.port_length c.length_srcPort (length_netBytes _) rfl).mp (overlay_tail room small)

theorem padded_checksum (room : 4 * c.ihl + 22 + d.data.length ≤ buf.length) (small : buf.length ≤ 1500) :
    slice (paddedBuffer c d buf) (4 + (4 * c.ihl + 6)) 2 = [0, 0] := by
  obtain ⟨-, -, -, -, zero, -⟩ := overlay_fields (d := d) room small
  simp only [paddedBuffer, paddle]
  split
  · exact slice_writeAt_const zero
  · exact zero

theorem padded_header {a n : Nat} (room : 4 * c.ihl + 22 + d.data.length ≤ buf.length)
    (kept : a + n ≤ 8 ∨ a = 9 ∧ n ≤ 1 ∨ a = 16 ∧ n = 4) :
    slice (paddedBuffer c d buf) (4 + a) n = slice c.header a n := by
  have h5 : 5 ≤ c.ihl := c.fiveWords
  rw [paddedBuffer, slice_paddle_before (by omega)]
  exact slice_overlayHeaders_header (ClientPacket.ipHl_header c) h5 c.length_header (by rw [length_writeAt]; omega)
    d.addr_length
    (by omega)

theorem padded_source (room : 4 * c.ihl + 22 + d.data.length ≤ buf.length) :
    slice (paddedBuffer c d buf) 16 4 = d.addr := by
  have h5 : 5 ≤ c.ihl := c.fiveWords
  rw [paddedBuffer, slice_paddle_before (by omega)]
  exact slice_overlayHeaders_source (ClientPacket.ipHl_header c) h5 c.length_header (by rw [length_writeAt]; omega)
    d.addr_length

theorem ipHl_padded (room : 4 * c.ihl + 22 + d.data.length ≤ buf.length) :
    ipHl (paddedBuffer c d buf) 4 = c.ihl := by
  rw [← ClientPacket.ipHl_header c]
  exact ipHl_congr (padded_header room (a := 0) (by omega))

/-- The fields that finishing leaves as they were. -/
theorem slice_builtPacket {a n : Nat} (room : 4 * c.ihl + 22 + d.data.length ≤ buf.length)
    (part : a + n ≤ 4 * c.ihl + 8 + d.data.length)
    (kept : a + n ≤ 2 ∨ 4 ≤ a ∧ a + n ≤ 8 ∨ 9 = a ∧ n ≤ 1 ∨ 12 ≤ a ∧ a + n ≤ 4 * c.ihl + 6 ∨ 4 * c.ihl + 8 ≤ a) :
    slice (builtPacket c d buf) a n = slice (paddedBuffer c d buf) (4 + a) n := by
  rw [builtPacket, slice_slice part, slice_finishPacket (ipHl_padded room) c.fiveWords (by omega)]

theorem length_builtPacket (room : 4 * c.ihl + 22 + d.data.length ≤ buf.length) :
    (builtPacket c d buf).length = 4 * c.ihl + 8 + d.data.length :=
  length_slice_of_le (by rw [length_finishPacket, length_paddedBuffer]; omega)

theorem builtPacket_first (room : 4 * c.ihl + 22 + d.data.length ≤ buf.length) :
    slice (builtPacket c d buf) 0 1 = slice c.mem c.ipHeader 1 := by
  rw [slice_builtPacket room (by omega) (by omega), padded_header room (by omega)]
  exact slice_setNatInfo rfl c.fiveWords c.inside (by omega)

theorem builtPacket_totalLength (room : 4 * c.ihl + 22 + d.data.length ≤ buf.length) (small : buf.length ≤ 1500) :
    netWord (slice (builtPacket c d buf) 2 2) = 4 * c.ihl + 8 + d.data.length := by
  rw [builtPacket, slice_slice (by omega), slice_finishPacket_totalLength (ipHl_padded room)
    (by rw [length_paddedBuffer]; omega), netWord_netBytes (by omega)]
  omega

/-- The finished packet is the reply exactly when the padding byte does no harm. -/
private theorem builtPacket_isReply_iff (room : 4 * c.ihl + 22 + d.data.length ≤ buf.length)
    (small : buf.length ≤ 1500) : IsReply c d (builtPacket c d buf) ↔ PaddingHarmless c d := by
  have h5 : 5 ≤ c.ihl := c.fiveWords
  have hh := ipHl_padded (d := d) room
  rw [← padded_tail_iff room small, replyTail, slice_tail_eq_iff 4 h5 (by rw [length_paddedBuffer]; omega)
    c.length_options d.port_length c.length_srcPort (length_netBytes _) rfl]
  constructor
  · intro r
    refine ⟨?_, ?_, ?_, ?_, padded_checksum room small, ?_⟩
    · rw [← slice_builtPacket room (by omega) (by omega), r.options]
    · rw [← slice_builtPacket room (by omega) (by omega), r.sourcePort]
    · rw [← slice_builtPacket room (by omega) (by omega), r.destinationPort]
    · rw [← slice_builtPacket room (by omega) (by omega)]
      exact (netWord_eq_iff (by rw [length_slice_of_le (by rw [length_builtPacket room]; omega)]) (by omega)).mp
        r.udpLength
    · rw [← slice_builtPacket room (by omega) (by omega), r.payload]
  · rintro ⟨options, sourcePort, destinationPort, udpLength, -, payload⟩
    have first := builtPacket_first (d := d) room
    exact {
      size := length_builtPacket room
      version := by rw [getD_congr first, c.version]
      ihl := ipHl_congr first
      options := (slice_builtPacket room (by omega) (by omega)).trans options
      totalLength := builtPacket_totalLength room small
      ttl := by rw [builtPacket, slice_slice (by omega), slice_finishPacket_ttl (by rw [length_paddedBuffer]; omega)]
      protocol := by
        rw [slice_builtPacket room (by omega) (by omega), padded_header room (by omega), ← c.protocol]
        exact slice_setNatInfo rfl c.fiveWords c.inside (by omega)
      source := (slice_builtPacket room (by omega) (by omega)).trans (padded_source room)
      destination := by
        rw [slice_builtPacket room (by omega) (by omega), padded_header room (by omega), c.header_dest]
      sourcePort := (slice_builtPacket room (by omega) (by omega)).trans sourcePort
      destinationPort := (slice_builtPacket room (by omega) (by omega)).trans destinationPort
      udpLength := by rw [slice_builtPacket room (by omega) (by omega), udpLength, netWord_netBytes (by omega)]
      payload := (slice_builtPacket room (by omega) (by omega)).trans payload
      headerSum := by
        rw [builtPacket, slice_slice (by omega)]
        exact finishPacket_sums hh h5 (by rw [length_paddedBuffer]; omega) }

/-- What the device is given for a relay datagram that was received whole. -/
theorem injectedBytes_builds (platform : Platform) (device : platform ≠ .linux)
    (hb : buf.length = udpRemoteRecvBuffSize) (fits : d.bytes.length ≤ recvWindow c.header)
    (proper : d.addr ≠ inaddrNone) :
    injectedBytes (readFromRemote platform (receiveFrom buf c.header d.bytes).1 c.header
      (receiveFrom buf c.header d.bytes).2) = some (linkHeader platform ++ builtPacket c d buf) := by
  have h5 : 5 ≤ c.ihl := c.fiveWords
  have room := room_of_fits hb fits
  rw [readFromRemote_builds platform hb fits proper, injectedBytes_injection device
    (ipHl_finishPacket (ipHl_padded room) h5) h5 (by rw [length_finishPacket, length_paddedBuffer]; omega)
    (by rw [length_finishPacket, length_paddedBuffer]; exact Nat.le_of_eq hb),
    show 4 * c.ihl + (10 + d.data.length) - 2 = 4 * c.ihl + 8 + d.data.length by omega, builtPacket]

end Build

/-- A relay datagram from a proper address, received whole, is injected as the reply
to the client packet exactly when the padding byte does no harm. -/
theorem readFromRemote_isReply_iff (c : ClientPacket) (d : RelayDatagram) (buf : List UInt8) (platform : Platform)
    (hb : buf.length = udpRemoteRecvBuffSize) (fits : d.bytes.length ≤ recvWindow c.header)
    (proper : d.addr ≠ inaddrNone) (device : platform ≠ .linux) :
    ∃ pkt, injectedBytes (readFromRemote platform (receiveFrom buf c.header d.bytes).1 c.header
        (receiveFrom buf c.header d.bytes).2) = some (linkHeader platform ++ pkt) ∧
      (IsReply c d pkt ↔ PaddingHarmless c d) :=
  ⟨builtPacket c d buf, injectedBytes_builds platform device hb fits proper,
    builtPacket_isReply_iff (room_of_fits hb fits) (Nat.le_of_eq hb)⟩

/-- A packet from 10.8.0.2:4000 to 9.9.9.9:53 with one word of options and no data. -/
def optionPacket : ClientPacket where
  mem := [0x46, 0, 0, 32, 0, 1, 0, 0, 64, 17, 0, 0, 10, 8, 0, 2, 9, 9, 9, 9, 1, 1, 1, 0,
    0x0F, 0xA0, 0, 53, 0, 8, 0, 0]
  ipHeader := 0
  version := rfl
  fiveWords := by decide
  protocol := rfl
  inside := by decide

/-- Five bytes of data from 9.9.9.9:53. -/
def fiveByteDatagram : RelayDatagram where
  rsv := [0, 0]
  frag := 0
  addr := [9, 9, 9, 9]
  port := [0, 53]
  data := [1, 2, 3, 4, 5]
  rsv_length := rfl
  addr_length := rfl
  port_length := rfl

/-- Four of the five bytes, so that nothing is padded. -/
def fourByteDatagram : RelayDatagram :=
  { fiveByteDatagram with data := [1, 2, 3, 4] }

theorem readFromRemote_isReply_fourBytes : PaddingHarmless optionPacket fourByteDatagram ∧
    ∃ pkt, injectedBytes (readFromRemote .win32
        (receiveFrom (List.replicate 1500 0) optionPacket.header fourByteDatagram.bytes).1 optionPacket.header
        (receiveFrom (List.replicate 1500 0) optionPacket.header fourByteDatagram.bytes).2) = some ([] ++ pkt) ∧
      (IsReply optionPacket fourByteDatagram pkt ↔ PaddingHarmless optionPacket fourByteDatagram) :=
  ⟨by decide, readFromRemote_isReply_iff optionPacket fourByteDatagram (List.replicate 1500 0) .win32
    List.length_replicate (by decide) (by decide) (by decide)⟩

/-- With one option word and five bytes of data the zero replaces the second of them. -/
theorem five_bytes_behind_options : ∃ pkt, injectedBytes (readFromRemote .win32
      (receiveFrom (List.replicate 1500 0) optionPacket.header fiveByteDatagram.bytes).1 optionPacket.header
      (receiveFrom (List.replicate 1500 0) optionPacket.header fiveByteDatagram.bytes).2) = some pkt ∧
    ¬ IsReply optionPacket fiveByteDatagram pkt := by
  have hb : (List.replicate 1500 (0 : UInt8)).length = udpRemoteRecvBuffSize := List.length_replicate
  have fits : fiveByteDatagram.bytes.length ≤ recvWindow optionPacket.header := by decide
  have proper : fiveByteDatagram.addr ≠ inaddrNone := by decide
  have harmful : ¬ PaddingHarmless optionPacket fiveByteDatagram := by decide
  exact ⟨_, injectedBytes_builds .win32 (by decide) hb fits proper,
    fun reply => harmful ((builtPacket_isReply_iff (room_of_fits hb fits) (Nat.le_of_eq hb)).mp reply)⟩

end Tunosocks.Udp
