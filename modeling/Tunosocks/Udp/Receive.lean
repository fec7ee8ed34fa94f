import Tunosocks.Udp.Relay
import Tunosocks.Udp.ReplyPacket

/-! What `readFromRemote` makes of any datagram: how much of it fits the receive window, which payloads reach the device
whole, and which datagrams are injected although they are no relay datagrams. -/
namespace Tunosocks.Udp
open Foundation.Buffer Socks5

/-- What the device is given for a datagram received into a buffer. -/
def injectedFor (platform : Platform) (c : ClientPacket) (buf : RecvBuff) (datagram : List UInt8) :
    Option (List UInt8) :=
  injectedBytes (readFromRemote platform (receiveFrom buf.1 c.header datagram).1 c.header
    (receiveFrom buf.1 c.header datagram).2)

/-- The bytes that stand at `DST.ADDR` of the relay header after a receive. -/
def addressBytes (c : ClientPacket) (buf : RecvBuff) (datagram : List UInt8) : List UInt8 :=
  slice (receiveFrom buf.1 c.header datagram).1 (4 * c.ihl + 6) 4

/-- A relay datagram as far as it fits the receive window. -/
def storedPart (c : ClientPacket) (d : RelayDatagram) : RelayDatagram :=
  { d with data := d.data.take (1468 - 4 * c.ihl) }

section Window
variable {platform : Platform} {c : ClientPacket} {d : RelayDatagram} {buf : RecvBuff} {datagram : List UInt8}

theorem recvOffset_header (c : ClientPacket) : recvOffset c.header = 4 * c.ihl + 2 := by
  rw [recvOffset, c.length_header]
  omega

theorem recvWindow_header (c : ClientPacket) : recvWindow c.header = 1478 - 4 * c.ihl := by
  rw [recvWindow, c.length_header, udpRemoteRecvBuffSize]
  omega

private theorem storedPart_fits : (storedPart c d).bytes.length ≤ recvWindow c.header := by
  have small := c.ihl_le
  rw [RelayDatagram.length_bytes, recvWindow_header, storedPart, List.length_take]
  omega

/-- A relay datagram is received as its part that fits. -/
private theorem receiveFrom_storedPart (buf : List UInt8) :
    receiveFrom buf c.header d.bytes = receiveFrom buf c.header (storedPart c d).bytes := by
  have small := c.ihl_le
  have front : (d.rsv ++ [d.frag, 1] ++ d.addr ++ d.port).length = 10 := by
    simp only [List.length_append, List.length_cons, List.length_nil, d.rsv_length, d.addr_length, d.port_length]
  have cut : d.bytes.take (recvWindow c.header) = (storedPart c d).bytes := by
    rw [RelayDatagram.bytes, List.take_append, front, List.take_of_length_le (by rw [front, recvWindow_header]; omega),
      recvWindow_header, show 1478 - 4 * c.ihl - 10 = 1468 - 4 * c.ihl by omega]
    rfl
  have whole : (storedPart c d).bytes.take (recvWindow c.header) = (storedPart c d).bytes :=
    List.take_of_length_le storedPart_fits
  simp only [receiveFrom, cut, whole]

theorem storedPart_room (c : ClientPacket) (d : RelayDatagram) (buf : RecvBuff) :
    4 * c.ihl + 22 + (storedPart c d).data.length ≤ buf.1.length :=
  room_of_fits buf.2 storedPart_fits

theorem storedPart_whole (fits : 4 * c.ihl + d.data.length ≤ 1468) : storedPart c d = d := by
  rw [storedPart, List.take_of_length_le (by omega)]

theorem injectedFor_relay (device : platform ≠ .linux) (proper : d.addr ≠ inaddrNone) :
    injectedFor platform c buf d.bytes = some (linkHeader platform ++ builtPacket c (storedPart c d) buf.1) := by
  rw [injectedFor, receiveFrom_storedPart]
  exact injectedBytes_builds platform device buf.2 storedPart_fits proper

/-- Nothing is injected on linux or when the address reads as 255.255.255.255; anything else is. -/
private theorem injected_eq_none_iff {mem header : List UInt8} {n : Nat} (room : recvOffset header + 10 ≤ mem.length) :
    injectedBytes (readFromRemote platform mem header n) = none ↔
      platform = .linux ∨ slice mem (recvOffset header + 4) 4 = inaddrNone := by
  obtain ⟨r0, r1, f, t, front⟩ := exists_quad (length_slice_of_le (show recvOffset header + 4 ≤ mem.length by omega))
  obtain ⟨a0, a1, a2, a3, address⟩ :=
    exists_quad (length_slice_of_le (show recvOffset header + 4 + 4 ≤ mem.length by omega))
  obtain ⟨p0, p1, port⟩ := exists_pair (length_slice_of_le (show recvOffset header + 8 + 2 ≤ mem.length by omega))
  have ten : slice mem (recvOffset header) 10 = [r0, r1, f, t, a0, a1, a2, a3, p0, p1] := by
    rw [← slice_append mem (recvOffset header) 4 6, ← slice_append mem (recvOffset header + 4) 4 2, front, address,
      port]
    rfl
  have parsed := parseIpPort_quad r0 r1 f t a0 a1 a2 a3 p0 p1 []
  unfold readFromRemote
  rw [ten, parsed, address]
  simp only [inetAddr_ntoa]
  by_cases broadcast : [a0, a1, a2, a3] = inaddrNone
  · simp [broadcast, injectedBytes]
  · rw [if_neg broadcast]
    cases platform <;> simp [injection, injectedBytes, broadcast]

theorem injectedFor_eq_none_iff :
    injectedFor platform c buf datagram = none ↔ platform = .linux ∨ addressBytes c buf datagram = inaddrNone := by
  have small := c.ihl_le
  have long : (receiveFrom buf.1 c.header datagram).1.length = buf.1.length := length_receiveFrom ..
  have size : buf.1.length = 1500 := buf.2
  rw [injectedFor, injected_eq_none_iff (by rw [recvOffset_header, long, size]; omega), recvOffset_header]
  rfl

private theorem addressBytes_relay : addressBytes c buf d.bytes = d.addr := by
  have room := storedPart_room c d buf
  have bytes := (storedPart c d).length_bytes
  rw [addressBytes, receiveFrom_storedPart, receiveFrom_whole storedPart_fits,
    show 4 * c.ihl + 6 = 4 * c.ihl + 2 + 4 by omega, slice_writeAt_part (by omega) (by omega)]
  obtain ⟨r0, r1, hr⟩ := exists_pair d.rsv_length
  obtain ⟨a0, a1, a2, a3, ha⟩ := exists_quad d.addr_length
  simp [slice, RelayDatagram.bytes, storedPart, hr, ha]

theorem injectedFor_relay_eq_none_iff :
    injectedFor platform c buf d.bytes = none ↔ platform = .linux ∨ d.addr = inaddrNone := by
  rw [injectedFor_eq_none_iff, addressBytes_relay]

theorem proper_of_injected {frame : List UInt8} (injected : injectedFor platform c buf d.bytes = some frame) :
    platform ≠ .linux ∧ d.addr ≠ inaddrNone := by
  rw [ne_eq, ne_eq, ← not_or, ← injectedFor_relay_eq_none_iff, injected]
  simp

/-- If anything is injected for a relay datagram, it is the packet built around it. -/
theorem eq_built_of_injected {frame : List UInt8} (injected : injectedFor platform c buf d.bytes = some frame) :
    frame = linkHeader platform ++ builtPacket c (storedPart c d) buf.1 := by
  obtain ⟨device, proper⟩ := proper_of_injected injected
  exact Option.some.inj (injected.symm.trans (injectedFor_relay device proper))

end Window

/-! ### Payloads -/

/-- The packet given to the device ends with the whole payload. -/
def CarriesPayload (platform : Platform) (c : ClientPacket) (buf : RecvBuff) (d : RelayDatagram) : Prop :=
  ∃ pkt, injectedFor platform c buf d.bytes = some (linkHeader platform ++ pkt) ∧ pkt.drop (4 * c.ihl + 8) = d.data

/-- The padding is not needed, or its zero falls before or behind the payload, or on a zero of it. -/
def PayloadSpared (c : ClientPacket) (d : RelayDatagram) : Prop :=
  d.data.length % 2 = 0 ∨ d.data.length + 20 < 4 * c.ihl ∨ d.data.getD (d.data.length + 20 - 4 * c.ihl) 0 = 0

instance (c : ClientPacket) (d : RelayDatagram) : Decidable (PayloadSpared c d) :=
  inferInstanceAs (Decidable (_ ∨ _ ∨ _))

section Payload
variable {platform : Platform} {c : ClientPacket} {d : RelayDatagram} {buf : RecvBuff}

private theorem writeAt_zero_eq_self_iff (l : List UInt8) (k : Nat) : writeAt l k [0] = l ↔ l.getD k 0 = 0 := by
  by_cases inside : k < l.length
  · rw [writeAt_singleton_eq_self_iff 0 inside, List.getD_eq_getElem?_getD, List.getElem?_eq_getElem inside]
    simp
  · rw [writeAt_past (Nat.le_of_not_lt inside), List.getD_eq_getElem?_getD, List.getElem?_eq_none (by omega)]
    simp

private theorem padded_payload_iff {mem : List UInt8} (room : 4 * c.ihl + 22 + d.data.length ≤ mem.length)
    (small : mem.length ≤ 1500) :
    slice (paddedBuffer c d mem) (4 + (4 * c.ihl + 8)) d.data.length = d.data ↔ PayloadSpared c d := by
  obtain ⟨-, -, -, -, -, data⟩ := overlay_fields (d := d) room small
  simp only [paddedBuffer, paddle, PayloadSpared]
  by_cases even : d.data.length % 2 = 0
  · rw [if_neg (by omega)]
    exact ⟨fun _ => Or.inl even, fun _ => data⟩
  · rw [if_pos (by omega)]
    by_cases before : d.data.length + 20 < 4 * c.ihl
    · rw [slice_writeAt_disjoint (Or.inr (by simp only [List.length_singleton]; omega))]
      exact ⟨fun _ => Or.inr (Or.inl before), fun _ => data⟩
    · rw [slice_writeAt_inside (by omega), data, writeAt_zero_eq_self_iff,
        show 12 + (12 + 8 + (10 + d.data.length) - 10) - (4 + (4 * c.ihl + 8)) = d.data.length + 20 - 4 * c.ihl
        by omega]
      simp only [even, before, false_or]

private theorem builtPacket_payload_iff {mem : List UInt8} (room : 4 * c.ihl + 22 + d.data.length ≤ mem.length)
    (small : mem.length ≤ 1500) :
    (builtPacket c d mem).drop (4 * c.ihl + 8) = d.data ↔ PayloadSpared c d := by
  have whole : (builtPacket c d mem).drop (4 * c.ihl + 8) =
      slice (builtPacket c d mem) (4 * c.ihl + 8) d.data.length := by
    rw [slice, List.take_of_length_le (by rw [List.length_drop, length_builtPacket room]; omega)]
  rw [whole, slice_builtPacket room (by omega) (by omega), padded_payload_iff room small]

/-- A payload that arrives whole was not cut by the receive window. -/
private theorem fits_of_carriesPayload (carried : CarriesPayload platform c buf d) :
    4 * c.ihl + d.data.length ≤ 1468 := by
  obtain ⟨pkt, injected, payload⟩ := carried
  have small := c.ihl_le
  have room := storedPart_room c d buf
  obtain rfl := List.append_cancel_left (eq_built_of_injected injected)
  have length := congrArg List.length payload
  rw [List.length_drop, length_builtPacket room] at length
  simp only [storedPart, List.length_take] at length
  omega

end Payload

/-- The payload of a relay datagram reaches the device whole exactly when the build injects, the address is not
255.255.255.255, the datagram fits the receive window and the padding spares the payload. -/
theorem reply_carries_payload_iff (platform : Platform) (c : ClientPacket) (buf : RecvBuff) (d : RelayDatagram) :
    CarriesPayload platform c buf d ↔
      platform ≠ .linux ∧ d.addr ≠ inaddrNone ∧ 4 * c.ihl + d.data.length ≤ 1468 ∧ PayloadSpared c d := by
  have size : buf.1.length ≤ 1500 := Nat.le_of_eq buf.2
  have room := storedPart_room c d buf
  constructor
  · intro carried
    have fits := fits_of_carriesPayload carried
    obtain ⟨pkt, injected, payload⟩ := carried
    obtain ⟨device, proper⟩ := proper_of_injected injected
    obtain rfl := List.append_cancel_left (eq_built_of_injected injected)
    rw [storedPart_whole fits] at payload room
    exact ⟨device, proper, fits, (builtPacket_payload_iff room size).mp payload⟩
  · rintro ⟨device, proper, fits, spared⟩
    rw [storedPart_whole fits] at room
    refine ⟨builtPacket c d buf.1, ?_, (builtPacket_payload_iff room size).mpr spared⟩
    rw [injectedFor_relay device proper, storedPart_whole fits]

/-- 1450 bytes from 9.9.9.9:53. -/
def longDatagram : RelayDatagram :=
  { fiveByteDatagram with data := List.replicate 1450 7 }

/-- A reply of 1478 bytes would fit the MTU but is cut. -/
theorem long_reply_is_cut : 4 * queryPacket.ihl + 8 + longDatagram.data.length ≤ 1500 ∧
    ¬ CarriesPayload .win32 queryPacket zeroBuff longDatagram := by
  have length : longDatagram.data.length = 1450 := List.length_replicate
  have five : queryPacket.ihl = 5 := by decide
  refine ⟨by omega, fun carried => ?_⟩
  have fits := fits_of_carriesPayload carried
  omega

/-! ### Datagrams that are no relay datagrams -/

/-- At least ten bytes, and `RSV = 0`, `FRAG = 0`, `ATYP = 1`. -/
def WellFormed (datagram : List UInt8) : Prop := 10 ≤ datagram.length ∧ datagram.take 4 = [0, 0, 0, 1]

instance (datagram : List UInt8) : Decidable (WellFormed datagram) := inferInstanceAs (Decidable (_ ∧ _))

/-- Both lengths in the headers of a packet are those it has. -/
def ConsistentLengths (pkt : List UInt8) : Prop :=
  let udp := 4 * ipHl pkt 0
  netWord (slice pkt 2 2) = pkt.length ∧ udp + netWord (slice pkt (udp + 4) 2) = pkt.length ∧
    8 ≤ netWord (slice pkt (udp + 4) 2)

/-- Whatever is injected comes from a well-formed datagram, has consistent lengths and does not depend on what was in
the buffer. -/
def InjectsOnlyRelayed (platform : Platform) (c : ClientPacket) (buf : RecvBuff) (datagram : List UInt8) : Prop :=
  ∀ frame, injectedFor platform c buf datagram = some frame →
    WellFormed datagram ∧ (∃ pkt, frame = linkHeader platform ++ pkt ∧ ConsistentLengths pkt) ∧
      ∀ other, injectedFor platform c other datagram = some frame

section Malformed
variable {platform : Platform} {c : ClientPacket} {d : RelayDatagram} {buf : RecvBuff} {datagram mem : List UInt8}

private theorem exists_relayDatagram (good : WellFormed datagram) : ∃ d : RelayDatagram, d.bytes = datagram := by
  obtain ⟨long, front⟩ := good
  refine ⟨⟨[0, 0], 0, slice datagram 4 4, slice datagram 8 2, datagram.drop 10, rfl, length_slice_of_le (by omega),
    length_slice_of_le (by omega)⟩, ?_⟩
  have joined : slice datagram 0 4 ++ (slice datagram 4 4 ++ (slice datagram 8 2 ++ datagram.drop 10)) = datagram := by
    rw [← List.append_assoc, ← List.append_assoc, slice_append datagram 0 4 4, slice_append datagram 0 8 2]
    exact List.take_append_drop 10 datagram
  have four : slice datagram 0 4 = [0, 0, 0, 1] := front
  rw [four] at joined
  simpa [RelayDatagram.bytes] using joined

/-- The zero of the padding falls on the UDP length for one length of the payload. -/
private theorem padded_udpLength (room : 4 * c.ihl + 22 + d.data.length ≤ mem.length) (small : mem.length ≤ 1500) :
    slice (paddedBuffer c d mem) (4 + (4 * c.ihl + 4)) 2 =
      if d.data.length + 23 = 4 * c.ihl then [0, 0] else netBytes (8 + d.data.length) := by
  have top := c.ihl_le
  obtain ⟨-, -, -, length, -, -⟩ := overlay_fields (d := d) room small
  simp only [paddedBuffer, paddle]
  split
  · by_cases hit : d.data.length + 23 = 4 * c.ihl
    · rw [if_pos hit, slice_writeAt_inside (by omega), length,
        show 12 + (12 + 8 + (10 + d.data.length) - 10) - (4 + (4 * c.ihl + 4)) = 1 by omega, netBytes,
        show (8 + d.data.length) / 256 = 0 by omega]
      rfl
    · rw [if_neg hit, slice_writeAt_disjoint (by simp only [List.length_singleton]; omega), length]
  · rw [if_neg (by omega), length]

private theorem builtPacket_consistent_iff (room : 4 * c.ihl + 22 + d.data.length ≤ mem.length)
    (small : mem.length ≤ 1500) :
    ConsistentLengths (builtPacket c d mem) ↔ d.data.length + 23 ≠ 4 * c.ihl := by
  have h5 : 5 ≤ c.ihl := c.fiveWords
  have hl : ipHl (builtPacket c d mem) 0 = c.ihl := ipHl_congr (builtPacket_first room)
  have udpLength : slice (builtPacket c d mem) (4 * c.ihl + 4) 2 = _ :=
    (slice_builtPacket room (by omega) (by omega)).trans (padded_udpLength room small)
  simp only [ConsistentLengths, hl, builtPacket_totalLength room small, length_builtPacket room, true_and, udpLength]
  by_cases hit : d.data.length + 23 = 4 * c.ihl
  · rw [if_pos hit, show netWord [0, 0] = 0 from rfl]
    omega
  · rw [if_neg hit, netWord_netBytes (by omega)]
    omega

/-- What is built from a relay datagram does not depend on what was in the buffer. -/
private theorem builtPacket_eq {mem' : List UInt8} (room : 4 * c.ihl + 22 + d.data.length ≤ mem.length)
    (same : mem'.length = mem.length) : builtPacket c d mem = builtPacket c d mem' := by
  have h5 : 5 ≤ c.ihl := c.fiveWords
  have bytes := d.length_bytes
  have header := c.length_header
  have start (m : List UInt8) (long : 4 * c.ihl + 22 + d.data.length ≤ m.length) :
      slice (writeAt (writeAt m (4 * c.ihl + 2) d.bytes) 4 c.header) 4 (4 * c.ihl + 8 + d.data.length) =
        c.header ++ slice d.bytes 10 d.data.length := by
    rw [← slice_append, slice_writeAt_same header.symm (by rw [length_writeAt]; omega),
      slice_writeAt_disjoint (Or.inr (by omega)), show 4 + (4 * c.ihl + 8) = 4 * c.ihl + 2 + 10 by omega,
      slice_writeAt_part (by omega) (by omega)]
  have overlaid : slice (overlayHeaders (writeAt mem (4 * c.ihl + 2) d.bytes) c.header d.addr (netWord d.port)
      (10 + d.data.length)) 4 (4 * c.ihl + 8 + d.data.length) =
      slice (overlayHeaders (writeAt mem' (4 * c.ihl + 2) d.bytes) c.header d.addr (netWord d.port)
        (10 + d.data.length)) 4 (4 * c.ihl + 8 + d.data.length) :=
    overlayHeaders_window (by omega) ((start mem room).trans (start mem' (by omega)).symm)
  apply finishPacket_window (ipHl_padded room) h5 (by omega)
  · exact paddle_window overlaid
  · simp only [paddedBuffer]
    rw [slice_paddle_summed (by simp only [length_overlayHeaders, length_writeAt]; omega),
      slice_paddle_summed (by simp only [length_overlayHeaders, length_writeAt]; omega),
      slice_congr overlaid (by omega) (by omega)]

end Malformed

/-- Only relay datagrams are injected, with consistent lengths and nothing of earlier datagrams, exactly when the build
does not inject, or the address bytes in the buffer read as 255.255.255.255, or the datagram is well formed and not of
the one length for which the padding clears the UDP length. -/
theorem injects_only_relayed_iff (platform : Platform) (c : ClientPacket) (buf : RecvBuff) (datagram : List UInt8) :
    InjectsOnlyRelayed platform c buf datagram ↔
      platform = .linux ∨ addressBytes c buf datagram = inaddrNone ∨
        WellFormed datagram ∧ datagram.length + 13 ≠ 4 * c.ihl := by
  have top := c.ihl_le
  have small : buf.1.length ≤ 1500 := Nat.le_of_eq buf.2
  constructor
  · intro only
    cases injected : injectedFor platform c buf datagram with
    | none =>
      exact (injectedFor_eq_none_iff.mp injected).imp_right Or.inl
    | some frame =>
      obtain ⟨good, ⟨pkt, rfl, consistent⟩, -⟩ := only frame injected
      obtain ⟨d, rfl⟩ := exists_relayDatagram good
      refine Or.inr (Or.inr ⟨good, fun hit => ?_⟩)
      rw [d.length_bytes] at hit
      have room := storedPart_room c d buf
      obtain rfl := List.append_cancel_left (eq_built_of_injected injected)
      rw [storedPart_whole (by omega)] at consistent room
      exact (builtPacket_consistent_iff room small).mp consistent (by omega)
  · rintro condition frame injected
    have seen : ¬ (platform = .linux ∨ addressBytes c buf datagram = inaddrNone) := by
      rw [← injectedFor_eq_none_iff, injected]
      simp
    rcases condition with silent | silent | ⟨good, spared⟩
    · exact absurd (Or.inl silent) seen
    · exact absurd (Or.inr silent) seen
    · obtain ⟨d, rfl⟩ := exists_relayDatagram good
      rw [d.length_bytes] at spared
      have room := storedPart_room c d buf
      obtain ⟨device, proper⟩ := proper_of_injected injected
      obtain rfl := eq_built_of_injected injected
      refine ⟨good, ⟨_, rfl, (builtPacket_consistent_iff room small).mpr ?_⟩, fun other => ?_⟩
      · simp only [storedPart, List.length_take]
        omega
      · rw [injectedFor_relay device proper, builtPacket_eq (storedPart_room c d other) (buf.2.trans other.2.symm)]

/-- An empty datagram makes a packet out of what the buffer holds. -/
theorem empty_datagram_is_injected : injectedFor .win32 queryPacket zeroBuff [] ≠ none ∧
    ¬ InjectsOnlyRelayed .win32 queryPacket zeroBuff [] := by
  have address : addressBytes queryPacket zeroBuff [] ≠ inaddrNone := by decide +kernel
  have injected : injectedFor .win32 queryPacket zeroBuff [] ≠ none := by
    rw [ne_eq, injectedFor_eq_none_iff]
    simp [address]
  refine ⟨injected, fun only => ?_⟩
  obtain ⟨frame, seen⟩ := Option.ne_none_iff_exists'.mp injected
  exact absurd (only frame seen).1 (by decide)

end Tunosocks.Udp
