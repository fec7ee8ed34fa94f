import Tunosocks.Udp.Receive

/-! The UDP checksum of a reply: what a receiver adds up, what `readFromRemote` adds up, and when the two agree. -/
namespace Tunosocks.Udp
open Foundation.Buffer Foundation.OnesComplement Socks5

/-- The pseudo-header of RFC 768. -/
def pseudoHeader (src dest : List UInt8) (udpLength : Nat) : List UInt8 :=
  src ++ (dest ++ ([0, 17] ++ netBytes udpLength))

/-- What the receiver of a packet checks for its data. An odd last byte counts as padded with zero. -/
def ChecksumAccepted (pkt data : List UInt8) : Prop :=
  let udp := 4 * ipHl pkt 0
  slice pkt (udp + 6) 2 ≠ [0, 0] ∧
    onesSum (wordsBE (pseudoHeader (slice pkt 12 4) (slice pkt 16 4) (8 + data.length) ++
      (slice pkt udp 8 ++ data))) = 0xFFFF

/-- Whatever is injected for a relay datagram has a checksum that is accepted. -/
def ChecksumHolds (platform : Platform) (c : ClientPacket) (buf : RecvBuff) (d : RelayDatagram) : Prop :=
  ∀ pkt, injectedFor platform c buf d.bytes = some (linkHeader platform ++ pkt) → ChecksumAccepted pkt d.data

/-- Ports and length of the reply, with the zero of the padding where it falls on them. -/
def paddedPorts (c : ClientPacket) (d : RelayDatagram) : List UInt8 :=
  let ports := d.port ++ (c.srcPort ++ netBytes (8 + d.data.length))
  if d.data.length % 2 = 1 ∧ 4 * c.ihl ≤ 28 + d.data.length then writeAt ports (28 + d.data.length - 4 * c.ihl) [0]
  else ports

/-- What a receiver adds up, the checksum as zero. -/
def checkedBytes (c : ClientPacket) (d : RelayDatagram) : List UInt8 :=
  pseudoHeader d.addr c.src (8 + d.data.length) ++ (paddedPorts c (storedPart c d) ++ ([0, 0] ++ d.data))

/-- What the session adds up: as many bytes behind the pseudo-header as UDP header and data have, but from the options
on. -/
def summedBytes (c : ClientPacket) (d : RelayDatagram) : List UInt8 :=
  pseudoHeader d.addr c.src (8 + d.data.length) ++ (replyTail c d).take (8 + d.data.length)

/-- The sum is no multiple of 65535, and the receiver's is the same modulo 65535. -/
def ChecksumRight (c : ClientPacket) (d : RelayDatagram) : Prop :=
  (wordsBE (summedBytes c (storedPart c d))).sum % 65535 ≠ 0 ∧
    (wordsBE (checkedBytes c d)).sum % 65535 = (wordsBE (summedBytes c (storedPart c d))).sum % 65535

instance (c : ClientPacket) (d : RelayDatagram) : Decidable (ChecksumRight c d) :=
  inferInstanceAs (Decidable (_ ∧ _))

section Sums
variable {c : ClientPacket} {d : RelayDatagram} {mem : List UInt8}

private theorem length_pseudoHeader {src dest : List UInt8} (hs : src.length = 4) (hd : dest.length = 4) (n : Nat) :
    (pseudoHeader src dest n).length = 12 := by
  simp only [pseudoHeader, List.length_append, hs, hd, length_netBytes, List.length_cons, List.length_nil]

private theorem sum_pseudoHeader {src dest : List UInt8} (hs : src.length = 4) (hd : dest.length = 4) (n : Nat)
    (rest : List UInt8) : (wordsLE (pseudoHeader src dest n ++ rest)).sum =
      (wordsLE src).sum + (wordsLE dest).sum + 4352 + (wordsLE (netBytes n)).sum + (wordsLE rest).sum := by
  rw [wordsLE_append (by rw [length_pseudoHeader hs hd]), pseudoHeader, wordsLE_append (by rw [hs]),
    wordsLE_append (by rw [hd]), wordsLE_append rfl]
  simp only [List.sum_append, wordsLE, List.sum_cons, List.sum_nil]
  have seventeen : (17 : UInt8).toNat = 17 := rfl
  have none : (0 : UInt8).toNat = 0 := rfl
  omega

/-- The same twelve bytes in the order of the source add up to the same. -/
private theorem sum_overlaid {src dest : List UInt8} (hs : src.length = 4) (hd : dest.length = 4) (n : Nat)
    (rest : List UInt8) : (wordsLE ([0] ++ ([17] ++ (netBytes n ++ (src ++ dest))) ++ rest)).sum =
      (wordsLE (pseudoHeader src dest n ++ rest)).sum := by
  rw [sum_pseudoHeader hs hd, show [0] ++ ([17] ++ (netBytes n ++ (src ++ dest))) ++ rest =
    0 :: 17 :: (netBytes n ++ (src ++ (dest ++ rest))) by simp, wordsLE,
    wordsLE_append (by rw [length_netBytes]), wordsLE_append (by rw [hs]), wordsLE_append (by rw [hd])]
  simp only [List.sum_append, List.sum_cons]
  have seventeen : (17 : UInt8).toNat = 17 := rfl
  have none : (0 : UInt8).toNat = 0 := rfl
  omega

theorem ClientPacket.length_src (c : ClientPacket) : c.src.length = 4 :=
  length_slice_of_le (by have := c.fiveWords; have := c.inside; omega)

/-- The twelve bytes in front, in the order in which they lie over the IP header. -/
private theorem overlay_pseudo (room : 4 * c.ihl + 22 + d.data.length ≤ mem.length) (small : mem.length ≤ 1500) :
    slice (overlayHeaders (writeAt mem (4 * c.ihl + 2) d.bytes) c.header d.addr (netWord d.port) (10 + d.data.length))
      12 12 = [0] ++ ([17] ++ (netBytes (8 + d.data.length) ++ (d.addr ++ c.src))) := by
  have h5 : 5 ≤ c.ihl := c.fiveWords
  have long : 4 * c.ihl + 12 ≤ (writeAt mem (4 * c.ihl + 2) d.bytes).length := by
    rw [length_writeAt]
    omega
  set o := overlayHeaders (writeAt mem (4 * c.ihl + 2) d.bytes) c.header d.addr (netWord d.port) (10 + d.data.length)
  have zero : slice o 12 1 = [0] := (slice_overlayHeaders_pseudo c.ipHl_header h5 c.length_header long).1
  have length : slice o 14 2 = netBytes (8 + d.data.length) := by
    rw [(slice_overlayHeaders_pseudo c.ipHl_header h5 c.length_header long).2,
      show (10 + d.data.length + 65536 - 10 + 8) % 65536 = 8 + d.data.length by omega]
  have protocol : slice o 13 1 = [17] := by
    rw [← c.protocol]
    exact (slice_overlayHeaders_header c.ipHl_header h5 c.length_header long d.addr_length (a := 9) (by omega)).trans
      (slice_setNatInfo rfl c.fiveWords c.inside (by omega))
  have source : slice o 16 4 = d.addr :=
    slice_overlayHeaders_source c.ipHl_header h5 c.length_header long d.addr_length
  have destination : slice o 20 4 = c.src :=
    (slice_overlayHeaders_header c.ipHl_header h5 c.length_header long d.addr_length (a := 16) (by omega)).trans
      c.header_dest
  rw [← zero, ← protocol, ← length, ← source, ← destination, slice_append o 16 4, slice_append o 14 2,
    slice_append o 13 1, slice_append o 12 1]

/-- The checksum is the complement of the sum over the pseudo-header and what follows it. -/
private theorem builtPacket_checksum (room : 4 * c.ihl + 22 + d.data.length ≤ mem.length) (small : mem.length ≤ 1500) :
    slice (builtPacket c d mem) (4 * c.ihl + 6) 2 =
      hostBytes (65535 - foldCarry (wordsLE (summedBytes c d)).sum) := by
  have h5 : 5 ≤ c.ihl := c.fiveWords
  have tail := overlay_tail (d := d) room small
  set o := overlayHeaders (writeAt mem (4 * c.ihl + 2) d.bytes) c.header d.addr (netWord d.port) (10 + d.data.length)
    with ho
  have inside : 12 + (20 + d.data.length) ≤ o.length := by
    simp only [ho, length_overlayHeaders, length_writeAt]
    omega
  have front : slice o 24 (8 + d.data.length) = (replyTail c d).take (8 + d.data.length) := by
    rw [← tail, slice, slice, List.take_take, Nat.min_eq_left (by omega)]
  have summed : slice o 12 (20 + d.data.length) =
      [0] ++ ([17] ++ (netBytes (8 + d.data.length) ++ (d.addr ++ c.src))) ++
        (replyTail c d).take (8 + d.data.length) := by
    rw [← overlay_pseudo room small, ← front, show 20 + d.data.length = 12 + (8 + d.data.length) by omega]
    exact (slice_append o 12 12 _).symm
  have same : (wordsLE (slice o 12 (20 + d.data.length))).sum = (wordsLE (summedBytes c d)).sum := by
    rw [summed, sum_overlaid d.addr_length c.length_src]
    rfl
  have odd : (10 + d.data.length) % 2 = (slice o 12 (20 + d.data.length)).length % 2 := by
    rw [length_slice_of_le inside]
    omega
  rw [builtPacket, slice_slice (by omega), slice_finishPacket_udpChecksum (ipHl_padded room) h5
    (by rw [length_paddedBuffer]; omega), getChecksum, paddedBuffer, slice_paddle_summed
    (by simp only [length_overlayHeaders, length_writeAt]; omega), ← ho, ← same, odd,
    show 12 + 8 + (10 + d.data.length) - 10 = 20 + d.data.length by omega, sum_wordsLE_padded]

/-- Ports and length as they end up in the packet. -/
private theorem builtPacket_ports (room : 4 * c.ihl + 22 + d.data.length ≤ mem.length) (small : mem.length ≤ 1500) :
    slice (builtPacket c d mem) (4 * c.ihl) 6 = paddedPorts c d := by
  have h5 : 5 ≤ c.ihl := c.fiveWords
  obtain ⟨-, port, srcPort, length, -, -⟩ := overlay_fields (d := d) room small
  rw [slice_builtPacket room (by omega) (by omega), paddedBuffer]
  set o := overlayHeaders (writeAt mem (4 * c.ihl + 2) d.bytes) c.header d.addr (netWord d.port) (10 + d.data.length)
  have ports : slice o (4 + 4 * c.ihl) 6 = d.port ++ (c.srcPort ++ netBytes (8 + d.data.length)) := by
    rw [← port, ← srcPort, ← length]
    simp only [← Nat.add_assoc]
    rw [slice_append o (4 + 4 * c.ihl + 2) 2, slice_append o (4 + 4 * c.ihl) 2]
  simp only [paddle, paddedPorts]
  by_cases odd : d.data.length % 2 = 1
  · rw [if_pos (by omega)]
    by_cases behind : 4 * c.ihl ≤ 28 + d.data.length
    · rw [if_pos ⟨odd, behind⟩, slice_writeAt_inside (by omega), ports]
      congr 1
      omega
    · rw [if_neg (fun both => behind both.2), slice_writeAt_disjoint
        (Or.inr (by simp only [List.length_singleton]; omega)), ports]
  · rw [if_neg (by omega), if_neg (fun both => odd both.1), ports]

private theorem length_paddedPorts : (paddedPorts c d).length = 6 := by
  simp only [paddedPorts]
  split <;> simp [d.port_length, c.length_srcPort]

private theorem hostBytes_eq_zero_iff {n : Nat} (h : n < 65536) : hostBytes n = [0, 0] ↔ n = 0 := by
  constructor
  · intro zero
    have word := congrArg hostWord zero
    simp [hostBytes, hostWord] at word
    omega
  · rintro rfl
    rfl

/-- The packet is accepted exactly when both sides have added up the same, and not to a multiple of 65535. -/
private theorem builtPacket_accepted_iff {data : List UInt8} (room : 4 * c.ihl + 22 + d.data.length ≤ mem.length)
    (small : mem.length ≤ 1500) :
    ChecksumAccepted (builtPacket c d mem) data ↔ (wordsBE (summedBytes c d)).sum % 65535 ≠ 0 ∧
      (wordsBE (pseudoHeader d.addr c.src (8 + data.length) ++ (paddedPorts c d ++ ([0, 0] ++ data)))).sum % 65535 =
        (wordsBE (summedBytes c d)).sum % 65535 := by
  have h5 : 5 ≤ c.ihl := c.fiveWords
  have hl : ipHl (builtPacket c d mem) 0 = c.ihl := ipHl_congr (builtPacket_first room)
  have source : slice (builtPacket c d mem) 12 4 = d.addr :=
    (slice_builtPacket room (by omega) (by omega)).trans (padded_source room)
  have destination : slice (builtPacket c d mem) 16 4 = c.src := by
    rw [slice_builtPacket room (by omega) (by omega), padded_header room (by omega), c.header_dest]
  have header : slice (builtPacket c d mem) (4 * c.ihl) 8 =
      paddedPorts c d ++ hostBytes (65535 - foldCarry (wordsLE (summedBytes c d)).sum) := by
    rw [← builtPacket_ports room small, ← builtPacket_checksum room small]
    exact (slice_append _ (4 * c.ihl) 6 2).symm
  have even : (pseudoHeader d.addr c.src (8 + data.length) ++ paddedPorts c d).length % 2 = 0 := by
    rw [List.length_append, length_pseudoHeader d.addr_length c.length_src, length_paddedPorts]
  have summed := sum_pseudoHeader d.addr_length c.length_src (8 + d.data.length)
    ((replyTail c d).take (8 + d.data.length))
  have front := sum_pseudoHeader d.addr_length c.length_src (8 + data.length) (paddedPorts c d)
  have zeroed : (wordsLE (pseudoHeader d.addr c.src (8 + data.length) ++ (paddedPorts c d ++ ([0, 0] ++ data)))).sum =
      (wordsLE (pseudoHeader d.addr c.src (8 + data.length) ++ paddedPorts c d)).sum + (wordsLE data).sum := by
    rw [← List.append_assoc, wordsLE_append even, List.sum_append]
    simp [wordsLE]
  have total := residue_lt (wordsLE (summedBytes c d)).sum
  have nonzero : (wordsLE (summedBytes c d)).sum ≠ 0 := by
    rw [summedBytes, summed]
    omega
  have stored : slice (builtPacket c d mem) (4 * c.ihl + 6) 2 ≠ [0, 0] ↔
      (wordsBE (summedBytes c d)).sum % 65535 ≠ 0 := by
    rw [ne_eq, builtPacket_checksum room small, hostBytes_eq_zero_iff (by omega), foldCarry_eq_residue]
    have swapped := sum_wordsBE_mod (summedBytes c d)
    have top := residue_eq_max_iff (wordsLE (summedBytes c d)).sum
    omega
  simp only [ChecksumAccepted, hl, source, destination, header]
  rw [stored, sum_wordsBE_congr_iff, zeroed, ← complement_sums_iff even (by omega)]
  simp only [List.append_assoc]

end Sums

section Holds
variable {platform : Platform} {c : ClientPacket} {buf : RecvBuff} {d : RelayDatagram}

private theorem stored_accepted_iff :
    ChecksumAccepted (builtPacket c (storedPart c d) buf.1) d.data ↔ ChecksumRight c d :=
  builtPacket_accepted_iff (storedPart_room c d buf) (Nat.le_of_eq buf.2)

private theorem checksumRight_of_holds (device : platform ≠ .linux) (proper : d.addr ≠ inaddrNone)
    (holds : ChecksumHolds platform c buf d) : ChecksumRight c d :=
  stored_accepted_iff.mp (holds _ (injectedFor_relay device proper))

end Holds

/-- The UDP checksum of every reply is there and accepted exactly when nothing is injected, or the words the session
adds up are those of the receiver modulo 65535 and their sum is no multiple of it. -/
theorem udp_checksum_iff (platform : Platform) (c : ClientPacket) (buf : RecvBuff) (d : RelayDatagram) :
    ChecksumHolds platform c buf d ↔ platform = .linux ∨ d.addr = inaddrNone ∨ ChecksumRight c d := by
  constructor
  · intro holds
    by_cases silent : platform = .linux ∨ d.addr = inaddrNone
    · exact silent.imp_right Or.inl
    · obtain ⟨device, proper⟩ := not_or.mp silent
      exact Or.inr (Or.inr (checksumRight_of_holds device proper holds))
  · intro condition pkt injected
    obtain ⟨device, proper⟩ := proper_of_injected injected
    obtain rfl := List.append_cancel_left (eq_built_of_injected injected)
    rcases condition with silent | silent | right
    · exact absurd silent device
    · exact absurd silent proper
    · exact stored_accepted_iff.mpr right

/-- Without options and with the whole payload the words are the same, and only the sum that complements to zero is
left. -/
theorem checksumRight_of_plain {c : ClientPacket} {d : RelayDatagram} (plain : c.ihl = 5)
    (whole : d.data.length ≤ 1448) : ChecksumRight c d ↔ (wordsBE (summedBytes c d)).sum % 65535 ≠ 0 := by
  have stored : storedPart c d = d := storedPart_whole (by omega)
  have options : c.options = [] := List.eq_nil_of_length_eq_zero (by rw [c.length_options]; omega)
  have ports : paddedPorts c d = d.port ++ (c.srcPort ++ netBytes (8 + d.data.length)) := by
    simp only [paddedPorts, plain]
    split
    · rw [writeAt_past]
      simp only [List.length_append, d.port_length, c.length_srcPort, length_netBytes]
      omega
    · rfl
  have same : checkedBytes c d = summedBytes c d := by
    rw [checkedBytes, summedBytes, stored, ports, List.take_of_length_le (by rw [length_replyTail]; omega), replyTail,
      options]
    simp only [List.nil_append, List.append_assoc]
  rw [ChecksumRight, stored, same]
  simp

/-- Two bytes from 9.9.9.9:53 for which everything adds up to all ones. -/
def zeroSumDatagram : RelayDatagram :=
  { fiveByteDatagram with data := [0xD3, 0xE9] }

/-- With one word of options the wrong words are summed; without options a sum of all ones is stored as zero. -/
theorem checksum_fails : ¬ ChecksumHolds .win32 optionPacket zeroBuff fourByteDatagram ∧
    ¬ ChecksumHolds .win32 queryPacket zeroBuff zeroSumDatagram := by
  have wrong : ¬ ChecksumRight optionPacket fourByteDatagram ∧ ¬ ChecksumRight queryPacket zeroSumDatagram := by
    decide +kernel
  exact ⟨fun holds => wrong.1 (checksumRight_of_holds (by decide) (by decide) holds),
    fun holds => wrong.2 (checksumRight_of_holds (by decide) (by decide) holds)⟩

end Tunosocks.Udp
