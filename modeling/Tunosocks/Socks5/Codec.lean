import Tunosocks.Socks5.Patterns

/-! What the protocol helper writes and reads back: dotted quads in requests and UDP headers, domain names in
requests. -/
namespace Tunosocks.Socks5
open Foundation.Buffer

/-- A byte as the character it is in a `std::string`. -/
def byteChar (b : UInt8) : Char := Char.ofNat b.toNat

/-- The value of a plain `char`, which is signed. -/
def signedChar (b : UInt8) : Int := if b.toNat < 128 then b.toNat else b.toNat - 256

/-- Result, `domain_out` and `port_out`. A negative length runs the loop zero times. -/
def parseDomainPortFromSocks5Request (request : List UInt8) (portOut : Nat) : Bool × List Char × Nat :=
  let domainLength := signedChar (request.getD 4 0)
  let domainOut := (slice request 5 domainLength.toNat).map byteChar
  if domainPattern domainOut then
    (true, domainOut, hostWord [request.getD (domainLength + 6).toNat 0, request.getD (domainLength + 5).toNat 0])
  else (false, [], portOut)

/-- Header, length byte, name and port in network order. -/
def domainRequest (header name : List UInt8) (port : Nat) : List UInt8 :=
  header ++ ([UInt8.ofNat name.length] ++ (name ++ netBytes port))

/-- The parser returns the name and the port when the pattern matches, and otherwise nothing. -/
def DomainParsed (header name : List UInt8) (port portOut : Nat) : Prop :=
  parseDomainPortFromSocks5Request (domainRequest header name port) portOut =
    if domainPattern (name.map byteChar) then (true, name.map byteChar, port) else (false, [], portOut)

/-- A constructor has turned `mem` into `built` from the tokens of an address: the ten bytes at `at'` parse to its text
and `port`, its bytes are in place and nothing around the ten has changed. -/
structure RoundTrips (mem built : List UInt8) (at' : Nat) (tokens : List (List Char))
    (parse : List UInt8 → Option (List Char × Nat)) (address : List UInt8) (port : Nat) : Prop where
  parsed : parse (slice built at' 10) = some (ip4addrNtoa address, port)
  fields : tokens.length = 4
  stored : slice built (at' + 4) 4 = address
  around : ∀ i, i < at' ∨ at' + 10 ≤ i → built[i]? = mem[i]?

theorem hostWord_hostBytes {port : Nat} (h : port < 65536) :
    hostWord [UInt8.ofNat port, UInt8.ofNat (port / 256)] = port := by
  simp [hostWord]
  omega

section Addresses
variable {mem : List UInt8} {at' port : Nat} (a b c d : UInt8)

/-- The request built from a printed address: VER and RSV are not among the bytes written. -/
theorem constructSocks5Request_ntoa (mem : List UInt8) (at' port : Nat) :
    constructSocks5RequestFromIpStringAndPort mem at' (ip4addrNtoa [a, b, c, d]) port =
      writeAt (writeAt mem (at' + 1) [1]) (at' + 3) ([1, a, b, c, d] ++ netBytes port) := by
  simp only [constructSocks5RequestFromIpStringAndPort, strtok_ntoa, writeIpFrags_quad]
  rw [writeAt_append (by rfl), writeAt_append (by rfl), writeAt_append (by rfl)]
  rfl

/-- The mapped text names the same address. -/
theorem udpAddressText_mapped : udpAddressText ("::ffff:".toList ++ ip4addrNtoa [a, b, c, d]) =
    udpAddressText (ip4addrNtoa [a, b, c, d]) := by
  rw [udpAddressText_ntoa, udpAddressText, if_pos]
  · rfl
  · rw [List.any_eq_true]
    exact ⟨"::ffff:".toList ++ ip4addrNtoa [a, b, c, d], (List.mem_tails _ _).mpr (List.suffix_refl _), by simp⟩

/-- The UDP header for either text of an address. -/
private theorem constructSocks5UdpPacket_either {ip : List Char}
    (hip : ip ∈ [ip4addrNtoa [a, b, c, d], "::ffff:".toList ++ ip4addrNtoa [a, b, c, d]]) (hp : port < 65536) :
    constructSocks5UdpPacketFromIpStringAndPort mem at' ip port =
      writeAt mem at' ([0, 0, 0, 1, a, b, c, d] ++ hostBytes port) := by
  have same : constructSocks5UdpPacketFromIpStringAndPort mem at' ip port =
      constructSocks5UdpPacketFromIpStringAndPort mem at' (ip4addrNtoa [a, b, c, d]) port := by
    rcases List.mem_pair.mp hip with rfl | rfl
    · rfl
    · simp only [constructSocks5UdpPacketFromIpStringAndPort, udpAddressText_mapped]
  have built := constructSocks5UdpPacket_ntoa mem at' a b c d (UInt8.ofNat port) (UInt8.ofNat (port / 256))
  rw [hostWord_hostBytes hp] at built
  rw [same, built]
  rfl

private theorem length_strtok_ntoa : (strtok '.' (ip4addrNtoa [a, b, c, d])).length = 4 := by
  rw [strtok_ntoa]
  rfl

private theorem request_round_trips (room : at' + 10 ≤ mem.length) (hp : port < 65536) :
    RoundTrips mem (constructSocks5RequestFromIpStringAndPort mem at' (ip4addrNtoa [a, b, c, d]) port) at'
      (strtok '.' (ip4addrNtoa [a, b, c, d])) parseIpPortFromSocks5Request [a, b, c, d] port := by
  have built := constructSocks5Request_ntoa a b c d mem at' port
  generalize constructSocks5RequestFromIpStringAndPort mem at' (ip4addrNtoa [a, b, c, d]) port = request at built
  have tail : slice request (at' + 3) 7 = [1, a, b, c, d] ++ netBytes port := by
    rw [built, slice_writeAt_same (by rfl)]
    simpa only [length_writeAt] using room
  refine ⟨?_, length_strtok_ntoa a b c d, ?_, ?_⟩
  · obtain ⟨r0, r1, r2, front⟩ : ∃ r0 r1 r2, slice request at' 3 = [r0, r1, r2] := by
      apply List.length_eq_three.mp
      rw [length_slice_of_le]
      rw [built, length_writeAt, length_writeAt]
      omega
    rw [← slice_append request at' 3 7, front, tail]
    refine (parseIpPort_quad r0 r1 r2 1 a b c d _ _ []).trans ?_
    rw [hostWord_hostBytes hp]
  · rw [show at' + 4 = at' + 3 + 1 by omega, ← slice_slice (show 1 + 4 ≤ 7 by decide), tail]
    rfl
  · intro i outside
    rw [built, getElem?_writeAt_outside (by simp [netBytes]; omega), getElem?_writeAt_outside (by simp; omega)]

private theorem udpPacket_round_trips (room : at' + 10 ≤ mem.length) (hp : port < 65536) {ip : List Char}
    (hip : ip ∈ [ip4addrNtoa [a, b, c, d], "::ffff:".toList ++ ip4addrNtoa [a, b, c, d]]) :
    RoundTrips mem (constructSocks5UdpPacketFromIpStringAndPort mem at' ip port) at'
      (strtok '.' (udpAddressText ip)) parseIpPortFromSocks5UdpPacket [a, b, c, d] (hostWord (netBytes port)) := by
  have built : constructSocks5UdpPacketFromIpStringAndPort mem at' ip port =
      writeAt mem at' ([0, 0, 0, 1, a, b, c, d] ++ hostBytes port) := constructSocks5UdpPacket_either a b c d hip hp
  generalize constructSocks5UdpPacketFromIpStringAndPort mem at' ip port = packet at built
  have bytes : slice packet at' 10 = [0, 0, 0, 1, a, b, c, d] ++ hostBytes port := by
    rw [built, slice_writeAt_same (by rfl) room]
  refine ⟨?_, ?_, ?_, ?_⟩
  · rw [bytes]
    exact parseIpPort_quad 0 0 0 1 a b c d _ _ []
  · rcases List.mem_pair.mp hip with rfl | rfl
    · rw [udpAddressText_ntoa]
      exact length_strtok_ntoa a b c d
    · rw [udpAddressText_mapped, udpAddressText_ntoa]
      exact length_strtok_ntoa a b c d
  · rw [← slice_slice (show 4 + 4 ≤ 10 by decide), bytes]
    rfl
  · intro i outside
    rw [built, getElem?_writeAt_outside (by simp [hostBytes]; omega)]

/-- Both constructors for every address and port: the parser gives back the text, and the port as it was or, for one
taken in network order, byte-swapped; ten bytes at most change, and the address loop stores four. -/
theorem address_codec_round_trip (room : at' + 10 ≤ mem.length) (hp : port < 65536) :
    RoundTrips mem (constructSocks5RequestFromIpStringAndPort mem at' (ip4addrNtoa [a, b, c, d]) port) at'
        (strtok '.' (ip4addrNtoa [a, b, c, d])) parseIpPortFromSocks5Request [a, b, c, d] port ∧
      ∀ ip ∈ [ip4addrNtoa [a, b, c, d], "::ffff:".toList ++ ip4addrNtoa [a, b, c, d]],
        RoundTrips mem (constructSocks5UdpPacketFromIpStringAndPort mem at' ip port) at'
          (strtok '.' (udpAddressText ip)) parseIpPortFromSocks5UdpPacket [a, b, c, d]
          (hostWord (netBytes port)) := by
  constructor
  · exact request_round_trips a b c d room hp
  · intro ip hip
    exact udpPacket_round_trips a b c d room hp hip

theorem address_codec_round_trip_loopback : 0 + 10 ≤ (List.replicate 10 0 : List UInt8).length ∧
    parseIpPortFromSocks5Request (slice (constructSocks5RequestFromIpStringAndPort (List.replicate 10 0) 0
      (ip4addrNtoa [127, 0, 0, 1]) 443) 0 10) = some (ip4addrNtoa [127, 0, 0, 1], 443) :=
  ⟨by decide, (address_codec_round_trip 127 0 0 1 (by decide) (by decide)).1.parsed⟩

end Addresses

section Domains
variable {header name : List UInt8} {port : Nat}

private theorem getD_behind (x y : List UInt8) {i k : Nat} (h : i = x.length + k) :
    (x ++ y).getD i 0 = y.getD k 0 := by
  rw [h, List.getD_eq_getElem?_getD, List.getElem?_append_right (by omega), Nat.add_sub_cancel_left,
    List.getD_eq_getElem?_getD]

private theorem slice_domainRequest (h4 : header.length = 4) :
    slice (domainRequest header name port) 5 name.length = name := by
  have front : domainRequest header name port = (header ++ [UInt8.ofNat name.length]) ++ (name ++ netBytes port) := by
    simp [domainRequest]
  rw [front, slice, List.drop_left' (by simp [h4]), List.take_left]

private theorem domainPattern_nil : domainPattern [] = false := by
  rw [← Bool.not_eq_true]
  intro accepted
  exact absurd (length_of_domainPattern accepted).1 (by decide)

private theorem lengthByte_domainRequest (h4 : header.length = 4) :
    (domainRequest header name port).getD 4 0 = UInt8.ofNat name.length :=
  getD_behind header _ (k := 0) (by omega)

private theorem portByte_domainRequest (h4 : header.length = 4) (k : Nat) :
    (domainRequest header name port).getD ((name.length : Int) + 5 + k).toNat 0 = (netBytes port).getD k 0 := by
  rw [domainRequest, ← List.append_assoc, ← List.append_assoc]
  apply getD_behind
  simp only [List.length_append, h4, List.length_cons, List.length_nil]
  omega

private theorem toNat_lengthByte (fits : name.length ≤ 255) : (UInt8.ofNat name.length).toNat = name.length := by
  rw [UInt8.toNat_ofNat']
  omega

/-- A length below 128 is read as it is. -/
private theorem domainParsed_short (h4 : header.length = 4) (hp : port < 65536) (portOut : Nat)
    (short : name.length < 128) : DomainParsed header name port portOut := by
  have signed : signedChar (UInt8.ofNat name.length) = name.length := by
    rw [signedChar, toNat_lengthByte (by omega), if_pos short]
  simp only [DomainParsed, parseDomainPortFromSocks5Request, lengthByte_domainRequest h4, signed, Int.toNat_natCast,
    slice_domainRequest h4]
  split
  · rw [show (name.length : Int) + 6 = name.length + 5 + (1 : Nat) by omega, portByte_domainRequest h4 1,
      show (name.length : Int) + 5 = name.length + 5 + (0 : Nat) by omega, portByte_domainRequest h4 0]
    exact congrArg (fun p => (true, name.map byteChar, p)) (hostWord_hostBytes hp)
  · rfl

/-- A length from 128 on is negative, and the copy loop takes nothing. -/
private theorem parseDomain_long (h4 : header.length = 4) (fits : name.length ≤ 255) (portOut : Nat)
    (long : ¬ name.length < 128) :
    parseDomainPortFromSocks5Request (domainRequest header name port) portOut = (false, [], portOut) := by
  have signed : (signedChar (UInt8.ofNat name.length)).toNat = 0 := by
    rw [signedChar, toNat_lengthByte fits, if_neg long]
    omega
  simp only [parseDomainPortFromSocks5Request, lengthByte_domainRequest h4, signed]
  exact if_neg (by rw [slice, List.take_zero, List.map_nil, domainPattern_nil]; exact Bool.false_ne_true)

/-- A name is parsed right unless the pattern matches it and its length does not fit a signed `char`. -/
theorem domain_parsed_iff (h4 : header.length = 4) (fits : name.length ≤ 255) (hp : port < 65536) (portOut : Nat) :
    DomainParsed header name port portOut ↔
      (domainPattern (name.map byteChar) = true → name.length < 128) := by
  by_cases short : name.length < 128
  · exact iff_of_true (domainParsed_short h4 hp portOut short) fun _ => short
  · rw [DomainParsed, parseDomain_long h4 fits portOut short]
    split
    · rename_i accepted
      exact ⟨fun same => absurd (congrArg Prod.fst same) Bool.false_ne_true, fun few => absurd (few accepted) short⟩
    · rename_i refused
      exact ⟨fun _ accepted => absurd accepted refused, fun _ => rfl⟩

end Domains

theorem domain_parsed_iff_short : DomainParsed [5, 1, 0, 3] [97, 46, 99, 111, 109] 443 0 :=
  (domain_parsed_iff rfl (by decide) (by decide) 0).mpr fun _ => by decide

/-- Two labels of 63 letters and `com`, 131 bytes in all. -/
def longName : List UInt8 := List.replicate 63 97 ++ (46 :: (List.replicate 63 97 ++ [46, 99, 111, 109]))

theorem long_name_rejected : ¬DomainParsed [5, 1, 0, 3] longName 443 0 := by
  have accepted : domainPattern (longName.map byteChar) = true := by
    refine (domainPattern_iff _).mpr ⟨[List.replicate 63 'a', List.replicate 63 'a'], "com".toList, ?_⟩
    have letters : label.Accepts (List.replicate 63 'a') := by
      apply Or.inl
      refine Foundation.Regex.Pattern.accepts_rep_symbol.mpr ⟨by simp, by simp, fun c mem => ?_⟩
      rw [List.eq_of_mem_replicate mem]
      decide
    refine ⟨by decide, by simpa using letters, by decide, by decide, List.all_eq_true.mp rfl, by decide⟩
  have rejected : (parseDomainPortFromSocks5Request (domainRequest [5, 1, 0, 3] longName 443) 0).1 = false := by
    decide +kernel
  intro parsed
  rw [DomainParsed, if_pos accepted] at parsed
  rw [parsed] at rejected
  exact Bool.noConfusion rejected

end Tunosocks.Socks5
