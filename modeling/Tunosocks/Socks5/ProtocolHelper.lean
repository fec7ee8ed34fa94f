import Mathlib.Data.List.Infix
import Tunosocks.Foundation.Buffer

/-! The packet helpers of the SOCKS5 layer: addresses go through dotted text on the
way in and on the way out, so both directions are modelled over characters. -/
namespace Tunosocks.Socks5
open Foundation.Buffer

/-- Memory image of a 16-bit value on the little-endian host. -/
def hostBytes (n : Nat) : List UInt8 := [UInt8.ofNat n, UInt8.ofNat (n / 256)]

/-- Memory image of a 16-bit value in network order. -/
def netBytes (n : Nat) : List UInt8 := [UInt8.ofNat (n / 256), UInt8.ofNat n]

/-- The 16-bit value a little-endian host loads from two bytes. -/
def hostWord (b : List UInt8) : Nat := (b.getD 0 0).toNat + 256 * (b.getD 1 0).toNat

/-- The digits `ip4addr_ntoa_r` collects for one octet, least significant first. -/
def octetDigitsRev : Nat → Nat → List Char
  | 0, _ => []
  | fuel + 1, n => Nat.digitChar (n % 10) :: if n / 10 = 0 then [] else octetDigitsRev fuel (n / 10)

def octetDigits (b : UInt8) : List Char := (octetDigitsRev 3 b.toNat).reverse

/-- `ip4addr_ntoa`: every octet is followed by a dot and the last dot is cut off. -/
def ip4addrNtoa (addr : List UInt8) : List Char :=
  (addr.flatMap fun b => octetDigits b ++ ['.']).dropLast

/-- `strtok` run to its end: the non-empty pieces between separators. -/
def strtok (sep : Char) (s : List Char) : List (List Char) :=
  (s.splitOn sep).filter fun piece => !piece.isEmpty

def digitsValue (s : List Char) : Nat :=
  (s.takeWhile Char.isDigit).foldl (fun v c => 10 * v + (c.toNat - '0'.toNat)) 0

/-- `atoi`: blanks, an optional sign, then digits up to the first other character. -/
def atoi (s : List Char) : Int :=
  match s.dropWhile Char.isWhitespace with
  | '-' :: rest => -(digitsValue rest : Int)
  | '+' :: rest => digitsValue rest
  | rest => digitsValue rest

/-- The address loop: each token becomes one byte at the next position. -/
def writeIpFrags (mem : List UInt8) (pos : Nat) : List (List Char) → List UInt8
  | [] => mem
  | tok :: rest => writeIpFrags (writeAt mem pos [UInt8.ofInt (atoi tok)]) (pos + 1) rest

/-- Fills in CMD, ATYP, address and port; VER and RSV keep what the buffer held. -/
def constructSocks5RequestFromIpStringAndPort (mem : List UInt8) (dataIn : Nat) (ip : List Char)
    (port : Nat) : List UInt8 :=
  let mem := writeAt mem (dataIn + 1) [1]
  let mem := writeAt mem (dataIn + 3) [1]
  let mem := writeIpFrags mem (dataIn + 4) (strtok '.' ip)
  let mem := writeAt mem (dataIn + 8) [UInt8.ofNat (port / 256)]
  writeAt mem (dataIn + 9) [UInt8.ofNat port]

/-- The text after an optional `::ffff:`, which the source looks for anywhere but
skips only at the front. -/
def udpAddressText (ip : List Char) : List Char :=
  if ip.tails.any fun t => "::ffff:".toList.isPrefixOf t then ip.drop 7 else ip

/-- The port is taken in network order and copied byte for byte. -/
def constructSocks5UdpPacketFromIpStringAndPort (mem : List UInt8) (dataInOut : Nat) (ip : List Char)
    (port : Nat) : List UInt8 :=
  let mem := writeAt mem dataInOut [0, 0]
  let mem := writeAt mem (dataInOut + 2) [0]
  let mem := writeAt mem (dataInOut + 3) [1]
  let mem := writeIpFrags mem (dataInOut + 4) (strtok '.' (udpAddressText ip))
  let mem := writeAt mem (dataInOut + 8) [UInt8.ofNat port]
  writeAt mem (dataInOut + 9) [UInt8.ofNat (port / 256)]

/-- One octet alternative of `ipPattern`. -/
def octetPattern : List Char → Bool
  | [a] => a.isDigit
  | [a, b] => '1' ≤ a && a ≤ '9' && b.isDigit
  | [a, b, c] =>
    (a == '1' && b.isDigit && c.isDigit) || (a == '2' && '0' ≤ b && b ≤ '4' && c.isDigit) ||
      (a == '2' && b == '5' && '0' ≤ c && c ≤ '5')
  | _ => false

/-- `regex_match` against `ipPattern`: no octet alternative can match a dot. -/
def ipPattern (s : List Char) : Bool :=
  (s.splitOn '.').length == 4 && (s.splitOn '.').all octetPattern

/-- The text and the port, or nothing when the pattern rejects the text. -/
def parseIpPortFromSocks5Request (request : List UInt8) : Option (List Char × Nat) :=
  let temp := slice request 0 10
  let ipOut := ((slice temp 4 3).flatMap fun b => Nat.toDigits 10 b.toNat ++ ['.']) ++
    Nat.toDigits 10 (temp.getD 7 0).toNat
  if ipPattern ipOut then some (ipOut, hostWord [temp.getD 9 0, temp.getD 8 0]) else none

def parseIpPortFromSocks5UdpPacket (packet : List UInt8) : Option (List Char × Nat) :=
  parseIpPortFromSocks5Request packet

def inaddrNone : List UInt8 := [255, 255, 255, 255]

/-- `inet_addr` on dotted quads, the only texts it is given here. -/
def inetAddr (s : List Char) : List UInt8 :=
  if ipPattern s then (s.splitOn '.').map fun t => UInt8.ofNat (digitsValue t) else inaddrNone

@[simp] theorem length_writeIpFrags (mem : List UInt8) (pos : Nat) (toks : List (List Char)) :
    (writeIpFrags mem pos toks).length = mem.length := by
  induction toks generalizing mem pos with
  | nil => rfl
  | cons tok rest ih => rw [writeIpFrags, ih, length_writeAt]

theorem length_constructSocks5RequestFromIpStringAndPort (mem : List UInt8) (dataIn : Nat) (ip : List Char)
    (port : Nat) : (constructSocks5RequestFromIpStringAndPort mem dataIn ip port).length = mem.length := by
  simp only [constructSocks5RequestFromIpStringAndPort, length_writeAt, length_writeIpFrags]

private theorem octet_facts : ∀ n < 256, octetPattern (octetDigits (UInt8.ofNat n)) = true ∧
    digitsValue (octetDigits (UInt8.ofNat n)) = n ∧ atoi (octetDigits (UInt8.ofNat n)) = n ∧
    '.' ∉ octetDigits (UInt8.ofNat n) ∧ ':' ∉ octetDigits (UInt8.ofNat n) ∧
    Nat.toDigits 10 n = octetDigits (UInt8.ofNat n) := by
  decide +kernel

private theorem octet_fact (b : UInt8) : octetPattern (octetDigits b) = true ∧
    digitsValue (octetDigits b) = b.toNat ∧ atoi (octetDigits b) = b.toNat ∧
    '.' ∉ octetDigits b ∧ ':' ∉ octetDigits b ∧ Nat.toDigits 10 b.toNat = octetDigits b := by
  simpa using octet_facts b.toNat b.toNat_lt

private theorem octetDigits_ne_nil (b : UInt8) : octetDigits b ≠ [] := by
  simp [octetDigits, octetDigitsRev]

private theorem ntoa_quad (a b c d : UInt8) : ip4addrNtoa [a, b, c, d] =
    ['.'].intercalate [octetDigits a, octetDigits b, octetDigits c, octetDigits d] := by
  have text : ([a, b, c, d].flatMap fun x => octetDigits x ++ ['.']) =
      ['.'].intercalate [octetDigits a, octetDigits b, octetDigits c, octetDigits d] ++ ['.'] := by
    simp
  rw [ip4addrNtoa, text, List.dropLast_concat]

private theorem ntoa_splitOn (a b c d : UInt8) : (ip4addrNtoa [a, b, c, d]).splitOn '.' =
    [octetDigits a, octetDigits b, octetDigits c, octetDigits d] := by
  rw [ntoa_quad]
  apply List.splitOn_intercalate
  · intro l hl
    simp only [List.mem_cons, List.not_mem_nil, or_false] at hl
    rcases hl with rfl | rfl | rfl | rfl <;> exact (octet_fact _).2.2.2.1
  · simp

private theorem ntoa_no_colon (a b c d : UInt8) : ':' ∉ ip4addrNtoa [a, b, c, d] := by
  rw [ntoa_quad]
  simp [(octet_fact a).2.2.2.2.1, (octet_fact b).2.2.2.2.1, (octet_fact c).2.2.2.2.1,
    (octet_fact d).2.2.2.2.1]

theorem strtok_ntoa (a b c d : UInt8) : strtok '.' (ip4addrNtoa [a, b, c, d]) =
    [octetDigits a, octetDigits b, octetDigits c, octetDigits d] := by
  simp [strtok, ntoa_splitOn, octetDigits_ne_nil]

/-- Printed addresses never look like mapped IPv6 addresses. -/
theorem udpAddressText_ntoa (a b c d : UInt8) :
    udpAddressText (ip4addrNtoa [a, b, c, d]) = ip4addrNtoa [a, b, c, d] := by
  unfold udpAddressText
  rw [if_neg]
  simp only [List.any_eq_true, List.mem_tails, List.isPrefixOf_iff_prefix, not_exists, not_and]
  intro t ht hp
  have hin : ':' ∈ t := hp.subset (by decide)
  exact ntoa_no_colon a b c d (ht.subset hin)

/-- A printed octet is read back. -/
theorem ofInt_atoi_octetDigits (x : UInt8) : UInt8.ofInt (atoi (octetDigits x)) = x := by
  have := x.toNat_lt
  have small : ((x.toNat : Int) % 2 ^ 8) = x.toNat := by omega
  rw [(octet_fact x).2.2.1, UInt8.ofInt, small, Int.toNat_natCast, UInt8.ofNat_toNat]

theorem writeIpFrags_quad (mem : List UInt8) (pos : Nat) (a b c d : UInt8) :
    writeIpFrags mem pos [octetDigits a, octetDigits b, octetDigits c, octetDigits d] =
      writeAt mem pos [a, b, c, d] := by
  simp only [writeIpFrags, ofInt_atoi_octetDigits]
  rw [writeAt_append (by rfl), writeAt_append (by rfl), writeAt_append (by rfl)]
  rfl

theorem ofNat_hostWord (p q : UInt8) : UInt8.ofNat (hostWord [p, q]) = p := by
  apply UInt8.toNat_inj.mp
  have := p.toNat_lt
  simp [hostWord]

theorem ofNat_hostWord_div (p q : UInt8) : UInt8.ofNat (hostWord [p, q] / 256) = q := by
  apply UInt8.toNat_inj.mp
  have := p.toNat_lt
  have := q.toNat_lt
  simp [hostWord]
  omega

/-- The UDP header built from a printed address: ten consecutive bytes, the address
and the port exactly as they stood in the packet. -/
theorem constructSocks5UdpPacket_ntoa (mem : List UInt8) (at' : Nat) (a b c d p q : UInt8) :
    constructSocks5UdpPacketFromIpStringAndPort mem at' (ip4addrNtoa [a, b, c, d]) (hostWord [p, q]) =
      writeAt mem at' [0, 0, 0, 1, a, b, c, d, p, q] := by
  simp only [constructSocks5UdpPacketFromIpStringAndPort, udpAddressText_ntoa, strtok_ntoa,
    writeIpFrags_quad, ofNat_hostWord, ofNat_hostWord_div]
  rw [writeAt_append (by rfl), writeAt_append (by rfl), writeAt_append (by rfl), writeAt_append (by rfl),
    writeAt_append (by rfl)]
  rfl

/-- The parser inverts printing on every address and reads the port big-endian. -/
theorem parseIpPort_quad (r0 r1 r2 r3 a b c d p q : UInt8) (rest : List UInt8) :
    parseIpPortFromSocks5UdpPacket (r0 :: r1 :: r2 :: r3 :: a :: b :: c :: d :: p :: q :: rest) =
      some (ip4addrNtoa [a, b, c, d], hostWord [q, p]) := by
  have text : ((slice [r0, r1, r2, r3, a, b, c, d, p, q] 4 3).flatMap fun b => Nat.toDigits 10 b.toNat ++ ['.']) ++
      Nat.toDigits 10 d.toNat = ip4addrNtoa [a, b, c, d] := by
    rw [ntoa_quad]
    simp [slice, (octet_fact _).2.2.2.2.2]
  have accepted : ipPattern (ip4addrNtoa [a, b, c, d]) = true := by
    simp [ipPattern, ntoa_splitOn, (octet_fact _).1]
  have front : slice (r0 :: r1 :: r2 :: r3 :: a :: b :: c :: d :: p :: q :: rest) 0 10 =
      [r0, r1, r2, r3, a, b, c, d, p, q] := rfl
  simp only [parseIpPortFromSocks5UdpPacket, parseIpPortFromSocks5Request, front]
  simp [text, accepted]

theorem inetAddr_ntoa (a b c d : UInt8) : inetAddr (ip4addrNtoa [a, b, c, d]) = [a, b, c, d] := by
  simp [inetAddr, ipPattern, ntoa_splitOn, (octet_fact _).1, (octet_fact _).2.1]

end Tunosocks.Socks5
