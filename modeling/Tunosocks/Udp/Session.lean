import Tunosocks.Foundation.OnesComplement
import Tunosocks.Socks5.ProtocolHelper

/-! The per-client UDP session: the header it saves, the checksums it computes and
the reply packet it builds in place around a received relay datagram. -/
namespace Tunosocks.Udp
open Foundation.Buffer Foundation.OnesComplement Socks5

/-- Where the code runs; the three builds differ in what they hand to the device. -/
inductive Platform where
  | win32
  | apple
  | linux
  deriving DecidableEq, Repr

def udpRemoteRecvBuffSize : Nat := 1500

/-- `_v_hl & 0x0f` of the IP header at an offset, in 32-bit words. -/
def ipHl (mem : List UInt8) (ipHeader : Nat) : Nat := (mem.getD ipHeader 0 &&& 0x0f).toNat

/-- `SetNatInfo` swaps the addresses at bytes 12 to 19 of a copy of `4 * hl + 8` bytes, which is too short for them
below three words. -/
def natInfoOverruns (hl : Nat) : Bool := decide (4 * hl + 8 < 20)

theorem natInfoOverruns_eq_false {hl : Nat} : natInfoOverruns hl = false ↔ 3 ≤ hl := by
  rw [natInfoOverruns, decide_eq_false_iff_not]
  omega

/-- The bytes of `ip_udp_header_`: the packet's headers with both ends swapped, in a copy that is not overrun. -/
def setNatInfo (mem : List UInt8) (ipHeader : Nat) : List UInt8 :=
  let hl := ipHl mem ipHeader
  let saved := slice mem ipHeader (4 * hl + 8)
  let tmpIp := slice saved 16 4
  let saved := writeAt saved 16 (slice saved 12 4)
  let saved := writeAt saved 12 tmpIp
  let tmpPort := slice saved (4 * hl + 2) 2
  let saved := writeAt saved (4 * hl + 2) (slice saved (4 * hl) 2)
  writeAt saved (4 * hl) tmpPort

/-- The checksum loop over host words, folded and complemented to 16 bits. -/
def getChecksum (bytes : List UInt8) : Nat := 65535 - foldCarry (wordsLE bytes).sum

def calculateIpCheckSum (buf : List UInt8) (ipHeader : Nat) : List UInt8 :=
  let buf := writeAt buf (ipHeader + 10) [0, 0]
  let count := 4 * ipHl buf ipHeader
  writeAt buf (ipHeader + 10) (hostBytes (65535 - foldCarry (wordsLE (slice buf ipHeader count)).sum))

/-- Where `async_receive_from` stores a datagram, for a saved header of this size. -/
def recvOffset (header : List UInt8) : Nat := 4 + header.length - 10

def recvWindow (header : List UInt8) : Nat := udpRemoteRecvBuffSize - 4 - 10 - header.length

/-- The kernel's part of `async_receive_from`: what does not fit is discarded. -/
def receiveFrom (buf header datagram : List UInt8) : List UInt8 × Nat :=
  let stored := datagram.take (recvWindow header)
  (writeAt buf (recvOffset header) stored, stored.length)

/-- Headers, source address and pseudo-header laid over the IP header at byte 4.
`udpl` is kept to 16 bits as `htons` does. -/
def overlayHeaders (buf header : List UInt8) (srcIp : List UInt8) (srcPort bytesRead : Nat) : List UInt8 :=
  let udpl := (bytesRead + 65536 - 10 + 8) % 65536
  let buf := writeAt buf 4 header
  let buf := writeAt buf (4 + 12) srcIp
  let buf := writeAt buf 12 [0]
  let buf := writeAt buf 14 (netBytes udpl)
  let udpHeader := 4 + 4 * ipHl buf 4
  let buf := writeAt buf udpHeader (netBytes srcPort)
  let buf := writeAt buf (udpHeader + 4) (slice buf 14 2)
  writeAt buf (udpHeader + 6) [0, 0]

/-- The zero the source appends so that the checksummed length is even. -/
def paddle (buf : List UInt8) (bytesRead : Nat) : List UInt8 :=
  let checksumLen := 12 + 8 + bytesRead - 10
  if checksumLen % 2 ≠ 0 then writeAt buf (12 + checksumLen) [0] else buf

/-- Checksum, restored header fields, total length, TTL and header checksum. The
field that held `udpl` gets back the cleared `mbz`, not what was there before. -/
def finishPacket (buf : List UInt8) (savedMbz savedUdpl : UInt8) (bytesRead : Nat) : List UInt8 :=
  let hl := ipHl buf 4
  let checksumLen := 12 + 8 + bytesRead - 10
  let udpChecksum := getChecksum (slice buf 12 (checksumLen + checksumLen % 2))
  let buf := writeAt buf (4 + 4 * hl + 6) (hostBytes udpChecksum)
  let buf := writeAt buf 12 [savedMbz]
  let buf := writeAt buf 14 (hostBytes savedUdpl.toNat)
  let buf := writeAt buf 6 (netBytes ((bytesRead + 65536 - 10 + 4 * hl + 8) % 65536))
  let buf := writeAt buf 12 [64]
  calculateIpCheckSum buf 4

/-- The buffer and the region of it given to `TuntapHelper::Inject`, if any. -/
def injection (platform : Platform) (buf : List UInt8) (bytesRead : Nat) : List UInt8 × Option (Nat × Nat) :=
  let size := (ipHl buf 4 * 4 + 8 + bytesRead + 2 ^ 64 - 10) % 2 ^ 64
  match platform with
  | .win32 => (buf, some (4, size))
  | .apple => (writeAt buf 0 [0, 0, 0, 2], some (0, size + 4))
  | .linux => (buf, none)

/-- `readFromRemote` after a successful receive of `bytesRead` bytes. -/
def readFromRemote (platform : Platform) (buf header : List UInt8) (bytesRead : Nat) :
    List UInt8 × Option (Nat × Nat) :=
  match parseIpPortFromSocks5UdpPacket (slice buf (recvOffset header) 10) with
  | none => (buf, none)
  | some (srcIp, srcPort) =>
    if inetAddr srcIp = inaddrNone then (buf, none)
    else
      let savedMbz := (writeAt buf 4 header).getD 12 0
      let buf := overlayHeaders buf header (inetAddr srcIp) srcPort bytesRead
      let savedUdpl := buf.getD 12 0
      injection platform (finishPacket (paddle buf bytesRead) savedMbz savedUdpl bytesRead) bytesRead

/-- The bytes the device is given for a region of the receive buffer. -/
def injectedBytes (r : List UInt8 × Option (Nat × Nat)) : Option (List UInt8) :=
  r.2.map fun region => slice r.1 region.1 region.2

end Tunosocks.Udp
