import Tunosocks.Udp.Layout

/-! Client packets and relay datagrams in memory, and the header a session saves
from a client packet. -/
namespace Tunosocks.Udp
open Foundation.Buffer Socks5

/-- The value of two bytes in network order. -/
def netWord (b : List UInt8) : Nat := 256 * (b.getD 0 0).toNat + (b.getD 1 0).toNat

theorem exists_pair {l : List UInt8} (h : l.length = 2) : ∃ a b, l = [a, b] :=
  match l, h with
  | [a, b], _ => ⟨a, b, rfl⟩

theorem exists_quad {l : List UInt8} (h : l.length = 4) : ∃ a b c d, l = [a, b, c, d] :=
  match l, h with
  | [a, b, c, d], _ => ⟨a, b, c, d, rfl⟩

theorem netBytes_netWord {l : List UInt8} (hl : l.length = 2) : netBytes (netWord l) = l := by
  obtain ⟨p, q, rfl⟩ := exists_pair hl
  have hp := p.toNat_lt
  have hq := q.toNat_lt
  have high : UInt8.ofNat (netWord [p, q] / 256) = p := by
    apply UInt8.toNat_inj.mp
    simp [netWord]
    omega
  have low : UInt8.ofNat (netWord [p, q]) = q := by
    apply UInt8.toNat_inj.mp
    simp [netWord]
  rw [netBytes, high, low]

theorem netWord_netBytes {n : Nat} (h : n < 65536) : netWord (netBytes n) = n := by
  simp [netWord, netBytes]
  omega

theorem netWord_eq_iff {l : List UInt8} {n : Nat} (hl : l.length = 2) (h : n < 65536) :
    netWord l = n ↔ l = netBytes n := by
  constructor
  · intro he
    rw [← he, netBytes_netWord hl]
  · rintro rfl
    exact netWord_netBytes h

/-- An IPv4/UDP packet in memory, with its headers inside the buffer. -/
structure ClientPacket where
  mem : List UInt8
  ipHeader : Nat
  version : (mem.getD ipHeader 0).toNat / 16 = 4
  fiveWords : 5 ≤ ipHl mem ipHeader
  protocol : slice mem (ipHeader + 9) 1 = [17]
  inside : ipHeader + 4 * ipHl mem ipHeader + 8 ≤ mem.length

namespace ClientPacket
variable (c : ClientPacket)

def ihl : Nat := ipHl c.mem c.ipHeader
def options : List UInt8 := slice c.mem (c.ipHeader + 20) (4 * c.ihl - 20)
def src : List UInt8 := slice c.mem (c.ipHeader + 12) 4
def dest : List UInt8 := slice c.mem (c.ipHeader + 16) 4
def srcPort : List UInt8 := slice c.mem (c.ipHeader + 4 * c.ihl) 2
def destPort : List UInt8 := slice c.mem (c.ipHeader + 4 * c.ihl + 2) 2
def header : List UInt8 := setNatInfo c.mem c.ipHeader

end ClientPacket

/-- A relay datagram `RSV FRAG 01 A P D`. -/
structure RelayDatagram where
  rsv : List UInt8
  frag : UInt8
  addr : List UInt8
  port : List UInt8
  data : List UInt8
  rsv_length : rsv.length = 2
  addr_length : addr.length = 4
  port_length : port.length = 2

def RelayDatagram.bytes (d : RelayDatagram) : List UInt8 :=
  d.rsv ++ [d.frag, 1] ++ d.addr ++ d.port ++ d.data

theorem RelayDatagram.length_bytes (d : RelayDatagram) : d.bytes.length = 10 + d.data.length := by
  simp only [RelayDatagram.bytes, List.length_append, List.length_cons, List.length_nil, d.rsv_length,
    d.addr_length, d.port_length]

namespace ClientPacket

theorem length_header (c : ClientPacket) : c.header.length = 4 * c.ihl + 8 :=
  length_setNatInfo rfl c.inside

theorem ipHl_header (c : ClientPacket) : ipHl c.header 0 = c.ihl :=
  ipHl_congr (slice_setNatInfo rfl c.fiveWords c.inside (by omega))

theorem ihl_le (c : ClientPacket) : c.ihl ≤ 15 := by
  rw [ihl, ipHl, UInt8.toNat_and]
  exact Nat.and_le_right

theorem header_options (c : ClientPacket) : slice c.header 20 (4 * c.ihl - 20) = c.options :=
  slice_setNatInfo rfl c.fiveWords c.inside (by have := c.fiveWords; unfold ihl; omega)

theorem header_dest (c : ClientPacket) : slice c.header 16 4 = c.src :=
  (slice_setNatInfo_ends rfl c.fiveWords c.inside).2.1

theorem header_destPort (c : ClientPacket) : slice c.header (4 * c.ihl + 2) 2 = c.srcPort :=
  (slice_setNatInfo_ends rfl c.fiveWords c.inside).2.2.2

theorem length_options (c : ClientPacket) : c.options.length = 4 * c.ihl - 20 :=
  length_slice_of_le (by have := c.fiveWords; have := c.inside; unfold ihl; omega)

theorem length_srcPort (c : ClientPacket) : c.srcPort.length = 2 :=
  length_slice_of_le (by have := c.inside; unfold ihl; omega)

end ClientPacket

end Tunosocks.Udp
