import Tunosocks.Foundation.Footprint
import Tunosocks.Udp.Relay

/-! `PacketHandler::Input` and `UdpHandler::Handle` as the accesses they make to the memory around the packet, which
starts at address 0 of `tun_recv_buff_`. -/
namespace Tunosocks.PacketHandler
open Foundation Foundation.Access Foundation.Buffer Socks5 Udp

/-- Where the IP header starts in what the device delivers. -/
def ipOffset : Platform → Nat
  | .win32 => 0
  | .apple | .linux => 4

inductive InputEvent where
  | udp (e : UdpEvent)
  /-- A packet is given to lwIP. -/
  | segment (bytes : List UInt8)
  /-- An assertion has failed or lwIP was given a null pointer; either ends the process. -/
  | aborted
  deriving DecidableEq, Repr

def isMulticast (ip : List UInt8) : Bool := 224 ≤ ip.getD 0 0 && ip.getD 0 0 ≤ 239

def isReservedAddress (ip : List UInt8) : Bool := ip.getD 0 0 == 10 || ip.getD 0 0 == 127

/-- `UdpFilter::Pass` -/
def pass (ipDst : List UInt8) : Bool := !isMulticast ipDst && !isReservedAddress ipDst

def pbufIp : Nat := 34

def pbufRaw : Nat := 0

/-- `pbuf_alloc` of a `PBUF_RAM`: a payload length that does not fit 16 bits is refused. -/
def pbufAlloc (layer length : Nat) : Bool := decide (length ≤ (layer + length) % 65536)

/-- `pbuf_take` into a fresh buffer; both lengths are cut to 16 bits. -/
def pbufTake (layer : Nat) (dataptr : Int) (len : Nat) : Access Int UInt8 (Option (List UInt8)) := do
  if pbufAlloc layer (len % 65536) then
    let bytes ← readRange dataptr (len % 65536)
    return some bytes
  else return none

def writeIpFrags (pos : Int) : List (List Char) → Access Int UInt8 Unit
  | [] => pure ()
  | tok :: rest => do
    write pos (UInt8.ofInt (atoi tok))
    writeIpFrags (pos + 1) rest

def constructSocks5UdpPacketFromIpStringAndPort (dataInOut : Int) (ip : List Char) (port : Nat) :
    Access Int UInt8 Unit := do
  writeRange dataInOut [0, 0]
  write (dataInOut + 2) 0
  write (dataInOut + 3) 1
  writeIpFrags (dataInOut + 4) (strtok '.' (udpAddressText ip))
  write (dataInOut + 8) (UInt8.ofNat port)
  write (dataInOut + 9) (UInt8.ofNat (port / 256))

def sendPacketToRemote (i : Nat) (s : UdpSession) (data : Int) (size : Nat) : Access Int UInt8 (List UdpEvent) := do
  match ← pbufTake pbufRaw data size with
  | none => return []
  | some bytes => return if bytes.length = size then [.sentTo i s.recvEp bytes] else [.aborted]

def ipHl (ipHeader : Int) : Access Int UInt8 Nat := do
  let vhl ← read ipHeader
  return (vhl &&& 0x0f).toNat

/-- The headers are copied and swapped in the copy, which lies on the heap. -/
def setNatInfo (ipHeader : Int) : Access Int UInt8 (List UInt8) := do
  let hl ← ipHl ipHeader
  let saved ← readRange ipHeader (4 * hl + 8)
  return Udp.setNatInfo saved 0

/-- The end of `Handle`, for a new and for a known session. -/
def relay (i : Nat) (s : UdpSession) (ipHeader udpHeader : Int) (sendLength : Nat) :
    Access Int UInt8 (List UdpEvent) := do
  let dest ← readRange (ipHeader + 16) 4
  let port ← readRange (udpHeader + 2) 2
  constructSocks5UdpPacketFromIpStringAndPort (udpHeader - 2) (ip4addrNtoa dest) (hostWord port)
  sendPacketToRemote i s (udpHeader - 2) sendLength

def handle (server : Endpoint) (fresh : RecvBuff) (h : UdpHandler) (ipHeader : Int) :
    Access Int UInt8 (UdpHandler × List UdpEvent) := do
  let hl ← ipHl ipHeader
  let udpHeader := ipHeader + 4 * hl
  let len ← readRange (udpHeader + 4) 2
  let sendLength := netWord len + 2
  let key ← readRange udpHeader 8
  match h.find key with
  | none =>
    let i := h.udpSessionMap.length
    let header ← setNatInfo ipHeader
    if natInfoOverruns hl then return (h, [.overrun])
    else
      let s := newSession server fresh header
      let out ← relay i s ipHeader udpHeader sendLength
      return ({ h with udpSessionMap := h.udpSessionMap ++ [(key, s)] }, out)
  | some i =>
    match h.session i with
    | none => return (h, [])
    | some s =>
      let out ← relay i s ipHeader udpHeader sendLength
      return (h, out)

/-- UDP goes to the handler unless the filter holds it back. -/
def inputUdp (server : Endpoint) (fresh : RecvBuff) (h : UdpHandler) (ipHeader : Int) :
    Access Int UInt8 (UdpHandler × List InputEvent) := do
  let dest ← readRange (ipHeader + 16) 4
  if pass dest then
    let r ← handle server fresh h ipHeader
    return (r.1, r.2.map .udp)
  else return (h, [])

/-- Other packets go to lwIP in a buffer of their own; the subtraction is on 64 bits. -/
def inputSegment (platform : Platform) (size : Nat) : Access Int UInt8 (List InputEvent) := do
  let length := (size + 2 ^ 64 - ipOffset platform) % 2 ^ 64
  match ← pbufTake pbufIp (ipOffset platform) length with
  | none => return [.aborted]
  | some bytes => return if bytes.length = length then [.segment bytes] else [.aborted]

def input (platform : Platform) (server : Endpoint) (fresh : RecvBuff) (h : UdpHandler) (size : Nat) :
    Access Int UInt8 (UdpHandler × List InputEvent) := do
  let ipHeader : Int := ipOffset platform
  let vhl ← read ipHeader
  if (vhl &&& 0xf0) >>> 4 ≠ 4 then return (h, [])
  else
    let proto ← read (ipHeader + 9)
    if proto = 17 then inputUdp server fresh h ipHeader
    else if proto ≠ 6 ∧ proto ≠ 17 ∧ proto ≠ 1 then return (h, [])
    else
      let out ← inputSegment platform size
      return (h, out)

/-! ### What the parts touch -/

section Parts
variable {m : Int → UInt8} {size : Nat}

@[simp] theorem exec_ipHl (ipHeader : Int) : (ipHl ipHeader).exec m = ((m ipHeader &&& 0x0f).toNat, m) := rfl

@[simp] theorem stays_ipHl {R : Set Int} (ipHeader : Int) : (ipHl ipHeader).Stays R m ↔ ipHeader ∈ R := by
  simp [ipHl]

@[simp] theorem exec_setNatInfo (ipHeader : Int) : (setNatInfo ipHeader).exec m =
    (Udp.setNatInfo (window m ipHeader (4 * (m ipHeader &&& 0x0f).toNat + 8)) 0, m) := by
  simp [setNatInfo]

private theorem stays_setNatInfo (ipHeader : Int) : (setNatInfo ipHeader).Stays (Set.Ico 0 (size : Int)) m ↔
    0 ≤ ipHeader ∧ ipHeader + 4 * (m ipHeader &&& 0x0f).toNat + 8 ≤ size := by
  simp only [setNatInfo, stays_bind, stays_ipHl, exec_ipHl, stays_readRange, exec_readRange, stays_pure, and_true,
    Set.mem_Ico]
  omega

@[simp] theorem exec_pbufTake (layer : Nat) (a : Int) (len : Nat) : (pbufTake layer a len).exec m =
    (if pbufAlloc layer (len % 65536) then some (window m a (len % 65536)) else none, m) := by
  unfold pbufTake
  split <;> simp

private theorem stays_pbufTake (layer : Nat) (a : Int) (len : Nat) :
    (pbufTake layer a len).Stays (Set.Ico 0 (size : Int)) m ↔
      (pbufAlloc layer (len % 65536) = true → len % 65536 = 0 ∨ 0 ≤ a ∧ a + (len % 65536 : Nat) ≤ size) := by
  unfold pbufTake
  split
  · next allocated => simp [allocated, stays_readRange]
  · next refused => simp [refused]

theorem pbufAlloc_raw (len : Nat) : pbufAlloc pbufRaw (len % 65536) = true := by
  simp [pbufAlloc, pbufRaw]

/-- The ten bytes of the relay header, written one after the other. -/
private theorem construct_ntoa (at' : Int) (a b c d p q : UInt8) :
    constructSocks5UdpPacketFromIpStringAndPort at' (ip4addrNtoa [a, b, c, d]) (hostWord [p, q]) =
      writeRange at' [0, 0, 0, 1, a, b, c, d, p, q] := by
  simp only [constructSocks5UdpPacketFromIpStringAndPort, udpAddressText_ntoa, strtok_ntoa, writeIpFrags,
    ofInt_atoi_octetDigits, ofNat_hostWord, ofNat_hostWord_div, writeRange, add_assoc, Int.reduceAdd]
  rfl

private theorem stays_relay (i : Nat) (s : UdpSession) (ipHeader udpHeader : Int) (sendLength : Nat) :
    (relay i s ipHeader udpHeader sendLength).Stays (Set.Ico 0 (size : Int)) m ↔
      0 ≤ ipHeader + 16 ∧ ipHeader + 20 ≤ size ∧ 2 ≤ udpHeader ∧ udpHeader + 8 ≤ size ∧
        udpHeader + (sendLength % 65536 : Nat) ≤ size + 2 := by
  have sent (a : Int) (n : Int → UInt8) : (sendPacketToRemote i s a sendLength).Stays (Set.Ico 0 (size : Int)) n ↔
      sendLength % 65536 = 0 ∨ 0 ≤ a ∧ a + (sendLength % 65536 : Nat) ≤ size := by
    simp [sendPacketToRemote, stays_pbufTake, pbufAlloc_raw]
  simp only [relay, stays_bind, exec_readRange, stays_readRange, window, construct_ntoa, stays_writeRange, sent]
  simp only [List.length_cons, List.length_nil, reduceCtorEq, false_or]
  omega

/-- `Handle` needs the headers, and unless it overruns the copy it saves of them two bytes before the UDP header and as
many bytes as the UDP header announces. -/
theorem stays_handle (server : Endpoint) (fresh : RecvBuff) (h : UdpHandler) {ipHeader udpHeader : Int} {hl : Nat}
    (front : 0 ≤ ipHeader) (words : (m ipHeader &&& 0x0f).toNat = hl) (at_ : udpHeader = ipHeader + 4 * hl) :
    (handle server fresh h ipHeader).Stays (Set.Ico 0 (size : Int)) m ↔
      ipHeader < size ∧ udpHeader + 8 ≤ size ∧ ((h.find (window m udpHeader 8) = none → 3 ≤ hl) →
        ipHeader + 20 ≤ size ∧ 2 ≤ udpHeader ∧
          udpHeader + ((netWord (window m (udpHeader + 4) 2) + 2) % 65536 : Nat) ≤ size + 2) := by
  simp only [handle, stays_bind, stays_ipHl, exec_ipHl, exec_readRange, stays_readRange, words, ← at_, Set.mem_Ico]
  cases found : h.find (window m udpHeader 8) with
  | none =>
    simp only [stays_bind, exec_setNatInfo, stays_setNatInfo, words, forall_const]
    cases short : natInfoOverruns hl with
    | true =>
      have few : ¬ 3 ≤ hl := fun enough => by rw [natInfoOverruns_eq_false.mpr enough] at short; cases short
      simp only [if_true, stays_pure, and_true, few, false_implies]
      omega
    | false =>
      have enough := natInfoOverruns_eq_false.mp short
      simp only [Bool.false_eq_true, if_false, stays_bind, stays_relay, stays_pure, and_true, enough, forall_const]
      omega
  | some i =>
    obtain ⟨entry, he, -⟩ := find_session found
    have known : h.session i = some entry.2 := by rw [UdpHandler.session, he, Option.map_some]
    simp only [known, stays_bind, stays_relay, stays_pure, and_true, reduceCtorEq, false_implies, forall_const]
    omega

/-- What `Handle` does that is seen, apart from the overrun. -/
private theorem relay_event {i : Nat} {s : UdpSession} {ipHeader udpHeader : Int} {sendLength : Nat} {e : UdpEvent}
    (he : e ∈ ((relay i s ipHeader udpHeader sendLength).exec m).1) : e = .aborted ∨ ∃ d, e = .sentTo i s.recvEp d := by
  simp only [relay, sendPacketToRemote, exec_bind, exec_readRange, exec_pbufTake, pbufAlloc_raw, if_true, exec_pure]
    at he
  split at he
  · exact Or.inr ⟨_, List.mem_singleton.mp he⟩
  · exact Or.inl (List.mem_singleton.mp he)

theorem handle_event {server : Endpoint} {fresh : RecvBuff} {h : UdpHandler} {ipHeader : Int} {hl : Nat} {e : UdpEvent}
    (words : (m ipHeader &&& 0x0f).toNat = hl) (he : e ∈ ((handle server fresh h ipHeader).exec m).1.2) :
    e = .overrun ∧ h.find (window m (ipHeader + 4 * hl) 8) = none ∧ hl < 3 ∨ e = .aborted ∨
      ∃ i dest d, e = .sentTo i dest d := by
  have relayed {i : Nat} {s : UdpSession} {udpHeader : Int} {sendLength : Nat} {m : Int → UInt8}
      (he : e ∈ ((relay i s ipHeader udpHeader sendLength).exec m).1) :
      e = .aborted ∨ ∃ i dest d, e = .sentTo i dest d := by
    rcases relay_event he with aborted | ⟨d, sent⟩
    · exact Or.inl aborted
    · exact Or.inr ⟨_, _, d, sent⟩
  simp only [handle, exec_bind, exec_ipHl, exec_readRange, words] at he
  cases found : h.find (window m (ipHeader + 4 * hl) 8) with
  | none =>
    simp only [found, exec_bind, exec_setNatInfo] at he
    cases short : natInfoOverruns hl with
    | true =>
      simp only [short, if_true, exec_pure] at he
      exact Or.inl ⟨List.mem_singleton.mp he, rfl, by have := of_decide_eq_true short; omega⟩
    | false =>
      simp only [short, Bool.false_eq_true, if_false, exec_bind, exec_pure] at he
      exact Or.inr (relayed he)
  | some i =>
    cases known : h.session i with
    | none =>
      simp only [found, known, exec_pure] at he
      cases he
    | some s =>
      simp only [found, known, exec_bind, exec_pure] at he
      exact Or.inr (relayed he)

/-- The copy is overrun when a session is opened for a header of less than three words. -/
private theorem overrun_handle_iff {server : Endpoint} {fresh : RecvBuff} {h : UdpHandler} {ipHeader : Int} {hl : Nat}
    (words : (m ipHeader &&& 0x0f).toNat = hl) :
    .overrun ∈ ((handle server fresh h ipHeader).exec m).1.2 ↔
      h.find (window m (ipHeader + 4 * hl) 8) = none ∧ hl < 3 := by
  constructor
  · intro he
    rcases handle_event words he with ⟨-, short⟩ | aborted | ⟨_, _, _, sent⟩
    · exact short
    · cases aborted
    · cases sent
  · rintro ⟨absent, few⟩
    have short : natInfoOverruns hl = true := decide_eq_true (by omega)
    simp only [handle, exec_bind, exec_ipHl, exec_readRange, words, absent, exec_setNatInfo, short, if_true, exec_pure,
      List.mem_singleton]

/-- On the way to lwIP the size is respected. -/
private theorem stays_inputSegment {platform : Platform} (long : ipOffset platform ≤ size) :
    (inputSegment platform size).Stays (Set.Ico 0 (size : Int)) m := by
  have taken : (pbufTake pbufIp (ipOffset platform) ((size + 2 ^ 64 - ipOffset platform) % 2 ^ 64)).Stays
      (Set.Ico 0 (size : Int)) m := by
    rw [stays_pbufTake]
    omega
  simp only [inputSegment, stays_bind]
  refine ⟨taken, ?_⟩
  split <;> exact stays_pure _

-- stated for any length, or the subtraction on 64 bits would be evaluated
private theorem not_udp_of_taken {a : Int} {length : Nat} (e : UdpEvent) : .udp e ∉ ((do
    match ← pbufTake pbufIp a length with
    | none => return [.aborted]
    | some bytes => return if bytes.length = length then [.segment bytes] else [.aborted] :
      Access Int UInt8 (List InputEvent)).exec m).1 := by
  simp only [exec_bind, exec_pbufTake]
  cases pbufAlloc pbufIp (length % 65536) with
  | false => simp
  | true =>
    simp only [if_true, exec_pure]
    split <;> simp

theorem not_udp_of_inputSegment {platform : Platform} (e : UdpEvent) :
    .udp e ∉ ((inputSegment platform size).exec m).1 := by
  unfold inputSegment
  exact not_udp_of_taken e

end Parts

/-- Where the UDP header starts, for a packet that passes as UDP: two bytes before it, the header itself and as much as
its length announces are there, and a session is opened only for an IP header of three words or more. -/
def FitsUdp (h : UdpHandler) (packet : List UInt8) (hl udp : Nat) : Prop :=
  2 ≤ udp ∧ udp + 8 ≤ packet.length ∧ udp + (netWord (slice packet (udp + 4) 2) + 2) % 65536 ≤ packet.length + 2 ∧
    (h.find (slice packet udp 8) = none → 3 ≤ hl)

instance (h : UdpHandler) (packet : List UInt8) (hl udp : Nat) : Decidable (FitsUdp h packet hl udp) := by
  unfold FitsUdp
  infer_instance

/-- The packet holds its IP header as far as `Input` looks at it and, if it is UDP for an address that passes, what
`Handle` looks at. -/
def Fits (platform : Platform) (h : UdpHandler) (packet : List UInt8) : Prop :=
  let ip := ipOffset platform
  let hl := Udp.ipHl packet ip
  ip < packet.length ∧ ((packet.getD ip 0 &&& 0xf0) >>> 4 = 4 →
    ip + 9 < packet.length ∧ (packet.getD (ip + 9) 0 = 17 →
      ip + 20 ≤ packet.length ∧ (pass (slice packet (ip + 16) 4) = true → FitsUdp h packet hl (ip + 4 * hl))))

instance (platform : Platform) (h : UdpHandler) (packet : List UInt8) : Decidable (Fits platform h packet) := by
  unfold Fits
  infer_instance

section Fits
variable {platform : Platform} {server : Endpoint} {fresh : RecvBuff} {h : UdpHandler} {packet : List UInt8}
  {rest : Int → UInt8}

/-- `Handle` on a packet whose IP header is there. -/
private theorem sound_handle_iff {ip hl udp : Nat} (header : ip + 20 ≤ packet.length) (words : hl = Udp.ipHl packet ip)
    (at_ : udp = ip + 4 * hl) :
    ((handle server fresh h ip).Stays (Set.Ico 0 (packet.length : Int)) (overlay packet rest) ∧
      .overrun ∉ ((handle server fresh h ip).exec (overlay packet rest)).1.2) ↔ FitsUdp h packet hl udp := by
  have vhl : overlay packet rest ip = packet.getD ip 0 := overlay_inside (by omega) 0
  have low : (overlay packet rest ip &&& 0x0f).toNat = hl := by rw [vhl, words, Udp.ipHl]
  have place : (udp : Int) = ip + 4 * (hl : Int) := by omega
  rw [stays_handle server fresh h (Int.natCast_nonneg ip) low place, overrun_handle_iff low, ← place, FitsUdp]
  by_cases inside : udp + 8 ≤ packet.length
  · have length : window (overlay packet rest) ((udp : Int) + 4) 2 = slice packet (udp + 4) 2 := by
      exact_mod_cast window_overlay (show udp + 4 + 2 ≤ packet.length by omega)
    rw [length, window_overlay inside, not_and, Nat.not_lt]
    constructor
    · rintro ⟨⟨-, -, fits⟩, enough⟩
      obtain ⟨-, front, room⟩ := fits enough
      exact ⟨by omega, inside, by omega, enough⟩
    · rintro ⟨front, -, room, enough⟩
      exact ⟨⟨by omega, by omega, fun _ => by omega⟩, enough⟩
  · omega

private theorem sound_inputUdp_iff {ip hl udp : Nat} (words : hl = Udp.ipHl packet ip) (at_ : udp = ip + 4 * hl) :
    ((inputUdp server fresh h ip).Stays (Set.Ico 0 (packet.length : Int)) (overlay packet rest) ∧
      .udp .overrun ∉ ((inputUdp server fresh h ip).exec (overlay packet rest)).1.2) ↔
      ip + 20 ≤ packet.length ∧ (pass (slice packet (ip + 16) 4) = true → FitsUdp h packet hl udp) := by
  have address : ((4 : Nat) = 0 ∨ 0 ≤ (ip : Int) + 16 ∧ (ip : Int) + 16 + (4 : Nat) ≤ packet.length) ↔
      ip + 20 ≤ packet.length := by omega
  simp only [inputUdp, stays_bind, stays_readRange, exec_bind, exec_readRange, address, and_assoc]
  refine and_congr_right fun header => ?_
  have dest : window (overlay packet rest) ((ip : Int) + 16) 4 = slice packet (ip + 16) 4 := by
    exact_mod_cast window_overlay (show ip + 16 + 4 ≤ packet.length by omega)
  rw [dest]
  by_cases passes : pass (slice packet (ip + 16) 4) = true
  · have mapped (out : List UdpEvent) : InputEvent.udp .overrun ∈ out.map .udp ↔ .overrun ∈ out := by simp
    simp only [passes, if_true, stays_bind, stays_pure, and_true, forall_const, exec_bind, exec_pure, mapped]
    exact sound_handle_iff header words at_
  · simp [passes]

private theorem sound_input_iff :
    ((input platform server fresh h packet.length).Stays (Set.Ico 0 (packet.length : Int)) (overlay packet rest) ∧
      .udp .overrun ∉ ((input platform server fresh h packet.length).exec (overlay packet rest)).1.2) ↔
      Fits platform h packet := by
  have byte {k : Nat} (inside : k < packet.length) : overlay packet rest k = packet.getD k 0 :=
    overlay_inside inside 0
  have first : (0 ≤ (ipOffset platform : Int) ∧ (ipOffset platform : Int) < packet.length) ↔
      ipOffset platform < packet.length := by omega
  have tenth : (0 ≤ (ipOffset platform : Int) + 9 ∧ (ipOffset platform : Int) + 9 < packet.length) ↔
      ipOffset platform + 9 < packet.length := by omega
  -- the way to lwIP is named, or its projections would be evaluated
  obtain ⟨segment, named⟩ : ∃ segment, segment = inputSegment platform packet.length := ⟨_, rfl⟩
  have quiet : .udp .overrun ∉ (segment.exec (overlay packet rest)).1 := by
    rw [named]
    exact not_udp_of_inputSegment _
  unfold input
  rw [← named]
  simp only [stays_bind, stays_read, exec_bind, exec_read, Set.mem_Ico, Fits, first, and_assoc]
  refine and_congr_right fun begins => ?_
  by_cases version : (packet.getD (ipOffset platform) 0 &&& 0xf0) >>> 4 = 4
  · simp only [byte begins, version, ne_eq, not_true_eq_false, if_false, stays_bind, stays_read, exec_bind, exec_read,
      Set.mem_Ico, tenth, forall_const, and_assoc]
    refine and_congr_right fun protocol => ?_
    have proto : overlay packet rest ((ipOffset platform : Int) + 9) = packet.getD (ipOffset platform + 9) 0 := by
      exact_mod_cast byte protocol
    by_cases isUdp : packet.getD (ipOffset platform + 9) 0 = 17
    · simp only [proto, isUdp, if_true, forall_const]
      exact sound_inputUdp_iff rfl rfl
    · simp only [proto, isUdp, if_false, false_implies, iff_true]
      split
      · simp
      · simp only [stays_bind, stays_pure, and_true, exec_bind, exec_pure]
        exact ⟨named ▸ stays_inputSegment (Nat.le_of_lt begins), quiet⟩
  · simp only [byte begins, version, ne_eq, not_false_eq_true, if_true, stays_pure, false_implies, exec_pure,
      List.not_mem_nil, and_self]

end Fits

/-- A run of `Input` stays inside the packet and inside the copy it saves of the headers, and what it forwards does not
depend on what lies around the packet. -/
structure Confined (platform : Platform) (server : Endpoint) (fresh : RecvBuff) (h : UdpHandler)
    (packet : List UInt8) : Prop where
  inside : ∀ rest : Int → UInt8,
    (input platform server fresh h packet.length).Stays (Set.Ico 0 (packet.length : Int)) (overlay packet rest)
  saved : ∀ rest : Int → UInt8,
    .udp .overrun ∉ ((input platform server fresh h packet.length).exec (overlay packet rest)).1.2
  same : ∀ rest rest' : Int → UInt8, ((input platform server fresh h packet.length).exec (overlay packet rest)).1 =
    ((input platform server fresh h packet.length).exec (overlay packet rest')).1

private theorem confined_of_fits {platform : Platform} {h : UdpHandler} {packet : List UInt8}
    (fits : Fits platform h packet) (server : Endpoint) (fresh : RecvBuff) :
    Confined platform server fresh h packet := by
  refine ⟨fun rest => (sound_input_iff.mpr fits).1, fun rest => (sound_input_iff.mpr fits).2, fun rest rest' => ?_⟩
  have stays : (input platform server fresh h packet.length).Stays (Set.Ico 0 (packet.length : Int))
      (overlay packet rest') := (sound_input_iff.mpr fits).1
  exact (stays.frame (eqOn_overlay packet rest' rest)).1

/-- `Input` stays inside a packet exactly when the packet holds what its header fields announce and no session is opened
for an IP header of less than three words. -/
theorem input_confined_iff (platform : Platform) (server : Endpoint) (fresh : RecvBuff) (h : UdpHandler)
    (packet : List UInt8) : Confined platform server fresh h packet ↔ Fits platform h packet := by
  constructor
  · intro confined
    exact sound_input_iff.mp ⟨confined.inside fun _ => 0, confined.saved fun _ => 0⟩
  · intro fits
    exact confined_of_fits fits server fresh

example : Fits .win32 ⟨[], [], 0⟩ queryPacket.mem := by decide

/-- A packet from 10.8.0.2:4000 to 9.9.9.9:53 that ends with its UDP header, which announces one byte more. -/
def cutPacket : List UInt8 :=
  [0x45, 0, 0, 28, 0, 1, 0, 0, 64, 17, 0, 0, 10, 8, 0, 2, 9, 9, 9, 9, 0x0F, 0xA0, 0, 53, 0, 9, 0, 0]

/-- The byte behind the packet is sent to the server, whatever it is. -/
theorem leftover_byte_is_sent :
    (∀ left ∈ [7, 8], ((input .win32 proxyServer zeroBuff ⟨[], [], 0⟩ cutPacket.length).exec
      (overlay cutPacket fun _ => left)).1.2 = [.udp (.sentTo 0 proxyServer [0, 0, 0, 1, 9, 9, 9, 9, 0, 53, left])]) ∧
    ¬ Confined .win32 proxyServer zeroBuff ⟨[], [], 0⟩ cutPacket := by
  have sent : ∀ left ∈ [7, 8], ((input .win32 proxyServer zeroBuff ⟨[], [], 0⟩ cutPacket.length).exec
      (overlay cutPacket fun _ => left)).1.2 =
        [.udp (.sentTo 0 proxyServer [0, 0, 0, 1, 9, 9, 9, 9, 0, 53, left])] := by decide +kernel
  refine ⟨sent, fun confined => ?_⟩
  have same := congrArg Prod.snd (confined.same (fun _ => 7) fun _ => 8)
  rw [sent 7 (by simp), sent 8 (by simp)] at same
  simp at same

/-! ### `Handle` on a buffer that holds the whole packet -/

section Refinement
variable {mem : List UInt8} {rest : Int → UInt8} {ip udp : Nat}

private theorem setNatInfo_slice (mem : List UInt8) (ip : Nat) :
    Udp.setNatInfo (slice mem ip (4 * Udp.ipHl mem ip + 8)) 0 = Udp.setNatInfo mem ip := by
  have first : slice (slice mem ip (4 * Udp.ipHl mem ip + 8)) 0 1 = slice mem ip 1 := by
    rw [slice_slice (by omega), Nat.add_zero]
  have same : Udp.ipHl (slice mem ip (4 * Udp.ipHl mem ip + 8)) 0 = Udp.ipHl mem ip := by
    rw [Udp.ipHl, getD_congr first, ← Udp.ipHl]
  have whole : slice (slice mem ip (4 * Udp.ipHl mem ip + 8)) 0 (4 * Udp.ipHl mem ip + 8) =
      slice mem ip (4 * Udp.ipHl mem ip + 8) := by
    rw [slice_slice (Nat.le_of_eq (Nat.zero_add _)), Nat.add_zero]
  simp only [Udp.setNatInfo, same, whole]

private theorem exec_sendPacketToRemote (i : Nat) (s : UdpSession) {data size : Nat}
    (inside : data + size % 65536 ≤ mem.length) :
    (sendPacketToRemote i s data size).exec (overlay mem rest) =
      (Udp.sendPacketToRemote i s mem data size, overlay mem rest) := by
  simp only [sendPacketToRemote, exec_bind, exec_pbufTake, pbufAlloc_raw, if_true, window_overlay inside, exec_pure,
    length_slice_of_le inside, Udp.sendPacketToRemote]
  split
  · next whole => rw [whole]
  · rfl

/-- The relay header is written in place and the datagram is sent. -/
private theorem exec_relay (i : Nat) (s : UdpSession) (sendLength : Nat) (header : ip + 20 ≤ mem.length)
    (front : 2 ≤ udp)
    (inside : udp + 8 ≤ mem.length) (room : udp + sendLength % 65536 ≤ mem.length + 2) :
    ((relay i s ip udp sendLength).exec (overlay mem rest)).1 = Udp.sendPacketToRemote i s
      (Socks5.constructSocks5UdpPacketFromIpStringAndPort mem (udp - 2) (ip4addrNtoa (slice mem (ip + 16) 4))
        (hostWord (slice mem (udp + 2) 2))) (udp - 2) sendLength := by
  have dest : window (overlay mem rest) ((ip : Int) + 16) 4 = slice mem (ip + 16) 4 := by
    exact_mod_cast window_overlay (show ip + 16 + 4 ≤ mem.length by omega)
  have port : window (overlay mem rest) ((udp : Int) + 2) 2 = slice mem (udp + 2) 2 := by
    exact_mod_cast window_overlay (show udp + 2 + 2 ≤ mem.length by omega)
  have start : (udp : Int) - 2 = ((udp - 2 : Nat) : Int) := by omega
  simp only [relay, exec_bind, exec_readRange, dest, port, start]
  obtain ⟨a, b, c, d, quad⟩ := exists_quad (length_slice_of_le (show ip + 16 + 4 ≤ mem.length by omega))
  obtain ⟨p, q, pair⟩ := exists_pair (length_slice_of_le (show udp + 2 + 2 ≤ mem.length by omega))
  have written : udp - 2 + [0, 0, 0, 1, a, b, c, d, p, q].length ≤ mem.length := by
    change udp - 2 + 10 ≤ mem.length
    omega
  rw [quad, pair, constructSocks5UdpPacket_ntoa, construct_ntoa, exec_writeRange_overlay written]
  exact congrArg Prod.fst (exec_sendPacketToRemote i s (by rw [length_writeAt]; omega))

/-- On a buffer that holds what the headers announce `Handle` is the step of the UDP machine. -/
theorem exec_handle (server : Endpoint) (fresh : RecvBuff) (h : UdpHandler) (header : ip + 20 ≤ mem.length)
    (at_ : udp = ip + 4 * Udp.ipHl mem ip) (front : 2 ≤ udp) (inside : udp + 8 ≤ mem.length)
    (room : udp + (netWord (slice mem (udp + 4) 2) + 2) % 65536 ≤ mem.length + 2)
    (enough : h.find (slice mem udp 8) = none → 3 ≤ Udp.ipHl mem ip) (rest : Int → UInt8) :
    ∃ i, Udp.handle server fresh h mem ip = (((handle server fresh h ip).exec (overlay mem rest)).1.1,
      .forwarded i (slice mem (ip + 12) 4) (slice mem udp 2) ::
        ((handle server fresh h ip).exec (overlay mem rest)).1.2) := by
  have vhl : overlay mem rest ip = mem.getD ip 0 := overlay_inside (by omega) 0
  have hl : (overlay mem rest ip &&& 0x0f).toNat = Udp.ipHl mem ip := by rw [vhl, Udp.ipHl]
  have place : (ip : Int) + 4 * (Udp.ipHl mem ip : Nat) = udp := by omega
  have length : window (overlay mem rest) ((udp : Int) + 4) 2 = slice mem (udp + 4) 2 := by
    exact_mod_cast window_overlay (show udp + 4 + 2 ≤ mem.length by omega)
  have key : window (overlay mem rest) udp 8 = slice mem udp 8 := window_overlay inside
  have saved : window (overlay mem rest) ip (4 * Udp.ipHl mem ip + 8) = slice mem ip (4 * Udp.ipHl mem ip + 8) :=
    window_overlay (by omega)
  simp only [handle, exec_bind, exec_ipHl, hl, place, exec_readRange, length, key, Udp.handle, ← at_]
  cases found : h.find (slice mem udp 8) with
  | none =>
    refine ⟨h.udpSessionMap.length, ?_⟩
    simp only [natInfoOverruns_eq_false.mpr (enough found), Bool.false_eq_true, if_false, exec_bind, exec_setNatInfo,
      hl, saved, setNatInfo_slice, exec_pure, exec_relay _ _ _ header front inside room]
  | some i =>
    obtain ⟨entry, he, -⟩ := find_session found
    have known : h.session i = some entry.2 := by rw [UdpHandler.session, he, Option.map_some]
    refine ⟨i, ?_⟩
    simp only [known, exec_bind, exec_pure, exec_relay _ _ _ header front inside room]

/-- A UDP packet that fits and passes the filter makes `Input` a step of the UDP machine. -/
theorem input_handles {platform : Platform} {h : UdpHandler} (fits : Fits platform h mem)
    (version : (mem.getD (ipOffset platform) 0 &&& 0xf0) >>> 4 = 4)
    (protocol : mem.getD (ipOffset platform + 9) 0 = 17) (passes : pass (slice mem (ipOffset platform + 16) 4) = true)
    (server : Endpoint) (fresh : RecvBuff) (rest : Int → UInt8) :
    ∃ i src srcPort out, Udp.handle server fresh h mem (ipOffset platform) =
        (((input platform server fresh h mem.length).exec (overlay mem rest)).1.1, .forwarded i src srcPort :: out) ∧
      ((input platform server fresh h mem.length).exec (overlay mem rest)).1.2 = out.map .udp := by
  obtain ⟨begins, fits⟩ := fits
  obtain ⟨tenth, fits⟩ := fits version
  obtain ⟨header, fits⟩ := fits protocol
  obtain ⟨front, inside, room, enough⟩ := fits passes
  have vhl : overlay mem rest (ipOffset platform) = mem.getD (ipOffset platform) 0 := overlay_inside begins 0
  have proto : overlay mem rest ((ipOffset platform : Int) + 9) = mem.getD (ipOffset platform + 9) 0 := by
    exact_mod_cast overlay_inside tenth 0
  have dest : window (overlay mem rest) ((ipOffset platform : Int) + 16) 4 = slice mem (ipOffset platform + 16) 4 := by
    exact_mod_cast window_overlay (show ipOffset platform + 16 + 4 ≤ mem.length by omega)
  have passed : ((input platform server fresh h mem.length).exec (overlay mem rest)).1 =
      (((handle server fresh h (ipOffset platform)).exec (overlay mem rest)).1.1,
        ((handle server fresh h (ipOffset platform)).exec (overlay mem rest)).1.2.map .udp) := by
    simp only [input, inputUdp, exec_bind, exec_read, vhl, version, ne_eq, not_true_eq_false, if_false, proto, protocol,
      if_true, exec_readRange, dest, passes, exec_pure]
  obtain ⟨i, handled⟩ := exec_handle server fresh h header rfl front inside room enough rest
  simp only [passed, handled]
  exact ⟨i, _, _, _, rfl, rfl⟩

end Refinement

/-! ### The receive loop -/

/-- `TUN_RECV_COROUTINE`: every read puts a packet at the front of one buffer and passes it on. -/
def tunRecv (platform : Platform) (server : Endpoint) :
    List (List UInt8 × RecvBuff) → UdpHandler → (Int → UInt8) → List InputEvent
  | [], _, _ => []
  | (packet, fresh) :: rest, h, buff =>
    let r := (input platform server fresh h packet.length).exec (overlay packet buff)
    r.1.2 ++ tunRecv platform server rest r.1.1 r.2

/-- Nothing an earlier packet left in the buffer comes through, if every packet fits whatever sessions there are. -/
theorem tunRecv_forgets {platform : Platform} {packets : List (List UInt8 × RecvBuff)}
    (fits : ∀ p ∈ packets, ∀ h, Fits platform h p.1) (server : Endpoint) (h : UdpHandler) (buff buff' : Int → UInt8) :
    tunRecv platform server packets h buff = tunRecv platform server packets h buff' := by
  induction packets generalizing h buff buff' with
  | nil => rfl
  | cons p rest ih =>
    obtain ⟨first, others⟩ := List.forall_mem_cons.mp fits
    have same := (confined_of_fits (first h) server p.2).same buff buff'
    simp only [tunRecv, same]
    exact congrArg _ (ih others _ _ _)

end Tunosocks.PacketHandler
