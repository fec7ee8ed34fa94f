import Tunosocks.Foundation.Machine
import Tunosocks.Udp.Packet

/-! The UDP handler as a machine: client packets, datagrams from any sender, the
receive loops of the sessions and the device taking injected packets, in any order. -/
namespace Tunosocks.Udp
open Foundation Foundation.Buffer Socks5

structure Endpoint where
  address : UInt32
  port : UInt16
  deriving DecidableEq, Repr

inductive SessionStatus where
  | closed
  | relaying
  deriving DecidableEq, Repr

/-- Where the receive loop of a session stands. A completed `async_receive_from`
waits as `received` or `failed` until the coroutine is resumed. -/
inductive Receiver where
  | receiving
  | received (bytesRead : Nat)
  | failed
  | ended
  deriving DecidableEq, Repr

/-- `remote_recv_buff_`, whose size never changes. -/
abbrev RecvBuff := { buf : List UInt8 // buf.length = udpRemoteRecvBuffSize }

structure UdpSession where
  sessionStatus : SessionStatus
  recvEp : Endpoint
  ipUdpHeader : List UInt8
  remoteRecvBuff : RecvBuff
  receiver : Receiver

/-- A packet handed to `TuntapHelper::Inject` by address, not yet taken by the device. -/
structure Injection where
  index : Nat
  session : Nat
  off : Nat
  len : Nat
  deriving DecidableEq, Repr

/-- The sessions are owned by the map and never leave it; a session's number is its
position. `injections` counts the packets injected so far. -/
structure UdpHandler where
  udpSessionMap : List (List UInt8 × UdpSession)
  pending : List Injection
  injections : Nat

inductive UdpEvent where
  | forwarded (session : Nat) (src srcPort : List UInt8)
  | sentTo (session : Nat) (dest : Endpoint) (datagram : List UInt8)
  | receivedFrom (session : Nat) (sender : Endpoint) (datagram : List UInt8)
  | injected (index session : Nat) (packet : List UInt8)
  | taken (index : Nat) (packet : List UInt8)
  /-- `SetNatInfo` has reached behind its copy of the headers; the code is followed up to here. -/
  | overrun
  /-- An assertion has failed, which ends the process. -/
  | aborted
  deriving DecidableEq, Repr

inductive UdpAct where
  | input (packet : ClientPacket) (fresh : RecvBuff)
  | receive (session : Nat) (sender : Endpoint) (datagram : List UInt8)
  | receiveError (session : Nat)
  | sendError (session : Nat)
  | resume (session : Nat)
  | take (position : Nat)

/-- `UDP_HEADER_EQUAL`: only the source port counts. -/
def udpHeaderEqual (lhs rhs : List UInt8) : Bool := slice lhs 0 2 == slice rhs 0 2

namespace UdpHandler
variable (h : UdpHandler)

def session (i : Nat) : Option UdpSession := h.udpSessionMap[i]?.map Prod.snd

def find (udpHeader : List UInt8) : Option Nat :=
  h.udpSessionMap.findIdx? fun entry => udpHeaderEqual entry.1 udpHeader

def setSession (i : Nat) (s : UdpSession) : UdpHandler :=
  { h with udpSessionMap := h.udpSessionMap.modify i fun entry => (entry.1, s) }

end UdpHandler

/-- The datagram is copied into a pbuf, whose length is kept in 16 bits and asserted
to be the size; it goes to whatever `recv_ep_` is at that moment. -/
def sendPacketToRemote (i : Nat) (s : UdpSession) (mem : List UInt8) (data size : Nat) : List UdpEvent :=
  if size % 65536 = size then [.sentTo i s.recvEp (slice mem data size)] else [.aborted]

/-- A new session after `SetSocks5ServerEndpoint`, `SetNatInfo` and `Run`. -/
def newSession (server : Endpoint) (fresh : RecvBuff) (header : List UInt8) : UdpSession where
  sessionStatus := .relaying
  recvEp := server
  ipUdpHeader := header
  remoteRecvBuff := fresh
  receiver := .receiving

/-- `UdpHandler::Handle`. The saved header is taken before the packet is rewritten in
place; address and port are read before the first byte is replaced. -/
def handle (server : Endpoint) (fresh : RecvBuff) (h : UdpHandler) (mem : List UInt8) (ipHeader : Nat) :
    UdpHandler × List UdpEvent :=
  let udpHeader := ipHeader + 4 * ipHl mem ipHeader
  let socks5UdpPacket := udpHeader - 2
  let sendLength := netWord (slice mem (udpHeader + 4) 2) + 2
  let relayed := constructSocks5UdpPacketFromIpStringAndPort mem socks5UdpPacket
    (ip4addrNtoa (slice mem (ipHeader + 16) 4)) (hostWord (slice mem (udpHeader + 2) 2))
  let source i := UdpEvent.forwarded i (slice mem (ipHeader + 12) 4) (slice mem udpHeader 2)
  match h.find (slice mem udpHeader 8) with
  | none =>
    if natInfoOverruns (ipHl mem ipHeader) then (h, [.overrun])
    else
      let i := h.udpSessionMap.length
      let s := newSession server fresh (setNatInfo mem ipHeader)
      ({ h with udpSessionMap := h.udpSessionMap ++ [(slice mem udpHeader 8, s)] },
        source i :: sendPacketToRemote i s relayed socks5UdpPacket sendLength)
  | some i =>
    match h.session i with
    | none => (h, [])
    | some s => (h, source i :: sendPacketToRemote i s relayed socks5UdpPacket sendLength)

theorem length_receiveFrom (buf header datagram : List UInt8) :
    (receiveFrom buf header datagram).1.length = buf.length :=
  length_writeAt ..

theorem length_injection (platform : Platform) (buf : List UInt8) (bytesRead : Nat) :
    (injection platform buf bytesRead).1.length = buf.length := by
  cases platform with
  | win32 => rfl
  | apple => exact length_writeAt ..
  | linux => rfl

theorem length_readFromRemote (platform : Platform) (buf header : List UInt8) (bytesRead : Nat) :
    (readFromRemote platform buf header bytesRead).1.length = buf.length := by
  unfold readFromRemote
  split
  · rfl
  · split
    · rfl
    · simp only [length_injection, length_finishPacket, length_paddle, length_overlayHeaders]

/-- The kernel's part of `async_receive_from`, the out-parameter `recv_ep_` included. -/
def UdpSession.receive (s : UdpSession) (sender : Endpoint) (datagram : List UInt8) : UdpSession :=
  { s with
    recvEp := sender
    remoteRecvBuff := ⟨(receiveFrom s.remoteRecvBuff.1 s.ipUdpHeader datagram).1,
      (length_receiveFrom ..).trans s.remoteRecvBuff.2⟩
    receiver := .received (receiveFrom s.remoteRecvBuff.1 s.ipUdpHeader datagram).2 }

/-- The rest of `readFromRemote` after a receive, up to the next one. -/
def UdpSession.relay (platform : Platform) (s : UdpSession) (bytesRead : Nat) : UdpSession :=
  { s with
    remoteRecvBuff := ⟨(readFromRemote platform s.remoteRecvBuff.1 s.ipUdpHeader bytesRead).1,
      (length_readFromRemote ..).trans s.remoteRecvBuff.2⟩
    receiver := .receiving }

/-- The part of the buffer that `readFromRemote` injects, if it does. -/
def UdpSession.region (platform : Platform) (s : UdpSession) (bytesRead : Nat) : Option (Nat × Nat) :=
  (readFromRemote platform s.remoteRecvBuff.1 s.ipUdpHeader bytesRead).2

section Fields
variable (s : UdpSession) (platform : Platform) (bytesRead : Nat) (sender : Endpoint) (datagram : List UInt8)

@[simp] theorem recvEp_receive : (s.receive sender datagram).recvEp = sender := by
  simp only [UdpSession.receive]

@[simp] theorem ipUdpHeader_receive : (s.receive sender datagram).ipUdpHeader = s.ipUdpHeader := by
  simp only [UdpSession.receive]

@[simp] theorem receiver_receive : (s.receive sender datagram).receiver =
    .received (min (recvWindow s.ipUdpHeader) datagram.length) := by
  simp only [UdpSession.receive, receiveFrom, List.length_take]

@[simp] theorem recvEp_relay : (s.relay platform bytesRead).recvEp = s.recvEp := by
  simp only [UdpSession.relay]

@[simp] theorem ipUdpHeader_relay : (s.relay platform bytesRead).ipUdpHeader = s.ipUdpHeader := by
  simp only [UdpSession.relay]

@[simp] theorem receiver_relay : (s.relay platform bytesRead).receiver = .receiving := by
  simp only [UdpSession.relay]

/-- The bytes at the injected region are what `readFromRemote` hands to the device. -/
theorem injectedBytes_region {off len : Nat} (hregion : s.region platform bytesRead = some (off, len)) :
    injectedBytes (readFromRemote platform s.remoteRecvBuff.1 s.ipUdpHeader bytesRead) =
      some (slice (s.relay platform bytesRead).remoteRecvBuff.1 off len) := by
  rw [UdpSession.region] at hregion
  rw [injectedBytes, hregion, Option.map_some, UdpSession.relay]

end Fields

/-- `TuntapHelper::Inject` by address and length. -/
def inject (h : UdpHandler) (i : Nat) (s : UdpSession) : Option (Nat × Nat) → UdpHandler × List UdpEvent
  | none => (h, [])
  | some (off, len) =>
    ({ h with pending := h.pending ++ [⟨h.injections, i, off, len⟩], injections := h.injections + 1 },
      [.injected h.injections i (slice s.remoteRecvBuff.1 off len)])

def resume (platform : Platform) (h : UdpHandler) (i : Nat) (s : UdpSession) :
    Option (UdpHandler × List UdpEvent) :=
  match s.receiver with
  | .received bytesRead =>
    some (inject (h.setSession i (s.relay platform bytesRead)) i (s.relay platform bytesRead)
      (s.region platform bytesRead))
  | .failed => some (h.setSession i { s with sessionStatus := .closed, receiver := .ended }, [])
  | .receiving => none
  | .ended => none

def step (platform : Platform) (server : Endpoint) (h : UdpHandler) : UdpAct → Option (UdpHandler × List UdpEvent)
  | .input c fresh => some (handle server fresh h c.mem c.ipHeader)
  | .receive i sender datagram => do
    let s ← h.session i
    if s.receiver = .receiving then
      some (h.setSession i (s.receive sender datagram), [.receivedFrom i sender datagram])
    else none
  | .receiveError i => do
    let s ← h.session i
    if s.receiver = .receiving then some (h.setSession i { s with receiver := .failed }, []) else none
  | .sendError i => do
    let s ← h.session i
    some (h.setSession i { s with sessionStatus := .closed }, [])
  | .resume i => do
    let s ← h.session i
    resume platform h i s
  | .take k => do
    let injection ← h.pending[k]?
    let s ← h.session injection.session
    some ({ h with pending := h.pending.eraseIdx k },
      [.taken injection.index (slice s.remoteRecvBuff.1 injection.off injection.len)])

/-- The handler starts without sessions. -/
def relayMachine (platform : Platform) (server : Endpoint) : Machine UdpHandler UdpAct UdpEvent where
  Init h := h = ⟨[], [], 0⟩
  step := step platform server

namespace ClientPacket
variable (c : ClientPacket)

def udpLength : Nat := netWord (slice c.mem (c.ipHeader + 4 * c.ihl + 4) 2)
def payload : List UInt8 := slice c.mem (c.ipHeader + 4 * c.ihl + 8) (c.udpLength - 8)
def udpHeader : List UInt8 := slice c.mem (c.ipHeader + 4 * c.ihl) 8

/-- What has to be sent to the server for a client packet. -/
def relayDatagram : List UInt8 := [0, 0, 0, 1] ++ c.dest ++ c.destPort ++ c.payload

/-- The packet's headers with addresses and ports exchanged. -/
def swappedHeader : List UInt8 :=
  slice c.mem c.ipHeader 12 ++ (c.dest ++ (c.src ++ (c.options ++ (c.destPort ++ (c.srcPort ++
    slice c.mem (c.ipHeader + 4 * c.ihl + 4) 4)))))

theorem header_eq : c.header = c.swappedHeader :=
  setNatInfo_eq rfl c.fiveWords c.inside

theorem natInfo_fits : natInfoOverruns c.ihl = false :=
  natInfoOverruns_eq_false.mpr (Nat.le_trans (by decide) c.fiveWords)

theorem length_dest : c.dest.length = 4 :=
  length_slice_of_le (by have := c.fiveWords; have := c.inside; omega)

theorem length_destPort : c.destPort.length = 2 :=
  length_slice_of_le (by have := c.inside; unfold ihl; omega)

end ClientPacket

/-- Rewriting in place turns the packet into the datagram for the server. -/
private theorem relayed_eq {c : ClientPacket} (long : 8 ≤ c.udpLength)
    (inside : c.ipHeader + 4 * c.ihl + c.udpLength ≤ c.mem.length) :
    slice (constructSocks5UdpPacketFromIpStringAndPort c.mem (c.ipHeader + 4 * c.ihl - 2)
      (ip4addrNtoa c.dest) (hostWord c.destPort)) (c.ipHeader + 4 * c.ihl - 2) (c.udpLength + 2) =
        c.relayDatagram := by
  have h5 : 5 ≤ c.ihl := c.fiveWords
  obtain ⟨a0, a1, a2, a3, ha⟩ := exists_quad c.length_dest
  obtain ⟨p0, p1, hp⟩ := exists_pair c.length_destPort
  rw [ClientPacket.relayDatagram, ha, hp, constructSocks5UdpPacket_ntoa,
    show c.udpLength + 2 = 10 + (c.udpLength - 8) by omega,
    ← slice_append, slice_writeAt_same (by rfl) (by omega), slice_writeAt_disjoint (Or.inr (by simp)),
    show c.ipHeader + 4 * c.ihl - 2 + 10 = c.ipHeader + 4 * c.ihl + 8 by omega]
  rfl

section Handle
variable {server : Endpoint} {fresh : RecvBuff} {h : UdpHandler} {c : ClientPacket}

theorem handle_new (absent : h.find c.udpHeader = none) :
    handle server fresh h c.mem c.ipHeader =
      ({ h with udpSessionMap := h.udpSessionMap ++ [(c.udpHeader, newSession server fresh c.header)] },
        .forwarded h.udpSessionMap.length c.src c.srcPort ::
          sendPacketToRemote h.udpSessionMap.length (newSession server fresh c.header)
            (constructSocks5UdpPacketFromIpStringAndPort c.mem (c.ipHeader + 4 * c.ihl - 2) (ip4addrNtoa c.dest)
              (hostWord c.destPort)) (c.ipHeader + 4 * c.ihl - 2) (c.udpLength + 2)) := by
  have fits := c.natInfo_fits
  simp only [ClientPacket.udpHeader, ClientPacket.ihl] at absent fits
  simp only [handle, absent, fits, Bool.false_eq_true, if_false]
  rfl

theorem handle_known {i : Nat} {s : UdpSession} (found : h.find c.udpHeader = some i) (hs : h.session i = some s) :
    handle server fresh h c.mem c.ipHeader =
      (h, .forwarded i c.src c.srcPort ::
        sendPacketToRemote i s (constructSocks5UdpPacketFromIpStringAndPort c.mem (c.ipHeader + 4 * c.ihl - 2)
          (ip4addrNtoa c.dest) (hostWord c.destPort)) (c.ipHeader + 4 * c.ihl - 2) (c.udpLength + 2)) := by
  simp only [ClientPacket.udpHeader, ClientPacket.ihl] at found
  simp only [handle, found, hs]
  rfl

/-- Whatever the map finds is a session of it, under a key with the same source port. -/
theorem find_session {key : List UInt8} {i : Nat} (found : h.find key = some i) :
    ∃ entry, h.udpSessionMap[i]? = some entry ∧ udpHeaderEqual entry.1 key = true := by
  obtain ⟨hi, heq, -⟩ := List.findIdx?_eq_some_iff_getElem.mp found
  exact ⟨_, List.getElem?_eq_getElem hi, heq⟩

private theorem sendPacketToRemote_relayed {i : Nat} {s : UdpSession} (long : 8 ≤ c.udpLength)
    (inside : c.ipHeader + 4 * c.ihl + c.udpLength ≤ c.mem.length) (total : 4 * c.ihl + c.udpLength ≤ 65535) :
    sendPacketToRemote i s (constructSocks5UdpPacketFromIpStringAndPort c.mem (c.ipHeader + 4 * c.ihl - 2)
      (ip4addrNtoa c.dest) (hostWord c.destPort)) (c.ipHeader + 4 * c.ihl - 2) (c.udpLength + 2) =
        [.sentTo i s.recvEp c.relayDatagram] := by
  have h5 : 5 ≤ c.ihl := c.fiveWords
  rw [sendPacketToRemote, if_pos (Nat.mod_eq_of_lt (by omega)), relayed_eq long inside]

end Handle

/-- A packet whose UDP length is right is forwarded as exactly one datagram, over the
session found for it or over a new one that has saved the untouched header. -/
theorem handle_forwards (server : Endpoint) (fresh : RecvBuff) (h : UdpHandler) (c : ClientPacket)
    (long : 8 ≤ c.udpLength) (inside : c.ipHeader + 4 * c.ihl + c.udpLength ≤ c.mem.length)
    (total : 4 * c.ihl + c.udpLength ≤ 65535) :
    ∃ i s, (handle server fresh h c.mem c.ipHeader).1.session i = some s ∧
      (handle server fresh h c.mem c.ipHeader).2 =
        [.forwarded i c.src c.srcPort, .sentTo i s.recvEp c.relayDatagram] ∧
      c.relayDatagram.length = c.udpLength + 2 ∧
      (∀ j, h.find c.udpHeader = some j → i = j ∧ (handle server fresh h c.mem c.ipHeader).1 = h) ∧
      (h.find c.udpHeader = none → i = h.udpSessionMap.length ∧ s.ipUdpHeader = c.swappedHeader) := by
  have size : c.relayDatagram.length = c.udpLength + 2 := by
    have payload : c.payload.length = c.udpLength - 8 := length_slice_of_le (by omega)
    simp only [ClientPacket.relayDatagram, List.length_append, c.length_dest, c.length_destPort, payload,
      List.length_cons, List.length_nil]
    omega
  cases found : h.find c.udpHeader with
  | none =>
    rw [handle_new found, sendPacketToRemote_relayed long inside total]
    refine ⟨h.udpSessionMap.length, newSession server fresh c.header, ?_, rfl, size, ?_, ?_⟩
    · simp [UdpHandler.session]
    · intro j hj
      cases hj
    · intro _
      exact ⟨rfl, c.header_eq⟩
  | some i =>
    obtain ⟨entry, he, -⟩ := find_session found
    have hs : h.session i = some entry.2 := by rw [UdpHandler.session, he, Option.map_some]
    rw [handle_known found hs, sendPacketToRemote_relayed long inside total]
    refine ⟨i, entry.2, hs, rfl, size, ?_, ?_⟩
    · intro j hj
      exact ⟨Option.some.inj hj, rfl⟩
    · intro absent
      cases absent

/-- A packet from 10.8.0.2:4000 to 9.9.9.9:53 with three bytes of data. -/
def queryPacket : ClientPacket where
  mem := [0x45, 0, 0, 31, 0, 1, 0, 0, 64, 17, 0, 0, 10, 8, 0, 2, 9, 9, 9, 9, 0x0F, 0xA0, 0, 53, 0, 11, 0, 0, 7, 8, 9]
  ipHeader := 0
  version := rfl
  fiveWords := by decide
  protocol := rfl
  inside := by decide

theorem handle_forwards_query : ∃ i s,
    (handle ⟨0, 1080⟩ ⟨List.replicate 1500 0, List.length_replicate⟩ ⟨[], [], 0⟩ queryPacket.mem 0).1.session i =
      some s ∧
      (handle ⟨0, 1080⟩ ⟨List.replicate 1500 0, List.length_replicate⟩ ⟨[], [], 0⟩ queryPacket.mem 0).2 =
        [.forwarded i queryPacket.src queryPacket.srcPort, .sentTo i s.recvEp queryPacket.relayDatagram] := by
  obtain ⟨i, s, hs, sent, -⟩ := handle_forwards ⟨0, 1080⟩ ⟨List.replicate 1500 0, List.length_replicate⟩
    ⟨[], [], 0⟩ queryPacket (by decide) (by decide) (by decide)
  exact ⟨i, s, hs, sent⟩

end Tunosocks.Udp
