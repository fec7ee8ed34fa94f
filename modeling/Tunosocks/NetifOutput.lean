import Tunosocks.PacketHandler

/-! `netif_output_func`: a chain of buffers copied into one and given to the device, and what `PacketHandler::Input`
makes of such a frame. -/
namespace Tunosocks.NetifOutput
open Foundation Foundation.Access Foundation.Buffer PacketHandler Udp

/-- `TUN_IP_OFFSET` -/
def tunIpOffset : Platform → Nat
  | .apple => 4
  | .win32 | .linux => 0

/-- What `ADD_TUN_IP_HDR` stores: 33554432 as the host lays it out. -/
def tunIpHdr : Platform → List UInt8
  | .apple => [0, 0, 0, 2]
  | .win32 | .linux => []

/-- A `PBUF_RAM`: one buffer, `len` and `tot_len` set together. -/
structure RamPbuf where
  len : Nat
  totLen : Nat
  deriving DecidableEq, Repr

/-- `heap` says whether `mem_malloc` finds the memory. -/
def allocRam (heap : Bool) (length : Nat) : Option RamPbuf :=
  if heap && pbufAlloc pbufIp length then some ⟨length, length⟩ else none

/-- `pbuf_skip` finds the buffer only for an offset inside it; what the first copy leaves has no `next` to go to. -/
def pbufTakeAt (buf : Option RamPbuf) (data : List UInt8) (offset : Nat) : Access Int UInt8 Bool :=
  match buf with
  | none => return false
  | some q =>
    if offset < q.len ∧ offset + data.length ≤ q.totLen then do
      writeRange offset (data.take (q.len - offset))
      return decide (data.length ≤ q.len - offset)
    else return false

/-- The loop over the chain; the offset is an `int` that `pbuf_take_at` takes as 16 bits. -/
def copyLoop (buf : Option RamPbuf) (tunOffset : Nat) : List (List UInt8) → Nat → Access Int UInt8 Bool
  | [], _ => return true
  | pp :: rest, offset => do
    if ← pbufTakeAt buf pp ((tunOffset + offset) % 65536) then copyLoop buf tunOffset rest (offset + pp.length)
    else return false

inductive OutputResult where
  | errBuf
  | crashed
  | injected (p : RamPbuf)
  deriving DecidableEq, Repr

/-- The memory is the payload of the new buffer, from address 0 on. -/
def netifOutputFunc (platform : Platform) (heap : Bool) (totLen : Nat) (p : List (List UInt8)) :
    Access Int UInt8 OutputResult := do
  let dechained := allocRam heap ((totLen + tunIpOffset platform) % 65536)
  if ← copyLoop dechained (tunIpOffset platform) p 0 then
    writeRange 0 (tunIpHdr platform)
    match dechained with
    | none => return .crashed
    | some q => return if q.len = q.totLen then .injected q else .crashed
  else return .errBuf

/-- What is written to the device when the memory was as given. -/
def injectedFrame (platform : Platform) (heap : Bool) (totLen : Nat) (p : List (List UInt8)) (m : Int → UInt8) :
    Option (List UInt8) :=
  let r := (netifOutputFunc platform heap totLen p).exec m
  match r.1 with
  | .injected q => some (window r.2 0 q.len)
  | _ => none

section Copy
variable {len tunOffset totLen offset : Nat} {p : List (List UInt8)} {pp : List UInt8} {m : Int → UInt8}

private theorem pbufTakeAt_inside (lo : offset < len) (hi : offset + pp.length ≤ len) :
    pbufTakeAt (some ⟨len, len⟩) pp offset = (do writeRange offset pp; return true) := by
  have whole : pp.length ≤ len - offset := by omega
  simp only [pbufTakeAt, lo, hi, and_self, if_true, List.take_of_length_le whole, decide_eq_true whole]

private theorem pbufTakeAt_outside (out : ¬(offset < len ∧ offset + pp.length ≤ len)) :
    pbufTakeAt (some ⟨len, len⟩) pp offset = return false := by
  simp only [pbufTakeAt, out, if_false]

/-- A loop that succeeds is one write of the whole chain. -/
private theorem copyLoop_eq (fits : tunOffset + offset + p.flatten.length ≤ 65535)
    (copied : ((copyLoop (some ⟨len, len⟩) tunOffset p offset).exec m).1 = true) :
    copyLoop (some ⟨len, len⟩) tunOffset p offset =
      (do writeRange (tunOffset + offset : Nat) p.flatten; return true) := by
  induction p generalizing offset m with
  | nil => rfl
  | cons pp rest ih =>
    rw [List.flatten_cons, List.length_append] at fits
    have small : (tunOffset + offset) % 65536 = tunOffset + offset := by omega
    rw [copyLoop, small] at copied ⊢
    by_cases inside : tunOffset + offset < len ∧ tunOffset + offset + pp.length ≤ len
    · rw [pbufTakeAt_inside inside.1 inside.2] at copied ⊢
      simp only [exec_bind, exec_pure, if_true] at copied
      have next := ih (by omega) copied
      rw [bind_bind, List.flatten_cons, writeRange_append, bind_bind]
      simp only [pure_then, if_true, next, ← Nat.add_assoc, Nat.cast_add]
    · rw [pbufTakeAt_outside inside] at copied
      exact absurd copied Bool.false_ne_true

/-- With a last segment that is not empty every offset lies inside the new buffer. -/
private theorem copyLoop_succeeds (fits : len ≤ 65535) (sum : tunOffset + offset + p.flatten.length = len)
    (last : ∃ s, p.getLast? = some s ∧ s ≠ []) :
    ((copyLoop (some ⟨len, len⟩) tunOffset p offset).exec m).1 = true := by
  induction p generalizing offset m with
  | nil => rfl
  | cons pp rest ih =>
    rw [List.flatten_cons, List.length_append] at sum
    have ahead : 0 < pp.length + rest.flatten.length := by
      obtain ⟨s, isLast, full⟩ := last
      have inside : s ∈ (pp :: rest) := List.mem_of_getLast? isLast
      have part := (List.sublist_flatten_of_mem inside).length_le
      rw [List.flatten_cons, List.length_append] at part
      have := List.length_pos_iff.mpr full
      omega
    have small : (tunOffset + offset) % 65536 = tunOffset + offset := by omega
    rw [copyLoop, small, pbufTakeAt_inside (by omega) (by omega)]
    simp only [exec_bind, exec_pure, if_true]
    cases rest with
    | nil => rfl
    | cons next rest => exact ih (by omega) (by simpa using last)

end Copy

section Output
variable {platform : Platform} {totLen : Nat} {p : List (List UInt8)} {m : Int → UInt8}

private theorem length_tunIpHdr (platform : Platform) : (tunIpHdr platform).length = tunIpOffset platform := by
  cases platform <;> rfl

/-- The accesses of a call that reaches `Inject`. -/
private def emit (platform : Platform) (bytes : List UInt8) : Access Int UInt8 OutputResult := do
  writeRange (tunIpOffset platform) bytes
  writeRange 0 (tunIpHdr platform)
  return .injected ⟨bytes.length + tunIpOffset platform, bytes.length + tunIpOffset platform⟩

private theorem netifOutputFunc_eq (fits : p.flatten.length + tunIpOffset platform ≤ 65535)
    (allocated : pbufAlloc pbufIp (p.flatten.length + tunIpOffset platform) = true)
    (copied : ((copyLoop (some ⟨p.flatten.length + tunIpOffset platform, p.flatten.length + tunIpOffset platform⟩)
      (tunIpOffset platform) p 0).exec m).1 = true) :
    netifOutputFunc platform true p.flatten.length p = emit platform p.flatten := by
  have loop := copyLoop_eq (m := m) (by omega) copied
  have length : (p.flatten.length + tunIpOffset platform) % 65536 = p.flatten.length + tunIpOffset platform := by omega
  simp only [netifOutputFunc, emit, length, allocRam, allocated, Bool.and_self, if_true, loop, bind_bind, pure_then,
    Nat.add_zero]

private theorem exec_emit (platform : Platform) (bytes : List UInt8) (m : Int → UInt8) :
    (emit platform bytes).exec m =
      (.injected ⟨bytes.length + tunIpOffset platform, bytes.length + tunIpOffset platform⟩,
        overlay (tunIpHdr platform ++ bytes) m) := by
  have prefixed := length_tunIpHdr platform
  have room : (window m 0 (tunIpOffset platform + bytes.length)).length = tunIpOffset platform + bytes.length :=
    length_window _ _
  have first : ((writeRange (tunIpOffset platform) bytes).exec m).2 =
      overlay (writeAt (window m 0 (tunIpOffset platform + bytes.length)) (tunIpOffset platform) bytes) m := by
    have stored : ((writeRange (tunIpOffset platform) bytes).exec
        (overlay (window m 0 (tunIpOffset platform + bytes.length)) m)).2 = _ := exec_writeRange_overlay room.ge
    rwa [overlay_window] at stored
  have second : ((writeRange (0 : Nat) (tunIpHdr platform)).exec (overlay (writeAt (window m 0 (tunIpOffset platform +
      bytes.length)) (tunIpOffset platform) bytes) m)).2 = _ :=
    exec_writeRange_overlay (by rw [length_writeAt, room]; omega)
  have content : writeAt (writeAt (window m 0 (tunIpOffset platform + bytes.length)) (tunIpOffset platform) bytes) 0
      (tunIpHdr platform) = tunIpHdr platform ++ bytes := by
    rw [writeAt_split (by rw [length_writeAt, room]; omega), List.take_zero, List.nil_append, Nat.zero_add,
      writeAt_split room.ge, prefixed, List.drop_left' (by rw [List.length_take, room]; omega),
      List.drop_eq_nil_of_le room.le, List.append_nil]
  rw [Nat.cast_zero, content] at second
  simp only [emit, exec_bind, exec_pure, first, second]

private theorem touches_emit (platform : Platform) (bytes : List UInt8) (m : Int → UInt8) :
    ((emit platform bytes).touches m).Perm
      ((List.range (bytes.length + tunIpOffset platform)).map fun i : Nat => (i : Int)) := by
  have wrote : (emit platform bytes).touches m =
      ((List.range bytes.length).map fun i : Nat => (tunIpOffset platform : Int) + i) ++
        (List.range (tunIpOffset platform)).map fun i : Nat => (i : Int) := by
    simp only [emit, touches_bind, touches_writeRange, length_tunIpHdr, zero_add]
    exact congrArg _ (List.append_nil _)
  rw [wrote, Nat.add_comm, List.range_add, List.map_append, List.map_map]
  refine List.perm_append_comm.trans (.of_eq ?_)
  refine congrArg _ (List.map_congr_left fun i _ => ?_)
  rw [Function.comp_apply, Nat.cast_add]

/-- A chain whose lengths add up to `tot_len` and whose last segment is not empty is copied whole: one buffer with the
link header and the segments in order, each byte of it stored once. -/
theorem netif_output_exact (sum : totLen = (p.map List.length).sum) (last : ∃ s, p.getLast? = some s ∧ s ≠ [])
    (fits : totLen + tunIpOffset platform ≤ 65535)
    (allocated : pbufAlloc pbufIp (totLen + tunIpOffset platform) = true) (m : Int → UInt8) :
    let run := netifOutputFunc platform true totLen p
    (run.exec m).1 = .injected ⟨tunIpOffset platform + totLen, tunIpOffset platform + totLen⟩ ∧
      window (run.exec m).2 0 (tunIpOffset platform + totLen) = tunIpHdr platform ++ p.flatten ∧
      (run.touches m).Perm ((List.range (tunIpOffset platform + totLen)).map fun i : Nat => (i : Int)) := by
  obtain rfl : totLen = p.flatten.length := by rw [sum, List.length_flatten]
  have emitted := netifOutputFunc_eq fits allocated (copyLoop_succeeds (m := m) fits (by omega) last)
  have whole : (tunIpHdr platform ++ p.flatten).length = tunIpOffset platform + p.flatten.length := by
    rw [List.length_append, length_tunIpHdr]
  have read := window_overlay_all (tunIpHdr platform ++ p.flatten) m
  rw [whole] at read
  intro run
  rw [show run = emit platform p.flatten from emitted, exec_emit, Nat.add_comm p.flatten.length]
  refine ⟨rfl, read, ?_⟩
  rw [Nat.add_comm]
  exact touches_emit platform p.flatten m

end Output

/-- What the device puts in front of a packet, and expects there. A Linux device opened with `IFF_TUN` alone has
`struct tun_pi`: no flags, and the protocol in network order. -/
def linkPrefix : Platform → List UInt8
  | .win32 => []
  | .apple => [0, 0, 0, 2]
  | .linux => [0, 0, 0x08, 0x00]

/-- Version 4 and protocol 6 in a header of twenty bytes or more. -/
def IsTcpPacket (packet : List UInt8) : Prop :=
  20 ≤ packet.length ∧ (packet.getD 0 0 &&& 0xf0) >>> 4 = 4 ∧ packet.getD 9 0 = 6

instance (packet : List UInt8) : Decidable (IsTcpPacket packet) := inferInstanceAs (Decidable (_ ∧ _))

/-- The frame written for a chain has the device's format, and `Input` gets the packet back from a frame of that
format, whatever the handler holds and whatever lies behind the frame. -/
structure FramingAgrees (platform : Platform) (p : List (List UInt8)) (frame : List UInt8) : Prop where
  written : frame = linkPrefix platform ++ p.flatten
  read : ∀ server fresh h rest, ((input platform server fresh h (linkPrefix platform ++ p.flatten).length).exec
    (overlay (linkPrefix platform ++ p.flatten) rest)).1.2 = [.segment p.flatten]

section Framing
variable {platform : Platform} {heap : Bool} {totLen : Nat} {p : List (List UInt8)} {frame : List UInt8}
  {m : Int → UInt8}

private theorem length_linkPrefix (platform : Platform) : (linkPrefix platform).length = ipOffset platform := by
  cases platform <;> rfl

private theorem linkPrefix_eq_tunIpHdr_iff (platform : Platform) :
    tunIpHdr platform = linkPrefix platform ↔ platform ≠ .linux := by
  cases platform <;> decide

/-- Nothing is copied into a buffer that was not allocated or ends before the first offset. -/
private theorem buffer_of_copied {buf : Option RamPbuf} {tunOffset : Nat} (nonempty : p ≠ [])
    (copied : ((copyLoop buf tunOffset p 0).exec m).1 = true) : ∃ q, buf = some q ∧ tunOffset % 65536 < q.len := by
  obtain ⟨pp, rest, rfl⟩ := List.exists_cons_of_ne_nil nonempty
  cases buf with
  | none => exact absurd copied Bool.false_ne_true
  | some q =>
    refine ⟨q, rfl, ?_⟩
    by_contra past
    have refused : pbufTakeAt (some q) pp ((tunOffset + 0) % 65536) = return false := by
      simp only [pbufTakeAt, Nat.add_zero, past, false_and, if_false]
    rw [copyLoop, refused] at copied
    exact absurd copied Bool.false_ne_true

private theorem copied_of_injected (emitted : injectedFrame platform heap totLen p m = some frame) :
    ((copyLoop (allocRam heap ((totLen + tunIpOffset platform) % 65536)) (tunIpOffset platform) p 0).exec m).1 =
      true := by
  by_contra failed
  have errBuf : ((netifOutputFunc platform heap totLen p).exec m).1 = .errBuf := by
    simp only [netifOutputFunc, exec_bind, failed, if_false, exec_pure]
  simp only [injectedFrame, errBuf] at emitted
  cases emitted

/-- An emitted frame: allocation succeeded, nothing was cut to 16 bits, and the frame is header and chain. -/
private theorem injectedFrame_cases (sum : totLen = (p.map List.length).sum) (short : totLen ≤ 65535)
    (nonempty : p ≠ []) (emitted : injectedFrame platform heap totLen p m = some frame) :
    pbufAlloc pbufIp (p.flatten.length + tunIpOffset platform) = true ∧
      p.flatten.length + tunIpOffset platform ≤ 65535 ∧ frame = tunIpHdr platform ++ p.flatten := by
  obtain rfl : totLen = p.flatten.length := by rw [sum, List.length_flatten]
  have copied := copied_of_injected emitted
  obtain ⟨q, allocated, begins⟩ := buffer_of_copied nonempty copied
  have small : tunIpOffset platform ≤ 4 := by cases platform <;> decide
  obtain ⟨granted, rfl⟩ : (heap = true ∧ pbufAlloc pbufIp ((p.flatten.length + tunIpOffset platform) % 65536) = true) ∧
      q = ⟨(p.flatten.length + tunIpOffset platform) % 65536, (p.flatten.length + tunIpOffset platform) % 65536⟩ := by
    unfold allocRam at allocated
    split at allocated
    · next granted => exact ⟨by simpa using granted, (Option.some.inj allocated).symm⟩
    · cases allocated
  have fits : p.flatten.length + tunIpOffset platform ≤ 65535 := by
    simp only at begins
    omega
  have whole : (p.flatten.length + tunIpOffset platform) % 65536 = p.flatten.length + tunIpOffset platform := by omega
  rw [whole] at granted allocated copied
  obtain ⟨rfl, granted⟩ := granted
  rw [allocated] at copied
  refine ⟨granted, fits, ?_⟩
  simp only [injectedFrame, netifOutputFunc_eq fits granted copied, exec_emit] at emitted
  have read := window_overlay_all (tunIpHdr platform ++ p.flatten) m
  rw [List.length_append, length_tunIpHdr, Nat.add_comm] at read
  exact (Option.some.inj emitted).symm.trans read

/-- `Input` on a framed packet takes the prefix off and passes the rest to lwIP. -/
private theorem input_framed {packet : List UInt8} (tcp : IsTcpPacket packet)
    (allocated : pbufAlloc pbufIp packet.length = true) (short : packet.length ≤ 65535) (server : Endpoint)
    (fresh : RecvBuff) (h : UdpHandler) (rest : Int → UInt8) :
    ((input platform server fresh h (linkPrefix platform ++ packet).length).exec
      (overlay (linkPrefix platform ++ packet) rest)).1.2 = [.segment packet] := by
  obtain ⟨header, version, protocol⟩ := tcp
  have offset := length_linkPrefix platform
  have size : (linkPrefix platform ++ packet).length = ipOffset platform + packet.length := by
    rw [List.length_append, offset]
  have byte {k : Nat} (inside : k < packet.length) :
      overlay (linkPrefix platform ++ packet) rest (ipOffset platform + k : Nat) = packet.getD k 0 := by
    rw [overlay_inside (by omega) 0, List.getD_eq_getElem?_getD, List.getElem?_append_right (by omega), offset,
      Nat.add_sub_cancel_left, List.getD_eq_getElem?_getD]
  have first := byte (show 0 < packet.length by omega)
  have tenth := byte (show 9 < packet.length by omega)
  have bytes : window (overlay (linkPrefix platform ++ packet) rest) (ipOffset platform) packet.length = packet := by
    rw [window_overlay size.ge, slice, List.drop_left' offset, List.take_length]
  have stripped : (ipOffset platform + packet.length + 2 ^ 64 - ipOffset platform) % 2 ^ 64 = packet.length := by omega
  have cut : packet.length % 65536 = packet.length := by omega
  rw [Nat.add_zero] at first
  rw [Nat.cast_add] at tenth
  have proto : overlay (linkPrefix platform ++ packet) rest ((ipOffset platform : Int) + 9) = 6 :=
    tenth.trans protocol
  have passed : (inputSegment platform (ipOffset platform + packet.length)).exec
      (overlay (linkPrefix platform ++ packet) rest) =
        ([.segment packet], overlay (linkPrefix platform ++ packet) rest) := by
    simp only [inputSegment, exec_bind, stripped, exec_pbufTake, cut, allocated, if_true, bytes, exec_pure]
  simp only [input, exec_bind, exec_read, first, version, ne_eq, not_true_eq_false, if_false, size, proto]
  rw [if_neg (by decide), if_neg (by decide), exec_bind, passed]
  rfl

/-- The two directions agree on every platform but Linux, where the output lacks the four bytes `Input` strips. -/
theorem framing_agrees_iff (tcp : IsTcpPacket p.flatten) (sum : totLen = (p.map List.length).sum)
    (short : totLen ≤ 65535) (emitted : injectedFrame platform heap totLen p m = some frame) :
    FramingAgrees platform p frame ↔ platform ≠ .linux := by
  have nonempty : p ≠ [] := by
    rintro rfl
    exact absurd tcp.1 (by decide)
  obtain ⟨allocated, fits, rfl⟩ := injectedFrame_cases sum short nonempty emitted
  constructor
  · intro agrees
    exact (linkPrefix_eq_tunIpHdr_iff platform).mp (List.append_left_injective _ agrees.written)
  · intro supported
    refine ⟨by rw [(linkPrefix_eq_tunIpHdr_iff platform).mpr supported], fun server fresh h rest => ?_⟩
    have packetFits : pbufAlloc pbufIp p.flatten.length = true := by
      have := of_decide_eq_true allocated
      apply decide_eq_true
      simp only [pbufIp] at this ⊢
      omega
    exact input_framed tcp packetFits (by omega) server fresh h rest

end Framing

/-- A header and, in a buffer of its own, four bytes of data: 24 bytes from 10.2.0.1 to 10.2.0.2. -/
def segmentChain : List (List UInt8) :=
  [[0x45, 0, 0, 24, 0, 1, 0, 0, 255, 6, 0, 0, 10, 2, 0, 1, 10, 2, 0, 2], [], [1, 187, 156, 64]]

theorem netif_output_exact_chain :
    ((netifOutputFunc .apple true 24 segmentChain).exec fun _ => 0).1 = .injected ⟨28, 28⟩ := by
  have sum : 24 = (segmentChain.map List.length).sum := rfl
  have last : ∃ s, segmentChain.getLast? = some s ∧ s ≠ [] := ⟨_, rfl, by decide⟩
  have fits : 24 + tunIpOffset .apple ≤ 65535 := by decide
  have allocated : pbufAlloc pbufIp (24 + tunIpOffset .apple) = true := by decide
  exact (netif_output_exact sum last fits allocated _).1

theorem framing_agrees_iff_apple : FramingAgrees .apple segmentChain ([0, 0, 0, 2] ++ segmentChain.flatten) := by
  have tcp : IsTcpPacket segmentChain.flatten := by decide
  have sum : 24 = (segmentChain.map List.length).sum := rfl
  have emitted : injectedFrame .apple true 24 segmentChain (fun _ => 0) =
      some ([0, 0, 0, 2] ++ segmentChain.flatten) := by decide
  exact (framing_agrees_iff tcp sum (by decide) emitted).mpr (by decide)

/-- On Linux the frame begins with the IP header itself, in which `Input` then looks four bytes too far. -/
theorem linux_frame_lacks_header :
    injectedFrame .linux true 24 segmentChain (fun _ => 0) = some segmentChain.flatten ∧
      ¬FramingAgrees .linux segmentChain segmentChain.flatten := by
  refine ⟨by decide, fun agrees => ?_⟩
  exact absurd agrees.written (by decide)

end Tunosocks.NetifOutput
