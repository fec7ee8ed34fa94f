import Tunosocks.Udp.HeaderChecksum

/-! What each in-place step of a session leaves at which offset: the saved header,
the overlaid headers, the padding byte and the finished packet. -/
namespace Tunosocks.Udp
open Foundation.Buffer Foundation.OnesComplement Socks5

private theorem headers_eq_slices {s : List UInt8} {h : Nat} (h5 : 5 ≤ h) (hs : s.length = 4 * h + 8) :
    s = slice s 0 12 ++ (slice s 12 4 ++ (slice s 16 4 ++ (slice s 20 (4 * h - 20) ++
      (slice s (4 * h) 2 ++ (slice s (4 * h + 2) 2 ++ slice s (4 * h + 4) 4))))) := by
  have ports : slice s (4 * h) 2 ++ (slice s (4 * h + 2) 2 ++ slice s (4 * h + 4) 4) = slice s (4 * h) 8 := by
    rw [show 4 * h + 4 = 4 * h + 2 + 2 from rfl, slice_append, slice_append]
  have behind : slice s 20 (4 * h - 20) ++ slice s (4 * h) 8 = slice s 20 (4 * h - 12) := by
    have joined := slice_append s 20 (4 * h - 20) 8
    rwa [show 20 + (4 * h - 20) = 4 * h by omega, show 4 * h - 20 + 8 = 4 * h - 12 by omega] at joined
  rw [ports, behind, slice_append s 16 4, slice_append s 12 4, slice_append s 0 12,
    show 12 + (4 + (4 + (4 * h - 12))) = s.length by omega, slice_all]

section SavedHeader
variable {mem : List UInt8} {ipHeader h : Nat}

theorem length_setNatInfo (hh : ipHl mem ipHeader = h) (inside : ipHeader + 4 * h + 8 ≤ mem.length) :
    (setNatInfo mem ipHeader).length = 4 * h + 8 := by
  simp only [setNatInfo, length_writeAt, hh]
  exact length_slice_of_le (by omega)

/-- Everything but the addresses and the ports is the packet's own. -/
theorem slice_setNatInfo {a n : Nat} (hh : ipHl mem ipHeader = h) (h5 : 5 ≤ h)
    (inside : ipHeader + 4 * h + 8 ≤ mem.length)
    (kept : a + n ≤ 12 ∨ 20 ≤ a ∧ a + n ≤ 4 * h ∨ 4 * h + 4 ≤ a ∧ a + n ≤ 4 * h + 8) :
    slice (setNatInfo mem ipHeader) a n = slice mem (ipHeader + a) n := by
  simp (disch := (first | omega | (simp only [length_slice]; omega))) only
    [setNatInfo, hh, slice_writeAt_disjoint, slice_slice]

/-- The saved addresses and ports are those of the packet, exchanged. -/
theorem slice_setNatInfo_ends (hh : ipHl mem ipHeader = h) (h5 : 5 ≤ h)
    (inside : ipHeader + 4 * h + 8 ≤ mem.length) :
    slice (setNatInfo mem ipHeader) 12 4 = slice mem (ipHeader + 16) 4 ∧
    slice (setNatInfo mem ipHeader) 16 4 = slice mem (ipHeader + 12) 4 ∧
    slice (setNatInfo mem ipHeader) (4 * h) 2 = slice mem (ipHeader + (4 * h + 2)) 2 ∧
    slice (setNatInfo mem ipHeader) (4 * h + 2) 2 = slice mem (ipHeader + 4 * h) 2 := by
  refine ⟨?_, ?_, ?_, ?_⟩ <;>
    simp (disch := (first | omega | (simp only [length_slice, length_writeAt]; omega))) only
      [setNatInfo, hh, slice_writeAt_disjoint, slice_writeAt_same, slice_slice]

/-- The saved header is the packet's own with addresses and ports exchanged. -/
theorem setNatInfo_eq (hh : ipHl mem ipHeader = h) (h5 : 5 ≤ h) (inside : ipHeader + 4 * h + 8 ≤ mem.length) :
    setNatInfo mem ipHeader =
      slice mem ipHeader 12 ++ (slice mem (ipHeader + 16) 4 ++ (slice mem (ipHeader + 12) 4 ++
        (slice mem (ipHeader + 20) (4 * h - 20) ++ (slice mem (ipHeader + (4 * h + 2)) 2 ++
          (slice mem (ipHeader + 4 * h) 2 ++ slice mem (ipHeader + (4 * h + 4)) 4))))) := by
  obtain ⟨src, dest, srcPort, destPort⟩ := slice_setNatInfo_ends hh h5 inside
  rw [headers_eq_slices h5 (length_setNatInfo hh inside), src, dest, srcPort, destPort,
    slice_setNatInfo hh h5 inside (a := 0) (by omega), slice_setNatInfo hh h5 inside (a := 20) (by omega),
    slice_setNatInfo hh h5 inside (a := 4 * h + 4) (by omega), Nat.add_zero]

end SavedHeader

/-- Options, ports, UDP length, UDP checksum and data, as the slices that make them up. -/
theorem slice_tail (s : List UInt8) (base : Nat) {h : Nat} (m : Nat) (h5 : 5 ≤ h) :
    slice s (base + 20) (4 * h - 12 + m) =
      slice s (base + 20) (4 * h - 20) ++ (slice s (base + 4 * h) 2 ++ (slice s (base + (4 * h + 2)) 2 ++
        (slice s (base + (4 * h + 4)) 2 ++ (slice s (base + (4 * h + 6)) 2 ++ slice s (base + (4 * h + 8)) m)))) := by
  simp only [← Nat.add_assoc]
  rw [slice_append s (base + 4 * h + 6) 2, slice_append s (base + 4 * h + 4) 2, slice_append s (base + 4 * h + 2) 2,
    slice_append s (base + 4 * h) 2, show base + 4 * h = base + 20 + (4 * h - 20) by omega, slice_append]
  congr 1
  omega

/-- The fields behind the first twenty bytes are right exactly when their bytes are. -/
theorem slice_tail_eq_iff {s o p q l z x : List UInt8} (base : Nat) {h : Nat} (h5 : 5 ≤ h)
    (room : base + (4 * h + 8 + x.length) ≤ s.length) (ho : o.length = 4 * h - 20) (hp : p.length = 2)
    (hq : q.length = 2) (hl : l.length = 2) (hz : z.length = 2) :
    slice s (base + 20) (4 * h - 12 + x.length) = o ++ (p ++ (q ++ (l ++ (z ++ x)))) ↔
      slice s (base + 20) (4 * h - 20) = o ∧ slice s (base + 4 * h) 2 = p ∧ slice s (base + (4 * h + 2)) 2 = q ∧
        slice s (base + (4 * h + 4)) 2 = l ∧ slice s (base + (4 * h + 6)) 2 = z ∧
          slice s (base + (4 * h + 8)) x.length = x := by
  rw [slice_tail s base x.length h5]
  constructor
  · intro he
    obtain ⟨h1, he⟩ := List.append_inj he (by rw [ho]; exact length_slice_of_le (by omega))
    obtain ⟨h2, he⟩ := List.append_inj he (by rw [hp]; exact length_slice_of_le (by omega))
    obtain ⟨h3, he⟩ := List.append_inj he (by rw [hq]; exact length_slice_of_le (by omega))
    obtain ⟨h4, he⟩ := List.append_inj he (by rw [hl]; exact length_slice_of_le (by omega))
    obtain ⟨h6, he⟩ := List.append_inj he (by rw [hz]; exact length_slice_of_le (by omega))
    exact ⟨h1, h2, h3, h4, h6, he⟩
  · rintro ⟨h1, h2, h3, h4, h6, h7⟩
    rw [h1, h2, h3, h4, h6, h7]

section Overlay
variable {buf header srcIp : List UInt8} {srcPort bytesRead h : Nat}

@[simp] theorem length_overlayHeaders :
    (overlayHeaders buf header srcIp srcPort bytesRead).length = buf.length := by
  simp only [overlayHeaders, length_writeAt]

private theorem ipHl_overlaid {data : List UInt8} (hh : ipHl header 0 = h) (h5 : 5 ≤ h)
    (hl : header.length = 4 * h + 8) (room : 4 * h + 12 ≤ buf.length) :
    ipHl (writeAt (writeAt (writeAt (writeAt buf 4 header) (4 + 12) srcIp) 12 [0]) 14 data) 4 = h := by
  rw [← hh]
  apply ipHl_congr
  rw [slice_writeAt_disjoint (Or.inl (by omega)), slice_writeAt_disjoint (Or.inl (by omega)),
    slice_writeAt_disjoint (Or.inl (by omega))]
  exact slice_writeAt_part (k := 0) (by omega) (by omega)

/-- Header bytes the overlay neither replaces nor needs elsewhere. -/
theorem slice_overlayHeaders_header {a n : Nat} (hh : ipHl header 0 = h) (h5 : 5 ≤ h)
    (hl : header.length = 4 * h + 8) (room : 4 * h + 12 ≤ buf.length) (hs : srcIp.length = 4)
    (kept : a + n ≤ 8 ∨ a = 9 ∧ n ≤ 1 ∨ 16 ≤ a ∧ a + n ≤ 4 * h ∨ 4 * h + 2 ≤ a ∧ a + n ≤ 4 * h + 4) :
    slice (overlayHeaders buf header srcIp srcPort bytesRead) (4 + a) n = slice header a n := by
  simp (disch := (first | omega |
      (simp only [length_slice, length_netBytes, List.length_cons, List.length_nil, hs]; omega))) only
    [overlayHeaders, ipHl_overlaid hh h5 hl room, slice_writeAt_disjoint]
  exact slice_writeAt_part (by omega) (by omega)

/-- The bytes behind the first twenty: options, ports, length, a zero checksum, data. -/
theorem slice_overlayHeaders_tail {m : Nat} (hh : ipHl header 0 = h) (h5 : 5 ≤ h)
    (hl : header.length = 4 * h + 8) (room : 4 * h + 12 ≤ buf.length) (hs : srcIp.length = 4) :
    slice (overlayHeaders buf header srcIp srcPort bytesRead) 24 (4 * h - 12 + m) =
      slice header 20 (4 * h - 20) ++ (netBytes srcPort ++ (slice header (4 * h + 2) 2 ++
        (netBytes ((bytesRead + 65536 - 10 + 8) % 65536) ++ ([0, 0] ++ slice buf (4 + (4 * h + 8)) m)))) := by
  rw [slice_tail _ 4 m h5, slice_overlayHeaders_header hh h5 hl room hs (a := 20) (by omega),
    slice_overlayHeaders_header hh h5 hl room hs (a := 4 * h + 2) (by omega)]
  congr 1
  simp (disch := (first | omega |
    (simp only [length_slice, length_writeAt, length_netBytes, List.length_cons, List.length_nil, hs]; omega))) only
    [overlayHeaders, ipHl_overlaid hh h5 hl room, slice_writeAt_disjoint, slice_writeAt_same, Nat.add_assoc]
  rw [slice_writeAt_same (by rfl) (by simp only [length_writeAt]; omega),
    slice_writeAt_same (by rfl) (by simp only [length_writeAt]; omega),
    slice_writeAt_same (by rfl) (by simp only [length_writeAt]; omega)]

/-- The pseudo-header's zero and UDP length stand where TTL and header checksum were. -/
theorem slice_overlayHeaders_pseudo (hh : ipHl header 0 = h) (h5 : 5 ≤ h) (hl : header.length = 4 * h + 8)
    (room : 4 * h + 12 ≤ buf.length) :
    slice (overlayHeaders buf header srcIp srcPort bytesRead) 12 1 = [0] ∧
      slice (overlayHeaders buf header srcIp srcPort bytesRead) 14 2 =
        netBytes ((bytesRead + 65536 - 10 + 8) % 65536) := by
  simp (disch := (first | omega |
      (simp only [length_slice, length_netBytes, List.length_cons, List.length_nil]; omega))) only
    [overlayHeaders, ipHl_overlaid hh h5 hl room, slice_writeAt_disjoint]
  exact ⟨slice_writeAt_same rfl (by simp only [length_writeAt]; omega),
    slice_writeAt_same rfl (by simp only [length_writeAt]; omega)⟩

theorem slice_overlayHeaders_source (hh : ipHl header 0 = h) (h5 : 5 ≤ h) (hl : header.length = 4 * h + 8)
    (room : 4 * h + 12 ≤ buf.length) (hs : srcIp.length = 4) :
    slice (overlayHeaders buf header srcIp srcPort bytesRead) 16 4 = srcIp := by
  simp (disch := (first | omega | (simp only [length_netBytes, List.length_cons, List.length_nil]; omega))) only
    [overlayHeaders, ipHl_overlaid hh h5 hl room, slice_writeAt_disjoint]
  exact slice_writeAt_same hs.symm (by rw [length_writeAt]; omega)

end Overlay

section Finish
variable {buf : List UInt8} {bytesRead h : Nat}

@[simp] theorem length_paddle : (paddle buf bytesRead).length = buf.length := by
  simp only [paddle]
  split
  · exact length_writeAt ..
  · rfl

theorem slice_paddle_before {a n : Nat} (before : a + n ≤ 22 + bytesRead) :
    slice (paddle buf bytesRead) a n = slice buf a n := by
  simp only [paddle]
  split
  · exact slice_writeAt_disjoint (Or.inl (by omega))
  · rfl

/-- The bytes behind the first twenty, with the zero the source adds among them. -/
theorem slice_paddle_tail {m n : Nat} (hb : bytesRead = 10 + m) :
    slice (paddle buf bytesRead) 24 n =
      if m % 2 = 0 then slice buf 24 n else writeAt (slice buf 24 n) (8 + m) [0] := by
  simp only [paddle]
  by_cases hm : m % 2 = 0
  · rw [if_neg (by omega), if_pos hm]
  · rw [if_pos (by omega), if_neg hm, slice_writeAt_inside (by omega)]
    congr 1
    omega

/-- The bytes that are summed, with the zero behind them. -/
theorem slice_paddle_summed (room : 22 + bytesRead < buf.length) :
    slice (paddle buf bytesRead) 12 (12 + 8 + bytesRead - 10 + (12 + 8 + bytesRead - 10) % 2) =
      slice buf 12 (12 + 8 + bytesRead - 10) ++ List.replicate (bytesRead % 2) 0 := by
  simp only [paddle]
  by_cases even : bytesRead % 2 = 0
  · rw [if_neg (by omega), even, show (12 + 8 + bytesRead - 10) % 2 = 0 by omega]
    simp
  · rw [if_pos (by omega), show bytesRead % 2 = 1 by omega, show (12 + 8 + bytesRead - 10) % 2 = 1 by omega,
      ← slice_append, slice_writeAt_disjoint (Or.inl (by omega)),
      slice_writeAt_same (show 1 = [(0 : UInt8)].length from rfl) (by omega)]
    rfl

variable {mbz udpl : UInt8}

@[simp] theorem length_calculateIpCheckSum {ipHeader : Nat} :
    (calculateIpCheckSum buf ipHeader).length = buf.length := by
  simp only [calculateIpCheckSum, length_writeAt]

@[simp] theorem length_finishPacket : (finishPacket buf mbz udpl bytesRead).length = buf.length := by
  simp only [finishPacket, length_calculateIpCheckSum, length_writeAt]

private theorem slice_calculateIpCheckSum {ipHeader a n : Nat} (apart : a + n ≤ ipHeader + 10 ∨ ipHeader + 12 ≤ a) :
    slice (calculateIpCheckSum buf ipHeader) a n = slice buf a n := by
  simp only [calculateIpCheckSum]
  rw [slice_writeAt_disjoint (by simpa using apart), slice_writeAt_disjoint (by simpa using apart)]

/-- Finishing a packet replaces its length, TTL, flags and both checksums only. -/
theorem slice_finishPacket {a n : Nat} (hh : ipHl buf 4 = h) (h5 : 5 ≤ h)
    (kept : a + n ≤ 6 ∨ 8 ≤ a ∧ a + n ≤ 12 ∨ a = 13 ∧ n ≤ 1 ∨ 16 ≤ a ∧ a + n ≤ 4 + (4 * h + 6) ∨ 4 + (4 * h + 8) ≤ a) :
    slice (finishPacket buf mbz udpl bytesRead) a n = slice buf a n := by
  simp only [finishPacket, hh]
  rw [slice_calculateIpCheckSum (by omega)]
  simp (disch := (first | omega |
    (simp only [length_netBytes, length_hostBytes, List.length_cons, List.length_nil]; omega))) only
    [slice_writeAt_disjoint]

theorem slice_finishPacket_totalLength (hh : ipHl buf 4 = h) (room : 8 ≤ buf.length) :
    slice (finishPacket buf mbz udpl bytesRead) 6 2 = netBytes ((bytesRead + 65536 - 10 + 4 * h + 8) % 65536) := by
  simp only [finishPacket, hh]
  rw [slice_calculateIpCheckSum (by omega), slice_writeAt_disjoint (by omega)]
  exact slice_writeAt_same rfl (by simpa only [length_writeAt] using room)

theorem slice_finishPacket_ttl (room : 13 ≤ buf.length) :
    slice (finishPacket buf mbz udpl bytesRead) 12 1 = [64] := by
  simp only [finishPacket]
  rw [slice_calculateIpCheckSum (by omega)]
  exact slice_writeAt_same rfl (by simpa only [length_writeAt] using room)

theorem slice_finishPacket_udpChecksum (hh : ipHl buf 4 = h) (h5 : 5 ≤ h) (room : 4 + (4 * h + 8) ≤ buf.length) :
    slice (finishPacket buf mbz udpl bytesRead) (4 + (4 * h + 6)) 2 =
      hostBytes (getChecksum (slice buf 12 (12 + 8 + bytesRead - 10 + (12 + 8 + bytesRead - 10) % 2))) := by
  simp only [finishPacket, hh]
  rw [slice_calculateIpCheckSum (by omega)]
  simp (disch := (first | omega |
    (simp only [length_netBytes, length_hostBytes, List.length_cons, List.length_nil]; omega))) only
    [slice_writeAt_disjoint]
  exact slice_writeAt_same rfl (by omega)

theorem ipHl_finishPacket (hh : ipHl buf 4 = h) (h5 : 5 ≤ h) : ipHl (finishPacket buf mbz udpl bytesRead) 4 = h := by
  rw [← hh]
  exact ipHl_congr (slice_finishPacket hh h5 (by omega))

/-- The finished header sums to all ones. -/
theorem finishPacket_sums (hh : ipHl buf 4 = h) (h5 : 5 ≤ h) (room : 4 + 4 * h ≤ buf.length) :
    onesSum (wordsBE (slice (finishPacket buf mbz udpl bytesRead) 4 (4 * h))) = 65535 := by
  simp only [finishPacket, hh]
  refine calculateIpCheckSum_sums ?_ h5 (by simpa only [length_writeAt] using room)
  simp (disch := (first | omega |
    (simp only [length_netBytes, length_hostBytes, List.length_cons, List.length_nil]; omega))) only
    [ipHl_writeAt_disjoint, hh]

end Finish

/-! What is built does not depend on what the buffer held outside the packet. -/

section Window
variable {x y : List UInt8} {n h : Nat}

private theorem ipHl_window (same : slice x 4 n = slice y 4 n) (long : 1 ≤ n) : ipHl x 4 = ipHl y 4 :=
  ipHl_congr (slice_congr same (Nat.le_refl 4) (by omega))

theorem overlayHeaders_window {header srcIp : List UInt8} {srcPort bytesRead : Nat} (long : 12 ≤ n)
    (same : slice (writeAt x 4 header) 4 n = slice (writeAt y 4 header) 4 n) :
    slice (overlayHeaders x header srcIp srcPort bytesRead) 4 n =
      slice (overlayHeaders y header srcIp srcPort bytesRead) 4 n := by
  simp only [overlayHeaders]
  set u := (bytesRead + 65536 - 10 + 8) % 65536
  have pseudo : slice (writeAt (writeAt (writeAt (writeAt x 4 header) (4 + 12) srcIp) 12 [0]) 14 (netBytes u)) 4 n =
      slice (writeAt (writeAt (writeAt (writeAt y 4 header) (4 + 12) srcIp) 12 [0]) 14 (netBytes u)) 4 n := by
    refine slice_writeAt_congr ?_ (by omega) _
    refine slice_writeAt_congr ?_ (by omega) _
    exact slice_writeAt_congr same (by omega) _
  have ports := fun k => slice_writeAt_congr pseudo (show 4 ≤ 4 + 4 * k by omega) (netBytes srcPort)
  rw [ipHl_window pseudo (by omega)]
  rw [slice_congr (ports _) (show 4 ≤ 14 by omega) (show 14 + 2 ≤ 4 + n by omega)]
  refine slice_writeAt_congr ?_ (by omega) _
  exact slice_writeAt_congr (ports _) (by omega) _

theorem paddle_window {bytesRead : Nat} (same : slice x 4 n = slice y 4 n) :
    slice (paddle x bytesRead) 4 n = slice (paddle y bytesRead) 4 n := by
  simp only [paddle]
  split
  · exact slice_writeAt_congr same (by omega) _
  · exact same

private theorem calculateIpCheckSum_window (hh : ipHl x 4 = h) (fits : 4 * h ≤ n) (long : 1 ≤ n)
    (same : slice x 4 n = slice y 4 n) :
    slice (calculateIpCheckSum x 4) 4 n = slice (calculateIpCheckSum y 4) 4 n := by
  have cleared := slice_writeAt_congr same (show 4 ≤ 4 + 10 by omega) [0, 0]
  have hx : ipHl (writeAt x (4 + 10) [0, 0]) 4 = h := (ipHl_writeAt_disjoint (Or.inl (by omega))).trans hh
  have hy : ipHl (writeAt y (4 + 10) [0, 0]) 4 = h := (ipHl_window cleared long).symm.trans hx
  simp only [calculateIpCheckSum]
  rw [hx, hy, slice_congr cleared (Nat.le_refl 4) (show 4 + 4 * h ≤ 4 + n by omega)]
  exact slice_writeAt_congr cleared (by omega) _

theorem finishPacket_window {bytesRead : Nat} {mbz udpl : UInt8} (hh : ipHl x 4 = h) (h5 : 5 ≤ h) (fits : 4 * h ≤ n)
    (same : slice x 4 n = slice y 4 n)
    (summed : slice x 12 (12 + 8 + bytesRead - 10 + (12 + 8 + bytesRead - 10) % 2) =
      slice y 12 (12 + 8 + bytesRead - 10 + (12 + 8 + bytesRead - 10) % 2)) :
    slice (finishPacket x mbz udpl bytesRead) 4 n = slice (finishPacket y mbz udpl bytesRead) 4 n := by
  have hy : ipHl y 4 = h := (ipHl_window same (by omega)).symm.trans hh
  simp only [finishPacket, hh, hy, summed]
  apply calculateIpCheckSum_window (h := h) _ fits (by omega)
  · refine slice_writeAt_congr ?_ (by omega) _
    refine slice_writeAt_congr ?_ (by omega) _
    refine slice_writeAt_congr ?_ (by omega) _
    refine slice_writeAt_congr ?_ (by omega) _
    exact slice_writeAt_congr same (by omega) _
  · simp (disch := (first | omega |
      (simp only [length_netBytes, length_hostBytes, List.length_cons, List.length_nil]; omega))) only
      [ipHl_writeAt_disjoint, hh]

end Window

end Tunosocks.Udp
