import Tunosocks.Lwip.Transmit

/-! What a peer can do to the sending side. A window taken back leaves a segment waiting to be sent
again, and what is written next lands in it. A first window below two bytes aborts the process. -/
namespace Tunosocks.Lwip
open Foundation Foundation.Serial Tcp

variable {base : BitVec 32} {seg : OutSeg} {s : TxState}

private theorem setPsh_head (seg : OutSeg) (ss : List OutSeg) :
    ∃ psh rest, setPsh (seg :: ss) = { seg with psh := psh } :: rest := by
  cases ss with
  | nil => exact ⟨true, [], rfl⟩
  | cons t ss => exact ⟨seg.psh, _, rfl⟩

/-- The tail of `unsent` takes some of what is written, wherever it lies. -/
private theorem extendTail_takes {s : Snd} {arg room : Nat} {data : List UInt8} {tail : Tail} (hun : s.unsent = [seg])
    (hsyn : seg.syn = false) (hlen : 0 < seg.len) (hroom : seg.len < s.mssLocal) (hne : data ≠ [])
    (h : s.extendTail arg data room = .ok tail) :
    ∃ len, 0 < len ∧ tail.unsent = [seg.extend arg (data.take len)] := by
  have hpos := List.length_pos_of_ne_nil hne
  have hopt : seg.optlen = 0 := by simp [OutSeg.optlen, hsyn]
  simp only [Snd.extendTail, hun, List.getLast?_singleton, hopt, Nat.add_zero, if_neg (Nat.not_lt.mpr hroom.le)] at h
  have hmin : ¬ (min (s.mssLocal - seg.len) data.length = 0 ∨ seg.len = 0) := by omega
  rw [if_neg hmin] at h
  refine ⟨min (s.mssLocal - seg.len) data.length, by omega, ?_⟩
  split at h
  · cases h
    rfl
  · split at h
    · cases h
    · cases h
      rfl

/-- While a segment that was sent before is the only one waiting, the next write is numbered as if it followed
that segment: its first byte gets the number of a byte that was written earlier. -/
theorem write_behind_stuck_segment_is_misplaced {ts : List SndTransition} (hr : (sndMachine base).Run ts s)
    (hg : Settled ts) (hun : s.snd.unsent = [seg]) (hstuck : s.snd.settled = false) (hopen : s.snd.fin = false)
    (hlen : 0 < seg.len) (hroom : seg.len < s.snd.mssLocal) {d : UInt8} {data : List UInt8} {arg room : Nat} {snd : Snd}
    (hw : s.snd.tcpWrite arg (d :: data) room = some (snd, .ok)) :
    ∃ off : Nat, ∃ t ∈ snd.unsent, t.seqno = num base off ∧ off + seg.len < (written (Machine.trace ts)).length ∧
      t.bytes[seg.len]? = some d := by
  obtain ⟨k, a, n, us, vs, h⟩ := transmitting_run hr hg
  obtain ⟨x, vs', rfl, hx, hnil⟩ := h.sending.of_unsent_cons hun
  cases hnil
  have hplace : x.off + seg.len < (written (Machine.trace ts)).length := by
    have hb : ¬ Outgoing.Behind us [x] := fun hb => by
      rw [h.sending.settled_iff.mpr hb] at hstuck
      cases hstuck
    simp only [Outgoing.Behind, List.getLast?_singleton, Option.mem_some_iff, forall_eq', not_forall] at hb
    obtain ⟨u, hu, hle⟩ := hb
    have hxm : x ∈ us ++ [x] := by simp
    have hum : u ∈ us ++ [x] := List.mem_append_left _ hu
    have hne : x.off ≠ u.off := fun heq => by
      have := h.sending.kept.eq_of_off hxm hum heq
      exact (List.nodup_append.mp h.sending.kept.nodup).2.2 u hu x (List.mem_singleton_self x) this.symm
    have hpast := h.sending.kept.past_le_of_off_lt hxm hum (by omega)
    obtain ⟨-, hspan, -, hend⟩ := h.sending.kept.cut hum
    simp only [hopen, Bool.toNat_false, Nat.add_zero, Piece.past, Piece.span, hx.len] at hpast hend hspan ⊢
    omega
  rcases tcpWrite_inv hw with ⟨-, herr⟩ | ⟨hq, -⟩
  · cases herr
  obtain ⟨tail, queue, queuelen, htail, -, rfl⟩ := enqueue_inv hq
  obtain ⟨len, hpos, hunsent⟩ := extendTail_takes hun hx.syn hlen hroom (List.cons_ne_nil d data) htail
  obtain ⟨psh, rest, hpsh⟩ := setPsh_head (seg.extend arg ((d :: data).take len)) queue
  have hbytes := (extend_is hx arg ((d :: data).take len)).bytes
  refine ⟨x.off, { seg.extend arg ((d :: data).take len) with psh := psh }, ?_, hx.seqno, hplace, ?_⟩
  · simp only [List.isEmpty_cons, Bool.false_eq_true, if_false, hunsent, List.singleton_append, hpsh]
    exact List.mem_cons_self
  · show (seg.extend arg ((d :: data).take len)).bytes[seg.len]? = some d
    rw [hbytes, hx.len, List.getElem?_append_right le_rfl, Nat.sub_self, List.getElem?_take_of_lt hpos]
    rfl

/-- Four bytes in two segments; the peer sends a byte and takes its window back, then acknowledges nothing
three times. -/
def reneged : List SndAct :=
  [.relay [1, 2] 99 ⟨false, 9⟩, .relay [3, 4] 99 ⟨false, 9⟩, .segment ⟨101, 0, 1, 1⟩ none ⟨false, 9⟩,
    .segment ⟨101, 0, 1, 0⟩ none ⟨false, 9⟩, .segment ⟨101, 0, 1, 0⟩ none ⟨false, 9⟩,
    .segment ⟨101, 0, 1, 0⟩ none ⟨false, 9⟩]

theorem write_behind_stuck_segment_is_misplaced_nine : ∃ ts s, (sndMachine 0).Run ts s ∧
    written (Machine.trace ts) = [1, 2, 3, 4] ∧ ∃ snd, s.snd.tcpWrite 0 [9] 99 = some (snd, .ok) ∧
    ∃ off : Nat, ∃ t ∈ snd.unsent, t.seqno = num 0 off ∧ off + 2 < 4 ∧ t.bytes[2]? = some 9 := by
  obtain ⟨ts, s, run, h⟩ := Machine.Run.exists_of_exec (sndMachine 0)
    ⟨Snd.established 0 100 0 4 10 10 false, []⟩ reneged
    (fun ts s => decide (Settled ts ∧ s.snd.unsent = [⟨0, [⟨0, [1, 2]⟩], 2, false, false, true⟩] ∧
      s.snd.settled = false ∧ s.snd.fin = false ∧ 2 < s.snd.mssLocal ∧ written (Machine.trace ts) = [1, 2, 3, 4] ∧
      (s.snd.tcpWrite 0 [9] 99).map Prod.snd = some .ok))
    ⟨100, 0, 4, 10, 10, false, [], by decide, by decide, by decide, by decide, by decide, rfl⟩ (by decide +kernel)
  obtain ⟨hg, hun, hstuck, hopen, hroom, hwritten, hok⟩ := of_decide_eq_true h
  obtain ⟨⟨snd, err⟩, hw, rfl⟩ := Option.map_eq_some_iff.mp hok
  obtain ⟨off, t, ht, hnum, hlt, hbyte⟩ :=
    write_behind_stuck_segment_is_misplaced run hg hun hstuck hopen (by decide) hroom hw
  rw [hwritten] at hlt
  exact ⟨ts, s, run, hwritten, snd, hw, off, t, ht, hnum, hlt, hbyte⟩

/-! ### A first window below two bytes -/

/-- Data that fits into one segment. -/
private theorem newSegments_one {mss arg room queuelen : Nat} {seqno : BitVec 32} {data : List UInt8} (hne : data ≠ [])
    (hmss : data.length ≤ mss) (hroom : 3 ≤ room) (hq : queuelen + 2 ≤ sndQueuelenMax) :
    newSegments mss data.length seqno arg data room queuelen =
      .ok ([⟨seqno, [⟨arg, data⟩], data.length, false, false, false⟩], queuelen + 2) := by
  cases data with
  | nil => exact absurd rfl hne
  | cons d data =>
    have hlen : min (d :: data).length mss = (d :: data).length := Nat.min_eq_left hmss
    simp only [List.length_cons] at hlen ⊢
    simp only [newSegments, List.length_cons, hlen]
    rw [if_neg (by omega), if_neg (by omega), if_neg (by omega)]
    have hdrop : (d :: data).drop (data.length + 1) = [] := List.drop_eq_nil_of_le (by simp)
    have htake : (d :: data).take (data.length + 1) = d :: data := List.take_of_length_le (by simp)
    rw [hdrop, htake, newSegments]
    rfl

/-- One segment of `len` bytes waits, nothing was sent, and `wnd` is the largest window so far. -/
structure Holding (base : BitVec 32) (mss wnd len : Nat) (s : Snd) : Prop where
  unsent : ∃ seg, s.unsent = [seg] ∧ seg.len = len ∧ seg.seqno = base
  mss : s.mss = mss
  sndWnd : s.sndWnd = wnd
  sndWndMax : s.sndWndMax = wnd
  lastack : s.lastack = base
  sndWl2 : s.sndWl2 = base
  rtime : s.rtime = -1
  sndBuf : s.sndBuf = 0xffff - len
  queuelen : s.sndQueuelen = 2
  open_ : s.fin = false

namespace Holding
variable {mss wnd len : Nat} {s : Snd} {data : List UInt8}

/-- The first write, of data that fits into a segment of the maximum size. -/
private theorem ofWrite (wl1 : BitVec 32) {room : Nat} (hwnd : wnd ≤ 1) (hne : data ≠ []) (hmss : data.length ≤ mss)
    (hroom : 3 ≤ room) (hbuf : data.length ≤ 0xffff) :
    ∃ s, (Snd.established base wl1 base mss wnd wnd false).tcpWrite 0 data room = some (s, .ok) ∧
      Holding base mss wnd data.length s := by
  have hpos := List.length_pos_of_ne_nil hne
  have hlocal : (Snd.established base wl1 base mss wnd wnd false).mssLocal = mss := by
    show (if min mss (wnd / 2) = 0 then mss else min mss (wnd / 2)) = mss
    split <;> omega
  have hchecks : (Snd.established base wl1 base mss wnd wnd false).tcpWriteChecks data.length = some .ok := by
    simp only [Snd.tcpWriteChecks, Snd.established]
    rw [if_neg (by omega), if_neg (by omega), if_neg (by decide), if_neg (by simp), if_pos (by simp)]
  have hadd : base + ofLen 0 = base := by simp [ofLen]
  have hempty : data.isEmpty = false := by simpa using hne
  have hnew := @newSegments_one mss 0 room 0 base data hne hmss hroom (by decide)
  have htail : (Snd.established base wl1 base mss wnd wnd false).extendTail 0 data room = .ok ⟨[], 0, room, 0⟩ := rfl
  simp only [Snd.tcpWrite, hchecks, Snd.enqueue, htail, bind, Except.bind, hlocal, List.drop_zero, Nat.add_zero]
  rw [show (Snd.established base wl1 base mss wnd wnd false).sndLbb = base from rfl, hadd, hnew]
  simp only [hempty, Bool.false_eq_true, if_false, List.nil_append, setPsh]
  exact ⟨_, rfl, ⟨_, rfl, rfl, rfl⟩, rfl, rfl, rfl, rfl, rfl, rfl, rfl, rfl, rfl⟩

/-- It does not fit into the window, so nothing goes out. -/
private theorem output {buff : List UInt8} (h : Holding base mss wnd len s) (hlen : wnd < len) (hle : len ≤ 0xffff)
    (link : Link) : ∃ s', (TxState.mk s buff).output link = (⟨s', buff⟩, []) ∧ Holding base mss wnd len s' := by
  obtain ⟨seg, hun, rfl, hseq⟩ := h.unsent
  have hdist : (seg.seqno - s.lastack + ofLen seg.len).toNat = seg.len := by
    rw [hseq, h.lastack, BitVec.sub_self, BitVec.zero_add, ofLen, BitVec.toNat_ofNat]
    omega
  have hfit : s.fits seg = false := by
    rw [Snd.fits, hdist, Snd.wnd, h.sndWnd]
    exact decide_eq_false (by omega)
  have hout : s.tcpOutput link.ackNow link.ok = s.nothingToSend link.ackNow := by
    unfold Snd.tcpOutput
    rw [hun]
    simp only [hfit, Bool.false_eq_true, if_false]
  unfold TxState.output
  rw [hout, Snd.nothingToSend]
  cases link.ackNow with
  | true => exact ⟨s, rfl, h⟩
  | false => exact ⟨{ s with nagleMemErr := false }, rfl, { h with }⟩

/-- The peer opens its window a little. -/
private theorem ack {hdr : AckHdr} (h : Holding base mss wnd len s) (hack : hdr.ackno = base)
    (hgrown : wnd < hdr.wnd.toNat) :
    ∃ s', s.tcpReceiveAck hdr = some (s', 0, false) ∧ Holding base mss hdr.wnd.toNat len s' := by
  have hupd : s.updateWnd hdr = { s with
      sndWnd := hdr.wnd.toNat, sndWndMax := max s.sndWndMax hdr.wnd.toNat, sndWl1 := hdr.seqno,
      sndWl2 := hdr.ackno } := by
    rw [Snd.updateWnd, if_pos]
    simp [h.sndWl2, hack, h.sndWnd, hgrown]
  have hmax : max s.sndWndMax hdr.wnd.toNat = hdr.wnd.toNat := by rw [h.sndWndMax]; omega
  have hleq : tcpSeqLeq hdr.ackno s.lastack = true := by
    rw [hack, h.lastack]
    simp [tcpSeqLeq]
  refine ⟨{ s.updateWnd hdr with dupacks := 0 }, ?_, ?_⟩
  · simp only [Snd.tcpReceiveAck, hupd, hleq, if_true, h.rtime]
    rw [if_neg (by simp)]
  · rw [hupd]
    exact ⟨h.unsent, h.mss, rfl, hmax, h.lastack, hack, h.rtime, h.sndBuf, h.queuelen, h.open_⟩

/-- Now the segment that waits is longer than any that would be made. -/
private theorem aborts (h : Holding base mss wnd len s) (hwnd : 2 ≤ wnd) (hlen : wnd < len) (hmss : len ≤ mss)
    (hne : data ≠ []) (hbuf : len + data.length ≤ 0xffff) (arg room : Nat) : s.tcpWrite arg data room = none := by
  obtain ⟨seg, hun, rfl, -⟩ := h.unsent
  have hpos := List.length_pos_of_ne_nil hne
  have hlocal : s.mssLocal < seg.len := by
    rw [Snd.mssLocal, h.mss, h.sndWndMax]
    split <;> omega
  have hchecks : s.tcpWriteChecks data.length = some .ok := by
    have hb := h.sndBuf
    simp only [Snd.tcpWriteChecks, h.queuelen]
    rw [if_neg (by omega), if_neg (by omega), if_neg (by decide), if_pos (by decide), if_pos (.inr (by simp [hun]))]
  have htail : s.extendTail arg data room = .error .assertion := by
    simp only [Snd.extendTail, hun, List.getLast?_singleton]
    rw [if_pos (by omega)]
  rw [Snd.tcpWrite, hchecks]
  simp only [Snd.enqueue, htail, bind, Except.bind]

end Holding

/-- Once the peer's first window was below two bytes, segments were cut for its maximum segment size. A window that
is still too small for one of them makes the next write fail an assertion. -/
theorem small_first_window_aborts {wl1 : BitVec 32} {mss wnd room : Nat} {buff data next : List UInt8} {hdr : AckHdr}
    (hwnd : wnd ≤ 1) (hack : hdr.ackno = base) (hgrown : 2 ≤ hdr.wnd.toNat) (hsmall : hdr.wnd.toNat < data.length)
    (hmss : data.length ≤ mss) (hroom : 3 ≤ room) (hne : next ≠ []) (hbuf : data.length + next.length ≤ 0xffff)
    (link link' : Link) : ∃ ts s,
      (sndMachine base).exec ⟨Snd.established base wl1 base mss wnd wnd false, buff⟩
        [.relay data room link, .segment hdr none link'] = some (ts, s) ∧
      ∀ room' link'', (sndMachine base).step s (.relay next room' link'') = none := by
  have hdata : data ≠ [] := List.ne_nil_of_length_pos (by omega)
  obtain ⟨s1, hw, h1⟩ := @Holding.ofWrite base mss wnd data wl1 room hwnd hdata hmss hroom (by omega)
  obtain ⟨s2, ho, h2⟩ := @Holding.output base mss wnd data.length s1 (data ++ buff.drop data.length) h1 (by omega)
    (by omega) link
  obtain ⟨s3, ha, h3⟩ := h2.ack hack (by omega)
  obtain ⟨s4, ho', h4⟩ := @Holding.output base mss hdr.wnd.toNat data.length s3 (data ++ buff.drop data.length) h3
    hsmall (by omega) link'
  have hfirst : (sndMachine base).step ⟨Snd.established base wl1 base mss wnd wnd false, buff⟩ (.relay data room link) =
      some (⟨s2, data ++ buff.drop data.length⟩, [.accepted data]) := by
    have hwrite : (TxState.mk (Snd.established base wl1 base mss wnd wnd false) buff |>.fill data).write data room =
        some (⟨s1, data ++ buff.drop data.length⟩, [.accepted data]) := by
      simp only [TxState.write, TxState.fill, hw, Option.map_some, if_true]
      rfl
    simp only [sndMachine, TxState.step, hwrite, Option.map_some, ho, List.append_nil]
  have hsecond : (sndMachine base).step ⟨s2, data ++ buff.drop data.length⟩ (.segment hdr none link') =
      some (⟨s4, data ++ buff.drop data.length⟩, []) := by
    simp only [sndMachine, TxState.step, TxState.ack, ha, Option.map_some, TxState.callbacks, ho']
    rfl
  refine ⟨_, _, by simp only [Machine.exec, hfirst, hsecond]; rfl, fun room' link'' => ?_⟩
  have habort := h4.aborts hgrown hsmall hmss hne hbuf 0 room'
  simp only [sndMachine, TxState.step, TxState.write, TxState.fill, h4.open_, habort]
  rfl

/-- Three bytes are written while the window is one byte, it grows to two, and a fourth byte aborts. -/
theorem small_first_window_aborts_two : ∃ ts s, (sndMachine 0).exec ⟨Snd.established 0 100 0 1460 1 1 false, []⟩
      [.relay [1, 2, 3] 9 ⟨false, 9⟩, .segment ⟨100, 0, 2, 0⟩ none ⟨false, 9⟩] = some (ts, s) ∧
    (sndMachine 0).step s (.relay [4] 9 ⟨false, 9⟩) = none := by
  obtain ⟨ts, s, hexec, habort⟩ := @small_first_window_aborts 0 100 1460 1 9 [] [1, 2, 3] [4] ⟨100, 0, 2, 0⟩ (by decide)
    rfl (by decide) (by decide) (by decide) (by decide) (by decide) (by decide) ⟨false, 9⟩ ⟨false, 9⟩
  exact ⟨ts, s, hexec, habort 9 ⟨false, 9⟩⟩

end Tunosocks.Lwip
