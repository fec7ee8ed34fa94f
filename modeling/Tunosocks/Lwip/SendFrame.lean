import Tunosocks.Lwip.Segmenting

/-! What the functions of the sending side leave alone, and the memory their segments refer to. -/
namespace Tunosocks.Lwip
open Foundation Foundation.Serial Tcp

/-- What a reference yields when it is followed. -/
def Rom.load (buff : List UInt8) (r : Rom) : List UInt8 := (buff.drop r.payload).take r.bytes.length

/-- What the interface reads of a segment. -/
def OutSeg.wire (buff : List UInt8) (seg : OutSeg) : List UInt8 := seg.p.flatMap (Rom.load buff)

variable {data buff : List UInt8} {seg : OutSeg} {rest : List OutSeg}

section Frame
variable {s s' : Snd}

/-- The segments a block holds. -/
def Snd.held (s : Snd) : List OutSeg := s.unacked ++ s.unsent

/-- The fields that `tcp_output`, `tcp_write` and `tcp_send_fin` only read. -/
def Snd.tuning (s : Snd) : Nat × Nat × Nat × Nat × Nat × BitVec 32 × Bool × Bool :=
  (s.mss, s.sndWnd, s.sndWndMax, s.cwnd, s.ssthresh, s.lastack, s.infr, s.nodelay)

private theorem sentHead_held (hs : s.unsent = seg :: rest) : (s.sentHead seg rest).held ⊆ s.held := by
  intro t ht
  simp only [Snd.held, Snd.sentHead, hs, List.mem_append, List.mem_cons] at ht ⊢
  rcases ht with ht | ht
  · split at ht
    · rcases List.mem_cons.mp ((insertUnacked_perm seg s.unacked).mem_iff.mp ht) with rfl | ht
      · exact .inr (.inl rfl)
      · exact .inl ht
    · exact .inl ht
  · exact .inr (.inr ht)

private theorem outputLoop_frame {l : List OutSeg} (hs : s.unsent = l) (ok : Nat) :
    (Snd.outputLoop l ok s).1.tuning = s.tuning ∧ (Snd.outputLoop l ok s).1.fin = s.fin ∧
      (Snd.outputLoop l ok s).1.held ⊆ s.held ∧
      ∀ seg ∈ (Snd.outputLoop l ok s).2.1, seg ∈ l ∧ s.fits seg = true := by
  induction l generalizing s ok with
  | nil => exact ⟨rfl, rfl, List.Subset.refl _, List.forall_mem_nil _⟩
  | cons seg rest ih =>
    unfold Snd.outputLoop
    split
    case isFalse => exact ⟨rfl, rfl, List.Subset.refl _, List.forall_mem_nil _⟩
    case isTrue hgo =>
      cases ok with
      | zero => exact ⟨rfl, rfl, List.Subset.refl _, List.forall_mem_nil _⟩
      | succ ok =>
        obtain ⟨h1, h1', h2, h3⟩ := ih (s := s.startTimer.sentHead seg rest) rfl ok
        have hheld : (s.startTimer.sentHead seg rest).held ⊆ s.held := sentHead_held (s := s.startTimer) hs
        refine ⟨h1, h1', fun t ht => hheld (h2 ht), List.forall_mem_cons.mpr ⟨⟨List.mem_cons_self, ?_⟩, fun t ht => ?_⟩⟩
        · exact (Bool.and_eq_true_iff.mp hgo).1
        · exact ⟨List.mem_cons_of_mem seg (h3 t ht).1, (h3 t ht).2⟩

/-- `tcp_output` moves segments of the block and sends those that fit. -/
theorem tcpOutput_frame (s : Snd) (ackNow : Bool) (ok : Nat) :
    (s.tcpOutput ackNow ok).1.tuning = s.tuning ∧ (s.tcpOutput ackNow ok).1.fin = s.fin ∧
      (s.tcpOutput ackNow ok).1.held ⊆ s.held ∧
      ∀ seg ∈ (s.tcpOutput ackNow ok).2.1, seg ∈ s.unsent ∧ s.fits seg = true := by
  have idle : (s.nothingToSend ackNow).1.tuning = s.tuning ∧ (s.nothingToSend ackNow).1.fin = s.fin ∧
      (s.nothingToSend ackNow).1.held ⊆ s.held ∧
      ∀ seg ∈ (s.nothingToSend ackNow).2.1, seg ∈ s.unsent ∧ s.fits seg = true := by
    cases ackNow <;> exact ⟨rfl, rfl, List.Subset.refl _, List.forall_mem_nil _⟩
  unfold Snd.tcpOutput
  split
  case h_1 => exact idle
  case h_2 seg rest hs =>
    split
    case isFalse => exact idle
    case isTrue =>
      have hloop := outputLoop_frame hs ok
      rw [← hs] at hloop ⊢
      dsimp only
      split <;> exact hloop

theorem tcpRexmit_held (hs : s.tcpRexmit = some s') : s'.held ⊆ s.held := by
  unfold Snd.tcpRexmit at hs
  split at hs
  case h_1 => cases hs
  case h_2 seg rest hun =>
    cases hs
    intro t ht
    simp only [Snd.held, hun, List.mem_append, List.mem_cons] at ht ⊢
    rcases ht with ht | ht
    · exact .inl (.inr ht)
    · rcases List.mem_cons.mp ((insertSorted_perm seg s.unsent).mem_iff.mp ht) with rfl | ht
      · exact .inl (.inl rfl)
      · exact .inr ht

private theorem tcpRexmitFast_held (s : Snd) : s.tcpRexmitFast.held ⊆ s.held := by
  unfold Snd.tcpRexmitFast
  split
  · exact List.Subset.refl _
  split
  case h_1 => exact List.Subset.refl _
  case h_2 s1 hs1 =>
    have hheld : s1.held ⊆ s.held := tcpRexmit_held hs1
    exact hheld

private theorem dupAck_held (s : Snd) : s.dupAck.held ⊆ s.held := by
  unfold Snd.dupAck
  extract_lets s1 s2
  have h2 : s2.held = s.held := by
    show (if 3 < s1.dupacks then { s1 with cwnd := wndInc s1.cwnd s1.mss } else s1).held = s.held
    split <;> rfl
  rw [← h2]
  split
  · exact tcpRexmitFast_held s2
  · exact List.Subset.refl _

private theorem tcpFreeAckedSegments_suffix {ackno : BitVec 32} {ss ss' : List OutSeg}
    {queuelen len queuelen' len' : Nat}
    (h : Snd.tcpFreeAckedSegments ackno ss queuelen len = some (ss', queuelen', len')) : ss' <:+ ss := by
  induction ss generalizing queuelen len with
  | nil =>
    cases h
    exact List.suffix_rfl
  | cons seg ss ih =>
    unfold Snd.tcpFreeAckedSegments at h
    split at h
    · split at h
      · exact (ih h).trans (List.suffix_cons seg ss)
      · cases h
    · cases h
      exact List.suffix_rfl

private theorem updateWnd_frame (s : Snd) (hdr : AckHdr) :
    s.updateWnd hdr = { s with
      sndWnd := (s.updateWnd hdr).sndWnd, sndWndMax := (s.updateWnd hdr).sndWndMax,
      sndWl1 := (s.updateWnd hdr).sndWl1, sndWl2 := (s.updateWnd hdr).sndWl2 } := by
  unfold Snd.updateWnd
  split <;> rfl

/-- What an acknowledgement can do to the fields of a block. -/
theorem tcpReceiveAck_inv {hdr : AckHdr} {len : Nat} {now : Bool} (h : s.tcpReceiveAck hdr = some (s', len, now)) :
    s' = (s.updateWnd hdr).dupAck ∨ (∃ d, s' = { s.updateWnd hdr with dupacks := d }) ∨
      ∃ c ua us ql rt sb, s' = { (s.updateWnd hdr).leaveInfr.growCwnd c with
        dupacks := 0, lastack := hdr.ackno, unacked := ua, unsent := us, sndQueuelen := ql, rtime := rt,
        sndBuf := sb } ∧ ua <:+ s.unacked ∧ us <:+ s.unsent := by
  simp only [Snd.tcpReceiveAck] at h
  split at h
  · split at h
    · cases h
      exact .inl rfl
    · cases h
      exact .inr (.inl ⟨_, rfl⟩)
  · split at h
    · obtain ⟨⟨s1, len1⟩, hack, hout⟩ := Option.map_eq_some_iff.mp h
      cases hout
      have hq := ((Sending.growCwnd_same _ ((hdr.ackno - (s.updateWnd hdr).lastack).toNat % 65536)).trans
        (Sending.leaveInfr_same (s.updateWnd hdr))).trans (Sending.updateWnd_same s hdr)
      simp only [Snd.queues, Prod.mk.injEq] at hq
      simp only [Snd.ackNew, Snd.freeAcked, Option.bind_eq_bind, Option.bind_eq_some_iff, Option.some.injEq,
        Prod.mk.injEq] at hack
      obtain ⟨⟨ua, ql, l1⟩, hua, ⟨us, ql', l2⟩, hus, rfl, -⟩ := hack
      refine .inr (.inr ⟨_, ua, us, ql', _, _, rfl, ?_, ?_⟩)
      · exact hq.1 ▸ tcpFreeAckedSegments_suffix hua
      · exact hq.2.1 ▸ tcpFreeAckedSegments_suffix hus
    · cases h
      exact .inr (.inl ⟨_, rfl⟩)

private theorem updateWnd_held (s : Snd) (hdr : AckHdr) : (s.updateWnd hdr).held = s.held := by
  rw [updateWnd_frame]
  rfl

theorem tcpReceiveAck_held {hdr : AckHdr} {len : Nat} {now : Bool} (h : s.tcpReceiveAck hdr = some (s', len, now)) :
    s'.held ⊆ s.held := by
  rcases tcpReceiveAck_inv h with rfl | ⟨d, rfl⟩ | ⟨c, ua, us, ql, rt, sb, rfl, hua, hus⟩
  · exact updateWnd_held s hdr ▸ dupAck_held _
  · rw [← updateWnd_held s hdr]
    exact List.Subset.refl _
  · exact List.append_subset.mpr ⟨fun t ht => List.mem_append_left _ (hua.subset ht),
      fun t ht => List.mem_append_right _ (hus.subset ht)⟩

/-- The fields that only the peer's window changes. -/
def Snd.sizes (s : Snd) : Nat × Nat × Nat × Bool × Bool := (s.mss, s.sndWnd, s.sndWndMax, s.nodelay, s.fin)

private theorem leaveInfr_sizes (s : Snd) : s.leaveInfr.sizes = s.sizes := by
  unfold Snd.leaveInfr
  split <;> rfl

private theorem growCwnd_sizes (s : Snd) (c : Nat) : (s.growCwnd c).sizes = s.sizes := by
  unfold Snd.growCwnd
  split
  · rfl
  · dsimp only
    split <;> rfl

private theorem tcpRexmitFast_sizes (s : Snd) : s.tcpRexmitFast.sizes = s.sizes := by
  unfold Snd.tcpRexmitFast
  split
  · rfl
  split
  case h_1 => rfl
  case h_2 s1 hs1 =>
    unfold Snd.tcpRexmit at hs1
    split at hs1
    case h_1 => cases hs1
    case h_2 =>
      cases hs1
      rfl

private theorem dupAck_sizes (s : Snd) : s.dupAck.sizes = s.sizes := by
  unfold Snd.dupAck
  extract_lets s1 s2
  have h2 : s2.sizes = s.sizes := by
    show (if 3 < s1.dupacks then { s1 with cwnd := wndInc s1.cwnd s1.mss } else s1).sizes = s.sizes
    split <;> rfl
  split
  · exact (tcpRexmitFast_sizes s2).trans h2
  · exact h2

private theorem tcpReceiveAck_sizes {hdr : AckHdr} {len : Nat} {now : Bool}
    (h : s.tcpReceiveAck hdr = some (s', len, now)) : s'.sizes = (s.updateWnd hdr).sizes := by
  rcases tcpReceiveAck_inv h with rfl | ⟨d, rfl⟩ | ⟨c, ua, us, ql, rt, sb, rfl, -, -⟩
  · exact dupAck_sizes _
  · rfl
  · exact (growCwnd_sizes _ c).trans (leaveInfr_sizes _)

theorem tcpReceiveAck_fin {hdr : AckHdr} {len : Nat} {now : Bool} (h : s.tcpReceiveAck hdr = some (s', len, now)) :
    s'.fin = s.fin := by
  have hs := tcpReceiveAck_sizes h
  simp only [Snd.sizes, Prod.mk.injEq] at hs
  rw [hs.2.2.2.2, updateWnd_frame]

theorem tcpReceiveAck_sized {hdr : AckHdr} {len : Nat} {now : Bool} {q : List (Piece UInt8)}
    (h : s.tcpReceiveAck hdr = some (s', len, now)) (hz : Sized s q) : Sized s' q := by
  have hs := tcpReceiveAck_sizes h
  have hmono : (s.updateWnd hdr).mss = s.mss ∧ s.sndWndMax ≤ (s.updateWnd hdr).sndWndMax := by
    unfold Snd.updateWnd
    split
    · exact ⟨rfl, Nat.le_max_left _ _⟩
    · exact ⟨rfl, le_rfl⟩
  simp only [Snd.sizes, Prod.mk.injEq] at hs
  exact hz.mono (hs.1.trans hmono.1) (hmono.2.trans_eq hs.2.2.1.symm)

end Frame

/-- Every reference of the segment still yields what was there when it was queued. -/
def OutSeg.Loaded (buff : List UInt8) (seg : OutSeg) : Prop := ∀ r ∈ seg.p, r.load buff = r.bytes

theorem OutSeg.Loaded.wire_eq (h : seg.Loaded buff) : seg.wire buff = seg.bytes := by
  unfold OutSeg.wire OutSeg.bytes
  exact List.flatMap_congr h

private theorem load_eq_take {arg len : Nat} (h : data <+: buff.drop arg) :
    Rom.load buff ⟨arg, data.take len⟩ = data.take len := by
  rw [Rom.load, List.length_take]
  obtain ⟨rest, hrest⟩ := h
  rw [← hrest, List.take_append_of_le_length (Nat.min_le_right _ _)]
  exact List.take_eq_take_iff.mpr (by omega)

private theorem newSegments_loaded {mss fuel room queuelen queuelen' arg : Nat} {seqno : BitVec 32} {segs : List OutSeg}
    (hdata : data <+: buff.drop arg) (h : newSegments mss fuel seqno arg data room queuelen = .ok (segs, queuelen')) :
    ∀ seg ∈ segs, seg.Loaded buff := by
  induction fuel generalizing seqno arg data room queuelen segs with
  | zero =>
    cases data with
    | nil =>
      cases h
      exact List.forall_mem_nil _
    | cons d data => cases h
  | succ fuel ih =>
    cases data with
    | nil =>
      cases h
      exact List.forall_mem_nil _
    | cons d data =>
      simp only [newSegments] at h
      split at h
      case isTrue => cases h
      split at h
      case isTrue => cases h
      split at h
      case isTrue => cases h
      generalize min (d :: data).length mss = len at h
      cases hrest : newSegments mss fuel (seqno + ofLen len) (arg + len) ((d :: data).drop len) (room - 3)
          (queuelen + 2) with
      | error e =>
        rw [hrest] at h
        cases h
      | ok o =>
        rw [hrest] at h
        cases h
        have hdrop : (d :: data).drop len <+: buff.drop (arg + len) := by
          rw [← List.drop_drop]
          exact hdata.drop len
        refine List.forall_mem_cons.mpr ⟨List.forall_mem_singleton.mpr (load_eq_take hdata), ih hdrop hrest⟩

private theorem extendRom_loaded {p : List Rom} {arg : Nat} (hp : ∀ r ∈ p, r.load buff = r.bytes)
    (hlast : ∀ r ∈ p.getLast?, r.payload + r.bytes.length = arg) (hdata : data <+: buff.drop arg) :
    ∀ r ∈ extendRom data p, r.load buff = r.bytes := by
  induction p with
  | nil => exact hp
  | cons q p ih =>
    cases p with
    | nil =>
      refine List.forall_mem_singleton.mpr ?_
      have hq : (buff.drop q.payload).take q.bytes.length = q.bytes := hp q List.mem_cons_self
      have harg := hlast q rfl
      rw [← harg, ← List.drop_drop] at hdata
      simp only [Rom.load, List.length_append, List.take_add, hq]
      rw [← List.prefix_iff_eq_take.mp hdata]
    | cons q' p =>
      refine List.forall_mem_cons.mpr ⟨hp q List.mem_cons_self, ih ?_ ?_⟩
      · exact fun r hr => hp r (List.mem_cons_of_mem q hr)
      · exact fun r hr => hlast r hr

private theorem extend_loaded {arg : Nat} (h : seg.Loaded buff) (hdata : data <+: buff.drop arg) (len : Nat) :
    (seg.extend arg (data.take len)).Loaded buff := by
  have htake : data.take len <+: buff.drop arg := (List.take_prefix len data).trans hdata
  unfold OutSeg.Loaded OutSeg.extend
  dsimp only
  split
  case isTrue hadj =>
    refine extendRom_loaded h (fun r hr => ?_) htake
    simpa [OutSeg.adjoins, Option.mem_def.mp hr] using hadj
  case isFalse => exact List.forall_mem_append.mpr ⟨h, List.forall_mem_singleton.mpr (load_eq_take hdata)⟩

private theorem setPsh_loaded {ss : List OutSeg} (h : ∀ seg ∈ ss, seg.Loaded buff) :
    ∀ seg ∈ setPsh ss, seg.Loaded buff := by
  induction ss with
  | nil => exact h
  | cons seg ss ih =>
    cases ss with
    | nil => exact List.forall_mem_singleton.mpr (h seg List.mem_cons_self)
    | cons t ss =>
      exact List.forall_mem_cons.mpr ⟨h seg List.mem_cons_self, ih fun u hu => h u (List.mem_cons_of_mem seg hu)⟩

section Write
variable {s s' : Snd} {arg room : Nat}

private theorem extendTail_loaded {tail : Tail} (h : ∀ seg ∈ s.unsent, seg.Loaded buff) (hdata : data <+: buff.drop arg)
    (ht : s.extendTail arg data room = .ok tail) : ∀ seg ∈ tail.unsent, seg.Loaded buff := by
  unfold Snd.extendTail at ht
  split at ht
  case h_1 =>
    cases ht
    exact h
  case h_2 last hlast =>
    have hgrown : ∀ len, ∀ seg ∈ s.unsent.dropLast ++ [last.extend arg (data.take len)], seg.Loaded buff := by
      intro len
      refine List.forall_mem_append.mpr ⟨fun seg hseg => h seg ((List.dropLast_prefix _).subset hseg), ?_⟩
      exact List.forall_mem_singleton.mpr (extend_loaded (h last (List.mem_of_getLast? hlast)) hdata len)
    split at ht
    case isTrue => cases ht
    dsimp only at ht
    split at ht
    case isTrue =>
      cases ht
      exact h
    split at ht
    case isTrue =>
      cases ht
      exact hgrown _
    split at ht
    case isTrue => cases ht
    case isFalse =>
      cases ht
      exact hgrown _

/-- The block after `tcp_write`: as it was but for a flag, or with the data queued. -/
theorem tcpWrite_inv {err : Err} (h : s.tcpWrite arg data room = some (s', err)) :
    s' = { s with nagleMemErr := true } ∧ err = .mem ∨ s.enqueue arg data room = .ok s' ∧ err = .ok := by
  unfold Snd.tcpWrite at h
  split at h
  case h_1 => cases h
  case h_2 =>
    cases h
    exact .inl ⟨rfl, rfl⟩
  case h_3 =>
    split at h
    case h_1 => cases h
    case h_2 =>
      unfold Snd.memErr at h
      split at h
      · cases h
        exact .inl ⟨rfl, rfl⟩
      · cases h
    case h_3 s1 hs1 =>
      split at h
      · cases h
        exact .inr ⟨hs1, rfl⟩
      · cases h

theorem enqueue_inv (h : s.enqueue arg data room = .ok s') :
    ∃ tail queue queuelen, s.extendTail arg data room = .ok tail ∧
      newSegments s.mssLocal data.length (s.sndLbb + ofLen tail.pos) (arg + tail.pos) (data.drop tail.pos) tail.room
        tail.queuelen = .ok (queue, queuelen) ∧
      s' = { s with
        unsent := if data.isEmpty then tail.unsent ++ queue else setPsh (tail.unsent ++ queue)
        sndLbb := s.sndLbb + ofLen data.length
        sndBuf := s.sndBuf - data.length
        sndQueuelen := queuelen } := by
  unfold Snd.enqueue at h
  cases ht : s.extendTail arg data room with
  | error e =>
    rw [ht] at h
    cases h
  | ok tail =>
    simp only [ht, bind, Except.bind] at h
    cases hn : newSegments s.mssLocal data.length (s.sndLbb + ofLen tail.pos) (arg + tail.pos) (data.drop tail.pos)
        tail.room tail.queuelen with
    | error e =>
      rw [hn] at h
      cases h
    | ok o =>
      rw [hn] at h
      cases h
      exact ⟨tail, o.1, o.2, rfl, hn, rfl⟩

theorem tcpWrite_tuning {err : Err} (h : s.tcpWrite arg data room = some (s', err)) :
    s'.tuning = s.tuning ∧ s'.fin = s.fin := by
  rcases tcpWrite_inv h with ⟨rfl, -⟩ | ⟨h, -⟩
  · exact ⟨rfl, rfl⟩
  · obtain ⟨-, -, -, -, -, rfl⟩ := enqueue_inv h
    exact ⟨rfl, rfl⟩

theorem tcpWrite_loaded {err : Err} (h : ∀ seg ∈ s.held, seg.Loaded buff) (hdata : data <+: buff.drop arg)
    (hw : s.tcpWrite arg data room = some (s', err)) : ∀ seg ∈ s'.held, seg.Loaded buff := by
  rcases tcpWrite_inv hw with ⟨rfl, -⟩ | ⟨hq, -⟩
  · exact h
  obtain ⟨hu, hv⟩ := List.forall_mem_append.mp h
  obtain ⟨tail, queue, queuelen, ht, hn, rfl⟩ := enqueue_inv hq
  have hdrop : data.drop tail.pos <+: buff.drop (arg + tail.pos) := by
    rw [← List.drop_drop]
    exact hdata.drop tail.pos
  have hall : ∀ seg ∈ tail.unsent ++ queue, seg.Loaded buff :=
    List.forall_mem_append.mpr ⟨extendTail_loaded hv hdata ht, newSegments_loaded hdrop hn⟩
  refine List.forall_mem_append.mpr ⟨hu, ?_⟩
  show ∀ seg ∈ if data.isEmpty then tail.unsent ++ queue else setPsh (tail.unsent ++ queue), seg.Loaded buff
  split
  · exact hall
  · exact setPsh_loaded hall

theorem tcpSendFin_frame (s : Snd) (room : Nat) :
    (s.tcpSendFin room).1.sndBuf = s.sndBuf ∧ (s.tcpSendFin room).1.tuning = s.tuning := by
  have halone : (s.tcpEnqueueFlags false room).1.sndBuf = s.sndBuf ∧
      (s.tcpEnqueueFlags false room).1.tuning = s.tuning := by
    unfold Snd.tcpEnqueueFlags
    split <;> exact ⟨rfl, rfl⟩
  unfold Snd.tcpSendFin
  split
  case h_2 => exact halone
  case h_1 =>
    split
    · exact halone
    · exact ⟨rfl, rfl⟩

theorem tcpSendFin_loaded (h : ∀ seg ∈ s.held, seg.Loaded buff) (room : Nat) :
    ∀ seg ∈ (s.tcpSendFin room).1.held, seg.Loaded buff := by
  obtain ⟨hu, hv⟩ := List.forall_mem_append.mp h
  have halone : ∀ seg ∈ (s.tcpEnqueueFlags false room).1.held, seg.Loaded buff := by
    unfold Snd.tcpEnqueueFlags
    split
    · exact h
    · refine List.forall_mem_append.mpr ⟨hu, List.forall_mem_append.mpr ⟨hv, List.forall_mem_singleton.mpr ?_⟩⟩
      exact List.forall_mem_nil _
  unfold Snd.tcpSendFin
  split
  case h_2 => exact halone
  case h_1 last hlast =>
    split
    · exact halone
    · refine List.forall_mem_append.mpr ⟨hu, List.forall_mem_append.mpr ⟨fun seg hseg => ?_, ?_⟩⟩
      · exact hv seg ((List.dropLast_prefix _).subset hseg)
      · exact List.forall_mem_singleton.mpr (hv last (List.mem_of_getLast? hlast))

end Write

private theorem tcpRexmitFast_ends (s : Snd) :
    s.tcpRexmitFast.lastack = s.lastack ∧ s.tcpRexmitFast.sndNxt = s.sndNxt := by
  unfold Snd.tcpRexmitFast Snd.tcpRexmit
  split
  · exact ⟨rfl, rfl⟩
  cases s.unacked with
  | nil => exact ⟨rfl, rfl⟩
  | cons seg rest => exact ⟨rfl, rfl⟩

private theorem dupAck_ends (s : Snd) : s.dupAck.lastack = s.lastack ∧ s.dupAck.sndNxt = s.sndNxt := by
  unfold Snd.dupAck
  extract_lets s1 s2
  have h2 : s2.lastack = s.lastack ∧ s2.sndNxt = s.sndNxt := by
    show (if 3 < s1.dupacks then { s1 with cwnd := wndInc s1.cwnd s1.mss } else s1).lastack = s.lastack ∧
      (if 3 < s1.dupacks then { s1 with cwnd := wndInc s1.cwnd s1.mss } else s1).sndNxt = s.sndNxt
    split <;> exact ⟨rfl, rfl⟩
  split
  · exact ⟨(tcpRexmitFast_ends s2).1.trans h2.1, (tcpRexmitFast_ends s2).2.trans h2.2⟩
  · exact h2

section Acked
variable {W : List UInt8} {q q' : Snd} {k a n len : Nat} {us vs : List (Piece UInt8)} {hdr : AckHdr} {now : Bool}

private theorem ackNew_lastack {c : BitVec 32} (h : q.ackNew c = some (q', len)) : q'.lastack = c := by
  simp only [Snd.ackNew, Snd.freeAcked, Option.bind_eq_bind, Option.bind_eq_some_iff, Option.some.injEq,
    Prod.mk.injEq] at h
  obtain ⟨_, -, _, -, rfl, -⟩ := h
  rfl

private theorem tcpReceiveAck_sndNxt (ho : q.tcpReceiveAck hdr = some (q', len, now)) : q'.sndNxt = q.sndNxt := by
  have hsame := Sending.updateWnd_same q hdr
  rcases tcpReceiveAck_inv ho with rfl | ⟨d, rfl⟩ | ⟨c, ua, us, ql, rt, sb, rfl, -, -⟩
  · simp only [Snd.queues, Prod.mk.injEq] at hsame
    exact (dupAck_ends _).2.trans hsame.2.2.2.2.1
  · simp only [Snd.queues, Prod.mk.injEq] at hsame
    exact hsame.2.2.2.2.1
  · have hgrow := ((Sending.growCwnd_same _ c).trans (Sending.leaveInfr_same _)).trans hsame
    simp only [Snd.queues, Prod.mk.injEq] at hgrow
    exact hgrow.2.2.2.2.1

/-- An acknowledgement of everything that was sent is the last one. -/
theorem Sending.acked_all (hs : Sending base W q k a n us vs) (ho : q.tcpReceiveAck hdr = some (q', len, now))
    (heq : hdr.ackno = q'.sndNxt) : q'.lastack = q'.sndNxt := by
  have hsame := Sending.updateWnd_same q hdr
  simp only [Snd.queues, Prod.mk.injEq] at hsame
  have hl : (q.updateWnd hdr).lastack = num base a := hsame.2.2.2.1.trans hs.lastack
  have hn : (q.updateWnd hdr).sndNxt = num base n := hsame.2.2.2.2.1.trans hs.sndNxt
  have hnxt := (tcpReceiveAck_sndNxt ho).trans hs.sndNxt
  have hnear := hs.near
  have ha := hs.a_le
  have hk := hs.k_le
  have hn' := hs.n_le
  by_cases hlt : a < n
  · have hold : tcpSeqLeq hdr.ackno (q.updateWnd hdr).lastack = false := by
      rw [heq, hnxt, hl, tcpSeqLeq_num (by omega)]
      exact decide_eq_false (by omega)
    have hnew : tcpSeqBetween hdr.ackno ((q.updateWnd hdr).lastack + 1) (q.updateWnd hdr).sndNxt = true := by
      rw [heq, hnxt, hl, hn, num_add_one, tcpSeqBetween_num (by omega) (by omega)]
      exact decide_eq_true (by omega)
    simp only [Snd.tcpReceiveAck, hold, hnew, Bool.false_eq_true, if_false, if_true] at ho
    obtain ⟨⟨q1, len1⟩, hack, hout⟩ := Option.map_eq_some_iff.mp ho
    cases hout
    exact (ackNew_lastack hack).trans heq
  · obtain rfl : a = n := by omega
    rw [hnxt]
    rcases tcpReceiveAck_inv ho with rfl | ⟨d, rfl⟩ | ⟨c, ua, us, ql, rt, sb, rfl, -, -⟩
    · exact (dupAck_ends _).1.trans hl
    · exact hl
    · exact heq.trans hnxt

/-- What was sent and is acknowledged to the last is not held any more. -/
theorem Sending.none_in_flight (hs : Sending base W q k a n us vs) (heq : q.lastack = q.sndNxt) : q.unacked = [] := by
  have hnear := hs.near
  have ha := hs.a_le
  have hk := hs.k_le
  have hn := hs.n_le
  rw [hs.lastack, hs.sndNxt, num_eq_num (by omega), Nat.cast_inj] at heq
  have hflight := hs.unacked
  cases us with
  | nil => exact List.forall₂_nil_right_iff.mp hflight
  | cons u us =>
    have hlive := hs.live u List.mem_cons_self
    have hflown := hs.flown u List.mem_cons_self
    omega

end Acked

end Tunosocks.Lwip
