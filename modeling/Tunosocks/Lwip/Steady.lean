import Tunosocks.Lwip.Transmit

/-! When the peer never takes back a window it announced and the interface takes every segment,
a segment that has to be sent again goes out at once. And nothing waits without a reason. -/
namespace Tunosocks.Lwip
open Foundation Foundation.Serial Tcp

variable {base : BitVec 32} {seg : OutSeg} {x : Piece UInt8} {us vs : List (Piece UInt8)} {k a n : Nat}
  {tr evs : List SndEvent}

/-- The congestion window holds a segment, and the windows are 16 bits wide. -/
structure Paced (s : Snd) : Prop where
  mss : s.mss ≤ 1460
  cwnd : s.mss ≤ s.cwnd
  cwnd_le : s.cwnd ≤ 0xffff
  ssthresh : s.infr = true → 2 * s.mss ≤ s.ssthresh
  ssthresh_le : s.ssthresh ≤ 0xffff
  wnd_le : s.sndWnd ≤ 0xffff
  nodelay : s.nodelay = true

namespace Paced
variable {s s' : Snd}

private theorem congr (h : Paced s) (hs : s'.tuning = s.tuning) : Paced s' := by
  simp only [Snd.tuning, Prod.mk.injEq] at hs
  obtain ⟨h1, h2, -, h4, h5, -, h7, h8⟩ := hs
  exact ⟨h1 ▸ h.mss, h1 ▸ h4 ▸ h.cwnd, h4 ▸ h.cwnd_le, h1 ▸ h5 ▸ h7 ▸ h.ssthresh, h5 ▸ h.ssthresh_le, h2 ▸ h.wnd_le,
    h8 ▸ h.nodelay⟩

private theorem wndInc_bounds {wnd inc : Nat} (h : wnd ≤ 0xffff) : wnd ≤ wndInc wnd inc ∧ wndInc wnd inc ≤ 0xffff := by
  unfold wndInc
  split
  · exact ⟨‹_›, by omega⟩
  · exact ⟨h, le_rfl⟩

private theorem updateWnd (h : Paced s) (hdr : AckHdr) : Paced (s.updateWnd hdr) := by
  unfold Snd.updateWnd
  split
  · exact { h with wnd_le := Nat.le_of_lt_succ hdr.wnd.isLt }
  · exact h

private theorem growCwnd (h : Paced s) (c : Nat) : Paced (s.growCwnd c) := by
  have grown := fun inc => @wndInc_bounds s.cwnd inc h.cwnd_le
  unfold Snd.growCwnd
  split
  · exact { h with cwnd := h.cwnd.trans (grown _).1, cwnd_le := (grown _).2 }
  · dsimp only
    split
    · exact { h with cwnd := h.cwnd.trans (grown _).1, cwnd_le := (grown _).2 }
    · exact { h with }

private theorem leaveInfr (h : Paced s) : Paced s.leaveInfr := by
  unfold Snd.leaveInfr
  split
  case isTrue hin =>
    have hss := h.ssthresh hin
    exact { h with
      cwnd := by show s.mss ≤ s.ssthresh; omega
      cwnd_le := h.ssthresh_le
      ssthresh := fun hf => by cases hf }
  case isFalse => exact h

end Paced

/-- A fast retransmission changes nothing, or puts the first segment back and leaves room for it. -/
private theorem tcpRexmitFast_cases {s : Snd} (h : Paced s) :
    s.tcpRexmitFast = s ∨ ∃ s1, s.tcpRexmit = some s1 ∧ Paced s.tcpRexmitFast ∧
      s.tcpRexmitFast.queues = s1.queues := by
  unfold Snd.tcpRexmitFast
  split
  · exact .inl rfl
  split
  case h_1 => exact .inl rfl
  case h_2 s1 hs1 =>
    refine .inr ⟨s1, hs1, ?_⟩
    have h1 : Paced s1 := by
      unfold Snd.tcpRexmit at hs1
      split at hs1
      · cases hs1
      · cases hs1
        exact { h with }
    have hm := h1.mss
    have hc := h1.cwnd_le
    dsimp only
    have hss : 2 * s1.mss ≤ (if min s1.cwnd s1.sndWnd / 2 < 2 * s1.mss then 2 * s1.mss % 65536
        else min s1.cwnd s1.sndWnd / 2) ∧ (if min s1.cwnd s1.sndWnd / 2 < 2 * s1.mss then 2 * s1.mss % 65536
        else min s1.cwnd s1.sndWnd / 2) ≤ 0x7fff := by
      split <;> omega
    generalize (if min s1.cwnd s1.sndWnd / 2 < 2 * s1.mss then 2 * s1.mss % 65536
        else min s1.cwnd s1.sndWnd / 2) = ss at hss
    have hmod : (ss + 3 * s1.mss) % 65536 = ss + 3 * s1.mss := Nat.mod_eq_of_lt (by omega)
    rw [hmod]
    exact ⟨{ h1 with
      cwnd := by show s1.mss ≤ ss + 3 * s1.mss; omega
      cwnd_le := by show ss + 3 * s1.mss ≤ 0xffff; omega
      ssthresh := fun _ => hss.1
      ssthresh_le := hss.2.trans (by decide) }, rfl⟩

private theorem Paced.dupAck {s : Snd} (h : Paced s) : Paced s.dupAck := by
  unfold Snd.dupAck
  extract_lets s1 s2
  have h2 : Paced s2 := by
    show Paced (if 3 < s1.dupacks then { s1 with cwnd := wndInc s1.cwnd s1.mss } else s1)
    split
    · have hb := @Paced.wndInc_bounds s.cwnd s.mss h.cwnd_le
      exact { h with cwnd := h.cwnd.trans hb.1, cwnd_le := hb.2 }
    · exact { h with }
  split
  · rcases tcpRexmitFast_cases h2 with heq | ⟨_, -, hp, -⟩
    · rwa [heq]
    · exact hp
  · exact h2

private theorem Paced.tcpReceiveAck {s s' : Snd} {hdr : AckHdr} {len : Nat} {now : Bool} (h : Paced s)
    (hack : s.tcpReceiveAck hdr = some (s', len, now)) : Paced s' := by
  have hu := h.updateWnd hdr
  rcases tcpReceiveAck_inv hack with rfl | ⟨d, rfl⟩ | ⟨c, ua, us, ql, rt, sb, rfl, -, -⟩
  · exact hu.dupAck
  · exact { hu with }
  · exact { hu.leaveInfr.growCwnd c with }

section Run
variable {s s' : TxState}

private theorem Paced.output (h : Paced s.snd) (link : Link) : Paced (s.output link).1.snd :=
  h.congr (tcpOutput_frame s.snd link.ackNow link.ok).1

private theorem callbacks_tuning (s : TxState) (hdr : AckHdr) (close : Option Nat) :
    (s.callbacks hdr close).1.snd.tuning = s.snd.tuning := by
  unfold TxState.callbacks
  split
  case h_2 => rfl
  case h_1 room =>
    split
    case isFalse => rfl
    case isTrue =>
      unfold TxState.close
      split
      · rfl
      · exact (tcpSendFin_frame s.snd room).2

private theorem Paced.step {act : SndAct} (h : Paced s.snd) (hstep : s.step act = some (s', evs)) : Paced s'.snd := by
  cases act with
  | relay data room link =>
    obtain ⟨o, ho, heq⟩ := Option.map_eq_some_iff.mp hstep
    cases heq
    refine Paced.output (h.congr ?_) link
    unfold TxState.write at ho
    split at ho
    · cases ho
      rfl
    · obtain ⟨w, hw, heq⟩ := Option.map_eq_some_iff.mp ho
      cases heq
      exact (tcpWrite_tuning hw).1
  | segment hdr close link =>
    obtain ⟨o, ho, heq⟩ := Option.map_eq_some_iff.mp hstep
    cases heq
    obtain ⟨w, hw, heq⟩ := Option.map_eq_some_iff.mp ho
    cases heq
    exact Paced.output ((h.tcpReceiveAck hw).congr (callbacks_tuning _ hdr close)) link
  | output link =>
    cases hstep
    exact h.output link

private theorem Paced.init (h : (sndMachine base).Init s) : Paced s.snd := by
  obtain ⟨wl1, wl2, mss, wnd, wndMax, memErr, buff, h0, h1, -, h2, h3, rfl⟩ := h
  refine ⟨h1, ?_, ?_, fun hf => absurd hf Bool.false_ne_true, le_rfl, h2.trans h3, rfl⟩
  all_goals
    simp only [Snd.established, initialCwnd]
    omega

private theorem paced_run {ts : List SndTransition} (hr : (sndMachine base).Run ts s) : Paced s.snd :=
  hr.invariant (fun s => Paced s.snd) (fun _ hs => .init hs) fun _ _ _ _ h hstep => h.step hstep

/-- The first piece in flight starts at or before the first place that is not acknowledged. -/
private theorem Sending.first_le {S : List UInt8} {s : Snd} (h : Sending base S s k a n (x :: us) vs)
    (hf : Fresh n vs) : x.off ≤ a := by
  have hlive := h.live x List.mem_cons_self
  have hpast := (h.kept.cut (x := x) List.mem_cons_self).2.2.2
  obtain ⟨z, hz, hoff, hzp⟩ := h.kept.covers (k := a) h.k_le (hlive.trans_le hpast)
  rcases List.mem_append.mp hz with hu | hv
  · rcases List.mem_cons.mp hu with rfl | hu
    · exact hoff
    · exact ((List.pairwise_cons.mp h.kept.flight).1 z hu).trans hoff
  · have hn := hf z hv
    have hxn := h.flown x List.mem_cons_self
    have ha := h.a_le
    omega

/-- With nothing in flight the same holds of what waits. -/
private theorem Sending.waiting_le {S : List UInt8} {s : Snd} (h : Sending base S s k a n [] (x :: vs)) :
    x.off ≤ a := by
  have hlive := h.live x List.mem_cons_self
  have hpast := (h.kept.cut (x := x) List.mem_cons_self).2.2.2
  obtain ⟨z, hz, hoff, -⟩ := h.kept.covers (k := a) h.k_le (hlive.trans_le hpast)
  rcases List.mem_cons.mp hz with rfl | hz
  · exact hoff
  · exact ((List.pairwise_cons.mp h.kept.waiting).1 z hz).trans hoff

/-- After a duplicate acknowledgement everything that waits is new, or the first piece waits in front of it. -/
private theorem Sending.dupAck_fresh {S : List UInt8} {s : Snd} (h : Sending base S s k a n us vs) (hf : Fresh n vs)
    (hp : Paced s) : ∃ us' vs', Sending base S s.dupAck k a n us' vs' ∧ (us' ++ vs').Perm (us ++ vs) ∧ us' ⊆ us ∧
      (Fresh n vs' ∨ ∃ x ∈ us, vs' = x :: vs ∧ x.off ≤ a) := by
  unfold Snd.dupAck
  extract_lets s1 s2
  obtain ⟨h2, hp2⟩ : Sending base S s2 k a n us vs ∧ Paced s2 := by
    show Sending base S (if 3 < s1.dupacks then { s1 with cwnd := wndInc s1.cwnd s1.mss } else s1) k a n us vs ∧
      Paced (if 3 < s1.dupacks then { s1 with cwnd := wndInc s1.cwnd s1.mss } else s1)
    split
    · have hb := @Paced.wndInc_bounds s.cwnd s.mss hp.cwnd_le
      exact ⟨h.congr rfl, { hp with cwnd := hp.cwnd.trans hb.1, cwnd_le := hb.2 }⟩
    · exact ⟨h.congr rfl, { hp with }⟩
  have keep : ∃ us' vs', Sending base S s2 k a n us' vs' ∧ (us' ++ vs').Perm (us ++ vs) ∧ us' ⊆ us ∧
      (Fresh n vs' ∨ ∃ x ∈ us, vs' = x :: vs ∧ x.off ≤ a) :=
    ⟨us, vs, h2, .refl _, List.Subset.refl _, .inl hf⟩
  split
  case isFalse => exact keep
  case isTrue =>
    rcases tcpRexmitFast_cases hp2 with heq | ⟨s3, hs3, -, hq⟩
    · rw [heq]
      exact keep
    · obtain ⟨x, us', rfl, h3⟩ := h2.tcpRexmit hs3
      have hfirst := h2.first_le hf
      have hin : vs.orderedInsert Piece.Leads x = x :: vs := by
        cases vs with
        | nil => rfl
        | cons y vs =>
          have hy := hf y List.mem_cons_self
          have ha := h2.a_le
          exact List.orderedInsert_cons_of_le _ vs (show x.off ≤ y.off by omega)
      rw [hin] at h3
      exact ⟨us', x :: vs, h3.congr hq, List.perm_middle, List.subset_cons_self x us',
        .inr ⟨x, List.mem_cons_self, rfl, hfirst⟩⟩

private theorem Snd.mssLocal_le (s : Snd) : s.mssLocal ≤ s.mss := by
  unfold Snd.mssLocal
  split <;> omega

/-- The right edge of the window, as the block knows it, does not move back. -/
def Steady (t : SndTransition) : Prop :=
  tcpSeqLeq (t.pre.snd.lastack + ofLen t.pre.snd.sndWnd) (t.post.snd.lastack + ofLen t.post.snd.sndWnd) = true

instance (t : SndTransition) : Decidable (Steady t) := inferInstanceAs (Decidable (_ = true))

/-- The interface would have taken more. -/
def Taken (t : SndTransition) : Prop := t.out.length < t.act.link.ok

instance (t : SndTransition) : Decidable (Taken t) := inferInstanceAs (Decidable (_ < _))

/-- What waits was never sent, and what is in flight lies inside the peer's window. -/
structure Flowing (base : BitVec 32) (tr : List SndEvent) (s : TxState) (k a n : Nat) (us vs : List (Piece UInt8)) :
    Prop where
  tx : Transmitting base tr s k a n us vs
  paced : Paced s.snd
  fresh : Fresh n vs
  inside : ∀ u ∈ us, u.stop ≤ a + s.snd.sndWnd

/-- Then the last segment that waits is the last one there is. -/
private theorem Flowing.settled (h : Flowing base tr s k a n us vs) : s.snd.settled = true := by
  refine h.tx.sending.settled_iff.mpr fun v hv u hu => ?_
  have hvn := h.fresh v (List.mem_of_getLast? hv)
  have hun := h.tx.sending.flown u hu
  have hspan := (h.tx.sending.kept.cut (List.mem_append_left vs hu)).2.1
  simp only [Piece.past] at hun
  omega

/-- `tcp_output` once everything that waits is new, or only its first piece is not and goes out. -/
private theorem Flowing.ofOutput (h : Transmitting base tr s k a n us vs) (hp : Paced s.snd) (link : Link)
    (hin : ∀ u ∈ us, u.stop ≤ a + s.snd.sndWnd)
    (hf : Fresh n vs ∨ (s.output link).2.length < link.ok ∧ Fresh n vs.tail ∧ ∀ x ∈ vs.head?, x.stop ≤ a + s.snd.wnd) :
    ∃ n' us' vs', Flowing base (tr ++ (s.output link).2) (s.output link).1 k a n' us' vs' := by
  obtain ⟨n', us', vs', h', -, hfresh, hflight, hdrain⟩ := h.output link
  have htune := (tcpOutput_frame s.snd link.ackNow link.ok).1
  simp only [Snd.tuning, Prod.mk.injEq] at htune
  refine ⟨n', us', vs', h', hp.output link, ?_, fun u hu => ?_⟩
  · rcases hf with hf | ⟨hok, htail, hhead⟩
    · exact hfresh hf
    · exact (hdrain hp.nodelay hok).again hhead htail
  · show u.stop ≤ a + (s.snd.tcpOutput link.ackNow link.ok).1.sndWnd
    rw [htune.2.1]
    rcases hflight u hu with hu | hle
    · exact hin u hu
    · exact hle.trans (Nat.add_le_add_left (Nat.min_le_left _ _) a)

/-- What an acknowledgement leaves of a flowing state. -/
private theorem Flowing.ack (h : Flowing base tr s k a n us vs) (hdr : AckHdr) :
    ∃ s1 evs k' a' us1 vs1, s.ack hdr = some (s1, evs) ∧ Transmitting base (tr ++ evs) s1 k' a' n us1 vs1 ∧
      Paced s1.snd ∧ us1 ⊆ us ∧ a ≤ a' ∧ (0 < hdr.tcplen → Outgoing.Behind us1 vs1) ∧
      (Fresh n vs1 ∨ hdr.tcplen = 0 ∧ ∃ x ∈ us, vs1 = x :: vs ∧ x.off ≤ a') := by
  have hb := h.tx.sending.settled_iff.mp h.settled
  have hupd := h.tx.sending.congr (Sending.updateWnd_same s.snd hdr)
  rcases h.tx.sending.tcpReceiveAck_cases hdr with ⟨hlen, heq⟩ | ⟨snd, now, heq, hq⟩ | ⟨snd, len, k', b, heq, hnew⟩
  · obtain ⟨us', vs', hsend, hperm, hsub, hfresh⟩ := hupd.dupAck_fresh h.fresh (h.paced.updateWnd hdr)
    have hsame := h.tx.sending.buf.trans hsend.buf.symm
    rw [Sending.dataLen_perm hperm] at hsame
    exact ⟨_, _, k, a, us', vs', by rw [TxState.ack, heq]; rfl,
      h.tx.ofAck heq hsend hperm.subset (by omega), h.paced.tcpReceiveAck heq, hsub, le_rfl,
      fun hpos => absurd hlen (Nat.ne_of_gt hpos), hfresh.imp id fun hx => ⟨hlen, hx⟩⟩
  · have hsend := h.tx.sending.congr hq
    simp only [Snd.queues, Prod.mk.injEq] at hq
    exact ⟨_, _, k, a, us, vs, by rw [TxState.ack, heq]; rfl,
      h.tx.ofAck heq hsend (List.Subset.refl _) hq.2.2.2.2.2.2.1, h.paced.tcpReceiveAck heq, List.Subset.refl _,
      le_rfl, fun _ => hb, .inl h.fresh⟩
  · obtain ⟨hab, -, hbuf, hsend⟩ := hnew
    have hu := List.dropWhile_suffix (l := us) fun x => decide (x.past ≤ b)
    have hv := List.dropWhile_suffix (l := vs) fun x => decide (x.past ≤ b)
    refine ⟨_, _, k', b, _, _, by rw [TxState.ack, heq]; rfl, h.tx.ofAck heq hsend ?_ hbuf, h.paced.tcpReceiveAck heq,
      hu.subset, hab.le, fun _ => Transmitting.behind_suffix hb hu hv, .inl fun v hm => h.fresh v (hv.subset hm)⟩
    exact List.append_subset.mpr ⟨fun x hx => List.mem_append_left _ (hu.subset hx),
      fun x hx => List.mem_append_right _ (hv.subset hx)⟩

/-- Each step of a steady run keeps the state flowing. -/
private theorem Flowing.step {act : SndAct} (h : Flowing base tr s k a n us vs) (hstep : s.step act = some (s', evs))
    (hsteady : Steady ⟨s, act, evs, s'⟩) (htaken : Taken ⟨s, act, evs, s'⟩) :
    ∃ k' a' n' us' vs', Flowing base (tr ++ evs) s' k' a' n' us' vs' := by
  have hb := h.tx.sending.settled_iff.mp h.settled
  cases act with
  | relay data room link =>
    have hfill : Transmitting base tr (s.fill data) k a n us vs := h.tx.congr rfl rfl rfl
    obtain ⟨s1, evs1, vs1, hw, h1, hfresh, htune⟩ := hfill.write hb data room
    rw [TxState.step, hw] at hstep
    cases hstep
    have hp : Paced s1.snd := h.paced.congr htune
    simp only [Snd.tuning, Prod.mk.injEq] at htune
    obtain ⟨n', us', vs', h2⟩ := Flowing.ofOutput h1 hp link
      (fun u hu => (h.inside u hu).trans_eq (by rw [htune.2.1]; rfl)) (.inl (hfresh h.fresh))
    rw [List.append_assoc] at h2
    exact ⟨k, a, n', us', vs', h2⟩
  | segment hdr close link =>
    obtain ⟨s1, evs1, k', a', us1, vs1, hack, h1, hp1, hsub, hle, hb1, hcase⟩ := h.ack hdr
    rw [TxState.step, hack] at hstep
    cases hstep
    obtain ⟨vs2, h2, hfresh⟩ := h1.callbacks hb1 close
    have hcall := callbacks_tuning s1 hdr close
    have hp2 : Paced (s1.callbacks hdr close).1.snd := hp1.congr hcall
    simp only [Snd.tuning, Prod.mk.injEq] at hcall
    have hedge : a + s.snd.sndWnd ≤ a' + s1.snd.sndWnd := by
      have hpost := (tcpOutput_frame (s1.callbacks hdr close).1.snd link.ackNow link.ok).1
      simp only [Snd.tuning, Prod.mk.injEq] at hpost
      have hl : ((s1.callbacks hdr close).1.output link).1.snd.lastack = s1.snd.lastack :=
        hpost.2.2.2.2.2.1.trans hcall.2.2.2.2.2.1
      have hw : ((s1.callbacks hdr close).1.output link).1.snd.sndWnd = s1.snd.sndWnd := hpost.2.1.trans hcall.2.1
      have hnear := h.tx.sending.near
      have hn := h.tx.sending.n_le
      have hk := h.tx.sending.k_le
      have ha := h1.sending.a_le
      have hwnd := h.paced.wnd_le
      have hwnd' := hp1.wnd_le
      simp only [Steady] at hsteady
      rw [hl, hw, h.tx.sending.lastack, h1.sending.lastack, num_add_ofLen, num_add_ofLen, tcpSeqLeq_num (by omega),
        decide_eq_true_eq] at hsteady
      omega
    have hin : ∀ u ∈ us1, u.stop ≤ a' + (s1.callbacks hdr close).1.snd.sndWnd := fun u hu =>
      (h.inside u (hsub hu)).trans (hedge.trans_eq (by rw [hcall.2.1]))
    rw [← List.append_assoc, ← List.append_assoc]
    rcases hcase with hf | ⟨hlen, x, hx, rfl, hoff⟩
    · obtain ⟨n', us', vs', h3⟩ := Flowing.ofOutput h2 hp2 link hin (.inl (hfresh hf))
      exact ⟨k', a', n', us', vs', h3⟩
    · -- the segment carried nothing, so the callbacks did nothing, and the piece that was put back fits
      have hidle : s1.callbacks hdr close = (s1, []) := by
        cases close <;> simp [TxState.callbacks, hlen]
      have hout : (s1.output link).2.length < link.ok := by
        simp only [Taken, SndAct.link, List.length_append, hidle] at htaken
        omega
      have hlen' := h1.sized.small x (by simp)
      have hmss := s1.snd.mssLocal_le
      have hcwnd := hp1.cwnd
      have hstop : x.stop ≤ a' + s1.snd.wnd := by
        have hx' := (h.inside x hx).trans hedge
        simp only [Piece.stop, Snd.wnd] at hx' ⊢
        omega
      rw [hidle] at hin ⊢
      obtain ⟨n', us', vs', h3⟩ := Flowing.ofOutput h1 hp1 link hin (.inr ⟨hout, h.fresh, fun y hy => by
        cases hy
        exact hstop⟩)
      rw [List.append_nil]
      exact ⟨k', a', n', us', vs', h3⟩
  | output link =>
    cases hstep
    obtain ⟨n', us', vs', h1⟩ := Flowing.ofOutput h.tx h.paced link h.inside (.inl h.fresh)
    exact ⟨k, a, n', us', vs', h1⟩

private theorem Flowing.init (h : (sndMachine base).Init s) : Flowing base [] s 0 0 0 [] [] :=
  ⟨.init h, .init h, List.forall_mem_nil _, List.forall_mem_nil _⟩

/-- While the window is not taken back and the interface takes every segment. -/
private theorem flowing_run {ts : List SndTransition} (hr : (sndMachine base).Run ts s)
    (hg : ∀ t ∈ ts, Steady t ∧ Taken t) : ∃ k a n us vs, Flowing base (Machine.trace ts) s k a n us vs := by
  refine hr.guarded_trace (fun t => Steady t ∧ Taken t) (fun tr s => ∃ k a n us vs, Flowing base tr s k a n us vs)
    (fun s hs => ⟨0, 0, 0, [], [], .init hs⟩) ?_ hg
  rintro tr s act t out ⟨k, a, n, us, vs, h⟩ hstep ⟨hsteady, htaken⟩
  exact h.step hstep hsteady htaken

/-- A segment that was put back to be sent again has gone out again: whatever waits is new, and the last one that waits
is the last one there is. -/
theorem steady_run_is_settled {ts : List SndTransition} (hr : (sndMachine base).Run ts s)
    (hg : ∀ t ∈ ts, Steady t ∧ Taken t) :
    Settled ts ∧ s.snd.settled = true ∧ ∀ seg ∈ s.snd.unsent, tcpSeqGeq seg.seqno s.snd.sndNxt = true := by
  obtain ⟨k, a, n, us, vs, h⟩ := flowing_run hr hg
  refine ⟨fun t ht => ?_, h.settled, fun seg hseg => ?_⟩
  · obtain ⟨us', vs', rfl, hrun, -⟩ := hr.split ht
    obtain ⟨_, _, _, _, _, h'⟩ := flowing_run hrun fun u hu => hg u (List.mem_append_left _ hu)
    exact h'.settled
  · obtain ⟨v, hv, his⟩ := forall₂_mem h.tx.sending.unsent.flip hseg
    have hnew := h.fresh v hv
    have hclose := h.tx.sending.close v (List.mem_append_right _ hv)
    have hk := h.tx.sending.k_le
    have ha := h.tx.sending.a_le
    simp only [Piece.past] at hclose
    rw [his.seqno, h.tx.sending.sndNxt, tcpSeqGeq_num (by omega), decide_eq_true_eq]
    omega

theorem steady_run_is_settled_rexmit : ∃ ts s, (sndMachine 0xFFFFFFFE).Run ts s ∧
    (∀ t ∈ ts, Steady t ∧ Taken t) ∧ (∃ t ∈ ts, t.pre.snd.infr = false ∧ t.post.snd.infr = true) ∧ Settled ts := by
  obtain ⟨ts, s, run, h⟩ := Machine.Run.exists_of_exec (sndMachine 0xFFFFFFFE) transferStart transfer
    (fun ts _ => decide ((∀ t ∈ ts, Steady t ∧ Taken t) ∧ ∃ t ∈ ts, t.pre.snd.infr = false ∧ t.post.snd.infr = true))
    transferStart_init (by decide +kernel)
  obtain ⟨hg, hin⟩ := of_decide_eq_true h
  exact ⟨ts, s, run, hg, hin, (steady_run_is_settled run hg).1⟩

/-- What is in flight lies inside the peer's window up to its last byte, and is not acknowledged as a whole. -/
theorem flight_inside_window {ts : List SndTransition} (hr : (sndMachine base).Run ts s)
    (hg : ∀ t ∈ ts, Steady t ∧ Taken t) (hseg : seg ∈ s.snd.unacked) :
    tcpSeqLt s.snd.lastack (seg.seqno + ofLen seg.tcplen) = true ∧
      tcpSeqLeq (seg.seqno + ofLen seg.len) (s.snd.lastack + ofLen s.snd.sndWnd) = true := by
  obtain ⟨k, a, n, us, vs, h⟩ := flowing_run hr hg
  obtain ⟨u, hu, his⟩ := forall₂_mem h.tx.sending.unacked.flip hseg
  have hlive := h.tx.sending.live u (List.mem_append_left _ hu)
  have hin := h.inside u hu
  have hclose := h.tx.sending.close u (List.mem_append_left _ hu)
  have hflown := h.tx.sending.flown u hu
  have hnear := h.tx.sending.near
  have hn := h.tx.sending.n_le
  have hk := h.tx.sending.k_le
  have ha := h.tx.sending.a_le
  have hwnd := h.paced.wnd_le
  have hlen := his.len
  simp only [Piece.past, Piece.span, Piece.stop] at hclose hflown hlive hin
  constructor
  · rw [his.seqno, his.tcplen, h.tx.sending.lastack, num_add_ofLen, tcpSeqLt_num (by simp only [Piece.span]; omega),
      decide_eq_true_eq]
    simp only [Piece.span]
    omega
  · rw [his.seqno, h.tx.sending.lastack, num_add_ofLen, num_add_ofLen, tcpSeqLeq_num (by omega), decide_eq_true_eq]
    omega

theorem flight_inside_window_dupack : ∃ ts s, (sndMachine 0xFFFFFFFE).Run ts s ∧ (∀ t ∈ ts, Steady t ∧ Taken t) ∧
    s.snd.unacked.length = 2 ∧ ∀ seg ∈ s.snd.unacked,
      tcpSeqLeq (seg.seqno + ofLen seg.len) (s.snd.lastack + ofLen s.snd.sndWnd) = true := by
  obtain ⟨ts, s, run, h⟩ := Machine.Run.exists_of_exec (sndMachine 0xFFFFFFFE) transferStart (transfer.take 3)
    (fun ts s => decide ((∀ t ∈ ts, Steady t ∧ Taken t) ∧ s.snd.unacked.length = 2)) transferStart_init rfl
  obtain ⟨hg, hlen⟩ := of_decide_eq_true h
  exact ⟨ts, s, run, hg, hlen, fun seg hseg => (flight_inside_window run hg hseg).2⟩

/-- What still waits after a step does not fit into the window. With nothing in flight it is the window of the
peer that is too small. -/
theorem waits_only_for_peer {ts : List SndTransition} {act : SndAct} (hr : (sndMachine base).Run ts s)
    (hg : Settled ts) (hs : s.snd.settled = true) (hstep : (sndMachine base).step s act = some (s', evs))
    (ht : Taken ⟨s, act, evs, s'⟩) (hseg : seg ∈ s'.snd.unsent.head?) :
    s'.snd.fits seg = false ∧ (s'.snd.unacked = [] → s'.snd.sndWnd < seg.len) := by
  obtain ⟨k, a, n, us, vs, h⟩ := transmitting_run hr hg
  obtain ⟨m, evs', k', a', us1, vs1, hstep', h1⟩ := h.input hs act
  cases hstep.symm.trans hstep'
  have hpaced := (paced_run hr).step hstep
  have htune := (tcpOutput_frame m.snd act.link.ackNow act.link.ok).1
  have hpm : Paced m.snd := hpaced.congr htune.symm
  obtain ⟨n', us', vs', h2, -, -, -, hdrain⟩ := h1.output act.link
  have hleft := (hdrain hpm.nodelay (by
    simp only [Taken, List.length_append] at ht
    omega)).left
  obtain ⟨rest, hun⟩ : ∃ rest, (m.output act.link).1.snd.unsent = seg :: rest := by
    cases hu : (m.output act.link).1.snd.unsent with
    | nil =>
      rw [hu] at hseg
      cases hseg
    | cons t rest =>
      rw [hu] at hseg
      cases hseg
      exact ⟨rest, rfl⟩
  obtain ⟨x, vs', rfl, hx, -⟩ := h2.sending.of_unsent_cons hun
  have hwnd : (m.output act.link).1.snd.wnd = m.snd.wnd := by
    simp only [Snd.tuning, Prod.mk.injEq] at htune
    simp only [Snd.wnd, TxState.output, htune]
  have hlt : a' + (m.output act.link).1.snd.wnd < x.stop := (hleft x rfl).trans_eq' (by rw [hwnd])
  have hmem : x ∈ us' ++ x :: vs' := List.mem_append_right _ List.mem_cons_self
  refine ⟨?_, fun hnil => ?_⟩
  · rw [h2.sending.fits_iff hx hmem]
    exact decide_eq_false (Nat.not_le.mpr hlt)
  · have hall := h2.sending.unacked
    rw [hnil] at hall
    cases hall
    have hoff := h2.sending.waiting_le
    have hsmall := h2.sized.small x hmem
    have hmss := Snd.mssLocal_le (m.output act.link).1.snd
    have hcwnd := hpaced.cwnd
    have hlen := hx.len
    simp only [Piece.stop, Snd.wnd] at hlt
    omega

/-- The peer has closed its window, and three bytes wait. -/
theorem waits_only_for_peer_zero : ∃ s s' evs seg, (sndMachine 0).Run [] s ∧
    (sndMachine 0).step s (.relay [1, 2, 3, 4, 5] 99 ⟨false, 9⟩) = some (s', evs) ∧ s'.snd.unsent.head? = some seg ∧
    s'.snd.unacked = [] ∧ s'.snd.fits seg = false ∧ s'.snd.sndWnd < seg.len := by
  obtain ⟨s, hinit, hs⟩ : ∃ s, (sndMachine 0).Init s ∧ s = ⟨Snd.established 0 100 0 3 0 10 false, []⟩ :=
    ⟨_, ⟨100, 0, 3, 0, 10, false, [], by decide, by decide, by decide, by decide, by decide, rfl⟩, rfl⟩
  have hrun := Machine.Run.init hinit
  obtain ⟨r, hr⟩ := Option.isSome_iff_exists.mp
    (show ((sndMachine 0).step s (.relay [1, 2, 3, 4, 5] 99 ⟨false, 9⟩)).isSome = true by rw [hs]; decide +kernel)
  have hevs : ∀ r ∈ (sndMachine 0).step s (.relay [1, 2, 3, 4, 5] 99 ⟨false, 9⟩),
      r.2.length < 9 ∧ r.1.snd.unacked = [] ∧
        r.1.snd.unsent.head? = some ⟨0, [⟨0, [1, 2, 3]⟩], 3, false, false, false⟩ := by
    rw [hs]
    decide +kernel
  obtain ⟨hlen, hnil, hhead⟩ := hevs r hr
  obtain ⟨hfit, hwnd⟩ := waits_only_for_peer hrun (List.forall_mem_nil _) (by rw [hs]; rfl) hr hlen hhead
  exact ⟨_, r.1, r.2, _, hrun, hr, hhead, hnil, hfit, hwnd hnil⟩

end Run

end Tunosocks.Lwip
