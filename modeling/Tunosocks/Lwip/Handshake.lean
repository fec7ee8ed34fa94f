import Tunosocks.Lwip.Lifetime

/-! The passive open: a block in SYN_RCVD, until the ACK of its SYN makes it the start of both sides of a
connection. -/
namespace Tunosocks.Lwip
open Foundation Foundation.Serial Tcp

def synSeg (iss : BitVec 32) : OutSeg := ⟨iss, [], 0, true, false, false⟩

/-- What is left open about a block in SYN_RCVD: whether its SYN went out yet, and whether it waits to be sent. -/
structure Waiting where
  sent : Bool
  waits : Bool
  mss : Nat
  wnd : Nat
  rtime : Int
  memErr : Bool
  edge : BitVec 32
  ackDelay : Bool
  ackNow : Bool
  buff : List UInt8

/-- The block in SYN_RCVD. -/
def Waiting.block (irs iss : BitVec 32) (w : Waiting) : Block where
  state := .synRcvd
  rcv := { Rcv.established (irs + 1) w.mss w.ackDelay w.ackNow with rcvAnnRightEdge := w.edge }
  tx :=
    ⟨{ sndNxt := if w.sent then iss + 1 else iss, lastack := iss, sndLbb := iss + 1, sndWl1 := irs - 1, sndWl2 := iss
       sndWnd := w.wnd, sndWndMax := w.wnd, cwnd := 1, ssthresh := 0xffff, bytesAcked := 0, sndBuf := 0xffff
       sndQueuelen := 1, mss := w.mss, dupacks := 0, rtime := w.rtime
       unsent := if w.waits then [synSeg iss] else [], unacked := if w.waits then [] else [synSeg iss]
       nagleMemErr := w.memErr, fin := false, infr := false, nodelay := false }, w.buff⟩
  rxClosed := false
  gone := false

/-- A window is announced with the SYN; one that was not sent waits. -/
structure Waiting.Ok (irs : BitVec 32) (w : Waiting) : Prop where
  mss : 0 < w.mss ∧ w.mss ≤ tcpMss
  wnd : 2 ≤ w.wnd ∧ w.wnd ≤ 0xffff
  edge : w.sent = true → w.edge = irs + 1 + ofLen tcpWnd
  waits : w.sent = false → w.waits = true

/-- The block waits for the ACK of its SYN. -/
def Opening (irs iss : BitVec 32) (b : Block) : Prop := ∃ w : Waiting, w.Ok irs ∧ b = w.block irs iss

/-- The block as `listener_accept_func` is given it. -/
def acceptedPcb (localIp : List UInt8) (localPort : Nat) : Pcb where
  localIp := localIp
  localPort := localPort
  state := .established
  callbackArg := true
  rcvWnd := tcpWnd
  sndBuf := tcpWnd
  writes := []
  strays := []
  acked := 0
  sndNxt := 0
  rxClosed := false
  closed := false
  freed := false

theorem acceptedPcb_eq (localIp : List UInt8) (localPort : Nat) (buff : RecvBuff) (opened : Bool) :
    (Conn.listenerAcceptFunc localIp localPort buff opened).pcb = acceptedPcb localIp localPort := rfl

variable {irs iss : BitVec 32} {S : List UInt8} {tr evs : List BlockEvent} {b b' : Block} {w : Waiting} {env : Env}
  {x : Piece UInt8} {h : TcpHdr} {scarce : Prop} {localIp : List UInt8} {localPort : Nat}

private theorem synAcks_quiet (l : List SndEvent) :
    ups (l.map fun _ => BlockEvent.synAck) = [] ∧ txs (l.map fun _ => BlockEvent.synAck) = [] := by
  induction l with
  | nil => exact ⟨rfl, rfl⟩
  | cons e l ih => exact ih

private theorem syn_after (iss : BitVec 32) : tcpSeqLt iss (iss + 1#32) = true := by
  have : iss - (iss + 1#32) = -1#32 := by ring
  rw [tcpSeqLt, this]
  decide

private theorem tcpOutput_syn (w : Waiting) (hw : w.waits = true) (ackNow : Bool) (ok : Nat) :
    (w.block irs iss).tx.snd.tcpOutput ackNow ok =
      match ok with
      | 0 => ({ w with rtime := if w.rtime < 0 then 0 else w.rtime, memErr := true }.block irs iss |>.tx.snd, [], false)
      | _ + 1 =>
        ({ w with
          sent := true, waits := false, rtime := if w.rtime < 0 then 0 else w.rtime, memErr := false
          }.block irs iss |>.tx.snd, [synSeg iss], false) := by
  cases ok with
  | zero =>
    simp [Snd.tcpOutput, Snd.outputLoop, Waiting.block, hw, Snd.fits, synSeg, ofLen, Snd.tcpDoOutputNagle,
      Snd.startTimer]
  | succ ok =>
    cases hs : w.sent <;>
      simp [Snd.tcpOutput, Snd.outputLoop, Waiting.block, hw, hs, Snd.fits, synSeg, ofLen, Snd.tcpDoOutputNagle,
        Snd.startTimer, Snd.sentHead, OutSeg.tcplen, Snd.insertUnacked, syn_after]

private theorem tcpOutput_none (w : Waiting) (hw : w.waits = false) (ackNow : Bool) (ok : Nat) :
    (w.block irs iss).tx.snd.tcpOutput ackNow ok =
      ({ w with memErr := ackNow && w.memErr }.block irs iss |>.tx.snd, [], ackNow) := by
  cases ackNow <;> simp [Snd.tcpOutput, Waiting.block, hw, Snd.nothingToSend]

/-- An empty acknowledgement announces the same window. -/
private theorem Opening.tcpSendEmptyAck (hw : w.Ok irs) (ack : AckOutcome) :
    ∃ edge ackDelay ackNow, (w.block irs iss).rcv.tcpSendEmptyAck ack =
      ({ w with edge, ackDelay, ackNow }.block irs iss).rcv ∧ (w.sent = true → edge = irs + 1 + ofLen tcpWnd) := by
  cases ack with
  | noBuf => exact ⟨w.edge, true, true, rfl, hw.edge⟩
  | failed => exact ⟨irs + 1 + ofLen tcpWnd, true, true, rfl, fun _ => rfl⟩
  | sent => exact ⟨irs + 1 + ofLen tcpWnd, false, false, rfl, fun _ => rfl⟩

private theorem output_eq (w : Waiting) (env : Env) {o : Snd × List OutSeg × Bool}
    (ho : (w.block irs iss).tx.snd.tcpOutput w.ackNow env.ok = o) :
    ((w.block irs iss).output env).1 =
      { w.block irs iss with tx := ⟨o.1, w.buff⟩, rcv := (w.block irs iss).rcv.afterOutput o env.emptyAck } :=
  ho ▸ rfl

/-- `tcp_output` sends the SYN if it waits and the interface takes it. -/
private theorem Opening.output (hb : Opening irs iss b) (env : Env) :
    Opening irs iss (b.output env).1 ∧ ups (b.output env).2 = [] ∧ txs (b.output env).2 = [] := by
  obtain ⟨w, hw, rfl⟩ := hb
  refine ⟨?_, synAcks_quiet _⟩
  cases hq : w.waits with
  | true =>
    have ho := @tcpOutput_syn irs iss w hq w.ackNow env.ok
    rw [output_eq w env ho]
    cases env.ok with
    | zero =>
      exact ⟨{ w with rtime := if w.rtime < 0 then 0 else w.rtime, memErr := true, edge := irs + 1 + ofLen tcpWnd },
        ⟨hw.mss, hw.wnd, fun _ => rfl, hw.waits⟩, rfl⟩
    | succ ok =>
      refine ⟨{ w with
        sent := true, waits := false, rtime := if w.rtime < 0 then 0 else w.rtime, memErr := false
        edge := irs + 1 + ofLen tcpWnd, ackDelay := false, ackNow := false }, ⟨hw.mss, hw.wnd, fun _ => rfl, ?_⟩, rfl⟩
      exact fun h => absurd h Bool.noConfusion
  | false =>
    have ho := @tcpOutput_none irs iss w hq w.ackNow env.ok
    rw [output_eq w env ho]
    cases hnow : w.ackNow with
    | true =>
      obtain ⟨edge, ackDelay, ackNow, hrcv, hedge⟩ := @tcpSendEmptyAck irs iss w hw env.emptyAck
      refine ⟨{ w with edge, ackDelay, ackNow }, ⟨hw.mss, hw.wnd, hedge, hw.waits⟩, ?_⟩
      rw [Rcv.afterOutput, if_pos rfl, hrcv]
      rfl
    | false => exact ⟨{ w with memErr := false }, ⟨hw.mss, hw.wnd, hw.edge, hw.waits⟩, rfl⟩

/-- `tcp_listen_input` -/
theorem Opening.init {data buff : List UInt8} {room : Nat} (hwnd : 2 ≤ h.wnd.toNat)
    (ho : tcpListenInput irs iss h data buff room env = some (b, evs)) : Opening irs iss b := by
  unfold tcpListenInput at ho
  split at ho
  · cases ho
  dsimp only at ho
  split at ho
  case isFalse => cases ho
  case isTrue hok =>
    obtain ⟨hpos, hle⟩ := @tcpParseopt_bounds 536 (h.opts ++ data) h.opts.length (by decide)
    have hmss : 0 < tcpEffSendMss (tcpParseopt (h.opts ++ data) h.opts.length 536) ∧
        tcpEffSendMss (tcpParseopt (h.opts ++ data) h.opts.length 536) ≤ tcpMss := by
      unfold tcpEffSendMss tcpMss at *
      omega
    have hroom : ¬ room < 2 := fun hlt => by
      rw [Snd.tcpEnqueueFlags, if_pos hlt] at hok
      cases hok
    rw [Snd.tcpEnqueueFlags, if_neg hroom] at ho
    have hw : h.wnd.toNat ≤ 65535 := Nat.le_of_lt_succ h.wnd.isLt
    have hopen : Opening irs iss
        (({ sent := false, waits := true, mss := tcpEffSendMss (tcpParseopt (h.opts ++ data) h.opts.length 536)
            wnd := h.wnd.toNat, rtime := -1, memErr := false, edge := irs + 1, ackDelay := false, ackNow := false
            buff : Waiting }).block irs iss) :=
      ⟨_, ⟨hmss, ⟨hwnd, hw⟩, fun h => absurd h Bool.noConfusion, fun _ => rfl⟩, rfl⟩
    have hb : _ = b := congrArg Prod.fst (Option.some.inj ho)
    rw [← hb]
    exact (hopen.output env).1

theorem Opening.parseopt (hb : Opening irs iss b) (opts data : List UInt8) :
    Opening irs iss (b.parseopt opts data) := by
  obtain ⟨w, hw, rfl⟩ := hb
  exact ⟨{ w with mss := tcpParseopt (opts ++ data) opts.length w.mss },
    ⟨tcpParseopt_bounds _ _ hw.mss, hw.wnd, hw.edge, hw.waits⟩, rfl⟩

private theorem Opening.ackNow (hb : Opening irs iss b) : Opening irs iss b.ackNow := by
  obtain ⟨w, hw, rfl⟩ := hb
  exact ⟨{ w with ackNow := true }, ⟨hw.mss, hw.wnd, hw.edge, hw.waits⟩, rfl⟩

/-- A SYN that comes again has this side's SYN sent again. -/
private theorem Opening.rexmit (hb : Opening irs iss b) :
    Opening irs iss { b with tx := { b.tx with snd := b.tx.snd.tcpRexmit.getD b.tx.snd } } := by
  obtain ⟨w, hw, rfl⟩ := hb
  cases hq : w.waits with
  | true =>
    refine ⟨w, hw, ?_⟩
    simp [Waiting.block, hq, Snd.tcpRexmit]
  | false =>
    refine ⟨{ w with waits := true }, ⟨hw.mss, hw.wnd, hw.edge, fun _ => rfl⟩, ?_⟩
    simp [Waiting.block, hq, Snd.tcpRexmit, insertSorted]

private theorem Opening.reportNone (hb : Opening irs iss b) (env : Env) :
    Opening irs iss (Block.finish (b.report .none env) env).1 ∧ ups (Block.finish (b.report .none env) env).2 = [] ∧
      txs (Block.finish (b.report .none env) env).2 = [] := by
  have hrep : b.report .none env = (b, []) := by
    unfold Block.report Block.callbacks
    cases env.close <;> rfl
  have hgone : b.gone = false := by
    obtain ⟨w, -, rfl⟩ := hb
    rfl
  rw [hrep, Block.finish, if_neg (by rw [hgone]; exact Bool.false_ne_true)]
  exact hb.output env

/-- The only number between the SYN's and the next, unless it lies half the sequence space away. -/
private theorem ackno_of_syn {sent : Bool} (hfar : h.ackno ≠ iss + 0x80000000)
    (hack : tcpSeqBetween h.ackno (iss + 1) (if sent then iss + 1 else iss) = true) :
    sent = true ∧ h.ackno = iss + 1 := by
  simp only [tcpSeqBetween, tcpSeqGeq, tcpSeqLeq, Bool.and_eq_true, decide_eq_true_eq] at hack
  cases sent with
  | true =>
    simp only [if_true] at hack
    have : h.ackno - (iss + 1) = 0 := BitVec.eq_of_toInt_eq (le_antisymm hack.2 hack.1)
    exact ⟨rfl, sub_eq_zero.mp this⟩
  | false =>
    refine absurd ?_ hfar
    simp only [Bool.false_eq_true, if_false, BitVec.toInt_eq_toNat_cond] at hack
    bv_omega

private theorem updateWnd_bounds {s : Snd} {hdr : AckHdr}
    (hs : 2 ≤ s.sndWndMax ∧ s.sndWnd ≤ s.sndWndMax ∧ s.sndWndMax ≤ 0xffff) :
    ∃ wl1 wl2 wnd wndMax,
      s.updateWnd hdr = { s with sndWl1 := wl1, sndWl2 := wl2, sndWnd := wnd, sndWndMax := wndMax } ∧
      2 ≤ wndMax ∧ wnd ≤ wndMax ∧ wndMax ≤ 0xffff := by
  unfold Snd.updateWnd
  split
  · have hw : hdr.wnd.toNat ≤ 65535 := Nat.le_of_lt_succ hdr.wnd.isLt
    exact ⟨_, _, _, _, rfl, by omega⟩
  · exact ⟨s.sndWl1, s.sndWl2, s.sndWnd, s.sndWndMax, rfl, hs⟩

/-- The ACK of the SYN takes it from its queue, and nothing else. -/
private theorem tcpReceiveAck_syn (hw : w.Ok irs) (hsent : w.sent = true) {hdr : AckHdr} (hack : hdr.ackno = iss + 1) :
    ∃ wl1 wl2 wnd wndMax cwnd, (2 ≤ wndMax ∧ wnd ≤ wndMax ∧ wndMax ≤ 0xffff) ∧
      (w.block irs iss).accept.tx.snd.tcpReceiveAck hdr =
        some ({ Snd.established (iss + 1) wl1 wl2 w.mss wnd wndMax w.memErr with cwnd }, 0, false) := by
  obtain ⟨wl1, wl2, wnd, wndMax, hupd, hbounds⟩ :=
    @updateWnd_bounds (w.block irs iss).accept.tx.snd hdr ⟨hw.wnd.1, le_rfl, hw.wnd.2⟩
  refine ⟨wl1, wl2, wnd, wndMax, wndInc 1 (min 1 (2 * w.mss % 65536)), hbounds, ?_⟩
  unfold Snd.tcpReceiveAck
  rw [hupd, hack]
  have hnew : tcpSeqLeq (iss + 1#32) iss = false := by simp [tcpSeqLeq]
  have hbetween : tcpSeqBetween (iss + 1#32) (iss + 1#32) (iss + 1#32) = true := by
    simp [tcpSeqBetween, tcpSeqGeq, tcpSeqLeq]
  have hfree : tcpSeqLeq (iss + ofLen 1) (iss + 1#32) = true := by simp [tcpSeqLeq, ofLen]
  cases hq : w.waits <;>
    simp [Block.accept, Block.enter, Waiting.block, hsent, hq, hnew, hbetween, hfree, Snd.ackNew, Snd.leaveInfr,
      Snd.growCwnd, Snd.freeAcked, Snd.tcpFreeAckedSegments, synSeg, OutSeg.tcplen, OutSeg.clen, Snd.established]

/-- The ACK that ends the handshake makes the block the start of a sender and of a receiver. -/
theorem Opening.takeAck (hb : Opening irs iss b) (hack : h.ack = true) (hfar : h.ackno ≠ iss + 0x80000000)
    (hnew : tcpSeqBetween h.ackno (b.tx.snd.lastack + 1) b.tx.snd.sndNxt = true) (seg : TcpSeg) (env : Env) :
    (h.ackno = iss + 1 ∧ b.tx.snd.sndNxt = iss + 1) ∧
      ∃ b1, b.accept.takeAck seg h env = some (b1, 0) ∧ b1 = { b.accept with tx := b1.tx } ∧
        (sndMachine (iss + 1)).Init b1.startCwnd.tx ∧ (rcvMachine (irs + 1)).Init ⟨b1.rcv, false⟩ := by
  obtain ⟨w, hw, rfl⟩ := hb
  obtain ⟨hsent, hno⟩ := ackno_of_syn hfar hnew
  obtain ⟨wl1, wl2, wnd, wndMax, cwnd, hbounds, hrec⟩ :=
    @tcpReceiveAck_syn irs iss w hw hsent ⟨seg.seqno, h.ackno, h.wnd, seg.tcplen⟩ hno
  refine ⟨⟨hno, if_pos hsent⟩, { (w.block irs iss).accept with
    tx := ⟨{ Snd.established (iss + 1) wl1 wl2 w.mss wnd wndMax w.memErr with cwnd }, w.buff⟩ }, ?_, rfl, ?_, ?_⟩
  · rw [Block.takeAck, if_pos hack, Block.takeAckno, hrec]
    rfl
  · exact ⟨wl1, wl2, w.mss, wnd, wndMax, w.memErr, w.buff, hw.mss.1, hw.mss.2, hbounds.1, hbounds.2.1, hbounds.2.2, rfl⟩
  · refine ⟨w.mss, w.ackDelay, w.ackNow, ?_⟩
    show RcvState.mk { Rcv.established (irs + 1) w.mss w.ackDelay w.ackNow with rcvAnnRightEdge := w.edge } false = _
    rw [hw.edge hsent]
    rfl

private theorem Linked.start (hstate : b.state = .synced .established) (halive : b.gone = false)
    (htx : (sndMachine (iss + 1)).Init b.tx) (hrx : (rcvMachine (irs + 1)).Init ⟨b.rcv, false⟩)
    (hu : ups tr = []) (ht : txs tr = []) : Linked (iss + 1) (irs + 1) S tr b .established 0 := by
  have hrx' := receiving_init (S := S) hrx
  have htx' := Transmitting.init htx
  refine ⟨hstate, halive, .inr ⟨_, hu ▸ hrx'⟩, ?_, fun h => absurd h Bool.noConfusion, ⟨0, 0, [], [], ht ▸ htx'⟩,
    htx'.fin, .inl rfl, fun h => absurd h Bool.noConfusion⟩
  obtain ⟨mss, ackDelay, ackNow, heq⟩ := hrx
  rw [show b.rcv = _ from congrArg RcvState.rcv heq]
  exact le_rfl

private theorem takeData_startCwnd {s : TcpState} {seg : TcpSeg} {o : Option Pbuf × Bool}
    (ho : b.takeData s seg env = some (b', o)) : b.startCwnd.takeData s seg env = some (b'.startCwnd, o) := by
  unfold Block.takeData at ho ⊢
  split at ho
  case isTrue hyes =>
    rw [if_pos hyes]
    obtain ⟨o', hrec, hout⟩ := Option.map_eq_some_iff.mp ho
    cases hout
    rw [show b.startCwnd.rcv = b.rcv from rfl, hrec]
    rfl
  case isFalse hno =>
    rw [if_neg hno]
    cases ho
    rfl

private theorem view_start (htx : (sndMachine (iss + 1)).Init b.tx) (hrx : (rcvMachine (irs + 1)).Init ⟨b.rcv, false⟩)
    (hopen : b.rxClosed = false) (ht : txs tr = []) :
    b.view (acceptedPcb localIp localPort) tr .established 0 = acceptedPcb localIp localPort := by
  obtain ⟨mss, ackDelay, ackNow, heq⟩ := hrx
  obtain ⟨wl1, wl2, mss, wnd, wndMax, memErr, buff, -, -, -, -, -, hs⟩ := htx
  rw [Block.view, hs, show b.rcv = _ from congrArg RcvState.rcv heq, hopen, ht]
  rfl

/-- Nothing is delivered or sent before the handshake is done; then the connection starts. -/
def Open (irs iss : BitVec 32) (S : List UInt8) (scarce : Prop) (p : Pcb) (tr : List BlockEvent) (b : Block) : Prop :=
  Opening irs iss b ∧ ups tr = [] ∧ txs tr = [] ∨ Fate (iss + 1) (irs + 1) S scarce p tr b

private theorem Opening.quiet (hb : Opening irs iss b) (hu : ups tr = []) (ht : txs tr = []) (hup : ups evs = [])
    (htx : txs evs = []) : Open irs iss S scarce (acceptedPcb localIp localPort) (tr ++ evs) b :=
  .inl ⟨hb, by rw [ups_append, hu, hup, List.nil_append], by rw [txs_append, ht, htx, List.nil_append]⟩

theorem sound_start (hu : ups tr = []) (ht : txs tr = []) : Sound (iss + 1) S tr := by
  refine ⟨?_, fun h => ?_, fun seg wire h => ?_⟩
  · rw [hu]
    exact List.nil_prefix
  · rw [hu] at h
    cases h
  · rw [ht] at h
    cases h

/-- `tcp_process` in SYN_RCVD, where the ACK is for the SYN. -/
private theorem Opening.accepted (hb : Opening irs iss b) (hu : ups tr = []) (ht : txs tr = []) (hack : h.ack = true)
    (hfar : h.ackno ≠ iss + 0x80000000) (hx : Streamed S (ups tr) x)
    (hnew : tcpSeqBetween h.ackno (b.tx.snd.lastack + 1) b.tx.snd.sndNxt = true) {recv : Recv}
    (ho : b.accept.tcpReceive .established (segOf (irs + 1) x) h env = some (b', recv))
    (hroom : ∀ room, env.close = some room → room < 2 → scarce) :
    let o := b'.startCwnd.next h { recv with acked := recv.acked - 1 } .established
    o.2.reset = false ∧
      Open irs iss S scarce (acceptedPcb localIp localPort)
        (tr ++ ([.accepted] ++ (Block.finish (o.1.report o.2 env) env).2))
        (Block.finish (o.1.report o.2 env) env).1 := by
  intro o
  obtain ⟨-, b1, htake, heq, htx, hrx⟩ := hb.takeAck hack hfar hnew (segOf (irs + 1) x) env
  obtain ⟨b1', htake', hdata, hr, hc⟩ := tcpReceive_inv ho
  obtain ⟨rfl, hzero⟩ : b1 = b1' ∧ 0 = recv.acked := by simpa using htake.symm.trans htake'
  obtain ⟨halive, hopen⟩ : b1.gone = false ∧ b1.rxClosed = false := by
    obtain ⟨w, -, rfl⟩ := hb
    rw [heq]
    exact ⟨rfl, rfl⟩
  have hu1 : ups (tr ++ [.accepted]) = ups tr := by rw [ups_append]; exact List.append_nil _
  have ht1 : txs (tr ++ [.accepted]) = [] := by rw [txs_append, ht]; rfl
  have hl0 : Linked (iss + 1) (irs + 1) S (tr ++ [.accepted]) b1.startCwnd .established 0 :=
    Linked.start (by rw [heq]; rfl) halive htx hrx (hu1.trans hu) ht1
  have hempty : b1.startCwnd.tx.snd.unacked = [] ∧ b1.startCwnd.tx.snd.settled = true := by
    obtain ⟨wl1, wl2, mss, wnd, wndMax, memErr, buff, -, -, -, -, -, hs⟩ := htx
    rw [hs]
    exact ⟨rfl, rfl⟩
  have hl : Linked (iss + 1) (irs + 1) S (tr ++ [.accepted] ++ ackEvents (recv.acked - 1)) b1.startCwnd
      .established 0 := by
    rw [← hzero]
    exact hl0.quiet rfl rfl
  obtain ⟨hreset, hf⟩ := hl0.carried { recv with acked := recv.acked - 1 } hl rfl rfl
    (fun _ => hempty.2) (fun _ => hempty.1) (hu1.symm ▸ hx) (takeData_startCwnd hdata) hr hc hroom
  rw [view_start htx hrx hopen ht1] at hf
  refine ⟨hreset, .inr ?_⟩
  rw [← List.append_assoc]
  exact hf

/-- Nothing was received. -/
private theorem Opening.unread (hb : Opening irs iss b) (hu : ups tr = []) (ht : txs tr = []) (hpu : ups evs = [])
    (hpt : txs evs = []) :
    Open irs iss S scarce (acceptedPcb localIp localPort) (tr ++ (evs ++ (Block.finish (b.report .none env) env).2))
      (Block.finish (b.report .none env) env).1 := by
  obtain ⟨hb', hu', ht'⟩ := hb.reportNone env
  exact hb'.quiet hu ht (by rw [ups_append, hpu, hu']; rfl) (by rw [txs_append, hpt, ht']; rfl)

private theorem Opening.handshake (hb : Opening irs iss b) (hu : ups tr = []) (ht : txs tr = [])
    (hx : h.ack = true → h.ackno ≠ iss + 0x80000000 ∧ h.syn = false ∧ Streamed S (ups tr) x) {recv : Recv}
    (ho : b.handshake { segOf (irs + 1) x with syn := h.syn } h env = some (b', evs, recv))
    (hroom : ∀ room, env.close = some room → room < 2 → scarce) :
    recv.reset = false ∧ Open irs iss S scarce (acceptedPcb localIp localPort)
      (tr ++ (evs ++ (Block.finish (b'.report recv env) env).2)) (Block.finish (b'.report recv env) env).1 := by
  unfold Block.handshake at ho
  split at ho
  case isTrue hack =>
    obtain ⟨hfar, hsyn, hx⟩ := hx hack
    split at ho
    case isTrue hnew =>
      rw [segOf_syn x hsyn] at ho
      obtain ⟨⟨b1, r⟩, hrec, hout⟩ := Option.map_eq_some_iff.mp ho
      cases hout
      exact hb.accepted hu ht hack hfar hx hnew hrec hroom
    case isFalse =>
      cases ho
      exact ⟨rfl, hb.unread hu ht rfl rfl⟩
  case isFalse =>
    split at ho
    · cases ho
      exact ⟨rfl, hb.rexmit.unread hu ht rfl rfl⟩
    · cases ho
      exact ⟨rfl, hb.unread hu ht rfl rfl⟩

theorem Opening.state (hb : Opening irs iss b) : b.state = .synRcvd := by
  obtain ⟨w, -, rfl⟩ := hb
  rfl

/-- `tcp_input` in SYN_RCVD. -/
theorem Opening.tcpInput (hb : Opening irs iss b) (hu : ups tr = []) (ht : txs tr = [])
    (hx : h.rst = true ∨ (h.ack = true → h.ackno ≠ iss + 0x80000000 ∧ h.syn = false ∧ Streamed S (ups tr) x))
    (ho : b.tcpInput { segOf (irs + 1) x with syn := h.syn } h env = some (b', evs))
    (hroom : ∀ room, env.close = some room → room < 2 → scarce) :
    Open irs iss S scarce (acceptedPcb localIp localPort) (tr ++ evs) b' := by
  rw [Block.tcpInput, if_neg (by rw [hb.state]; exact BlockState.noConfusion)] at ho
  obtain ⟨⟨b1, pre, recv⟩, hproc, ho⟩ := Option.map_eq_some_iff.mp ho
  unfold Block.tcpProcess at hproc
  split at hproc
  case isTrue =>
    split at hproc
    · cases hproc
      cases ho
      exact .inr (.inr ⟨rfl, (sound_start hu ht).quiet rfl rfl, .inr (.inl (by simp))⟩)
    split at hproc
    · cases hproc
      cases ho
      exact hb.ackNow.unread hu ht rfl rfl
    · cases hproc
      cases ho
      exact hb.unread hu ht rfl rfl
  case isFalse hrst =>
    rw [if_neg (by simp [hb.state])] at hproc
    have hb := hb.parseopt h.opts ({ segOf (irs + 1) x with syn := h.syn } : TcpSeg).p.bytes
    dsimp only at hproc
    rw [hb.state] at hproc
    obtain ⟨hr, hopen⟩ : recv.reset = false ∧ Open irs iss S scarce (acceptedPcb localIp localPort) _ _ :=
      hb.handshake hu ht (hx.resolve_left hrst) hproc hroom
    rw [if_neg (by rw [hr]; exact Bool.false_ne_true)] at ho
    cases ho
    exact hopen

end Tunosocks.Lwip
