import Tunosocks.Lwip.Handshake
import Tunosocks.Lwip.Wire

/-! Whole runs of a block, from the SYN that made it: what the two streams carry, what the states mean, how it
ends, and what the relay sees of it. -/
namespace Tunosocks.Lwip
open Foundation Foundation.Serial Tcp

/-- What the results suppose of a step. Behind the handshake the segments with data are those of the stream `S`, and
their options keep the segment size; in SYN_RCVD this is supposed of one with an ACK, which is not for a number half
the sequence space away. Nothing that waits to be sent again is the last segment waiting. -/
def Honest (S : List UInt8) (tr : List BlockEvent) (b : Block) : BlockAct → Prop
  | .segment x h _ =>
    b.tx.snd.settled = true ∧ (h.rst = true ∨
      if b.state = .synRcvd then
        h.ack = true → h.ackno ≠ b.tx.snd.lastack + 0x80000000 ∧ h.syn = false ∧ Streamed S (ups tr) x
      else
        h.syn = true ∨ Streamed S (ups tr) x ∧
          tcpParseopt (h.opts ++ x.data) h.opts.length b.tx.snd.mss = b.tx.snd.mss)
  | .relay _ _ _ => b.tx.snd.settled = true
  | .recved _ _ => True

instance (S : List UInt8) (up : List RcvEvent) (x : Piece UInt8) : Decidable (Streamed S up x) := by
  unfold Streamed Near
  infer_instance

instance (S : List UInt8) (tr : List BlockEvent) (b : Block) (a : BlockAct) : Decidable (Honest S tr b a) :=
  match a with
  | .segment _ _ _ => inferInstanceAs (Decidable (_ ∧ _))
  | .relay _ _ _ => inferInstanceAs (Decidable (_ = true))
  | .recved _ _ => .isTrue trivial

variable {irs iss : BitVec 32} {S : List UInt8} {tr evs : List BlockEvent} {b b' : Block} {s : TcpState}
  {scarce : Prop} {localIp : List UInt8} {localPort : Nat}

/-- A callback for the segment closes, where the FIN cannot be allocated. -/
def BlockAct.starved : BlockAct → Bool
  | .segment _ _ env => env.close.any fun room => decide (room < 2)
  | _ => false

/-- Every step keeps it. -/
private theorem Open.step (hopen : Open irs iss S scarce (acceptedPcb localIp localPort) tr b) {a : BlockAct}
    (hg : Honest S tr b a) (hscarce : a.starved = true → scarce) (ho : b.step (irs + 1) a = some (b', evs)) :
    Open irs iss S scarce (acceptedPcb localIp localPort) (tr ++ evs) b' := by
  unfold Block.step at ho
  split at ho
  · cases ho
  case isFalse halive =>
    have hroom : ∀ {x h env}, a = .segment x h env → ∀ room, env.close = some room → room < 2 → scarce := by
      rintro x h env rfl room hc hlt
      exact hscarce (by simpa [BlockAct.starved, hc] using hlt)
    rcases hopen with ⟨hb, hu, ht⟩ | ⟨s, n, hl, hm⟩ | ⟨hgone, -⟩
    · cases a with
      | segment x h env =>
        obtain ⟨-, hg⟩ := hg
        rw [if_pos hb.state] at hg
        obtain ⟨w, hw, rfl⟩ := hb
        exact Opening.tcpInput ⟨w, hw, rfl⟩ hu ht hg ho (hroom rfl)
      | _ =>
        rw [hb.state] at ho
        cases ho
    · have hns : b.state ≠ .synRcvd := by rw [hl.state]; exact BlockState.noConfusion
      cases a with
      | segment x h env =>
        obtain ⟨hset, hg⟩ := hg
        rw [if_neg hns] at hg
        exact .inr (.trans hm (hl.tcpInput hset hg ho (hroom rfl)))
      | relay data room env =>
        rw [hl.state] at ho
        exact .inr (.trans hm (hl.relay hg ho))
      | recved len env =>
        rw [hl.state] at ho
        exact .inr (.trans hm (hl.tcpRecved ho))
    · exact absurd hgone halive

/-- The peer and the interface behave as supposed along the run. -/
abbrev HonestRun (S : List UInt8) (ts : List BlockTransition) : Prop :=
  Machine.Along (fun tr t => Honest S tr t.pre t.act) [] ts

private theorem open_run {ts : List BlockTransition} (hr : (blockMachine irs iss).Run ts b) (hg : HonestRun S ts)
    (localIp : List UInt8) (localPort : Nat) :
    Open irs iss S (∃ t ∈ ts, t.act.starved = true) (acceptedPcb localIp localPort) (Machine.trace ts) b := by
  refine hr.along (fun tr t => Honest S tr t.pre t.act ∧ (t.act.starved = true → ∃ t ∈ ts, t.act.starved = true))
    (fun tr b => Open irs iss S _ (acceptedPcb localIp localPort) tr b) ?_ ?_
    (Machine.along_and hg fun t ht hs => ⟨t, ht, hs⟩)
  · rintro b ⟨h, data, buff, room, env, evs, hwnd, ho⟩
    exact .inl ⟨.init hwnd ho, rfl, rfl⟩
  · exact fun tr b a b' evs hopen hstep hg => hopen.step hg.1 hg.2 hstep

private theorem Open.sound {p : Pcb} (hopen : Open irs iss S scarce p tr b) : Sound (iss + 1) S tr := by
  rcases hopen with ⟨-, hu, ht⟩ | ⟨s, n, hl, -⟩ | ⟨-, hs, -⟩
  · exact sound_start hu ht
  · exact hl.sound
  · exact hs

private theorem unspoilt_run {ts : List BlockTransition} (hr : (blockMachine irs iss).Run ts b)
    (hi : ∀ t ∈ ts, BlockSpares t.pre t.act) : Unspoilt (txs (Machine.trace ts)) b.tx := by
  refine hr.guarded_trace (fun t => BlockSpares t.pre t.act) (fun tr b => Unspoilt (txs tr) b.tx) ?_
    (fun tr b a b' evs hun hstep hs => hun.blockStep hs hstep) hi
  rintro b ⟨h, data, buff, room, env, evs, hwnd, ho⟩
  obtain ⟨w, -, rfl⟩ := Opening.init hwnd ho
  refine ⟨fun seg hseg => ?_, fun _ _ hmem => absurd hmem List.not_mem_nil⟩
  -- the SYN is all there is
  have hsyn : seg = synSeg iss := by
    simp only [Waiting.block, Snd.held] at hseg
    cases hw : w.waits <;> simpa [hw] using hseg
  rw [hsyn]
  exact List.forall_mem_nil _

/-- From its SYN to its end a block hands on the start of the peer's stream, and all of it before the FIN; what goes
out are the bytes that were written, at their numbers, as long as reads spare what is queued. -/
theorem connection_carries_both_streams {ts : List BlockTransition} (hr : (blockMachine irs iss).Run ts b)
    (hg : HonestRun S ts) :
    delivered (ups (Machine.trace ts)) <+: S ∧
      (.fin ∈ ups (Machine.trace ts) → delivered (ups (Machine.trace ts)) = S) ∧
      ((∀ t ∈ ts, BlockSpares t.pre t.act) → ∀ seg wire, .sent seg wire ∈ txs (Machine.trace ts) →
        ∃ off : Nat, seg.seqno = num (iss + 1) off ∧ wire <+: (written (txs (Machine.trace ts))).drop off ∧
          wire.length = seg.len ∧ (seg.fin = true → ended (txs (Machine.trace ts)) = true ∧
            off + wire.length = (written (txs (Machine.trace ts))).length)) := by
  obtain ⟨hpart, hwhole, hsent⟩ := (open_run hr hg [] 0).sound
  refine ⟨hpart, hwhole, fun hi seg wire hmem => ?_⟩
  obtain ⟨x, hx⟩ := hsent seg wire hmem
  obtain rfl : wire = x.data := ((unspoilt_run hr hi).wire seg wire hmem).trans hx.is.bytes
  refine ⟨x.off, hx.is.seqno, hx.cut.data, hx.is.len.symm, fun hf => ?_⟩
  rw [hx.is.fin] at hf
  exact ⟨hx.fin hf, hx.cut.fin hf⟩

/-- Memory and the interface suffice, and no callback closes. -/
def calm : Env := ⟨true, .sent, .sent, false, none, 9, .sent⟩

def plainAck (ackno : BitVec 32) : TcpHdr := ⟨ackno, 8192, true, false, false, []⟩

/-- The block that a SYN with number 99 makes. -/
def opened : Block :=
  ((tcpListenInput 99 6510 ⟨0, 8192, false, true, false, [2, 4, 5, 180]⟩ [] [] 2 calm).map Prod.fst).getD
    (Block.fresh 99 6510 ⟨0, 8192, false, true, false, [2, 4, 5, 180]⟩ [])

private theorem opened_init : (blockMachine 99 6510).Init opened :=
  ⟨⟨0, 8192, false, true, false, [2, 4, 5, 180]⟩, [], [], 2, calm, [.synAck], by decide, rfl⟩

/-- Three bytes of the peer, two of the remote, and both FINs; the first byte comes with the ACK of the SYN. -/
def session : List BlockAct :=
  [.segment ⟨0, [1], false⟩ (plainAck 6511) calm, .relay [7, 8] 3 calm, .recved 1 calm,
    .segment ⟨1, [2, 3], false⟩ (plainAck 6513) calm, .recved 2 calm,
    .segment ⟨3, [], true⟩ (plainAck 6513) { calm with close := some 2 }, .segment ⟨4, [], false⟩ (plainAck 6514) calm]

private theorem session_run : ∃ ts b, (blockMachine 99 6510).Run ts b ∧ HonestRun [1, 2, 3] ts ∧ b.gone = true ∧
    (.fin ∈ ups (Machine.trace ts) ∧ written (txs (Machine.trace ts)) = [7, 8] ∧ ∀ t ∈ ts, BlockSpares t.pre t.act) ∧
    (.aborted ∉ Machine.trace ts ∧ .failed ∉ Machine.trace ts) ∧ ∃ t ∈ ts, .accepted ∈ t.out := by
  obtain ⟨ts, b, run, h⟩ := Machine.Run.exists_of_exec (blockMachine 99 6510) opened session
    (fun ts b => decide (HonestRun [1, 2, 3] ts ∧ b.gone = true ∧
      (.fin ∈ ups (Machine.trace ts) ∧ written (txs (Machine.trace ts)) = [7, 8] ∧
        ∀ t ∈ ts, BlockSpares t.pre t.act) ∧
      (.aborted ∉ Machine.trace ts ∧ .failed ∉ Machine.trace ts) ∧ ∃ t ∈ ts, .accepted ∈ t.out)) opened_init
    rfl
  exact ⟨ts, b, run, of_decide_eq_true h⟩

/-- The session up to the FIN of this side. -/
private theorem session_lastAck : ∃ ts b, (blockMachine 99 6510).Run ts b ∧ HonestRun [1, 2, 3] ts ∧ b.gone = false ∧
    b.state = .synced .lastAck ∧ (¬ ∃ t ∈ ts, t.act.starved = true) ∧
    writeLens (txs (Machine.trace ts)) = [2] := by
  obtain ⟨ts, b, run, h⟩ := Machine.Run.exists_of_exec (blockMachine 99 6510) opened (session.take 6)
    (fun ts b => decide (HonestRun [1, 2, 3] ts ∧ b.gone = false ∧ b.state = .synced .lastAck ∧
      (¬ ∃ t ∈ ts, t.act.starved = true) ∧ writeLens (txs (Machine.trace ts)) = [2])) opened_init rfl
  exact ⟨ts, b, run, of_decide_eq_true h⟩

theorem connection_carries_both_streams_end : ∃ ts b, (blockMachine 99 6510).Run ts b ∧ HonestRun [1, 2, 3] ts ∧
    .fin ∈ ups (Machine.trace ts) ∧ delivered (ups (Machine.trace ts)) = [1, 2, 3] ∧
    written (txs (Machine.trace ts)) = [7, 8] ∧ ∀ seg wire, .sent seg wire ∈ txs (Machine.trace ts) →
      ∃ off : Nat, seg.seqno = num 6511 off ∧ wire <+: [7, 8].drop off := by
  obtain ⟨ts, b, run, hg, -, ⟨hfin, hw, hi⟩, -⟩ := session_run
  obtain ⟨-, hwhole, hsent⟩ := connection_carries_both_streams run hg
  refine ⟨ts, b, run, hg, hfin, hwhole hfin, hw, fun seg wire hmem => ?_⟩
  obtain ⟨off, hnum, hwire, -⟩ := hsent hi seg wire hmem
  rw [hw] at hwire
  exact ⟨off, hnum, hwire⟩

/-- A connection is in ESTABLISHED until the FIN of the peer has come, then in CLOSE_WAIT until its own is queued, and
then in LAST_ACK. -/
theorem state_follows_fins {ts : List BlockTransition} (hr : (blockMachine irs iss).Run ts b) (hg : HonestRun S ts)
    (halive : b.gone = false) (hs : b.state = .synced s) :
    (s = .established ∨ s = .closeWait ∨ s = .lastAck) ∧ (.fin ∈ ups (Machine.trace ts) ↔ s ≠ .established) ∧
      (ended (txs (Machine.trace ts)) = true ↔ s = .lastAck) := by
  rcases open_run hr hg [] 0 with ⟨hb, -⟩ | ⟨s', n, hl, -⟩ | ⟨hgone, -⟩
  · rw [hb.state] at hs
    cases hs
  · obtain rfl : s' = s := BlockState.synced.inj (hl.state.symm.trans hs)
    obtain ⟨k, a, us, vs, htx⟩ := hl.tx
    have hfin : .fin ∈ ups (Machine.trace ts) ↔ s'.receives = false := by
      refine ⟨fun hf => ?_, hl.eof⟩
      rcases hl.rx with ⟨hr, -⟩ | ⟨R, hR⟩
      · exact Bool.not_eq_true' _ |>.mp hr
      · exact absurd hf hR.finless.2
    rw [hfin, ← htx.fin, hl.fin]
    rcases hl.passive with rfl | rfl | rfl <;> decide
  · exact absurd hgone (by rw [halive]; exact Bool.false_ne_true)

/-- In LAST_ACK the FIN of the peer has come and that of this side is queued. -/
theorem state_follows_fins_lastAck : ∃ ts b, (blockMachine 99 6510).Run ts b ∧ HonestRun [1, 2, 3] ts ∧
    b.gone = false ∧ b.state = .synced .lastAck ∧ .fin ∈ ups (Machine.trace ts) ∧
    ended (txs (Machine.trace ts)) = true := by
  obtain ⟨ts, b, run, hg, halive, hs, -⟩ := session_lastAck
  obtain ⟨-, hfin, hended⟩ := state_follows_fins run hg halive hs
  exact ⟨ts, b, run, hg, halive, hs, hfin.mpr TcpState.noConfusion, hended.mpr rfl⟩

/-- A block that ends with no reset from either side has handed on the whole stream and its FIN, has queued its own,
and everything that was written was acknowledged. -/
theorem graceful_end_is_complete {ts : List BlockTransition} (hr : (blockMachine irs iss).Run ts b)
    (hg : HonestRun S ts) (hend : b.gone = true) (ha : .aborted ∉ Machine.trace ts)
    (hf : .failed ∉ Machine.trace ts) : Complete S (Machine.trace ts) := by
  rcases open_run hr hg [] 0 with ⟨hb, -⟩ | ⟨s, n, hl, -⟩ | ⟨-, -, hfate⟩
  · obtain ⟨w, -, rfl⟩ := hb
    cases hend
  · exact absurd (hl.alive.symm.trans hend) Bool.false_ne_true
  · exact (hfate.resolve_left ha).resolve_left hf

theorem graceful_end_is_complete_session : ∃ ts b, (blockMachine 99 6510).Run ts b ∧ HonestRun [1, 2, 3] ts ∧
    b.gone = true ∧ Complete [1, 2, 3] (Machine.trace ts) := by
  obtain ⟨ts, b, run, hg, hgone, -, ⟨ha, hf⟩, -⟩ := session_run
  exact ⟨ts, b, run, hg, hgone, graceful_end_is_complete run hg hgone ha hf⟩

/-- As the relay sees it, a live block is reached from the one that `listener_accept_func` is given by what the coarse
block can do. A close that sets nothing but a flag is among its moves only where a FIN could not be allocated. -/
theorem block_refines_pcb {ts : List BlockTransition} (hr : (blockMachine irs iss).Run ts b) (hg : HonestRun S ts)
    (halive : b.gone = false) (hs : b.state = .synced s) (localIp : List UInt8) (localPort : Nat) (buff : RecvBuff)
    (opened : Bool) :
    ∃ q, Moves (∃ t ∈ ts, t.act.starved = true) (Conn.listenerAcceptFunc localIp localPort buff opened).pcb q ∧
      (q.state = s ∧ q.freed = false) ∧
      (q.rcvWnd = b.rcv.rcvWnd ∧ q.sndBuf = b.tx.snd.sndBuf ∧ q.rxClosed = b.rxClosed) ∧
      q.writes = writeLens (txs (Machine.trace ts)) ∧ q.queued = (written (txs (Machine.trace ts))).length ∧
      q.acked = acked (txs (Machine.trace ts)) := by
  rcases open_run hr hg localIp localPort with ⟨hb, -⟩ | ⟨s', n, hl, hm⟩ | ⟨hgone, -⟩
  · rw [hb.state] at hs
    cases hs
  · obtain rfl : s' = s := BlockState.synced.inj (hl.state.symm.trans hs)
    rw [← acceptedPcb_eq localIp localPort buff opened] at hm
    exact ⟨_, hm, ⟨rfl, rfl⟩, ⟨rfl, rfl, rfl⟩, rfl, view_queued, rfl⟩
  · exact absurd hgone (by rw [halive]; exact Bool.false_ne_true)

/-- With memory for the FIN the coarse block gets to LAST_ACK by its own moves. -/
theorem block_refines_pcb_lastAck : ∃ ts b, (blockMachine 99 6510).Run ts b ∧ HonestRun [1, 2, 3] ts ∧
    b.gone = false ∧ b.state = .synced .lastAck ∧ (¬ ∃ t ∈ ts, t.act.starved = true) ∧
    ∃ q, Moves (∃ t ∈ ts, t.act.starved = true)
      (Conn.listenerAcceptFunc [9, 9, 9, 9] 80 ⟨List.replicate 1436 0, List.length_replicate⟩ true).pcb q ∧
      q.state = .lastAck ∧ q.writes = [2] := by
  obtain ⟨ts, b, run, hg, halive, hs, hroom, hw⟩ := session_lastAck
  obtain ⟨q, hm, ⟨hstate, -⟩, -, hwrites, -⟩ := block_refines_pcb run hg halive hs [9, 9, 9, 9] 80
    ⟨List.replicate 1436 0, List.length_replicate⟩ true
  exact ⟨ts, b, run, hg, halive, hs, hroom, q, hm, hstate, hwrites.trans hw⟩

section Accepted
variable {env : Env} {h : TcpHdr} {seg : TcpSeg} {recv : Recv}

private theorem accepted_not_mem_output (b : Block) (env : Env) : .accepted ∉ (b.output env).2 := by
  unfold Block.output
  dsimp only
  split <;> simp

private theorem accepted_not_mem_closeShutdown (b : Block) (room : Nat) (s : TcpState) :
    .accepted ∉ (b.closeShutdown room s).2 := by
  unfold Block.closeShutdown
  dsimp only
  split
  · split <;> simp
  · simp

private theorem accepted_not_mem_tcpClose (b : Block) (room : Nat) : .accepted ∉ (b.tcpClose room).2 := by
  unfold Block.tcpClose
  dsimp only
  split
  · exact accepted_not_mem_closeShutdown _ _ _
  · exact accepted_not_mem_closeShutdown _ _ _
  · exact List.not_mem_nil

private theorem accepted_not_mem_callbacks (b : Block) (up : List RcvEvent) (close : Option Nat) :
    .accepted ∉ (b.callbacks up close).2 := by
  unfold Block.callbacks
  split
  · split
    · exact accepted_not_mem_tcpClose _ _
    · exact List.not_mem_nil
  · exact List.not_mem_nil

private theorem accepted_not_mem_report (b : Block) (recv : Recv) (env : Env) : .accepted ∉ (b.report recv env).2 := by
  have hack : .accepted ∉ ackEvents recv.acked := by
    unfold ackEvents
    split <;> simp
  unfold Block.report
  split
  · simpa using hack
  split
  · exact hack
  split
  · simpa using hack
  · simpa using ⟨hack, accepted_not_mem_callbacks _ _ _⟩

private theorem accepted_not_mem_finish {o : Block × List BlockEvent} (ho : .accepted ∉ o.2) (env : Env) :
    .accepted ∉ (Block.finish o env).2 := by
  unfold Block.finish
  split
  · exact ho
  · exact fun h => (List.mem_append.mp h).elim ho (accepted_not_mem_output _ _)

private theorem accepted_not_mem_timewait (b : Block) (seg : TcpSeg) (h : TcpHdr) (env : Env) :
    .accepted ∉ (b.tcpTimewaitInput seg h env).2 := by
  unfold Block.tcpTimewaitInput
  split
  · exact List.not_mem_nil
  split
  · simp
  split
  · exact accepted_not_mem_output _ _
  · exact List.not_mem_nil

private theorem accepted_not_mem_tcpWrite {data : List UInt8} {room : Nat} {o : Block × List BlockEvent}
    (ho : b.tcpWrite data room = some o) : .accepted ∉ o.2 := by
  unfold Block.tcpWrite at ho
  split at ho
  case h_3 =>
    cases ho
    exact List.not_mem_nil
  all_goals
    obtain ⟨o, -, hout⟩ := Option.map_eq_some_iff.mp ho
    cases hout
    dsimp only
    split <;> simp

/-- Only an ACK in SYN_RCVD for a number that was sent makes a connection of the block. -/
private theorem accepted_mem_tcpProcess (ho : b.tcpProcess seg h env = some (b', evs, recv)) (hacc : .accepted ∈ evs) :
    b.state = .synRcvd ∧ h.rst = false ∧ h.ack = true ∧
      tcpSeqBetween h.ackno (b.tx.snd.lastack + 1) b.tx.snd.sndNxt = true := by
  unfold Block.tcpProcess at ho
  split at ho
  · split at ho
    · cases ho
      cases hacc
    split at ho <;>
    · cases ho
      cases hacc
  split at ho
  · cases ho
    cases hacc
  case isFalse.isFalse hrst _ =>
    dsimp only at ho
    split at ho
    case h_1 hstate =>
      unfold Block.handshake at ho
      split at ho
      case isTrue hack =>
        split at ho
        case isTrue hnew => exact ⟨hstate, by simpa using hrst, hack, hnew⟩
        case isFalse =>
          cases ho
          simp at hacc
      case isFalse =>
        split at ho <;>
        · cases ho
          cases hacc
    case h_2 =>
      obtain ⟨o, -, hout⟩ := Option.map_eq_some_iff.mp ho
      cases hout
      cases hacc

private theorem accepted_mem_step {rbase : BitVec 32} {a : BlockAct} (ho : b.step rbase a = some (b', evs))
    (hacc : .accepted ∈ evs) : ∃ x h env, a = .segment x h env ∧ b.state = .synRcvd ∧ h.rst = false ∧
      h.ack = true ∧ tcpSeqBetween h.ackno (b.tx.snd.lastack + 1) b.tx.snd.sndNxt = true := by
  unfold Block.step at ho
  split at ho
  · cases ho
  split at ho
  · refine ⟨_, _, _, rfl, ?_⟩
    unfold Block.tcpInput at ho
    split at ho
    · have hevs : _ = evs := congrArg Prod.snd (Option.some.inj ho)
      rw [← hevs] at hacc
      exact absurd hacc (accepted_not_mem_timewait _ _ _ _)
    obtain ⟨⟨b1, pre, recv⟩, hproc, hout⟩ := Option.map_eq_some_iff.mp ho
    refine accepted_mem_tcpProcess hproc ?_
    dsimp only at hout
    split at hout
    · cases hout
      simpa using hacc
    · cases hout
      exact (List.mem_append.mp hacc).resolve_right (accepted_not_mem_finish (accepted_not_mem_report _ _ _) _)
  · obtain ⟨o, hw, hout⟩ := Option.map_eq_some_iff.mp ho
    have hevs : _ = evs := congrArg Prod.snd hout
    rw [← hevs] at hacc
    exact absurd hacc (accepted_not_mem_finish (accepted_not_mem_tcpWrite hw) _)
  · obtain ⟨o, -, hout⟩ := Option.map_eq_some_iff.mp ho
    have hevs : _ = evs := congrArg Prod.snd hout
    rw [← hevs] at hacc
    dsimp only at hacc
    split at hacc
    · exact absurd hacc (accepted_not_mem_output _ _)
    · cases hacc
  · cases ho

end Accepted

/-- The handshake ends with an ACK for the SYN, once that was sent. Between the ACK of that segment and its data the
block is the start of a sender and of a receiver. -/
theorem accepted_starts_both_sides {ts : List BlockTransition} {t : BlockTransition}
    (hr : (blockMachine irs iss).Run ts b) (hg : HonestRun S ts) (ht : t ∈ ts) (hacc : .accepted ∈ t.out) :
    ∃ x h env, t.act = .segment x h env ∧ h.ackno = iss + 1 ∧ t.pre.tx.snd.sndNxt = iss + 1 ∧
      ∃ b1, (t.pre.parseopt h.opts x.data).accept.takeAck (segOf (irs + 1) x) h env = some (b1, 0) ∧
        (sndMachine (iss + 1)).Init b1.startCwnd.tx ∧ (rcvMachine (irs + 1)).Init ⟨b1.rcv, false⟩ := by
  obtain ⟨us, vs, rfl, hrun, hstep⟩ := hr.split ht
  obtain ⟨x, h, env, hact, hstate, hrst, hack, hnew⟩ := accepted_mem_step hstep hacc
  obtain ⟨hgus, hgt⟩ := Machine.along_upTo hg
  rw [hact] at hgt
  have hb : Opening irs iss t.pre := by
    rcases open_run hrun hgus [] 0 with ⟨hb, -⟩ | ⟨s, n, hl, -⟩ | ⟨hgone, -⟩
    · exact hb
    · rw [hl.state] at hstate
      cases hstate
    · have hnone : t.pre.step (irs + 1) t.act = none := if_pos hgone
      cases hnone.symm.trans hstep
  have hlast : t.pre.tx.snd.lastack = iss := by
    obtain ⟨w, -, hw⟩ := hb
    rw [hw]
    rfl
  have hfar : h.ackno ≠ iss + 0x80000000 := by
    obtain ⟨-, hgt⟩ := hgt
    rw [if_pos hstate, hlast] at hgt
    exact (hgt.resolve_left (by rw [hrst]; exact Bool.false_ne_true) hack).1
  obtain ⟨⟨hno, hnxt⟩, b1, htake, -, htx, hrx⟩ :=
    (hb.parseopt h.opts x.data).takeAck hack hfar hnew (segOf (irs + 1) x) env
  exact ⟨x, h, env, hact, hno, hnxt, b1, htake, htx, hrx⟩

theorem accepted_starts_both_sides_data : ∃ ts b t, (blockMachine 99 6510).Run ts b ∧ HonestRun [1, 2, 3] ts ∧ t ∈ ts ∧
    .accepted ∈ t.out ∧ ∃ x h env, t.act = .segment x h env ∧ h.ackno = 6511 := by
  obtain ⟨ts, b, run, hg, -, -, -, t, ht, hacc⟩ := session_run
  obtain ⟨x, h, env, hact, hno, -⟩ := accepted_starts_both_sides run hg ht hacc
  exact ⟨ts, b, t, run, hg, ht, hacc, x, h, env, hact, hno⟩

end Tunosocks.Lwip
