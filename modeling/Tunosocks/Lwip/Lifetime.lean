import Tunosocks.Lwip.CoarseBlock

/-! What can become of a connection behind the handshake: every segment, every read from the remote and every
acknowledgement of the application leaves it a connection, or ends it in one of three ways. -/
namespace Tunosocks.Lwip
open Foundation Foundation.Serial Tcp

variable {base rbase : BitVec 32} {S : List UInt8} {tr evs : List BlockEvent} {b b' : Block} {s : TcpState} {n : Nat}
  {p : Pcb} {scarce : Prop} {env : Env} {x : Piece UInt8} {h : TcpHdr}

/-- What can become of a block that the relay knew as `p`: it lives on, one of the sides resets the connection, or both
are done. -/
def Fate (base rbase : BitVec 32) (S : List UInt8) (scarce : Prop) (p : Pcb) (tr : List BlockEvent) (b : Block) :
    Prop :=
  (∃ s n, Linked base rbase S tr b s n ∧ Moves scarce p (b.view p tr s n)) ∨
    b.gone = true ∧ Sound base S tr ∧ (.aborted ∈ tr ∨ .failed ∈ tr ∨ Complete S tr)

/-- The relay keeps its view from step to step. -/
theorem Fate.trans {tr' : List BlockEvent} (hm : Moves scarce p (b.view p tr s n))
    (hf : Fate base rbase S scarce (b.view p tr s n) tr' b') : Fate base rbase S scarce p tr' b' := by
  rcases hf with ⟨s', n', hl, hm'⟩ | hend
  · exact .inl ⟨s', n', hl, hm.trans hm'⟩
  · exact .inr hend

/-- Nothing that is seen has changed. -/
private theorem Fate.stays (hl : Linked base rbase S (tr ++ evs) b' s n) (htx : txs evs = [])
    (hwnd : b'.rcv.rcvWnd = b.rcv.rcvWnd) (hbuf : b'.tx.snd.sndBuf = b.tx.snd.sndBuf)
    (hrx : b'.rxClosed = b.rxClosed) : Fate base rbase S scarce (b.view p tr s n) (tr ++ evs) b' := by
  refine .inl ⟨s, n, hl, ?_⟩
  rw [view_quiet htx]
  exact view_congr (p := b.view p tr s n) hwnd hbuf hrx ▸ .refl

namespace Linked

/-- `tcp_close`, from a callback for data or the FIN. Data that was not taken is missing in the window. -/
private theorem tcpClose (hl : Linked base rbase S tr b s n) (hset : b.tx.snd.settled = true)
    (hlow : s = .established → b.rcv.rcvWnd ≠ tcpWnd) {room : Nat} (hroom : room < 2 → scarce) :
    Fate base rbase S scarce (b.view p tr s n) (tr ++ (b.tcpClose room).2) (b.tcpClose room).1 := by
  have reset (t : TcpState) (hw : b.rcv.rcvWnd ≠ tcpWnd) :
      Fate base rbase S scarce (b.view p tr s n) (tr ++ ({ b with rxClosed := true }.closeShutdown room t).2)
        ({ b with rxClosed := true }.closeShutdown room t).1 := by
    rw [Block.closeShutdown, if_neg hw]
    exact .inr ⟨rfl, hl.sound.quiet rfl rfl, .inl (by simp)⟩
  have shut (hs : s = .closeWait) :
      Fate base rbase S scarce (b.view p tr s n) (tr ++ ({ b with rxClosed := true }.closeShutdown room .lastAck).2)
        ({ b with rxClosed := true }.closeShutdown room .lastAck).1 := by
    subst hs
    by_cases hw : b.rcv.rcvWnd = tcpWnd
    · obtain ⟨hrcv, hbuf, hrx, ⟨hevs, hl'⟩ | ⟨hevs, hlt, hl'⟩⟩ := hl.sendFin hset hw room
      · refine .inl ⟨.lastAck, n, hl', ?_⟩
        have hclosed : (b.view p tr .closeWait n).tcpClose =
            Block.view _ (b.view p tr .closeWait n) _ .lastAck n := view_closed hw hrcv hbuf hrx
        rw [hevs, ← hclosed]
        exact closed_moves _
      · refine .inl ⟨.closeWait, n, hl', ?_⟩
        have hview : ({ b with rxClosed := true }.closeShutdown room .lastAck).1.view (b.view p tr .closeWait n) tr
            .closeWait n = { b.view p tr .closeWait n with rxClosed := true } := by
          simp only [Block.view, hrcv, hbuf, hrx]
        rw [hevs, view_quiet rfl, hview]
        exact .single (.unclosed (hroom hlt))
    · exact reset _ hw
  have again (hs : s = .lastAck) :
      Fate base rbase S scarce (b.view p tr s n) (tr ++ []) { b with rxClosed := true } := by
    subst hs
    rw [List.append_nil]
    refine .inl ⟨.lastAck, n, ⟨hl.state, hl.alive, hl.rx, hl.wnd, hl.eof, hl.tx, hl.fin, hl.passive, fun _ => rfl⟩, ?_⟩
    exact closed_moves (b.view p tr .lastAck n)
  obtain ⟨state, rcv, tx, rxc, gone⟩ := b
  obtain rfl : state = .synced s := hl.state
  rcases hl.passive with rfl | rfl | rfl
  · exact reset .finWait1 (hlow rfl)
  · exact shut rfl
  · exact again rfl

private theorem callbacks (hl : Linked base rbase S tr b s n) {up : List RcvEvent}
    (hset : up ≠ [] → b.tx.snd.settled = true) (hlow : up ≠ [] → s = .established → b.rcv.rcvWnd ≠ tcpWnd)
    {close : Option Nat} (hroom : ∀ room, close = some room → room < 2 → scarce) :
    Fate base rbase S scarce (b.view p tr s n) (tr ++ (b.callbacks up close).2) (b.callbacks up close).1 := by
  have stays : Fate base rbase S scarce (b.view p tr s n) (tr ++ []) b := .stays (hl.quiet rfl rfl) rfl rfl rfl rfl
  unfold Block.callbacks
  split
  · split
    case isTrue hup => exact hl.tcpClose (hset hup) (hlow hup) (hroom _ rfl)
    case isFalse => exact stays
  · exact stays

/-- `tcp_input` behind `tcp_process`. -/
private theorem report {recv : Recv}
    (hl : Linked base rbase S
      (tr ++ ackEvents recv.acked ++ (handOn (b.rcv, recv.data, recv.gotFin)).2.map .up)
      { b with rcv := (handOn (b.rcv, recv.data, recv.gotFin)).1.rcv } s n)
    (hm : recv.closed = false → Moves scarce p
      (Block.view { b with rcv := (handOn (b.rcv, recv.data, recv.gotFin)).1.rcv } p
        (tr ++ ackEvents recv.acked ++ (handOn (b.rcv, recv.data, recv.gotFin)).2.map .up) s n))
    (hset : (handOn (b.rcv, recv.data, recv.gotFin)).2 ≠ [] → b.tx.snd.settled = true)
    (hlow : (handOn (b.rcv, recv.data, recv.gotFin)).2 ≠ [] → s = .established →
      (handOn (b.rcv, recv.data, recv.gotFin)).1.rcv.rcvWnd ≠ tcpWnd)
    (hclosed : recv.closed = true → (recv.data = none ∧ recv.gotFin = false) ∧ s = .lastAck ∧ b.tx.snd.held = [])
    (hsound : Sound base S (tr ++ ackEvents recv.acked)) (hroom : ∀ room, env.close = some room → room < 2 → scarce) :
    Fate base rbase S scarce p (tr ++ (b.report recv env).2) (b.report recv env).1 := by
  have reset : Fate base rbase S scarce p (tr ++ (ackEvents recv.acked ++ [.aborted])) b.free := by
    rw [← List.append_assoc]
    exact .inr ⟨rfl, hsound.quiet rfl rfl, .inl (by simp)⟩
  unfold Block.report
  split
  · exact reset
  split
  case isTrue hc =>
    obtain ⟨⟨hd, hg⟩, rfl, hheld⟩ := hclosed hc
    rw [hd, hg] at hl
    exact .inr ⟨rfl, hsound, .inr (.inr (by simpa [handOn] using hl.complete rfl rfl hheld))⟩
  case isFalse hc =>
    split
    · exact reset
    · have hf := Fate.trans (hm (by simpa using hc)) (hl.callbacks hset hlow hroom)
      simpa only [List.append_assoc] using hf

end Linked

/-- What is left to do is sending. -/
private theorem Fate.finish {o : Block × List BlockEvent} (hf : Fate base rbase S scarce p (tr ++ o.2) o.1)
    (env : Env) : Fate base rbase S scarce p (tr ++ (Block.finish o env).2) (Block.finish o env).1 := by
  unfold Block.finish
  rcases hf with ⟨s, n, hl, hm⟩ | ⟨hgone, hend⟩
  · rw [if_neg (by rw [hl.alive]; exact Bool.false_ne_true), ← List.append_assoc]
    obtain ⟨n', hl', hm'⟩ := hl.output_moves env
    exact .inl ⟨s, n', hl', hm.trans hm'⟩
  · rw [if_pos hgone]
    exact .inr ⟨hgone, hend⟩

namespace Linked

/-- Nothing was received. -/
private theorem reportNone (hl : Linked base rbase S tr b s n)
    (hroom : ∀ room, env.close = some room → room < 2 → scarce) :
    Fate base rbase S scarce (b.view p tr s n) (tr ++ (Block.finish (b.report .none env) env).2)
      (Block.finish (b.report .none env) env).1 := by
  have hl0 : Linked base rbase S (tr ++ ackEvents 0) b s n := hl.quiet rfl rfl
  refine Fate.finish (@report _ _ _ _ _ s n _ _ _ .none ?_ (fun _ => ?_) (fun h => absurd rfl h) (fun h => absurd rfl h)
    (fun h => ?_) hl0.sound hroom) env
  · exact hl0.quiet rfl rfl
  · rw [view_quiet rfl, view_quiet rfl]
    exact .refl
  · cases h

end Linked

namespace Linked

/-- What a segment of the stream carries, behind its ACK. -/
theorem carried (recv : Recv) {b0 : Block} (hl0 : Linked base rbase S tr b0 s n)
    (hl : Linked base rbase S (tr ++ ackEvents recv.acked) b s n) (hwnd : b.rcv.rcvWnd = b0.rcv.rcvWnd)
    (hrx : b.rxClosed = b0.rxClosed)
    (hset : 0 < x.span → b.tx.snd.settled = true) (hall : b.finAcked h = true → b.tx.snd.unacked = [])
    (hx : Streamed S (ups tr) x) (hdata : b.takeData s (segOf rbase x) env = some (b', recv.data, recv.gotFin))
    (hr : recv.reset = false) (hc : recv.closed = false)
    (hroom : ∀ room, env.close = some room → room < 2 → scarce) :
    let o := b'.next h recv s
    o.2.reset = false ∧
      Fate base rbase S scarce (b0.view p tr s n) (tr ++ (Block.finish (o.1.report o.2 env) env).2)
        (Block.finish (o.1.report o.2 env) env).1 := by
  intro o
  have hx : Streamed S (ups (tr ++ ackEvents recv.acked)) x := by
    rw [ups_append, ups_ackEvents, List.append_nil]
    exact hx
  obtain ⟨heq, -, hlen, hpos, -⟩ := hl.takeData hx hdata
  obtain ⟨hl', hwnd', hheld⟩ := hl.processed hx hdata hall
  have htx : b'.tx = b.tx := by rw [heq]
  have hst : b'.state = .synced s := by rw [heq]; exact hl.state
  have hsnd : o.2 = _ := next_recv hst h hc
  have hset' : 0 < x.span → o.1.tx.snd.settled = true := fun hx => by
    obtain ⟨-, -, -, -, -, hsame | ⟨-, hsame⟩⟩ := next_frame hst h recv
    · rw [show o.1.tx = b.tx from hsame.trans htx]
      exact hset hx
    · rw [show o.1.tx = b'.tcpPcbPurge.tx from hsame]
      rfl
  refine ⟨by rw [hsnd]; exact hr, Fate.finish ?_ env⟩
  rw [hsnd]
  have hsome (hne : (handOn (o.1.rcv, recv.data, recv.gotFin)).2 ≠ []) : recv.data.isSome ∨ recv.gotFin = true := by
    by_contra hno
    simp only [not_or, Bool.not_eq_true, Option.isSome_eq_false_iff, Option.isNone_iff_eq_none] at hno
    exact hne (by simp [handOn, hno.1, hno.2])
  refine report (s := after s recv.gotFin (b'.finAcked h)) (n := n) ?_ (fun hopen => ?_)
    (fun hne => hset' (hpos (hsome hne)).1) (fun hne hs => ?_) (fun hcl => ?_) ?_ hroom
  · exact hl'
  · refine hl0.processed_moves (p := b0.view p tr s n) hl hwnd hrx hx hdata hall fun hs => ?_
    simpa [hs] using hopen
  · -- without the FIN there is data, which was taken from the window
    have hnofin : recv.gotFin = false := by
      have hrecv := after_receives s recv.gotFin (b'.finAcked h)
      rw [hs] at hrecv
      simpa using (Bool.or_eq_false_iff.mp hrecv.symm).2
    obtain ⟨q, hq⟩ := Option.isSome_iff_exists.mp ((hsome hne).resolve_right (by simp [hnofin]))
    have hbytes : 0 < (bytesOf recv.data).length := by
      rw [hq]
      exact hlen q hq
    have hle := hl.wnd
    have hw : o.1.rcv.rcvWnd + (bytesOf recv.data).length + recv.gotFin.toNat = b.rcv.rcvWnd := hwnd'
    show (handOn (o.1.rcv, recv.data, recv.gotFin)).1.rcv.rcvWnd ≠ tcpWnd
    rw [handOn_wnd _ _ _ (by omega)]
    omega
  · simp only [Bool.and_eq_true, decide_eq_true_eq] at hcl
    obtain ⟨rfl, hfa⟩ := hcl
    refine ⟨?_, rfl, hheld hfa⟩
    by_contra hno
    refine absurd (hpos ?_).2 Bool.false_ne_true
    rwa [not_and_or, ← ne_eq, Option.ne_none_iff_isSome, Bool.not_eq_false] at hno
  · exact hl.sound

/-- `tcp_input` in every state behind the handshake. -/
theorem tcpInput (hl : Linked base rbase S tr b s n) (hset : b.tx.snd.settled = true)
    (hx : h.rst = true ∨ h.syn = true ∨ Streamed S (ups tr) x ∧
      tcpParseopt (h.opts ++ x.data) h.opts.length b.tx.snd.mss = b.tx.snd.mss)
    (ho : b.tcpInput { segOf rbase x with syn := h.syn } h env = some (b', evs))
    (hroom : ∀ room, env.close = some room → room < 2 → scarce) :
    Fate base rbase S scarce (b.view p tr s n) (tr ++ evs) b' := by
  unfold Block.tcpInput at ho
  split at ho
  case isTrue htw => exact absurd (BlockState.synced.inj (hl.state.symm.trans htw)) hl.not_timeWait
  case isFalse =>
    obtain ⟨⟨b1, pre, recv⟩, hproc, ho⟩ := Option.map_eq_some_iff.mp ho
    have hns : b.state ≠ .synRcvd := by rw [hl.state]; exact BlockState.noConfusion
    unfold Block.tcpProcess at hproc
    split at hproc
    · split at hproc
      · cases hproc
        cases ho
        exact .inr ⟨rfl, hl.sound.quiet rfl rfl, .inr (.inl (by simp))⟩
      split at hproc
      · cases hproc
        cases ho
        exact hl.ackNow.reportNone hroom
      · cases hproc
        cases ho
        exact hl.reportNone hroom
    split at hproc
    · cases hproc
      cases ho
      exact hl.ackNow.reportNone hroom
    case _ hrst hsyn =>
      have hsyn : h.syn = false := by simpa [hns] using hsyn
      obtain ⟨hx, hmss⟩ := (hx.resolve_left hrst).resolve_left (by simp [hsyn])
      rw [segOf_syn x hsyn] at hproc
      have hl1 : Linked base rbase S tr (b.parseopt h.opts (segOf rbase x).p.bytes) s n := by
        refine hl.congr rfl rfl rfl rfl ?_ rfl rfl
        simpa [segOf, Pbuf.bytes, Block.parseopt, Block.setMss] using hmss
      have hst := hl1.state
      dsimp only at hproc
      rw [hst] at hproc
      obtain ⟨⟨b2, r⟩, hrec, hout⟩ := Option.map_eq_some_iff.mp hproc
      obtain ⟨b3, hl3, hset3, hall, hwnd, hrx, hdata, hreset, hclosed⟩ := hl1.acknowledged hset hrec
      obtain ⟨hr, hfate⟩ := hl1.carried (p := p) r hl3 hwnd hrx hset3 hall hx hdata hreset hclosed hroom
      cases hout
      rw [if_neg (by rw [hr]; exact Bool.false_ne_true)] at ho
      cases ho
      exact hfate

private theorem tcpWrite {data : List UInt8} {room : Nat} (hl : Linked base rbase S tr b s n)
    (hset : b.tx.snd.settled = true)
    (ho : b.tcpWrite data room = some (b', evs)) : Linked base rbase S (tr ++ evs) b' s n := by
  cases hs : s.closes with
  | true =>
    cases (hl.tcpWrite_refused hs).symm.trans ho
    exact hl.quiet rfl rfl
  | false =>
    obtain ⟨k, a, us, vs, htx⟩ := hl.tx
    obtain ⟨tx, out, vs', hw, htx', -⟩ := htx.write (htx.sending.settled_iff.mp hset) data room
    have hopen : b.tx.snd.fin = false := hl.fin.trans hs
    rw [TxState.write, if_neg (by rw [hopen]; exact Bool.false_ne_true)] at hw
    obtain ⟨⟨snd, err⟩, hsnd, hout⟩ := Option.map_eq_some_iff.mp hw
    have hthis : b.tcpWrite data room =
        some ({ b with tx := { b.tx with snd } }, if err = .ok then [.tx (.accepted data)] else []) := by
      unfold Block.tcpWrite
      rw [hl.state, hsnd]
      cases s <;> first | rfl | cases hs
    cases hthis.symm.trans ho
    cases hout
    obtain ⟨hup, htxs⟩ : ups (if err = .ok then [.tx (.accepted data)] else []) = [] ∧
        txs (if err = .ok then [.tx (.accepted data)] else []) = if err = .ok then [.accepted data] else [] := by
      split <;> exact ⟨rfl, rfl⟩
    have hu : ups (tr ++ if err = .ok then [.tx (.accepted data)] else []) = ups tr := by
      rw [ups_append, hup, List.append_nil]
    refine ⟨hl.state, hl.alive, hu ▸ hl.rx, hl.wnd, hu ▸ hl.eof, ⟨k, a, us, vs', ?_⟩, ?_, hl.passive, hl.rxClosed⟩
    · rw [txs_append, htxs]
      exact htx'
    · exact (tcpWrite_tuning hsnd).2.trans hl.fin

theorem relay {data : List UInt8} {room : Nat} (hl : Linked base rbase S tr b s n) (hset : b.tx.snd.settled = true)
    (ho : b.relay data room env = some (b', evs)) :
    Fate base rbase S scarce (b.view p tr s n) (tr ++ evs) b' := by
  have hfill : Linked base rbase S tr { b with tx := b.tx.fill data } s n := hl.congr rfl rfl rfl rfl rfl rfl rfl
  obtain ⟨⟨b1, evs1⟩, hw, hout⟩ := Option.map_eq_some_iff.mp ho
  have hl1 := hfill.tcpWrite hset hw
  have hm : Moves scarce (b.view p tr s n) (Block.view _ (b.view p tr s n) _ s n) := hfill.tcpWrite_moves hl1 hw
  have hf := Fate.finish (o := (b1, evs1)) (.inl ⟨s, n, hl1, hm⟩) env
  rwa [hout] at hf

theorem tcpRecved {len : Nat} (hl : Linked base rbase S tr b s n) (ho : b.tcpRecved len env = some (b', evs)) :
    Fate base rbase S scarce (b.view p tr s n) (tr ++ evs) b' := by
  obtain ⟨⟨rcv, now⟩, hr, hout⟩ := Option.map_eq_some_iff.mp ho
  have hle := grownWnd_bounds hl.wnd len
  rw [← (tcpRecved_same hr).2.1] at hle
  have hl1 : Linked base rbase S tr { b with rcv } s n :=
    ⟨hl.state, hl.alive, hl.rx.recved hr, hle.2, hl.eof, hl.tx, hl.fin, hl.passive, hl.rxClosed⟩
  have hm : Moves scarce (b.view p tr s n) (Block.view { b with rcv } (b.view p tr s n) tr s n) :=
    hl.tcpRecved_moves hr
  dsimp only at hout
  split at hout
  · obtain ⟨n', hl', hm'⟩ := @output_moves _ _ _ _ _ _ _ (b.view p tr s n) scarce hl1 env
    rw [hout] at hl' hm'
    exact .inl ⟨s, n', hl', hm.trans hm'⟩
  · cases hout
    exact .trans hm (.stays (hl1.quiet rfl rfl) rfl rfl rfl rfl)

end Linked

end Tunosocks.Lwip
