import Mathlib.Logic.Relation
import Tunosocks.Lwip.Connection
import Tunosocks.Tcp.Moves

/-! The block that the relay is verified against, `Tcp.Pcb`, as a view of the block that lwIP keeps: what
happens to the one is a move of the other. -/
namespace Tunosocks.Lwip
open Foundation Foundation.Serial Tcp

def SndEvent.taken? : SndEvent → Option Nat
  | .accepted data => some data.length
  | _ => none

/-- The lengths given to `tcp_write`. -/
def writeLens (tr : List SndEvent) : List Nat := tr.filterMap SndEvent.taken?

/-- The block as the relay knows it; what lwIP does not touch is taken from `p`. -/
def Block.view (b : Block) (p : Pcb) (tr : List BlockEvent) (s : TcpState) (n : Nat) : Pcb :=
  { p with
    state := s, rcvWnd := b.rcv.rcvWnd, sndBuf := b.tx.snd.sndBuf, writes := writeLens (txs tr)
    acked := acked (txs tr), sndNxt := min n (written (txs tr)).length, rxClosed := b.rxClosed
    closed := false, freed := false }

/-- What happens to a block by itself and in the calls of the relay. Where memory is scarce, `tcp_close` may fail to
queue its FIN. -/
inductive PcbMove (scarce : Prop) (p : Pcb) : Pcb → Prop where
  | lwip {seg : Segment} {evs : List TcpEvent} {q : Pcb} (change : LwipChange seg p evs q) : PcbMove scarce p q
  | wrote {len : Nat} {q : Pcb} (taken : p.tcpWrite len .free = some q) : PcbMove scarce p q
  | recved (len : Nat) : PcbMove scarce p (p.tcpRecved len)
  | transmitted {offset len : Nat} (alive : p.freed = false) (synced : p.state ≠ .timeWait) (pos : 0 < len)
      (start : offset ≤ p.sndNxt) (stop : offset + len ≤ p.queued) (new : p.acked < offset + len) :
      PcbMove scarce p { p with sndNxt := max p.sndNxt (offset + len) }
  | unclosed (starved : scarce) : PcbMove scarce p { p with rxClosed := true }

abbrev Moves (scarce : Prop) : Pcb → Pcb → Prop := Relation.ReflTransGen (PcbMove scarce)

variable {base rbase : BitVec 32} {S : List UInt8} {tr evs : List BlockEvent} {b b' : Block} {s : TcpState} {n n' : Nat}
  {p q : Pcb} {scarce : Prop} {env : Env} {x : Piece UInt8} {h : TcpHdr}

@[simp] private theorem writeLens_append (tr evs : List SndEvent) :
    writeLens (tr ++ evs) = writeLens tr ++ writeLens evs :=
  List.filterMap_append

private theorem writeLens_sum (tr : List SndEvent) : (writeLens tr).sum = (written tr).length := by
  induction tr with
  | nil => rfl
  | cons e tr ih =>
    have hcons : written (e :: tr) = e.data ++ written tr := rfl
    rw [hcons, List.length_append, ← ih]
    cases e with
    | accepted data => exact List.sum_cons
    | _ => exact (Nat.zero_add _).symm

private theorem writeLens_sent (l : List OutSeg) (f : OutSeg → List UInt8) :
    writeLens (l.map fun seg => SndEvent.sent seg (f seg)) = [] := by
  induction l with
  | nil => rfl
  | cons seg l ih => exact ih

theorem view_queued : (b.view p tr s n).queued = (written (txs tr)).length := writeLens_sum _

theorem view_quiet (htx : txs evs = []) : b.view p (tr ++ evs) s n = b.view p tr s n := by
  simp only [Block.view, txs_append, htx, List.append_nil]

/-- Only the window, the room and a flag of the block are seen. -/
theorem view_congr (hwnd : b'.rcv.rcvWnd = b.rcv.rcvWnd) (hbuf : b'.tx.snd.sndBuf = b.tx.snd.sndBuf)
    (hrx : b'.rxClosed = b.rxClosed) : b'.view p tr s n = b.view p tr s n := by
  simp only [Block.view, hwnd, hbuf, hrx]

/-- Whatever goes out is seen as one transmission, or not at all. -/
private theorem transmits {m : Nat} (alive : p.freed = false) (hack : p.acked ≤ p.sndNxt) (hle : p.sndNxt ≤ m)
    (hstop : m ≤ p.queued) (hstate : p.state ≠ .timeWait) : Moves scarce p { p with sndNxt := m } := by
  by_cases hsame : m = p.sndNxt
  · rw [hsame]
  have hmove := @PcbMove.transmitted scarce p p.sndNxt (m - p.sndNxt) alive hstate (by omega) le_rfl (by omega)
    (by omega)
  rw [Nat.add_sub_cancel' hle, max_eq_right hle] at hmove
  exact .single hmove

namespace Linked

theorem not_timeWait (hl : Linked base rbase S tr b s n) : s ≠ .timeWait := by
  rcases hl.passive with rfl | rfl | rfl <;> exact TcpState.noConfusion

/-- Only what was sent is acknowledged. -/
private theorem acked_le (hl : Linked base rbase S tr b s n) : acked (txs tr) ≤ min n (written (txs tr)).length := by
  obtain ⟨k, a, us, vs, htx⟩ := hl.tx
  have h1 := htx.room
  have h2 := htx.sending.le_dataLen
  have h3 := htx.sending.buf
  have h4 := htx.sending.k_le
  have h5 := htx.sending.a_le
  exact Nat.le_min.mpr ⟨by omega, by omega⟩

/-- `tcp_output` is seen as one transmission, or not at all. -/
theorem output_moves (hl : Linked base rbase S tr b s n) (env : Env) :
    ∃ n', Linked base rbase S (tr ++ (b.output env).2) (b.output env).1 s n' ∧
      Moves scarce (b.view p tr s n) ((b.output env).1.view p (tr ++ (b.output env).2) s n') := by
  obtain ⟨n', hle, hl'⟩ := hl.output env
  obtain ⟨hw, hlens, ha⟩ : written (txs (tr ++ (b.output env).2)) = written (txs tr) ∧
      writeLens (txs (tr ++ (b.output env).2)) = writeLens (txs tr) ∧
      acked (txs (tr ++ (b.output env).2)) = acked (txs tr) := by
    obtain ⟨hw, -, ha⟩ := sent_silent (b.tx.snd.tcpOutput b.rcv.ackNow env.ok).2.1 (OutSeg.wire b.tx.buff)
    have hlens := writeLens_sent (b.tx.snd.tcpOutput b.rcv.ackNow env.ok).2.1 (OutSeg.wire b.tx.buff)
    simp only [hl.output_events, txs_append, txs_map_tx, written_append, writeLens_append, acked_append,
      TxState.output, hw, hlens, ha, List.append_nil, Nat.add_zero, and_self]
  have hplace := afterOutput_place b.rcv (b.tx.snd.tcpOutput b.rcv.ackNow env.ok) env.emptyAck
  simp only [Rcv.place, Prod.mk.injEq] at hplace
  have hbuf : (b.output env).1.tx.snd.sndBuf = b.tx.snd.sndBuf := by
    have h1 := hl.room
    have h2 := hl'.room
    rw [hw, ha] at h2
    omega
  have hview : (b.output env).1.view p (tr ++ (b.output env).2) s n' =
      { b.view p tr s n with sndNxt := min n' (written (txs tr)).length } := by
    simp only [Block.view, hw, hlens, ha, hbuf]
    rw [show (b.output env).1.rcv.rcvWnd = _ from hplace.2.1]
    rfl
  have hack := hl.acked_le
  refine ⟨n', hl', ?_⟩
  rw [hview]
  refine transmits rfl hack (show min n _ ≤ _ by omega) (by rw [view_queued]; omega) hl.not_timeWait

end Linked

/-- `tcp_process` of the coarse block goes through the same states. -/
private theorem tcpProcess_eq {seg : Segment} {f : Bool} (hf : seg.finAcked = (f && p.finPending))
    (hlast : p.state = .lastAck → f = false) :
    p.tcpProcess seg =
      { p with
        acked := p.acked + seg.acked, sndBuf := p.sndBuf + seg.acked, rcvWnd := p.rcvWnd - seg.tcplen
        state := after p.state seg.fin f } := by
  obtain ⟨ip, port, state, arg, rcvWnd, sndBuf, writes, acked, sndNxt, rxc, closed, freed⟩ := p
  obtain ⟨len, finAcked, data, fin⟩ := seg
  cases state <;> cases fin <;> cases f <;> simp_all [Pcb.tcpProcess, Pcb.finPending, after]

private theorem view_receives : (b.view p tr s n).receives = s.receives := by
  cases s <;> rfl

private theorem tcplen_eq (a : Nat) (f : Bool) (data : Option Pbuf) (fin : Bool) :
    Segment.tcplen ⟨a, f, data, fin⟩ = (bytesOf data).length + fin.toNat := by
  cases data <;> cases fin <;> rfl

private theorem carries_of_len {data : Option Pbuf} {fin : Bool} (h : (bytesOf data).length + fin.toNat ≠ 0) :
    data.isSome = true ∨ fin = true := by
  cases data with
  | some q => exact .inl rfl
  | none =>
    cases fin with
    | true => exact .inr rfl
    | false => exact absurd rfl h

theorem closed_moves (p : Pcb) : Moves scarce p p.tcpClose :=
  .single (@PcbMove.lwip _ _ ⟨0, false, none, false⟩ _ _ .closed)

/-- A FIN that is handed on is counted back into the window. -/
private theorem handOn_moves (b : Block) (data : Option Pbuf) (fin : Bool) :
    Moves scarce (b.view p tr s n) (Block.view { b with rcv := (handOn (b.rcv, data, fin)).1.rcv } p tr s n) := by
  cases fin with
  | false => exact .refl
  | true => exact .single (@PcbMove.lwip _ _ ⟨0, false, none, true⟩ _ _ .finCounted)

private theorem acked_ackEvents (len : Nat) : acked (txs (ackEvents len)) = len := by
  rw [txs_ackEvents]
  split
  · simp [acked, SndEvent.len]
  case isFalse h => exact (Nat.eq_zero_of_not_pos h).symm

private theorem written_ackEvents (len : Nat) :
    written (txs (ackEvents len)) = [] ∧ writeLens (txs (ackEvents len)) = [] := by
  rw [txs_ackEvents]
  split <;> exact ⟨rfl, rfl⟩

namespace Linked

/-- What lwIP takes of a segment is a segment that the coarse block accepts. -/
theorem processed_moves {b0 b1 : Block} {recv : Recv} (hl0 : Linked base rbase S tr b0 s n)
    (hl : Linked base rbase S (tr ++ ackEvents recv.acked) b s n) (hwnd : b.rcv.rcvWnd = b0.rcv.rcvWnd)
    (hrx : b.rxClosed = b0.rxClosed) (hx : Streamed S (ups (tr ++ ackEvents recv.acked)) x)
    (ho : b.takeData s (segOf rbase x) env = some (b1, recv.data, recv.gotFin))
    (hacked : b.finAcked h = true → b.tx.snd.unacked = [])
    (hlast : s = .lastAck → b1.finAcked h = false) :
    let b2 := (b1.next h recv s).1
    let o := handOn (b2.rcv, recv.data, recv.gotFin)
    Moves scarce (b0.view p tr s n)
      (Block.view { b2 with rcv := o.1.rcv } p (tr ++ ackEvents recv.acked ++ o.2.map .up)
        (after s recv.gotFin (b1.finAcked h)) n) := by
  intro b2 o
  obtain ⟨heq, hrcv, hpos, hrec, -⟩ := hl.takeData hx ho
  obtain ⟨hl2, hb2, hheld⟩ := hl.processed hx ho hacked
  have hst : b1.state = .synced s := by rw [heq]; exact hl.state
  obtain ⟨-, -, hrxc, -, -, hpurge⟩ := next_frame hst h recv
  obtain ⟨hw, hlens⟩ := written_ackEvents recv.acked
  have hack := acked_ackEvents recv.acked
  have hle := hl.acked_le
  have hroom := hl.room
  have hroom0 := hl0.room
  simp only [txs_append, written_append, hw, List.append_nil, acked_append, hack] at hle hroom
  have hbuf : b2.tx.snd.sndBuf = b0.tx.snd.sndBuf + recv.acked := by
    have hsame : b2.tx.snd.sndBuf = b1.tx.snd.sndBuf := by
      rcases hpurge with hsame | ⟨-, hsame⟩ <;> rw [show b2.tx = _ from hsame]
      rfl
    rw [hsame, heq]
    show b.tx.snd.sndBuf = _
    omega
  let seg : Segment := ⟨recv.acked, b1.finAcked h && (b0.view p tr s n).finPending, recv.data, recv.gotFin⟩
  have hlen : seg.tcplen = (bytesOf recv.data).length + recv.gotFin.toNat := tcplen_eq _ _ _ _
  have hok : (b0.view p tr s n).accepts seg = true := by
    simp only [Pcb.accepts, Bool.and_eq_true, Bool.or_eq_true, decide_eq_true_eq, hlen, view_receives, view_queued]
    refine ⟨⟨⟨⟨⟨rfl, ?_⟩, hle⟩, ?_⟩, ?_⟩, ?_⟩
    · exact bne_iff_ne.mpr hl.not_timeWait
    · cases hf : b1.finAcked h with
      | false => exact .inl (by simp only [seg, hf]; rfl)
      | true =>
        cases hp : (b0.view p tr s n).finPending with
        | false => exact .inl (by simp only [seg, hf, hp]; rfl)
        | true =>
          have hall := hl2.acked_all (hheld hf)
          simp only [txs_append, txs_map_up, List.append_nil, written_append, hw, acked_append, hack] at hall
          exact .inr ⟨rfl, beq_iff_eq.mpr hall⟩
    · by_cases hzero : (bytesOf recv.data).length + recv.gotFin.toNat = 0
      · exact .inl hzero
      · refine .inr ⟨(hrec (carries_of_len hzero)).2, ?_⟩
        show _ ≤ b0.rcv.rcvWnd
        omega
    · show recv.data.all _ = true
      cases hd : recv.data with
      | none => rfl
      | some q => exact decide_eq_true (hpos q hd)
  have hproc : (b0.view p tr s n).tcpProcess seg =
      b2.view p (tr ++ ackEvents recv.acked) (after s recv.gotFin (b1.finAcked h)) n := by
    rw [tcpProcess_eq rfl hlast]
    simp only [Block.view, txs_append, written_append, writeLens_append, acked_append, hw, hlens, hack, List.append_nil,
      hbuf, hlen]
    have hb2 : b2.rcv.rcvWnd + _ + _ = b.rcv.rcvWnd := hb2
    rw [show b2.rcv.rcvWnd = b0.rcv.rcvWnd - ((bytesOf recv.data).length + recv.gotFin.toNat) by omega,
      show b2.rxClosed = b0.rxClosed from hrxc.trans (by rw [heq]; exact hrx)]
  refine .trans (.single (.lwip (.processed hok))) ?_
  rw [hproc, view_quiet (txs_map_up _)]
  exact handOn_moves b2 recv.data recv.gotFin

/-- `tcp_write` is refused in the states behind `tcp_close`. -/
theorem tcpWrite_refused {data : List UInt8} {room : Nat} (hl : Linked base rbase S tr b s n) (hs : s.closes = true) :
    b.tcpWrite data room = some (b, []) := by
  unfold Block.tcpWrite
  rw [hl.state]
  cases s <;> first | rfl | cases hs

/-- `tcp_write` takes the data, or changes nothing that is seen. -/
theorem tcpWrite_moves {data : List UInt8} {room : Nat} (hl : Linked base rbase S tr b s n)
    (hl' : Linked base rbase S (tr ++ evs) b' s n) (ho : b.tcpWrite data room = some (b', evs)) :
    Moves scarce (b.view p tr s n) (b'.view p (tr ++ evs) s n) := by
  have hroom := hl.room
  have hroom' := hl'.room
  cases hs : s.closes with
  | true =>
    cases (hl.tcpWrite_refused hs).symm.trans ho
    rw [view_quiet rfl]
  | false =>
    obtain ⟨err, hrcv, hrx, hevs⟩ : ∃ err : Err, b'.rcv = b.rcv ∧ b'.rxClosed = b.rxClosed ∧
        evs = if err = .ok then [.tx (.accepted data)] else [] := by
      unfold Block.tcpWrite at ho
      rw [hl.state] at ho
      cases s with
      | established | closeWait =>
        obtain ⟨o, -, hout⟩ := Option.map_eq_some_iff.mp ho
        cases hout
        exact ⟨o.2, rfl, rfl, rfl⟩
      | _ => cases hs
    cases err with
    | mem =>
      obtain rfl : evs = [] := hevs
      rw [List.append_nil] at hroom' ⊢
      rw [view_congr (congrArg Rcv.rcvWnd hrcv) (by omega) hrx]
    | ok =>
      obtain rfl : evs = [.tx (.accepted data)] := hevs
      have htxs : txs [.tx (.accepted data)] = [.accepted data] := rfl
      have hw : written [.accepted data] = data := by simp [written, SndEvent.data]
      have hlens : writeLens [.accepted data] = [data.length] := rfl
      have ha : acked [.accepted data] = 0 := rfl
      simp only [txs_append, htxs, written_append, hw, List.length_append, acked_append, ha, Nat.add_zero] at hroom'
      have hn : n ≤ (written (txs tr)).length := by
        obtain ⟨k, a, us, vs, htx⟩ := hl.tx
        exact htx.sending.n_le_written (hl.fin.trans hs)
      have htaken : (b.view p tr s n).tcpWrite data.length .free =
          some (b'.view p (tr ++ [.tx (.accepted data)]) s n) := by
        have hstate : s = .established ∨ s = .closeWait := by
          cases s <;> first | exact .inl rfl | exact .inr rfl | cases hs
        rw [Pcb.tcpWrite, if_pos ⟨hstate, show data.length ≤ b.tx.snd.sndBuf by omega, Room.noConfusion⟩]
        simp only [Block.view, txs_append, htxs, written_append, hw, writeLens_append, hlens, acked_append, ha,
          List.length_append, hrcv, hrx, Nat.add_zero, Pcb.misplaced, List.append_nil]
        rw [show b'.tx.snd.sndBuf = b.tx.snd.sndBuf - data.length by omega, min_eq_left hn,
          min_eq_left (hn.trans (Nat.le_add_right _ _))]
      exact .single (.wrote htaken)

theorem tcpRecved_moves {len : Nat} {rcv : Rcv} {now : Bool} (hl : Linked base rbase S tr b s n)
    (hr : b.rcv.tcpRecved len = some (rcv, now)) :
    Moves scarce (b.view p tr s n) (Block.view { b with rcv } p tr s n) := by
  have hgrown : rcv.rcvWnd = min (b.rcv.rcvWnd + len % 65536) tcpWnd := by
    have hle := hl.wnd
    have : tcpWnd = 65535 := rfl
    rw [(tcpRecved_same hr).2.1, Rcv.grownWnd]
    split <;> omega
  have hmove : PcbMove scarce (b.view p tr s n) _ := .recved (len % 65536)
  rw [Pcb.tcpRecved] at hmove
  have hview : Block.view { b with rcv } p tr s n =
      { b.view p tr s n with rcvWnd := min ((b.view p tr s n).rcvWnd + len % 65536) tcpWnd } := by
    simp only [Block.view, hgrown]
  rw [hview]
  exact .single hmove

end Linked

/-- `tcp_close` with everything taken. -/
theorem view_closed (hwnd : b.rcv.rcvWnd = tcpWnd) (hrcv : b'.rcv = b.rcv)
    (hbuf : b'.tx.snd.sndBuf = b.tx.snd.sndBuf) (hrx : b'.rxClosed = true) :
    (b.view p tr .closeWait n).tcpClose = b'.view p (tr ++ [.tx .closed]) .lastAck n := by
  have htxs : txs [.tx .closed] = [.closed] := rfl
  have hnone : written [.closed] = [] ∧ writeLens [.closed] = [] ∧ acked [.closed] = 0 := ⟨rfl, rfl, rfl⟩
  have hview : b'.view p (tr ++ [.tx .closed]) .lastAck n =
      { b.view p tr .closeWait n with rxClosed := true, state := .lastAck } := by
    simp only [Block.view, txs_append, htxs, written_append, writeLens_append, acked_append, hnone, List.append_nil,
      Nat.add_zero, hrcv, hbuf, hrx]
  rw [hview]
  exact if_pos hwnd

end Tunosocks.Lwip
