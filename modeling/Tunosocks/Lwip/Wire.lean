import Tunosocks.Lwip.Connection

/-! What the segments of a block yield when they go out: they refer to the buffer that the next read from the remote
fills, and everything else that a step does leaves what they refer to alone. -/
namespace Tunosocks.Lwip
open Foundation Tcp

/-- A read from the remote leaves the bytes alone that a queued segment refers to. -/
def BlockSpares (b : Block) : BlockAct → Prop
  | .relay data room env => Spares b.tx (.relay data room ⟨b.rcv.ackNow, env.ok⟩)
  | _ => True

instance (b : Block) (a : BlockAct) : Decidable (BlockSpares b a) :=
  match a with
  | .relay _ _ _ => inferInstanceAs (Decidable (Spares _ _))
  | .segment _ _ _ | .recved _ _ => .isTrue trivial

/-- References that yield what was written go on to do so. -/
def Intact (b : Block) (evs : List BlockEvent) (b' : Block) : Prop :=
  ∀ tr, Unspoilt tr b.tx → Unspoilt (tr ++ txs evs) b'.tx

variable {b b1 b' : Block} {evs evs' : List BlockEvent} {env : Env} {h : TcpHdr} {seg : TcpSeg} {s : TcpState}
  {recv : Recv}

namespace Intact

private theorem trans (h1 : Intact b evs b1) (h2 : Intact b1 evs' b') : Intact b (evs ++ evs') b' := by
  intro tr hun
  rw [txs_append, ← List.append_assoc]
  exact h2 _ (h1 tr hun)

/-- Segments stay or go, and none is sent. -/
private theorem quiet (hbuff : b'.tx.buff = b.tx.buff) (hheld : b'.tx.snd.held ⊆ b.tx.snd.held)
    (hevs : ∀ seg wire, SndEvent.sent seg wire ∉ txs evs) : Intact b evs b' := by
  intro tr hun
  refine ⟨fun seg hseg => ?_, fun seg wire hmem => ?_⟩
  · rw [hbuff]
    exact hun.loaded seg (hheld hseg)
  · exact hun.wire seg wire ((List.mem_append.mp hmem).resolve_right (hevs seg wire))

/-- Neither the buffer nor the queues are touched. -/
private theorem same (hbuff : b'.tx.buff = b.tx.buff) (hheld : b'.tx.snd.held = b.tx.snd.held) (hevs : txs evs = []) :
    Intact b evs b' := by
  refine quiet hbuff (hheld ▸ List.Subset.refl _) ?_
  rw [hevs]
  exact fun _ _ => List.not_mem_nil

private theorem ackEvents (b : Block) (acked : Nat) : Intact b (Lwip.ackEvents acked) b := by
  refine quiet rfl (List.Subset.refl _) ?_
  rw [txs_ackEvents]
  split <;> simp

private theorem purge (b : Block) : Intact b [] b.tcpPcbPurge :=
  quiet rfl (List.nil_subset _) fun _ _ => List.not_mem_nil

private theorem output (b : Block) (env : Env) : Intact b (b.output env).2 (b.output env).1 := by
  intro tr hun
  have hout := hun.output ⟨b.rcv.ackNow, env.ok⟩
  unfold Block.output
  dsimp only
  split
  · -- the SYN goes out, which carries nothing
    have hnone : txs ((b.tx.output ⟨b.rcv.ackNow, env.ok⟩).2.map fun _ => BlockEvent.synAck) = [] := by
      simp [txs, BlockEvent.tx?]
    rw [hnone, List.append_nil]
    exact ⟨hout.loaded, hun.wire⟩
  · rw [txs_map_tx]
    exact hout

private theorem finish {o : Block × List BlockEvent} (ho : Intact b o.2 o.1) (env : Env) :
    Intact b (Block.finish o env).2 (Block.finish o env).1 := by
  unfold Block.finish
  split
  · exact ho
  · exact ho.trans (output _ env)

private theorem closeShutdown (b : Block) (room : Nat) (s : TcpState) :
    Intact b (b.closeShutdown room s).2 (b.closeShutdown room s).1 := by
  have sendFin (evs : List BlockEvent) (hevs : ∀ seg wire, SndEvent.sent seg wire ∉ txs evs) :
      Intact b evs { b with tx := { b.tx with snd := (b.tx.snd.tcpSendFin room).1 } } := fun tr hun =>
    ⟨tcpSendFin_loaded hun.loaded room,
      fun seg wire hmem => hun.wire seg wire ((List.mem_append.mp hmem).resolve_right (hevs seg wire))⟩
  unfold Block.closeShutdown
  dsimp only
  split
  · split
    · exact sendFin [.tx .closed] (by simp [txs, BlockEvent.tx?])
    · exact sendFin [] (by simp [txs])
  · exact (purge b).trans (same rfl rfl rfl)

private theorem tcpClose (b : Block) (room : Nat) : Intact b (b.tcpClose room).2 (b.tcpClose room).1 := by
  unfold Block.tcpClose
  dsimp only
  split
  · exact closeShutdown { b with rxClosed := true } room .finWait1
  · exact closeShutdown { b with rxClosed := true } room .lastAck
  · exact same rfl rfl rfl

private theorem callbacks (b : Block) (up : List RcvEvent) (close : Option Nat) :
    Intact b (b.callbacks up close).2 (b.callbacks up close).1 := by
  unfold Block.callbacks
  split
  · split
    · exact tcpClose b _
    · exact same rfl rfl rfl
  · exact same rfl rfl rfl

private theorem report (b : Block) (recv : Recv) (env : Env) :
    Intact b (b.report recv env).2 (b.report recv env).1 := by
  have freed : Intact b (Lwip.ackEvents recv.acked ++ [.aborted]) b.free := (ackEvents b _).trans (same rfl rfl rfl)
  unfold Block.report
  split
  · exact freed
  split
  · exact ackEvents b _
  split
  · exact freed
  · have handed : Intact b (Lwip.ackEvents recv.acked ++ (handOn (b.rcv, recv.data, recv.gotFin)).2.map .up)
        { b with rcv := (handOn (b.rcv, recv.data, recv.gotFin)).1.rcv } :=
      (ackEvents b _).trans (same rfl rfl (txs_map_up _))
    exact handed.trans (callbacks _ _ _)

private theorem takeAck {len : Nat} (ho : b.takeAck seg h env = some (b', len)) : Intact b [] b' := by
  unfold Block.takeAck at ho
  split at ho
  · obtain ⟨o, hack, hout⟩ := Option.map_eq_some_iff.mp ho
    cases hout
    exact quiet rfl (tcpReceiveAck_held hack) fun _ _ => List.not_mem_nil
  · cases ho
    exact same rfl rfl rfl

private theorem takeData {data : Option Pbuf} {fin : Bool} (ho : b.takeData s seg env = some (b', data, fin)) :
    Intact b [] b' := by
  unfold Block.takeData at ho
  split at ho
  · obtain ⟨⟨rcv, o⟩, -, hout⟩ := Option.map_eq_some_iff.mp ho
    cases hout
    exact same rfl rfl rfl
  · cases ho
    exact same rfl rfl rfl

private theorem tcpReceive (ho : b.tcpReceive s seg h env = some (b', recv)) : Intact b [] b' := by
  obtain ⟨b1, hack, hdata, -⟩ := tcpReceive_inv ho
  exact (takeAck hack).trans (takeData hdata)

private theorem next (b : Block) (h : TcpHdr) (r : Recv) (s : TcpState) : Intact b [] (b.next h r s).1 := by
  have purged (s : TcpState) : Intact b [] (b.ackNow.tcpPcbPurge.enter s) := purge b.ackNow
  unfold Block.next
  split <;> dsimp only <;> (repeat' split) <;> first | exact same rfl rfl rfl | exact purged _ | exact purge b

private theorem handshake (ho : b.handshake seg h env = some (b', evs, recv)) : Intact b evs b' := by
  unfold Block.handshake at ho
  split at ho
  · split at ho
    · obtain ⟨⟨b1, r⟩, hrec, hout⟩ := Option.map_eq_some_iff.mp ho
      cases hout
      have haccept : Intact b [.accepted] b.accept := same rfl rfl rfl
      have hstart : Intact b1 [] b1.startCwnd := same rfl rfl rfl
      exact ((haccept.trans (tcpReceive hrec)).trans hstart).trans (next b1.startCwnd h _ _)
    · cases ho
      exact same rfl rfl rfl
  split at ho
  · cases ho
    refine quiet rfl ?_ fun _ _ => List.not_mem_nil
    dsimp only
    cases hs : b.tx.snd.tcpRexmit with
    | none => exact List.Subset.refl _
    | some snd => exact tcpRexmit_held hs
  · cases ho
    exact same rfl rfl rfl

private theorem tcpProcess (ho : b.tcpProcess seg h env = some (b', evs, recv)) : Intact b evs b' := by
  unfold Block.tcpProcess at ho
  split at ho
  · split at ho
    · cases ho
      exact same rfl rfl rfl
    split at ho <;>
    · cases ho
      exact same rfl rfl rfl
  split at ho
  · cases ho
    exact same rfl rfl rfl
  have hopt : Intact b [] (b.parseopt h.opts seg.p.bytes) := same rfl rfl rfl
  dsimp only at ho
  split at ho
  · exact hopt.trans (handshake ho)
  · obtain ⟨⟨b1, r⟩, hrec, hout⟩ := Option.map_eq_some_iff.mp ho
    cases hout
    exact (hopt.trans (tcpReceive hrec)).trans (next b1 h r _)

private theorem tcpInput (ho : b.tcpInput seg h env = some (b', evs)) : Intact b evs b' := by
  unfold Block.tcpInput at ho
  split at ho
  · have hout : Intact b (b.tcpTimewaitInput seg h env).2 (b.tcpTimewaitInput seg h env).1 := by
      unfold Block.tcpTimewaitInput
      repeat' split
      · exact same rfl rfl rfl
      · exact same rfl rfl rfl
      · exact output b.ackNow env
      · exact same rfl rfl rfl
    rw [Option.some.inj ho] at hout
    exact hout
  · obtain ⟨⟨b1, pre, recv⟩, hproc, ho⟩ := Option.map_eq_some_iff.mp ho
    dsimp only at ho
    split at ho
    · cases ho
      exact (tcpProcess hproc).trans (same rfl rfl rfl)
    · cases ho
      exact (tcpProcess hproc).trans (finish (report b1 recv env) env)

private theorem tcpWrite {data : List UInt8} {room : Nat} (hdata : data <+: b.tx.buff)
    (ho : b.tcpWrite data room = some (b', evs)) : Intact b evs b' := by
  unfold Block.tcpWrite at ho
  split at ho
  case h_3 =>
    cases ho
    exact same rfl rfl rfl
  all_goals
    obtain ⟨o, hw, hout⟩ := Option.map_eq_some_iff.mp ho
    cases hout
    intro tr hun
    refine ⟨tcpWrite_loaded hun.loaded (by simpa using hdata) hw, fun seg wire hmem => hun.wire seg wire ?_⟩
    refine (List.mem_append.mp hmem).resolve_right ?_
    split <;> simp [txs, BlockEvent.tx?]

private theorem tcpRecved {len : Nat} (ho : b.tcpRecved len env = some (b', evs)) : Intact b evs b' := by
  obtain ⟨⟨rcv, now⟩, -, hout⟩ := Option.map_eq_some_iff.mp ho
  dsimp only at hout
  split at hout
  · have hsent : Intact b _ _ := output { b with rcv } env
    rw [hout] at hsent
    exact hsent
  · cases hout
    exact same rfl rfl rfl

end Intact

/-- Where reads spare what is queued, a step does. -/
theorem Unspoilt.blockStep {tr : List BlockEvent} {rbase : BitVec 32} {a : BlockAct} (hun : Unspoilt (txs tr) b.tx)
    (hs : BlockSpares b a) (ho : b.step rbase a = some (b', evs)) : Unspoilt (txs (tr ++ evs)) b'.tx := by
  rw [txs_append]
  unfold Block.step at ho
  split at ho
  · cases ho
  split at ho
  · exact Intact.tcpInput ho _ hun
  · rename_i data room env _ _
    obtain ⟨o, hw, hout⟩ := Option.map_eq_some_iff.mp ho
    have hfill : Unspoilt (txs tr) (b.tx.fill data) :=
      ⟨fun seg hseg r hr => (hs seg hseg r hr).trans (hun.loaded seg hseg r hr), hun.wire⟩
    have hwrite := Intact.tcpWrite (b := { b with tx := b.tx.fill data }) (List.prefix_append _ _) hw
    have hfinish := hwrite.finish env
    rw [show Block.finish (o.1, o.2) env = _ from hout] at hfinish
    exact hfinish _ hfill
  · exact Intact.tcpRecved ho _ hun
  · cases ho

end Tunosocks.Lwip
