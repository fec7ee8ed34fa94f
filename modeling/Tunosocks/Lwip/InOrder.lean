import Tunosocks.Foundation.Machine
import Tunosocks.Lwip.Reassembly

/-! A block that receives one stream: segments of it arrive in any order, any number of
times and cut in any way, the application takes what it was handed, and windows are
announced. What is handed on is the stream from its start, and nothing that arrived is lost. -/
namespace Tunosocks.Lwip
open Foundation Foundation.Serial Tcp

/-- What the application is handed. -/
inductive RcvEvent where
  | data (p : Pbuf)
  | fin
  deriving DecidableEq, Repr

inductive RcvAct where
  /-- A segment arrives; whether a copy can be queued and an acknowledgement sent. -/
  | segment (x : Piece UInt8) (room : Bool) (ack : AckOutcome)
  /-- The application has taken data. -/
  | recved (len : Nat)
  /-- `tcp_output` sends an empty acknowledgement. -/
  | emptyAck (ack : AckOutcome)
  /-- `tcp_output_segment` sends data, if the interface takes it. -/
  | segmentOut (ok : Bool)
  deriving DecidableEq, Repr

/-- The piece that arrives. -/
def RcvAct.piece? : RcvAct → Option (Piece UInt8)
  | .segment x _ _ => some x
  | _ => none

/-- Whether a copy could be queued. -/
def RcvAct.room : RcvAct → Bool
  | .segment _ room _ => room
  | _ => true

/-- A receiving side, and whether the peer's FIN was received. -/
structure RcvState where
  rcv : Rcv
  gotFin : Bool
  deriving DecidableEq, Repr

/-- The segment that brings the piece `x`, in one buffer as `PacketHandler` makes it. -/
def segOf (base : BitVec 32) (x : Piece UInt8) : TcpSeg := ⟨num base x.off, ⟨x.data, []⟩, x.data.length, x.fin, false⟩

/-- `tcp_input` behind `tcp_process`: data goes up before the FIN, whose place is given back. -/
def handOn (o : Rcv × Option Pbuf × Bool) : RcvState × List RcvEvent :=
  if o.2.2 then
    (⟨{ o.1 with rcvWnd := if o.1.rcvWnd = tcpWnd then tcpWnd else o.1.rcvWnd + 1 }, true⟩,
      o.2.1.toList.map .data ++ [.fin])
  else (⟨o.1, false⟩, o.2.1.toList.map .data)

def RcvState.step (base : BitVec 32) (s : RcvState) : RcvAct → Option (RcvState × List RcvEvent)
  | .segment x room ack =>
    if 0 < (segOf base x).tcplen ∧ s.gotFin = false then
      (s.rcv.tcpReceiveData (segOf base x) room ack).map handOn
    else some ({ s with rcv := s.rcv.tcpReceiveEmpty (segOf base x).seqno }, [])
  | .recved len => (s.rcv.tcpRecved len).map fun o => ({ s with rcv := o.1 }, [])
  | .emptyAck ack => some ({ s with rcv := s.rcv.tcpSendEmptyAck ack }, [])
  | .segmentOut ok =>
    some ({ s with
      rcv := if ok then { s.rcv.announce with ackDelay := false, ackNow := false } else s.rcv.announce }, [])

/-- The receiving side once the handshake is done. -/
def Rcv.established (base : BitVec 32) (mss : Nat) (ackDelay ackNow : Bool) : Rcv where
  rcvNxt := base
  rcvWnd := tcpWnd
  rcvAnnWnd := tcpWnd
  rcvAnnRightEdge := base + ofLen tcpWnd
  mss := mss
  ooseq := []
  ackDelay := ackDelay
  ackNow := ackNow

/-- The receiving side of a connection whose peer's first byte has number `base`. -/
def rcvMachine (base : BitVec 32) : Machine RcvState RcvAct RcvEvent where
  Init s := ∃ mss ackDelay ackNow, s = ⟨Rcv.established base mss ackDelay ackNow, false⟩
  step := RcvState.step base

abbrev RcvTransition := Transition RcvState RcvAct RcvEvent

def RcvEvent.bytes : RcvEvent → List UInt8
  | .data p => p.bytes
  | .fin => []

/-- Everything handed to the application. -/
def delivered (tr : List RcvEvent) : List UInt8 := tr.flatMap RcvEvent.bytes

/-- The segment is cut from the stream `S`, and not older than a quarter of the sequence space. -/
def Sends (S : List UInt8) (tr : List RcvEvent) (a : RcvAct) : Prop :=
  ∀ x ∈ a.piece?, x.From S ∧ x.data.length < 65535 ∧ Near (delivered tr).length x

instance (S : List UInt8) (tr : List RcvEvent) (a : RcvAct) : Decidable (Sends S tr a) := by
  unfold Sends Near
  infer_instance

/-- Every segment of a run is one of the stream. -/
abbrev Streams (S : List UInt8) (ts : List RcvTransition) : Prop :=
  Machine.Along (fun tr t => Sends S tr t.act) [] ts

variable {base : BitVec 32} {S : List UInt8} {x : Piece UInt8}

theorem segOf_is (h : x.data.length < 65535) : (segOf base x).Is base x :=
  ⟨rfl, by simp [segOf], rfl, rfl, rfl, h⟩

theorem segOf_tcplen (base : BitVec 32) (x : Piece UInt8) : (segOf base x).tcplen = x.span := by
  cases h : x.fin <;> simp [segOf, TcpSeg.tcplen, Piece.span, h]

@[simp] theorem delivered_append (tr out : List RcvEvent) : delivered (tr ++ out) = delivered tr ++ delivered out := by
  simp [delivered]

theorem handOn_spec (o : Rcv × Option Pbuf × Bool) :
    delivered (handOn o).2 = bytesOf o.2.1 ∧ (.fin ∈ (handOn o).2 ↔ o.2.2 = true) ∧ (handOn o).1.gotFin = o.2.2 := by
  obtain ⟨r, data, fin⟩ := o
  cases data <;> cases fin <;> simp [handOn, delivered, RcvEvent.bytes, bytesOf]

theorem grownWnd_bounds {r : Rcv} (h : r.rcvWnd ≤ 65535) (len : Nat) :
    r.rcvWnd ≤ r.grownWnd len ∧ r.grownWnd len ≤ 65535 := by
  have : tcpWnd = 65535 := rfl
  unfold Rcv.grownWnd
  dsimp only
  split <;> omega

theorem sendUpdate_same (o : Rcv × BitVec 32) : ∃ now, (Rcv.sendUpdate o).1 = { o.1 with ackNow := now } := by
  unfold Rcv.sendUpdate
  split
  · exact ⟨true, rfl⟩
  · exact ⟨o.1.ackNow, rfl⟩

theorem tcpRecved_same {r r' : Rcv} {len : Nat} {now : Bool} (h : r.tcpRecved len = some (r', now)) :
    r'.rcvNxt = r.rcvNxt ∧ r'.rcvWnd = r.grownWnd len ∧ r'.ooseq = r.ooseq := by
  obtain ⟨o, hup, ho⟩ := Option.map_eq_some_iff.mp h
  obtain ⟨now', hnow⟩ := sendUpdate_same o
  rw [ho, tcpUpdateRcvAnnWnd_same hup] at hnow
  rw [show r' = _ from hnow]
  exact ⟨rfl, rfl, rfl⟩

/-- Giving the window back leaves the place and the queue alone. -/
theorem tcpRecved_is {r r' : Rcv} {R : Receiver UInt8} {len : Nat} {now : Bool} (hr : r.Is base R) (hR : R.Of S)
    (h : r.tcpRecved len = some (r', now)) :
    r'.Is base { R with wnd := r'.rcvWnd } ∧ Receiver.Of S { R with wnd := r'.rcvWnd } ∧ R.wnd ≤ r'.rcvWnd := by
  obtain ⟨hnxt, hwnd, hq⟩ := tcpRecved_same h
  have hle := grownWnd_bounds (hr.wnd ▸ hr.wnd_le) len
  rw [← hwnd, hr.wnd] at hle
  refine ⟨⟨hnxt.trans hr.nxt, rfl, hle.2, hq ▸ hr.ooseq⟩, ⟨hR.nxt_le, hR.ordered, hR.cut, fun y hy => ?_⟩, hle.1⟩
  have := hR.later y hy
  simp only [Receiver.edge] at *
  omega

theorem Rcv.Is.congr {r r' : Rcv} {R : Receiver UInt8} (hr : r.Is base R)
    (h : r'.rcvNxt = r.rcvNxt ∧ r'.rcvWnd = r.rcvWnd ∧ r'.ooseq = r.ooseq) : r'.Is base R :=
  ⟨h.1.trans hr.nxt, h.2.1.trans hr.wnd, hr.wnd_le, h.2.2 ▸ hr.ooseq⟩

theorem tcpSendEmptyAck_same (r : Rcv) (ack : AckOutcome) : (r.tcpSendEmptyAck ack).rcvNxt = r.rcvNxt ∧
    (r.tcpSendEmptyAck ack).rcvWnd = r.rcvWnd ∧ (r.tcpSendEmptyAck ack).ooseq = r.ooseq := by
  cases ack <;> exact ⟨rfl, rfl, rfl⟩

theorem tcpReceiveEmpty_same (r : Rcv) (seqno : BitVec 32) : (r.tcpReceiveEmpty seqno).rcvNxt = r.rcvNxt ∧
    (r.tcpReceiveEmpty seqno).rcvWnd = r.rcvWnd ∧ (r.tcpReceiveEmpty seqno).ooseq = r.ooseq := by
  unfold Rcv.tcpReceiveEmpty
  split <;> exact ⟨rfl, rfl, rfl⟩

/-- The part of the stream that was handed on, and what the block has beyond it. -/
structure Receiving (base : BitVec 32) (S : List UInt8) (tr : List RcvEvent) (s : RcvState) (R : Receiver UInt8) :
    Prop where
  finless : s.gotFin = false ∧ .fin ∉ tr
  part : delivered tr <+: S
  at_ : s.rcv.Is base R
  of : R.Of S
  nxt : R.nxt = (delivered tr).length

/-- A segment of the stream is received as its piece. -/
theorem Receiving.segment {tr : List RcvEvent} {s : RcvState} {R : Receiver UInt8} {room : Bool} {ack : AckOutcome}
    {o : Rcv × Option Pbuf × Bool} (h : Receiving base S tr s R) (hxS : x.From S) (hlen : x.data.length < 65535)
    (hnear : Near (delivered tr).length x) (hspan : 0 < x.span)
    (ho : s.rcv.tcpReceiveData (segOf base x) room ack = some o) :
    o.2.2 = (R.receive x room).2.2 ∧ delivered (tr ++ (handOn o).2) = delivered tr ++ (R.receive x room).2.1 ∧
      (o.2.2 = true → delivered (tr ++ (handOn o).2) = S) ∧
      (o.2.2 = false → Receiving base S (tr ++ (handOn o).2) (handOn o).1 (R.receive x room).1) := by
  obtain ⟨hat, hdata, hfin, -⟩ := tcpReceiveData_is h.at_ h.of (segOf_is hlen) (h.nxt ▸ hnear) hspan ho
  obtain ⟨hnext, hnxt, hend, -, hof⟩ := @Receiver.receive_spec _ S R x room h.of hxS
  obtain ⟨hbytes, hfinEvent, hgot⟩ := handOn_spec o
  have hall : delivered (tr ++ (handOn o).2) = delivered tr ++ (R.receive x room).2.1 := by
    rw [delivered_append, hbytes, hdata]
  have hpart : delivered tr ++ (R.receive x room).2.1 <+: S := by
    obtain ⟨rest, hrest⟩ := h.part
    rw [h.nxt, ← hrest, List.drop_left] at hnext
    rw [← hrest]
    exact (List.prefix_append_right_inj _).mpr hnext
  refine ⟨hfin, hall, fun hf => ?_, fun hf => ?_⟩
  · have := (hend (hfin ▸ hf)).1
    rw [hall]
    exact hpart.eq_of_length (by rw [List.length_append, ← h.nxt, this])
  · refine ⟨⟨hgot.trans hf, ?_⟩, hall ▸ hpart, ?_, hof (hfin ▸ hf), ?_⟩
    · rw [List.mem_append, hfinEvent, hf]
      exact fun hmem => hmem.elim h.finless.2 Bool.false_ne_true
    · rw [handOn, hf]
      exact hat
    · rw [hnxt, ← hfin, hf, hall, List.length_append, h.nxt]
      rfl

/-- The other steps: nothing is handed on, and the window does not shrink. -/
theorem Receiving.other {tr out : List RcvEvent} {s t : RcvState} {R : Receiver UInt8} {a : RcvAct}
    (h : Receiving base S tr s R) (hstep : s.step base a = some (t, out))
    (ha : ∀ x ∈ a.piece?, x.span = 0) : out = [] ∧ ∃ w, R.wnd ≤ w ∧ Receiving base S tr t { R with wnd := w } := by
  have same : ∀ rcv : Rcv, rcv.Is base R →
      ∃ w, R.wnd ≤ w ∧ Receiving base S tr { s with rcv } { R with wnd := w } := fun rcv hat =>
    ⟨R.wnd, le_rfl, h.finless, h.part, hat, h.of, h.nxt⟩
  cases a with
  | segment x room ack =>
    rw [RcvState.step, segOf_tcplen, ha x rfl, if_neg (by omega)] at hstep
    cases hstep
    exact ⟨rfl, same _ (h.at_.congr (tcpReceiveEmpty_same _ _))⟩
  | recved len =>
    obtain ⟨⟨r', now⟩, ho, hout⟩ := Option.map_eq_some_iff.mp hstep
    cases hout
    obtain ⟨hat, hof, hle⟩ := tcpRecved_is h.at_ h.of ho
    exact ⟨rfl, r'.rcvWnd, hle, h.finless, h.part, hat, hof, h.nxt⟩
  | emptyAck ack =>
    cases hstep
    exact ⟨rfl, same _ (h.at_.congr (tcpSendEmptyAck_same _ _))⟩
  | segmentOut ok =>
    cases hstep
    refine ⟨rfl, same _ (h.at_.congr ?_)⟩
    cases ok <;> exact ⟨rfl, rfl, rfl⟩

/-- A block that has received the FIN hands on nothing more. -/
theorem step_gotFin {out : List RcvEvent} {s t : RcvState} {a : RcvAct} (h : s.gotFin = true)
    (hstep : s.step base a = some (t, out)) : out = [] ∧ t.gotFin = true := by
  cases a with
  | segment x room ack =>
    rw [RcvState.step, if_neg (by simp [h])] at hstep
    cases hstep
    exact ⟨rfl, h⟩
  | recved len =>
    obtain ⟨o, -, hout⟩ := Option.map_eq_some_iff.mp hstep
    cases hout
    exact ⟨rfl, h⟩
  | emptyAck ack =>
    cases hstep
    exact ⟨rfl, h⟩
  | segmentOut ok =>
    cases hstep
    exact ⟨rfl, h⟩

theorem empty_of_no_segment {a : RcvAct} (h : ¬ ∃ x room ack, a = .segment x room ack ∧ 0 < x.span) :
    ∀ x ∈ a.piece?, x.span = 0 := by
  intro x hx
  cases a with
  | segment y room ack =>
    cases hx
    exact Nat.eq_zero_of_not_pos fun hpos => h ⟨x, room, ack, rfl, hpos⟩
  | _ => cases hx

/-- Either everything was handed on, or the block is still receiving. -/
def Progress (base : BitVec 32) (S : List UInt8) (tr : List RcvEvent) (s : RcvState) : Prop :=
  s.gotFin = true ∧ delivered tr = S ∨ ∃ R, Receiving base S tr s R

theorem receiving_init {s : RcvState} (h : (rcvMachine base).Init s) : Receiving base S [] s ⟨0, tcpWnd, []⟩ := by
  obtain ⟨mss, ackDelay, ackNow, rfl⟩ := h
  refine ⟨⟨rfl, List.not_mem_nil⟩, List.nil_prefix, ⟨(num_zero base).symm, rfl, le_rfl, .nil⟩, ?_, rfl⟩
  exact ⟨Nat.zero_le _, List.Pairwise.nil, List.forall_mem_nil _, List.forall_mem_nil _⟩

private theorem progress_init {s : RcvState} (h : (rcvMachine base).Init s) : Progress base S [] s :=
  .inr ⟨_, receiving_init h⟩

private theorem progress_step {tr out : List RcvEvent} {s t : RcvState} {a : RcvAct} (h : Progress base S tr s)
    (hstep : s.step base a = some (t, out)) (hg : Sends S tr a) : Progress base S (tr ++ out) t := by
  rcases h with ⟨hgot, hall⟩ | ⟨R, h⟩
  · obtain ⟨rfl, ht⟩ := step_gotFin hgot hstep
    exact .inl ⟨ht, by simpa using hall⟩
  · by_cases hseg : ∃ x room ack, a = .segment x room ack ∧ 0 < x.span
    · obtain ⟨x, room, ack, rfl, hspan⟩ := hseg
      obtain ⟨hxS, hlen, hnear⟩ := hg x rfl
      rw [RcvState.step, segOf_tcplen, if_pos ⟨hspan, h.finless.1⟩] at hstep
      obtain ⟨o, ho, hout⟩ := Option.map_eq_some_iff.mp hstep
      obtain ⟨-, -, hend, hrest⟩ := h.segment hxS hlen hnear hspan ho
      have hgot := (handOn_spec o).2.2
      rw [hout] at hend hrest hgot
      cases hf : o.2.2 with
      | true => exact .inl ⟨hgot.trans hf, hend hf⟩
      | false => exact .inr ⟨_, hrest hf⟩
    · obtain ⟨rfl, w, -, ht⟩ := h.other hstep (empty_of_no_segment hseg)
      rw [List.append_nil]
      exact .inr ⟨_, ht⟩

/-- In whatever order, however often and however cut the segments of a stream arrive, the
application is handed the stream from its start, and its end only behind all of it. -/
theorem delivered_in_order {ts : List RcvTransition} {s : RcvState}
    (hr : (rcvMachine base).Run ts s) (hg : Streams S ts) :
    delivered (Machine.trace ts) <+: S ∧ (.fin ∈ Machine.trace ts → delivered (Machine.trace ts) = S) := by
  have h : Progress base S (Machine.trace ts) s :=
    hr.along _ (Progress base S) (fun _ => progress_init) (fun _ _ _ _ _ => progress_step) hg
  rcases h with ⟨-, hall⟩ | ⟨R, h⟩
  · exact ⟨hall ▸ List.prefix_rfl, fun _ => hall⟩
  · exact ⟨h.part, fun hfin => absurd hfin h.finless.2⟩

/-- Five bytes in four segments: the last one first, one twice, and two cut anew. -/
def reordered : List RcvAct :=
  [.segment ⟨3, [4, 5], true⟩ true .sent, .segment ⟨1, [2, 3], false⟩ true .sent,
    .segment ⟨1, [2, 3], false⟩ true .noBuf, .segment ⟨0, [1, 2], false⟩ true .sent]

example : (((rcvMachine 0xFFFFFFFE).exec ⟨Rcv.established 0xFFFFFFFE 1460 false false, false⟩ reordered).map fun o =>
    o.1.map fun t => delivered t.out) = some [[], [], [], [1, 2, 3, 4, 5]] := by decide +kernel

/-- The sequence numbers wrap around inside the stream. -/
theorem delivered_in_order_wrapped : ∃ ts s, (rcvMachine 0xFFFFFFFE).Run ts s ∧
    Streams [1, 2, 3, 4, 5] ts ∧ .fin ∈ Machine.trace ts ∧
    delivered (Machine.trace ts) = [1, 2, 3, 4, 5] := by
  obtain ⟨ts, s, run, h⟩ := Machine.Run.exists_of_exec (rcvMachine 0xFFFFFFFE)
    ⟨Rcv.established 0xFFFFFFFE 1460 false false, false⟩ reordered
    (fun ts _ => decide (Streams [1, 2, 3, 4, 5] ts ∧ .fin ∈ Machine.trace ts)) ⟨1460, false, false, rfl⟩
    (by decide +kernel)
  obtain ⟨hg, hfin⟩ := of_decide_eq_true h
  exact ⟨ts, s, run, hg, hfin, (delivered_in_order run hg).2 hfin⟩

/-- The pieces that arrived along a run. -/
def sent (ts : List RcvTransition) : List (Piece UInt8) := ts.filterMap fun t => t.act.piece?

/-- There is memory for a copy, and the segment lies inside the window. -/
def Welcome (tr : List RcvEvent) (s : RcvState) (a : RcvAct) : Prop :=
  a.room = true ∧ ∀ x ∈ a.piece?, x.off + x.span ≤ (delivered tr).length + s.rcv.rcvWnd

instance (tr : List RcvEvent) (s : RcvState) (a : RcvAct) : Decidable (Welcome tr s a) :=
  inferInstanceAs (Decidable (_ ∧ _))

/-- Every segment of a run finds memory and lies inside the window. -/
abbrev Welcomes (ts : List RcvTransition) : Prop := Machine.Along (fun tr t => Welcome tr t.pre t.act) [] ts

private theorem mem_sent_snoc {ts : List RcvTransition} {t : RcvTransition} :
    x ∈ sent (ts ++ [t]) ↔ x ∈ sent ts ∨ x ∈ t.act.piece? := by
  cases h : t.act.piece? <;> simp [sent, List.filterMap_append, h, eq_comm]

/-- Every place of the stream that a segment brought is handed on or queued. -/
def Kept (base : BitVec 32) (S : List UInt8) (ts : List RcvTransition) (s : RcvState) : Prop :=
  (s.gotFin = true ∧ delivered (Machine.trace ts) = S ∧ ∀ n < S.length, ∃ x ∈ sent ts, x.Covers n) ∨
    ∃ R, Receiving base S (Machine.trace ts) s R ∧ R.Holds S (· ∈ sent ts)

private theorem kept_run {ts : List RcvTransition} {s : RcvState} (hr : (rcvMachine base).Run ts s)
    (hg : Streams S ts) (hw : Welcomes ts) (hn : Receiver.Unnested (· ∈ sent ts)) :
    Kept base S ts s := by
  induction hr with
  | init hs => exact .inr ⟨_, receiving_init hs, List.forall_mem_nil _, fun n _ => by simp [sent]⟩
  | @next ts s t a out hr hstep ih =>
    obtain ⟨hg, hgt⟩ := Machine.along_snoc.mp hg
    obtain ⟨hw, hwt⟩ := Machine.along_snoc.mp hw
    have hsub : ∀ x ∈ sent ts, x ∈ sent (ts ++ [⟨s, a, out, t⟩]) := fun x hx => mem_sent_snoc.mpr (.inl hx)
    rw [Kept, Machine.trace_snoc]
    rcases ih hg hw (hn.mono hsub) with ⟨hgot, hall, harr⟩ | ⟨R, h, hold⟩
    · obtain ⟨rfl, ht⟩ := step_gotFin hgot hstep
      exact .inl ⟨ht, by simpa using hall, fun n hlt => (harr n hlt).imp fun x hx => ⟨hsub x hx.1, hx.2⟩⟩
    by_cases hseg : ∃ x room ack, a = .segment x room ack ∧ 0 < x.span
    · obtain ⟨x, room, ack, rfl, hspan⟩ := hseg
      obtain ⟨hxS, hlen, hnear⟩ := hgt x rfl
      obtain ⟨rfl, hfit⟩ : room = true ∧ _ := ⟨hwt.1, hwt.2 x rfl⟩
      have hstep' : s.step base (.segment x true ack) = some (t, out) := hstep
      rw [RcvState.step, segOf_tcplen, if_pos ⟨hspan, h.finless.1⟩] at hstep'
      obtain ⟨o, ho, hout⟩ := Option.map_eq_some_iff.mp hstep'
      obtain ⟨hfin, -, hend, hrest⟩ := h.segment hxS hlen hnear hspan ho
      have hgot := (handOn_spec o).2.2
      rw [hout] at hend hrest hgot
      have hset : ∀ y, y ∈ sent (ts ++ [⟨s, .segment x true ack, out, t⟩]) ↔ y ∈ sent ts ∨ y = x := by
        intro y
        rw [mem_sent_snoc]
        simp [RcvAct.piece?, eq_comm]
      have hedge : x.off + x.span ≤ R.edge := by
        rw [Receiver.edge, h.nxt, ← h.at_.wnd]
        exact hfit
      have hold' : (R.receive x true).1.Holds S (· ∈ sent (ts ++ [⟨s, .segment x true ack, out, t⟩])) := by
        simpa only [hset] using Receiver.receive_holds h.of hxS hold hedge (hn.mono fun y hy => (hset y).mpr hy)
      cases hf : o.2.2 with
      | false => exact .inr ⟨_, hrest hf, hold'⟩
      | true =>
        obtain ⟨-, hnxt, hlast, -, -⟩ := @Receiver.receive_spec _ S R x true h.of hxS
        have hsize := (hlast (hfin ▸ hf)).1
        exact .inl ⟨hgot.trans hf, hend hf, fun n hlt => (hold'.exact n hlt).mp (.inl (by omega))⟩
    · have hzero := empty_of_no_segment hseg
      obtain ⟨rfl, w, -, ht⟩ := h.other hstep hzero
      rw [List.append_nil]
      refine .inr ⟨_, ht, Receiver.Holds.congr_empty ⟨hold.origin, hold.exact⟩ hsub fun x hx => ?_⟩
      exact (mem_sent_snoc.mp hx).imp id (hzero x)

/-- With memory for the queue, and segments inside the window none of which starts inside
another and ends before it, a byte is handed on as soon as it and all before it have arrived. -/
theorem delivered_iff_arrived {ts : List RcvTransition} {s : RcvState}
    (hr : (rcvMachine base).Run ts s) (hg : Streams S ts) (hw : Welcomes ts)
    (hn : Receiver.Unnested (· ∈ sent ts)) {n : Nat} (hle : n ≤ S.length) :
    n ≤ (delivered (Machine.trace ts)).length ↔ ∀ m < n, ∃ x ∈ sent ts, x.Covers m := by
  rcases kept_run hr hg hw hn with ⟨-, hall, harr⟩ | ⟨R, h, hold⟩
  · rw [hall]
    exact ⟨fun _ m hm => harr m (by omega), fun _ => hle⟩
  · rw [← h.nxt]
    refine ⟨fun hn m hm => (hold.exact m (by omega)).mp (.inl (by omega)), fun harr => ?_⟩
    by_contra hlt
    rcases (hold.exact R.nxt (by omega)).mpr (harr R.nxt (by omega)) with hself | ⟨y, hy, hcov⟩
    · omega
    · have := (h.of.later y hy).1
      have := hcov.1
      omega

/-- Before the last of the segments nothing can be handed on, behind it everything. -/
theorem delivered_iff_arrived_reordered : ∃ ts s, (rcvMachine 0xFFFFFFFE).Run ts s ∧
    Streams [1, 2, 3, 4, 5] ts ∧ Welcomes ts ∧ Receiver.Unnested (· ∈ sent ts) ∧
    (5 ≤ (delivered (Machine.trace ts)).length ↔ ∀ m < 5, ∃ x ∈ sent ts, x.Covers m) := by
  obtain ⟨ts, s, run, h⟩ := Machine.Run.exists_of_exec (rcvMachine 0xFFFFFFFE)
    ⟨Rcv.established 0xFFFFFFFE 1460 false false, false⟩ reordered
    (fun ts _ => decide (Streams [1, 2, 3, 4, 5] ts ∧ Welcomes ts ∧
      Receiver.Unnested (· ∈ sent ts))) ⟨1460, false, false, rfl⟩ (by decide +kernel)
  obtain ⟨hg, hw, hn⟩ := of_decide_eq_true h
  exact ⟨ts, s, run, hg, hw, hn, delivered_iff_arrived run hg hw hn (by decide)⟩

end Tunosocks.Lwip
