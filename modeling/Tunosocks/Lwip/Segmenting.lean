import Tunosocks.Lwip.SendQueue

/-! `tcp_write` and `tcp_send_fin`: what is written goes behind everything that is queued, as
long as the last unsent segment is the last one there is. -/
namespace Tunosocks.Lwip
open Foundation Foundation.Serial Tcp
open List (Forall₂)

variable {base : BitVec 32} {S : List UInt8} {seg : OutSeg} {ss : List OutSeg} {x : Piece UInt8}
  {q us vs : List (Piece UInt8)} {s s' : Snd} {k a n arg room : Nat} {data : List UInt8}

private theorem extendRom_bytes (data : List UInt8) {p : List Rom} (hp : p ≠ []) :
    (extendRom data p).flatMap Rom.bytes = p.flatMap Rom.bytes ++ data ∧ (extendRom data p).length = p.length := by
  induction p with
  | nil => exact absurd rfl hp
  | cons r p ih =>
    cases p with
    | nil => simp [extendRom]
    | cons r' p =>
      obtain ⟨h1, h2⟩ := ih (List.cons_ne_nil r' p)
      simp only [extendRom, List.flatMap_cons, List.length_cons] at h1 h2 ⊢
      exact ⟨by rw [h1]; simp, by rw [h2]⟩

private theorem adjoins_ne_nil (h : seg.adjoins arg = true) : seg.p ≠ [] := by
  intro hp
  simp [OutSeg.adjoins, hp] at h

/-- The last segment with more data at its end. -/
theorem extend_is (h : seg.Is base x) (arg : Nat) (data : List UInt8) :
    (seg.extend arg data).Is base { x with data := x.data ++ data } := by
  refine ⟨h.seqno, ?_, by simp [OutSeg.extend, h.len], h.fin, h.syn⟩
  have hbytes := h.bytes
  simp only [OutSeg.extend, OutSeg.bytes] at hbytes ⊢
  split
  case isTrue hadj => rw [(extendRom_bytes data (adjoins_ne_nil hadj)).1, hbytes]
  case isFalse => simp [hbytes]

private theorem extend_clen (seg : OutSeg) (arg : Nat) (data : List UInt8) :
    (seg.extend arg data).clen = seg.clen + if seg.adjoins arg then 0 else 1 := by
  simp only [OutSeg.extend, OutSeg.clen]
  split
  case isTrue hadj => rw [(extendRom_bytes data (adjoins_ne_nil hadj)).2]; rfl
  case isFalse => simp only [List.length_append, List.length_singleton]; omega

private theorem setPsh_is (h : Forall₂ (OutSeg.Is base) ss q) : Forall₂ (OutSeg.Is base) (setPsh ss) q ∧
    bufs (setPsh ss) = bufs ss := by
  induction h with
  | nil => exact ⟨.nil, rfl⟩
  | @cons seg x ss q hs hq ih =>
    cases hq with
    | nil => exact ⟨.cons ⟨hs.seqno, hs.bytes, hs.len, hs.fin, hs.syn⟩ .nil, rfl⟩
    | cons ht hq =>
      refine ⟨.cons hs ih.1, ?_⟩
      have := ih.2
      simp only [bufs, setPsh, List.map_cons, List.sum_cons] at this ⊢
      omega

/-- A piece from the start of what is left of a stream. -/
private theorem from_take {T : List UInt8} {m len : Nat} (hm : m ≤ T.length) (hdata : T.drop m = data) :
    (⟨m, data.take len, false⟩ : Piece UInt8).From T :=
  ⟨hm, hdata ▸ List.take_prefix _ _, fun h => by cases h⟩

/-- The new segments carry the data in order, none larger than `mss`. -/
private theorem newSegments_is {mss fuel m queuelen : Nat} {T : List UInt8} (hmss : 0 < mss)
    (hfuel : data.length ≤ fuel) (hm : m ≤ T.length) (hdata : T.drop m = data) :
    newSegments mss fuel (num base m) arg data room queuelen ≠ .error .assertion ∧
      ∀ segs queuelen', newSegments mss fuel (num base m) arg data room queuelen = .ok (segs, queuelen') →
        ∃ ws, Forall₂ (OutSeg.Is base) segs ws ∧ Tiles T m ws (m + data.length) ∧ queuelen' = queuelen + bufs segs ∧
          dataLen ws = data.length ∧ ∀ w ∈ ws, w.data.length ≤ mss := by
  induction fuel generalizing m arg room queuelen data with
  | zero =>
    obtain rfl := List.eq_nil_of_length_eq_zero (Nat.le_zero.mp hfuel)
    refine ⟨by simp [newSegments], fun segs queuelen' h => ?_⟩
    simp only [newSegments, Except.ok.injEq, Prod.mk.injEq] at h
    obtain ⟨rfl, rfl⟩ := h
    exact ⟨[], .nil, rfl, rfl, rfl, List.forall_mem_nil _⟩
  | succ fuel ih =>
    cases data with
    | nil =>
      refine ⟨by simp [newSegments], fun segs queuelen' h => ?_⟩
      simp only [newSegments, Except.ok.injEq, Prod.mk.injEq] at h
      obtain ⟨rfl, rfl⟩ := h
      exact ⟨[], .nil, rfl, rfl, rfl, List.forall_mem_nil _⟩
    | cons d data =>
      generalize hlen : min (d :: data).length mss = len
      have hpos : 0 < len := by rw [← hlen, List.length_cons]; omega
      have hle : len ≤ (d :: data).length := hlen ▸ Nat.min_le_left _ _
      have htot : (d :: data).length = T.length - m := by rw [← hdata, List.length_drop]
      obtain ⟨hne, hok⟩ := @ih (arg + len) (room - 3) ((d :: data).drop len) (m + len) (queuelen + 2)
        (by rw [List.length_drop]; omega) (by omega) (by rw [← hdata, List.drop_drop])
      have hseq : num base m + ofLen len = num base ↑(m + len) := by rw [num_add_ofLen, Nat.cast_add]
      simp only [newSegments, hlen, hseq]
      split
      case isTrue => exact ⟨by simp, fun _ _ h => by cases h⟩
      split
      case isTrue => exact ⟨by simp, fun _ _ h => by cases h⟩
      split
      case isTrue => exact ⟨by simp, fun _ _ h => by cases h⟩
      cases hrest : newSegments mss fuel (num base ↑(m + len)) (arg + len) ((d :: data).drop len) (room - 3)
          (queuelen + 2) with
      | error e =>
        rw [hrest] at hne
        exact ⟨fun h => hne h, fun _ _ h => by cases h⟩
      | ok o =>
        obtain ⟨ws, hws, htiles, hq, hdl, hsz⟩ := hok o.1 o.2 hrest
        refine ⟨by simp [bind, Except.bind], fun segs queuelen' h => ?_⟩
        cases h
        have htake : ((d :: data).take len).length = len := by rw [List.length_take]; omega
        have hspan : (⟨m, (d :: data).take len, false⟩ : Piece UInt8).span = len := by
          rw [Piece.span, htake]; rfl
        refine ⟨⟨m, (d :: data).take len, false⟩ :: ws, .cons ⟨rfl, ?_, htake.symm, rfl, rfl⟩ hws, ⟨rfl, ?_, ?_, ?_⟩,
          ?_, ?_, List.forall_mem_cons.mpr ⟨?_, hsz⟩⟩
        · simp [OutSeg.bytes]
        · exact from_take hm hdata
        · rw [hspan]; exact hpos
        · rw [Piece.past, hspan]
          rw [List.length_drop] at htiles
          rwa [show m + (d :: data).length = m + len + ((d :: data).length - len) by omega]
        · have hclen : bufs (⟨num base m, [⟨arg, (d :: data).take len⟩], len, false, false, false⟩ :: o.1) =
              2 + bufs o.1 := by simp [bufs, OutSeg.clen]
          rw [hclen, hq]
          omega
        · rw [List.length_drop] at hdl
          simp only [dataLen, List.map_cons, List.sum_cons, htake] at hdl ⊢
          omega
        · rw [htake, ← hlen]
          exact Nat.min_le_right _ _

/-- No queued segment is larger than those that would be made now. -/
structure Sized (s : Snd) (q : List (Piece UInt8)) : Prop where
  mss : 0 < s.mss
  wnd : 2 ≤ s.sndWndMax
  small : ∀ x ∈ q, x.data.length ≤ s.mssLocal

private theorem Sized.mssLocal_pos (h : Sized s q) : 0 < s.mssLocal := by
  have := h.mss
  unfold Snd.mssLocal
  split <;> omega

/-- Segments only get larger with the peer's largest window. -/
theorem Sized.mono (h : Sized s q) (hm : s'.mss = s.mss) (hw : s.sndWndMax ≤ s'.sndWndMax) : Sized s' q := by
  refine ⟨hm ▸ h.mss, h.wnd.trans hw, fun x hx => (h.small x hx).trans ?_⟩
  have h1 := h.mss
  have h2 := h.wnd
  unfold Snd.mssLocal
  rw [hm]
  split <;> split <;> omega

theorem Sized.of_subset {q' : List (Piece UInt8)} (h : Sized s q) (hq : q' ⊆ q) : Sized s q' :=
  ⟨h.mss, h.wnd, fun x hx => h.small x (hq hx)⟩

/-- Whatever waits now starts where something waited, or behind the stream as it was. -/
def Later (S : List UInt8) (vs vs' : List (Piece UInt8)) : Prop :=
  ∀ v ∈ vs', S.length ≤ v.off ∨ ∃ w ∈ vs, w.off = v.off

theorem Later.fresh {vs' : List (Piece UInt8)} (h : Later S vs vs') (hn : n ≤ S.length) (hf : Fresh n vs) :
    Fresh n vs' := by
  intro v hv
  rcases h v hv with hle | ⟨w, hw, heq⟩
  · exact hn.trans hle
  · exact (hf w hw).trans_eq heq

/-- What the second phase of `tcp_write` leaves: the stream with the part that found room. -/
structure Extended (base : BitVec 32) (S : List UInt8) (s : Snd) (k a : Nat) (us vs : List (Piece UInt8))
    (data : List UInt8) (t : Tail) (vs' : List (Piece UInt8)) : Prop where
  pos_le : t.pos ≤ data.length
  unsent : Forall₂ (OutSeg.Is base) t.unsent vs'
  kept : Outgoing (S ++ data.take t.pos) k (S.length + t.pos) us vs'
  data : dataLen vs' = dataLen vs + t.pos
  queuelen : t.queuelen + bufs s.unsent = s.sndQueuelen + bufs t.unsent
  live : ∀ x ∈ vs', a < x.past
  small : ∀ x ∈ vs', x.data.length ≤ s.mssLocal
  behind : Outgoing.Behind us vs'
  later : Later S vs vs'

namespace Sending

private theorem extendNothing (h : Sending base S s k a n us vs) (hfin : s.fin = false) (hz : Sized s (us ++ vs))
    (hb : Outgoing.Behind us vs) (data : List UInt8) (room : Nat) :
    Extended base S s k a us vs data ⟨s.unsent, 0, room, s.sndQueuelen⟩ vs := by
  have hkept := h.kept
  rw [hfin] at hkept
  refine ⟨Nat.zero_le _, h.unsent, ?_, rfl, rfl, ?_, ?_, hb, fun v hv => .inr ⟨v, hv, rfl⟩⟩
  · simpa using hkept
  · exact fun x hx => h.live x (List.mem_append_right us hx)
  · exact fun x hx => hz.small x (List.mem_append_right us hx)

private theorem extendLast {init : List OutSeg} {last : OutSeg} {len : Nat} (h : Sending base S s k a n us vs)
    (hfin : s.fin = false) (hz : Sized s (us ++ vs)) (hb : Outgoing.Behind us vs) (hs : s.unsent = init ++ [last])
    (arg : Nat) (data : List UInt8) (hlen : len = min (s.mssLocal - last.len) data.length) (room : Nat) :
    ∃ vs', Extended base S s k a us vs data
      ⟨init ++ [last.extend arg (data.take len)], len, room, s.sndQueuelen + if last.adjoins arg then 0 else 1⟩
      vs' := by
  have hall := h.unsent
  rw [hs] at hall
  obtain ⟨vs, x, rfl, hinit, hx⟩ := forall₂_concat.mp hall
  have hmem : x ∈ us ++ (vs ++ [x]) := by simp
  have hkept := h.kept
  rw [hfin, Bool.toNat_false, Nat.add_zero] at hkept
  have hpast := hkept.last_past hb
  have hxfin := h.open_ hfin hmem
  obtain ⟨hcut, hspan, -, -⟩ := hkept.cut hmem
  have hle : len ≤ data.length := by omega
  have htake : (data.take len).length = len := by rw [List.length_take]; omega
  have hstop : x.off + x.data.length = S.length := by
    simpa [Piece.past, Piece.span, hxfin] using hpast
  have hy : ({ x with data := x.data ++ data.take len } : Piece UInt8).From (S ++ data.take len) := by
    refine ⟨hcut.off_le.trans (by simp), ?_, fun hf => by simp [hxfin] at hf⟩
    have hwhole : x.data = S.drop x.off := hcut.data.eq_of_length (by rw [List.length_drop]; omega)
    rw [List.drop_append_of_le_length hcut.off_le, ← hwhole]
  have hyp : ({ x with data := x.data ++ data.take len } : Piece UInt8).past = S.length + len := by
    simp only [Piece.past, Piece.span, List.length_append, htake, hxfin, Bool.toNat_false]
    omega
  refine ⟨vs ++ [{ x with data := x.data ++ data.take len }], hle,
    forall₂_concat.mpr ⟨_, _, rfl, hinit, extend_is hx arg _⟩, ?_, ?_, ?_, ?_, ?_, ?_, ?_⟩
  · rw [← hyp]
    exact hkept.extend hpast le_rfl rfl hy (by simp only [Piece.span, List.length_append] at hspan ⊢; omega)
  · simp only [dataLen_append]
    simp only [dataLen, List.map_cons, List.map_nil, List.sum_cons, List.sum_nil, List.length_append, htake]
    omega
  · have hc := extend_clen last arg (data.take len)
    rw [hs]
    simp only [bufs_append]
    simp only [bufs, List.map_cons, List.map_nil, List.sum_cons, List.sum_nil]
    omega
  · refine List.forall_mem_append.mpr ⟨fun y hy => h.live y (by simp [hy]), List.forall_mem_singleton.mpr ?_⟩
    rw [hyp]
    exact ((h.live x hmem).trans_eq hpast).trans_le (Nat.le_add_right _ _)
  · refine List.forall_mem_append.mpr ⟨fun y hy => hz.small y (by simp [hy]), List.forall_mem_singleton.mpr ?_⟩
    have hsmall := hz.small x hmem
    have hxlen := hx.len
    simp only [List.length_append, htake]
    omega
  · intro v hv u hu
    rw [List.getLast?_concat, Option.mem_some_iff] at hv
    rw [← hv]
    exact hb x (by simp) u hu
  · refine List.forall_mem_append.mpr ⟨fun v hv => .inr ⟨v, by simp [hv], rfl⟩, List.forall_mem_singleton.mpr ?_⟩
    exact .inr ⟨x, by simp, rfl⟩

private theorem extendTail (h : Sending base S s k a n us vs) (hfin : s.fin = false) (hz : Sized s (us ++ vs))
    (hb : Outgoing.Behind us vs) (arg : Nat) (data : List UInt8) (room : Nat) :
    s.extendTail arg data room ≠ .error .assertion ∧
      ∀ t, s.extendTail arg data room = .ok t → ∃ vs', Extended base S s k a us vs data t vs' := by
  have keep := h.extendNothing hfin hz hb data room
  unfold Snd.extendTail
  rcases List.eq_nil_or_concat s.unsent with hnil | ⟨init, last, hs⟩
  · rw [hnil, List.getLast?_nil]
    rw [hnil] at keep
    exact ⟨by simp, fun t ht => by cases ht; exact ⟨vs, keep⟩⟩
  rw [List.concat_eq_append] at hs
  have hlast : s.unsent.getLast? = some last := by rw [hs, List.getLast?_concat]
  have hopt : last.optlen = 0 ∧ last.len ≤ s.mssLocal := by
    have hall := h.unsent
    rw [hs] at hall
    obtain ⟨vs, x, rfl, -, hx⟩ := forall₂_concat.mp hall
    exact ⟨by simp [OutSeg.optlen, hx.syn], hx.len.le.trans (hz.small x (by simp))⟩
  rw [hlast]
  simp only [hopt.1, Nat.add_zero, if_neg (Nat.not_lt.mpr hopt.2)]
  split
  case isTrue => exact ⟨by simp, fun t ht => by cases ht; exact ⟨vs, keep⟩⟩
  rw [show s.unsent.dropLast = init by rw [hs, List.dropLast_concat]]
  have hext := h.extendLast hfin hz hb hs arg data rfl
  split
  case isTrue hadj =>
    refine ⟨by simp, fun t ht => ?_⟩
    cases ht
    simpa [hadj] using hext room
  case isFalse hadj =>
    split
    case isTrue => exact ⟨by simp, fun t ht => by cases ht⟩
    case isFalse =>
      refine ⟨by simp, fun t ht => ?_⟩
      cases ht
      simpa [hadj] using hext (room - 1)

private theorem commit {t : Tail} {vs1 ws : List (Piece UInt8)} {segs : List OutSeg} {queuelen : Nat}
    (h : Sending base S s k a n us vs) (hfin : s.fin = false) (hz : Sized s (us ++ vs))
    (hext : Extended base S s k a us vs data t vs1) (hws : Forall₂ (OutSeg.Is base) segs ws)
    (htiles : Tiles (S ++ data) (S.length + t.pos) ws (S.length + t.pos + (data.drop t.pos).length))
    (hq : queuelen = t.queuelen + bufs segs) (hdl : dataLen ws = (data.drop t.pos).length)
    (hsz : ∀ w ∈ ws, w.data.length ≤ s.mssLocal) (hroom : data.length ≤ s.sndBuf) (psh : Bool) :
    let s' : Snd := { s with
      unsent := if psh then t.unsent ++ segs else setPsh (t.unsent ++ segs)
      sndLbb := s.sndLbb + ofLen data.length, sndBuf := s.sndBuf - data.length, sndQueuelen := queuelen }
    Sending base (S ++ data) s' k a n us (vs1 ++ ws) ∧ Sized s' (us ++ (vs1 ++ ws)) ∧
      Outgoing.Behind us (vs1 ++ ws) ∧ Later S vs (vs1 ++ ws) ∧ s'.sndBuf + data.length = s.sndBuf := by
  intro s'
  have hpos := hext.pos_le
  rw [List.length_drop] at htiles hdl
  have hall : Forall₂ (OutSeg.Is base) (t.unsent ++ segs) (vs1 ++ ws) := List.rel_append hext.unsent hws
  obtain ⟨hpsh, hbufs⟩ := setPsh_is hall
  have hunsent : Forall₂ (OutSeg.Is base) s'.unsent (vs1 ++ ws) ∧ bufs s'.unsent = bufs (t.unsent ++ segs) := by
    show Forall₂ (OutSeg.Is base) (if psh then t.unsent ++ segs else setPsh (t.unsent ++ segs)) (vs1 ++ ws) ∧
      bufs (if psh then t.unsent ++ segs else setPsh (t.unsent ++ segs)) = _
    split
    · exact ⟨hall, rfl⟩
    · exact ⟨hpsh, hbufs⟩
  have hkept : Outgoing (S ++ data) k (S ++ data).length us (vs1 ++ ws) := by
    have hsplit : S ++ data = S ++ data.take t.pos ++ data.drop t.pos := by
      rw [List.append_assoc, List.take_append_drop]
    have htiles' : Tiles (S ++ data.take t.pos ++ data.drop t.pos) (S.length + t.pos) ws (S ++ data).length := by
      rw [← hsplit, List.length_append]
      rwa [show S.length + t.pos + (data.length - t.pos) = S.length + data.length by omega] at htiles
    rw [hsplit] at htiles' ⊢
    exact hext.kept.append (by rw [List.length_append, List.length_take]; omega) htiles'
  have hnew : ∀ w ∈ ws, S.length ≤ w.off ∧ w.off < w.past := fun w hw => by
    have h1 := (htiles.bounds hw).1
    have h2 := (htiles.cut hw).2
    have h3 : w.past = w.off + w.span := rfl
    omega
  have hn := h.n_le
  have ha := h.a_le
  rw [hfin, Bool.toNat_false, Nat.add_zero] at hn
  refine ⟨⟨h.unacked, hunsent.1, ?_, h.lastack, h.sndNxt, fun _ => ?_, h.k_le, ha, ?_, ?_, h.flown, ?_, ?_⟩,
    ⟨hz.mss, hz.wnd, ?_⟩, ?_, List.forall_mem_append.mpr ⟨hext.later, fun w hw => .inl (hnew w hw).1⟩,
    Nat.sub_add_cancel hroom⟩
  · show Outgoing (S ++ data) k ((S ++ data).length + s.fin.toNat) us (vs1 ++ ws)
    rw [hfin]
    exact hkept
  · show s.sndLbb + ofLen data.length = _
    rw [h.sndLbb hfin, num_add_ofLen, List.length_append, Nat.cast_add]
  · show n ≤ (S ++ data).length + s.fin.toNat
    rw [List.length_append]
    omega
  · refine List.forall_mem_append.mpr ⟨fun x hx => h.live x (List.mem_append_left _ hx),
      List.forall_mem_append.mpr ⟨hext.live, fun w hw => ?_⟩⟩
    have := hnew w hw
    omega
  · have hbuf := h.buf
    have hd := hext.data
    show s.sndBuf - data.length + _ = 65535
    simp only [dataLen_append] at hbuf ⊢
    omega
  · have hql := h.queuelen
    have he := hext.queuelen
    show queuelen = bufs (s.unacked ++ s'.unsent)
    rw [bufs_append] at hql
    rw [bufs_append, hunsent.2, bufs_append]
    omega
  · refine List.forall_mem_append.mpr ⟨fun x hx => hz.small x (List.mem_append_left _ hx), ?_⟩
    exact List.forall_mem_append.mpr ⟨hext.small, hsz⟩
  · intro v hv u hu
    rcases List.eq_nil_or_concat ws with rfl | ⟨ws, w, rfl⟩
    · rw [List.append_nil] at hv
      exact hext.behind v hv u hu
    · rw [List.concat_eq_append, ← List.append_assoc, List.getLast?_concat, Option.mem_some_iff] at hv
      rw [← hv]
      have hw := hnew w (by simp)
      have hup := h.flown u hu
      have husp := (h.kept.cut (List.mem_append_left _ hu)).2.1
      have h3 : u.past = u.off + u.span := rfl
      omega

/-- What was written follows what was there, in both queues and in all counts. -/
private theorem enqueue (h : Sending base S s k a n us vs) (hfin : s.fin = false) (hz : Sized s (us ++ vs))
    (hb : Outgoing.Behind us vs) (arg : Nat) (hroom : data.length ≤ s.sndBuf) (room : Nat) :
    s.enqueue arg data room ≠ .error .assertion ∧ ∀ s', s.enqueue arg data room = .ok s' →
      ∃ vs', Sending base (S ++ data) s' k a n us vs' ∧ Sized s' (us ++ vs') ∧ Outgoing.Behind us vs' ∧
        Later S vs vs' ∧ s'.sndBuf + data.length = s.sndBuf := by
  obtain ⟨hne, hok⟩ := h.extendTail hfin hz hb arg data room
  unfold Snd.enqueue
  cases ht : s.extendTail arg data room with
  | error e =>
    refine ⟨fun he => hne ?_, fun _ he => by cases he⟩
    cases he
    exact ht
  | ok t =>
    obtain ⟨vs1, hext⟩ := hok t ht
    have hdrop : (S ++ data).drop (S.length + t.pos) = data.drop t.pos := by
      rw [List.drop_append, List.drop_eq_nil_of_le (by omega), List.nil_append, Nat.add_sub_cancel_left]
    have hlbb : s.sndLbb + ofLen t.pos = num base ↑(S.length + t.pos) := by
      rw [h.sndLbb hfin, num_add_ofLen, Nat.cast_add]
    have hpos := hext.pos_le
    obtain ⟨hne', hok'⟩ := @newSegments_is base (arg + t.pos) t.room (data.drop t.pos) s.mssLocal data.length
      (S.length + t.pos) t.queuelen (S ++ data) hz.mssLocal_pos (by rw [List.length_drop]; omega)
      (by rw [List.length_append]; omega) hdrop
    simp only [bind, Except.bind, hlbb]
    cases hnew : newSegments s.mssLocal data.length (num base ↑(S.length + t.pos)) (arg + t.pos) (data.drop t.pos)
        t.room t.queuelen with
    | error e =>
      refine ⟨fun he => hne' ?_, fun _ he => by cases he⟩
      cases he
      exact hnew
    | ok o =>
      obtain ⟨ws, hws, htiles, hq, hdl, hsz⟩ := hok' o.1 o.2 hnew
      refine ⟨by simp, fun s' he => ?_⟩
      cases he
      exact ⟨vs1 ++ ws, h.commit hfin hz hext hws htiles hq hdl hsz hroom _⟩

private theorem queuelen_eq_zero (h : Sending base S s k a n us vs) :
    s.sndQueuelen = 0 ↔ s.unacked = [] ∧ s.unsent = [] := by
  rw [h.queuelen, ← List.append_eq_nil_iff]
  cases s.unacked ++ s.unsent with
  | nil => exact iff_of_true rfl rfl
  | cons seg rest =>
    refine iff_of_false ?_ (List.cons_ne_nil _ _)
    simp only [bufs, List.map_cons, List.sum_cons, OutSeg.clen]
    omega

private theorem validQueuelen (h : Sending base S s k a n us vs) : s.validQueuelen = true := by
  have := h.queuelen_eq_zero
  by_cases hz : s.sndQueuelen = 0
  · simp [Snd.validQueuelen, hz]
  · rw [this, not_and_or] at hz
    simp only [Snd.validQueuelen, Bool.or_eq_true, Bool.not_eq_true', List.isEmpty_eq_false_iff, or_assoc]
    exact .inr hz

private theorem tcpWriteChecks (h : Sending base S s k a n us vs) (len : Nat) :
    ∃ e, s.tcpWriteChecks len = some e ∧ (e = .ok → len ≤ s.sndBuf) := by
  have hz := h.queuelen_eq_zero
  unfold Snd.tcpWriteChecks
  split
  case isTrue hlen => exact ⟨_, rfl, fun _ => by omega⟩
  split
  case isTrue => exact ⟨_, rfl, fun he => by cases he⟩
  case isFalse hbuf =>
    split
    case isTrue => exact ⟨_, rfl, fun he => by cases he⟩
    split
    case isTrue hne =>
      rw [if_pos (not_and_or.mp (mt hz.mpr hne))]
      exact ⟨_, rfl, fun _ => Nat.not_lt.mp hbuf⟩
    case isFalse hq =>
      rw [if_pos (hz.mp (not_not.mp hq))]
      exact ⟨_, rfl, fun _ => Nat.not_lt.mp hbuf⟩

/-- `tcp_write` trips no assertion; it takes all of the data or changes nothing but a flag. -/
theorem tcpWrite (h : Sending base S s k a n us vs) (hfin : s.fin = false) (hz : Sized s (us ++ vs))
    (hb : Outgoing.Behind us vs) (arg : Nat) (data : List UInt8) (room : Nat) :
    ∃ s' err, s.tcpWrite arg data room = some (s', err) ∧
      (err = .mem → s' = { s with nagleMemErr := true }) ∧
      (err = .ok →
        ∃ vs', Sending base (S ++ data) s' k a n us vs' ∧ Sized s' (us ++ vs') ∧ Outgoing.Behind us vs' ∧
          Later S vs vs' ∧ s'.sndBuf + data.length = s.sndBuf) := by
  obtain ⟨e, he, hroom⟩ := h.tcpWriteChecks data.length
  unfold Snd.tcpWrite
  rw [he]
  cases e with
  | mem => exact ⟨_, _, rfl, fun _ => rfl, fun h => by cases h⟩
  | ok =>
    obtain ⟨hne, hok⟩ := h.enqueue hfin hz hb arg (hroom rfl) room
    cases hq : s.enqueue arg data room with
    | error f =>
      cases f with
      | assertion => exact absurd hq hne
      | mem => exact ⟨{ s with nagleMemErr := true }, .mem, if_pos h.validQueuelen, fun _ => rfl, fun h => by cases h⟩
    | ok s' =>
      obtain ⟨vs', h', hz', hb'⟩ := hok s' hq
      refine ⟨s', .ok, if_pos h'.validQueuelen, fun h => ?_, fun _ => ⟨vs', h', hz', hb'⟩⟩
      cases h

/-- The outcome of `tcp_send_fin`: it was queued behind everything, or there was no memory. -/
def Finishes (base : BitVec 32) (S : List UInt8) (s : Snd) (k a n : Nat) (us vs : List (Piece UInt8))
    (o : Snd × Err) : Prop :=
  o.2 = .mem ∧ o.1 = { s with nagleMemErr := true } ∨
    o.2 = .ok ∧ o.1.fin = true ∧
      ∃ vs', Sending base S o.1 k a n us vs' ∧ Sized o.1 (us ++ vs') ∧ Outgoing.Behind us vs' ∧ Later S vs vs'

private theorem finAlone (h : Sending base S s k a n us vs) (hfin : s.fin = false) (hz : Sized s (us ++ vs))
    (room : Nat) : Finishes base S s k a n us vs (s.tcpEnqueueFlags false room) := by
  unfold Snd.tcpEnqueueFlags
  split
  · exact .inl ⟨rfl, rfl⟩
  have hkept := h.kept
  have hn := h.n_le
  have ha := h.a_le
  rw [hfin, Bool.toNat_false, Nat.add_zero] at hkept hn
  have htile : Tiles (S ++ []) S.length [⟨S.length, [], true⟩] (S.length + 1) := by
    refine Tiles.singleton.mpr ⟨rfl, ⟨by simp, List.nil_prefix, fun _ => by simp [Piece.stop]⟩, Nat.one_pos, rfl⟩
  have hkept' := hkept.append le_rfl htile
  rw [List.append_nil] at hkept'
  have hpast : (⟨S.length, [], true⟩ : Piece UInt8).past = S.length + 1 := rfl
  refine .inr ⟨rfl, by simp, vs ++ [⟨S.length, [], true⟩],
    ⟨h.unacked, ?_, ?_, h.lastack, h.sndNxt, ?_, h.k_le, ha, ?_, ?_, h.flown, ?_, ?_⟩, ⟨hz.mss, hz.wnd, ?_⟩, ?_,
    List.forall_mem_append.mpr ⟨fun v hv => .inr ⟨v, hv, rfl⟩, List.forall_mem_singleton.mpr (.inl le_rfl)⟩⟩
  · exact forall₂_concat.mpr ⟨_, _, rfl, h.unsent, h.sndLbb hfin, rfl, rfl, rfl, rfl⟩
  · simpa using hkept'
  · simp
  · simp only [Bool.not_false, Bool.or_true, Bool.toNat_true]
    omega
  · rw [← List.append_assoc]
    refine List.forall_mem_append.mpr ⟨h.live, List.forall_mem_singleton.mpr ?_⟩
    omega
  · have hbuf := h.buf
    rw [← List.append_assoc, dataLen_append]
    exact hbuf
  · have hq := h.queuelen
    simp only [← List.append_assoc]
    rw [bufs_append, hq]
    rfl
  · rw [← List.append_assoc]
    exact List.forall_mem_append.mpr ⟨hz.small, List.forall_mem_singleton.mpr (Nat.zero_le _)⟩
  · intro v hv u hu
    rw [List.getLast?_concat, Option.mem_some_iff] at hv
    rw [← hv]
    have hup := h.flown u hu
    have husp := (hkept.cut (List.mem_append_left _ hu)).2.1
    have hu' : u.past = u.off + u.span := rfl
    show u.off < S.length
    omega

private theorem finInLast {init : List OutSeg} {last : OutSeg} (h : Sending base S s k a n us vs) (hfin : s.fin = false)
    (hz : Sized s (us ++ vs)) (hb : Outgoing.Behind us vs) (hs : s.unsent = init ++ [last]) :
    Finishes base S s k a n us vs
      ({ s with unsent := init ++ [{ last with fin := true }], fin := true }, .ok) := by
  have hall := h.unsent
  rw [hs] at hall
  obtain ⟨vs, x, rfl, hinit, hx⟩ := forall₂_concat.mp hall
  have hmem : x ∈ us ++ (vs ++ [x]) := by simp
  have hkept := h.kept
  have hn := h.n_le
  rw [hfin, Bool.toNat_false, Nat.add_zero] at hkept hn
  have hpast := hkept.last_past hb
  have hxfin := h.open_ hfin hmem
  obtain ⟨hcut, hspan, -, -⟩ := hkept.cut hmem
  have hstop : x.off + x.data.length = S.length := by
    simpa [Piece.past, Piece.span, hxfin] using hpast
  have hy : ({ x with fin := true } : Piece UInt8).From (S ++ []) := by
    rw [List.append_nil]
    exact ⟨hcut.off_le, hcut.data, fun _ => hstop⟩
  have hyp : ({ x with fin := true } : Piece UInt8).past = S.length + 1 := by
    simp only [Piece.past, Piece.span, Bool.toNat_true]
    omega
  have hkept' := hkept.extend (y := { x with fin := true }) hpast le_rfl rfl hy (Nat.succ_pos _)
  rw [List.append_nil, hyp] at hkept'
  refine .inr ⟨rfl, rfl, vs ++ [{ x with fin := true }],
    ⟨h.unacked, ?_, by simpa using hkept', h.lastack, h.sndNxt, ?_, h.k_le, h.a_le, ?_, ?_, h.flown, ?_, ?_⟩,
    ⟨hz.mss, hz.wnd, ?_⟩, ?_, List.forall_mem_append.mpr ⟨fun v hv => .inr ⟨v, by simp [hv], rfl⟩,
      List.forall_mem_singleton.mpr (.inr ⟨x, by simp, rfl⟩)⟩⟩
  · exact forall₂_concat.mpr ⟨_, _, rfl, hinit, hx.seqno, hx.bytes, hx.len, rfl, hx.syn⟩
  · simp
  · simp only [Bool.toNat_true]
    omega
  · rw [← List.append_assoc]
    refine List.forall_mem_append.mpr ⟨fun y hy => h.live y ?_, List.forall_mem_singleton.mpr ?_⟩
    · rw [← List.append_assoc]
      exact List.mem_append_left _ hy
    · have := h.live x hmem
      omega
  · have hbuf := h.buf
    simp only [dataLen_append] at hbuf ⊢
    exact hbuf
  · have hq := h.queuelen
    rw [hs] at hq
    simp only [bufs_append] at hq ⊢
    exact hq
  · have hsm := hz.small
    rw [← List.append_assoc] at hsm ⊢
    refine List.forall_mem_append.mpr ⟨fun y hy => hsm y (List.mem_append_left _ hy), List.forall_mem_singleton.mpr ?_⟩
    exact hsm x (by simp)
  · intro v hv u hu
    rw [List.getLast?_concat, Option.mem_some_iff] at hv
    rw [← hv]
    exact hb x (by simp) u hu

/-- `tcp_send_fin` puts the end of the stream behind everything that was written. -/
theorem tcpSendFin (h : Sending base S s k a n us vs) (hfin : s.fin = false) (hz : Sized s (us ++ vs))
    (hb : Outgoing.Behind us vs) (room : Nat) : Finishes base S s k a n us vs (s.tcpSendFin room) := by
  unfold Snd.tcpSendFin
  rcases List.eq_nil_or_concat s.unsent with hnil | ⟨init, last, hs⟩
  · rw [hnil, List.getLast?_nil]
    exact h.finAlone hfin hz room
  rw [List.concat_eq_append] at hs
  have hlast : last.syn = false ∧ last.fin = false := by
    have hall := h.unsent
    rw [hs] at hall
    obtain ⟨vs, x, rfl, -, hx⟩ := forall₂_concat.mp hall
    exact ⟨hx.syn, hx.fin.trans (h.open_ hfin (by simp))⟩
  rw [hs, List.getLast?_concat, List.dropLast_concat]
  have hflags : ¬ (last.syn || last.fin) = true := by simp [hlast.1, hlast.2]
  simp only [if_neg hflags]
  exact h.finInLast hfin hz hb hs

end Sending

end Tunosocks.Lwip
