import Tunosocks.Tcp.Demux

/-! Accepting connections to any destination: the blocks that the listener of this repository creates are told apart
by their addresses, on which the session map relies. -/
namespace Tunosocks.Tcp
open Foundation Foundation.LinkedList

/-- The segment for which a block was last created. -/
def synOf (ts : List (Transition Stack DemuxAct DemuxEvent)) (pcb : Addr) : Option Incoming :=
  ts.reverse.findSome? fun t =>
    match t.act with
    | .input seg _ _ _ => if .created pcb ∈ t.out then some seg else none
    | .abandon _ => none

/-- Every connection has the addresses of its SYN and no other one has them, and segments with these
addresses get to its block. -/
structure Unambiguous (ts : List (Transition Stack DemuxAct DemuxEvent)) (s : Stack) : Prop where
  opened : ∀ pcb, s.listed pcb = true →
    ∃ syn, synOf ts pcb = some syn ∧ syn.syn = true ∧ (s.blocks pcb).key = syn.key
  unique : ∃ conns waits, Links s.next s.tcpActivePcbs conns ∧ Links s.next s.tcpTwPcbs waits ∧
    ((conns ++ waits).map fun pcb => (s.blocks pcb).key).Nodup
  demultiplexed : ∀ seg fate fresh refused pcb, seg.dropped = false → s.listed pcb = true →
    (s.blocks pcb).key = seg.key → ∃ s', s.tcpInput seg fate fresh refused =
      some (s', [if (s.blocks pcb).timeWait then .timeWaitInput pcb else .processed pcb])

/-- The invariant behind it, over the connections there are. -/
structure Distinct (ts : List (Transition Stack DemuxAct DemuxEvent)) (s : Stack) (l : List Addr) : Prop where
  keys : (l.map fun pcb => (s.blocks pcb).key).Nodup
  anyNetif : ∀ pcb ∈ l, (s.blocks pcb).netifIdx = 0
  opened : ∀ pcb ∈ l, ∃ syn, synOf ts pcb = some syn ∧ syn.syn = true ∧ (s.blocks pcb).key = syn.key

section Unambiguous
variable {s₀ s s' : Stack} {conns waits others l l' : List Addr} {lpcb npcb pcb : Addr} {seg : Incoming}
  {ts : List (Transition Stack DemuxAct DemuxEvent)} {t : Transition Stack DemuxAct DemuxEvent}

theorem synOf_silent (silent : .created pcb ∉ t.out) : synOf (ts ++ [t]) pcb = synOf ts pcb := by
  unfold synOf
  rw [List.reverse_concat, List.findSome?_cons]
  split
  · next seg found =>
    split at found
    · cases (if_neg silent).symm.trans found
    · cases found
  · rfl

theorem synOf_created {fate : Fate} {fresh : Option Addr} {refused : Bool}
    (input : t.act = .input seg fate fresh refused) (event : .created pcb ∈ t.out) :
    synOf (ts ++ [t]) pcb = some seg := by
  unfold synOf
  rw [List.reverse_concat, List.findSome?_cons, input]
  simp only [if_pos event]

/-- A block that is not bound to an interface is for the segments with its addresses. -/
theorem Stack.isFor_iff (anyNetif : (s.blocks pcb).netifIdx = 0) :
    s.isFor seg pcb = true ↔ (s.blocks pcb).key = seg.key := by
  simp only [isFor, anyNetif, Block.key, Incoming.key, beq_self_eq_true, Bool.true_or, Bool.true_and,
    Bool.and_eq_true, beq_iff_eq, FourTuple.mk.injEq]
  tauto

namespace Distinct

/-- Connections that go away or stay as they are. -/
theorem keep (distinct : Distinct ts s l) (kept : s.Keeps s' l l') (silent : ∀ pcb ∈ l', .created pcb ∉ t.out) :
    Distinct (ts ++ [t]) s' l' where
  keys := by
    rw [List.map_congr_left kept.key]
    obtain ⟨m, perm, sub⟩ := kept.sub
    exact (perm.map _).nodup_iff.mp (distinct.keys.sublist (sub.map _))
  anyNetif pcb mem := (kept.netifIdx pcb mem).trans (distinct.anyNetif pcb (kept.sub.subset mem))
  opened pcb mem := by
    rw [synOf_silent (silent pcb mem), kept.key pcb mem]
    exact distinct.opened pcb (kept.sub.subset mem)

/-- A new connection has addresses that none had. -/
theorem register {fate : Fate} {fresh : Option Addr} {refused : Bool} (distinct : Distinct ts s l)
    (input : t.act = .input seg fate fresh refused) (missed : ∀ pcb ∈ l, s.isFor seg pcb = false) (syn : seg.syn = true)
    (new : npcb ∉ l) (any : (s.blocks lpcb).netifIdx = 0) (event : .created npcb ∈ t.out)
    (only : ∀ pcb ∈ l, .created pcb ∉ t.out) :
    Distinct (ts ++ [t]) (s.register lpcb npcb seg) (npcb :: l) := by
  have self : ((s.register lpcb npcb seg).blocks npcb).key = seg.key ∧
      ((s.register lpcb npcb seg).blocks npcb).netifIdx = (s.blocks lpcb).netifIdx := by
    unfold Stack.register
    simp only [Function.update_self, and_true]
    rfl
  have old : ∀ pcb ∈ l, (s.register lpcb npcb seg).blocks pcb = s.blocks pcb :=
    fun pcb mem => Function.update_of_ne (ne_of_mem_of_not_mem mem new) _ _
  refine ⟨?_, ?_, ?_⟩
  · rw [List.map_cons, self.1, List.map_congr_left fun pcb mem => congrArg Block.key (old pcb mem)]
    refine List.nodup_cons.mpr ⟨fun again => ?_, distinct.keys⟩
    obtain ⟨pcb, mem, same⟩ := List.mem_map.mp again
    have hit := (Stack.isFor_iff (distinct.anyNetif pcb mem)).mpr same
    rw [missed pcb mem] at hit
    cases hit
  · rintro pcb (_ | ⟨_, mem⟩)
    · exact self.2.trans any
    · rw [old pcb mem]
      exact distinct.anyNetif pcb mem
  · rintro pcb (_ | ⟨_, mem⟩)
    · exact ⟨seg, synOf_created input event, syn, self.1⟩
    · rw [synOf_silent (only pcb mem), old pcb mem]
      exact distinct.opened pcb mem

end Distinct

private theorem distinct_step {act : DemuxAct} {out : List DemuxEvent} (distinct : Distinct ts s (conns ++ waits))
    (sound : s.Sound conns waits others) (head : s.tcpListenPcbs = some lpcb) (mem : lpcb ∈ others)
    (any : (s.blocks lpcb).netifIdx = 0) (step : (demuxMachine s₀).step s act = some (s', out)) :
    ∃ conns' waits', s'.Sound conns' waits' others ∧ s'.tcpListenPcbs = some lpcb ∧ (s'.blocks lpcb).netifIdx = 0 ∧
      Distinct (ts ++ [⟨s, act, out, s'⟩]) s' (conns' ++ waits') := by
  obtain ⟨conns', waits', sound', effect⟩ := demux_step sound head mem step
  have looped := (sound.selectListener head mem).2
  refine ⟨conns', waits', sound', ?_⟩
  cases effect with
  | quiet missed spared kept silent =>
    refine ⟨spared.listen.trans head, ?_, distinct.keep kept fun pcb _ => silent pcb⟩
    rw [spared.blocks lpcb mem, any]
  | heard reached spared kept silent =>
    rw [looped] at spared
    refine ⟨spared.listen.trans head, ?_, distinct.keep kept silent⟩
    rw [spared.blocks lpcb mem, any]
  | opened input reached spared syn new registered added event only =>
    rw [looped] at spared registered
    refine ⟨spared.listen.trans head, ?_, ?_⟩
    · rw [spared.blocks lpcb mem, any]
    · have selected : Distinct ts { s with next := Function.update s.next lpcb (some lpcb) } (conns ++ waits) :=
        ⟨distinct.keys, distinct.anyNetif, distinct.opened⟩
      subst input
      rw [added, registered]
      refine selected.register rfl (fun pcb listed => ?_) syn (sound.fresh new).1 any event only
      exact reached.2 pcb (sound.listed_iff.mpr listed)

/-- The connections of every run are told apart by their addresses. -/
theorem distinct_run (sound : s₀.Sound [] [] others) (head : s₀.tcpListenPcbs = some lpcb) (mem : lpcb ∈ others)
    (any : (s₀.blocks lpcb).netifIdx = 0) (run : (demuxMachine s₀).Run ts s) :
    ∃ conns waits, s.Sound conns waits others ∧ s.tcpListenPcbs = some lpcb ∧ (s.blocks lpcb).netifIdx = 0 ∧
      Distinct ts s (conns ++ waits) := by
  induction run with
  | init start =>
    cases start
    exact ⟨[], [], sound, head, any, .nil, nofun, nofun⟩
  | next run step ih =>
    obtain ⟨conns, waits, sound, head, any, distinct⟩ := ih
    exact distinct_step distinct sound head mem any step

theorem Distinct.demultiplexed {fate : Fate} {fresh : Option Addr} {refused : Bool}
    (distinct : Distinct ts s (conns ++ waits)) (sound : s.Sound conns waits others)
    (head : s.tcpListenPcbs = some lpcb) (passed : seg.dropped = false) (listed : pcb ∈ conns ++ waits)
    (own : (s.blocks pcb).key = seg.key) :
    ∃ s', s.tcpInput seg fate fresh refused =
      some (s', [if (s.blocks pcb).timeWait then .timeWaitInput pcb else .processed pcb]) := by
  -- whatever block the lookup finds has the same addresses, so it is this one
  have found : ∀ c ∈ conns ++ waits, s.isFor seg c = true → c = pcb := by
    intro c mem hit
    have same := (Stack.isFor_iff (distinct.anyNetif c mem)).mp hit
    exact List.inj_on_of_nodup_map distinct.keys mem listed (same.trans own.symm)
  rcases sound.tcpInput_cases head passed fate fresh refused with
    ⟨l, c, l', rfl, hit, eq⟩ | ⟨c, waiting, hit, eq⟩ | ⟨missed, _⟩
  · obtain rfl := found c (by simp) hit
    obtain ⟨s', _, _, settled, _⟩ := sound.cache.1.settle List.mem_cons_self fate
    exact ⟨s', by rw [eq, settled, sound.state c (by simp)]; rfl⟩
  · obtain rfl := found c (List.mem_append_right conns waiting) hit
    exact ⟨s, by rw [eq, sound.twState c waiting]; rfl⟩
  · have hit := (Stack.isFor_iff (distinct.anyNetif pcb listed)).mpr own
    rw [missed pcb listed] at hit
    cases hit

/-- With a listener for any destination, the addresses of a segment determine its connection. -/
theorem accept_unambiguous (sound : s₀.Sound [] [] others) (head : s₀.tcpListenPcbs = some lpcb) (mem : lpcb ∈ others)
    (any : (s₀.blocks lpcb).netifIdx = 0) (run : (demuxMachine s₀).Run ts s) : Unambiguous ts s := by
  obtain ⟨conns, waits, sound, head, _, distinct⟩ := distinct_run sound head mem any run
  refine ⟨fun pcb listed => ?_, ?_, fun seg fate fresh refused pcb passed listed own => ?_⟩
  · exact distinct.opened pcb (sound.listed_iff.mp listed)
  · exact ⟨conns, waits, sound.active, sound.tw, distinct.keys⟩
  · exact distinct.demultiplexed sound head passed (sound.listed_iff.mp listed) own

end Unambiguous

/-- Two connections to one server; the first is moved to the front and the second goes to TIME-WAIT. -/
theorem accept_unambiguous_web : ∃ ts s, (demuxMachine initStack).Run ts s ∧ s.tcpActivePcbs = some 1 ∧
    s.tcpTwPcbs = some 2 ∧ synOf ts 1 = some (webSegment 5000 80 true false) ∧ Unambiguous ts s := by
  obtain ⟨ts, s, run, h⟩ := Machine.Run.exists_of_exec (demuxMachine initStack) initStack
    [.input (webSegment 5000 80 true false) .kept (some 1) false,
      .input (webSegment 5001 443 true false) .kept (some 2) false,
      .input (webSegment 5000 80 false true) .kept none false,
      .input (webSegment 5001 443 false true) .timeWait none false]
    (fun ts s => decide (s.tcpActivePcbs = some 1 ∧ s.tcpTwPcbs = some 2 ∧
      synOf ts 1 = some (webSegment 5000 80 true false))) rfl (by decide +kernel)
  obtain ⟨active, tw, syn⟩ := of_decide_eq_true h
  exact ⟨ts, s, run, active, tw, syn, accept_unambiguous sound_initStack rfl List.mem_cons_self rfl run⟩

end Tunosocks.Tcp
