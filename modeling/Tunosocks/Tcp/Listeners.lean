import Tunosocks.Tcp.Demux

/-! The listeners under traffic: the searches of `tcp_bind` and `tcp_netif_ip_addr_changed` over lwIP's lists, and what
the listener selection of this repository leaves of the list of listeners. -/
namespace Tunosocks.Tcp
open Foundation Foundation.LinkedList

def tcpLocalPortRangeStart : Nat := 0xc000
def tcpLocalPortRangeEnd : Nat := 0xffff

def ipAddrIsany (addr : List UInt8) : Bool := addr == [0, 0, 0, 0]

inductive BindResult where
  | bound (port : Nat)
  | errUse
  | errBuf
  deriving DecidableEq, Repr

namespace Stack

def tcpPcbLists (s : Stack) : List (Option Addr) :=
  [s.tcpListenPcbs, s.tcpBoundPcbs, s.tcpActivePcbs, s.tcpTwPcbs]

/-- Whether a block on one of some lists passes a test, if the loops end within the given number of rounds. -/
def anyBlock (s : Stack) (test : Block → Bool) (rounds : Nat) : List (Option Addr) → Option Bool
  | [] => some false
  | head :: heads =>
    match scan s.next (fun pcb => test (s.blocks pcb)) rounds none head with
    | none => none
    | some (_, some _) => some true
    | some (_, none) => s.anyBlock test rounds heads

/-- The first argument is how many ports may still turn out to be in use. -/
def tcpNewPort (s : Stack) (rounds : Nat) : Nat → Nat → Option Nat
  | 0, _ => some 0
  | tries + 1, tcpPort =>
    let port := if tcpPort + 1 = tcpLocalPortRangeEnd then tcpLocalPortRangeStart else tcpPort + 1
    match s.anyBlock (fun cpcb => cpcb.localPort == port) rounds s.tcpPcbLists with
    | none => none
    | some true => s.tcpNewPort rounds tries port
    | some false => some port

/-- The port `tcp_bind` gives a block, if the loops end within the given number of rounds. -/
def tcpBind (s : Stack) (tcpPort : Nat) (ipaddr : List UInt8) (port rounds : Nat) : Option BindResult :=
  if port = 0 then
    (s.tcpNewPort rounds (tcpLocalPortRangeEnd - tcpLocalPortRangeStart + 1) tcpPort).map fun port =>
      if port = 0 then .errBuf else .bound port
  else
    (s.anyBlock (fun cpcb => cpcb.localPort == port &&
      (ipAddrIsany cpcb.localIp || ipAddrIsany ipaddr || cpcb.localIp == ipaddr)) rounds s.tcpPcbLists).map fun used =>
        if used then .errUse else .bound port

/-- What `tcp_netif_ip_addr_changed` does to the listeners. -/
def relocateListeners (s : Stack) (oldAddr newAddr : List UInt8) (rounds : Nat) : Option Stack :=
  if ipAddrIsany oldAddr || ipAddrIsany newAddr then some s
  else
    (walk s.next (fun lpcb blocks =>
      if (blocks lpcb).localIp = oldAddr then Function.update blocks lpcb { blocks lpcb with localIp := newAddr }
      else blocks) rounds s.tcpListenPcbs s.blocks).map fun blocks => { s with blocks }

end Stack

/-- The listeners are those there should be, on a list that ends, and so do the loops over it. -/
structure ListenersIntact (s : Stack) (listeners : List Addr) : Prop where
  list : ∃ l, Links s.next s.tcpListenPcbs l ∧ l.Perm listeners
  bind : ∀ tcpPort ipaddr port, ∃ rounds result, s.tcpBind tcpPort ipaddr port rounds = some result
  relocate : ∀ oldAddr newAddr, ∃ rounds s', s.relocateListeners oldAddr newAddr rounds = some s'

section Intact
variable {s : Stack} {rounds : Nat} {heads : List (Option Addr)}

theorem Stack.anyBlock_ends (test : Block → Bool)
    (lists : ∀ head ∈ heads, ∃ l, Links s.next head l ∧ l.length < rounds) :
    ∃ used, s.anyBlock test rounds heads = some used := by
  induction heads with
  | nil => exact ⟨false, rfl⟩
  | cons head heads ih =>
    obtain ⟨l, links, enough⟩ := lists head List.mem_cons_self
    rw [anyBlock]
    rcases scan_cases links (fun pcb => test (s.blocks pcb)) enough with ⟨_, _, _, _, _, _, found⟩ | ⟨_, _, missed⟩
    · exact ⟨true, by rw [found]⟩
    · rw [missed]
      exact ih fun head mem => lists head (List.mem_cons_of_mem _ mem)

theorem Stack.tcpNewPort_ends (lists : ∀ head ∈ s.tcpPcbLists, ∃ l, Links s.next head l ∧ l.length < rounds)
    (tries tcpPort : Nat) : ∃ port, s.tcpNewPort rounds tries tcpPort = some port := by
  induction tries generalizing tcpPort with
  | zero => exact ⟨0, rfl⟩
  | succ tries ih =>
    rw [tcpNewPort]
    obtain ⟨used, eq⟩ := s.anyBlock_ends (fun cpcb => cpcb.localPort ==
      if tcpPort + 1 = tcpLocalPortRangeEnd then tcpLocalPortRangeStart else tcpPort + 1) lists
    simp only [eq]
    cases used with
    | false => exact ⟨_, rfl⟩
    | true => exact ih _

/-- Lists that end are enough. -/
theorem ListenersIntact.of_links {conns waits listeners bounds : List Addr}
    (sound : s.Sound conns waits (listeners ++ bounds)) (listen : Links s.next s.tcpListenPcbs listeners)
    (bound : Links s.next s.tcpBoundPcbs bounds) : ListenersIntact s listeners := by
  have length := (List.subperm_of_subset sound.apart sound.inUse).length_le
  simp only [List.length_append] at length
  have enough : listeners.length < s.rounds ∧ bounds.length < s.rounds := by
    unfold Stack.rounds
    omega
  have lists : ∀ head ∈ s.tcpPcbLists, ∃ l, Links s.next head l ∧ l.length < s.rounds := by
    intro head mem
    simp only [Stack.tcpPcbLists, List.mem_cons, List.not_mem_nil, or_false] at mem
    rcases mem with rfl | rfl | rfl | rfl
    · exact ⟨listeners, listen, enough.1⟩
    · exact ⟨bounds, bound, enough.2⟩
    · exact ⟨conns, sound.active, sound.short.1⟩
    · exact ⟨waits, sound.tw, sound.short.2⟩
  refine ⟨⟨listeners, listen, .refl _⟩, fun tcpPort ipaddr port => ⟨s.rounds, ?_⟩, fun old new => ⟨s.rounds, ?_⟩⟩
  · unfold Stack.tcpBind
    split
    · obtain ⟨port, eq⟩ := Stack.tcpNewPort_ends lists (tcpLocalPortRangeEnd - tcpLocalPortRangeStart + 1) tcpPort
      exact ⟨_, by rw [eq]; rfl⟩
    · obtain ⟨used, eq⟩ := s.anyBlock_ends (fun cpcb => cpcb.localPort == port &&
        (ipAddrIsany cpcb.localIp || ipAddrIsany ipaddr || cpcb.localIp == ipaddr)) lists
      exact ⟨_, by rw [eq]; rfl⟩
  · unfold Stack.relocateListeners
    split
    · exact ⟨s, rfl⟩
    · exact ⟨_, by rw [walk_links listen _ enough.1]; rfl⟩

end Intact

section Run
variable {s₀ s : Stack} {ts : List (Transition Stack DemuxAct DemuxEvent)} {conns waits listeners bounds : List Addr}
  {lpcb : Addr}

/-- What is left of the listeners after a run. -/
inductive Listening (ts : List (Transition Stack DemuxAct DemuxEvent)) (s : Stack) (lpcb : Addr)
    (listeners bounds : List Addr) : Prop where
  | intact (spared : ∀ t ∈ ts, ¬ t.act.ReachesListeners t.pre) (listen : Links s.next s.tcpListenPcbs listeners)
      (bound : Links s.next s.tcpBoundPcbs bounds)
  | looped (reached : ∃ t ∈ ts, t.act.ReachesListeners t.pre) (loop : s.next lpcb = some lpcb)

private theorem listening_step {s' : Stack} {act : DemuxAct} {out : List DemuxEvent}
    (listening : Listening ts s lpcb listeners bounds) (sound : s.Sound conns waits (listeners ++ bounds))
    (head : s.tcpListenPcbs = some lpcb) (mem : lpcb ∈ listeners ++ bounds)
    (step : (demuxMachine s₀).step s act = some (s', out)) :
    ∃ conns' waits', s'.Sound conns' waits' (listeners ++ bounds) ∧ s'.tcpListenPcbs = some lpcb ∧
      Listening (ts ++ [⟨s, act, out, s'⟩]) s' lpcb listeners bounds := by
  obtain ⟨conns', waits', sound', effect⟩ := demux_step sound head mem step
  have selected := (sound.selectListener head mem).2
  -- once a segment gets to the listeners, the first one points to itself, whatever else happens
  have hit : act.ReachesListeners s → (s.selectListener lpcb).Spares s' (listeners ++ bounds) →
      s'.tcpListenPcbs = some lpcb ∧ Listening (ts ++ [⟨s, act, out, s'⟩]) s' lpcb listeners bounds := by
    intro reached spared
    rw [selected] at spared
    refine ⟨spared.listen.trans head, .looped ⟨⟨s, act, out, s'⟩, by simp, reached⟩ ?_⟩
    exact (spared.next lpcb mem).trans (Function.update_self ..)
  refine ⟨conns', waits', sound', ?_⟩
  cases effect with
  | heard reached spared => exact hit reached spared
  | opened _ reached spared => exact hit reached spared
  | quiet missed spared =>
    refine ⟨spared.listen.trans head, ?_⟩
    cases listening with
    | intact before listen bound =>
      refine .intact (List.forall_mem_append.mpr ⟨before, by simpa using missed⟩) ?_ ?_
      · rw [spared.listen]
        exact listen.congr fun pcb h => spared.next pcb (List.mem_append_left bounds h)
      · rw [spared.bound]
        exact bound.congr fun pcb h => spared.next pcb (List.mem_append_right listeners h)
    | looped reached loop =>
      obtain ⟨t, before, reaches⟩ := reached
      exact .looped ⟨t, List.mem_append_left _ before, reaches⟩ ((spared.next lpcb mem).trans loop)

theorem listening_run (sound : s₀.Sound conns waits (listeners ++ bounds)) (head : s₀.tcpListenPcbs = some lpcb)
    (mem : lpcb ∈ listeners) (listen : Links s₀.next s₀.tcpListenPcbs listeners)
    (bound : Links s₀.next s₀.tcpBoundPcbs bounds) (run : (demuxMachine s₀).Run ts s) :
    ∃ conns waits, s.Sound conns waits (listeners ++ bounds) ∧ s.tcpListenPcbs = some lpcb ∧
      Listening ts s lpcb listeners bounds := by
  induction run with
  | init start =>
    cases start
    exact ⟨conns, waits, sound, head, .intact (List.forall_mem_nil _) listen bound⟩
  | next run step ih =>
    obtain ⟨conns, waits, sound, head, listening⟩ := ih
    exact listening_step listening sound head (List.mem_append_left bounds mem) step

/-- After any traffic the listeners are intact exactly when no segment has got as far as to them: each was dropped by
the checks of `tcp_input` or was for the block of a connection. -/
theorem listeners_intact_iff (sound : s₀.Sound conns waits (listeners ++ bounds))
    (listen : Links s₀.next s₀.tcpListenPcbs listeners) (bound : Links s₀.next s₀.tcpBoundPcbs bounds)
    (nonempty : listeners ≠ []) (run : (demuxMachine s₀).Run ts s) :
    ListenersIntact s listeners ↔ ∀ t ∈ ts, ¬ t.act.ReachesListeners t.pre := by
  obtain ⟨lpcb, rest, rfl⟩ := List.exists_cons_of_ne_nil nonempty
  obtain ⟨conns', waits', sound', head, listening⟩ :=
    listening_run sound listen.1 List.mem_cons_self listen bound run
  cases listening with
  | intact spared listen bound => exact iff_of_true (.of_links sound' listen bound) spared
  | looped reached loop =>
    refine iff_of_false (fun intact => ?_) fun spared => ?_
    · obtain ⟨l, links, _⟩ := intact.list
      rw [head] at links
      exact not_links_of_loop loop links
    · obtain ⟨t, mem, reaches⟩ := reached
      exact spared t mem reaches

end Run

/-- A segment to the broadcast address is dropped. -/
theorem listeners_intact_iff_broadcast :
    ∃ ts s, (demuxMachine initStack).Run ts s ∧ ts ≠ [] ∧ ListenersIntact s [0] := by
  have run : (demuxMachine initStack).Run _ initStack := .next (.init rfl)
    (show (demuxMachine initStack).step initStack
      (.input { webSegment 5000 80 true false with destIp := [255, 255, 255, 255] } .kept (some 1) false) =
        some (initStack, [.dropped]) from rfl)
  have listen : Links initStack.next initStack.tcpListenPcbs [0] := ⟨rfl, rfl⟩
  have bound : Links initStack.next initStack.tcpBoundPcbs [] := rfl
  refine ⟨_, _, run, by simp, (listeners_intact_iff sound_initStack listen bound (by simp) run).mpr ?_⟩
  simp [DemuxAct.ReachesListeners, Stack.Unclaimed, Incoming.dropped, ip4AddrIsbroadcast]

/-- The first SYN makes the only listener point to itself, and another `tcp_bind` or a new address of the interface
would not return. -/
theorem first_syn_loops : ∃ ts s, (demuxMachine initStack).Run ts s ∧
    ts.map Transition.act = [.input (webSegment 5000 80 true false) .kept (some 1) false] ∧
    s.tcpListenPcbs = some 0 ∧ s.next 0 = some 0 ∧
    (∀ rounds, s.tcpBind 0xc000 [0, 0, 0, 0] 80 rounds = none) ∧
    (∀ rounds, s.relocateListeners [10, 2, 0, 1] [10, 2, 0, 2] rounds = none) ∧ ¬ ListenersIntact s [0] := by
  obtain ⟨ts, s, run, h⟩ := Machine.Run.exists_of_exec (demuxMachine initStack) initStack
    [.input (webSegment 5000 80 true false) .kept (some 1) false]
    (fun ts s => decide (ts.map Transition.act = [.input (webSegment 5000 80 true false) .kept (some 1) false] ∧
      s.tcpListenPcbs = some 0 ∧ s.next 0 = some 0 ∧ (s.blocks 0).localPort = 443)) rfl (by decide +kernel)
  obtain ⟨acts, head, loop, port⟩ := of_decide_eq_true h
  have binds : ∀ rounds, s.tcpBind 0xc000 [0, 0, 0, 0] 80 rounds = none := by
    intro rounds
    rw [Stack.tcpBind, if_neg (by decide), Stack.tcpPcbLists, Stack.anyBlock, head, scan_loop loop (by simp [port])]
    rfl
  refine ⟨ts, s, run, acts, head, loop, binds, fun rounds => ?_, fun intact => ?_⟩
  · rw [Stack.relocateListeners, if_neg (by decide), head, walk_loop loop]
    rfl
  · obtain ⟨rounds, result, ends⟩ := intact.bind 0xc000 [0, 0, 0, 0] 80
    rw [binds rounds] at ends
    cases ends

end Tunosocks.Tcp
