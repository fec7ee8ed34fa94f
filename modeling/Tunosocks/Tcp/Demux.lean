import Tunosocks.Foundation.LinkedList
import Tunosocks.Foundation.Machine
import Tunosocks.Tcp.SessionMap

/-! `tcp_input` up to the choice of the block a segment is for: the lists of active, TIME-WAIT and listening blocks,
with the listener selection of this repository, which takes the first listener for any destination. What
`tcp_process` decides about a block and whether memory is there are inputs. -/
namespace Tunosocks.Tcp
open Foundation Foundation.LinkedList

abbrev Addr := Nat

/-- The fields of a `tcp_pcb` the lookup reads, but for `next`. -/
structure Block where
  localIp : List UInt8
  remoteIp : List UInt8
  localPort : Nat
  remotePort : Nat
  netifIdx : Nat
  /-- `state == TIME_WAIT` -/
  timeWait : Bool
  deriving DecidableEq, Repr

def Block.key (b : Block) : FourTuple := ⟨b.localIp, b.remoteIp, b.localPort, b.remotePort⟩

structure Netif where
  index : Nat
  ip : List UInt8
  netmask : List UInt8
  /-- `NETIF_FLAG_BROADCAST` -/
  broadcast : Bool
  deriving DecidableEq, Repr

/-- A segment as the IP layer hands it over, with the lengths of its first two buffers. -/
structure Incoming where
  netif : Netif
  srcIp : List UInt8
  destIp : List UInt8
  src : Nat
  dest : Nat
  len : Nat
  totLen : Nat
  nextLen : Nat
  /-- `TCPH_HDRLEN_BYTES` -/
  hdrlen : Nat
  syn : Bool
  ack : Bool
  fin : Bool
  rst : Bool
  deriving DecidableEq, Repr

def tcpHlen : Nat := 20

def ip4AddrIsbroadcast (addr : List UInt8) (netif : Netif) : Bool :=
  if addr = [255, 255, 255, 255] ∨ addr = [0, 0, 0, 0] then true
  else if netif.broadcast = false then false
  else if addr = netif.ip then false
  else
    addr.zipWith (· &&& ·) netif.netmask == netif.ip.zipWith (· &&& ·) netif.netmask &&
      addr.zipWith (fun b m => b &&& ~~~m) netif.netmask == netif.netmask.map fun m => ~~~m

def ip4AddrIsmulticast (addr : List UInt8) : Bool := addr.head?.any fun b => b &&& 0xf0 == 0xe0

namespace Incoming

def key (seg : Incoming) : FourTuple := ⟨seg.destIp, seg.srcIp, seg.dest, seg.src⟩

/-- The checks of `tcp_input` before it looks for a block. -/
def dropped (seg : Incoming) : Bool :=
  decide (seg.len < tcpHlen) || ip4AddrIsbroadcast seg.destIp seg.netif || ip4AddrIsmulticast seg.destIp ||
    decide (seg.hdrlen < tcpHlen ∨ seg.totLen < seg.hdrlen) ||
    decide (seg.len < seg.hdrlen ∧ seg.nextLen < seg.hdrlen - seg.len) ||
    (seg.fin || seg.syn) && decide ((seg.totLen - seg.hdrlen + 1) % 65536 < seg.totLen - seg.hdrlen)

end Incoming

/-- lwIP's memory and the heads of its lists. -/
structure Stack where
  next : Addr → Option Addr
  blocks : Addr → Block
  allocated : List Addr
  tcpListenPcbs : Option Addr
  tcpBoundPcbs : Option Addr
  tcpActivePcbs : Option Addr
  tcpTwPcbs : Option Addr

/-- What `tcp_process` and the callbacks decide about the block of a segment. -/
inductive Fate where
  | kept
  | removed
  | timeWait
  deriving DecidableEq, Repr

inductive DemuxEvent where
  | dropped
  /-- The segment goes to `tcp_process`. -/
  | processed (pcb : Addr)
  | timeWaitInput (pcb : Addr)
  /-- The segment goes to `tcp_listen_input`. -/
  | listened (lpcb : Addr)
  | created (pcb : Addr)
  /-- The accept callback is called without a block. -/
  | acceptFailed
  | abandoned (pcb : Addr)
  | reset
  deriving DecidableEq, Repr

namespace Stack

/-- No list of distinct blocks takes more rounds than there are blocks. -/
def rounds (s : Stack) : Nat := s.allocated.length + 1

/-- The comparison in the lookup loops. -/
def isFor (s : Stack) (seg : Incoming) (pcb : Addr) : Bool :=
  ((s.blocks pcb).netifIdx == 0 || (s.blocks pcb).netifIdx == seg.netif.index) &&
    ((s.blocks pcb).remotePort == seg.src && (s.blocks pcb).localPort == seg.dest &&
      (s.blocks pcb).remoteIp == seg.srcIp && (s.blocks pcb).localIp == seg.destIp)

/-- `TCP_RMV` for one of the two lists of connections. -/
def tcpRmv (s : Stack) (pcb : Addr) : Option Stack :=
  if (s.blocks pcb).timeWait then
    (remove s.next s.tcpTwPcbs pcb s.rounds).map fun r => { s with next := r.1, tcpTwPcbs := r.2 }
  else (remove s.next s.tcpActivePcbs pcb s.rounds).map fun r => { s with next := r.1, tcpActivePcbs := r.2 }

/-- `tcp_pcb_remove` and `tcp_free` -/
def tcpPcbRemove (s : Stack) (pcb : Addr) : Option Stack :=
  (s.tcpRmv pcb).map fun s => { s with
    blocks := Function.update s.blocks pcb { s.blocks pcb with localPort := 0 }
    allocated := s.allocated.erase pcb }

/-- `TCP_RMV_ACTIVE` and `TCP_REG(&tcp_tw_pcbs, pcb)` -/
def enterTimeWait (s : Stack) (pcb : Addr) : Option Stack :=
  (s.tcpRmv pcb).map fun s => { s with
    blocks := Function.update s.blocks pcb { s.blocks pcb with timeWait := true }
    next := Function.update s.next pcb s.tcpTwPcbs
    tcpTwPcbs := some pcb }

def settle (s : Stack) (pcb : Addr) : Fate → Option Stack
  | .kept => some s
  | .removed => s.tcpPcbRemove pcb
  | .timeWait => s.enterTimeWait pcb

/-- The new block of `tcp_listen_input`, up to `TCP_REG_ACTIVE`. -/
def register (s : Stack) (lpcb npcb : Addr) (seg : Incoming) : Stack :=
  { s with
    allocated := npcb :: s.allocated
    blocks := Function.update s.blocks npcb {
      localIp := seg.destIp, remoteIp := seg.srcIp, localPort := seg.dest, remotePort := seg.src
      netifIdx := (s.blocks lpcb).netifIdx, timeWait := false }
    next := Function.update s.next npcb s.tcpActivePcbs
    tcpActivePcbs := some npcb }

/-- `fresh` is what `tcp_alloc` returns, `refused` whether the SYN|ACK cannot be queued. -/
def tcpListenInput (s : Stack) (lpcb : Addr) (seg : Incoming) (fresh : Option Addr) (refused : Bool) :
    Option (Stack × List DemuxEvent) :=
  if seg.rst then some (s, [])
  else if seg.ack then some (s, [.reset])
  else if seg.syn then
    match fresh with
    | none => some (s, [.acceptFailed])
    | some npcb =>
      if refused then
        ((s.register lpcb npcb seg).tcpPcbRemove npcb).map fun s => (s, [.created npcb, .abandoned npcb])
      else some (s.register lpcb npcb seg, [.created npcb])
  else some (s, [])

/-- The listener selection: the first listener is moved to the front, with itself for the one before it. -/
def selectListener (s : Stack) (lpcb : Addr) : Stack :=
  let r := moveToFront s.next s.tcpListenPcbs (some lpcb) lpcb
  { s with next := r.1, tcpListenPcbs := r.2 }

/-- The block a segment is for is moved to the front of the active ones; `prev` is the one before it. -/
def cache (s : Stack) (prev : Option Addr) (pcb : Addr) : Stack :=
  let r := moveToFront s.next s.tcpActivePcbs prev pcb
  { s with next := r.1, tcpActivePcbs := r.2 }

/-- There is no result if one of the loops does not end. -/
def tcpInput (s : Stack) (seg : Incoming) (fate : Fate) (fresh : Option Addr) (refused : Bool) :
    Option (Stack × List DemuxEvent) :=
  if seg.dropped then some (s, [.dropped])
  else
    match scan s.next (s.isFor seg) s.rounds none s.tcpActivePcbs with
    | none => none
    | some (prev, some pcb) => ((s.cache prev pcb).settle pcb fate).map fun s => (s, [.processed pcb])
    | some (_, none) =>
      match scan s.next (s.isFor seg) s.rounds none s.tcpTwPcbs with
      | none => none
      | some (_, some pcb) => some (s, [.timeWaitInput pcb])
      | some (_, none) =>
        match s.tcpListenPcbs with
        | none => some (s, if seg.rst then [] else [.reset])
        | some lpcb =>
          ((s.selectListener lpcb).tcpListenInput lpcb seg fresh refused).map fun r => (r.1, .listened lpcb :: r.2)

/-- Whether a block is on one of the two lists of connections. -/
def listed (s : Stack) (pcb : Addr) : Bool :=
  [s.tcpActivePcbs, s.tcpTwPcbs].any fun head =>
    (scan s.next (· == pcb) s.rounds none head).any fun found => found.2.isSome

end Stack

inductive DemuxAct where
  | input (seg : Incoming) (fate : Fate) (fresh : Option Addr) (refused : Bool)
  /-- `tcp_abandon`, by the application or to make room, a `tcp_close` that frees, the removals of the timers. -/
  | abandon (pcb : Addr)
  deriving DecidableEq, Repr

def demuxMachine (s₀ : Stack) : Machine Stack DemuxAct DemuxEvent where
  Init s := s = s₀
  step s
    | .input seg fate fresh refused =>
      if fresh.any fun npcb => s.allocated.contains npcb then none else s.tcpInput seg fate fresh refused
    | .abandon pcb => if s.listed pcb then (s.tcpPcbRemove pcb).map fun s => (s, [.abandoned pcb]) else none

namespace Stack

/-- The lists of connections are what they should be, and share no block with each other or with others in use. -/
structure Sound (s : Stack) (conns waits others : List Addr) : Prop where
  active : Links s.next s.tcpActivePcbs conns
  tw : Links s.next s.tcpTwPcbs waits
  apart : (conns ++ waits ++ others).Nodup
  inUse : ∀ pcb ∈ conns ++ waits ++ others, pcb ∈ s.allocated
  state : ∀ pcb ∈ conns, (s.blocks pcb).timeWait = false
  twState : ∀ pcb ∈ waits, (s.blocks pcb).timeWait = true

/-- Nothing happens to the listeners and the bound blocks. -/
structure Spares (s s' : Stack) (others : List Addr) : Prop where
  next : ∀ pcb ∈ others, s'.next pcb = s.next pcb
  blocks : ∀ pcb ∈ others, s'.blocks pcb = s.blocks pcb
  listen : s'.tcpListenPcbs = s.tcpListenPcbs
  bound : s'.tcpBoundPcbs = s.tcpBoundPcbs

/-- There are no new connections and those that stay keep their addresses. -/
structure Keeps (s s' : Stack) (l l' : List Addr) : Prop where
  sub : l'.Subperm l
  key : ∀ pcb ∈ l', (s'.blocks pcb).key = (s.blocks pcb).key
  netifIdx : ∀ pcb ∈ l', (s'.blocks pcb).netifIdx = (s.blocks pcb).netifIdx

variable {s s' s'' : Stack} {conns waits others l l' l'' : List Addr} {pcb lpcb npcb : Addr} {seg : Incoming}

theorem Spares.refl : s.Spares s others := ⟨fun _ _ => rfl, fun _ _ => rfl, rfl, rfl⟩

theorem Spares.trans (h : s.Spares s' others) (h' : s'.Spares s'' others) : s.Spares s'' others where
  next pcb mem := (h'.next pcb mem).trans (h.next pcb mem)
  blocks pcb mem := (h'.blocks pcb mem).trans (h.blocks pcb mem)
  listen := h'.listen.trans h.listen
  bound := h'.bound.trans h.bound

theorem Keeps.refl : s.Keeps s l l := ⟨.refl l, fun _ _ => rfl, fun _ _ => rfl⟩

theorem Keeps.trans (h : s.Keeps s' l l') (h' : s'.Keeps s'' l' l'') : s.Keeps s'' l l'' where
  sub := h'.sub.trans h.sub
  key pcb mem := (h'.key pcb mem).trans (h.key pcb (h'.sub.subset mem))
  netifIdx pcb mem := (h'.netifIdx pcb mem).trans (h.netifIdx pcb (h'.sub.subset mem))

private theorem blocks_update (s : Stack) {b : Block} (other : npcb ≠ pcb) :
    { s with blocks := Function.update s.blocks pcb b }.blocks npcb = s.blocks npcb :=
  Function.update_of_ne other _ _

namespace Sound

theorem short (sound : s.Sound conns waits others) : conns.length < s.rounds ∧ waits.length < s.rounds := by
  have sub : (conns ++ waits ++ others).Subperm s.allocated := List.subperm_of_subset sound.apart sound.inUse
  have length := sub.length_le
  rw [List.length_append, List.length_append] at length
  unfold rounds
  omega

/-- A block in use that is on neither list. -/
theorem absent (sound : s.Sound conns waits (pcb :: others)) :
    pcb ∉ conns ∧ pcb ∉ waits ∧ pcb ∉ others ∧ (conns ++ waits ++ others).Nodup := by
  obtain ⟨new, rest⟩ := List.nodup_cons.mp (List.nodup_middle.mp sound.apart)
  rw [List.mem_append, List.mem_append, not_or, not_or] at new
  exact ⟨new.1.1, new.1.2, new.2, rest⟩

/-- What is written into a block that is on neither list does not matter. -/
theorem setBlock (sound : s.Sound conns waits (pcb :: others)) (b : Block) :
    Sound { s with blocks := Function.update s.blocks pcb b } conns waits (pcb :: others) := by
  obtain ⟨notActive, notTw, _⟩ := sound.absent
  refine ⟨sound.active, sound.tw, sound.apart, sound.inUse, fun c mem => ?_, fun c mem => ?_⟩
  · rw [s.blocks_update (ne_of_mem_of_not_mem mem notActive)]
    exact sound.state c mem
  · rw [s.blocks_update (ne_of_mem_of_not_mem mem notTw)]
    exact sound.twState c mem

theorem free (sound : s.Sound conns waits (pcb :: others)) :
    Sound { s with allocated := s.allocated.erase pcb } conns waits others := by
  obtain ⟨notActive, notTw, notOther, rest⟩ := sound.absent
  refine ⟨sound.active, sound.tw, rest, fun c mem => ?_, sound.state, sound.twState⟩
  have other : c ≠ pcb := by
    rintro rfl
    simp [notActive, notTw, notOther] at mem
  refine (List.mem_erase_of_ne other).mpr (sound.inUse c ?_)
  rw [List.mem_append] at mem ⊢
  exact mem.imp_right (List.mem_cons_of_mem pcb)

theorem alloc (sound : s.Sound conns waits others) (new : pcb ∉ s.allocated) :
    Sound { s with allocated := pcb :: s.allocated } conns waits (pcb :: others) := by
  refine ⟨sound.active, sound.tw, List.nodup_middle.mpr (List.nodup_cons.mpr ⟨?_, sound.apart⟩), fun c mem => ?_,
    sound.state, sound.twState⟩
  · exact fun mem => new (sound.inUse pcb mem)
  · rcases List.mem_cons.mp (List.perm_middle.mem_iff.mp mem) with rfl | old
    · exact List.mem_cons_self
    · exact List.mem_cons_of_mem pcb (sound.inUse c old)

theorem pushActive (sound : s.Sound conns waits (pcb :: others)) (state : (s.blocks pcb).timeWait = false) :
    Sound { s with next := Function.update s.next pcb s.tcpActivePcbs, tcpActivePcbs := some pcb }
      (pcb :: conns) waits others := by
  obtain ⟨notActive, notTw, _⟩ := sound.absent
  refine ⟨sound.active.push notActive, sound.tw.update notTw _, List.nodup_middle.mp sound.apart, fun c mem => ?_,
    fun c mem => ?_, sound.twState⟩
  · exact sound.inUse c (List.perm_middle.mem_iff.mpr mem)
  · rcases List.mem_cons.mp mem with rfl | old
    · exact state
    · exact sound.state c old

theorem pushTw (sound : s.Sound conns waits (pcb :: others)) (state : (s.blocks pcb).timeWait = true) :
    Sound { s with next := Function.update s.next pcb s.tcpTwPcbs, tcpTwPcbs := some pcb }
      conns (pcb :: waits) others := by
  obtain ⟨notActive, notTw, _⟩ := sound.absent
  have moved : (conns ++ waits ++ pcb :: others).Perm (conns ++ pcb :: waits ++ others) := by
    refine List.perm_middle.trans ?_
    rw [List.append_assoc, List.append_assoc]
    exact List.perm_middle.symm
  refine ⟨sound.active.update notActive _, sound.tw.push notTw, moved.nodup_iff.mp sound.apart, fun c mem => ?_,
    sound.state, fun c mem => ?_⟩
  · exact sound.inUse c (moved.mem_iff.mpr mem)
  · rcases List.mem_cons.mp mem with rfl | old
    · exact state
    · exact sound.twState c old

theorem erase_append (sound : s.Sound conns waits others) :
    conns.erase pcb ++ waits.erase pcb = (conns ++ waits).erase pcb := by
  obtain ⟨_, _, disjoint⟩ := List.nodup_append.mp (List.nodup_append.mp sound.apart).1
  by_cases mem : pcb ∈ conns
  · rw [List.erase_append_left _ mem, List.erase_of_not_mem fun h => disjoint pcb mem pcb h rfl]
  · rw [List.erase_append_right _ mem, List.erase_of_not_mem mem]

theorem foreign (sound : s.Sound conns waits others) (mem : pcb ∈ others) : pcb ∉ conns ++ waits :=
  fun h => (List.nodup_append.mp sound.apart).2.2 pcb h pcb mem rfl

/-- A block is taken off its list and is on neither then. -/
theorem tcpRmv (sound : s.Sound conns waits others) (mem : pcb ∈ conns ++ waits) :
    ∃ s', s.tcpRmv pcb = some s' ∧ s'.Sound (conns.erase pcb) (waits.erase pcb) (pcb :: others) ∧
      s.Spares s' others ∧ s'.blocks = s.blocks := by
  obtain ⟨_, _, disjoint⟩ := List.nodup_append.mp (List.nodup_append.mp sound.apart).1
  have moved : (conns.erase pcb ++ waits.erase pcb ++ pcb :: others).Perm (conns ++ waits ++ others) := by
    rw [sound.erase_append]
    exact List.perm_middle.trans ((List.perm_cons_erase mem).symm.append_right others)
  have apart := moved.nodup_iff.mpr sound.apart
  have inUse := fun c h => sound.inUse c (moved.mem_iff.mp h)
  have state : ∀ c ∈ conns.erase pcb, (s.blocks c).timeWait = false :=
    fun c h => sound.state c (List.mem_of_mem_erase h)
  have twState : ∀ c ∈ waits.erase pcb, (s.blocks c).timeWait = true :=
    fun c h => sound.twState c (List.mem_of_mem_erase h)
  rcases List.mem_append.mp mem with inConns | inWaits
  · obtain ⟨next', head', removed, links, frame⟩ := sound.active.remove inConns sound.short.1
    refine ⟨{ s with next := next', tcpActivePcbs := head' }, ?_, ?_, ?_, rfl⟩
    · rw [Stack.tcpRmv, if_neg (by simp [sound.state pcb inConns]), removed]
      rfl
    · refine ⟨links, ?_, apart, inUse, state, twState⟩
      rw [List.erase_of_not_mem fun h => disjoint pcb inConns pcb h rfl]
      exact sound.tw.congr fun c h => frame c fun h' => disjoint c h' c h rfl
    · exact ⟨fun c h => frame c fun h' => sound.foreign h (List.mem_append_left _ h'), fun _ _ => rfl, rfl, rfl⟩
  · obtain ⟨next', head', removed, links, frame⟩ := sound.tw.remove inWaits sound.short.2
    refine ⟨{ s with next := next', tcpTwPcbs := head' }, ?_, ?_, ?_, rfl⟩
    · rw [Stack.tcpRmv, if_pos (sound.twState pcb inWaits), removed]
      rfl
    · refine ⟨?_, links, apart, inUse, state, twState⟩
      rw [List.erase_of_not_mem fun h => disjoint pcb h pcb inWaits rfl]
      exact sound.active.congr fun c h => frame c fun h' => disjoint c h c h' rfl
    · exact ⟨fun c h => frame c fun h' => sound.foreign h (List.mem_append_right _ h'), fun _ _ => rfl, rfl, rfl⟩

theorem not_mem_erase (sound : s.Sound conns waits others) : pcb ∉ conns.erase pcb ++ waits.erase pcb := by
  rw [sound.erase_append]
  exact (List.nodup_append.mp sound.apart).1.not_mem_erase

theorem tcpPcbRemove (sound : s.Sound conns waits others) (mem : pcb ∈ conns ++ waits) :
    ∃ s', s.tcpPcbRemove pcb = some s' ∧ s'.Sound (conns.erase pcb) (waits.erase pcb) others ∧
      s.Spares s' others ∧ s.Keeps s' (conns ++ waits) (conns.erase pcb ++ waits.erase pcb) := by
  obtain ⟨s', removed, off, spared, blocks⟩ := sound.tcpRmv mem
  have other : ∀ {c b}, c ≠ pcb → Function.update s'.blocks pcb b c = s.blocks c := by
    intro c b ne
    rw [Function.update_of_ne ne, blocks]
  refine ⟨_, by rw [Stack.tcpPcbRemove, removed]; rfl, (off.setBlock _).free, ?_, ?_⟩
  · refine ⟨spared.next, fun c h => other ?_, spared.listen, spared.bound⟩
    rintro rfl
    exact sound.foreign h mem
  · refine ⟨?_, fun c h => congrArg Block.key (other ?_), fun c h => congrArg Block.netifIdx (other ?_)⟩
    · rw [sound.erase_append]
      exact List.erase_sublist.subperm
    · exact ne_of_mem_of_not_mem h sound.not_mem_erase
    · exact ne_of_mem_of_not_mem h sound.not_mem_erase

theorem enterTimeWait (sound : s.Sound conns waits others) (mem : pcb ∈ conns) :
    ∃ s', s.enterTimeWait pcb = some s' ∧ s'.Sound (conns.erase pcb) (pcb :: waits.erase pcb) others ∧
      s.Spares s' others ∧ s.Keeps s' (conns ++ waits) (conns.erase pcb ++ pcb :: waits.erase pcb) := by
  have listed := List.mem_append_left waits mem
  obtain ⟨s', removed, off, spared, blocks⟩ := sound.tcpRmv listed
  have other : ∀ c ∈ others, c ≠ pcb := by
    rintro c h rfl
    exact sound.foreign h listed
  have same : ∀ {β} (f : Block → β), (∀ b, f { b with timeWait := true } = f b) →
      ∀ c, f (Function.update s'.blocks pcb { s'.blocks pcb with timeWait := true } c) = f (s.blocks c) := by
    intro β f unread c
    rw [← blocks]
    by_cases eq : c = pcb
    · rw [eq, Function.update_self, unread]
    · rw [Function.update_of_ne eq]
  refine ⟨_, by rw [Stack.enterTimeWait, removed]; rfl, (off.setBlock _).pushTw ?_, ?_, ?_⟩
  · change (Function.update s'.blocks pcb _ pcb).timeWait = true
    rw [Function.update_self]
  · refine ⟨fun c h => ?_, fun c h => ?_, spared.listen, spared.bound⟩
    · exact (Function.update_of_ne (other c h) _ _).trans (spared.next c h)
    · exact (Function.update_of_ne (other c h) _ _).trans (spared.blocks c h)
  · refine ⟨?_, fun c _ => same Block.key (fun _ => rfl) c, fun c _ => same Block.netifIdx (fun _ => rfl) c⟩
    refine List.perm_middle.subperm.trans ?_
    rw [sound.erase_append]
    exact (List.perm_cons_erase listed).symm.subperm

/-- What becomes of the block a segment was for. -/
theorem settle (sound : s.Sound conns waits others) (mem : pcb ∈ conns) (fate : Fate) :
    ∃ s' conns' waits', s.settle pcb fate = some s' ∧ s'.Sound conns' waits' others ∧
      s.Spares s' others ∧ s.Keeps s' (conns ++ waits) (conns' ++ waits') := by
  cases fate with
  | kept => exact ⟨s, conns, waits, rfl, sound, .refl, .refl⟩
  | removed =>
    obtain ⟨s', facts⟩ := sound.tcpPcbRemove (List.mem_append_left waits mem)
    exact ⟨s', _, _, facts⟩
  | timeWait =>
    obtain ⟨s', facts⟩ := sound.enterTimeWait mem
    exact ⟨s', _, _, facts⟩

theorem cache (sound : s.Sound (l ++ pcb :: l') waits others) :
    (s.cache l.getLast? pcb).Sound (pcb :: (l ++ pcb :: l').erase pcb) waits others ∧
      s.Spares (s.cache l.getLast? pcb) others ∧
      s.Keeps (s.cache l.getLast? pcb) (l ++ pcb :: l' ++ waits) (pcb :: (l ++ pcb :: l').erase pcb ++ waits) := by
  obtain ⟨_, _, disjoint⟩ := List.nodup_append.mp (List.nodup_append.mp sound.apart).1
  have moved : (pcb :: (l ++ pcb :: l').erase pcb).Perm (l ++ pcb :: l') := (List.perm_cons_erase (by simp)).symm
  have all := (moved.append_right waits).append_right others
  refine ⟨⟨sound.active.moveToFront, ?_, all.nodup_iff.mpr sound.apart, fun c h => ?_, fun c h => ?_, sound.twState⟩,
    ⟨fun c h => ?_, fun _ _ => rfl, rfl, rfl⟩, ⟨(moved.append_right waits).subperm, fun _ _ => rfl, fun _ _ => rfl⟩⟩
  · exact sound.tw.congr fun c h => moveToFront_frame fun h' => disjoint c h' c h rfl
  · exact sound.inUse c (all.mem_iff.mp h)
  · exact sound.state c (moved.mem_iff.mp h)
  · exact moveToFront_frame fun h' => sound.foreign h (List.mem_append_left waits h')

/-- The pointer of a listener does not matter to the connections. -/
theorem selectListener (sound : s.Sound conns waits others) (head : s.tcpListenPcbs = some lpcb)
    (mem : lpcb ∈ others) :
    (s.selectListener lpcb).Sound conns waits others ∧
      s.selectListener lpcb = { s with next := Function.update s.next lpcb (some lpcb) } := by
  have looped : s.selectListener lpcb = { s with next := Function.update s.next lpcb (some lpcb) } := by
    rw [Stack.selectListener, head, moveToFront_self, ← head]
  have absent := sound.foreign mem
  rw [List.mem_append, not_or] at absent
  rw [looped]
  exact ⟨⟨sound.active.update absent.1 _, sound.tw.update absent.2 _, sound.apart, sound.inUse, sound.state,
    sound.twState⟩, rfl⟩

theorem register (sound : s.Sound conns waits others) (lpcb : Addr) (seg : Incoming) (new : npcb ∉ s.allocated) :
    (s.register lpcb npcb seg).Sound (npcb :: conns) waits others := by
  refine ((sound.alloc new).setBlock _).pushActive ?_
  change (Function.update s.blocks npcb _ npcb).timeWait = false
  rw [Function.update_self]

theorem fresh (sound : s.Sound conns waits others) (new : npcb ∉ s.allocated) :
    npcb ∉ conns ++ waits ∧ npcb ∉ others := by
  rw [← not_or, ← List.mem_append]
  exact fun mem => new (sound.inUse npcb mem)

theorem spares_register (sound : s.Sound conns waits others) (lpcb : Addr) (seg : Incoming)
    (new : npcb ∉ s.allocated) : s.Spares (s.register lpcb npcb seg) others := by
  have other : ∀ c ∈ others, c ≠ npcb := fun c h => ne_of_mem_of_not_mem h (sound.fresh new).2
  exact ⟨fun c h => Function.update_of_ne (other c h) _ _, fun c h => Function.update_of_ne (other c h) _ _, rfl, rfl⟩

/-- Whether a block is on one of the lists can be found out. -/
theorem listed_iff (sound : s.Sound conns waits others) : s.listed pcb = true ↔ pcb ∈ conns ++ waits := by
  have found : ∀ {head nodes}, Links s.next head nodes → nodes.length < s.rounds →
      (((scan s.next (· == pcb) s.rounds none head).any fun found => found.2.isSome) = true ↔ pcb ∈ nodes) := by
    intro head nodes links enough
    rcases scan_cases links (· == pcb) enough with ⟨before, a, after, rfl, hit, _, eq⟩ | ⟨missed, last, eq⟩
    · obtain rfl : a = pcb := by simpa using hit
      simp [eq]
    · rw [eq]
      refine iff_of_false (by simp) fun mem => ?_
      simpa using missed pcb mem
  rw [Stack.listed, List.any_cons, List.any_cons, List.any_nil, Bool.or_false, Bool.or_eq_true,
    found sound.active sound.short.1, found sound.tw sound.short.2, List.mem_append]

/-- A segment for the listeners opens a connection or leaves those there are alone. -/
theorem tcpListenInput {fresh : Option Addr} (sound : s.Sound conns waits others)
    (new : ∀ npcb ∈ fresh, npcb ∉ s.allocated) (refused : Bool) :
    ∃ s' out conns', s.tcpListenInput lpcb seg fresh refused = some (s', out) ∧ s'.Sound conns' waits others ∧
      s.Spares s' others ∧
      (s.Keeps s' (conns ++ waits) (conns' ++ waits) ∧ (∀ pcb ∈ conns' ++ waits, .created pcb ∉ out) ∨
        ∃ npcb, npcb ∉ s.allocated ∧ seg.syn = true ∧ s' = s.register lpcb npcb seg ∧ conns' = npcb :: conns ∧
          out = [.created npcb]) := by
  unfold Stack.tcpListenInput
  split
  · exact ⟨s, [], conns, rfl, sound, .refl, .inl ⟨.refl, nofun⟩⟩
  split
  · exact ⟨s, [.reset], conns, rfl, sound, .refl, .inl ⟨.refl, by simp⟩⟩
  split
  · next syn =>
    cases fresh with
    | none => exact ⟨s, [.acceptFailed], conns, rfl, sound, .refl, .inl ⟨.refl, by simp⟩⟩
    | some npcb =>
      have unused := new npcb rfl
      have registered := sound.register lpcb seg unused
      have spared := sound.spares_register lpcb seg unused
      cases refused with
      | false => exact ⟨_, _, _, rfl, registered, spared, .inr ⟨npcb, unused, syn, rfl, rfl, rfl⟩⟩
      | true =>
        obtain ⟨s', removed, rest, spared', kept⟩ := registered.tcpPcbRemove List.mem_cons_self
        have absent := (sound.fresh unused).1
        have same : ∀ c ∈ conns ++ waits, (s.register lpcb npcb seg).blocks c = s.blocks c :=
          fun c h => Function.update_of_ne (ne_of_mem_of_not_mem h absent) _ _
        rw [List.erase_cons_head, List.erase_of_not_mem fun h => absent (List.mem_append_right conns h)] at rest kept
        refine ⟨s', [.created npcb, .abandoned npcb], conns, ?_, rest, spared.trans spared', .inl ⟨?_, ?_⟩⟩
        · change Option.map _ ((s.register lpcb npcb seg).tcpPcbRemove npcb) = _
          rw [removed]
          rfl
        · refine ⟨.refl _, fun c h => ?_, fun c h => ?_⟩
          · rw [kept.key c h, same c h]
          · rw [kept.netifIdx c h, same c h]
        · intro c h
          simpa using ne_of_mem_of_not_mem h absent
  · exact ⟨s, [], conns, rfl, sound, .refl, .inl ⟨.refl, nofun⟩⟩

/-- A segment that is not dropped goes to the first active block it is for, else to such a block in TIME-WAIT, else
to the first listener. -/
theorem tcpInput_cases (sound : s.Sound conns waits others) (head : s.tcpListenPcbs = some lpcb)
    (passed : seg.dropped = false) (fate : Fate) (fresh : Option Addr) (refused : Bool) :
    (∃ l pcb l', conns = l ++ pcb :: l' ∧ s.isFor seg pcb = true ∧
      s.tcpInput seg fate fresh refused =
        ((s.cache l.getLast? pcb).settle pcb fate).map fun s => (s, [.processed pcb])) ∨
    (∃ pcb ∈ waits, s.isFor seg pcb = true ∧
      s.tcpInput seg fate fresh refused = some (s, [.timeWaitInput pcb])) ∨
    ((∀ pcb ∈ conns ++ waits, s.isFor seg pcb = false) ∧
      s.tcpInput seg fate fresh refused =
        ((s.selectListener lpcb).tcpListenInput lpcb seg fresh refused).map fun r =>
          (r.1, .listened lpcb :: r.2)) := by
  unfold Stack.tcpInput
  rw [if_neg (by simp [passed])]
  rcases scan_cases sound.active (s.isFor seg) sound.short.1 with ⟨l, pcb, l', rfl, hit, _, found⟩ | ⟨missed, _, ended⟩
  · refine .inl ⟨l, pcb, l', rfl, hit, ?_⟩
    rw [found]
  rcases scan_cases sound.tw (s.isFor seg) sound.short.2 with ⟨l, pcb, l', rfl, hit, _, found⟩ | ⟨missed', _, ended'⟩
  · refine .inr (.inl ⟨pcb, by simp, hit, ?_⟩)
    rw [ended, found]
  · refine .inr (.inr ⟨fun c h => (List.mem_append.mp h).elim (missed c) (missed' c), ?_⟩)
    rw [ended, ended', head]

end Sound

/-- A segment passes the checks, and no block of a connection is for it. -/
def Unclaimed (s : Stack) (seg : Incoming) : Prop :=
  seg.dropped = false ∧ ∀ pcb, s.listed pcb = true → s.isFor seg pcb = false

end Stack

def DemuxAct.ReachesListeners (s : Stack) : DemuxAct → Prop
  | .input seg _ _ _ => s.Unclaimed seg
  | .abandon _ => False

/-- What a step can do to the blocks of the connections and to the others. -/
inductive Effect (s : Stack) (lpcb : Addr) (l others : List Addr) (act : DemuxAct) (out : List DemuxEvent) (s' : Stack)
    (l' : List Addr) : Prop where
  | quiet (missed : ¬ act.ReachesListeners s) (spared : s.Spares s' others) (kept : s.Keeps s' l l')
      (silent : ∀ pcb, .created pcb ∉ out)
  | heard (reached : act.ReachesListeners s) (spared : (s.selectListener lpcb).Spares s' others)
      (kept : s.Keeps s' l l') (silent : ∀ pcb ∈ l', .created pcb ∉ out)
  | opened {seg : Incoming} {fate : Fate} {fresh : Option Addr} {refused : Bool} {npcb : Addr}
      (input : act = .input seg fate fresh refused) (reached : act.ReachesListeners s)
      (spared : (s.selectListener lpcb).Spares s' others) (syn : seg.syn = true) (new : npcb ∉ s.allocated)
      (registered : s' = (s.selectListener lpcb).register lpcb npcb seg) (added : l' = npcb :: l)
      (event : .created npcb ∈ out) (only : ∀ pcb ∈ l, .created pcb ∉ out)

section Step
variable {s₀ s s' : Stack} {conns waits others : List Addr} {lpcb : Addr} {act : DemuxAct} {out : List DemuxEvent}

private theorem input_step (sound : s.Sound conns waits others) (head : s.tcpListenPcbs = some lpcb)
    (mem : lpcb ∈ others) {seg : Incoming} {fate : Fate} {fresh : Option Addr} {refused : Bool}
    (new : ∀ npcb ∈ fresh, npcb ∉ s.allocated) (h : s.tcpInput seg fate fresh refused = some (s', out)) :
    ∃ conns' waits', s'.Sound conns' waits' others ∧
      Effect s lpcb (conns ++ waits) others (.input seg fate fresh refused) out s' (conns' ++ waits') := by
  by_cases passed : seg.dropped = true
  · rw [Stack.tcpInput, if_pos passed] at h
    cases h
    exact ⟨conns, waits, sound, .quiet (by simp [DemuxAct.ReachesListeners, Stack.Unclaimed, passed]) .refl .refl
      (by simp)⟩
  rw [Bool.not_eq_true] at passed
  have claimed : ∀ {pcb}, pcb ∈ conns ++ waits → s.isFor seg pcb = true →
      ¬ (DemuxAct.input seg fate fresh refused).ReachesListeners s := by
    intro pcb listed hit reached
    rw [reached.2 pcb (sound.listed_iff.mpr listed)] at hit
    cases hit
  rcases sound.tcpInput_cases head passed fate fresh refused with
    ⟨l, pcb, l', rfl, hit, eq⟩ | ⟨pcb, waiting, hit, eq⟩ | ⟨missed, eq⟩
  · obtain ⟨front, spared, kept⟩ := sound.cache
    obtain ⟨s'', conns', waits', settled, sound', spared', kept'⟩ := front.settle List.mem_cons_self fate
    rw [eq, settled] at h
    cases h
    exact ⟨conns', waits', sound', .quiet (claimed (by simp) hit) (spared.trans spared') (kept.trans kept') (by simp)⟩
  · rw [eq] at h
    cases h
    exact ⟨conns, waits, sound, .quiet (claimed (List.mem_append_right conns waiting) hit) .refl .refl (by simp)⟩
  · obtain ⟨selected, looped⟩ := sound.selectListener head mem
    have reached : (DemuxAct.input seg fate fresh refused).ReachesListeners s :=
      ⟨passed, fun pcb listed => missed pcb (sound.listed_iff.mp listed)⟩
    have fresh' : ∀ npcb ∈ fresh, npcb ∉ (s.selectListener lpcb).allocated := by
      rw [looped]
      exact new
    obtain ⟨s'', out', conns', result, sound', spared, effect⟩ := selected.tcpListenInput fresh' refused
    rw [eq, result] at h
    cases h
    refine ⟨conns', waits, sound', ?_⟩
    rcases effect with ⟨kept, silent⟩ | ⟨npcb, unused, syn, registered, rfl, rfl⟩
    · refine .heard reached spared ?_ (by simpa using silent)
      rw [looped] at kept
      exact ⟨kept.sub, kept.key, kept.netifIdx⟩
    · rw [looped] at unused
      refine .opened rfl reached spared syn unused registered rfl (by simp) fun pcb listed => ?_
      simpa using ne_of_mem_of_not_mem listed (sound.fresh unused).1

/-- Every step keeps the lists of connections sound. -/
theorem demux_step (sound : s.Sound conns waits others) (head : s.tcpListenPcbs = some lpcb) (mem : lpcb ∈ others)
    (h : (demuxMachine s₀).step s act = some (s', out)) :
    ∃ conns' waits', s'.Sound conns' waits' others ∧
      Effect s lpcb (conns ++ waits) others act out s' (conns' ++ waits') := by
  cases act with
  | input seg fate fresh refused =>
    obtain ⟨new, h⟩ := Option.ite_none_left_eq_some.mp h
    refine input_step sound head mem ?_ h
    rintro npcb rfl
    simpa using new
  | abandon pcb =>
    obtain ⟨listed, h⟩ := Option.ite_none_right_eq_some.mp h
    obtain ⟨s'', removed, sound', spared, kept⟩ := sound.tcpPcbRemove (sound.listed_iff.mp listed)
    rw [removed] at h
    cases h
    exact ⟨_, _, sound', .quiet not_false spared kept (by simp)⟩

end Step

/-- The lists as `LwipHelper::Init` leaves them: one listener, for any address and port 443. -/
def initStack : Stack where
  next _ := none
  blocks _ := ⟨[0, 0, 0, 0], [0, 0, 0, 0], 443, 0, 0, false⟩
  allocated := [0]
  tcpListenPcbs := some 0
  tcpBoundPcbs := none
  tcpActivePcbs := none
  tcpTwPcbs := none

/-- The interface of `LwipHelper::Init`. -/
def tun64 : Netif := ⟨1, [10, 2, 0, 1], [255, 255, 255, 255], false⟩

theorem sound_initStack : initStack.Sound [] [] [0] :=
  ⟨rfl, rfl, List.nodup_singleton 0, fun _ mem => mem, nofun, nofun⟩

/-- A bare segment from the local peer to a web server. -/
def webSegment (src dest : Nat) (syn ack : Bool) : Incoming where
  netif := tun64
  srcIp := [10, 2, 0, 1]
  destIp := [93, 184, 216, 34]
  src := src
  dest := dest
  len := 20
  totLen := 20
  nextLen := 0
  hdrlen := 20
  syn := syn
  ack := ack
  fin := false
  rst := false

end Tunosocks.Tcp
