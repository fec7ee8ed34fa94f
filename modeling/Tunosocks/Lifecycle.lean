import Tunosocks.Tcp.Listeners

/-! `tunosocks_start` and `tunosocks_stop` on lwIP's global lists, with any traffic between the calls: what
`lwip_init`, `netif_add` and `LwipHelper::Init` add to the lists, which nothing takes off again. What the allocator
and the tun device answer are inputs. -/
namespace Tunosocks.Lifecycle
open Foundation Foundation.LinkedList Tcp

private theorem bind_ok {ε β γ : Type} {x : Except ε β} {f : β → Except ε γ} {c : γ} :
    (x >>= f) = .ok c ↔ ∃ b, x = .ok b ∧ f b = .ok c := by
  cases x <;> simp [bind, Except.bind]

/-! ### Interfaces -/

/-- The interfaces that are ever added: lwIP's own and the one of `LwipHelper`. -/
inductive NetifId where
  | loopNetif
  | tun64
  deriving DecidableEq, Repr

/-- How a call fails to return. -/
inductive Failure where
  /-- `LWIP_ASSERT` prints the text and aborts. -/
  | assertion (text : String)
  | nullPointer
  /-- A loop does not end. -/
  | hung
  deriving DecidableEq, Repr

/-- The globals of `netif.c`, and the two fields of each interface that `netif_add` reads. -/
structure Netifs where
  next : NetifId → Option NetifId
  num : NetifId → UInt8
  netifList : Option NetifId
  netifNum : UInt8

namespace Netifs

def setNum (n : Netifs) (netif : NetifId) (num : UInt8) : Netifs := { n with num := Function.update n.num netif num }

/-- Whether a registered interface has the number of the new one. -/
def numTaken (n : Netifs) (netif : NetifId) : Nat → Nat → Option NetifId → Except Failure Bool
  | 0, _, _ => throw .hung
  | _ + 1, _, none => pure false
  | rounds + 1, numNetifs, some netif2 =>
    if netif2 = netif then throw (.assertion "netif already added")
    else if 255 < numNetifs + 1 then throw (.assertion "too many netifs, max. supported number is 255")
    else if n.num netif2 = n.num netif then pure true
    else n.numTaken netif rounds (numNetifs + 1) (n.next netif2)

/-- The `do` loop of `netif_add`. A pass over the list ends within 257 rounds, by the second assertion. -/
def chooseNum (netif : NetifId) : Nat → Netifs → Except Failure Netifs
  | 0, _ => throw .hung
  | tries + 1, n =>
    let n := if n.num netif = 255 then n.setNum netif 0 else n
    match n.numTaken netif 257 0 n.netifList with
    | .error failure => throw failure
    | .ok true => chooseNum netif tries (n.setNum netif (n.num netif + 1))
    | .ok false => pure n

/-- The number is found at the latest when all 255 have been tried. -/
def netifAdd (n : Netifs) (netif : NetifId) : Except Failure Netifs := do
  let n ← chooseNum netif 256 (n.setNum netif n.netifNum)
  pure { n with
    netifNum := if n.num netif = 254 then 0 else n.num netif + 1
    next := Function.update n.next netif n.netifList
    netifList := some netif }

/-- Of `lwip_init`, `netif_init` alone adds to a list: the loopback interface. `tcp_init` clears none. -/
def lwipInit (n : Netifs) : Except Failure Netifs := n.netifAdd .loopNetif

variable {n n' : Netifs} {netif : NetifId} {l : List NetifId} {rounds numNetifs tries : Nat} {head : Option NetifId}

/-- Only a pass over the whole list finds a number free, so the interface is not on it. -/
theorem numTaken_false (links : Links n.next head l) (free : n.numTaken netif rounds numNetifs head = .ok false) :
    netif ∉ l := by
  induction l generalizing head rounds numNetifs with
  | nil => exact List.not_mem_nil
  | cons netif2 l ih =>
    obtain rfl : head = some netif2 := links.1
    cases rounds with
    | zero => cases free
    | succ rounds =>
      rw [numTaken] at free
      split_ifs at free with same
      · cases free
      · rw [List.mem_cons, not_or]
        exact ⟨fun h => same h.symm, ih links.2 free⟩

/-- The loop changes the number of the new interface at most, and ends with the interface not on the list. -/
theorem chooseNum_ok (links : Links n.next n.netifList l) (chosen : chooseNum netif tries n = .ok n') :
    n'.next = n.next ∧ n'.netifList = n.netifList ∧ netif ∉ l := by
  induction tries generalizing n with
  | zero => cases chosen
  | succ tries ih =>
    have wrapped : (if n.num netif = 255 then n.setNum netif 0 else n).next = n.next ∧
        (if n.num netif = 255 then n.setNum netif 0 else n).netifList = n.netifList := by
      split_ifs <;> exact ⟨rfl, rfl⟩
    rw [chooseNum] at chosen
    generalize (if n.num netif = 255 then n.setNum netif 0 else n) = m at chosen wrapped
    rw [← wrapped.1, ← wrapped.2] at links ⊢
    cases taken : m.numTaken netif 257 0 m.netifList with
    | error failure =>
      simp only [taken] at chosen
      cases chosen
    | ok clash =>
      simp only [taken] at chosen
      cases clash with
      | true => exact ih (n := m.setNum netif (m.num netif + 1)) links chosen
      | false =>
        cases chosen
        exact ⟨rfl, rfl, numTaken_false links taken⟩

/-- An interface that is added was not there, and comes first. -/
theorem netifAdd_ok (links : Links n.next n.netifList l) (added : n.netifAdd netif = .ok n') :
    netif ∉ l ∧ Links n'.next n'.netifList (netif :: l) := by
  obtain ⟨m, chosen, added⟩ := bind_ok.mp added
  cases added
  have links : Links (n.setNum netif n.netifNum).next (n.setNum netif n.netifNum).netifList l := links
  obtain ⟨next, list, fresh⟩ := chooseNum_ok links chosen
  rw [← next, ← list] at links
  exact ⟨fresh, links.push fresh⟩

end Netifs

/-! ### The listener -/

def ipAddrAny : List UInt8 := [0, 0, 0, 0]

def tcpNew (s : Stack) (pcb : Addr) : Stack :=
  { s with
    allocated := pcb :: s.allocated
    blocks := Function.update s.blocks pcb ⟨ipAddrAny, ipAddrAny, 0, 0, 0, false⟩
    next := Function.update s.next pcb none }

/-- The end of `tcp_bind`, with `TCP_REG(&tcp_bound_pcbs, pcb)`. -/
def tcpRegBound (s : Stack) (pcb : Addr) (ipaddr : List UInt8) (port : Nat) : Stack :=
  { s with
    blocks := Function.update s.blocks pcb { s.blocks pcb with
      localIp := if ipAddrIsany ipaddr then (s.blocks pcb).localIp else ipaddr
      localPort := port }
    next := Function.update s.next pcb s.tcpBoundPcbs
    tcpBoundPcbs := some pcb }

/-- `TCP_RMV(&tcp_bound_pcbs, pcb)` -/
def tcpRmvBound (s : Stack) (pcb : Addr) : Except Failure Stack :=
  match remove s.next s.tcpBoundPcbs pcb s.rounds with
  | none => throw .hung
  | some (next, tcpBoundPcbs) => pure { s with next, tcpBoundPcbs }

theorem tcpRmvBound_head {s : Stack} {pcb : Addr} (head : s.tcpBoundPcbs = some pcb) :
    tcpRmvBound s pcb = .ok { s with next := Function.update s.next pcb none, tcpBoundPcbs := s.next pcb } := by
  rw [tcpRmvBound, remove, if_pos head]
  rfl

/-- Without memory for the smaller block of a listener, the block stays as it is. -/
def tcpListen (s : Stack) (pcb : Addr) : Option Addr → Except Failure Stack
  | none => pure s
  | some lpcb => do
    let s := { s with
      allocated := lpcb :: s.allocated
      blocks := Function.update s.blocks lpcb { s.blocks lpcb with
        localIp := (s.blocks pcb).localIp, localPort := (s.blocks pcb).localPort, netifIdx := 0, timeWait := false } }
    let s ← if (s.blocks pcb).localPort ≠ 0 then tcpRmvBound s pcb else pure s
    pure { s with
      allocated := s.allocated.erase pcb
      next := Function.update s.next lpcb s.tcpListenPcbs
      tcpListenPcbs := some lpcb }

/-- A bound block that becomes a listener comes first among the listeners. -/
theorem tcpListen_regBound {s : Stack} {pcb lpcb : Addr} {l : List Addr} {ipaddr : List UInt8} {port : Nat}
    (links : Links s.next s.tcpListenPcbs l) (absent : pcb ∉ l) (fresh : lpcb ∉ l) (other : lpcb ≠ pcb)
    (given : port ≠ 0) :
    ∃ s', tcpListen (tcpRegBound s pcb ipaddr port) pcb (some lpcb) = .ok s' ∧
      Links s'.next s'.tcpListenPcbs (lpcb :: l) := by
  have bound : ((tcpRegBound s pcb ipaddr port).blocks pcb).localPort ≠ 0 := by
    simpa [tcpRegBound] using given
  have unlinked := (links.update absent s.tcpBoundPcbs).update absent none
  simp only [tcpListen, Function.update_of_ne other.symm]
  rw [if_pos bound, tcpRmvBound_head rfl]
  exact ⟨_, rfl, unlinked.push fresh⟩

/-! ### Calls of the library -/

/-- What a start is given: the blocks of the allocator, and whether the tun device works. -/
structure Env where
  acceptor : Option Addr
  lpcb : Option Addr
  /-- `raw_new` succeeds. -/
  icmpAcceptor : Bool
  /-- `TuntapDevice::Open` -/
  opened : Bool
  /-- `tun_socket_.assign` -/
  assigned : Bool
  deriving DecidableEq, Repr

namespace Env

def DeviceWorks (env : Env) : Prop := env.opened = true ∧ env.assigned = true

def HasMemory (env : Env) : Prop := env.acceptor.isSome ∧ env.lpcb.isSome ∧ env.icmpAcceptor = true

/-- The allocator hands out blocks that are not in use, each one once. -/
def Unused (env : Env) (s : Stack) : Prop :=
  (env.acceptor.toList ++ env.lpcb.toList).Nodup ∧ ∀ pcb ∈ env.acceptor.toList ++ env.lpcb.toList, pcb ∉ s.allocated

instance (env : Env) : Decidable env.DeviceWorks := inferInstanceAs (Decidable (_ ∧ _))
instance (env : Env) (s : Stack) : Decidable (env.Unused s) := inferInstanceAs (Decidable (_ ∧ _))

end Env

structure Process where
  netifs : Netifs
  stack : Stack
  /-- `TUN_RECV_COROUTINE` reads from the device. -/
  reading : Bool
  /-- A call has not returned. -/
  halted : Bool

/-- The globals before the first call. -/
def Process.initial : Process where
  netifs := { next := fun _ => none, num := fun _ => 0, netifList := none, netifNum := 0 }
  stack := { initStack with
    blocks := fun _ => ⟨ipAddrAny, ipAddrAny, 0, 0, 0, false⟩, allocated := [], tcpListenPcbs := none }
  reading := false
  halted := false

/-- The first half of `LwipHelper::Init`. -/
def addNetifs (n : Netifs) : Except Failure Netifs := do
  let n ← n.lwipInit
  n.netifAdd .tun64

/-- The second half, the setup for TCP and ICMP. -/
def addListener (s : Stack) (env : Env) : Except Failure (Bool × Stack) :=
  match env.acceptor with
  -- `tcp_nagle_disable` sets a flag of the block
  | none => throw .nullPointer
  | some acceptor =>
    let s := tcpNew s acceptor
    match s.tcpBind tcpLocalPortRangeStart ipAddrAny 443 s.rounds with
    | none => throw .hung
    | some (.bound port) => do
      let s ← tcpListen (tcpRegBound s acceptor ipAddrAny port) acceptor env.lpcb
      pure (env.icmpAcceptor, s)
    | some _ => pure (false, s)

/-- `Socksifier::Init`, which starts with `LwipHelper::Init` -/
def socksifierInit (p : Process) (env : Env) : Except Failure (Bool × Process) := do
  let netifs ← addNetifs p.netifs
  let (ok, stack) ← addListener p.stack env
  pure (ok && env.opened && env.assigned, { p with netifs, stack })

def tunosocksStart (p : Process) (env : Env) : Except Failure (Int × Process) := do
  let (res, p) ← socksifierInit p env
  if res then pure (0, { p with reading := true }) else pure (-1, p)

/-- The reads are cancelled and the device is closed. -/
def tunosocksStop (p : Process) : Process := { p with reading := false }

inductive LifeAct where
  | start (env : Env)
  | stop
  | traffic (act : DemuxAct)
  deriving DecidableEq, Repr

def LifeAct.isStart : LifeAct → Bool
  | .start _ => true
  | _ => false

theorem LifeAct.isStart_iff {act : LifeAct} : act.isStart = true ↔ ∃ env, act = .start env := by
  cases act <;> simp [isStart]

inductive LifeEvent where
  | returned (code : Int)
  | failed (failure : Failure)
  | seen (event : DemuxEvent)
  deriving DecidableEq, Repr

/-- Segments reach lwIP while the device is read from. -/
def Process.carries (p : Process) : DemuxAct → Bool
  | .input .. => p.reading
  | .abandon _ => true

def lifeStep (p : Process) : LifeAct → Option (Process × List LifeEvent)
  | .start env =>
    if env.Unused p.stack then
      match tunosocksStart p env with
      | .ok (code, p) => some (p, [.returned code])
      | .error failure => some ({ p with halted := true }, [.failed failure])
    else none
  | .stop => some (tunosocksStop p, [])
  | .traffic act =>
    if p.carries act then
      ((demuxMachine p.stack).step p.stack act).map fun r => ({ p with stack := r.1 }, r.2.map .seen)
    else none

def lifeMachine : Machine Process LifeAct LifeEvent where
  Init p := p = Process.initial
  step p act := if p.halted then none else lifeStep p act

/-! ### Starts -/

/-- lwIP's own interface is registered, so that `lwip_init` cannot be called again. -/
def Process.Initialised (p : Process) : Prop :=
  ∃ l, Links p.netifs.next p.netifs.netifList l ∧ NetifId.loopNetif ∈ l

/-- The start returned 0 and left one listener and one copy of the interface. -/
structure Registered (t : Transition Process LifeAct LifeEvent) : Prop where
  returned : t.out = [.returned 0]
  listener : ∃ lpcb, Links t.post.stack.next t.post.stack.tcpListenPcbs [lpcb]
  netif : ∃ l, Links t.post.netifs.next t.post.netifs.netifList l ∧ l.count .tun64 = 1

section Starts
variable {n n' : Netifs} {s s' : Stack} {env : Env} {p p' : Process} {l : List NetifId}

/-- When `LwipHelper::Init` returns, both interfaces are new on the list. -/
theorem addNetifs_ok (links : Links n.next n.netifList l) (added : addNetifs n = .ok n') :
    .loopNetif ∉ l ∧ Links n'.next n'.netifList (.tun64 :: .loopNetif :: l) := by
  obtain ⟨n₁, first, second⟩ := bind_ok.mp added
  obtain ⟨fresh, links₁⟩ := Netifs.netifAdd_ok links first
  exact ⟨fresh, (Netifs.netifAdd_ok links₁ second).2⟩

theorem tunosocksStart_ok {code : Int} (links : Links p.netifs.next p.netifs.netifList l)
    (start : tunosocksStart p env = .ok (code, p')) : .loopNetif ∉ l ∧ p'.Initialised := by
  obtain ⟨⟨res, p₁⟩, init, start⟩ := bind_ok.mp start
  obtain ⟨n, added, init⟩ := bind_ok.mp init
  obtain ⟨⟨ok, s⟩, listens, init⟩ := bind_ok.mp init
  cases init
  obtain ⟨fresh, links'⟩ := addNetifs_ok links added
  have listed : NetifId.loopNetif ∈ NetifId.tun64 :: .loopNetif :: l := List.mem_cons_of_mem _ List.mem_cons_self
  refine ⟨fresh, .tun64 :: .loopNetif :: l, ?_, listed⟩
  dsimp only at start
  split_ifs at start
  · cases start
    exact links'
  · cases start
    exact links'

/-- A second `lwip_init` does not return. -/
theorem Process.Initialised.tunosocksStart (done : p.Initialised) (env : Env) :
    ∃ failure, Lifecycle.tunosocksStart p env = .error failure := by
  obtain ⟨l, links, listed⟩ := done
  cases start : Lifecycle.tunosocksStart p env with
  | error failure => exact ⟨failure, rfl⟩
  | ok r => exact absurd listed (tunosocksStart_ok links start).1

theorem addNetifs_initial :
    ∃ n, addNetifs Process.initial.netifs = .ok n ∧ Links n.next n.netifList [.tun64, .loopNetif] :=
  ⟨_, rfl, rfl, rfl, rfl⟩

theorem tcpBind_initial (acceptor : Addr) :
    (tcpNew Process.initial.stack acceptor).tcpBind tcpLocalPortRangeStart ipAddrAny 443
      (tcpNew Process.initial.stack acceptor).rounds = some (.bound 443) := rfl

theorem addListener_unheard {acceptor : Addr} (given : env.acceptor = some acceptor) (missing : env.lpcb = none) :
    ∃ s, addListener Process.initial.stack env = .ok (env.icmpAcceptor, s) ∧ s.tcpListenPcbs = none := by
  simp only [addListener, given, tcpBind_initial, missing]
  exact ⟨_, rfl, rfl⟩

theorem addListener_heard {acceptor lpcb : Addr} (given : env.acceptor = some acceptor)
    (given' : env.lpcb = some lpcb) (other : lpcb ≠ acceptor) :
    ∃ s, addListener Process.initial.stack env = .ok (env.icmpAcceptor, s) ∧
      Links s.next s.tcpListenPcbs [lpcb] := by
  have empty : Links (tcpNew Process.initial.stack acceptor).next none [] := rfl
  have nonzero : 443 ≠ 0 := by decide
  obtain ⟨s, listens, links⟩ :=
    @tcpListen_regBound _ _ _ _ ipAddrAny _ empty List.not_mem_nil List.not_mem_nil other nonzero
  refine ⟨s, ?_, links⟩
  simp only [addListener, given, tcpBind_initial, given', listens]
  rfl

/-- With a device that works, the result is that of `LwipHelper::Init`. -/
theorem tunosocksStart_eq {ok : Bool} (device : env.DeviceWorks) (added : addNetifs p.netifs = .ok n)
    (listens : addListener p.stack env = .ok (ok, s)) :
    tunosocksStart p env = .ok (if ok then 0 else -1,
      { p with netifs := n, stack := s, reading := ok || p.reading }) := by
  obtain ⟨opened, assigned⟩ := device
  have init : socksifierInit p env = .ok (ok, { p with netifs := n, stack := s }) := by
    simp only [socksifierInit, added, listens, opened, assigned, Bool.and_true]
    rfl
  simp only [tunosocksStart, init]
  cases ok <;> rfl

/-- `tcp_nagle_disable` is called on what `tcp_new` returns, whatever that is. -/
theorem tunosocksStart_null (added : addNetifs p.netifs = .ok n) (missing : env.acceptor = none) :
    tunosocksStart p env = .error .nullPointer := by
  have crash : addListener p.stack env = .error .nullPointer := by
    simp only [addListener, missing]
    rfl
  simp only [tunosocksStart, socksifierInit, added, crash]
  rfl

/-- The first start leaves what it should if its allocations succeed. -/
theorem registered_initial_iff {out : List LifeEvent} (device : env.DeviceWorks)
    (step : lifeStep Process.initial (.start env) = some (p, out)) :
    Registered ⟨Process.initial, .start env, out, p⟩ ↔ env.HasMemory := by
  obtain ⟨unused, step⟩ := Option.ite_none_right_eq_some.mp step
  obtain ⟨n, added, netifs⟩ := addNetifs_initial
  cases given : env.acceptor with
  | none =>
    rw [tunosocksStart_null added given] at step
    cases step
    exact iff_of_false (fun h => nomatch h.returned) fun h => nomatch given ▸ h.1
  | some acceptor =>
    cases given' : env.lpcb with
    | none =>
      obtain ⟨s, listens, unheard⟩ := addListener_unheard given given'
      rw [tunosocksStart_eq device added listens] at step
      cases step
      refine iff_of_false ?_ fun h => nomatch given' ▸ h.2.1
      rintro ⟨_, ⟨lpcb, links⟩, _⟩
      exact nomatch unheard.symm.trans links.1
    | some lpcb =>
      have other : lpcb ≠ acceptor := by
        rintro rfl
        simpa [given, given'] using unused.1
      obtain ⟨s, listens, links⟩ := addListener_heard given given' other
      rw [tunosocksStart_eq device added listens] at step
      cases step
      constructor
      · intro h
        refine ⟨by rw [given]; rfl, by rw [given']; rfl, ?_⟩
        by_contra refused
        simpa [refused] using h.returned
      · rintro ⟨_, _, icmp⟩
        exact ⟨by rw [icmp]; rfl, ⟨lpcb, links⟩, _, netifs, rfl⟩

end Starts

/-! ### Runs -/

/-- A start of a run that follows a stop. -/
structure Restart (ts us : List (Transition Process LifeAct LifeEvent)) (t : Transition Process LifeAct LifeEvent)
    (env : Env) : Prop where
  place : ∃ vs, ts = us ++ t :: vs
  act : t.act = .start env
  stopped : ∃ u ∈ us, u.act = .stop

section Runs
variable {ts us : List (Transition Process LifeAct LifeEvent)} {t : Transition Process LifeAct LifeEvent}
  {p p' : Process} {act : LifeAct} {out : List LifeEvent} {env : Env}

theorem lifeStep_of_step (step : lifeMachine.step p act = some (p', out)) :
    p.halted = false ∧ lifeStep p act = some (p', out) := by
  simpa [lifeMachine] using step

/-- Before the first start there is nothing to stop and no traffic. -/
theorem initial_step (other : act.isStart = false) (step : lifeMachine.step Process.initial act = some (p', out)) :
    p' = Process.initial := by
  cases act with
  | start env => cases other
  | stop =>
    cases step
    rfl
  | traffic act => cases act <;> cases step

theorem untouched_run (run : lifeMachine.Run ts p) (never : ∀ t ∈ ts, t.act.isStart = false) :
    p = Process.initial := by
  refine run.guarded_trace (fun t => t.act.isStart = false) (fun _ p => p = Process.initial) (fun _ h => h) ?_ never
  rintro _ _ act p' out rfl step other
  exact initial_step other step

/-- A start leaves lwIP initialised, or does not return. -/
theorem start_step {l : List NetifId} (links : Links p.netifs.next p.netifs.netifList l)
    (step : lifeMachine.step p (.start env) = some (p', out)) : p'.halted = true ∨ p'.Initialised := by
  obtain ⟨_, step⟩ := lifeStep_of_step step
  obtain ⟨_, step⟩ := Option.ite_none_right_eq_some.mp step
  cases start : tunosocksStart p env with
  | error failure =>
    rw [start] at step
    cases step
    exact .inl rfl
  | ok r =>
    rw [start] at step
    cases step
    exact .inr (tunosocksStart_ok links start).2

/-- Neither a stop nor traffic takes an interface off the list. -/
theorem netifs_step (other : act.isStart = false) (step : lifeMachine.step p act = some (p', out)) :
    p'.netifs = p.netifs := by
  obtain ⟨_, step⟩ := lifeStep_of_step step
  cases act with
  | start env => cases other
  | stop =>
    cases step
    rfl
  | traffic act =>
    obtain ⟨_, step⟩ := Option.ite_none_right_eq_some.mp step
    obtain ⟨r, _, same⟩ := Option.map_eq_some_iff.mp step
    cases same
    rfl

/-- Once there has been a start, lwIP is initialised for good. -/
theorem initialised_run (run : lifeMachine.Run ts p) (started : ∃ t ∈ ts, t.act.isStart = true) :
    p.halted = true ∨ p.Initialised := by
  induction run with
  | init => simp at started
  | @next ts p p' act out run step ih =>
    have alive : p.halted ≠ true := by simp [(lifeStep_of_step step).1]
    cases start : act.isStart with
    | false =>
      have before : ∃ t ∈ ts, t.act.isStart = true := by simpa [start, or_and_right, exists_or] using started
      obtain ⟨l, links, listed⟩ := (ih before).resolve_left alive
      exact .inr ⟨l, netifs_step start step ▸ links, listed⟩
    | true =>
      have links : ∃ l, Links p.netifs.next p.netifs.netifList l := by
        by_cases before : ∃ t ∈ ts, t.act.isStart = true
        · obtain ⟨l, links, _⟩ := (ih before).resolve_left alive
          exact ⟨l, links⟩
        · rw [untouched_run run (by simpa using before)]
          exact ⟨[], rfl⟩
      obtain ⟨env, rfl⟩ := LifeAct.isStart_iff.mp start
      exact start_step links.choose_spec step

/-- A start leaves what it should exactly if it is the first one and its allocations succeed. -/
theorem registered_iff (run : lifeMachine.Run us p) (step : lifeMachine.step p (.start env) = some (p', out))
    (device : env.DeviceWorks) :
    Registered ⟨p, .start env, out, p'⟩ ↔ (∀ u ∈ us, u.act.isStart = false) ∧ env.HasMemory := by
  by_cases first : ∀ u ∈ us, u.act.isStart = false
  · obtain rfl := untouched_run run first
    rw [registered_initial_iff device (lifeStep_of_step step).2, and_iff_right first]
  · obtain ⟨alive, step⟩ := lifeStep_of_step step
    have started : ∃ u ∈ us, u.act.isStart = true := by simpa using first
    have done := (initialised_run run started).resolve_left (by simp [alive])
    obtain ⟨failure, failed⟩ := done.tunosocksStart env
    obtain ⟨_, step⟩ := Option.ite_none_right_eq_some.mp step
    rw [failed] at step
    cases step
    exact iff_of_false (fun h => nomatch h.returned) fun h => first h.1

/-- A start after a stop returns 0 with one listener and one copy of the interface exactly in the runs in which it is
the first start, with memory for its blocks: a stop takes nothing off lwIP's lists. -/
theorem restart_iff (run : lifeMachine.Run ts p)
    (device : ∀ t ∈ ts, ∀ env, t.act = .start env → env.DeviceWorks) :
    (∀ us t env, Restart ts us t env → Registered t) ↔
      ∀ us t env, Restart ts us t env → (∀ u ∈ us, u.act.isStart = false) ∧ env.HasMemory := by
  refine forall₄_congr fun us t env restart => ?_
  obtain ⟨⟨vs, rfl⟩, act, _⟩ := restart
  obtain ⟨before, step⟩ := run.upTo
  have works := device t (by simp) env act
  obtain ⟨pre, _, out, post⟩ := t
  cases act
  exact registered_iff before step works

end Runs

def workingEnv (acceptor lpcb : Addr) : Env := ⟨some acceptor, some lpcb, true, true, true⟩

theorem restart_iff_stop_first : ∃ ts p, lifeMachine.Run ts p ∧
    ts.map (·.act) = [.stop, .start (workingEnv 0 1)] ∧ ∀ us t env, Restart ts us t env → Registered t := by
  obtain ⟨ts, p, run, acts⟩ := Machine.Run.exists_of_exec lifeMachine Process.initial [.stop, .start (workingEnv 0 1)]
    (fun ts _ => ts.map (·.act) == [.stop, .start (workingEnv 0 1)]) rfl (by decide)
  have acts : ts.map (·.act) = [.stop, .start (workingEnv 0 1)] := by simpa using acts
  obtain ⟨a, ts, rfl, stop, rest⟩ := List.map_eq_cons_iff.mp acts
  obtain ⟨b, ts, rfl, start, rest⟩ := List.map_eq_cons_iff.mp rest
  obtain rfl := List.map_eq_nil_iff.mp rest
  refine ⟨_, p, run, acts, (restart_iff run ?_).mpr ?_⟩
  · intro t mem env act
    rcases List.mem_pair.mp mem with rfl | rfl
    · cases stop.symm.trans act
    · cases start.symm.trans act
      exact ⟨rfl, rfl⟩
  · rintro us t env ⟨⟨vs, place⟩, act, u, earlier, stopped⟩
    rcases us with _ | ⟨c, us⟩
    · cases earlier
    · cases us with
      | nil =>
        cases place
        cases start.symm.trans act
        refine ⟨?_, rfl, rfl, rfl⟩
        rintro u (_ | ⟨_, ⟨⟩⟩)
        rw [stop]
        rfl
      | cons d us => simp at place

/-- A stop leaves lwIP as it is, and the next start adds the loopback interface again. -/
theorem second_start_aborts : ∃ ts p us t, lifeMachine.Run ts p ∧
    ts.map (·.act) = [.start (workingEnv 0 1), .stop, .start (workingEnv 2 3)] ∧
      Restart ts us t (workingEnv 2 3) ∧ t.out = [.failed (.assertion "netif already added")] := by
  obtain ⟨ts, p, run, outs⟩ := Machine.Run.exists_of_exec lifeMachine Process.initial
    [.start (workingEnv 0 1), .stop, .start (workingEnv 2 3)]
    (fun ts _ => ts.map (fun t => (t.act, t.out)) == [(.start (workingEnv 0 1), [.returned 0]), (.stop, []),
      (.start (workingEnv 2 3), [.failed (.assertion "netif already added")])]) rfl (by decide)
  rw [beq_iff_eq] at outs
  obtain ⟨a, ts, rfl, first, rest⟩ := List.map_eq_cons_iff.mp outs
  obtain ⟨b, ts, rfl, stop, rest⟩ := List.map_eq_cons_iff.mp rest
  obtain ⟨c, ts, rfl, second, rest⟩ := List.map_eq_cons_iff.mp rest
  obtain rfl := List.map_eq_nil_iff.mp rest
  obtain ⟨first, _⟩ := Prod.mk.inj first
  obtain ⟨stop, _⟩ := Prod.mk.inj stop
  obtain ⟨second, aborted⟩ := Prod.mk.inj second
  refine ⟨_, p, [a, b], c, run, by simp [first, stop, second], ⟨⟨[], rfl⟩, second, b, by simp, stop⟩, aborted⟩

end Tunosocks.Lifecycle
