import OpenQueue.Gen.Module
import OpenQueue.Kernel.Init
import OpenQueue.Kernel.Qdisc

/-!
# The qdisc as the kernel sees it

Any number of instances, each with its private data and the packet list `sch->q` of every
`struct Qdisc`. They share the heap of containers and list heads, the four globals, and
nothing else. The operations table has `oq_init` for both `.init` and `.change`,
`oq_enqueue`, `oq_dequeue`, and helpers of the kernel for `.peek` and `.reset`, which
read and purge `sch->q` and know nothing of the queues.

`skb_container_alloc` and `skb_container_free` use the cache that the global names at
the time of the call, and so do their counterparts for list heads. `contCache` and
`listCache` record for each cell the cache it was allocated from; no code reads them.
-/

namespace OpenQueue

variable {ι Ω π : Type}

/-- A policy module: the generated code, and the callbacks that its `init_port` stores. -/
structure PolicyModule (Ω π : Type) where
  code : Gen.CModule
  callbacks : Callbacks Ω π

/-- A `struct Qdisc` with its private data. The callbacks of `priv` are `NULL` until an
`init_port` succeeds. -/
structure Qdisc (Ω π : Type) where
  priv : Gen.OqPriv
  callbacks : Option (Callbacks Ω π)
  q : List (SkBuff π)

/-- As allocated. -/
def Qdisc.zero : Qdisc Ω π := ⟨.zero, none, []⟩

/-- The generated `init_port`, which sets the callbacks last. -/
def PolicyModule.initPort (trees : Nat → Gen.Trees) (m : PolicyModule Ω π) (d : Qdisc Ω π) :
    Except Fault (Int × Qdisc Ω π) :=
  match m.code.initPort trees d.priv with
  | .error e => .error e
  | .ok (code, priv) =>
    .ok (code, { d with priv := priv, callbacks := if code = 0 then some m.callbacks else d.callbacks })

/-- All instances, and what they share. -/
structure System (ι Ω π : Type) where
  mem : Mem π
  qdiscs : ι → Qdisc Ω π
  pools : Pools
  contCache : Addr → Option Addr
  listCache : Addr → Option Addr

/-- An operation on an instance, with whatever it finds: the option block, the registry,
the results of `btree_init`, `kmem_cache_create` and `mempool_create`. -/
inductive SysOp (ι Ω π : Type) where
  | init (x : ι) (opt : Option Registry.Opt) (r : Registry (PolicyModule Ω π)) (trees : Nat → Gen.Trees)
      (created : Pools)
  | call (x : ι) (c : Call Ω π)
  | reset (x : ι)

/-- What an operation returns. -/
inductive SysOut (π : Type) where
  | code (code : Int)
  | out (out : Out π)
  | done

/-- The cells handed out between two states of a pool come from `cache`. -/
def stamp (old new : Lib.Pool) (cache : Option Addr) (origin : Addr → Option Addr) (a : Addr) : Option Addr :=
  if old.brk ≤ a ∧ a < new.brk then cache else origin a

namespace System

/-- The queues of an instance over the shared memory. -/
def port (s : System ι Ω π) (x : ι) : Port π := ⟨s.mem, (s.qdiscs x).priv.queues⟩

/-- Allocation and release go through a cache and a pool that are there. -/
def PoolsReady (s : System ι Ω π) (m : Mem π) : Prop :=
  (m.conts ≠ s.mem.conts → s.pools.containerCache ≠ none ∧ s.pools.containerMempool ≠ none) ∧
    (m.lists ≠ s.mem.lists → s.pools.contListCache ≠ none ∧ s.pools.contListMempool ≠ none)

instance (s : System ι Ω π) (m : Mem π) : Decidable (s.PoolsReady m) := inferInstanceAs (Decidable (_ ∧ _))

section

variable [DecidableEq ι]

/-- The queues of an instance, and the memory, have changed. -/
def setPort (s : System ι Ω π) (x : ι) (p : Port π) : System ι Ω π where
  mem := p.mem
  qdiscs := Function.update s.qdiscs x { s.qdiscs x with priv := { (s.qdiscs x).priv with queues := p.queues } }
  pools := s.pools
  contCache := stamp s.mem.conts p.mem.conts s.pools.containerCache s.contCache
  listCache := stamp s.mem.lists p.mem.lists s.pools.contListCache s.listCache

/-- `oq_init`. -/
def init (s : System ι Ω π) (x : ι) (opt : Option Registry.Opt) (r : Registry (PolicyModule Ω π))
    (trees : Nat → Gen.Trees) (created : Pools) : Except Fault (Int × System ι Ω π) :=
  match oqInit (PolicyModule.initPort trees) opt created r (s.qdiscs x) s.pools with
  | .error e => .error e
  | .ok (code, d, pools) => .ok (code, { s with qdiscs := Function.update s.qdiscs x d, pools := pools })

/-- `oq_enqueue` or `oq_dequeue`. -/
def call (s : System ι Ω π) (x : ι) (c : Call Ω π) : Except Fault (Out π × System ι Ω π) :=
  match (s.qdiscs x).callbacks with
  | none => .error .nullDeref
  | some cb =>
    match (s.port x).call cb c with
    | .error e => .error e
    | .ok (out, p) => if s.PoolsReady p.mem then .ok (out, s.setPort x p) else .error .nullDeref

/-- `qdisc_reset_queue`: free what is on `sch->q`. -/
def reset (s : System ι Ω π) (x : ι) : System ι Ω π :=
  { s with
    mem := { s.mem with freed := s.mem.freed ++ (s.qdiscs x).q }
    qdiscs := Function.update s.qdiscs x { s.qdiscs x with q := [] } }

/-- One operation. -/
def step (s : System ι Ω π) : SysOp ι Ω π → Except Fault (SysOut π × System ι Ω π)
  | .init x opt r trees created => (s.init x opt r trees created).map fun a => (.code a.1, a.2)
  | .call x c => (s.call x c).map fun a => (.out a.1, a.2)
  | .reset x => .ok (.done, s.reset x)

end

/-- `qdisc_peek_head`: the head of `sch->q`. -/
def peek (s : System ι Ω π) (x : ι) : Option (SkBuff π) := (s.qdiscs x).q.head?

/-- The module has just been loaded: no cell is live and every private data is zero. -/
structure Initial (s : System ι Ω π) : Prop where
  qdiscs : ∀ x, s.qdiscs x = .zero
  conts : s.mem.conts.live = ∅
  lists : s.mem.lists.live = ∅

end System

end OpenQueue
