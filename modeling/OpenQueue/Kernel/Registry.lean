import OpenQueue.Kernel.Memory

/-!
# The policy registry

`oq_policy_base` is the head of a circular list of `struct oq_policy_container`, to
which a policy module adds its `init_port` under the name of its port, and in which
`oq_init` looks a name up. The containers lie in a memory of their own with one function
per field. `kmalloc` may fail, and hands out memory with arbitrary contents otherwise.
The locks are left out: each function runs under `oq_policy_lock` from its first access
to the list to its last.
-/

namespace OpenQueue

/-- The policy containers and `oq_policy_base`; `φ` are the addresses of `init_port`
functions. -/
structure Registry (φ : Type) where
  name : Addr → NameBuf
  initPortFn : Addr → φ
  next : Addr → Addr
  prev : Addr → Addr
  conts : Lib.Pool
  base : Option Addr

namespace Registry

variable {φ β : Type}

/-- Code that runs on the registry. -/
abbrev RegM (φ : Type) := StateT (Registry φ) (Except Fault)

/-- Access to a container. -/
def onContainer (a : Addr) (f : Registry φ → β × Registry φ) : RegM φ β := fun r =>
  if a ∈ r.conts.live then .ok (f r) else .error .deadCell

/-- A pointer that is about to be dereferenced. -/
def deref (p : Option Addr) : RegM φ Addr := fun r =>
  match p with
  | none => .error .nullDeref
  | some a => .ok (a, r)

def getName (a : Addr) : RegM φ NameBuf := onContainer a fun r => (r.name a, r)

def getInitPortFn (a : Addr) : RegM φ φ := onContainer a fun r => (r.initPortFn a, r)

def getNext (a : Addr) : RegM φ Addr := onContainer a fun r => (r.next a, r)

def getPrev (a : Addr) : RegM φ Addr := onContainer a fun r => (r.prev a, r)

def setName (a : Addr) (name : NameBuf) : RegM φ Unit :=
  onContainer a fun r => ((), { r with name := Function.update r.name a name })

def setInitPortFn (a : Addr) (fn : φ) : RegM φ Unit :=
  onContainer a fun r => ((), { r with initPortFn := Function.update r.initPortFn a fn })

def setNext (a b : Addr) : RegM φ Unit :=
  onContainer a fun r => ((), { r with next := Function.update r.next a b })

def setPrev (a b : Addr) : RegM φ Unit :=
  onContainer a fun r => ((), { r with prev := Function.update r.prev a b })

def setBase (p : Option Addr) : RegM φ Unit := fun r => .ok ((), { r with base := p })

/-- `kmalloc(sizeof(struct oq_policy_container), GFP_KERNEL)`: `NULL`, or a fresh cell
whose `name` holds `junk`. -/
def kmalloc : Option NameBuf → RegM φ (Option Addr)
  | none => fun r => .ok (none, r)
  | some junk => fun r =>
    .ok (some r.conts.brk, { r with name := Function.update r.name r.conts.brk junk, conts := r.conts.alloc })

/-- `kfree`. -/
def kfree (a : Addr) : RegM φ Unit := onContainer a fun r => ((), { r with conts := r.conts.retire a })

/-- Register OpenQueue policy. The result of `kmalloc` is not checked. -/
def oqRegisterPolicy (mem : Option NameBuf) (name : Lib.CStr) (initPortFn : φ) : RegM φ Int := do
  let container ← deref (← kmalloc mem)
  setName container ((← getName container).copy name)
  setInitPortFn container initPortFn
  match (← get).base with
  | none =>
    setNext container container
    setPrev container container
    setBase (some container)
  | some headContainer =>
    let tailContainer ← getPrev headContainer
    setPrev container tailContainer
    setNext tailContainer container
    setPrev headContainer container
    setNext container headContainer
  return 0

/-- Lines 449-459: take a container out of the list and free it. -/
def removeContainer (container : Addr) : RegM φ Unit := do
  setPrev (← getNext container) (← getPrev container)
  setNext (← getPrev container) (← getNext container)
  if some container = (← get).base then
    setBase none
  kfree container

/-- The `do`-`while` loop of `oq_unregister_policy`, entered at `container`. -/
def unregisterFrom [DecidableEq φ] (initPortFn : φ) : Nat → Addr → RegM φ Unit
  | 0, _ => fun _ => .error .diverges
  | rounds + 1, container => do
    if (← getInitPortFn container) = initPortFn then
      removeContainer container
    else
      let container ← getNext container
      if some container = (← get).base then
        return ()
      else
        unregisterFrom initPortFn rounds container

/-- Unregister OpenQueue policy. -/
def oqUnregisterPolicy [DecidableEq φ] (initPortFn : φ) : RegM φ Unit := do
  let container ← deref (← get).base
  unregisterFrom initPortFn (← get).conts.brk container

/-- `strcmp(s, t) == 0`. -/
def sameName (s t : NameBuf) : RegM φ Bool := fun r =>
  match Lib.strcmp s.bytes t.bytes with
  | none => .error .overrun
  | some c => .ok (c = 0, r)

/-- The `do`-`while` loop of `oq_init`, entered at `container`. -/
def findPolicy (portName : NameBuf) : Nat → Addr → RegM φ (Option φ)
  | 0, _ => fun _ => .error .diverges
  | rounds + 1, container => do
    if ← sameName (← getName container) portName then
      return some (← getInitPortFn container)
    else
      let container ← getNext container
      if some container = (← get).base then
        return none
      else
        findPolicy portName rounds container

/-- `sizeof(struct tc_oq_qopt)`: a name padded to 36 bytes, sixteen queues of 52 bytes
and `num_q`. -/
def sizeofTcOqQopt : Nat := 36 + 16 * 52 + 4

/-- The netlink attribute that `oq_init` is given: `nla_len` and the `port_name` of the
option block. -/
structure Opt where
  nlaLen : Nat
  portName : NameBuf

/-- Which of `kmem_cache_create` and `mempool_create` succeed, for the containers and
for the list heads. -/
structure PoolsCreated where
  containers : Bool
  contLists : Bool

/-- Initialize qdisc for the given policy. `initPort f` is what `init_port_fn(priv)`
returns; besides the result, the function that was called is returned. -/
def oqInit (opt : Option Opt) (initPort : φ → Int) (pools : PoolsCreated) : RegM φ (Int × Option φ) := do
  match opt with
  | none => return (-eInval, none)
  | some opt =>
    if opt.nlaLen < sizeofTcOqQopt then
      return (-eInval, none)
    let container ← deref (← get).base
    match ← findPolicy opt.portName (← get).conts.brk container with
    | none => return (-eInval, none)
    | some fn =>
      if initPort fn ≠ 0 then
        return (-eInval, some fn)
      if !pools.containers then
        return (-eNoMem, some fn)
      if !pools.contLists then
        return (-eNoMem, some fn)
      return (0, some fn)

/-- A call of a policy module. `register` comes with the outcome of its `kmalloc`. -/
inductive Op (φ : Type) where
  | register (mem : Option NameBuf) (name : Lib.CStr) (initPortFn : φ)
  | unregister (initPortFn : φ)

/-- One call. -/
def step [DecidableEq φ] (r : Registry φ) : Op φ → Except Fault (Unit × Registry φ)
  | .register mem name fn =>
    match oqRegisterPolicy mem name fn r with
    | .error e => .error e
    | .ok (_, r) => .ok ((), r)
  | .unregister fn => oqUnregisterPolicy fn r

/-- The policies in the list, as they are stored. -/
structure Policy (φ : Type) where
  name : NameBuf
  initPortFn : φ
  deriving DecidableEq

/-- What a container says. -/
def policy (r : Registry φ) (a : Addr) : Policy φ := ⟨r.name a, r.initPortFn a⟩

@[simp] theorem initPortFn_policy (r : Registry φ) (a : Addr) : (r.policy a).initPortFn = r.initPortFn a := rfl

/-- The list reachable from `oq_policy_base`. -/
def policies (r : Registry φ) : List (Policy φ) := (r.base.elim [] (r.conts.ring r.next)).map r.policy

/-- The registry when the module is loaded: no policy, over any memory. -/
structure Initial (r : Registry φ) : Prop where
  base : r.base = none
  conts : r.conts.live = ∅

end Registry

end OpenQueue
