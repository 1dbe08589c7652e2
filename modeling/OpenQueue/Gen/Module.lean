import OpenQueue.Gen.Emit
import OpenQueue.Kernel.Memory

/-!
# What a generated module does

The C source of a module, as far as the names of queues go: which string each literal
denotes is the compiler's to say (`lit`, undefined where the text between the quotes
does not stay one literal), and all five places that mention a queue have the same text
between their quotes. `initPort` is the generated `init_port` on a `struct oq_priv`, and
`evaluated` says which statements a dispatch function evaluates for a queue.
-/

namespace OpenQueue.Gen

open Lib (Text Jre)

/-- A branch with its literal. -/
structure CBranch where
  literal : Lib.CStr
  queue : Text
  statement : Text

/-- A call of `init_queue` with its literal. -/
structure CInit where
  literal : Lib.CStr
  maxLen : BitVec 32

/-- A module as compiled. -/
structure CModule where
  congFunc : List CBranch
  congActFunc : List CBranch
  admnFunc : List CBranch
  procFunc : List CBranch
  inits : List CInit
  noQueues : Nat
  portName : Lib.CStr
  modName : Text

/-- The function that serves an attribute. -/
def CModule.func (m : CModule) : Attr → List CBranch
  | .congestion => m.congFunc
  | .congAction => m.congActFunc
  | .admPrio => m.admnFunc
  | .procPrio => m.procFunc

section Compile

variable {jre : Jre} (lit : Text → Option Lib.CStr)

/-- Attach the literals to the branches. -/
def readBranches (literals : List Lib.CStr) (bs : List Branch) : List CBranch :=
  List.zipWith (fun l b => ⟨l, b.name, b.statement⟩) literals bs

/-- The module that the compiler makes of the generated source. -/
def compile (gen : OQGen jre.Double) : Option CModule := do
  let port ← gen.port
  let portName ← lit port.name
  let literals ← gen.values.mapM fun q => lit q.name
  let congestion ← gen.branches .congestion
  let congAction ← gen.branches .congAction
  let admPrio ← gen.branches .admPrio
  let procPrio ← gen.branches .procPrio
  return {
    congFunc := readBranches literals congestion
    congActFunc := readBranches literals congAction
    admnFunc := readBranches literals admPrio
    procFunc := readBranches literals procPrio
    inits := List.zipWith (fun l (c : InitCall) => ⟨l, c.size⟩) literals gen.initCalls
    noQueues := gen.queues.keys.length
    portName := portName
    modName := OQGen.getModuleName jre port.name }

end Compile

/-! ## `struct oq_priv` -/

/-- The pointers to the node pools of the two trees of a queue. -/
structure NodePools where
  admn : Option Addr
  proc : Option Addr
  deriving DecidableEq

/-- Both trees of the queue have a pool. -/
def NodePools.both (pools : NodePools) : Bool := pools.admn.isSome && pools.proc.isSome

/-- `struct oq_priv`. The pointers to the node pools stand apart from the queues, whose
functions only need to know that they are there. The six callbacks are set together, by the
`init_port` of a module. -/
@[ext]
structure OqPriv where
  queues : QId → OqQueue
  nodePools : QId → NodePools
  numQ : BitVec 32
  portName : NameBuf
  callbacks : Option Text

/-- Memory that was zeroed. -/
def OqPriv.zero : OqPriv where
  queues _ :=
    { ready := false, maxLen := 0, len := 0, dropped := 0, total := 0, name := .zero _, admnQ := .empty,
      procQ := .empty }
  nodePools _ := ⟨none, none⟩
  numQ := 0
  portName := .zero _
  callbacks := none

/-- One queue written, with its node pools. -/
def OqPriv.put (priv : OqPriv) (slot : QId) (pools : NodePools) (queue : OqQueue) : OqPriv :=
  { priv with
    queues := Function.update priv.queues slot queue
    nodePools := Function.update priv.nodePools slot pools }

/-- What a call of `btree_init` does. One that succeeds empties the tree and gives it a node
pool. One that fails may have emptied the tree, and may have set the pointer to its pool to
`NULL`; which of these it does is the kernel's affair. -/
inductive TreeInit where
  | ok (pool : Addr)
  | failed (emptied poolLost : Bool)
  deriving DecidableEq

namespace TreeInit

def succeeds : TreeInit → Bool
  | .ok _ => true
  | .failed _ _ => false

/-- The tree after the call. -/
def tree (before : BTree) : TreeInit → BTree
  | .ok _ => .empty
  | .failed emptied _ => if emptied then .empty else before

/-- The pointer to the pool after the call. -/
def pool (before : Option Addr) : TreeInit → Option Addr
  | .ok pool => some pool
  | .failed _ poolLost => if poolLost then none else before

end TreeInit

/-- The two calls of `btree_init` in `init_queue`; the second is made if the first succeeds. -/
structure Trees where
  admn : TreeInit
  proc : TreeInit

namespace Trees

def succeed (trees : Trees) : Bool := trees.admn.succeeds && trees.proc.succeeds

/-- The node pools after the calls. -/
def pools (trees : Trees) (before : NodePools) : NodePools where
  admn := trees.admn.pool before.admn
  proc := if trees.admn.succeeds then trees.proc.pool before.proc else before.proc

/-- The queue after the calls. -/
def queue (trees : Trees) (pools : NodePools) (before : OqQueue) : OqQueue :=
  { before with
    ready := (trees.pools pools).both
    admnQ := trees.admn.tree before.admnQ
    procQ := if trees.admn.succeeds then trees.proc.tree before.procQ else before.procQ }

end Trees

/-- The generated `init_queue`; the result says whether it returns 0. -/
def initQueue (trees : Trees) (call : CInit) (pools : NodePools) (queue : OqQueue) : Bool × NodePools × OqQueue :=
  let queue := trees.queue pools queue
  let pools := trees.pools pools
  if trees.succeed then
    (true, pools, { queue with
      maxLen := call.maxLen
      len := 0
      dropped := 0
      total := 0
      name := queue.name.copy call.literal })
  else (false, pools, queue)

/-- The calls of `init_queue` from slot `i` on. There is no check of the index, and the
seventeenth queue lies outside the array. -/
def initQueues (trees : Nat → Trees) (i : Nat) : List CInit → OqPriv → Except Fault (Bool × OqPriv)
  | [], priv => .ok (true, priv)
  | call :: calls, priv =>
    if inside : i < tcqOqMaxQueue then
      let slot : QId := ⟨i, inside⟩
      let (ok, pools, queue) := initQueue (trees i) call (priv.nodePools slot) (priv.queues slot)
      let priv := priv.put slot pools queue
      if ok then initQueues trees (i + 1) calls priv else .ok (false, priv)
    else .error .badIndex

namespace CModule

/-- The generated `init_port`. -/
def initPort (m : CModule) (trees : Nat → Trees) (priv : OqPriv) : Except Fault (Int × OqPriv) :=
  match initQueues trees 0 m.inits priv with
  | .error e => .error e
  | .ok (false, priv) => .ok (-eNoMem, priv)
  | .ok (true, priv) =>
    .ok (0, { priv with
      numQ := BitVec.ofNat 32 m.noQueues
      portName := priv.portName.copy m.portName
      callbacks := some m.modName })

/-- The branches of a dispatch function that are taken for a queue with this name. -/
def taken (name : NameBuf) : List CBranch → Except Fault (List CBranch)
  | [] => .ok []
  | b :: bs =>
    match Lib.strncmp tcqOqNameLen name.bytes b.literal.bytes with
    | none => .error .overrun
    | some c =>
      match taken name bs with
      | .error e => .error e
      | .ok rest => .ok (if c = 0 then b :: rest else rest)

/-- What a dispatch function evaluates for a queue; the last one gives the result. -/
def evaluated (m : CModule) (a : Attr) (name : NameBuf) : Except Fault (List CBranch) := taken name (m.func a)

end CModule

end OpenQueue.Gen
