import OpenQueue.Kernel.Memory

/-!
# `do_enqueue`, `do_drop_tail` and the body of `oq_dequeue`

The three functions are built from three blocks that the source writes out once for
`admn_q` and once for `proc_q`: linking a new container at the tail of its bucket
(`linkTail`), taking the first container of the greatest key (`unlinkHead`), and
searching the bucket of a given key for a packet and taking its container
(`unlinkSkb`). Each keeps the order of the source's loads and stores. Every `return`
statement of `do_drop_tail` and `oq_dequeue` has a constructor of its own.
-/

namespace OpenQueue

variable {Ω π : Type}

/-- `btree_insert` of a key that is absent. It needs the node pool of the tree, and
leaves the tree as it is when it runs out of memory. -/
def btreeInsert (ready ins : Bool) (tree : BTree) (key : Key) (contList : Addr) : M π BTree := fun m =>
  if ready = false then .error .noNodePool
  else .ok (if ins then tree.insert key contList else tree, m)

/-- Lines 75-100 and 102-127: add `skb` to one of the two trees. -/
def linkTail (ready ins : Bool) (tree : BTree) (key otherKey : Key) (skb : SkBuff π) : M π BTree := do
  match tree.lookup key with
  | none =>
    let container ← allocContainer
    setNext container container
    setPrev container container
    let contList ← allocContList
    setHead contList container
    -- the result of the insertion is ignored
    let tree ← btreeInsert ready ins tree key contList
    setOtherKey container otherKey
    setSkb container skb
    return tree
  | some contList =>
    let headContainer ← getHead contList
    let tailContainer ← getPrev headContainer
    let container ← allocContainer
    setPrev container tailContainer
    setNext tailContainer container
    setPrev headContainer container
    setNext container headContainer
    setOtherKey container otherKey
    setSkb container skb
    return tree

/-- Enqueue a packet when the queue is not congested. -/
def doEnqueue (cb : Callbacks Ω π) (ω : Ω) (ins : Inserts) (skb : SkBuff π) (queue : OqQueue) :
    M π (Int × OqQueue) := do
  let admnKey := cb.admnFn ω queue.toQueueInfo skb
  let procKey := cb.procFn ω queue.toQueueInfo skb
  let admnQ ← linkTail queue.ready ins.admn queue.admnQ admnKey procKey skb
  let procQ ← linkTail queue.ready ins.proc queue.procQ procKey admnKey skb
  return (netXmitSuccess,
    { queue with admnQ := admnQ, procQ := procQ, len := queue.len + 1, total := queue.total + 1 })

/-- A container taken out of its ring and not yet freed, with what was read from it. -/
structure Taken (π : Type) where
  container : Addr
  otherKey : Key
  skb : SkBuff π
  tree : BTree

/-- Lines 145-168 and 262-286: take the first container of the greatest key. -/
def unlinkHead (tree : BTree) : M π (Option (Taken π)) := do
  match tree.last with
  | none => return none
  | some (key, contList) =>
    let container ← getHead contList
    let otherKey ← getOtherKey container
    let skb ← getSkb container
    if (← getNext container) = container then
      freeContList contList
      return some ⟨container, otherKey, skb, tree.erase key⟩
    else
      let nextHead ← getNext container
      let tail ← getPrev container
      setPrev nextHead tail
      setNext tail nextHead
      setHead contList nextHead
      return some ⟨container, otherKey, skb, tree⟩

/-- The `do`-`while` loops of lines 177-184 and 295-302, entered at `container`. A
ring has no more cells than were ever handed out, so the caller's bound on the
number of rounds is reached only by a loop that never ends. -/
def searchSkb (contList : Addr) (skb : SkBuff π) : Nat → Addr → M π (Option Addr)
  | 0, _ => fun _ => .error .diverges
  | rounds + 1, container => do
    if (← getSkb container).addr = skb.addr then
      return some container
    else
      let container ← getNext container
      if container = (← getHead contList) then
        return none
      else
        searchSkb contList skb rounds container

/-- The three ways out of the second half of `do_drop_tail` and `oq_dequeue`. -/
inductive Unlinked where
  | noList
  | noContainer
  | taken (container : Addr) (tree : BTree)

/-- Lines 170-198 and 288-316: take the container of `skb` out of the bucket of `key`. -/
def unlinkSkb (tree : BTree) (key : Key) (skb : SkBuff π) : M π Unlinked := do
  match tree.lookup key with
  | none => return .noList
  | some contList =>
    let first ← getHead contList
    match ← searchSkb contList skb (← get).conts.brk first with
    | none => return .noContainer
    | some container =>
      if (← getNext container) = container then
        freeContList contList
        return .taken container (tree.erase key)
      else
        setPrev (← getNext container) (← getPrev container)
        setNext (← getPrev container) (← getNext container)
        if container = (← getHead contList) then
          setHead contList (← getNext container)
        return .taken container tree

/-- The `return` statements of `do_drop_tail`, in order. -/
inductive DropExit where
  | noPacket
  | noProcList
  | noProcContainer
  | dropped
  deriving DecidableEq

/-- The value `do_drop_tail` returns. -/
def DropExit.code : DropExit → Int
  | .noPacket | .noProcList | .noProcContainer => -eInval
  | .dropped => 0

/-- Drop packet at the tail of a given queue. The source does not touch `len`. -/
def doDropTail (queue : OqQueue) : M π (DropExit × OqQueue) := do
  match ← unlinkHead queue.admnQ with
  | none => return (.noPacket, queue)
  | some admn =>
    let queue := { queue with admnQ := admn.tree }
    match ← unlinkSkb queue.procQ admn.otherKey admn.skb with
    | .noList => return (.noProcList, queue)
    | .noContainer => return (.noProcContainer, queue)
    | .taken procContainer procQ =>
      kfreeSkb admn.skb
      freeContainer admn.container
      freeContainer procContainer
      return (.dropped, { queue with procQ := procQ, dropped := queue.dropped + 1 })

/-- The `return` statements of `oq_dequeue`, in order. -/
inductive DequeueExit (π : Type) where
  | noPacket
  | noAdmnList
  | noAdmnContainer
  | packet (skb : SkBuff π)
  deriving DecidableEq

/-- The pointer `oq_dequeue` returns. -/
def DequeueExit.skb? : DequeueExit π → Option (SkBuff π)
  | .noPacket | .noAdmnList | .noAdmnContainer => none
  | .packet skb => some skb

/-- `oq_dequeue` after the queue is picked. -/
def dequeueFrom (queue : OqQueue) : M π (DequeueExit π × OqQueue) := do
  match ← unlinkHead queue.procQ with
  | none => return (.noPacket, queue)
  | some proc =>
    let queue := { queue with procQ := proc.tree }
    match ← unlinkSkb queue.admnQ proc.otherKey proc.skb with
    | .noList => return (.noAdmnList, queue)
    | .noContainer => return (.noAdmnContainer, queue)
    | .taken admnContainer admnQ =>
      freeContainer proc.container
      freeContainer admnContainer
      return (.packet proc.skb, { queue with admnQ := admnQ, len := queue.len - 1 })

end OpenQueue
