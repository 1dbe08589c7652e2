import OpenQueue.Kernel.Queue

/-!
# `oq_enqueue` and `oq_dequeue`

The queues of a port share one memory. The qdisc entry points pick a slot of
`priv->queues` by the number a callback returns, without a bound check of their own,
and run the queue functions on it.
-/

namespace OpenQueue

variable {Ω π β : Type}

/-- A qdisc instance: the memory and `priv->queues`. The callbacks are set once. -/
structure Port (π : Type) where
  mem : Mem π
  queues : QId → OqQueue

/-- Code that runs on a port. -/
abbrev PortM (π : Type) := StateT (Port π) (Except Fault)

/-- What the callbacks see of the queues. -/
def Port.infos (p : Port π) (i : QId) : QueueInfo := (p.queues i).toQueueInfo

/-- The slot `priv->queues[q]`. -/
def slot? (q : Int) : Option QId :=
  if h : 0 ≤ q ∧ q < tcqOqMaxQueue then some ⟨q.toNat, by omega⟩ else none

/-- `&priv->queues[q]`. -/
def pick (q : Int) : PortM π QId := fun p =>
  match slot? q with
  | none => .error .badIndex
  | some i => .ok (i, p)

/-- Call a queue function on `&priv->queues[i]`. -/
def onQueue (i : QId) (f : OqQueue → M π (β × OqQueue)) : PortM π β := fun p =>
  match f (p.queues i) p.mem with
  | .error e => .error e
  | .ok ((b, q), m) => .ok (b, ⟨m, Function.update p.queues i q⟩)

/-- Lines 237-238: refuse the packet. -/
def dropPkt (skb : SkBuff π) (queue : OqQueue) : M π (Unit × OqQueue) := do
  kfreeSkb skb
  return ((), { queue with dropped := queue.dropped + 1 })

/-- Enqueue an incoming packet. An action other than the two of the `switch` does
nothing, and only an uncongested enqueue sets the status. -/
def oqEnqueue (cb : Callbacks Ω π) (ω : Ω) (ins : Inserts) (skb : SkBuff π) : PortM π Int := do
  let i ← pick (cb.qSelect ω (← get).infos skb)
  let queue := (← get).infos i
  if cb.congFn ω queue = false then
    onQueue i (doEnqueue cb ω ins skb)
  else
    let action := cb.congActFn ω queue skb
    if action = oqConActDropTail then
      let _ ← onQueue i doDropTail
      let _ ← onQueue i (doEnqueue cb ω ins skb)
    else if action = oqConActDropPkt then
      onQueue i (dropPkt skb)
    return 0

/-- Dequeue next eligible outgoing packet. -/
def oqDequeue (cb : Callbacks Ω π) (ω : Ω) : PortM π (DequeueExit π) := do
  let i ← pick (cb.schedFn ω (← get).infos)
  onQueue i dequeueFrom

/-! ## Whole runs -/

/-- A call of a queue function on a slot, or of `oq_dequeue`. -/
inductive Op (Ω π : Type) where
  | doEnqueue (i : QId) (ω : Ω) (ins : Inserts) (skb : SkBuff π)
  | doDropTail (i : QId)
  | oqDequeue (ω : Ω)

/-- A call of one of the two entry points of the qdisc. -/
inductive Call (Ω π : Type) where
  | oqEnqueue (ω : Ω) (ins : Inserts) (skb : SkBuff π)
  | oqDequeue (ω : Ω)

/-- What a call returns. -/
inductive Out (π : Type) where
  | status (code : Int)
  | dropTail (exit : DropExit)
  | dequeue (exit : DequeueExit π)
  deriving DecidableEq

/-- One call of a queue function. -/
def Port.step (cb : Callbacks Ω π) (p : Port π) : Op Ω π → Except Fault (Out π × Port π)
  | .doEnqueue i ω ins skb => (do return .status (← onQueue i (doEnqueue cb ω ins skb)) : PortM π (Out π)) p
  | .doDropTail i => (do return .dropTail (← onQueue i doDropTail) : PortM π (Out π)) p
  | .oqDequeue ω => (do return .dequeue (← oqDequeue cb ω) : PortM π (Out π)) p

/-- One call of the qdisc. -/
def Port.call (cb : Callbacks Ω π) (p : Port π) : Call Ω π → Except Fault (Out π × Port π)
  | .oqEnqueue ω ins skb => (do return .status (← oqEnqueue cb ω ins skb) : PortM π (Out π)) p
  | .oqDequeue ω => (do return .dequeue (← oqDequeue cb ω) : PortM π (Out π)) p

/-- The packets handed to queue `i`, in order. -/
def arrivals (i : QId) (ops : List (Op Ω π)) : List (SkBuff π) :=
  ops.filterMap fun
    | .doEnqueue j _ _ skb => if j = i then some skb else none
    | .doDropTail _ | .oqDequeue _ => none

/-- The packets handed to the qdisc, in order. -/
def offered (calls : List (Call Ω π)) : List (SkBuff π) :=
  calls.filterMap fun
    | .oqEnqueue _ _ skb => some skb
    | .oqDequeue _ => none

/-- The packets returned by `oq_dequeue`, in order. -/
def returned (outs : List (Out π)) : List (SkBuff π) :=
  outs.filterMap fun
    | .dequeue exit => exit.skb?
    | .status _ | .dropTail _ => none

theorem arrivals_append (i : QId) (ops ops' : List (Op Ω π)) :
    arrivals i (ops ++ ops') = arrivals i ops ++ arrivals i ops' :=
  List.filterMap_append

theorem offered_append (calls calls' : List (Call Ω π)) : offered (calls ++ calls') = offered calls ++ offered calls' :=
  List.filterMap_append

theorem returned_append (outs outs' : List (Out π)) : returned (outs ++ outs') = returned outs ++ returned outs' :=
  List.filterMap_append

section Execution

variable {cb : Callbacks Ω π} {ω : Ω} {p : Port π} {i : QId} {q : OqQueue} {m : Mem π}

theorem Port.step_doEnqueue {ins : Inserts} {skb : SkBuff π} {status : Int}
    (run : doEnqueue cb ω ins skb (p.queues i) p.mem = .ok ((status, q), m)) :
    p.step cb (.doEnqueue i ω ins skb) = .ok (.status status, ⟨m, Function.update p.queues i q⟩) := by
  show (onQueue i _ p >>= _) = _
  rw [onQueue, run]
  rfl

theorem Port.step_doDropTail {exit : DropExit} (run : doDropTail (p.queues i) p.mem = .ok ((exit, q), m)) :
    p.step cb (.doDropTail i) = .ok (.dropTail exit, ⟨m, Function.update p.queues i q⟩) := by
  show (onQueue i _ p >>= _) = _
  rw [onQueue, run]
  rfl

theorem Port.step_oqDequeue {exit : DequeueExit π} (slot : slot? (cb.schedFn ω p.infos) = some i)
    (run : dequeueFrom (p.queues i) p.mem = .ok ((exit, q), m)) :
    p.step cb (.oqDequeue ω) = .ok (.dequeue exit, ⟨m, Function.update p.queues i q⟩) := by
  show ((pick (cb.schedFn ω p.infos) p >>= fun r => onQueue r.1 dequeueFrom r.2) >>= _) = _
  rw [pick, slot]
  show (onQueue i dequeueFrom p >>= _) = _
  rw [onQueue, run]
  rfl

end Execution

/-- A port as `oq_init` leaves it: nothing is held and nothing was counted. Which
queues `init_port` has set up, and what the memory holds, is left open. -/
structure Port.Initialised (p : Port π) : Prop where
  admnQ : ∀ i, (p.queues i).admnQ = .empty
  procQ : ∀ i, (p.queues i).procQ = .empty
  len : ∀ i, (p.queues i).len = 0
  dropped : ∀ i, (p.queues i).dropped = 0
  total : ∀ i, (p.queues i).total = 0
  conts : p.mem.conts.live = ∅
  lists : p.mem.lists.live = ∅
  freed : p.mem.freed = []

/-- Sixteen initialised queues over a memory of zeros. -/
def Port.blank (data : π) : Port π where
  mem :=
    { otherKey := fun _ => 0, skb := fun _ => ⟨0, data⟩, next := fun _ => 0, prev := fun _ => 0, head := fun _ => 0,
      conts := .empty, lists := .empty, freed := [] }
  queues _ :=
    { ready := true, maxLen := 0, len := 0, dropped := 0, total := 0, name := .zero _, admnQ := .empty,
      procQ := .empty }

theorem Port.blank_initialised (data : π) : (Port.blank data).Initialised :=
  ⟨fun _ => rfl, fun _ => rfl, fun _ => rfl, fun _ => rfl, fun _ => rfl, rfl, rfl, rfl⟩

/-- The routines of `routine/routines.c`, where `n` is 256 and `action` is 2: one queue
that is full at `len == n`, one action, and keys read from the packet. -/
def Callbacks.routines (n : Nat) (action : Int) (admPrio proPrio : SkBuff π → Key) : Callbacks Ω π where
  congFn _ queue := queue.len.toInt = n
  congActFn _ _ _ := action
  admnFn _ _ skb := admPrio skb
  procFn _ _ skb := proPrio skb
  qSelect _ _ _ := 0
  schedFn _ _ := 0

end OpenQueue
