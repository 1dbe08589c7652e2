import OpenQueue.Kernel.Init
import OpenQueue.Lib.Lock

/-!
# The registry under `oq_policy_lock`

The functions of the registry once more, one access to memory at a time and with the lock.
`oq_register_policy` fills its container before it takes the lock, since no other thread
knows it yet; `oq_unregister_policy` and the lookup of `oq_init` take the lock first, the
latter for reading. Accesses take effect in one order for all threads, and a thread spins
while it cannot have the lock. How often a loop may go round is settled when its lock is
taken.
-/

namespace OpenQueue

namespace Registry

variable {φ : Type}

/-- Code of which other threads see every access. -/
abbrev RegP (φ α : Type) := Lib.Prog (Registry φ) Fault α

open Lib.Prog (atomic)

/-- Read `oq_policy_base`. -/
def getBase : RegM φ (Option Addr) := fun r => .ok (r.base, r)

/-! ## Register -/

/-- Lines 410-412: a container that only this thread knows. -/
def newContainer (mem : Option NameBuf) (name : Lib.CStr) (initPortFn : φ) : RegP φ (Option Addr) := do
  let container ← atomic (kmalloc mem)
  let container ← atomic (deref container)
  let old ← atomic (getName container)
  atomic (setName container (old.copy name))
  atomic (setInitPortFn container initPortFn)
  return some container

/-- Lines 424-430: append when queue is not empty. -/
def appendTo (headContainer container : Addr) : RegP φ Unit := do
  let tailContainer ← atomic (getPrev headContainer)
  atomic (setPrev container tailContainer)
  atomic (setNext tailContainer container)
  atomic (setPrev headContainer container)
  atomic (setNext container headContainer)

/-- Lines 417-420: first policy. -/
def beginWith (container : Addr) : RegP φ Unit := do
  atomic (setNext container container)
  atomic (setPrev container container)
  atomic (setBase (some container))

/-- Lines 416-431: what `oq_register_policy` does under the lock. -/
def link (container : Addr) : RegP φ Unit := do
  let base ← atomic getBase
  base.elim (beginWith container) fun headContainer => appendTo headContainer container

/-! ## Unregister -/

/-- Lines 449-457: take a container out of the list and free it. -/
def unlink (container : Addr) : RegP φ Unit := do
  let next ← atomic (getNext container)
  let prev ← atomic (getPrev container)
  atomic (setPrev next prev)
  let prev ← atomic (getPrev container)
  let next ← atomic (getNext container)
  atomic (setNext prev next)
  let base ← atomic getBase
  if some container = base then do
    atomic (setBase none)
    atomic (kfree container)
  else atomic (kfree container)

/-- The loop of `oq_unregister_policy`, entered at `container`. -/
def unlinkFrom [DecidableEq φ] (initPortFn : φ) : Nat → Addr → RegP φ Unit
  | 0, _ => atomic fun _ => .error .diverges
  | rounds + 1, container => do
    let fn ← atomic (getInitPortFn container)
    if fn = initPortFn then
      unlink container
    else do
      let container ← atomic (getNext container)
      let base ← atomic getBase
      if some container = base then return () else unlinkFrom initPortFn rounds container

/-- Lines 446-462: what `oq_unregister_policy` does under the lock. -/
def unlinkPolicy [DecidableEq φ] (initPortFn : φ) (rounds : Nat) : RegP φ Unit := do
  let base ← atomic getBase
  let container ← atomic (deref base)
  unlinkFrom initPortFn rounds container

/-! ## Look up -/

/-- The loop of `oq_init`, entered at `container`. -/
def searchFrom (portName : NameBuf) : Nat → Addr → RegP φ (Option φ)
  | 0, _ => atomic fun _ => .error .diverges
  | rounds + 1, container => do
    let name ← atomic (getName container)
    let same ← atomic (sameName name portName)
    if same then do
      let fn ← atomic (getInitPortFn container)
      return some fn
    else do
      let container ← atomic (getNext container)
      let base ← atomic getBase
      if some container = base then return none else searchFrom portName rounds container

/-- Lines 347-355: what `oq_init` does under the lock. -/
def search (portName : NameBuf) (rounds : Nat) : RegP φ (Option φ) := do
  let base ← atomic getBase
  let container ← atomic (deref base)
  searchFrom portName rounds container

/-! ## Calls -/

/-- A call that uses the registry; `register` comes with the outcome of its `kmalloc`. -/
inductive Access (φ : Type) where
  | register (mem : Option NameBuf) (name : Lib.CStr) (initPortFn : φ)
  | unregister (initPortFn : φ)
  | lookup (portName : NameBuf)

/-- The calls, action by action. Only a lookup has an answer. -/
def locked [DecidableEq φ] : Lib.LockedCalls (Registry φ) Fault (Access φ) (Option Addr) (Option φ) where
  before
    | .register mem name fn => newContainer mem name fn
    | .unregister _ => pure none
    | .lookup _ => pure none
  mode
    | .register .. => .write
    | .unregister _ => .write
    | .lookup _ => .read
  body
    | .register .., _, container => do
      container.elim (pure ()) link
      return none
    | .unregister fn, r, _ => do
      unlinkPolicy fn r.conts.brk
      return none
    | .lookup portName, r, _ => search portName r.conts.brk

/-- A call made alone. -/
def access [DecidableEq φ] (r : Registry φ) : Access φ → Except Fault (Option φ × Registry φ)
  | .register mem name fn => (r.step (.register mem name fn)).map fun a => (none, a.2)
  | .unregister fn => (r.step (.unregister fn)).map fun a => (none, a.2)
  | .lookup portName => lookup portName r

/-! ## The actions under the lock are the call -/

section Run

/-- Both loops start at `oq_policy_base`. -/
theorem run_from_base {α : Type} (loop : Addr → RegP φ α) (r : Registry φ) :
    (atomic getBase >>= fun base => atomic (deref base) >>= loop).run r =
      r.base.elim (.error .nullDeref) fun head => (loop head).run r := by
  simp only [Lib.Prog.run_bind, Lib.Prog.run_atomic]
  cases base : r.base <;> simp [run_bind, getBase, deref, base]

/-- A call whose answer is fixed. -/
theorem run_answer {α β : Type} (p : RegP φ α) (x : β) (r : Registry φ) :
    (p >>= fun _ => pure x).run r = (p.run r).map fun a => (x, a.2) := by
  rw [Lib.Prog.run_bind, run_bind]
  cases p.run r <;> rfl

theorem run_unlink (container : Addr) : (unlink container).run = removeContainer (φ := φ) container := by
  simp only [unlink, Lib.Prog.run_bind, Lib.Prog.run_atomic, Lib.Prog.run_ite]
  rfl

theorem run_unlinkFrom [DecidableEq φ] (fn : φ) (rounds : Nat) (container : Addr) :
    (unlinkFrom fn rounds container).run = unregisterFrom fn rounds container := by
  induction rounds generalizing container with
  | zero => exact Lib.Prog.run_atomic _
  | succ rounds ih =>
    simp only [unlinkFrom, Lib.Prog.run_bind, Lib.Prog.run_atomic, Lib.Prog.run_ite, run_unlink, ih, Lib.Prog.run_pure]
    rfl

theorem run_searchFrom (portName : NameBuf) (rounds : Nat) (container : Addr) :
    (searchFrom portName rounds container).run = findPolicy (φ := φ) portName rounds container := by
  induction rounds generalizing container with
  | zero => exact Lib.Prog.run_atomic _
  | succ rounds ih =>
    simp only [searchFrom, Lib.Prog.run_bind, Lib.Prog.run_atomic, Lib.Prog.run_ite, ih, Lib.Prog.run_pure]
    rfl

theorem run_unlinkPolicy [DecidableEq φ] (fn : φ) (r : Registry φ) :
    (unlinkPolicy fn r.conts.brk).run r = oqUnregisterPolicy fn r := by
  rw [unlinkPolicy, run_from_base]
  simp only [run_unlinkFrom]
  cases base : r.base <;> simp [oqUnregisterPolicy, run_bind, deref, base]

theorem run_search (portName : NameBuf) (rounds : Nat) (r : Registry φ) :
    (search portName rounds).run r =
      r.base.elim (.error .nullDeref) fun head => findPolicy portName rounds head r := by
  rw [search, run_from_base]
  simp only [run_searchFrom]

theorem lookup_eq (portName : NameBuf) (r : Registry φ) :
    lookup portName r = r.base.elim (.error .nullDeref) fun head => findPolicy portName r.conts.brk head r := by
  cases base : r.base <;> simp [lookup, run_bind, deref, base]

end Run

end Registry

end OpenQueue
