import OpenQueue.Kernel.Types
import Mathlib

/-!
# Containers and list heads in one heap

`struct skb_container` and `struct skb_cont_list` are cells of a shared memory with
one function per field. `mempool_alloc` hands out a fresh cell whose fields hold
whatever the memory held there; `mempool_free` retires a cell. Every access checks
that its cell is live, so a run that ends without a fault has never read, written
or retired a retired cell. `kfree_skb` is recorded in the order of its calls.
-/

namespace OpenQueue

variable {π σ ε α β : Type}

/-- What the C code must not do. -/
inductive Fault where
  /-- a cell that is not live is read, written or retired -/
  | deadCell
  /-- `NULL` is dereferenced -/
  | nullDeref
  /-- a string function reads past the end of an array -/
  | overrun
  /-- a loop that never ends -/
  | diverges
  /-- `priv->queues[q_id]` outside the array -/
  | badIndex
  /-- `btree_insert` into a tree that `btree_init` never saw -/
  | noNodePool
  deriving DecidableEq

/-- The memory of a port: the fields of `struct skb_container` and of `struct
skb_cont_list`, the two pools, and the log of `kfree_skb`. -/
structure Mem (π : Type) where
  otherKey : Addr → Key
  skb : Addr → SkBuff π
  next : Addr → Addr
  prev : Addr → Addr
  head : Addr → Addr
  conts : Lib.Pool
  lists : Lib.Pool
  freed : List (SkBuff π)

/-- Code that runs on the memory. -/
abbrev M (π : Type) := StateT (Mem π) (Except Fault)

/-- Access to a container. -/
def onContainer (a : Addr) (f : Mem π → β × Mem π) : M π β := fun m =>
  if a ∈ m.conts.live then .ok (f m) else .error .deadCell

/-- Access to a list head. -/
def onContList (l : Addr) (f : Mem π → β × Mem π) : M π β := fun m =>
  if l ∈ m.lists.live then .ok (f m) else .error .deadCell

def getOtherKey (a : Addr) : M π Key := onContainer a fun m => (m.otherKey a, m)

def getSkb (a : Addr) : M π (SkBuff π) := onContainer a fun m => (m.skb a, m)

def getNext (a : Addr) : M π Addr := onContainer a fun m => (m.next a, m)

def getPrev (a : Addr) : M π Addr := onContainer a fun m => (m.prev a, m)

def getHead (l : Addr) : M π Addr := onContList l fun m => (m.head l, m)

def setOtherKey (a : Addr) (k : Key) : M π Unit :=
  onContainer a fun m => ((), { m with otherKey := Function.update m.otherKey a k })

def setSkb (a : Addr) (s : SkBuff π) : M π Unit :=
  onContainer a fun m => ((), { m with skb := Function.update m.skb a s })

def setNext (a b : Addr) : M π Unit :=
  onContainer a fun m => ((), { m with next := Function.update m.next a b })

def setPrev (a b : Addr) : M π Unit :=
  onContainer a fun m => ((), { m with prev := Function.update m.prev a b })

def setHead (l a : Addr) : M π Unit :=
  onContList l fun m => ((), { m with head := Function.update m.head l a })

/-- `mempool_alloc(skb_container_mempool, GFP_KERNEL)`, which does not fail. -/
def allocContainer : M π Addr := fun m => .ok (m.conts.brk, { m with conts := m.conts.alloc })

/-- `mempool_alloc(skb_cont_list_mempool, GFP_KERNEL)`. -/
def allocContList : M π Addr := fun m => .ok (m.lists.brk, { m with lists := m.lists.alloc })

/-- `mempool_free(a, skb_container_mempool)`. -/
def freeContainer (a : Addr) : M π Unit :=
  onContainer a fun m => ((), { m with conts := m.conts.retire a })

/-- `mempool_free(l, skb_cont_list_mempool)`. -/
def freeContList (l : Addr) : M π Unit :=
  onContList l fun m => ((), { m with lists := m.lists.retire l })

/-- `kfree_skb`. -/
def kfreeSkb (s : SkBuff π) : M π Unit := fun m => .ok ((), { m with freed := m.freed ++ [s] })

/-! ## Execution -/

/-- Run the first step, then the rest from the state it leaves. -/
theorem run_bind (x : StateT σ (Except ε) α) (f : α → StateT σ (Except ε) β) (s : σ) :
    (x >>= f) s = match x s with
      | .ok p => f p.1 p.2
      | .error e => .error e := by
  show (x s >>= fun p => f p.1 p.2) = _
  cases x s <;> rfl

@[simp] theorem run_pure (a : α) (s : σ) : (pure a : StateT σ (Except ε) α) s = .ok (a, s) := rfl

@[simp] theorem run_get (s : σ) : (get : StateT σ (Except ε) σ) s = .ok (s, s) := rfl

theorem run_onContainer {a : Addr} {f : Mem π → β × Mem π} {m : Mem π} (live : a ∈ m.conts.live) :
    onContainer a f m = .ok (f m) := if_pos live

end OpenQueue
