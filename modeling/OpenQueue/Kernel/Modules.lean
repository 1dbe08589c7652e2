import OpenQueue.Kernel.Init

/-!
# Loading and unloading policy modules

A policy module enters its `init_port` into the registry when it is loaded. `oq_init`
looks one up under the lock, and calls it after the lock is released, so modules may come
and go in between; a successful `init_port` leaves the callbacks of its module in the
private data. Code is known by the module it belongs to, and each load is a module of
its own: `rmmod` and a second `insmod` give other addresses.
-/

namespace OpenQueue

variable {ι : Type}

/-- The registry, the loaded modules, and for each qdisc the `init_port` that its
`oq_init` is about to call and the module whose callbacks it has. -/
structure Host (ι : Type) where
  registry : Registry Nat
  loaded : Finset Nat
  loads : Nat
  calling : ι → Option Nat
  callbacks : ι → Option Nat
  pools : Pools

/-- What may happen, in any order. -/
inductive HostOp (ι : Type) where
  /-- `insmod`; `mem` is what `kmalloc` hands out -/
  | load (mem : Option NameBuf) (name : Lib.CStr)
  /-- `rmmod` -/
  | unload (mod : Nat)
  /-- `oq_init` up to the release of the lock -/
  | lookup (x : ι) (opt : Option Registry.Opt)
  /-- `oq_init` from there on; `init_port` returns `code` -/
  | proceed (x : ι) (code : Int) (created : Pools)
  /-- the qdisc is deleted -/
  | destroy (x : ι)

/-- The generated `init` function of a module. -/
def moduleInit (mem : Option NameBuf) (name : Lib.CStr) (mod : Nat) : Registry.RegM Nat Int :=
  Registry.oqRegisterPolicy mem name mod

/-- The generated `exit` function, which prints a message. -/
def moduleExit (_mod : Nat) : Registry.RegM Nat Unit := pure ()

/-- Call the `init_port` of a module. -/
def callInitPort (loaded : Finset Nat) (code : Int) (mod : Nat) (callbacks : Option Nat) :
    Except Fault (Int × Option Nat) :=
  if mod ∈ loaded then .ok (code, if code = 0 then some mod else callbacks) else .error .deadCell

namespace Host

/-- One event, and the status that it returns. -/
def step [DecidableEq ι] (h : Host ι) : HostOp ι → Except Fault (Int × Host ι)
  | .load mem name =>
    match moduleInit mem name h.loads h.registry with
    | .error e => .error e
    | .ok (status, registry) =>
      .ok (status, { h with registry := registry, loaded := insert h.loads h.loaded, loads := h.loads + 1 })
  | .unload mod =>
    if mod ∈ h.loaded then
      match moduleExit mod h.registry with
      | .error e => .error e
      | .ok (_, registry) => .ok (0, { h with registry := registry, loaded := h.loaded.erase mod })
    else .ok (-eInval, h)
  | .lookup x opt =>
    match h.registry.requested opt with
    | .error e => .error e
    | .ok initPortFn => .ok (0, { h with calling := Function.update h.calling x initPortFn })
  | .proceed x code created =>
    match oqInitWith (callInitPort h.loaded code) created (h.calling x) (h.callbacks x) h.pools with
    | .error e => .error e
    | .ok (status, callbacks, pools) =>
      .ok (status, { h with
        calling := Function.update h.calling x none
        callbacks := Function.update h.callbacks x callbacks
        pools := pools })
  | .destroy x => .ok (0, { h with
      calling := Function.update h.calling x none
      callbacks := Function.update h.callbacks x none })

/-- No policy is loaded, and no qdisc is there. -/
structure Initial (h : Host ι) : Prop where
  registry : h.registry.Initial
  loaded : h.loaded = ∅
  calling : ∀ x, h.calling x = none
  callbacks : ∀ x, h.callbacks x = none

end Host

end OpenQueue
