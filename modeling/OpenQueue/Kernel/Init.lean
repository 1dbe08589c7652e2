import OpenQueue.Kernel.Registry

/-!
# `oq_init`

`.init` and `.change` of the qdisc: look the requested policy up, run its `init_port` on
the private data, and create the caches and pools of the module. These four pointers are
globals that all instances share, and every call that gets so far writes them. What the
private data is, and what `init_port` does to it, is left open.
-/

namespace OpenQueue

variable {φ ρ : Type}

/-- Lines 345-357: look a name up in the registry. -/
def Registry.lookup (portName : NameBuf) : Registry.RegM φ (Option φ) := do
  let container ← deref (← get).base
  findPolicy portName (← get).conts.brk container

/-- Lines 337-358: the policy that is asked for. Without an option block none is, and a
short block is refused like an unknown name. -/
def Registry.requested (r : Registry φ) : Option Registry.Opt → Except Fault (Option φ)
  | none => .ok none
  | some opt =>
    if opt.nlaLen < sizeofTcOqQopt then .ok none
    else match r.lookup opt.portName with
      | .error e => .error e
      | .ok (initPortFn, _) => .ok initPortFn

/-- `skb_container_cache`, `skb_container_mempool`, `skb_cont_list_cache` and
`skb_cont_list_mempool`: `NULL`, or an address. -/
structure Pools where
  containerCache : Option Addr
  containerMempool : Option Addr
  contListCache : Option Addr
  contListMempool : Option Addr
  deriving DecidableEq

/-- Lines 363-376: initialize memory pools. `created` is what the calls of
`kmem_cache_create` and `mempool_create` return, as far as they are made. -/
def initPools (created pools : Pools) : Int × Pools :=
  if created.containerCache = none ∨ created.containerMempool = none then
    (-eNoMem, { pools with
      containerCache := created.containerCache
      containerMempool := created.containerMempool })
  else if created.contListCache = none ∨ created.contListMempool = none then (-eNoMem, created)
  else (0, created)

/-- Lines 360-376, with the policy that was found. -/
def oqInitWith (initPort : φ → ρ → Except Fault (Int × ρ)) (created : Pools) (initPortFn : Option φ) (priv : ρ)
    (pools : Pools) : Except Fault (Int × ρ × Pools) :=
  match initPortFn with
  | none => .ok (-eInval, priv, pools)
  | some fn =>
    match initPort fn priv with
    | .error e => .error e
    | .ok (code, priv) =>
      if code ≠ 0 then .ok (-eInval, priv, pools)
      else .ok ((initPools created pools).1, priv, (initPools created pools).2)

/-- Initialize qdisc for the given policy. -/
def oqInit (initPort : φ → ρ → Except Fault (Int × ρ)) (opt : Option Registry.Opt) (created : Pools) (r : Registry φ)
    (priv : ρ) (pools : Pools) : Except Fault (Int × ρ × Pools) :=
  match r.requested opt with
  | .error e => .error e
  | .ok initPortFn => oqInitWith initPort created initPortFn priv pools

/-- The ways through `oq_init`: no policy, one whose `init_port` fails, and one for which
the pools are created. -/
theorem oqInit_cases {initPort : φ → ρ → Except Fault (Int × ρ)} {opt : Option Registry.Opt} {created : Pools}
    {r : Registry φ} {priv priv' : ρ} {pools pools' : Pools} {code : Int}
    (run : oqInit initPort opt created r priv pools = .ok (code, priv', pools')) :
    (r.requested opt = .ok none ∧ code = -eInval ∧ priv' = priv ∧ pools' = pools) ∨
    ∃ fn c, r.requested opt = .ok (some fn) ∧ initPort fn priv = .ok (c, priv') ∧
      (c ≠ 0 ∧ code = -eInval ∧ pools' = pools ∨
        c = 0 ∧ code = (initPools created pools).1 ∧ pools' = (initPools created pools).2) := by
  unfold oqInit at run
  cases found : r.requested opt with
  | error e =>
    rw [found] at run
    cases run
  | ok initPortFn =>
    rw [found] at run
    cases initPortFn with
    | none =>
      cases run
      exact .inl ⟨rfl, rfl, rfl, rfl⟩
    | some fn =>
      simp only [oqInitWith] at run
      cases port : initPort fn priv with
      | error e =>
        rw [port] at run
        cases run
      | ok answer =>
        obtain ⟨c, priv''⟩ := answer
        simp only [port] at run
        by_cases failed : c ≠ 0
        · rw [if_pos failed] at run
          cases run
          exact .inr ⟨fn, c, rfl, port, .inl ⟨failed, rfl, rfl⟩⟩
        · rw [if_neg failed] at run
          cases run
          exact .inr ⟨fn, c, rfl, port, .inr ⟨not_not.1 failed, rfl, rfl⟩⟩

/-- Which of the two pairs of globals get a value. -/
def Pools.created (p : Pools) : Registry.PoolsCreated :=
  ⟨p.containerCache.isSome && p.containerMempool.isSome, p.contListCache.isSome && p.contListMempool.isSome⟩

theorem initPools_code (created pools : Pools) :
    (initPools created pools).1 = if created.created.containers && created.created.contLists then 0 else -eNoMem := by
  obtain ⟨cache, mempool, cache', mempool'⟩ := created
  cases cache <;> cases mempool <;> cases cache' <;> cases mempool' <;> rfl

/-- What the registry's side of `oq_init` answers, once the policy is known. -/
theorem Registry.oqInit_requested {opt : Option Registry.Opt} {r : Registry φ} {initPortFn : Option φ}
    (found : r.requested opt = .ok initPortFn) (result : φ → Int) (created : PoolsCreated) :
    ∃ r', Registry.oqInit opt result created r = .ok ((initPortFn.elim (-eInval) fun fn =>
      if result fn ≠ 0 then -eInval else if created.containers && created.contLists then 0 else -eNoMem,
      initPortFn), r') := by
  unfold requested at found
  unfold Registry.oqInit
  cases opt with
  | none =>
    cases found
    exact ⟨r, rfl⟩
  | some opt =>
    simp only at found ⊢
    by_cases short : opt.nlaLen < sizeofTcOqQopt
    · rw [if_pos short] at found
      cases found
      exact ⟨r, by rw [if_pos short]; rfl⟩
    · simp only [if_neg short, lookup, run_bind, run_get] at found ⊢
      cases base : deref r.base r with
      | error e =>
        rw [base] at found
        cases found
      | ok head =>
        simp only [base] at found ⊢
        cases search : findPolicy opt.portName head.2.conts.brk head.1 head.2 with
        | error e =>
          rw [search] at found
          cases found
        | ok res =>
          obtain ⟨fn, r'⟩ := res
          rw [search] at found
          cases found
          refine ⟨r', ?_⟩
          cases initPortFn with
          | none => rfl
          | some fn =>
            by_cases failed : result fn ≠ 0
            · simp [failed]
            · obtain ⟨containers, contLists⟩ := created
              cases containers <;> cases contLists <;> simp [failed]

/-- Seen from the registry, where `init_port` is known by its result. -/
theorem oqInit_registry {initPort : φ → ρ → Except Fault (Int × ρ)} {opt : Option Registry.Opt} {created : Pools}
    {r : Registry φ} {priv priv' : ρ} {pools pools' : Pools} {code : Int} {result : φ → Int}
    (same : ∀ fn c priv', initPort fn priv = .ok (c, priv') → result fn = c)
    (run : oqInit initPort opt created r priv pools = .ok (code, priv', pools')) :
    ∃ called r', Registry.oqInit opt result created.created r = .ok ((code, called), r') := by
  rcases oqInit_cases run with ⟨found, rfl, -, -⟩ | ⟨fn, c, found, port, ⟨bad, rfl, -⟩ | ⟨rfl, rfl, -⟩⟩
  · exact ⟨none, Registry.oqInit_requested found result created.created⟩
  · obtain ⟨r', answer⟩ := Registry.oqInit_requested found result created.created
    rw [Option.elim_some, same fn c priv' port, if_pos bad] at answer
    exact ⟨some fn, r', answer⟩
  · obtain ⟨r', answer⟩ := Registry.oqInit_requested found result created.created
    rw [Option.elim_some, same fn 0 priv' port, if_neg (not_not.2 rfl), ← initPools_code created pools] at answer
    exact ⟨some fn, r', answer⟩

end OpenQueue
