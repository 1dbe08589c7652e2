import OpenQueue.Gen.Dispatch
import OpenQueue.Kernel.Init

/-!
# What a failed `oq_init` leaves behind

The generated `init_port` runs on the live private data and stops at the first call of
`init_queue` that fails; the globals are overwritten before the results of the allocations
are looked at; nothing is put back. So a failure is without effect exactly where everything
that was written up to it was there before.
-/

namespace OpenQueue

variable {φ : Type}

namespace Gen

/-! ## What `init_port` writes -/

/-- The queue is as `init_queue` sets it up: two empty trees with the node pools that the two
calls of `btree_init` give, the size and the name of the call, and no packet counted. -/
structure CInit.AlreadyIn (call : CInit) (trees : Trees) (pools : NodePools) (queue : OqQueue) : Prop where
  admnPool : ∃ pool, trees.admn = .ok pool ∧ pools.admn = some pool
  procPool : ∃ pool, trees.proc = .ok pool ∧ pools.proc = some pool
  ready : queue.ready = true
  admnQ : queue.admnQ = .empty
  procQ : queue.procQ = .empty
  maxLen : queue.maxLen = call.maxLen
  len : queue.len = 0
  dropped : queue.dropped = 0
  total : queue.total = 0
  name : queue.name.copy call.literal = queue.name

theorem CInit.AlreadyIn.succeed {call : CInit} {trees : Trees} {pools : NodePools} {queue : OqQueue}
    (h : call.AlreadyIn trees pools queue) : trees.succeed = true := by
  obtain ⟨pool, admn, -⟩ := h.admnPool
  obtain ⟨pool', proc, -⟩ := h.procPool
  rw [Trees.succeed, admn, proc]
  rfl

/-- A successful `init_queue` changes nothing exactly if the queue is set up like this. -/
theorem CInit.alreadyIn_iff {trees : Trees} (ok : trees.succeed = true) (call : CInit) (pools : NodePools)
    (queue : OqQueue) :
    call.AlreadyIn trees pools queue ↔ call.slot queue = queue ∧ trees.pools pools = pools := by
  constructor
  · rintro ⟨⟨pool, admn, old⟩, ⟨pool', proc, old'⟩, ready, admnQ, procQ, maxLen, len, dropped, total, name⟩
    obtain ⟨⟨_, _, _, _, _, _⟩, _, _⟩ := queue
    obtain ⟨_, _⟩ := pools
    simp only at old old' ready admnQ procQ maxLen len dropped total name
    subst old old' ready admnQ procQ maxLen len dropped total
    exact ⟨by simp only [CInit.slot, name], by rw [Trees.pools, admn, proc]; rfl⟩
  · obtain ⟨pool | _, pool' | _⟩ := trees
    · rintro ⟨same, kept⟩
      exact ⟨⟨pool, rfl, congrArg (·.admn) kept.symm⟩, ⟨pool', rfl, congrArg (·.proc) kept.symm⟩,
        congrArg (·.ready) same.symm, congrArg (·.admnQ) same.symm, congrArg (·.procQ) same.symm,
        congrArg (·.maxLen) same.symm, congrArg (·.len) same.symm, congrArg (·.dropped) same.symm,
        congrArg (·.total) same.symm, congrArg (·.name) same⟩
    all_goals cases ok

/-- A call of `btree_init` leaves this tree, and the pointer to its pool, as they were. -/
def TreeInit.Keeps (tree : BTree) (pool : Option Addr) : TreeInit → Prop
  | .ok new => tree = .empty ∧ pool = some new
  | .failed emptied poolLost => (emptied = true → tree = .empty) ∧ (poolLost = true → pool = none)

theorem TreeInit.keeps_iff (init : TreeInit) (tree : BTree) (pool : Option Addr) :
    init.Keeps tree pool ↔ init.tree tree = tree ∧ init.pool pool = pool := by
  cases init with
  | ok new => simp only [Keeps, TreeInit.tree, TreeInit.pool, eq_comm]
  | failed emptied poolLost => cases emptied <;> cases poolLost <;> simp [Keeps, TreeInit.tree, TreeInit.pool, eq_comm]

/-- `init_queue` fails on this queue and leaves it as it was: both calls of `btree_init` that
it makes do. `ready` says whether there are pools. -/
structure Trees.FailOn (trees : Trees) (pools : NodePools) (queue : OqQueue) : Prop where
  failed : trees.succeed = false
  admn : trees.admn.Keeps queue.admnQ pools.admn
  proc : trees.admn.succeeds = true → trees.proc.Keeps queue.procQ pools.proc
  ready : queue.ready = pools.both

theorem Trees.failOn_iff {trees : Trees} (failed : trees.succeed = false) (pools : NodePools) (queue : OqQueue) :
    trees.FailOn pools queue ↔ trees.queue pools queue = queue ∧ trees.pools pools = pools := by
  have kept : trees.pools pools = pools ↔ trees.admn.pool pools.admn = pools.admn ∧
      (trees.admn.succeeds = true → trees.proc.pool pools.proc = pools.proc) := by
    obtain ⟨admn, proc⟩ := pools
    simp only [Trees.pools, NodePools.mk.injEq, ite_eq_right_iff]
  have same : trees.queue pools queue = queue ↔ (trees.pools pools).both = queue.ready ∧
      trees.admn.tree queue.admnQ = queue.admnQ ∧
      (trees.admn.succeeds = true → trees.proc.tree queue.procQ = queue.procQ) := by
    obtain ⟨⟨_, _, _, _, _, _⟩, _, _⟩ := queue
    simp only [Trees.queue, OqQueue.mk.injEq, QueueInfo.mk.injEq, ite_eq_right_iff, and_true]
  constructor
  · rintro ⟨-, admn, proc, ready⟩
    rw [TreeInit.keeps_iff] at admn
    have pools : trees.pools pools = pools :=
      kept.2 ⟨admn.2, fun second => ((TreeInit.keeps_iff _ _ _).1 (proc second)).2⟩
    refine ⟨same.2 ⟨?_, admn.1, fun second => ((TreeInit.keeps_iff _ _ _).1 (proc second)).1⟩, pools⟩
    rw [pools, ready]
  · rintro ⟨queues, pools⟩
    obtain ⟨ready, tree, tree'⟩ := same.1 queues
    obtain ⟨pool, pool'⟩ := kept.1 pools
    rw [pools] at ready
    exact ⟨failed, (TreeInit.keeps_iff _ _ _).2 ⟨tree, pool⟩,
      fun second => (TreeInit.keeps_iff _ _ _).2 ⟨tree' second, pool' second⟩, ready.symm⟩

theorem OqPriv.put_other (priv : OqPriv) (pools : NodePools) (queue : OqQueue) {s slot : QId} (other : s ≠ slot) :
    (priv.put slot pools queue).queues s = priv.queues s ∧
      (priv.put slot pools queue).nodePools s = priv.nodePools s :=
  ⟨Function.update_of_ne other _ _, Function.update_of_ne other _ _⟩

/-- The private data when `init_port` stops: the calls before slot `j` have filled their slots,
and slot `j` is as its call leaves it. -/
def OqPriv.stopped (trees : Nat → Trees) (i : Nat) (calls : List CInit) (j : QId) (priv : OqPriv) : OqPriv :=
  (priv.filled trees i (calls.take (j.val - i))).put j ((trees j).pools (priv.nodePools j))
    ((trees j).queue (priv.nodePools j) (priv.queues j))

theorem OqPriv.stopped_cons (trees : Nat → Trees) {i : Nat} (inside : i < tcqOqMaxQueue) (call : CInit)
    (calls : List CInit) {j : QId} (after : i < j.val) (priv : OqPriv) :
    (priv.put ⟨i, inside⟩ ((trees i).pools (priv.nodePools ⟨i, inside⟩))
      (call.slot (priv.queues ⟨i, inside⟩))).stopped trees (i + 1) calls j = priv.stopped trees i (call :: calls) j := by
  have other : j ≠ ⟨i, inside⟩ := fun same => by simp [same] at after
  obtain ⟨d, steps⟩ : ∃ d, j.val - i = d + 1 := ⟨j.val - (i + 1), by omega⟩
  have steps' : j.val - (i + 1) = d := by omega
  obtain ⟨queues, pools⟩ := priv.put_other ((trees i).pools (priv.nodePools ⟨i, inside⟩))
    (call.slot (priv.queues ⟨i, inside⟩)) other
  rw [OqPriv.stopped, OqPriv.stopped, pools, queues, steps, steps', List.take_succ_cons, ← OqPriv.filled_cons]

/-- A slot that successful calls leave as it was. -/
theorem OqPriv.filled_eq_iff (trees : Nat → Trees) (priv : OqPriv) {n : Nat} {s : QId} {calls : List CInit} (here : s.val < n)
    (ok : s.val < calls.length → (trees s).succeed = true) :
    (priv.filled trees 0 (calls.take n)).queues s = priv.queues s ∧
        (priv.filled trees 0 (calls.take n)).nodePools s = priv.nodePools s ↔
      ∀ call, calls[s.val]? = some call → call.AlreadyIn (trees s) (priv.nodePools s) (priv.queues s) := by
  cases found : calls[s.val]? with
  | none => simp [OqPriv.filled, Gen.filled, List.getElem?_take_of_lt here, found]
  | some call =>
    have within := (List.getElem?_eq_some_iff.1 found).1
    simp [OqPriv.filled, Gen.filled, List.getElem?_take_of_lt here, found, CInit.alreadyIn_iff (ok within)]

/-- A stop changes nothing exactly if the slots before it were filled and its own is kept. -/
theorem OqPriv.stopped_eq_iff {trees : Nat → Trees} {priv : OqPriv} {calls : List CInit} {j : QId}
    (before : ∀ k < j.val, (trees k).succeed = true) (failed : (trees j).succeed = false) :
    priv.stopped trees 0 calls j = priv ↔ (trees j).FailOn (priv.nodePools j) (priv.queues j) ∧
      ∀ k < j, ∀ call, calls[k.val]? = some call → call.AlreadyIn (trees k) (priv.nodePools k) (priv.queues k) := by
  have slots : priv.stopped trees 0 calls j = priv ↔ ∀ s,
      (priv.stopped trees 0 calls j).queues s = priv.queues s ∧
        (priv.stopped trees 0 calls j).nodePools s = priv.nodePools s := by
    rw [OqPriv.ext_iff, funext_iff, funext_iff, forall_and]
    exact ⟨fun same => ⟨same.1, same.2.1⟩, fun same => ⟨same.1, same.2, rfl, rfl, rfl⟩⟩
  have own : (priv.stopped trees 0 calls j).queues j = priv.queues j ∧
      (priv.stopped trees 0 calls j).nodePools j = priv.nodePools j ↔
        (trees j).FailOn (priv.nodePools j) (priv.queues j) := by
    rw [Trees.failOn_iff failed]
    simp only [OqPriv.stopped, OqPriv.put, Function.update_self]
  have others : ∀ s, s ≠ j →
      (priv.stopped trees 0 calls j).queues s = (priv.filled trees 0 (calls.take j.val)).queues s ∧
        (priv.stopped trees 0 calls j).nodePools s = (priv.filled trees 0 (calls.take j.val)).nodePools s :=
    fun s other => OqPriv.put_other _ _ _ other
  rw [slots]
  constructor
  · intro same
    refine ⟨own.1 (same j), fun k lt => (priv.filled_eq_iff trees lt fun _ => before k lt).1 ?_⟩
    obtain ⟨queues, pools⟩ := others k (ne_of_lt lt)
    rw [← queues, ← pools]
    exact same k
  · rintro ⟨fails, already⟩ s
    rcases lt_trichotomy s j with less | rfl | greater
    · obtain ⟨queues, pools⟩ := others s (ne_of_lt less)
      rw [queues, pools]
      exact (priv.filled_eq_iff trees less fun _ => before s less).2 (already s less)
    · exact own.2 fails
    · obtain ⟨queues, pools⟩ := others s (ne_of_gt greater)
      rw [queues, pools]
      refine OqPriv.filled_rest trees ?_ priv
      rw [List.length_take]
      exact (Nat.min_le_left _ _).trans (Nat.le_of_lt greater)

/-- `init_port` stops at the first call that fails. -/
theorem initQueues_stops {trees : Nat → Trees} {priv left : OqPriv} {i : Nat} {calls : List CInit}
    (run : initQueues trees i calls priv = .ok (false, left)) :
    ∃ j : QId, i ≤ j.val ∧ j.val - i < calls.length ∧ (∀ k, i ≤ k → k < j.val → (trees k).succeed = true) ∧
      (trees j).succeed = false ∧ left = priv.stopped trees i calls j := by
  induction calls generalizing i priv with
  | nil => cases run
  | cons call calls ih =>
    by_cases inside : i < tcqOqMaxQueue
    · rcases initQueues_cons trees inside call calls priv with ⟨ok, eq⟩ | ⟨failed, eq⟩
      · rw [eq] at run
        obtain ⟨j, after, within, before, failed, rfl⟩ := ih run
        refine ⟨j, by omega, by rw [List.length_cons]; omega, fun k le lt => ?_, failed,
          OqPriv.stopped_cons trees inside call calls (by omega) priv⟩
        rcases Nat.lt_or_eq_of_le le with less | rfl
        · exact before k less lt
        · exact ok
      · rw [eq] at run
        cases run
        refine ⟨⟨i, inside⟩, Nat.le_refl i, by simp, fun k le lt => absurd lt (Nat.not_lt.2 le), failed, ?_⟩
        rw [OqPriv.stopped, Nat.sub_self, List.take_zero, OqPriv.filled_nil]
    · rw [initQueues_outside trees inside] at run
      cases run

/-- Where all calls succeed, `btree_init` does. -/
theorem initQueues_all_ok {trees : Nat → Trees} {priv left : OqPriv} {i k : Nat} {calls : List CInit}
    (run : initQueues trees i calls priv = .ok (true, left)) (within : k < calls.length) :
    (trees (i + k)).succeed = true := by
  induction calls generalizing i k priv with
  | nil => cases within
  | cons call calls ih =>
    by_cases inside : i < tcqOqMaxQueue
    · rcases initQueues_cons trees inside call calls priv with ⟨ok, eq⟩ | ⟨-, eq⟩
      · rw [eq] at run
        cases k with
        | zero => exact ok
        | succ k =>
          have rest := ih (k := k) run (by simpa using within)
          rwa [Nat.add_right_comm] at rest
      · rw [eq] at run
        cases run
    · rw [initQueues_outside trees inside] at run
      cases run

namespace CModule

variable {m : CModule} {trees : Nat → Trees} {priv priv' : OqPriv} {code : Int}

/-- `init_port` stops at a call that fails; the queues before it are set up already, and the
call leaves its own as it was. -/
def StopsHarmlessly (m : CModule) (trees : Nat → Trees) (priv : OqPriv) : Prop :=
  ∃ j : QId, j.val < m.inits.length ∧ (trees j).FailOn (priv.nodePools j) (priv.queues j) ∧
    ∀ k < j, ∀ call, m.inits[k.val]? = some call → call.AlreadyIn (trees k) (priv.nodePools k) (priv.queues k)

/-- All calls succeed, and everything that `init_port` writes is there already. -/
structure RunsHarmlessly (m : CModule) (trees : Nat → Trees) (priv : OqPriv) : Prop where
  queues : ∀ (k : QId) call, m.inits[k.val]? = some call →
    call.AlreadyIn (trees k) (priv.nodePools k) (priv.queues k)
  numQ : priv.numQ = BitVec.ofNat 32 m.noQueues
  portName : priv.portName.copy m.portName = priv.portName
  callbacks : priv.callbacks = some m.modName

/-- The two ways through `init_port`. -/
theorem initPort_ways (run : m.initPort trees priv = .ok (code, priv')) :
    code ≠ 0 ∧ initQueues trees 0 m.inits priv = .ok (false, priv') ∨
      code = 0 ∧ ∃ left, initQueues trees 0 m.inits priv = .ok (true, left) := by
  unfold initPort at run
  split at run
  · cases run
  · next calls =>
    cases run
    exact .inl ⟨by decide, calls⟩
  · next left calls =>
    cases run
    exact .inr ⟨rfl, left, calls⟩

/-- An `init_port` that fails changes nothing exactly if it stops harmlessly. -/
theorem stops_iff (run : initQueues trees 0 m.inits priv = .ok (false, priv')) :
    priv' = priv ↔ m.StopsHarmlessly trees priv := by
  obtain ⟨j, -, within, before, failed, rfl⟩ := initQueues_stops run
  rw [Nat.sub_zero] at within
  rw [OqPriv.stopped_eq_iff (fun k => before k (Nat.zero_le k)) failed]
  constructor
  · rintro ⟨fails, already⟩
    exact ⟨j, within, fails, already⟩
  · rintro ⟨j', -, fails, already⟩
    obtain rfl : j' = j := by
      rcases lt_trichotomy j' j with less | same | greater
      · exact absurd (before j' (Nat.zero_le _) less) (by rw [fails.failed]; decide)
      · exact same
      · exact absurd (already j greater _ (List.getElem?_eq_getElem within)).succeed (by rw [failed]; decide)
    exact ⟨fails, already⟩

theorem not_runs (run : initQueues trees 0 m.inits priv = .ok (false, priv')) : ¬ m.RunsHarmlessly trees priv := by
  obtain ⟨j, -, within, -, failed, -⟩ := initQueues_stops run
  intro runs
  rw [Nat.sub_zero] at within
  exact absurd (runs.queues j _ (List.getElem?_eq_getElem within)).succeed (by rw [failed]; decide)

theorem not_stops (run : initQueues trees 0 m.inits priv = .ok (true, priv')) : ¬ m.StopsHarmlessly trees priv := by
  rintro ⟨j, within, fails, -⟩
  have ok := initQueues_all_ok run within
  rw [Nat.zero_add, fails.failed] at ok
  cases ok

/-- One that succeeds changes nothing exactly if everything it writes is there. -/
theorem runs_iff (run : m.initPort trees priv = .ok (0, priv')) : priv' = priv ↔ m.RunsHarmlessly trees priv := by
  obtain ⟨fits, rfl⟩ := initPort_filled run
  have all_ok : ∀ k < m.inits.length, (trees k).succeed = true := by
    rcases initPort_ways run with ⟨bad, -⟩ | ⟨-, left, calls⟩
    · exact absurd rfl bad
    · intro k within
      have ok := initQueues_all_ok calls within
      rwa [Nat.zero_add] at ok
  have slots : ∀ s, (priv.filled trees 0 m.inits).queues s = priv.queues s ∧
      (priv.filled trees 0 m.inits).nodePools s = priv.nodePools s ↔ ∀ call, m.inits[s.val]? = some call →
        call.AlreadyIn (trees s) (priv.nodePools s) (priv.queues s) := by
    intro s
    have slot := priv.filled_eq_iff trees s.isLt (all_ok s)
    rwa [List.take_of_length_le fits] at slot
  rw [OqPriv.ext_iff, funext_iff, funext_iff]
  constructor
  · rintro ⟨queues, pools, count, name, set⟩
    exact ⟨fun k => (slots k).1 ⟨queues k, pools k⟩, count.symm, name, set.symm⟩
  · rintro ⟨already, count, name, set⟩
    exact ⟨fun k => ((slots k).2 (already k)).1, fun k => ((slots k).2 (already k)).2, count.symm, name, set.symm⟩

end CModule

end Gen

/-! ## `oq_init` -/

/-- The creation of the caches and pools fails, and the globals that are written until then
have these values already. -/
def Pools.FailHarmlessly (created pools : Pools) : Prop :=
  created.containerCache = pools.containerCache ∧ created.containerMempool = pools.containerMempool ∧
    (created.containerCache = none ∨ created.containerMempool = none ∨
      created.contListCache = pools.contListCache ∧ created.contListMempool = pools.contListMempool ∧
        (created.contListCache = none ∨ created.contListMempool = none))

/-- The two failures, and what they have written. -/
theorem initPools_cases {created pools : Pools} (failed : (initPools created pools).1 < 0) :
    (created.containerCache = none ∨ created.containerMempool = none) ∧ (initPools created pools).2 = { pools with
      containerCache := created.containerCache, containerMempool := created.containerMempool } ∨
    ¬ (created.containerCache = none ∨ created.containerMempool = none) ∧
      (created.contListCache = none ∨ created.contListMempool = none) ∧ (initPools created pools).2 = created := by
  unfold initPools at *
  split at failed
  · next first => exact .inl ⟨first, by rw [if_pos first]⟩
  · next first =>
    split at failed
    · next second => exact .inr ⟨first, second, by rw [if_neg first, if_pos second]⟩
    · exact absurd failed (lt_irrefl 0)

theorem initPools_eq_iff {created pools : Pools} (failed : (initPools created pools).1 < 0) :
    (initPools created pools).2 = pools ↔ created.FailHarmlessly pools := by
  rcases initPools_cases failed with ⟨first, written⟩ | ⟨first, second, written⟩ <;> rw [written]
  · constructor
    · intro same
      exact ⟨congrArg (·.containerCache) same, congrArg (·.containerMempool) same, or_assoc.1 (.inl first)⟩
    · rintro ⟨cache, mempool, -⟩
      rw [cache, mempool]
  · constructor
    · rintro rfl
      exact ⟨rfl, rfl, .inr (.inr ⟨rfl, rfl, second⟩)⟩
    · rintro ⟨cache, mempool, rest⟩
      obtain ⟨cache', mempool', -⟩ := (or_assoc.2 rest).resolve_left first
      obtain ⟨_, _, _, _⟩ := created
      obtain ⟨_, _, _, _⟩ := pools
      simp only at cache mempool cache' mempool'
      rw [cache, mempool, cache', mempool']

/-- A failure of `oq_init` that writes nothing new: no policy is found; `init_port` stops
where all that it wrote was there; or it succeeds without a change, and so do the
allocations up to the one that fails. -/
def InitHarmless (trees : Nat → Gen.Trees) (opt : Option Registry.Opt) (created : Pools) (r : Registry Gen.CModule)
    (priv : Gen.OqPriv) (pools : Pools) : Prop :=
  r.requested opt = .ok none ∨ ∃ m, r.requested opt = .ok (some m) ∧
    (m.StopsHarmlessly trees priv ∨ m.RunsHarmlessly trees priv ∧ created.FailHarmlessly pools)

theorem InitHarmless.of_found {trees : Nat → Gen.Trees} {opt : Option Registry.Opt} {created : Pools}
    {r : Registry Gen.CModule} {priv : Gen.OqPriv} {pools : Pools} {m : Gen.CModule}
    (found : r.requested opt = .ok (some m)) :
    InitHarmless trees opt created r priv pools ↔
      m.StopsHarmlessly trees priv ∨ m.RunsHarmlessly trees priv ∧ created.FailHarmlessly pools := by
  simp only [InitHarmless, found, Except.ok.injEq, Option.some.injEq, reduceCtorEq, false_or, exists_eq_left']

/-- A failed `oq_init` has changed neither the private data nor the globals exactly if its
failure was harmless. -/
theorem failed_init_unchanged_iff {trees : Nat → Gen.Trees} {opt : Option Registry.Opt} {created : Pools}
    {r : Registry Gen.CModule} {priv priv' : Gen.OqPriv} {pools pools' : Pools} {code : Int}
    (run : oqInit (fun m priv => m.initPort trees priv) opt created r priv pools = .ok (code, priv', pools'))
    (failed : code < 0) :
    priv' = priv ∧ pools' = pools ↔ InitHarmless trees opt created r priv pools := by
  rcases oqInit_cases run with ⟨found, -, rfl, rfl⟩ | ⟨m, c, found, port, ⟨bad, -, rfl⟩ | ⟨rfl, rfl, rfl⟩⟩
  · exact iff_of_true ⟨rfl, rfl⟩ (.inl found)
  · obtain ⟨-, stops⟩ := (Gen.CModule.initPort_ways port).resolve_right fun good => bad good.1
    rw [and_iff_left rfl, Gen.CModule.stops_iff stops, InitHarmless.of_found found]
    exact ⟨.inl, fun harmless => harmless.resolve_right fun runs => Gen.CModule.not_runs stops runs.1⟩
  · obtain ⟨-, left, calls⟩ := (Gen.CModule.initPort_ways port).resolve_left fun stops => stops.1 rfl
    rw [Gen.CModule.runs_iff port, initPools_eq_iff failed, InitHarmless.of_found found]
    exact ⟨.inr, fun harmless => harmless.resolve_left (Gen.CModule.not_stops calls)⟩

/-- A registry with one policy, called `a`. -/
def onePolicy (initPortFn : φ) : Registry φ where
  name _ := NameBuf.copy (.zero _) ⟨[97], by decide⟩
  initPortFn _ := initPortFn
  next _ := 0
  prev _ := 0
  conts := Lib.Pool.empty.alloc
  base := some 0

/-- The block that asks for it. -/
def askForIt : Registry.Opt := ⟨Registry.sizeofTcOqQopt, NameBuf.copy (.zero _) ⟨[97], by decide⟩⟩

theorem onePolicy_requested (fn : φ) : (onePolicy fn).requested (some askForIt) = .ok (some fn) := rfl

/-- `policy/oqp_my_port`, as far as its `init_port` goes. -/
def myPort : Gen.CModule where
  congFunc := []
  congActFunc := []
  admnFunc := []
  procFunc := []
  inits := [⟨⟨[113, 49], by decide⟩, 128⟩, ⟨⟨[113, 50], by decide⟩, 1024⟩]
  noQueues := 2
  portName := ⟨[109, 121, 80, 111, 114, 116], by decide⟩
  modName := "oqp_my_port".toList

/-- Both trees of queue 0 get their node pool. The trees of queue 1 are emptied and get none. -/
def secondFails (i : Nat) : Gen.Trees :=
  if i = 0 then ⟨.ok 0, .ok 1⟩ else ⟨.failed true true, .failed true true⟩

/-- No allocation has been made, or none succeeds. -/
def noPools : Pools := ⟨none, none, none, none⟩

/-- What such an initialisation leaves of a zeroed `struct oq_priv`. -/
theorem secondFails_run : ∃ priv, oqInit (fun m priv => m.initPort secondFails priv) (some askForIt) noPools
    (onePolicy myPort) Gen.OqPriv.zero noPools = .ok (-eInval, priv, noPools) ∧ (priv.queues 0).ready = true := by
  have seen : (match oqInit (fun m priv => m.initPort secondFails priv) (some askForIt) noPools (onePolicy myPort)
      Gen.OqPriv.zero noPools with
      | .ok (code, priv, pools) => some (code, (priv.queues 0).ready, pools)
      | .error _ => none) = some (-eInval, true, noPools) := by
    decide +kernel
  split at seen
  · next code priv pools run =>
    simp only [Option.some.injEq, Prod.mk.injEq] at seen
    obtain ⟨rfl, ready, rfl⟩ := seen
    exact ⟨priv, run, ready⟩
  · cases seen

theorem secondFails_unchanged_iff :
    ∃ priv, oqInit (fun m priv => m.initPort secondFails priv) (some askForIt) noPools (onePolicy myPort)
      Gen.OqPriv.zero noPools = .ok (-eInval, priv, noPools) ∧
      (priv = Gen.OqPriv.zero ∧ noPools = noPools ↔
        InitHarmless secondFails (some askForIt) noPools (onePolicy myPort) Gen.OqPriv.zero noPools) := by
  obtain ⟨priv, run, -⟩ := secondFails_run
  exact ⟨priv, run, failed_init_unchanged_iff run (by decide)⟩

/-- The second queue gets no memory: `-EINVAL`, and the first is set up. -/
theorem failed_init_changes_priv :
    ¬ ∀ code priv pools, oqInit (fun m priv => m.initPort secondFails priv) (some askForIt) noPools (onePolicy myPort)
      Gen.OqPriv.zero noPools = .ok (code, priv, pools) → code < 0 → priv = Gen.OqPriv.zero ∧ pools = noPools := by
  intro always
  obtain ⟨priv, run, ready⟩ := secondFails_run
  obtain ⟨rfl, -⟩ := always _ _ _ run (by decide)
  cases ready

end OpenQueue
