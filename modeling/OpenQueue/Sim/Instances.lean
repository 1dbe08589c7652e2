import OpenQueue.Gen.Dispatch
import OpenQueue.Kernel.Instances
import OpenQueue.Lib.Run
import OpenQueue.Sim.Observe
import OpenQueue.Sim.Pools
import Mathlib

/-!
# All instances on one memory

Seen from one instance, the cells of the others are a frame. A call keeps them, as a
call on a single port keeps the cells it does not own; `init_port` gives a queue an empty
tree in place of its own, whose cells stay live and belong to nobody.
-/

namespace OpenQueue

variable {ι Ω π : Type}

/-! ## What `init_port` does to the trees -/

/-- Each of the two trees is as before, or a new one. -/
def Emptied (q q' : OqQueue) : Prop := ∀ t, q'.tree t = q.tree t ∨ q'.tree t = .empty

namespace Gen

theorem TreeInit.tree_emptied (init : TreeInit) (tree : BTree) : init.tree tree = tree ∨ init.tree tree = .empty := by
  cases init with
  | ok pool => exact .inr rfl
  | failed emptied poolLost =>
    cases emptied with
    | false => exact .inl rfl
    | true => exact .inr rfl

theorem Trees.queue_emptied (trees : Trees) (pools : NodePools) (queue : OqQueue) :
    Emptied queue (trees.queue pools queue) := by
  intro t
  cases t with
  | admn => exact trees.admn.tree_emptied queue.admnQ
  | proc =>
    show (if trees.admn.succeeds then trees.proc.tree queue.procQ else queue.procQ) = queue.procQ ∨
      (if trees.admn.succeeds then trees.proc.tree queue.procQ else queue.procQ) = .empty
    split
    · exact trees.proc.tree_emptied queue.procQ
    · exact .inl rfl

theorem CInit.slot_emptied (call : CInit) (queue : OqQueue) : Emptied queue (call.slot queue) := by
  intro t
  cases t <;> exact .inr rfl

theorem OqPriv.put_emptied {priv : OqPriv} {slot : QId} {pools : NodePools} {queue : OqQueue}
    (here : Emptied (priv.queues slot) queue) (j : QId) :
    Emptied (priv.queues j) ((priv.put slot pools queue).queues j) := by
  show Emptied (priv.queues j) (Function.update priv.queues slot queue j)
  by_cases same : j = slot
  · subst same
    rwa [Function.update_self]
  · rw [Function.update_of_ne same]
    exact fun _ => .inl rfl

theorem initQueues_emptied {trees : Nat → Trees} {i : Nat} {calls : List CInit} {priv priv' : OqPriv} {ok : Bool}
    (run : initQueues trees i calls priv = .ok (ok, priv')) (j : QId) : Emptied (priv.queues j) (priv'.queues j) := by
  induction calls generalizing i priv with
  | nil =>
    cases run
    exact fun _ => .inl rfl
  | cons call calls ih =>
    by_cases inside : i < tcqOqMaxQueue
    · rcases initQueues_cons trees inside call calls priv with ⟨-, eq⟩ | ⟨-, eq⟩
      · rw [eq] at run
        intro t
        rcases ih run t with kept | fresh
        · rw [kept]
          exact OqPriv.put_emptied (call.slot_emptied _) j t
        · exact .inr fresh
      · rw [eq] at run
        cases run
        exact OqPriv.put_emptied ((trees i).queue_emptied _ _) j
    · rw [initQueues_outside trees inside] at run
      cases run

theorem CModule.initPort_emptied {m : CModule} {trees : Nat → Trees} {priv priv' : OqPriv} {code : Int}
    (run : m.initPort trees priv = .ok (code, priv')) (j : QId) : Emptied (priv.queues j) (priv'.queues j) := by
  unfold CModule.initPort at run
  split at run
  · cases run
  · next calls =>
    cases run
    exact initQueues_emptied calls j
  · next calls =>
    cases run
    exact initQueues_emptied calls j

end Gen

/-- The ways through the `init_port` of a module. -/
theorem PolicyModule.initPort_cases {trees : Nat → Gen.Trees} {m : PolicyModule Ω π} {d d' : Qdisc Ω π} {code : Int}
    (run : m.initPort trees d = .ok (code, d')) :
    m.code.initPort trees d.priv = .ok (code, d'.priv) ∧ d'.q = d.q ∧
      d'.callbacks = if code = 0 then some m.callbacks else d.callbacks := by
  unfold PolicyModule.initPort at run
  split at run
  · cases run
  · next port =>
    cases run
    exact ⟨port, rfl, rfl⟩

/-- A successful one gives each of its queues two new trees, and leaves the others. -/
theorem PolicyModule.initPort_zero_cases {trees : Nat → Gen.Trees} {m : PolicyModule Ω π} {d d' : Qdisc Ω π}
    (run : m.initPort trees d = .ok (0, d')) (j : QId) :
    j.val < m.code.inits.length ∧ (∀ t, (d'.priv.queues j).tree t = .empty) ∧ (d'.priv.queues j).len = 0 ∨
      m.code.inits.length ≤ j.val ∧ d'.priv.queues j = d.priv.queues j := by
  obtain ⟨port, -, -⟩ := initPort_cases run
  have filled : d'.priv.queues = Gen.filled (fun _ call => call.slot) 0 m.code.inits d.priv.queues := by
    rw [(Gen.CModule.initPort_filled port).2]
    rfl
  rw [filled]
  rcases Nat.lt_or_ge j.val m.code.inits.length with inside | beyond
  · refine .inl ⟨inside, ?_⟩
    rw [Gen.filled_slot (List.getElem?_eq_getElem inside)]
    refine ⟨fun t => ?_, rfl⟩
    cases t <;> rfl
  · exact .inr ⟨beyond, Gen.filled_rest beyond _⟩

/-! ## The memory of all instances -/

section

variable [Fintype ι] [DecidableEq ι]

/-- The cells of an instance. -/
def total (f : QLayout → Multiset Addr) (g : QId → QLayout) : Multiset Addr := ∑ i, f (g i)

/-- The memory holds the lists of all queues of all instances, laid out by `g`; besides
their cells only the lost ones, `C` and `L`, are live. -/
structure SystemRepr (s : System ι Ω π) (g : ι → QId → QLayout) (C L : Multiset Addr) (a : ι → QId → ListQueue π) :
    Prop where
  queues : ∀ x i, QueueRepr s.mem ((s.qdiscs x).priv.queues i) (g x i) (a x i)
  conts : s.mem.conts.Owns (∑ x, total QLayout.cells (g x) + C)
  lists : s.mem.lists.Owns (∑ x, total QLayout.heads (g x) + L)

namespace SystemRepr

variable {s : System ι Ω π} {g : ι → QId → QLayout} {C L : Multiset Addr} {a : ι → QId → ListQueue π}

/-- Seen from one instance. -/
theorem port (repr : SystemRepr s g C L a) (x : ι) :
    PortRepr (s.port x) (g x) (rest (total QLayout.cells) g x + C) (rest (total QLayout.heads) g x + L)
      ⟨a x, s.mem.freed⟩ := by
  refine ⟨repr.queues x, ?_, ?_, rfl⟩
  · have conts := repr.conts
    rwa [sum_eq_rest _ g x, add_assoc] at conts
  · have lists := repr.lists
    rwa [sum_eq_rest _ g x, add_assoc] at lists

/-- One instance changes and the others are framed. -/
theorem setPort {x : ι} {p : Port π} {g' : QId → QLayout} {C' L' : Multiset Addr} {b : ListPort π}
    (repr : SystemRepr s g C L a)
    (after : PortRepr p g' (C' + (rest (total QLayout.cells) g x + C)) (L' + (rest (total QLayout.heads) g x + L)) b)
    (frame : Frame s.mem p.mem (rest (total QLayout.cells) g x + C) (rest (total QLayout.heads) g x + L)) :
    SystemRepr (s.setPort x p) (Function.update g x g') (C' + C) (L' + L) (Function.update a x b.queues) := by
  refine ⟨?_, ?_, ?_⟩
  · intro y i
    by_cases same : y = x
    · subst same
      simpa only [System.setPort, Function.update_self] using after.queues i
    · simp only [System.setPort, Function.update_of_ne same]
      have inside : ∀ (f : QLayout → Multiset Addr) (c : Addr), c ∈ f (g y i) → c ∈ rest (total f) g x :=
        fun f c h => mem_rest same (Multiset.mem_sum.2 ⟨i, Finset.mem_univ i, h⟩)
      exact (repr.queues y i).frame frame (fun c h => Multiset.mem_add.2 (.inl (inside _ c h)))
        fun c h => Multiset.mem_add.2 (.inl (inside _ c h))
  · have conts := after.conts
    rw [sum_eq_rest _ _ x, rest_update, Function.update_self]
    rwa [add_left_comm C', ← add_assoc] at conts
  · have lists := after.lists
    rw [sum_eq_rest _ _ x, rest_update, Function.update_self]
    rwa [add_left_comm L', ← add_assoc] at lists

/-- Only the log of freed packets and the packet lists have changed. -/
theorem reset (repr : SystemRepr s g C L a) (x : ι) : SystemRepr (s.reset x) g C L a := by
  refine ⟨fun y i => ?_, repr.conts, repr.lists⟩
  have queues : ((s.reset x).qdiscs y).priv.queues i = (s.qdiscs y).priv.queues i := by
    by_cases same : y = x
    · subst same
      simp only [System.reset, Function.update_self]
    · simp only [System.reset, Function.update_of_ne same]
  rw [queues]
  exact (repr.queues y i).frame (F := (g y i).cells) (G := (g y i).heads) (Frame.of_eq rfl rfl rfl rfl rfl)
    (fun _ h => h) fun _ h => h

end SystemRepr

/-- A queue that is given new trees holds nothing in them. -/
theorem QueueRepr.emptied {m : Mem π} {q q' : OqQueue} {g : QLayout} {a : ListQueue π} (repr : QueueRepr m q g a)
    (emptied : Emptied q q') : ∃ g' a', QueueRepr m q' g' a' ∧
      ∀ t, g'.side t = g.side t ∨ g'.side t = .empty := by
  have admn : ∃ g' l, TreeRepr m q'.admnQ g' l ∧ (g' = g.admn ∨ g' = .empty) := by
    rcases emptied .admn with kept | fresh
    · exact ⟨g.admn, a.admn, by rw [show q'.admnQ = q.admnQ from kept]; exact repr.admn, .inl rfl⟩
    · exact ⟨.empty, [], by rw [show q'.admnQ = .empty from fresh]; exact .empty m, .inr rfl⟩
  have proc : ∃ g' l, TreeRepr m q'.procQ g' l ∧ (g' = g.proc ∨ g' = .empty) := by
    rcases emptied .proc with kept | fresh
    · exact ⟨g.proc, a.proc, by rw [show q'.procQ = q.procQ from kept]; exact repr.proc, .inl rfl⟩
    · exact ⟨.empty, [], by rw [show q'.procQ = .empty from fresh]; exact .empty m, .inr rfl⟩
  obtain ⟨g₁, l₁, repr₁, way₁⟩ := admn
  obtain ⟨g₂, l₂, repr₂, way₂⟩ := proc
  refine ⟨⟨g₁, g₂⟩, ⟨q'.toQueueInfo, l₁, l₂⟩, ⟨rfl, repr₁, repr₂⟩, fun t => ?_⟩
  cases t with
  | admn => exact way₁
  | proc => exact way₂

theorem QLayout.le_of_emptied {g g' : QLayout} (emptied : ∀ t, g'.side t = g.side t ∨ g'.side t = .empty)
    {f : Layout → Multiset Addr} (none : f .empty = 0) : f g'.admn + f g'.proc ≤ f g.admn + f g.proc := by
  have le : ∀ t, f (g'.side t) ≤ f (g.side t) := by
    intro t
    rcases emptied t with kept | fresh
    · rw [kept]
    · rw [fresh, none]
      exact Multiset.zero_le _
  exact add_le_add (le .admn) (le .proc)

/-- An instance is given new trees, whose old cells are lost. -/
theorem SystemRepr.init {s : System ι Ω π} {g : ι → QId → QLayout} {C L : Multiset Addr} {a : ι → QId → ListQueue π}
    {x : ι} {d : Qdisc Ω π} (repr : SystemRepr s g C L a)
    (emptied : ∀ i, Emptied ((s.qdiscs x).priv.queues i) (d.priv.queues i)) (pools : Pools) :
    ∃ g' a' C' L', SystemRepr { s with qdiscs := Function.update s.qdiscs x d, pools := pools }
        (Function.update g x g') C' L' (Function.update a x a') ∧
      ∀ i t, (g' i).side t = (g x i).side t ∨ (g' i).side t = .empty := by
  have each : ∀ i, ∃ g' a', QueueRepr s.mem (d.priv.queues i) g' a' ∧
      ∀ t, g'.side t = (g x i).side t ∨ g'.side t = .empty := fun i => (repr.queues x i).emptied (emptied i)
  choose g' a' queues way using each
  have fewer : total QLayout.cells g' ≤ total QLayout.cells (g x) :=
    Finset.sum_le_sum fun i _ => QLayout.le_of_emptied (way i) rfl
  have fewer' : total QLayout.heads g' ≤ total QLayout.heads (g x) :=
    Finset.sum_le_sum fun i _ => QLayout.le_of_emptied (way i) rfl
  obtain ⟨C', lost⟩ := Multiset.le_iff_exists_add.1 fewer
  obtain ⟨L', lost'⟩ := Multiset.le_iff_exists_add.1 fewer'
  refine ⟨g', a', C' + C, L' + L, ⟨?_, ?_, ?_⟩, way⟩
  · intro y i
    by_cases same : y = x
    · subst same
      simpa only [Function.update_self] using queues i
    · simpa only [Function.update_of_ne same] using repr.queues y i
  · have conts := repr.conts
    rw [sum_eq_rest _ g x, lost, add_assoc, add_assoc, add_left_comm C', ← add_assoc] at conts
    rwa [sum_eq_rest _ _ x, rest_update, Function.update_self]
  · have lists := repr.lists
    rw [sum_eq_rest _ g x, lost', add_assoc, add_assoc, add_left_comm L', ← add_assoc] at lists
    rwa [sum_eq_rest _ _ x, rest_update, Function.update_self]

/-! ## Steps and runs -/

namespace System

variable {s s' : System ι Ω π} {x : ι}

omit [Fintype ι] in
/-- A call that returns. -/
theorem call_cases {c : Call Ω π} {out : Out π} (run : s.call x c = .ok (out, s')) :
    ∃ cb p, (s.qdiscs x).callbacks = some cb ∧ (s.port x).call cb c = .ok (out, p) ∧ s.PoolsReady p.mem ∧
      s' = s.setPort x p := by
  unfold call at run
  split at run
  · cases run
  · next cb stored =>
    split at run
    · cases run
    · next p answer =>
      split at run
      · next ready =>
        cases run
        exact ⟨cb, p, stored, answer, ready, rfl⟩
      · cases run

omit [Fintype ι] in
/-- An `oq_init` that returns: which policy it calls, and what becomes of the globals. -/
theorem init_cases {opt : Option Registry.Opt} {r : Registry (PolicyModule Ω π)} {trees : Nat → Gen.Trees}
    {created : Pools} {code : Int} (run : s.init x opt r trees created = .ok (code, s')) :
    (r.requested opt = .ok none ∧ code = -eInval ∧ s' = s) ∨
    ∃ fn d c, r.requested opt = .ok (some fn) ∧ fn.initPort trees (s.qdiscs x) = .ok (c, d) ∧
      (c ≠ 0 ∧ code = -eInval ∧ s' = { s with qdiscs := Function.update s.qdiscs x d } ∨
        c = 0 ∧ code = (initPools created s.pools).1 ∧
          s' = { s with qdiscs := Function.update s.qdiscs x d, pools := (initPools created s.pools).2 }) := by
  unfold init at run
  split at run
  · cases run
  · next d pools answer =>
    cases run
    rcases oqInit_cases answer with ⟨found, rfl, rfl, rfl⟩ | ⟨fn, c, found, port, ⟨bad, rfl, rfl⟩ | ⟨good, rfl, rfl⟩⟩
    · refine .inl ⟨found, rfl, ?_⟩
      rw [Function.update_eq_self]
    · exact .inr ⟨fn, d, c, found, port, .inl ⟨bad, rfl, rfl⟩⟩
    · exact .inr ⟨fn, d, c, found, port, .inr ⟨good, rfl, rfl⟩⟩

omit [Fintype ι] in
theorem step_init_eq_ok {opt : Option Registry.Opt} {r : Registry (PolicyModule Ω π)} {trees : Nat → Gen.Trees}
    {created : Pools} {out : SysOut π} :
    s.step (.init x opt r trees created) = .ok (out, s') ↔
      ∃ code, out = .code code ∧ s.init x opt r trees created = .ok (code, s') := by
  cases run : s.init x opt r trees created with
  | error e => simp [step, run, Except.map]
  | ok a =>
    obtain ⟨code, s₁⟩ := a
    simp [step, run, Except.map, eq_comm]

omit [Fintype ι] in
theorem step_call_eq_ok {c : Call Ω π} {out : SysOut π} :
    s.step (.call x c) = .ok (out, s') ↔ ∃ o, out = .out o ∧ s.call x c = .ok (o, s') := by
  cases run : s.call x c with
  | error e => simp [step, run, Except.map]
  | ok a =>
    obtain ⟨o, s₁⟩ := a
    simp [step, run, Except.map, eq_comm]

variable {g : ι → QId → QLayout} {C L : Multiset Addr} {a : ι → QId → ListQueue π}

/-- The call of an instance is that of its port, and nobody else notices. -/
theorem call_repr {c : Call Ω π} {out : Out π} (repr : SystemRepr s g C L a) (run : s.call x c = .ok (out, s')) :
    ∃ cb g' C' L' b, (s.qdiscs x).callbacks = some cb ∧
      (ListPort.mk (a x) s.mem.freed).call cb c = .ok (out, b) ∧
      SystemRepr s' (Function.update g x g') (C' + C) (L' + L) (Function.update a x b.queues) := by
  obtain ⟨cb, p, stored, answer, -, rfl⟩ := call_cases run
  have agree := call_framed cb (repr.port x) c
  rw [answer] at agree
  obtain ⟨b, listed, g', C', L', after, frame⟩ := agree.of_ok
  exact ⟨cb, g', C', L', b, stored, listed, repr.setPort after frame⟩

/-- `oq_init` gives an instance new trees. -/
theorem init_repr {opt : Option Registry.Opt} {r : Registry (PolicyModule Ω π)} {trees : Nat → Gen.Trees}
    {created : Pools} {code : Int} (repr : SystemRepr s g C L a) (run : s.init x opt r trees created = .ok (code, s')) :
    ∃ g' a' C' L', SystemRepr s' (Function.update g x g') C' L' (Function.update a x a') ∧
      ∀ i t, (g' i).side t = (g x i).side t ∨ (g' i).side t = .empty := by
  rcases init_cases run with ⟨-, -, rfl⟩ | ⟨fn, d, c, -, port, ⟨-, -, rfl⟩ | ⟨-, -, rfl⟩⟩
  · refine ⟨g x, a x, C, L, ?_, fun _ _ => .inl rfl⟩
    rwa [Function.update_eq_self, Function.update_eq_self]
  · exact repr.init (Gen.CModule.initPort_emptied (PolicyModule.initPort_cases port).1) s.pools
  · exact repr.init (Gen.CModule.initPort_emptied (PolicyModule.initPort_cases port).1) _

/-- The memory of all instances holds lists. -/
def Holds (s : System ι Ω π) : Prop := ∃ g C L a, SystemRepr s g C L a

theorem step_holds {op : SysOp ι Ω π} {out : SysOut π} (holds : s.Holds) (run : s.step op = .ok (out, s')) :
    s'.Holds := by
  obtain ⟨g, C, L, a, repr⟩ := holds
  cases op with
  | init x opt r trees created =>
    obtain ⟨code, -, answer⟩ := step_init_eq_ok.1 run
    obtain ⟨g', a', C', L', after, -⟩ := init_repr repr answer
    exact ⟨_, _, _, _, after⟩
  | call x c =>
    obtain ⟨o, -, answer⟩ := step_call_eq_ok.1 run
    obtain ⟨cb, g', C', L', b, -, -, after⟩ := call_repr repr answer
    exact ⟨_, _, _, _, after⟩
  | reset x =>
    cases run
    exact ⟨g, C, L, a, repr.reset x⟩

omit [DecidableEq ι] in
/-- After loading the module nothing is held. -/
theorem Initial.repr (init : s.Initial) :
    SystemRepr s (fun _ _ => ⟨.empty, .empty⟩) 0 0 fun x i => ⟨((s.qdiscs x).priv.queues i).toQueueInfo, [], []⟩ := by
  have none : ∀ f : QLayout → Multiset Addr, f ⟨.empty, .empty⟩ = 0 →
      ∑ _x : ι, total f (fun _ => ⟨.empty, .empty⟩) = 0 := by
    intro f zero
    exact Finset.sum_eq_zero fun _ _ => Finset.sum_eq_zero fun _ _ => zero
  refine ⟨fun x i => ?_, ?_, ?_⟩
  · rw [init.qdiscs x]
    exact ⟨rfl, .empty _, .empty _⟩
  · rw [none _ rfl]
    exact Lib.Pool.owns_zero init.conts
  · rw [none _ rfl]
    exact Lib.Pool.owns_zero init.lists

/-- The states of a run. -/
def Reachable (s : System ι Ω π) : Prop :=
  ∃ s₀ ops outs, Initial s₀ ∧ Lib.run step s₀ ops = .ok (outs, s)

theorem Reachable.holds (reach : s.Reachable) : s.Holds := by
  obtain ⟨s₀, ops, outs, init, run⟩ := reach
  refine Lib.run_induction (P := fun _ _ s => s.Holds) ⟨_, _, _, _, init.repr⟩ ?_ run
  intro _ _ t _ _ t' _ holds step
  exact step_holds holds step

end System

end

end OpenQueue
