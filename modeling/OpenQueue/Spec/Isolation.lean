import OpenQueue.Sim.Effects
import OpenQueue.Sim.Instances
import OpenQueue.Spec.Initialisation

/-!
# Queues do not interfere

All rings of all queues of all instances lie in one heap, and the queue functions write
through `next`, `prev` and `head`. In every state of a run a call changes the queue it
picks and no other, of its own instance or of any other one.
-/

namespace OpenQueue

variable {ι Ω π : Type}

/-- On lists, a call writes the queue it picks. -/
theorem ListPort.Called.other {cb : Callbacks Ω π} {s s' : ListPort π} {c : Call Ω π} {out : Out π} {p : Port π}
    {i j : QId} (way : Called cb s c out s') (infos : p.infos = s.infos) (picked : p.selects cb c = some i)
    (other : j ≠ i) : s'.queues j = s.queues j := by
  unfold Port.selects at picked
  rw [infos] at picked
  have here : ∀ {q : Int} {i' : QId}, slot? q = some i' → slot? q = some i → j ≠ i' := by
    intro q i' slot slot' same
    rw [slot] at slot'
    cases slot'
    exact other same
  cases way with
  | admitted slot => exact set_other _ _ _ (here slot picked)
  | tailDropped congested => exact set_other _ _ _ (here congested.1 picked)
  | refused congested => exact set_other _ _ _ (here congested.1 picked)
  | ignored => rfl
  | dequeued slot => exact set_other _ _ _ (here slot picked)

namespace System

/-- A queue is as before: its `struct oq_queue` with the two trees and the counters, what
the ring under each key holds, in order and with the stored keys, and so each tree. -/
structure SameQueue (s s' : System ι Ω π) (y : ι) (j : QId) : Prop where
  queue : (s'.port y).queues j = (s.port y).queues j
  buckets : ∀ t k, (s'.port y).bucket j t k = (s.port y).bucket j t k
  items : ∀ t, (s'.port y).items j t = (s.port y).items j t

variable [Fintype ι] [DecidableEq ι] {s s' : System ι Ω π} {x : ι}

omit [Fintype ι] in
theorem port_setPort (s : System ι Ω π) (x : ι) (p : Port π) : (s.setPort x p).port x = p := by
  simp only [port, setPort, Function.update_self]

omit [Fintype ι] in
theorem queues_setPort (s : System ι Ω π) {x y : ι} (p : Port π) (other : y ≠ x) :
    ((s.setPort x p).port y).queues = (s.port y).queues := by
  simp only [port, setPort, Function.update_of_ne other]

/-- A call that picks queue `i` of instance `x` keeps every other queue of every instance. -/
theorem call_isolated (reach : s.Reachable) {c : Call Ω π} {out : Out π} {cb : Callbacks Ω π} {i : QId}
    (stored : (s.qdiscs x).callbacks = some cb) (picked : (s.port x).selects cb c = some i)
    (run : s.call x c = .ok (out, s')) (y : ι) (j : QId) (other : (y, j) ≠ (x, i)) : s.SameQueue s' y j := by
  obtain ⟨g, C, L, a, repr⟩ := reach.holds
  obtain ⟨cb', g', C', L', b, stored', listed, after⟩ := call_repr repr run
  cases stored.symm.trans stored'
  have lists : Function.update a x b.queues y j = a y j := by
    by_cases same : y = x
    · subst same
      rw [Function.update_self]
      exact (ListPort.Called.of_call listed).other (repr.port y).infos picked fun eq => other (by rw [eq])
    · rw [Function.update_of_ne same]
  have queue : (s'.port y).queues j = (s.port y).queues j := by
    obtain ⟨cb', p, stored', answer, -, rfl⟩ := call_cases run
    cases stored.symm.trans stored'
    obtain ⟨i', picked', advances⟩ := Port.call_advances answer
    cases picked.symm.trans picked'
    by_cases same : y = x
    · subst same
      rw [port_setPort]
      exact advances.other j fun eq => other (by rw [eq])
    · rw [queues_setPort s p same]
  have buckets : ∀ t k, (s'.port y).bucket j t k = (s.port y).bucket j t k := by
    intro t k
    rw [(after.port y).bucket, (repr.port y).bucket]
    exact congrArg (fun q : ListQueue π => Index.bucket (q.side t) k) lists
  refine ⟨queue, buckets, fun t => ?_⟩
  simp only [Port.items, queue, buckets]

end System

/-! ## Two instances -/

/-- Two instances, neither of them initialised. -/
def twoInstances : System Bool Unit Unit := ⟨(Port.blank ()).mem, fun _ => .zero, noPools, fun _ => none, fun _ => none⟩

theorem twoInstances_initial : twoInstances.Initial := ⟨fun _ => rfl, rfl, rfl⟩

/-- `policy/oqp_my_port`, with one key for all packets. -/
def samplePolicy : PolicyModule Unit Unit := ⟨myPort, .routines 256 2 (fun _ => 0) (fun _ => 0)⟩

/-- The caches and pools that are created one after the other from an address on. -/
def poolsFrom (a : Addr) : Pools := ⟨some a, some (a + 1), some (a + 2), some (a + 3)⟩

/-- Initialise an instance, with memory for everything. -/
def setUp (x : Bool) (cache : Addr) : SysOp Bool Unit Unit :=
  .init x (some askForIt) (onePolicy samplePolicy) (fun _ => .ok) (poolsFrom cache)

/-- Both are initialised, and then the first takes a packet. -/
def oneServes : List (SysOp Bool Unit Unit) :=
  [setUp false 0, setUp true 4, .call false (.oqEnqueue () .ok ⟨7, ()⟩)]

/-- The second takes a packet too, and the first keeps its own. -/
theorem twoInstances_isolated : ∃ s s' : System Bool Unit Unit, ∃ out,
    s.Reachable ∧ s.call true (.oqEnqueue () .ok ⟨8, ()⟩) = .ok (out, s') ∧
      ((s.port false).items 0 .admn).length = 1 ∧ s.SameQueue s' false 0 := by
  have seen : (match Lib.run System.step twoInstances oneServes with
      | .ok r =>
        match r.2.call true (.oqEnqueue () .ok ⟨8, ()⟩) with
        | .ok _ => ((r.2.port false).items 0 .admn).length
        | .error _ => 0
      | .error _ => 0) = 1 := by
    decide +kernel
  split at seen
  · next r run =>
    split at seen
    · next r' call =>
      obtain ⟨cb, p, stored, answer, -⟩ := System.call_cases call
      obtain ⟨i, picked, -⟩ := Port.call_advances answer
      have reach : r.2.Reachable := ⟨_, _, _, twoInstances_initial, run⟩
      exact ⟨r.2, r'.2, r'.1, reach, call, seen,
        System.call_isolated reach stored picked call false 0 (by simp)⟩
    · cases seen
  · cases seen

end OpenQueue
