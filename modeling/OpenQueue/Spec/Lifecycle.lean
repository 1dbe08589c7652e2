import OpenQueue.Sim.Outcomes
import OpenQueue.Spec.Conservation
import OpenQueue.Spec.Isolation

/-!
# `.change`, `.reset` and `.peek`

The table of operations takes `oq_init` for `.change`, and helpers of the kernel that
work on `sch->q` for `.reset` and `.peek`. The packets of an OpenQueue instance are in
its trees and never on `sch->q`: `.change` forgets those in the queues of the new policy,
`.reset` frees none, and `.peek` sees none.
-/

namespace OpenQueue

variable {ι Ω π : Type}

namespace System

variable [DecidableEq ι] {s s' : System ι Ω π} {x : ι}

/-! ## `.change` and `.reset` -/

/-- `len` counts the packets of a queue. -/
def Counted (p : Port π) (j : QId) : Prop := ∀ t, (p.queues j).len = BitVec.ofNat 32 (p.items j t).length

omit [DecidableEq ι] in
/-- Each packet held before is still held, in a queue that counts its packets if it did,
or has been freed. -/
def KeepsPackets (s s' : System ι Ω π) (x : ι) : Prop :=
  (∀ t, (s.port x).held t + (s.mem.freed : Multiset (SkBuff π)) ≤
      (s'.port x).held t + (s'.mem.freed : Multiset (SkBuff π))) ∧
    ((∀ j, Counted (s.port x) j) → ∀ j, Counted (s'.port x) j)

omit [DecidableEq ι] in
/-- Every queue is empty, and each packet held before has been freed. -/
def Purged (s s' : System ι Ω π) (x : ι) : Prop :=
  (∀ j t, (s'.port x).items j t = []) ∧
    ∀ t, (s.port x).held t + (s.mem.freed : Multiset (SkBuff π)) ≤ (s'.mem.freed : Multiset (SkBuff π))

theorem held_eq_zero {p : Port π} {t : Side} (none : ∀ j, p.items j t = []) : p.held t = 0 :=
  Finset.sum_eq_zero fun j _ => by rw [none j]; rfl

theorem card_held (p : Port π) (t : Side) : (p.held t).card = ∑ i, (p.items i t).length := by
  rw [Port.held, Multiset.card_sum]
  exact Finset.sum_congr rfl fun i _ => List.length_map _

/-- Queues that lose packets do not hold them all. -/
theorem items_nil_of_held_le {p p' : Port π} {t : Side} {j : QId} (le : p.held t ≤ p'.held t)
    (fewer : ∀ i, (p'.items i t).length ≤ (p.items i t).length) (lost : p'.items j t = []) : p.items j t = [] := by
  have cards := Multiset.card_le_card le
  rw [card_held, card_held] at cards
  by_contra some
  have strict : ∑ i, (p'.items i t).length < ∑ i, (p.items i t).length := by
    refine Finset.sum_lt_sum (fun i _ => fewer i) ⟨j, Finset.mem_univ j, ?_⟩
    rw [lost]
    exact List.length_pos_iff.2 some
  exact absurd cards (Nat.not_le.2 strict)

theorem change_keeps_iff {trees : Nat → Gen.Trees} {fn : PolicyModule Ω π} {d : Qdisc Ω π}
    (port : fn.initPort trees (s.qdiscs x) = .ok (0, d)) (pools : Pools) :
    s.KeepsPackets { s with qdiscs := Function.update s.qdiscs x d, pools := pools } x ↔
      ∀ j : QId, j.val < fn.code.inits.length → ∀ t, (s.port x).items j t = [] := by
  have after : ({ s with qdiscs := Function.update s.qdiscs x d, pools := pools } : System ι Ω π).port x =
      ⟨s.mem, d.priv.queues⟩ := by
    simp only [System.port, Function.update_self]
  have slots := PolicyModule.initPort_zero_cases port
  unfold KeepsPackets
  rw [after]
  constructor
  · rintro ⟨kept, -⟩ j inside t
    refine items_nil_of_held_le (le_of_add_le_add_right (kept t)) (fun i => ?_) ?_
    · rcases slots i with ⟨-, fresh, -⟩ | ⟨-, same⟩
      · rw [Port.items_of_tree_empty (fresh t)]
        exact Nat.zero_le _
      · rw [Port.items_congr same]
        exact Nat.le_refl _
    · rcases slots j with ⟨-, fresh, -⟩ | ⟨beyond, -⟩
      · exact Port.items_of_tree_empty (fresh t)
      · exact absurd inside (Nat.not_lt.2 beyond)
  · intro empty
    have items : ∀ j t, Port.items ⟨s.mem, d.priv.queues⟩ j t = (s.port x).items j t := by
      intro j t
      rcases slots j with ⟨inside, fresh, -⟩ | ⟨-, same⟩
      · rw [Port.items_of_tree_empty (fresh t), empty j inside t]
      · exact Port.items_congr same t
    refine ⟨fun t => ?_, fun counted j t => ?_⟩
    · simp only [Port.held, items]
      exact le_refl _
    · rw [items j t]
      rcases slots j with ⟨inside, -, zero⟩ | ⟨-, same⟩
      · rw [empty j inside t]
        exact zero
      · rw [← counted j t]
        exact congrArg (fun q : OqQueue => q.len) same

theorem reset_purges_iff (s : System ι Ω π) (x : ι) :
    s.Purged (s.reset x) x ↔ ∀ j t, (s.port x).items j t = [] := by
  have items : ∀ j t, ((s.reset x).port x).items j t = (s.port x).items j t := by
    intro j t
    simp only [System.port, System.reset, Function.update_self]
    rfl
  simp only [Purged, items]
  constructor
  · exact And.left
  · intro empty
    refine ⟨empty, fun t => ?_⟩
    rw [held_eq_zero fun j => empty j t, zero_add]
    exact Multiset.coe_le.2 (List.sublist_append_left _ _).subperm

/-- A successful `.change` keeps the packets exactly if the queues of the new policy hold
none, and `.reset` purges the instance exactly if it holds none. -/
theorem lifecycle_keeps_packets_iff (s : System ι Ω π) (x : ι) :
    (∀ {opt : Option Registry.Opt} {r : Registry (PolicyModule Ω π)} {trees : Nat → Gen.Trees} {created : Pools}
      {fn : PolicyModule Ω π} {s' : System ι Ω π}, r.requested opt = .ok (some fn) →
      s.init x opt r trees created = .ok (0, s') →
      (s.KeepsPackets s' x ↔ ∀ j : QId, j.val < fn.code.inits.length → ∀ t, (s.port x).items j t = [])) ∧
      (s.Purged (s.reset x) x ↔ ∀ j t, (s.port x).items j t = []) := by
  refine ⟨fun found change => ?_, reset_purges_iff s x⟩
  rcases init_cases change with ⟨-, failed, -⟩ | ⟨fn', d, c, found', port, ⟨-, failed, -⟩ | ⟨rfl, -, rfl⟩⟩
  · exact absurd failed (by decide)
  · exact absurd failed (by decide)
  · rw [found] at found'
    cases found'
    exact change_keeps_iff port _

end System

/-- The code of another `.change` of the first instance, with the policy it has. -/
def changesAgain (s : System Bool Unit Unit) : Option Int :=
  match s.init false (some askForIt) (onePolicy samplePolicy) (fun _ => .ok) (poolsFrom 8) with
  | .ok r => some r.1
  | .error _ => none

/-- An instance that holds a packet is asked for its own policy again. -/
theorem exists_change_with_packet : ∃ s s' : System Bool Unit Unit, s.Reachable ∧
    s.init false (some askForIt) (onePolicy samplePolicy) (fun _ => .ok) (poolsFrom 8) = .ok (0, s') ∧
    ((s.port false).items 0 .proc).length = 1 := by
  obtain ⟨os, s, run, seen⟩ := Lib.exists_of_ends
    (P := fun _ s => changesAgain s = some 0 && ((s.port false).items 0 .proc).length = 1)
    (r := Lib.run System.step twoInstances oneServes) (by decide +kernel)
  rw [Bool.and_eq_true, decide_eq_true_eq, decide_eq_true_eq, changesAgain] at seen
  obtain ⟨changed, one⟩ := seen
  split at changed
  · next r change =>
    obtain ⟨code, s'⟩ := r
    cases changed
    exact ⟨s, s', ⟨_, _, _, twoInstances_initial, run⟩, change, one⟩
  · cases changed

/-- Neither `.change` nor `.reset` does what it should with this packet. -/
theorem later_change_keeps_packets_iff : ∃ s s' : System Bool Unit Unit, s.Reachable ∧
    ((s.port false).items 0 .proc).length = 1 ∧
    s.init false (some askForIt) (onePolicy samplePolicy) (fun _ => .ok) (poolsFrom 8) = .ok (0, s') ∧
    (s.KeepsPackets s' false ↔
      ∀ j : QId, j.val < samplePolicy.code.inits.length → ∀ t, (s.port false).items j t = []) ∧
    (s.Purged (s.reset false) false ↔ ∀ j t, (s.port false).items j t = []) := by
  obtain ⟨s, s', reach, change, one⟩ := exists_change_with_packet
  obtain ⟨keeps, purges⟩ := System.lifecycle_keeps_packets_iff s false
  exact ⟨s, s', reach, one, change, keeps (onePolicy_requested _) change, purges⟩

/-- The packet is in no queue afterwards and has not been freed. -/
theorem change_forgets_packet : ¬ ∀ s s' : System Bool Unit Unit, s.Reachable →
    s.init false (some askForIt) (onePolicy samplePolicy) (fun _ => .ok) (poolsFrom 8) = .ok (0, s') →
    s.KeepsPackets s' false := by
  intro always
  obtain ⟨s, s', reach, change, one⟩ := exists_change_with_packet
  have kept := always s s' reach change
  rcases System.init_cases change with ⟨-, failed, -⟩ | ⟨fn, d, c, found, port, ⟨-, failed, -⟩ | ⟨rfl, -, rfl⟩⟩
  · exact absurd failed (by decide)
  · exact absurd failed (by decide)
  · rw [onePolicy_requested] at found
    cases found
    rw [(System.change_keeps_iff port _).1 kept 0 (by decide) .proc] at one
    cases one

/-! ## `.peek` -/

namespace System

variable [DecidableEq ι] {s s' : System ι Ω π} {x : ι}

/-- No operation puts a packet on `sch->q`. -/
theorem step_q {op : SysOp ι Ω π} {out : SysOut π} (run : s.step op = .ok (out, s')) (empty : ∀ y, (s.qdiscs y).q = [])
    (y : ι) : (s'.qdiscs y).q = [] := by
  have updated : ∀ {x : ι} {d : Qdisc Ω π}, d.q = [] → (Function.update s.qdiscs x d y).q = [] := by
    intro x d none
    by_cases same : y = x
    · rw [same, Function.update_self]
      exact none
    · rw [Function.update_of_ne same]
      exact empty y
  cases op with
  | init x opt r trees created =>
    obtain ⟨code, -, answer⟩ := step_init_eq_ok.1 run
    rcases init_cases answer with ⟨-, -, rfl⟩ | ⟨fn, d, c, -, port, ⟨-, -, rfl⟩ | ⟨-, -, rfl⟩⟩
    · exact empty y
    · exact updated ((PolicyModule.initPort_cases port).2.1.trans (empty x))
    · exact updated ((PolicyModule.initPort_cases port).2.1.trans (empty x))
  | call x c =>
    obtain ⟨o, -, answer⟩ := step_call_eq_ok.1 run
    obtain ⟨cb, p, -, -, -, rfl⟩ := call_cases answer
    exact updated (empty x)
  | reset x =>
    cases run
    exact updated rfl

theorem Reachable.peek_eq_none (reach : s.Reachable) (x : ι) : s.peek x = none := by
  obtain ⟨s₀, ops, outs, init, run⟩ := reach
  have empty : ∀ y, (s.qdiscs y).q = [] := by
    refine Lib.run_induction (P := fun _ _ s => ∀ y, (s.qdiscs y).q = []) (fun y => ?_) ?_ run
    · rw [init.qdiscs y]
      rfl
    · intro _ _ t _ _ t' _ empty step
      exact step_q step empty
  rw [peek, empty x]
  rfl

/-- In every state of a run, `.peek` shows what the next `.dequeue` returns exactly if
that is nothing: the packet that comes first in `proc_q` of the scheduled queue is missing
in `admn_q`, or `proc_q` is empty. -/
theorem peek_agrees_iff [Fintype ι] (reach : s.Reachable) {cb : Callbacks Ω π} {ω : Ω} {i : QId} {exit : DequeueExit π}
    (stored : (s.qdiscs x).callbacks = some cb) (picked : (s.port x).selects cb (.oqDequeue ω) = some i)
    (run : s.call x (.oqDequeue ω) = .ok (.dequeue exit, s')) :
    s.peek x = exit.skb? ↔ ¬ (s.port x).TopPaired i .proc .admn := by
  obtain ⟨g, C, L, a, repr⟩ := reach.holds
  obtain ⟨cb', g', C', L', b, stored', listed, -⟩ := call_repr repr run
  cases stored.symm.trans stored'
  rw [reach.peek_eq_none, (repr.port x).topPaired_iff]
  cases ListPort.Called.of_call listed with
  | @dequeued i' _ _ q slot deq =>
    have same : i' = i := by
      rw [Port.selects, (repr.port x).infos, slot] at picked
      exact Option.some.inj picked
    subst same
    have outcome := (a x i').dequeueFrom_paired
    rw [show (a x i').dequeueFrom = (exit, q) from deq] at outcome
    rcases outcome with ⟨paired, skb, packet⟩ | ⟨alone, nothing⟩
    · rw [show exit = .packet skb from packet]
      exact iff_of_false nofun (not_not.2 paired)
    · exact iff_of_true (show exit.skb? = none from nothing).symm alone

end System

/-- The queue that the next packet of an instance would come from. -/
def dequeuesFrom (x : Bool) (s : System Bool Unit Unit) : Option QId :=
  match (s.qdiscs x).callbacks, s.call x (.oqDequeue ()) with
  | some cb, .ok (.dequeue _, _) => (s.port x).selects cb (.oqDequeue ())
  | _, _ => none

theorem exists_of_dequeuesFrom {x : Bool} {i : QId} {s : System Bool Unit Unit} (seen : dequeuesFrom x s = some i) :
    ∃ cb exit s', (s.qdiscs x).callbacks = some cb ∧ (s.port x).selects cb (.oqDequeue ()) = some i ∧
      s.call x (.oqDequeue ()) = .ok (.dequeue exit, s') := by
  unfold dequeuesFrom at seen
  split at seen
  · next cb exit s' stored call => exact ⟨cb, exit, s', stored, seen, call⟩
  · cases seen

/-- The first instance holds a packet, and the second none. -/
theorem oneServes_peek_agrees_iff : ∃ s s₁ s₂ : System Bool Unit Unit, ∃ exit₁ exit₂, s.Reachable ∧
    (s.port false).items 0 .proc ≠ [] ∧ s.call false (.oqDequeue ()) = .ok (.dequeue exit₁, s₁) ∧
      (s.peek false = exit₁.skb? ↔ ¬ (s.port false).TopPaired 0 .proc .admn) ∧
    (s.port true).items 0 .proc = [] ∧ s.call true (.oqDequeue ()) = .ok (.dequeue exit₂, s₂) ∧
      (s.peek true = exit₂.skb? ↔ ¬ (s.port true).TopPaired 0 .proc .admn) := by
  obtain ⟨os, s, run, seen⟩ := Lib.exists_of_ends
    (P := fun _ s => (dequeuesFrom false s = some 0 ∧ (s.port false).items 0 .proc ≠ []) ∧
      dequeuesFrom true s = some 0 ∧ (s.port true).items 0 .proc = [])
    (r := Lib.run System.step twoInstances oneServes) (by decide +kernel)
  rw [decide_eq_true_eq] at seen
  obtain ⟨⟨first, full⟩, second, empty⟩ := seen
  have reach : s.Reachable := ⟨_, _, _, twoInstances_initial, run⟩
  obtain ⟨cb₁, exit₁, s₁, stored₁, picked₁, call₁⟩ := exists_of_dequeuesFrom first
  obtain ⟨cb₂, exit₂, s₂, stored₂, picked₂, call₂⟩ := exists_of_dequeuesFrom second
  exact ⟨s, s₁, s₂, exit₁, exit₂, reach, full, call₁, System.peek_agrees_iff reach stored₁ picked₁ call₁,
    empty, call₂, System.peek_agrees_iff reach stored₂ picked₂ call₂⟩

/-- What `.peek` returns after these calls, and what `.dequeue` does. -/
def peeksAndDequeues (r : Except Fault (List (SysOut Unit) × System Bool Unit Unit)) :
    Option (Option (SkBuff Unit) × Option (SkBuff Unit)) :=
  match r with
  | .ok r =>
    match r.2.call false (.oqDequeue ()) with
    | .ok (.dequeue exit, _) => some (r.2.peek false, exit.skb?)
    | _ => none
  | .error _ => none

/-- An instance that holds a packet: `.peek` shows none, and `.dequeue` returns it. -/
theorem peek_misses_packet : ¬ ∀ s s' : System Bool Unit Unit, ∀ exit, s.Reachable →
    s.call false (.oqDequeue ()) = .ok (.dequeue exit, s') → s.peek false = exit.skb? := by
  intro always
  have seen : peeksAndDequeues (Lib.run System.step twoInstances oneServes) = some (none, some ⟨7, ()⟩) := by
    decide +kernel
  unfold peeksAndDequeues at seen
  split at seen
  · next r run =>
    split at seen
    · next exit s' call =>
      simp only [Option.some.injEq, Prod.mk.injEq] at seen
      have same := always r.2 s' exit ⟨_, _, _, twoInstances_initial, run⟩ call
      rw [seen.1, seen.2] at same
      cases same
    · cases seen
  · cases seen

end OpenQueue
