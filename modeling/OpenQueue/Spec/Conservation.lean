import OpenQueue.Spec.Accounting

/-!
# Where the packets are

A packet handed to `oq_enqueue` is held, was returned by `oq_dequeue`, or was freed. As
multisets these add up to the packets offered, call by call, unless the congestion
action is none of those in the `switch`, or an insertion that is needed fails: then the
packet is forgotten, or is missing in one of the trees.
-/

namespace OpenQueue

variable {Ω π : Type}

/-- The packets in the trees of one side of all queues. -/
def Port.held (p : Port π) (t : Side) : Multiset (SkBuff π) := ∑ i, ((p.items i t).map Item.skb : Multiset (SkBuff π))

/-- Each packet offered is held in one queue, in both its trees, or was returned, or was
freed, and each of these once: as multisets, nothing is missing and nothing is there
twice. -/
def Port.Conserves (p : Port π) (calls : List (Call Ω π)) (outs : List (Out π)) : Prop :=
  ∀ t, (offered calls : Multiset (SkBuff π)) = p.held t + returned outs + p.mem.freed

/-- The packet meets a congested queue and an action that the `switch` does not have. -/
def Port.Ignores (cb : Callbacks Ω π) (p : Port π) : Call Ω π → Prop
  | .oqEnqueue ω _ skb => ∃ i, Congested cb p.infos ω skb i ∧
    cb.congActFn ω (p.infos i) skb ≠ oqConActDropTail ∧ cb.congActFn ω (p.infos i) skb ≠ oqConActDropPkt
  | .oqDequeue _ => False

/-- The packets of a queue. -/
def SpecQueue.packets (q : SpecQueue π) : Multiset (SkBuff π) := (q.held.map Held.skb : Multiset (SkBuff π))

namespace SpecPort

/-- The packets of all queues. -/
def packets (s : SpecPort π) : Multiset (SkBuff π) := ∑ i, (s.queues i).packets

/-- Nothing is missing and nothing is there twice. -/
def Balanced (s : SpecPort π) (calls : List (Call Ω π)) (outs : List (Out π)) : Prop :=
  (offered calls : Multiset (SkBuff π)) = s.packets + returned outs + s.dropped

/-- One queue apart from the others. -/
theorem packets_split (s : SpecPort π) (i : QId) :
    ∃ others, s.packets = (s.queues i).packets + others ∧
      ∀ q dropped, (s.set i q dropped).packets = q.packets + others := by
  refine ⟨∑ j ∈ Finset.univ.erase i, (s.queues j).packets, ?_, fun q dropped => ?_⟩
  · exact (Finset.add_sum_erase _ (fun j => (s.queues j).packets) (Finset.mem_univ i)).symm
  · rw [packets, ← Finset.add_sum_erase _ _ (Finset.mem_univ i), set_same]
    congr 1
    exact Finset.sum_congr rfl (fun j hj => by rw [set_other (Finset.ne_of_mem_erase hj)])

end SpecPort

namespace SpecQueue

variable {q q' : SpecQueue π} {skb? : Option (SkBuff π)}

theorem packets_enqueue (q : SpecQueue π) (cb : Callbacks Ω π) (ω : Ω) (skb : SkBuff π) :
    (q.enqueue cb ω skb).packets = {skb} + q.packets := by
  simp only [packets, enqueue, List.map_append, List.map_cons, List.map_nil]
  rw [← Multiset.coe_add, Multiset.coe_singleton, add_comm]

theorem packets_split {x : Held π} {front back : List (Held π)} (split : q.held = front ++ x :: back)
    (rest : q'.held = front ++ back) : q.packets = q'.packets + {x.skb} := by
  rw [packets, packets, split, rest, Multiset.coe_eq_coe.2 (List.perm_middle.map Held.skb), List.map_cons,
    ← Multiset.cons_coe, ← Multiset.singleton_add, add_comm]

theorem packets_dropTail (h : q.dropTail = (skb?, q')) : q.packets = q'.packets + skb?.toList := by
  rcases dropTail_cases h with ⟨-, rfl, rfl⟩ | ⟨x, front, back, rfl, split, rfl⟩
  · simp
  · exact packets_split split rfl

theorem packets_dequeue (h : q.dequeue = (skb?, q')) : q.packets = q'.packets + skb?.toList := by
  rcases dequeue_cases h with ⟨-, rfl, rfl⟩ | ⟨x, front, back, rfl, split, rfl⟩
  · simp
  · exact packets_split split rfl

end SpecQueue

namespace Follows

variable {cb : Callbacks Ω π} {p q : Port π} {s s' : SpecPort π} {c : Call Ω π} {out : Out π}

theorem held_eq (f : Follows p s) (t : Side) : p.held t = s.packets := by
  refine Finset.sum_congr rfl (fun i _ => Multiset.coe_eq_coe.2 ?_)
  have perm := (f.items_perm i t).map Item.skb
  rw [List.map_map] at perm
  cases t <;> exact perm

theorem conserves_iff (f : Follows p s) {calls : List (Call Ω π)} {outs : List (Out π)} :
    p.Conserves calls outs ↔ s.Balanced calls outs := by
  simp only [Port.Conserves, SpecPort.Balanced, f.held_eq, f.freed]
  exact ⟨fun all => all .admn, fun sum _ => sum⟩

/-- One call moves its packet to one place, unless it ignores it. -/
theorem balance (f : Follows p s) (way : s.Called cb c out s') (known : ¬ p.Ignores cb c) :
    s'.packets + returned [out] + s'.dropped = offered [c] + (s.packets + s.dropped) := by
  cases way with
  | @admitted i ω ins skb slot free ready =>
    obtain ⟨others, whole, changed⟩ := s.packets_split i
    rw [changed, whole, SpecQueue.packets_enqueue]
    simp only [SpecPort.set, returned, offered, List.filterMap_cons, List.filterMap_nil, List.append_nil,
      Multiset.coe_singleton, Multiset.coe_nil]
    abel
  | @tailDropped i ω ins skb skb? q congested tail ready drop =>
    obtain ⟨others, whole, changed⟩ := s.packets_split i
    rw [changed, whole, SpecQueue.packets_enqueue, SpecQueue.packets_dropTail drop]
    simp only [SpecPort.set, returned, offered, List.filterMap_cons, List.filterMap_nil, ← Multiset.coe_add,
      Multiset.coe_singleton, Multiset.coe_nil]
    abel
  | @refused i ω ins skb congested pkt =>
    obtain ⟨others, whole, changed⟩ := s.packets_split i
    rw [changed, whole]
    simp only [SpecPort.set, SpecQueue.packets, returned, offered, List.filterMap_cons, List.filterMap_nil,
      ← Multiset.coe_add, Multiset.coe_singleton, Multiset.coe_nil]
    abel
  | @ignored i ω ins skb congested tail pkt =>
    refine absurd ⟨i, ?_⟩ known
    rw [f.infos]
    exact ⟨congested, tail, pkt⟩
  | @dequeued i ω skb? q slot deq =>
    obtain ⟨others, whole, changed⟩ := s.packets_split i
    have out : returned [Out.dequeue (.of skb?)] = skb?.toList := by cases skb? <;> rfl
    rw [changed, whole, SpecQueue.packets_dequeue deq, out]
    simp only [SpecPort.set, offered, List.filterMap_cons, List.filterMap_nil, List.append_nil, Multiset.coe_nil]
    abel

theorem balanced (f : Follows p s) (way : s.Called cb c out s') (known : ¬ p.Ignores cb c)
    {calls : List (Call Ω π)} {outs : List (Out π)} (sum : s.Balanced calls outs) :
    s'.Balanced (calls ++ [c]) (outs ++ [out]) := by
  rw [SpecPort.Balanced, offered_append, returned_append, ← Multiset.coe_add, ← Multiset.coe_add, sum]
  calc s.packets + returned outs + s.dropped + (offered [c] : Multiset (SkBuff π))
      = offered [c] + (s.packets + s.dropped) + returned outs := by abel
    _ = s'.packets + returned [out] + s'.dropped + returned outs := by rw [f.balance way known]
    _ = s'.packets + ((returned outs : Multiset (SkBuff π)) + returned [out]) + s'.dropped := by abel

/-- A tail drop frees the packet that it takes out of either tree. -/
theorem length_freed (f : Follows p s) (i : QId) (t : Side) :
    ((s.lists.queues i).doDropTail.1.takes t).toNat = (s.lists.queues i).doDropTail.2.1.length := by
  have answer := SpecQueue.lists_dropTail (f.distinct i)
  rcases drop : (s.queues i).dropTail with ⟨_ | skb, q⟩ <;> rw [drop] at answer <;>
    rw [show (s.lists.queues i).doDropTail = _ from answer] <;> rfl

end Follows

/-! ## Losses -/

/-- A sum over the queues when one of them changes. -/
theorem ListPort.sum_set (s : ListPort π) (i : QId) (q : ListQueue π) (freed : List (SkBuff π))
    (g : ListQueue π → Nat) :
    ∑ j, g ((s.set i q freed).queues j) + g (s.queues i) = ∑ j, g (s.queues j) + g q := by
  have others : ∑ j ∈ Finset.univ.erase i, g ((s.set i q freed).queues j) =
      ∑ j ∈ Finset.univ.erase i, g (s.queues j) :=
    Finset.sum_congr rfl fun j hj => by rw [set_other _ _ _ (Finset.ne_of_mem_erase hj)]
  rw [← Finset.add_sum_erase _ (fun j => g ((s.set i q freed).queues j)) (Finset.mem_univ i),
    ← Finset.add_sum_erase _ (fun j => g (s.queues j)) (Finset.mem_univ i), others, set_queues]
  omega

theorem Holds.card_held {p : Port π} {s : ListPort π} (holds : Holds p s) (t : Side) :
    (p.held t).card = ∑ i, ((s.queues i).side t).length := by
  rw [Port.held, Multiset.card_sum]
  refine Finset.sum_congr rfl fun i _ => ?_
  rw [Multiset.coe_card, List.length_map, holds.length_items]

theorem Holds.freed {p : Port π} {s : ListPort π} (holds : Holds p s) : p.mem.freed = s.freed := by
  obtain ⟨g, C, L, repr⟩ := holds
  exact repr.freed

/-- The packets of tree `t` and the packets freed do not add up any more after a call that is
handed a packet and after which there are as many as before. -/
theorem Port.Conserves.broken {p p' : Port π} {calls : List (Call Ω π)} {outs : List (Out π)} {ω : Ω} {ins : Inserts}
    {skb : SkBuff π} {code : Int} (before : p.Conserves calls outs) (t : Side)
    (same : (p'.held t).card + p'.mem.freed.length = (p.held t).card + p.mem.freed.length) :
    ¬ p'.Conserves (calls ++ [.oqEnqueue ω ins skb]) (outs ++ [.status code]) := by
  intro after
  have sum := congrArg Multiset.card (before t)
  have sum' := congrArg Multiset.card (after t)
  have one : offered [Call.oqEnqueue ω ins skb] = [skb] := rfl
  have none : returned ([.status code] : List (Out π)) = [] := rfl
  rw [offered_append, returned_append, one, none] at sum'
  simp only [Multiset.card_add, Multiset.coe_card, List.length_append, List.length_singleton, List.length_nil] at sum sum'
  omega

namespace Follows

variable {cb : Callbacks Ω π} {p : Port π} {s : SpecPort π} {c : Call Ω π}

/-- An ignored packet changes nothing. -/
theorem broken_of_ignores (f : Follows p s) (ignores : p.Ignores cb c) :
    ∃ out p', p.call cb c = .ok (out, p') ∧ ∀ calls outs, p.Conserves calls outs →
      ¬ p'.Conserves (calls ++ [c]) (outs ++ [out]) := by
  cases c with
  | oqDequeue ω => exact absurd ignores id
  | oqEnqueue ω ins skb =>
    obtain ⟨i, congested, tail, pkt⟩ := ignores
    rw [f.infos] at congested tail pkt
    have agree := call_agree cb p s.lists (.oqEnqueue ω ins skb) f.holds
    rw [(ListPort.Called.ignored congested tail pkt).run] at agree
    obtain ⟨p', step, holds⟩ := agree.of_ok_right
    refine ⟨_, p', step, fun calls outs before => before.broken .admn ?_⟩
    rw [holds.card_held, f.holds.card_held, holds.freed, f.holds.freed]

/-- A packet that does not get into tree `t`: what a tail drop takes out of it is freed. -/
theorem broken_of_fails {i : QId} {t : Side} (f : Follows p s) (fails : p.fails cb i t c = true) :
    ∃ out p', p.call cb c = .ok (out, p') ∧ ∀ calls outs, p.Conserves calls outs →
      ¬ p'.Conserves (calls ++ [c]) (outs ++ [out]) := by
  rw [f.holds.fails] at fails
  obtain ⟨ω, ins, skb, rfl, slot, here⟩ := ListPort.fails_cases fails
  have lost : ∃ code q freed, ListPort.Called cb s.lists (.oqEnqueue ω ins skb) (.status code) (s.lists.set i q freed) ∧
      (q.side t).length + freed.length = ((s.lists.queues i).side t).length := by
    rcases here with ⟨free, refuses⟩ | ⟨full, tail, refuses⟩
    · obtain ⟨q, enq⟩ := ListQueue.doEnqueue_of_ready (ListQueue.ready_of_refuses refuses) cb ω ins skb
      have length := ListQueue.length_doEnqueue enq t
      rw [refuses] at length
      exact ⟨_, q, [], .admitted slot free enq, Nat.succ.inj length⟩
    · obtain ⟨q, enq⟩ := ListQueue.doEnqueue_of_ready (ListQueue.ready_of_refuses refuses) cb ω ins skb
      have length := ListQueue.length_doEnqueue enq t
      have shorter := (s.lists.queues i).length_doDropTail t
      rw [refuses] at length
      rw [f.length_freed] at shorter
      exact ⟨_, q, _, .tailDropped ⟨slot, full⟩ tail rfl enq, by rw [← Nat.succ.inj length] at shorter; exact shorter⟩
  obtain ⟨code, q, freed, way, length⟩ := lost
  have agree := call_agree cb p s.lists (.oqEnqueue ω ins skb) f.holds
  rw [way.run] at agree
  obtain ⟨p', step, holds⟩ := agree.of_ok_right
  refine ⟨_, p', step, fun calls outs before => before.broken t ?_⟩
  have sum := s.lists.sum_set i q freed fun a => (a.side t).length
  have log : (s.lists.set i q freed).freed.length = s.lists.freed.length + freed.length := List.length_append
  rw [holds.card_held, f.holds.card_held, holds.freed, f.holds.freed, log]
  omega

end Follows

/-- On a run of the qdisc that is handed no packet while its queue holds it, every packet is
held, returned or freed exactly once, in every state, exactly if no packet meets a congested
queue with an unknown action and no insertion that is needed fails. -/
theorem run_conserves_iff (cb : Callbacks Ω π) {p : Port π} {calls : List (Call Ω π)} (init : p.Initialised)
    (new : ∀ q c, Lib.Calls (Port.call cb) p calls q c → q.NewTo cb c) :
    (∀ done outs q, done <+: calls → Lib.run (Port.call cb) p done = .ok (outs, q) → q.Conserves done outs) ↔
      ∀ q c, Lib.Calls (Port.call cb) p calls q c → ¬ q.Ignores cb c ∧ ∀ i t, q.fails cb i t c = false := by
  constructor
  · intro always
    -- a state of the run that follows a specification has no loss next
    have next : ∀ {done outs q s c}, done ++ [c] <+: calls → Lib.run (Port.call cb) p done = .ok (outs, q) →
        Follows q s → ¬ q.Ignores cb c ∧ ∀ i t, q.fails cb i t c = false := by
      intro done outs q s c sub run f
      have before := always done outs q ((List.prefix_append _ _).trans sub) run
      have after : ∀ {out q'}, q.call cb c = .ok (out, q') → q'.Conserves (done ++ [c]) (outs ++ [out]) :=
        fun step => always _ _ _ sub (Lib.run_snoc_eq_ok.2 ⟨outs, q, _, run, step, rfl⟩)
      refine ⟨fun ignores => ?_, fun i t => ?_⟩
      · obtain ⟨out, q', step, broken⟩ := f.broken_of_ignores ignores
        exact broken done outs before (after step)
      · by_contra fails
        rw [Bool.not_eq_false] at fails
        obtain ⟨out, q', step, broken⟩ := f.broken_of_fails fails
        exact broken done outs before (after step)
    rintro q c ⟨done, outs, sub, run⟩
    have follows : ∃ s, Follows q s := by
      refine Lib.run_induction (P := fun done _ q => done <+: calls → ∃ s, Follows q s) (fun _ => ⟨_, .initial init⟩) ?_
        run ((List.prefix_append _ _).trans sub)
      intro done outs q c out q' before ih step sub
      obtain ⟨s, f⟩ := ih ((List.prefix_append _ _).trans sub)
      obtain ⟨s', -, f'⟩ := f.call ⟨new q c ⟨done, outs, sub, before⟩, (next sub before f).2⟩ step
      exact ⟨s', f'⟩
    obtain ⟨s, f⟩ := follows
    exact next sub run f
  · intro known done outs q sub run
    have kept : ∃ s, Follows q s ∧ s.Balanced done outs := by
      refine Lib.run_invariant (P := fun done outs q => ∃ s, Follows q s ∧ s.Balanced done outs)
        (A := fun q c => q.Admits cb c ∧ ¬ q.Ignores cb c)
        (fun q c call => ⟨⟨new q c (call.mono sub), (known q c (call.mono sub)).2⟩, (known q c (call.mono sub)).1⟩)
        ⟨_, Follows.initial init, ?_⟩ ?_ run
      · simp [SpecPort.Balanced, SpecPort.initial, SpecPort.packets, SpecQueue.packets, offered, returned]
      · rintro done outs q c out q' - ⟨s, f, sum⟩ ⟨admits, known⟩ step
        obtain ⟨s', way, f'⟩ := f.call admits step
        exact ⟨s', f', f.balanced way known sum⟩
    obtain ⟨s, f, sum⟩ := kept
    exact f.conserves_iff.2 sum

theorem twoCalls_conserves_iff :
    (∀ done outs q, done <+: twoCalls →
      Lib.run (Port.call (.routines 1 3 (fun _ => 0) (fun _ => 0))) (Port.blank ()) done = .ok (outs, q) →
      q.Conserves done outs) ↔
      ∀ q c, Lib.Calls (Port.call (.routines 1 3 (fun _ => 0) (fun _ => 0))) (Port.blank ()) twoCalls q c →
        ¬ q.Ignores (.routines 1 3 (fun _ => 0) (fun _ => 0)) c ∧
          ∀ i t, q.fails (.routines 1 3 (fun _ => 0) (fun _ => 0)) i t c = false :=
  run_conserves_iff _ (Port.blank_initialised ()) fun q c call => (twoCalls_admitted q c call).new

/-- `OQ_CON_ACT_DROP_HEAD`: the second packet is neither held nor freed. -/
theorem drop_head_leaks :
    ¬ ∀ done outs q, done <+: twoCalls →
      Lib.run (Port.call (.routines 1 oqConActDropHead (fun _ => 0) (fun _ => 0))) (Port.blank ()) done =
        .ok (outs, q) → q.Conserves done outs := by
  intro always
  have seen : (match Lib.run (Port.call (.routines 1 oqConActDropHead (fun _ => 0) (fun _ => 0))) (Port.blank ())
      twoCalls with
      | .ok r => some (r.2.held .admn + returned r.1 + r.2.mem.freed)
      | .error _ => none) = some {⟨7, ()⟩} := by
    decide +kernel
  split at seen
  · next r run =>
    have last := always twoCalls r.1 r.2 List.prefix_rfl run .admn
    rw [Option.some.inj seen] at last
    exact absurd last (by decide)
  · cases seen

end OpenQueue
