import OpenQueue.Lib.Service
import OpenQueue.Sim.Pools
import OpenQueue.Spec.Calls
import OpenQueue.Spec.Order

/-!
# Who waits

A packet waits in a queue from the call that enqueues it to the call that returns it or
drops it for another. Both are read off the calls and their answers, not off the trees: an
arrival is the number of a call, the packet and the key that `proc_fn` gave it. After a
run, the packets that a queue holds are the arrivals that have not left, each once and in
the order of their calls.
-/

namespace OpenQueue

variable {Ω π : Type}

/-- The call takes `x` out of queue `i`: `oq_dequeue` returns it, or `oq_enqueue` frees it
to make room for the packet it is handed. -/
inductive Port.Releases (cb : Callbacks Ω π) (p : Port π) (i : QId) (x : SkBuff π) : Call Ω π → Prop
  | returned {ω p'} : slot? (cb.schedFn ω p.infos) = some i →
      p.call cb (.oqDequeue ω) = .ok (.dequeue (.packet x), p') → Port.Releases cb p i x (.oqDequeue ω)
  | dropped {ω ins skb out p'} : Congested cb p.infos ω skb i →
      cb.congActFn ω (p.infos i) skb = oqConActDropTail → p.call cb (.oqEnqueue ω ins skb) = .ok (out, p') →
      p'.mem.freed = p.mem.freed ++ [x] → Port.Releases cb p i x (.oqEnqueue ω ins skb)

theorem Port.Releases.selects {cb : Callbacks Ω π} {p : Port π} {i : QId} {x : SkBuff π} {c : Call Ω π}
    (h : p.Releases cb i x c) : p.selects cb c = some i := by
  cases h with
  | returned slot => exact slot
  | dropped congested => exact congested.slot

/-- The `n`-th call takes `x` out of queue `i`. -/
def LeavesAt (cb : Callbacks Ω π) (p : Port π) (calls : List (Call Ω π)) (n : Nat) (i : QId) (x : SkBuff π) : Prop :=
  ∃ c outs q, calls[n]? = some c ∧ Lib.run (Port.call cb) p (calls.take n) = .ok (outs, q) ∧ q.Releases cb i x c

/-- A packet with the number of the call that enqueued it and the key it got. -/
structure Arrival (π : Type) where
  call : Nat
  skb : SkBuff π
  key : Key

/-- A packet with the key under which it is served. -/
def Arrival.keyed (a : Arrival π) : SkBuff π × Key := (a.skb, a.key)

@[inherit_doc Arrival.keyed]
def Held.keyed (h : Held π) : SkBuff π × Key := (h.skb, h.procKey)

namespace Arrival

/-- The packet was enqueued in queue `i` by its call, and no later call takes it out. -/
structure Waits (cb : Callbacks Ω π) (p : Port π) (calls : List (Call Ω π)) (i : QId) (a : Arrival π) : Prop where
  enqueued : EnqueuedAt cb p calls a.call i a.skb a.key
  stays : ∀ n, a.call < n → ¬ LeavesAt cb p calls n i a.skb

/-- The greater key is served first, and the earlier call among equals. -/
def Before (a b : Arrival π) : Prop := b.key < a.key ∨ b.key = a.key ∧ a.call < b.call

section Snoc

variable {cb : Callbacks Ω π} {p t : Port π} {done : List (Call Ω π)} {os : List (Out π)} {i : QId} {a : Arrival π}
  {c : Call Ω π}

theorem waits_nil : ¬ a.Waits cb p [] i := by
  rintro ⟨⟨c, os, t, none, -⟩, -⟩
  cases none

theorem Waits.call_lt (h : a.Waits cb p done i) : a.call < done.length := by
  obtain ⟨c, os, t, here, -⟩ := h.enqueued
  exact (List.getElem?_eq_some_iff.1 here).1

/-- After one call more, those wait that waited and are not taken out, and the packet that
is enqueued. -/
theorem waits_snoc (ran : Lib.run (Port.call cb) p done = .ok (os, t)) :
    a.Waits cb p (done ++ [c]) i ↔
      a.Waits cb p done i ∧ ¬ t.Releases cb i a.skb c ∨ a.call = done.length ∧ t.Enqueues cb i a.skb a.key c := by
  have enqueued : EnqueuedAt cb p (done ++ [c]) a.call i a.skb a.key ↔
      EnqueuedAt cb p done a.call i a.skb a.key ∨ a.call = done.length ∧ t.Enqueues cb i a.skb a.key c :=
    Lib.exists_at_snoc ran
  have leaves : ∀ n, LeavesAt cb p (done ++ [c]) n i a.skb ↔
      LeavesAt cb p done n i a.skb ∨ n = done.length ∧ t.Releases cb i a.skb c :=
    fun n => Lib.exists_at_snoc ran
  constructor
  · rintro ⟨enq, stays⟩
    rcases enqueued.1 enq with old | new
    · have waits : a.Waits cb p done i := ⟨old, fun n later left => stays n later ((leaves n).2 (.inl left))⟩
      exact .inl ⟨waits, fun left => stays _ waits.call_lt ((leaves _).2 (.inr ⟨rfl, left⟩))⟩
    · exact .inr new
  · rintro (⟨waits, kept⟩ | ⟨last, enq⟩)
    · refine ⟨enqueued.2 (.inl waits.enqueued), fun n later left => ?_⟩
      rcases (leaves n).1 left with old | ⟨-, new⟩
      · exact waits.stays n later old
      · exact kept new
    · refine ⟨enqueued.2 (.inr ⟨last, enq⟩), fun n later left => ?_⟩
      rcases (leaves n).1 left with ⟨c', os', t', here, -⟩ | ⟨same, -⟩
      · have := (List.getElem?_eq_some_iff.1 here).1
        omega
      · omega

end Snoc

end Arrival

/-! ## One call -/

namespace SpecQueue

variable {q q' : SpecQueue π} {skb? : Option (SkBuff π)}

open Classical in
/-- Without doubles, what is left is everything but the packet. -/
theorem Distinct.filter_middle {x : Held π} {front back : List (Held π)} (distinct : q.Distinct)
    (split : q.held = front ++ x :: back) :
    q.held.filter (fun h => ¬ some x.skb = some h.skb) = front ++ back := by
  rw [Distinct, split, List.map_append, List.map_cons, List.nodup_middle, List.nodup_cons, ← List.map_append] at distinct
  have others : ∀ h ∈ front ++ back, ¬ some x.skb = some h.skb := by
    intro h member same
    refine distinct.1 (List.mem_map.2 ⟨h, member, ?_⟩)
    rw [Option.some.inj same]
  obtain ⟨before, after⟩ := List.forall_mem_append.1 others
  rw [split, List.filter_append, List.filter_cons_of_neg (by simp), List.filter_eq_self.2, List.filter_eq_self.2]
  · exact fun h member => decide_eq_true (after h member)
  · exact fun h member => decide_eq_true (before h member)

open Classical in
theorem held_dropTail (distinct : q.Distinct) (h : q.dropTail = (skb?, q')) :
    q'.held = q.held.filter (fun h => ¬ skb? = some h.skb) := by
  rcases dropTail_cases h with ⟨empty, rfl, rfl⟩ | ⟨x, front, back, rfl, split, rfl⟩
  · rw [empty]
    rfl
  · exact (distinct.filter_middle split).symm

open Classical in
theorem held_dequeue (distinct : q.Distinct) (h : q.dequeue = (skb?, q')) :
    q'.held = q.held.filter (fun h => ¬ skb? = some h.skb) := by
  rcases dequeue_cases h with ⟨empty, rfl, rfl⟩ | ⟨x, front, back, rfl, split, rfl⟩
  · rw [empty]
    rfl
  · exact (distinct.filter_middle split).symm

end SpecQueue

namespace Follows

variable {cb : Callbacks Ω π} {p p' : Port π} {s s' : SpecPort π} {c : Call Ω π} {out : Out π} {i j : QId} {ω : Ω}
  {ins : Inserts} {skb x : SkBuff π} {k : Key}

theorem enqueues_unique {l : Key} {y : SkBuff π} (f : Follows p s) (h : p.Enqueues cb i x k c)
    (h' : p.Enqueues cb j y l c) : i = j ∧ x = y ∧ k = l :=
  (h.onLists f.holds).unique (h'.onLists f.holds)

theorem enqueues_free (f : Follows p s) (slot : slot? (cb.qSelect ω s.infos skb) = some i)
    (free : cb.congFn ω (s.infos i) = false) :
    p.Enqueues cb i skb (cb.procFn ω (s.infos i) skb) (.oqEnqueue ω ins skb) := by
  rw [← f.infos] at slot free ⊢
  exact .free slot free rfl

theorem enqueues_afterDrop {skb? : Option (SkBuff π)} {q : SpecQueue π} (f : Follows p s)
    (congested : Congested cb s.infos ω skb i) (tail : cb.congActFn ω (s.infos i) skb = oqConActDropTail)
    (drop : (s.queues i).dropTail = (skb?, q)) :
    p.Enqueues cb i skb (cb.procFn ω q.toQueueInfo skb) (.oqEnqueue ω ins skb) := by
  obtain ⟨exit, lists⟩ := SpecQueue.lists_dropTail_of (f.distinct i) drop
  have agree := (FramedSim.onQueue doDropTail_sim i).sim p s.lists f.holds
  have answer : ListPort.onQueue i ListPort.doDropTail s.lists = .ok (exit, s.lists.set i q.lists skb?.toList) := by
    have lists' : (s.lists.queues i).doDropTail = (exit, skb?.toList, q.lists) := lists
    rw [ListPort.onQueue, ListPort.doDropTail, lists']
    rfl
  rw [answer] at agree
  obtain ⟨p₁, ran, g, C, L, repr⟩ := agree.of_ok_right
  rw [← f.infos] at congested tail
  refine .afterDrop congested tail ran ?_
  rw [repr.infos, ListPort.infos, ListPort.set_queues]
  rfl

/-- A packet that is refused or ignored is not enqueued. -/
theorem not_enqueues (f : Follows p s) (congested : Congested cb s.infos ω skb j)
    (other : cb.congActFn ω (s.infos j) skb ≠ oqConActDropTail) : ¬ p.Enqueues cb i x k (.oqEnqueue ω ins skb) := by
  intro enq
  cases enq.onLists f.holds with
  | free slot free key =>
    obtain rfl := Option.some.inj (congested.slot.symm.trans slot)
    exact absurd (congested.full.symm.trans free) (by decide)
  | afterDrop congested' tail key =>
    obtain rfl := Option.some.inj (congested.slot.symm.trans congested'.slot)
    exact other tail

/-- Only a tail drop takes a packet out for another. -/
theorem not_releases (f : Follows p s) (slot : slot? (cb.qSelect ω s.infos skb) = some j)
    (other : cb.congFn ω (s.infos j) = true → cb.congActFn ω (s.infos j) skb ≠ oqConActDropTail) :
    ¬ p.Releases cb i x (.oqEnqueue ω ins skb) := by
  intro rel
  cases rel with
  | dropped congested tail =>
    rw [f.infos] at congested tail
    obtain rfl := Option.some.inj (slot.symm.trans congested.slot)
    exact other congested.full tail

/-- A tail drop releases the packet that it frees. -/
theorem releases_drop {skb? : Option (SkBuff π)} {q : SpecQueue π} (f : Follows p s)
    (f' : Follows p' (s.set i q skb?.toList)) (step : p.call cb (.oqEnqueue ω ins skb) = .ok (out, p'))
    (congested : Congested cb s.infos ω skb i) (tail : cb.congActFn ω (s.infos i) skb = oqConActDropTail) :
    p.Releases cb i x (.oqEnqueue ω ins skb) ↔ skb? = some x := by
  have freed : p'.mem.freed = p.mem.freed ++ skb?.toList := by
    rw [f'.freed, f.freed]
    rfl
  rw [← f.infos] at congested tail
  constructor
  · intro rel
    cases rel with
    | dropped congested' tail' step' freed' =>
      cases step.symm.trans step'
      rw [freed] at freed'
      exact Option.toList_eq_singleton_iff.1 (List.append_cancel_left freed')
  · rintro rfl
    exact .dropped congested tail step freed

/-- A dequeue releases the packet that it returns. -/
theorem releases_dequeue {skb? : Option (SkBuff π)} (f : Follows p s)
    (step : p.call cb (.oqDequeue ω) = .ok (.dequeue (.of skb?), p')) (slot : slot? (cb.schedFn ω s.infos) = some i) :
    p.Releases cb i x (.oqDequeue ω) ↔ skb? = some x := by
  rw [← f.infos] at slot
  constructor
  · intro rel
    cases rel with
    | returned slot' step' =>
      have same := step.symm.trans step'
      cases skb? with
      | none => cases same
      | some y =>
        cases same
        rfl
  · rintro rfl
    exact .returned slot step

open Classical in
/-- One call on one queue: the packet that it releases is gone, and the packet that it
enqueues is last. -/
theorem moves (f : Follows p s) (f' : Follows p' s') (step : p.call cb c = .ok (out, p'))
    (way : s.Called cb c out s') (i : QId) :
    ∃ new : Option (Held π),
      (s'.queues i).held = (s.queues i).held.filter (fun h => ¬ p.Releases cb i h.skb c) ++ new.toList ∧
      ∀ x k, p.Enqueues cb i x k c ↔ ∃ h, new = some h ∧ h.skb = x ∧ h.procKey = k := by
  have quiet : (∀ x, ¬ p.Releases cb i x c) → (∀ x k, ¬ p.Enqueues cb i x k c) →
      (s'.queues i).held = (s.queues i).held → ∃ new : Option (Held π),
        (s'.queues i).held = (s.queues i).held.filter (fun h => ¬ p.Releases cb i h.skb c) ++ new.toList ∧
        ∀ x k, p.Enqueues cb i x k c ↔ ∃ h, new = some h ∧ h.skb = x ∧ h.procKey = k := by
    intro kept none same
    refine ⟨.none, ?_, fun x k => iff_of_false (none x k) (by rintro ⟨h, ⟨⟩, -⟩)⟩
    rw [same, List.filter_eq_self.2 fun h _ => decide_eq_true (kept h.skb), Option.toList_none, List.append_nil]
  have arrives : ∀ {h : Held π}, p.Enqueues cb i h.skb h.procKey c → ∀ x k, p.Enqueues cb i x k c ↔
      ∃ h', some h = some h' ∧ h'.skb = x ∧ h'.procKey = k := by
    intro h enq x k
    constructor
    · intro enq'
      obtain ⟨-, packet, key⟩ := f.enqueues_unique enq enq'
      exact ⟨h, rfl, packet, key⟩
    · rintro ⟨h', ⟨⟩, rfl, rfl⟩
      exact enq
  cases way with
  | @admitted j ω ins skb slot free ready =>
    have kept : ∀ x, ¬ p.Releases cb i x (.oqEnqueue ω ins skb) := fun x =>
      f.not_releases slot fun full => absurd (full.symm.trans free) (by decide)
    have enq : p.Enqueues cb j skb _ (.oqEnqueue ω ins skb) := f.enqueues_free slot free
    by_cases here : i = j
    · subst here
      refine ⟨some ⟨skb, cb.admnFn ω (s.infos i) skb, cb.procFn ω (s.infos i) skb⟩, ?_, arrives enq⟩
      rw [SpecPort.set_same, List.filter_eq_self.2 fun h _ => decide_eq_true (kept h.skb)]
      rfl
    · exact quiet kept (fun x k enq' => here (f.enqueues_unique enq' enq).1) (by rw [SpecPort.set_other here])
  | @tailDropped j ω ins skb skb? q congested tail ready drop =>
    have enq : p.Enqueues cb j skb _ (.oqEnqueue ω ins skb) := f.enqueues_afterDrop congested tail drop
    by_cases here : i = j
    · subst here
      refine ⟨some ⟨skb, cb.admnFn ω q.toQueueInfo skb, cb.procFn ω q.toQueueInfo skb⟩, ?_, arrives enq⟩
      rw [SpecPort.set_same, List.filter_congr fun h _ => decide_eq_decide.2
        (not_congr (f.releases_drop f' step congested tail)), ← SpecQueue.held_dropTail (f.distinct i) drop]
      rfl
    · refine quiet (fun x rel => here ?_) (fun x k enq' => here (f.enqueues_unique enq' enq).1)
        (by rw [SpecPort.set_other here])
      rw [← f.infos] at congested
      exact Option.some.inj (rel.selects.symm.trans congested.slot)
  | @refused j ω ins skb congested pkt =>
    have other : cb.congActFn ω (s.infos j) skb ≠ oqConActDropTail := by rw [pkt]; decide
    refine quiet (fun x => f.not_releases congested.slot fun _ => other) (fun x k => f.not_enqueues congested other) ?_
    by_cases here : i = j
    · subst here
      rw [SpecPort.set_same]
    · rw [SpecPort.set_other here]
  | @ignored j ω ins skb congested tail pkt =>
    exact quiet (fun x => f.not_releases congested.slot fun _ => tail) (fun x k => f.not_enqueues congested tail) rfl
  | @dequeued j ω skb? q slot deq =>
    by_cases here : i = j
    · subst here
      refine ⟨none, ?_, fun x k => iff_of_false nofun (by rintro ⟨h, ⟨⟩, -⟩)⟩
      rw [SpecPort.set_same, List.filter_congr fun h _ => decide_eq_decide.2
        (not_congr (f.releases_dequeue step slot)), ← SpecQueue.held_dequeue (f.distinct i) deq]
      exact (List.append_nil _).symm
    · refine quiet (fun x rel => here ?_) (fun x k => nofun) (by rw [SpecPort.set_other here])
      rw [← f.infos] at slot
      exact Option.some.inj (rel.selects.symm.trans slot)

end Follows

/-! ## Whole runs -/

section Runs

variable {cb : Callbacks Ω π} {p t t' : Port π} {s s' : SpecPort π} {done : List (Call Ω π)} {os : List (Out π)}
  {c : Call Ω π} {out : Out π} {i : QId}

/-- The queue holds the arrivals that wait, in the order of their calls. -/
structure HoldsArrivals (cb : Callbacks Ω π) (p : Port π) (calls : List (Call Ω π)) (i : QId) (q : SpecQueue π)
    (ws : List (Arrival π)) : Prop where
  waits : ∀ a, a ∈ ws ↔ a.Waits cb p calls i
  ordered : ws.Pairwise fun a b => a.call < b.call
  held : ws.map Arrival.keyed = q.held.map Held.keyed

/-- One call more: who leaves is taken out of the list, and who arrives is put at its end. -/
theorem HoldsArrivals.call {ws : List (Arrival π)} (h : HoldsArrivals cb p done i (s.queues i) ws)
    (ran : Lib.run (Port.call cb) p done = .ok (os, t)) (f : Follows t s) (f' : Follows t' s')
    (step : t.call cb c = .ok (out, t')) (way : s.Called cb c out s') :
    ∃ ws', HoldsArrivals cb p (done ++ [c]) i (s'.queues i) ws' := by
  classical
  obtain ⟨new, held, enqueues⟩ := f.moves f' step way i
  refine ⟨ws.filter (fun a => ¬ t.Releases cb i a.skb c) ++
    (new.map fun x => ⟨done.length, x.skb, x.procKey⟩).toList, fun a => ?_, ?_, ?_⟩
  · rw [Arrival.waits_snoc ran, List.mem_append, List.mem_filter, h.waits, decide_eq_true_eq, enqueues,
      Option.mem_toList, Option.map_eq_some_iff]
    refine or_congr_right ⟨?_, ?_⟩
    · rintro ⟨x, rfl, rfl⟩
      exact ⟨rfl, x, rfl, rfl, rfl⟩
    · rintro ⟨last, x, rfl, packet, key⟩
      obtain ⟨n, skb, k⟩ := a
      cases last
      cases packet
      cases key
      exact ⟨x, rfl, rfl⟩
  · refine List.pairwise_append.2 ⟨h.ordered.sublist List.filter_sublist, ?_, fun a old b last => ?_⟩
    · cases new with
      | none => exact List.Pairwise.nil
      | some x => exact List.pairwise_singleton _ _
    · rw [Option.mem_toList, Option.map_eq_some_iff] at last
      obtain ⟨x, -, rfl⟩ := last
      exact ((h.waits a).1 (List.mem_of_mem_filter old)).call_lt
  · have kept : (ws.filter fun a => ¬ t.Releases cb i a.skb c).map Arrival.keyed =
        ((s.queues i).held.filter fun x => ¬ t.Releases cb i x.skb c).map Held.keyed := by
      have both := congrArg (List.filter fun e => decide (¬ t.Releases cb i e.1 c)) h.held
      rwa [List.filter_map, List.filter_map] at both
    rw [held, List.map_append, List.map_append, kept]
    cases new <;> rfl

theorem run_holdsArrivals {calls : List (Call Ω π)} {outs : List (Out π)} (init : p.Initialised)
    (admitted : ∀ t c, Lib.Calls (Port.call cb) p calls t c → t.Admits cb c)
    (run : Lib.run (Port.call cb) p calls = .ok (outs, t)) (i : QId) :
    ∃ s ws, Follows t s ∧ HoldsArrivals cb p calls i (s.queues i) ws := by
  refine Lib.run_invariant (P := fun done _ t => ∃ s ws, Follows t s ∧ HoldsArrivals cb p done i (s.queues i) ws)
    admitted ⟨_, [], .initial init, fun a => ?_, List.Pairwise.nil, rfl⟩ ?_ run
  · exact iff_of_false List.not_mem_nil Arrival.waits_nil
  · rintro done os t c out t' ran ⟨s, ws, f, h⟩ admits step
    obtain ⟨s', way, f'⟩ := f.call admits step
    obtain ⟨ws', h'⟩ := h.call ran f f' step way
    exact ⟨s', ws', f', h'⟩

end Runs

end OpenQueue
