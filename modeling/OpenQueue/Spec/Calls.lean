import OpenQueue.Spec.Refinement
import OpenQueue.Sim.Losses

/-!
# The qdisc on queues in arrival order

`oq_enqueue` and `oq_dequeue` on the specification, one constructor for each way
through the code. A port that follows a specification goes the same way on every call,
as long as the packet handed in is not held by the queue it is sent to and the insertions
that are needed get their memory. Faults are not excluded: a run may end in one, and what is proved of
runs is about the states before it.
-/

namespace OpenQueue

variable {Ω π : Type}

/-- The packet handed in is new to the queue it is sent to. -/
def Port.NewTo (cb : Callbacks Ω π) (p : Port π) : Call Ω π → Prop
  | .oqEnqueue ω _ skb =>
    ∀ i, slot? (cb.qSelect ω p.infos skb) = some i → ∀ t, ∀ x ∈ p.items i t, x.skb.addr ≠ skb.addr
  | .oqDequeue _ => True

/-- What the caller of the qdisc owes, and memory for the insertions that are needed. -/
structure Port.Admits (cb : Callbacks Ω π) (p : Port π) (c : Call Ω π) : Prop where
  new : p.NewTo cb c
  inserted : ∀ i t, p.fails cb i t c = false

theorem Port.Admits.dequeue (cb : Callbacks Ω π) (p : Port π) (ω : Ω) : p.Admits cb (.oqDequeue ω) :=
  ⟨trivial, fun _ _ => rfl⟩

theorem Side.forall_iff {P : Side → Prop} : (∀ t, P t) ↔ P .admn ∧ P .proc :=
  ⟨fun all => ⟨all .admn, all .proc⟩, fun both t => match t with | .admn => both.1 | .proc => both.2⟩

instance Port.decidable_newTo (cb : Callbacks Ω π) (p : Port π) : (c : Call Ω π) → Decidable (p.NewTo cb c)
  | .oqEnqueue ω _ skb =>
    decidable_of_iff (∀ i, slot? (cb.qSelect ω p.infos skb) = some i →
        (∀ x ∈ p.items i .admn, x.skb.addr ≠ skb.addr) ∧ ∀ x ∈ p.items i .proc, x.skb.addr ≠ skb.addr)
      (forall_congr' fun i => imp_congr_right fun _ =>
        (Side.forall_iff (P := fun t => ∀ x ∈ p.items i t, x.skb.addr ≠ skb.addr)).symm)
  | .oqDequeue _ => .isTrue trivial

instance Port.decidable_admits (cb : Callbacks Ω π) (p : Port π) (c : Call Ω π) : Decidable (p.Admits cb c) :=
  decidable_of_iff (p.NewTo cb c ∧ ∀ i, p.fails cb i .admn c = false ∧ p.fails cb i .proc c = false)
    ⟨fun both => ⟨both.1, fun i => Side.forall_iff.2 (both.2 i)⟩,
      fun admits => ⟨admits.new, fun i => Side.forall_iff.1 (admits.inserted i)⟩⟩

/-- The exit of `oq_dequeue` for a packet or none. -/
def DequeueExit.of (skb? : Option (SkBuff π)) : DequeueExit π := skb?.elim .noPacket .packet

namespace SpecPort

/-- The port with another queue in slot `i` and more packets dropped. -/
def set (s : SpecPort π) (i : QId) (q : SpecQueue π) (dropped : List (SkBuff π)) : SpecPort π :=
  ⟨Function.update s.queues i q, s.dropped ++ dropped⟩

/-- The ways through one call of the qdisc. -/
inductive Called (cb : Callbacks Ω π) (s : SpecPort π) : Call Ω π → Out π → SpecPort π → Prop
  | admitted {i ω ins skb} : slot? (cb.qSelect ω s.infos skb) = some i → cb.congFn ω (s.infos i) = false →
      (s.queues i).ready = true →
      Called cb s (.oqEnqueue ω ins skb) (.status netXmitSuccess) (s.set i ((s.queues i).enqueue cb ω skb) [])
  | tailDropped {i ω ins skb skb? q} : Congested cb s.infos ω skb i →
      cb.congActFn ω (s.infos i) skb = oqConActDropTail → (s.queues i).ready = true →
      (s.queues i).dropTail = (skb?, q) →
      Called cb s (.oqEnqueue ω ins skb) (.status 0) (s.set i (q.enqueue cb ω skb) skb?.toList)
  | refused {i ω ins skb} : Congested cb s.infos ω skb i → cb.congActFn ω (s.infos i) skb = oqConActDropPkt →
      Called cb s (.oqEnqueue ω ins skb) (.status 0)
        (s.set i { s.queues i with dropped := (s.queues i).dropped + 1 } [skb])
  | ignored {i ω ins skb} : Congested cb s.infos ω skb i → cb.congActFn ω (s.infos i) skb ≠ oqConActDropTail →
      cb.congActFn ω (s.infos i) skb ≠ oqConActDropPkt → Called cb s (.oqEnqueue ω ins skb) (.status 0) s
  | dequeued {i ω skb? q} : slot? (cb.schedFn ω s.infos) = some i → (s.queues i).dequeue = (skb?, q) →
      Called cb s (.oqDequeue ω) (.dequeue (.of skb?)) (s.set i q [])

variable {s : SpecPort π} {i j : QId} {q : SpecQueue π} {dropped : List (SkBuff π)}

@[simp] theorem set_same : (s.set i q dropped).queues i = q := by
  simp only [set, Function.update_self]

theorem set_other (other : j ≠ i) : (s.set i q dropped).queues j = s.queues j := by
  simp only [set, Function.update_of_ne other]

/-- A property of all queues survives if the new queue has it. -/
theorem set_forall {P : SpecQueue π → Prop} (all : ∀ j, P (s.queues j)) (new : P q) (j : QId) :
    P ((s.set i q dropped).queues j) := by
  by_cases same : j = i
  · subst same
    rwa [set_same]
  · rw [set_other same]
    exact all j

theorem lists_set (s : SpecPort π) (i : QId) (q : SpecQueue π) (dropped : List (SkBuff π)) :
    (s.set i q dropped).lists = s.lists.set i q.lists dropped :=
  lists_update s i q _

end SpecPort

namespace SpecQueue

variable {q q' : SpecQueue π} {skb? : Option (SkBuff π)}

theorem dropTail_ready (h : q.dropTail = (skb?, q')) : q'.ready = q.ready := by
  rcases dropTail_cases h with ⟨-, -, rfl⟩ | ⟨x, front, back, -, -, rfl⟩ <;> rfl

theorem dequeue_ready (h : q.dequeue = (skb?, q')) : q'.ready = q.ready := by
  rcases dequeue_cases h with ⟨-, -, rfl⟩ | ⟨x, front, back, -, -, rfl⟩ <;> rfl

/-- The tail drop of a queue, on its lists. -/
theorem lists_dropTail_of (distinct : q.Distinct) (h : q.dropTail = (skb?, q')) :
    ∃ exit, q.lists.doDropTail = (exit, skb?.toList, q'.lists) := by
  have answer := lists_dropTail distinct
  rw [h] at answer
  cases skb? with
  | none => exact ⟨_, answer⟩
  | some skb => exact ⟨_, answer⟩

/-- The dequeue of a queue, on its lists. -/
theorem lists_dequeue_of (distinct : q.Distinct) (h : q.dequeue = (skb?, q')) :
    q.lists.dequeueFrom = (.of skb?, q'.lists) := by
  have answer := lists_dequeue distinct
  rw [h] at answer
  cases skb? <;> exact answer

end SpecQueue

/-- A queue that holds something is initialised. -/
def SpecQueue.ReadyIfHeld (q : SpecQueue π) : Prop := q.held ≠ [] → q.ready = true

theorem SpecQueue.ReadyIfHeld.sublist {q q' : SpecQueue π} (h : q.ReadyIfHeld) (sub : q'.held.Sublist q.held)
    (same : q'.ready = q.ready) : q'.ReadyIfHeld := by
  intro full
  rw [same]
  refine h (fun empty => full ?_)
  rw [empty] at sub
  exact List.sublist_nil.1 sub

/-- The port holds what the specification holds. -/
structure Follows (p : Port π) (s : SpecPort π) : Prop where
  holds : Holds p s.lists
  distinct : ∀ i, (s.queues i).Distinct
  ready : ∀ i, (s.queues i).ReadyIfHeld

namespace Follows

variable {cb : Callbacks Ω π} {p p' : Port π} {s s' : SpecPort π} {c : Call Ω π} {out : Out π} {i : QId}

theorem initial (init : p.Initialised) : Follows p (SpecPort.initial p.infos) :=
  ⟨⟨_, _, _, PortRepr.initial init⟩, fun _ => List.nodup_nil, fun _ full => absurd rfl full⟩

theorem infos (f : Follows p s) : p.infos = s.infos := by
  obtain ⟨g, C, L, repr⟩ := f.holds
  exact repr.infos

theorem freed (f : Follows p s) : p.mem.freed = s.dropped := by
  obtain ⟨g, C, L, repr⟩ := f.holds
  exact repr.freed

theorem items_perm (f : Follows p s) (i : QId) (t : Side) :
    (p.items i t).Perm ((s.queues i).held.map fun x => x.item t) := by
  obtain ⟨g, C, L, repr⟩ := f.holds
  exact Refines.side s i t ▸ repr.items_perm i t

theorem length_items (f : Follows p s) (i : QId) (t : Side) : (p.items i t).length = (s.queues i).held.length := by
  rw [(f.items_perm i t).length_eq, List.length_map]

/-- The packet handed in is new to the queue it is sent to. -/
theorem fresh {ω : Ω} {ins : Inserts} {skb : SkBuff π} (f : Follows p s)
    (admits : p.Admits cb (.oqEnqueue ω ins skb)) (slot : slot? (cb.qSelect ω s.infos skb) = some i) :
    ∀ x ∈ (s.queues i).held, x.skb.addr ≠ skb.addr := by
  intro x hx
  rw [← f.infos] at slot
  have member : x.item .admn ∈ p.items i .admn := (f.items_perm i .admn).mem_iff.2 (List.mem_map.2 ⟨x, hx, rfl⟩)
  exact admits.new i slot .admn _ member

/-- The way on the specification is a way on its lists. -/
theorem lists_called (f : Follows p s) (admits : p.Admits cb c) (way : s.Called cb c out s') :
    ListPort.Called cb s.lists c out s'.lists := by
  have inserted : ∀ i t, s.lists.fails cb i t c = false := fun i t => f.holds.fails cb i t c ▸ admits.inserted i t
  cases way with
  | @admitted i ω ins skb slot free ready =>
    have fits : ∀ t, (s.lists.queues i).refuses cb ω ins skb t = false := fun t =>
      (ListPort.fails_of_free (s := s.lists) slot free).symm.trans (inserted i t)
    rw [SpecPort.lists_set]
    refine .admitted slot free ?_
    rw [ListQueue.doEnqueue_of_fits fits]
    exact SpecQueue.lists_enqueue cb ω skb ready
  | @tailDropped i ω ins skb skb? q congested tail ready drop =>
    obtain ⟨exit, drop'⟩ := SpecQueue.lists_dropTail_of (f.distinct i) drop
    have left : (s.lists.queues i).doDropTail.2.2 = q.lists := congrArg (fun r => r.2.2) drop'
    have fits : ∀ t, q.lists.refuses cb ω ins skb t = false := fun t =>
      left ▸ (ListPort.fails_of_tail (s := s.lists) congested tail).symm.trans (inserted i t)
    rw [SpecPort.lists_set]
    refine .tailDropped congested tail drop' ?_
    rw [ListQueue.doEnqueue_of_fits fits]
    refine SpecQueue.lists_enqueue cb ω skb ?_
    rw [SpecQueue.dropTail_ready drop, ready]
  | refused congested pkt =>
    rw [SpecPort.lists_set]
    exact .refused congested pkt
  | ignored congested tail pkt => exact .ignored congested tail pkt
  | dequeued slot deq =>
    rw [SpecPort.lists_set]
    exact .dequeued slot (SpecQueue.lists_dequeue_of (f.distinct _) deq)

theorem distinct_called (f : Follows p s) (admits : p.Admits cb c) (way : s.Called cb c out s') :
    ∀ i, (s'.queues i).Distinct := by
  cases way with
  | admitted slot free ready => exact SpecPort.set_forall f.distinct ((f.distinct _).enqueue (f.fresh admits slot))
  | tailDropped congested tail ready drop =>
    have sub := SpecQueue.dropTail_sublist drop
    exact SpecPort.set_forall f.distinct (((f.distinct _).sublist sub).enqueue fun x hx =>
      f.fresh admits congested.slot x (sub.subset hx))
  | refused congested pkt => exact SpecPort.set_forall f.distinct (f.distinct _)
  | ignored congested tail pkt => exact f.distinct
  | dequeued slot deq =>
    exact SpecPort.set_forall f.distinct ((f.distinct _).sublist (SpecQueue.dequeue_sublist deq))

theorem ready_called (f : Follows p s) (way : s.Called cb c out s') :
    ∀ i, (s'.queues i).ReadyIfHeld := by
  cases way with
  | admitted slot free ready => exact SpecPort.set_forall f.ready (fun _ => ready)
  | tailDropped congested tail ready drop =>
    refine SpecPort.set_forall f.ready (fun _ => ?_)
    exact (SpecQueue.dropTail_ready drop).trans ready
  | refused congested pkt => exact SpecPort.set_forall f.ready (f.ready _)
  | ignored congested tail pkt => exact f.ready
  | dequeued slot deq =>
    refine SpecPort.set_forall f.ready ((f.ready _).sublist (SpecQueue.dequeue_sublist deq) ?_)
    exact SpecQueue.dequeue_ready deq

/-- Every way of the specification is gone by the port. -/
theorem called (f : Follows p s) (admits : p.Admits cb c) (way : s.Called cb c out s') :
    ∃ p', p.call cb c = .ok (out, p') ∧ Follows p' s' := by
  have agree := call_agree cb p s.lists c f.holds
  rw [(f.lists_called admits way).run] at agree
  obtain ⟨p', run, holds⟩ := agree.of_ok_right
  exact ⟨p', run, holds, f.distinct_called admits way, f.ready_called way⟩

/-- A queue that takes a packet is initialised. -/
theorem ready_of_enqueue {q : SpecQueue π} {ω : Ω} {ins : Inserts} {skb : SkBuff π} {a : ListQueue π}
    (full : q.ReadyIfHeld) (enq : q.lists.doEnqueue cb ω ins skb = .ok a) : q.ready = true := by
  have lists : q.lists.ReadyIfHeld := by
    intro t some
    refine full fun empty => some ?_
    cases t <;> simp [SpecQueue.lists, ListQueue.side, empty]
  exact lists.ready enq

/-- Every call that succeeds goes a way of the specification. -/
theorem call (f : Follows p s) (admits : p.Admits cb c) (run : p.call cb c = .ok (out, p')) :
    ∃ s', s.Called cb c out s' ∧ Follows p' s' := by
  have agree := call_agree cb p s.lists c f.holds
  rw [run] at agree
  obtain ⟨a, run', -⟩ := agree.of_ok
  have way : ∃ out' s', s.Called cb c out' s' := by
    cases ListPort.Called.of_call run' with
    | admitted slot free enq => exact ⟨_, _, .admitted slot free (ready_of_enqueue (f.ready _) enq)⟩
    | @tailDropped i ω ins skb exit freed q q' congested tail drop enq =>
      rcases top : (s.queues i).dropTail with ⟨skb?, q₁⟩
      obtain ⟨exit', drop'⟩ := SpecQueue.lists_dropTail_of (f.distinct i) top
      obtain rfl : q = q₁.lists := by
        have same := drop.symm.trans drop'
        cases same
        rfl
      refine ⟨_, _, .tailDropped congested tail ?_ top⟩
      rw [← SpecQueue.dropTail_ready top]
      exact ready_of_enqueue ((f.ready i).sublist (SpecQueue.dropTail_sublist top) (SpecQueue.dropTail_ready top)) enq
    | refused congested pkt => exact ⟨_, _, .refused congested pkt⟩
    | ignored congested tail pkt => exact ⟨_, _, .ignored congested tail pkt⟩
    | dequeued slot deq => exact ⟨_, _, .dequeued slot rfl⟩
  obtain ⟨out', s', way⟩ := way
  obtain ⟨p'', run'', f'⟩ := f.called admits way
  rw [run] at run''
  cases run''
  exact ⟨s', way, f'⟩

/-- The state after any run of admitted calls. -/
theorem run {calls : List (Call Ω π)} {outs : List (Out π)} (init : p.Initialised)
    (admitted : ∀ t c, Lib.Calls (Port.call cb) p calls t c → t.Admits cb c)
    (ran : Lib.run (Port.call cb) p calls = .ok (outs, p')) : ∃ s, Follows p' s := by
  refine Lib.run_invariant (P := fun _ _ t => ∃ s, Follows t s) admitted ⟨_, initial init⟩ ?_ ran
  intro is os t c o t' _ follows admits step
  obtain ⟨s, f⟩ := follows
  obtain ⟨s', -, f'⟩ := f.call admits step
  exact ⟨s', f'⟩

end Follows

end OpenQueue
