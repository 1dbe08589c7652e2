import OpenQueue.Spec.Accounting

/-!
# The counters of a queue

`total` counts what `do_enqueue` takes in, `dropped` what a tail drop takes out and
what is refused, and the packets held are the rest. One call moves the three together
(`Tally`), so they balance after every run, modulo the range of an `int`.
-/

namespace OpenQueue

variable {Ω π : Type}

namespace Port

/-- The call hands its packet to `do_enqueue` on queue `i`. -/
def admitsTo (cb : Callbacks Ω π) (i : QId) (p : Port π) : Call Ω π → Bool
  | .oqEnqueue ω _ skb => slot? (cb.qSelect ω p.infos skb) = some i &&
    (!cb.congFn ω (p.infos i) || cb.congActFn ω (p.infos i) skb = oqConActDropTail)
  | .oqDequeue _ => false

/-- The call refuses its packet at queue `i`. -/
def refuses (cb : Callbacks Ω π) (i : QId) (p : Port π) : Call Ω π → Bool
  | .oqEnqueue ω _ skb => slot? (cb.qSelect ω p.infos skb) = some i && cb.congFn ω (p.infos i) &&
    cb.congActFn ω (p.infos i) skb = oqConActDropPkt
  | .oqDequeue _ => false

/-- The call returns a packet of queue `i`. -/
def dequeues (cb : Callbacks Ω π) (i : QId) (p : Port π) : Call Ω π → Bool
  | .oqEnqueue _ _ _ => false
  | .oqDequeue ω => slot? (cb.schedFn ω p.infos) = some i &&
    match p.call cb (.oqDequeue ω) with
    | .ok (.dequeue exit, _) => exit.skb?.isSome
    | _ => false

end Port

/-- What a call does to the counters and the number of packets of one queue, if it
`admits` a packet, `drops` one, `refuses` one or `returns` one. -/
structure Tally (q q' : SpecQueue π) (admits drops refuses returns : Bool) : Prop where
  total : q'.total = q.total + BitVec.ofNat 32 admits.toNat
  dropped : q'.dropped = q.dropped + BitVec.ofNat 32 (drops.toNat + refuses.toNat)
  held : q'.held.length + drops.toNat + returns.toNat = q.held.length + admits.toNat

namespace Tally

variable {q : SpecQueue π}

/-- Nothing happens to the queue. -/
theorem same (q : SpecQueue π) : Tally q q false false false false :=
  ⟨by simp, by simp, by simp⟩

theorem admitted (cb : Callbacks Ω π) (ω : Ω) (skb : SkBuff π) (q : SpecQueue π) :
    Tally q (q.enqueue cb ω skb) true false false false :=
  ⟨rfl, by simp [SpecQueue.enqueue], by simp [SpecQueue.enqueue]⟩

theorem refused (q : SpecQueue π) : Tally q { q with dropped := q.dropped + 1 } false false true false :=
  ⟨by simp, rfl, by simp⟩

/-- A tail drop, which may find nothing, and the packet after it. -/
theorem replaced (cb : Callbacks Ω π) (ω : Ω) (skb : SkBuff π) {skb? : Option (SkBuff π)} {q' : SpecQueue π}
    (drop : q.dropTail = (skb?, q')) : Tally q (q'.enqueue cb ω skb) true (!q.held.isEmpty) false false := by
  rcases SpecQueue.dropTail_cases drop with ⟨empty, -, rfl⟩ | ⟨x, front, back, -, split, rfl⟩
  · rw [empty]
    exact admitted cb ω skb q'
  · have some : q.held.isEmpty = false := by simp [split]
    rw [some]
    refine ⟨rfl, rfl, ?_⟩
    rw [split]
    simp [SpecQueue.enqueue]

/-- A dequeue, which may find nothing. -/
theorem dequeued {skb? : Option (SkBuff π)} {q' : SpecQueue π} (deq : q.dequeue = (skb?, q')) :
    Tally q q' false false false skb?.isSome := by
  rcases SpecQueue.dequeue_cases deq with ⟨-, rfl, rfl⟩ | ⟨x, front, back, rfl, split, rfl⟩
  · exact same q'
  · refine ⟨by simp, by simp, ?_⟩
    rw [split]
    simp
    omega

end Tally

namespace Follows

variable {cb : Callbacks Ω π} {p p' : Port π} {s s' : SpecPort π} {c : Call Ω π} {out : Out π}

/-- A packet that is sent to another queue changes nothing here. -/
theorem tally_elsewhere {ω : Ω} {skb : SkBuff π} {i j : QId} (slot : slot? (cb.qSelect ω p.infos skb) = some j)
    (other : i ≠ j) (ins : Inserts) (q : SpecQueue π) :
    Tally q q (p.admitsTo cb i (.oqEnqueue ω ins skb)) (p.tailDrops cb i (.oqEnqueue ω ins skb))
      (p.refuses cb i (.oqEnqueue ω ins skb)) (p.dequeues cb i (.oqEnqueue ω ins skb)) := by
  have a : p.admitsTo cb i (.oqEnqueue ω ins skb) = false := by simp [Port.admitsTo, slot, other.symm]
  have d : p.tailDrops cb i (.oqEnqueue ω ins skb) = false := by simp [Port.tailDrops, slot, other.symm]
  have r : p.refuses cb i (.oqEnqueue ω ins skb) = false := by simp [Port.refuses, slot, other.symm]
  rw [a, d, r]
  exact .same q

/-- The tally of one call at one queue. -/
theorem tally (f : Follows p s) (way : s.Called cb c out s') (run : p.call cb c = .ok (out, p')) (i : QId) :
    Tally (s.queues i) (s'.queues i) (p.admitsTo cb i c) (p.tailDrops cb i c) (p.refuses cb i c)
      (p.dequeues cb i c) := by
  cases way with
  | @admitted j ω ins skb slot free ready =>
    by_cases here : i = j
    · subst here
      have a : p.admitsTo cb i (.oqEnqueue ω ins skb) = true := by simp [Port.admitsTo, f.infos, slot, free]
      have r : p.refuses cb i (.oqEnqueue ω ins skb) = false := by simp [Port.refuses, f.infos, free]
      rw [SpecPort.set_same, a, f.tailDrops_of_free slot free, r]
      exact .admitted cb ω skb _
    · rw [SpecPort.set_other here]
      exact tally_elsewhere (f.infos ▸ slot) here ins _
  | @tailDropped j ω ins skb skb? q congested tail ready drop =>
    by_cases here : i = j
    · subst here
      have a : p.admitsTo cb i (.oqEnqueue ω ins skb) = true := by simp [Port.admitsTo, f.infos, congested.slot, tail]
      have d : p.tailDrops cb i (.oqEnqueue ω ins skb) = !(s.queues i).held.isEmpty := by
        simp [Port.tailDrops, f.infos, congested.slot, congested.full, tail, f.items_isEmpty]
      have r : p.refuses cb i (.oqEnqueue ω ins skb) = false := by
        simp [Port.refuses, f.infos, tail, oqConActDropTail, oqConActDropPkt]
      rw [SpecPort.set_same, a, d, r]
      exact .replaced cb ω skb drop
    · rw [SpecPort.set_other here]
      exact tally_elsewhere (f.infos ▸ congested.slot) here ins _
  | @refused j ω ins skb congested pkt =>
    by_cases here : i = j
    · subst here
      have a : p.admitsTo cb i (.oqEnqueue ω ins skb) = false := by
        simp [Port.admitsTo, f.infos, congested.full, pkt, oqConActDropTail, oqConActDropPkt]
      have d : p.tailDrops cb i (.oqEnqueue ω ins skb) = false := by
        simp [Port.tailDrops, f.infos, pkt, oqConActDropTail, oqConActDropPkt]
      have r : p.refuses cb i (.oqEnqueue ω ins skb) = true := by
        simp [Port.refuses, f.infos, congested.slot, congested.full, pkt]
      rw [SpecPort.set_same, a, d, r]
      exact .refused _
    · rw [SpecPort.set_other here]
      exact tally_elsewhere (f.infos ▸ congested.slot) here ins _
  | @ignored j ω ins skb congested tail pkt =>
    by_cases here : i = j
    · subst here
      have a : p.admitsTo cb i (.oqEnqueue ω ins skb) = false := by
        simp [Port.admitsTo, f.infos, congested.full, tail]
      have d : p.tailDrops cb i (.oqEnqueue ω ins skb) = false := by simp [Port.tailDrops, f.infos, tail]
      have r : p.refuses cb i (.oqEnqueue ω ins skb) = false := by simp [Port.refuses, f.infos, pkt]
      rw [a, d, r]
      exact .same _
    · exact tally_elsewhere (f.infos ▸ congested.slot) here ins _
  | @dequeued j ω skb? q slot deq =>
    by_cases here : i = j
    · subst here
      have x : p.dequeues cb i (.oqDequeue ω) = skb?.isSome := by
        simp only [Port.dequeues, run, f.infos, slot]
        cases skb? <;> rfl
      rw [SpecPort.set_same, x]
      exact .dequeued deq
    · have x : p.dequeues cb i (.oqDequeue ω) = false := by
        simp [Port.dequeues, f.infos, slot, Ne.symm here]
      rw [SpecPort.set_other here, x]
      exact .same _

/-- A tail drop finds nothing in an empty queue, and leaves the port as it is. -/
theorem dropTail_empty (f : Follows p s) (cb : Callbacks Ω π) {i : QId} (empty : p.items i .admn = []) :
    p.step cb (.doDropTail i) = .ok (.dropTail .noPacket, p) := by
  obtain ⟨g, C, L, repr⟩ := f.holds
  have held : (s.queues i).held = [] := by
    have length := f.length_items i .admn
    rw [empty] at length
    exact List.eq_nil_of_length_eq_zero length.symm
  have spec := doDropTail_spec (repr.queues i) (repr.focus i)
  have answer := SpecQueue.lists_dropTail (f.distinct i)
  rw [SpecQueue.dropTail_eq_none_iff.2 ⟨rfl, held⟩] at answer
  change (s.lists.queues i).doDropTail = (.noPacket, [], (s.queues i).lists) at answer
  rw [answer] at spec
  obtain ⟨q', m', g', C', run, -, -, -, -, same, -⟩ := spec
  obtain ⟨rfl, rfl, -, -⟩ := same rfl
  rw [Port.step_doDropTail run, Function.update_eq_self]

end Follows

/-! ## Statistics balance -/

/-- What the counters of queue `i` say after some calls from `p`. -/
structure Port.Balanced (cb : Callbacks Ω π) (p : Port π) (calls : List (Call Ω π)) (q : Port π) (i : QId) : Prop where
  total : (q.queues i).total = BitVec.ofNat 32 (Lib.count (Port.admitsTo cb i) (Port.call cb) p calls)
  dropped : (q.queues i).dropped = BitVec.ofNat 32 (Lib.count (Port.tailDrops cb i) (Port.call cb) p calls +
    Lib.count (Port.refuses cb i) (Port.call cb) p calls)
  held : ∀ t, BitVec.ofNat 32 (q.items i t).length = (q.queues i).total -
    BitVec.ofNat 32 (Lib.count (Port.dequeues cb i) (Port.call cb) p calls) -
    BitVec.ofNat 32 (Lib.count (Port.tailDrops cb i) (Port.call cb) p calls)

/-- The tallies of a run add up. -/
theorem run_tallies {cb : Callbacks Ω π} {p q : Port π} {calls : List (Call Ω π)} {outs : List (Out π)}
    (init : p.Initialised) (admitted : ∀ q c, Lib.Calls (Port.call cb) p calls q c → q.Admits cb c)
    (run : Lib.run (Port.call cb) p calls = .ok (outs, q)) :
    ∃ s, Follows q s ∧ ∀ i,
      (s.queues i).total = BitVec.ofNat 32 (Lib.count (Port.admitsTo cb i) (Port.call cb) p calls) ∧
      (s.queues i).dropped = BitVec.ofNat 32 (Lib.count (Port.tailDrops cb i) (Port.call cb) p calls +
        Lib.count (Port.refuses cb i) (Port.call cb) p calls) ∧
      (s.queues i).held.length + Lib.count (Port.tailDrops cb i) (Port.call cb) p calls +
        Lib.count (Port.dequeues cb i) (Port.call cb) p calls =
        Lib.count (Port.admitsTo cb i) (Port.call cb) p calls := by
  refine Lib.run_invariant (P := fun calls _ q => ∃ s, Follows q s ∧ ∀ i,
      (s.queues i).total = BitVec.ofNat 32 (Lib.count (Port.admitsTo cb i) (Port.call cb) p calls) ∧
      (s.queues i).dropped = BitVec.ofNat 32 (Lib.count (Port.tailDrops cb i) (Port.call cb) p calls +
        Lib.count (Port.refuses cb i) (Port.call cb) p calls) ∧
      (s.queues i).held.length + Lib.count (Port.tailDrops cb i) (Port.call cb) p calls +
        Lib.count (Port.dequeues cb i) (Port.call cb) p calls =
        Lib.count (Port.admitsTo cb i) (Port.call cb) p calls)
    admitted ⟨_, Follows.initial init, fun i => ⟨init.total i, init.dropped i, rfl⟩⟩ ?_ run
  rintro calls outs q c out q' before ⟨s, f, counted⟩ admits step
  obtain ⟨s', way, f'⟩ := f.call admits step
  refine ⟨s', f', fun i => ?_⟩
  obtain ⟨total, dropped, held⟩ := counted i
  have tally := f.tally way step i
  simp only [Lib.count_snoc _ before]
  refine ⟨?_, ?_, ?_⟩
  · rw [tally.total, total, ← BitVec.ofNat_add]
  · rw [tally.dropped, dropped, ← BitVec.ofNat_add]
    congr 1
    omega
  · have moved := tally.held
    omega

/-- After every run the counters balance, and a tail drop that is tried on an empty
queue changes nothing. -/
theorem run_balances_statistics (cb : Callbacks Ω π) {p q : Port π} {calls : List (Call Ω π)} {outs : List (Out π)}
    (init : p.Initialised) (admitted : ∀ q c, Lib.Calls (Port.call cb) p calls q c → q.Admits cb c)
    (run : Lib.run (Port.call cb) p calls = .ok (outs, q)) (i : QId) :
    Port.Balanced cb p calls q i ∧
      (q.items i .admn = [] → q.step cb (.doDropTail i) = .ok (.dropTail .noPacket, q)) := by
  obtain ⟨s, f, counted⟩ := run_tallies init admitted run
  obtain ⟨total, dropped, held⟩ := counted i
  have info : (q.queues i).toQueueInfo = (s.queues i).toQueueInfo := congrFun f.infos i
  have total' : (q.queues i).total = (s.queues i).total := congrArg QueueInfo.total info
  refine ⟨⟨total'.trans total, (congrArg QueueInfo.dropped info).trans dropped, fun t => ?_⟩, f.dropTail_empty cb⟩
  rw [total', total, ← held, f.length_items, BitVec.ofNat_add, BitVec.ofNat_add, BitVec.add_sub_cancel,
    BitVec.add_sub_cancel]

theorem twoCalls_balance_statistics :
    ∃ outs q, Lib.run (Port.call (.routines 1 3 (fun _ => 0) (fun _ => 0))) (Port.blank ()) twoCalls = .ok (outs, q) ∧
      (Port.Balanced (.routines 1 3 (fun _ => 0) (fun _ => 0)) (Port.blank ()) twoCalls q 0 ∧
        (q.items 0 .admn = [] →
          q.step (.routines 1 3 (fun _ => 0) (fun _ => 0) : Callbacks Unit Unit) (.doDropTail 0) =
            .ok (.dropTail .noPacket, q))) := by
  have ends : (match Lib.run (Port.call (.routines 1 3 (fun _ => 0) (fun _ => 0))) (Port.blank ()) twoCalls with
      | .ok _ => true
      | .error _ => false) = true := by
    decide +kernel
  split at ends
  · next r run => exact ⟨r.1, r.2, run, run_balances_statistics _ (Port.blank_initialised ()) twoCalls_admitted run 0⟩
  · cases ends

end OpenQueue
