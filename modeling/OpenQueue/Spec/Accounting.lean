import OpenQueue.Sim.Slots
import OpenQueue.Spec.Calls
import Mathlib

/-!
# `len` and the number of packets held

`len` of a queue is the number of packets in either tree plus what it has gained on the
tree: the tail drops from it, the failed insertions into it, and for `proc_q` the dequeues
that did not find their packet in `admn_q`. This holds over every run, whatever the packets
and the insertions. So `len` is exact as long as nothing is dropped from the tail and no
insertion that is needed fails, and a queue whose congestion condition is `len == n` is
protected only as long as that is so.
-/

namespace OpenQueue

variable {Ω π : Type}

/-- The call makes `do_drop_tail` take a packet out of queue `i`. -/
def Port.tailDrops (cb : Callbacks Ω π) (i : QId) (p : Port π) : Call Ω π → Bool
  | .oqEnqueue ω _ skb => slot? (cb.qSelect ω p.infos skb) = some i && cb.congFn ω (p.infos i) &&
    cb.congActFn ω (p.infos i) skb = oqConActDropTail && !(p.items i .admn).isEmpty
  | .oqDequeue _ => false

namespace Follows

variable {cb : Callbacks Ω π} {p : Port π} {s : SpecPort π} {i : QId}

theorem items_isEmpty (f : Follows p s) (i : QId) (t : Side) : (p.items i t).isEmpty = (s.queues i).held.isEmpty := by
  have same := f.length_items i t
  rw [Bool.eq_iff_iff, List.isEmpty_iff_length_eq_zero, List.isEmpty_iff_length_eq_zero, same]

theorem tailDrops_of_free {ω : Ω} {ins : Inserts} {skb : SkBuff π} {j : QId} (f : Follows p s)
    (slot : slot? (cb.qSelect ω s.infos skb) = some j) (free : cb.congFn ω (s.infos j) = false) :
    p.tailDrops cb i (.oqEnqueue ω ins skb) = false := by
  by_cases same : j = i
  · subst same
    simp [Port.tailDrops, f.infos, free]
  · simp [Port.tailDrops, f.infos, slot, same]

end Follows

theorem Holds.tailDrops {p : Port π} {s : ListPort π} (holds : Holds p s) (cb : Callbacks Ω π) (i : QId)
    (c : Call Ω π) : p.tailDrops cb i c = s.tailDropsFrom cb i .admn c := by
  cases c with
  | oqDequeue ω => rfl
  | oqEnqueue ω ins skb =>
    have empty : (p.items i .admn).isEmpty = (s.queues i).admn.isEmpty := by
      have same : (p.items i .admn).length = (s.queues i).admn.length := holds.length_items i .admn
      rw [Bool.eq_iff_iff, List.isEmpty_iff_length_eq_zero, List.isEmpty_iff_length_eq_zero, same]
    simp only [Port.tailDrops, ListPort.tailDropsFrom, holds.infos, empty, ListQueue.takes_admn]

/-! ## Over a run -/

/-- How much `len` of queue `i` has gained on tree `t`: the tail drops from it, the failed
insertions into it, and the dequeues that strand its packets. -/
def Port.surplus (cb : Callbacks Ω π) (i : QId) (t : Side) (p : Port π) (calls : List (Call Ω π)) : Nat :=
  Lib.count (Port.tailDropsFrom cb i t) (Port.call cb) p calls + Lib.count (Port.fails cb i t) (Port.call cb) p calls +
    Lib.count (Port.strands cb i t) (Port.call cb) p calls

section

variable {cb : Callbacks Ω π} {p q : Port π} {calls : List (Call Ω π)} {outs : List (Out π)}

theorem Port.surplus_snoc (run : Lib.run (Port.call cb) p calls = .ok (outs, q)) (c : Call Ω π) (i : QId) (t : Side) :
    p.surplus cb i t (calls ++ [c]) = p.surplus cb i t calls + q.gain cb i t c := by
  simp only [surplus, gain, Lib.count_snoc _ run]
  omega

theorem Port.surplus_eq_zero_iff {i : QId} {t : Side} :
    p.surplus cb i t calls = 0 ↔ ∀ q c, Lib.Calls (Port.call cb) p calls q c → q.gain cb i t c = 0 := by
  simp only [surplus, gain, Nat.add_eq_zero_iff, Lib.count_eq_zero_iff, Bool.toNat_eq_zero]
  constructor
  · rintro ⟨⟨drops, fails⟩, strands⟩ q c call
    exact ⟨⟨drops q c call, fails q c call⟩, strands q c call⟩
  · intro none
    exact ⟨⟨fun q c call => (none q c call).1.1, fun q c call => (none q c call).1.2⟩, fun q c call => (none q c call).2⟩

/-- The port `q` after a run from `p`: queue `i` has its name, `len` is the number of packets
in either tree plus what it has gained on it, modulo the range of an `int`, and a packet that
`len` counts was handed in. -/
structure Port.Counted (cb : Callbacks Ω π) (p : Port π) (calls : List (Call Ω π)) (q : Port π) (i : QId) : Prop where
  name : (q.queues i).name = (p.queues i).name
  len : ∀ t, (q.queues i).len = BitVec.ofNat 32 ((q.items i t).length + p.surplus cb i t calls)
  bound : ∀ t, (q.items i t).length + p.surplus cb i t calls ≤ (offered calls).length

/-- `len` after every run of the qdisc. -/
theorem run_counted (init : p.Initialised) (run : Lib.run (Port.call cb) p calls = .ok (outs, q)) :
    ∃ s, Holds q s ∧ ∀ i, (s.queues i).ReadyIfHeld ∧ Port.Counted cb p calls q i := by
  refine Lib.run_induction (P := fun calls _ q =>
    ∃ s, Holds q s ∧ ∀ i, (s.queues i).ReadyIfHeld ∧ Port.Counted cb p calls q i) ?_ ?_ run
  · have holds : Holds p (ListPort.initial p.infos) := ⟨_, _, _, PortRepr.initial init⟩
    have none : ∀ i t, (p.items i t).length = 0 := by
      intro i t
      rw [holds.length_items]
      cases t <;> rfl
    refine ⟨_, holds, fun i => ⟨fun t some => absurd (by cases t <;> rfl) some, rfl, fun t => ?_, fun t => ?_⟩⟩
    · rw [none]
      exact init.len i
    · rw [none]
      exact Nat.le_refl 0
  · rintro calls outs q c out q' before ⟨s, holds, counted⟩ step
    have agree := call_agree cb q s c holds
    rw [step] at agree
    obtain ⟨s', run', holds'⟩ := agree.of_ok
    have way := ListPort.Called.of_call run'
    refine ⟨s', holds', fun i => ⟨way.readyIfHeld (fun i => (counted i).1) i, ?_, fun t => ?_, fun t => ?_⟩⟩
    · exact (Port.call_sameNames step i).trans (counted i).2.name
    · have len := (counted i).2.len t
      rw [congrArg QueueInfo.len (holds.queue i), holds.length_items] at len
      rw [Port.surplus_snoc before, congrArg QueueInfo.len (holds'.queue i), holds'.length_items, holds.gain]
      exact (way.change i t).counted len
    · have bound := (counted i).2.bound t
      have step := (way.change i t).le
      rw [holds.length_items] at bound
      rw [Port.surplus_snoc before, holds'.length_items, holds.gain, offered_append, List.length_append]
      omega

end

/-! ## Length accounting -/

/-- An `int` that shows `n`, of which it counts `d` too many. -/
theorem toInt_ofNat_eq_iff (n d : Nat) : (BitVec.ofNat 32 (n + d)).toInt = n ↔ n < 2 ^ 31 ∧ d % 2 ^ 32 = 0 := by
  rw [BitVec.toInt_eq_toNat_cond, BitVec.toNat_ofNat]
  split <;> omega

/-- `len` is the number of packets in either tree of queue `i`. -/
def Port.LenExact (p : Port π) (i : QId) : Prop :=
  (p.queues i).len.toInt = (p.items i .admn).length ∧ (p.items i .admn).length = (p.items i .proc).length

/-- The counter is right if it has gained on no tree, and only then. -/
theorem Port.Counted.lenExact_iff {cb : Callbacks Ω π} {p q : Port π} {calls : List (Call Ω π)} {i : QId}
    (counted : Port.Counted cb p calls q i) (few : (offered calls).length < 2 ^ 31) :
    q.LenExact i ↔ ∀ t, p.surplus cb i t calls = 0 := by
  have exact_iff : ∀ t, (q.queues i).len.toInt = (q.items i t).length ↔ p.surplus cb i t calls = 0 := by
    intro t
    have bound := counted.bound t
    rw [counted.len t, toInt_ofNat_eq_iff]
    omega
  rw [Port.LenExact, Side.forall_iff, ← exact_iff, ← exact_iff]
  constructor
  · rintro ⟨admn, same⟩
    exact ⟨admn, same ▸ admn⟩
  · rintro ⟨admn, proc⟩
    exact ⟨admn, by omega⟩

/-! ### Both trees hold the same packets -/

namespace ListQueue

variable {a a' : ListQueue π} {cb : Callbacks Ω π} {ω : Ω} {ins : Inserts} {skb : SkBuff π}

/-- Every container of `proc_q` has one in `admn_q` under its `other_key`, and no other is
there. -/
def Matched (a : ListQueue π) : Prop :=
  (a.admn.map fun x => (x.key, x.skb.addr)).Perm (a.proc.map fun x => (x.otherKey, x.skb.addr))

namespace Matched

theorem enqueue (h : a.Matched) (ready : a.ready = true) (enq : a.doEnqueue cb ω ins skb = .ok a')
    (fits : ∀ t, a.refuses cb ω ins skb t = false) : a'.Matched := by
  rw [doEnqueue_of_fits fits] at enq
  have grown : ∀ t, a'.side t = a.side t ++ [cb.item ω a.toQueueInfo skb t] := by
    intro t
    rw [side_doEnqueue ready enq t, if_pos (.inl (by cases t <;> rfl))]
  have admn : a'.admn = _ := grown .admn
  have proc : a'.proc = _ := grown .proc
  rw [Matched, admn, proc, List.map_append, List.map_append]
  exact h.append_right _

/-- A dequeue finds its packet in both trees. -/
theorem dequeue (h : a.Matched) : a.dequeueFrom.1.strands = false ∧ a.dequeueFrom.2.Matched := by
  rcases a.dequeueFrom_cases with ⟨-, exit⟩ | ⟨e, rest, top, half⟩
  · rw [exit]
    exact ⟨rfl, h⟩
  · have split : a.proc.Perm (e :: rest) := by
      obtain ⟨front, back, whole, rfl, -⟩ := Lib.takeMax_split top
      rw [whole]
      exact List.perm_middle
    have found : (e.otherKey, e.skb.addr) ∈ a.admn.map fun x => (x.key, x.skb.addr) :=
      h.mem_iff.2 (List.mem_map.2 ⟨e, split.mem_iff.2 List.mem_cons_self, rfl⟩)
    obtain ⟨x, member, same⟩ := List.mem_map.1 found
    obtain ⟨key, addr⟩ := Prod.mk.inj same
    have hit : x ∈ Index.bucket a.admn e.otherKey := List.mem_filter.2 ⟨member, by simpa using key⟩
    rcases half with ⟨empty, -⟩ | ⟨-, differ, -⟩ | ⟨-, exit⟩
    · rw [empty] at hit
      cases hit
    · exact absurd addr (differ x hit)
    · rw [exit]
      refine ⟨rfl, ?_⟩
      obtain ⟨y, front, back, -, at', whole, erased⟩ :=
        List.exists_of_eraseP member (p := Index.isAt e.otherKey e.skb) (by simp [Index.isAt, key, addr])
      simp only [Index.isAt, Bool.and_eq_true, decide_eq_true_eq] at at'
      have admn : a.admn.Perm (y :: a.admn.eraseP (Index.isAt e.otherKey e.skb)) := by
        rw [erased, whole]
        exact List.perm_middle
      have both := ((admn.map _).symm.trans h).trans (split.map _)
      rw [List.map_cons, List.map_cons, at'.1, at'.2] at both
      exact both.cons_inv

/-- A tail drop that finds nothing. -/
theorem dropTail (h : a.Matched) (none : a.doDropTail.1.takes .admn = false) : a.doDropTail.2.2.Matched := by
  rw [takes_admn, Bool.not_eq_false', List.isEmpty_iff] at none
  rcases a.doDropTail_cases with ⟨-, exit⟩ | ⟨e, admn, top, -⟩
  · rw [exit]
    exact h
  · have shorter := Index.length_takeMax top
    rw [none] at shorter
    cases shorter

end Matched

end ListQueue

namespace ListPort

variable {cb : Callbacks Ω π} {s s' : ListPort π} {c : Call Ω π} {out : Out π} {i : QId}

/-- The call drops no tail of queue `i`, and no insertion into it fails. -/
def Spares (cb : Callbacks Ω π) (i : QId) (s : ListPort π) (c : Call Ω π) : Prop :=
  s.tailDropsFrom cb i .admn c = false ∧ ∀ t, s.fails cb i t c = false

theorem Called.matched (way : Called cb s c out s') (spares : s.Spares cb i c) (held : (s.queues i).ReadyIfHeld)
    (h : (s.queues i).Matched) : (s'.queues i).Matched := by
  obtain ⟨drops, fails⟩ := spares
  cases way with
  | @admitted j ω ins skb q slot free enq =>
    by_cases here : i = j
    · subst here
      rw [set_queues]
      exact h.enqueue (held.ready enq) enq fun t => (fails_of_free slot free).symm.trans (fails t)
    · rw [set_other _ _ _ here]
      exact h
  | @tailDropped j ω ins skb exit freed q q' congested tail drop enq =>
    by_cases here : i = j
    · subst here
      obtain rfl : (s.queues i).doDropTail.2.2 = q := by rw [drop]
      simp only [tailDropsFrom, congested.slot, congested.full, tail, decide_true, Bool.true_and] at drops
      rw [set_queues]
      exact (h.dropTail drops).enqueue (held.dropTail.ready enq) enq fun t =>
        (fails_of_tail congested tail).symm.trans (fails t)
    · rw [set_other _ _ _ here]
      exact h
  | @refused j ω ins skb congested pkt =>
    by_cases here : i = j
    · subst here
      rw [set_queues]
      exact h
    · rw [set_other _ _ _ here]
      exact h
  | ignored congested tail pkt => exact h
  | @dequeued j ω exit q slot deq =>
    by_cases here : i = j
    · subst here
      have dequeued := h.dequeue.2
      rw [deq] at dequeued
      rw [set_queues]
      exact dequeued
    · rw [set_other _ _ _ here]
      exact h

/-- Then `len` gains on neither tree. -/
theorem gain_of_spares (spares : s.Spares cb i c) (h : (s.queues i).Matched) (t : Side) : s.gain cb i t c = 0 := by
  obtain ⟨drops, fails⟩ := spares
  have strands : s.strands cb i t c = false := by
    cases c with
    | oqEnqueue ω ins skb => rfl
    | oqDequeue ω => rw [ListPort.strands, h.dequeue.1, Bool.and_false]
  have spared : s.tailDropsFrom cb i t c = false := by
    cases c with
    | oqDequeue ω => rfl
    | oqEnqueue ω ins skb =>
      -- whoever takes from `proc_q` has taken from `admn_q`
      have both : (s.queues i).doDropTail.1.takes .admn = false → (s.queues i).doDropTail.1.takes t = false := by
        cases (s.queues i).doDropTail.1 <;> cases t <;> simp [DropExit.takes]
      rw [tailDropsFrom, Bool.and_eq_false_iff] at drops ⊢
      exact drops.imp_right both
  rw [gain, spared, fails t, strands]
  rfl

end ListPort

theorem Holds.spares {p : Port π} {s : ListPort π} (holds : Holds p s) {cb : Callbacks Ω π} {i : QId} {c : Call Ω π}
    (spares : p.tailDrops cb i c = false ∧ ∀ t, p.fails cb i t c = false) : s.Spares cb i c :=
  ⟨holds.tailDrops cb i c ▸ spares.1, fun t => holds.fails cb i t c ▸ spares.2 t⟩

theorem run_matched {cb : Callbacks Ω π} {p q : Port π} {calls : List (Call Ω π)} {outs : List (Out π)} {i : QId}
    (init : p.Initialised)
    (spares : ∀ q c, Lib.Calls (Port.call cb) p calls q c → q.tailDrops cb i c = false ∧ ∀ t, q.fails cb i t c = false)
    (run : Lib.run (Port.call cb) p calls = .ok (outs, q)) :
    ∃ s, Holds q s ∧ (∀ j, (s.queues j).ReadyIfHeld) ∧ (s.queues i).Matched := by
  refine Lib.run_invariant (P := fun _ _ q =>
    ∃ s, Holds q s ∧ (∀ j, (s.queues j).ReadyIfHeld) ∧ (s.queues i).Matched) spares ?_ ?_ run
  · refine ⟨_, ⟨_, _, _, PortRepr.initial init⟩, fun j t some => absurd ?_ some, List.Perm.nil⟩
    cases t <;> rfl
  · rintro calls outs q c out q' - ⟨s, holds, held, matched⟩ spares step
    have agree := call_agree cb q s c holds
    rw [step] at agree
    obtain ⟨s', run', holds'⟩ := agree.of_ok
    have way := ListPort.Called.of_call run'
    exact ⟨s', holds', way.readyIfHeld held, way.matched (holds.spares spares) (held i) matched⟩

/-- On a run of fewer than `2 ^ 31` packets, `len` is the number of packets held in every
state exactly if no call tail-drops a packet of the queue, and no insertion into its trees
that is needed fails. -/
theorem run_len_exact_iff (cb : Callbacks Ω π) {p : Port π} {calls : List (Call Ω π)} (init : p.Initialised)
    (few : (offered calls).length < 2 ^ 31) (i : QId) :
    (∀ q, Lib.Visits (Port.call cb) p calls q → q.LenExact i) ↔
      ∀ q c, Lib.Calls (Port.call cb) p calls q c → q.tailDrops cb i c = false ∧ ∀ t, q.fails cb i t c = false := by
  have short : ∀ {done : List (Call Ω π)}, done <+: calls → (offered done).length < 2 ^ 31 :=
    fun sub => ((sub.sublist.filterMap _).length_le).trans_lt few
  constructor
  · rintro always q c ⟨done, outs, sub, run⟩
    obtain ⟨s, holds, counted⟩ := run_counted init run
    -- a loss goes through, and the state after it counts one packet too many
    have never : ∀ t, ¬ (s.tailDropsFrom cb i .admn c = true ∨ s.fails cb i t c = true) := by
      intro t loss
      obtain ⟨out, s', way⟩ := ListPort.called_of_loss (counted i).1 loss
      have agree := call_agree cb q s c holds
      rw [way.run] at agree
      obtain ⟨q', step, -⟩ := agree.of_ok_right
      have run' := Lib.run_snoc_eq_ok.2 ⟨outs, q, out, run, step, rfl⟩
      obtain ⟨_, -, counted'⟩ := run_counted init run'
      have zero := ((counted' i).2.lenExact_iff (short sub)).1 (always q' (Lib.Calls.next ⟨done, outs, sub, run⟩ step))
      simp only [Port.surplus_snoc run, holds.gain, ListPort.gain, Nat.add_eq_zero_iff, Bool.toNat_eq_zero] at zero
      rcases loss with drops | fails
      · rw [(zero .admn).2.1.1] at drops
        cases drops
      · rw [(zero t).2.1.2] at fails
        cases fails
    simp only [not_or, Bool.not_eq_true] at never
    rw [holds.tailDrops]
    exact ⟨(never .admn).1, fun t => holds.fails cb i t c ▸ (never t).2⟩
  · rintro spares q ⟨done, outs, sub, run⟩
    obtain ⟨_, -, counted⟩ := run_counted init run
    rw [(counted i).2.lenExact_iff (short sub)]
    intro t
    rw [Port.surplus_eq_zero_iff]
    rintro q c ⟨done', outs', sub', run'⟩
    have earlier := sub'.trans sub
    obtain ⟨s, holds, -, matched⟩ := run_matched init
      (fun q c call => spares q c (call.mono ((List.prefix_append _ _).trans earlier))) run'
    rw [holds.gain]
    exact ListPort.gain_of_spares (holds.spares (spares q c ⟨done', outs', earlier, run'⟩)) matched t

/-- Two packets for a queue that is full at one. -/
def twoCalls : List (Call Unit Unit) := [.oqEnqueue () .ok ⟨7, ()⟩, .oqEnqueue () .ok ⟨8, ()⟩]

theorem twoCalls_admitted (q : Port Unit) (c : Call Unit Unit)
    (call : Lib.Calls (Port.call (.routines 1 3 (fun _ => 0) (fun _ => 0))) (Port.blank ()) twoCalls q c) :
    q.Admits (.routines 1 3 (fun _ => 0) (fun _ => 0)) c :=
  Lib.forall_calls_of_count (P := Port.Admits (.routines 1 3 (fun _ => 0) (fun _ => 0))) (by decide +kernel) q c call

theorem twoCalls_len_exact_iff :
    (∀ q, Lib.Visits (Port.call (.routines 1 3 (fun _ => 0) (fun _ => 0))) (Port.blank ()) twoCalls q → q.LenExact 0) ↔
      ∀ q c, Lib.Calls (Port.call (.routines 1 3 (fun _ => 0) (fun _ => 0))) (Port.blank ()) twoCalls q c →
        q.tailDrops (.routines 1 3 (fun _ => 0) (fun _ => 0)) 0 c = false ∧
          ∀ t, q.fails (.routines 1 3 (fun _ => 0) (fun _ => 0)) 0 t c = false :=
  run_len_exact_iff _ (Port.blank_initialised ()) (by decide) 0

/-- One tail drop, and `len` counts a packet that is gone. -/
theorem tail_drop_leaves_len :
    ¬ ∀ q, Lib.Visits (Port.call (.routines 1 2 (fun _ => 0) (fun _ => 0))) (Port.blank ()) twoCalls q →
      q.LenExact 0 := by
  intro always
  have seen : (match Lib.run (Port.call (.routines 1 2 (fun _ => 0) (fun _ => 0))) (Port.blank ()) twoCalls with
      | .ok r => some ((r.2.queues 0).len.toInt, (r.2.items 0 .admn).length)
      | .error _ => none) = some (2, 1) := by
    decide +kernel
  split at seen
  · next r run =>
    have last := always r.2 (Lib.Visits.of_run run)
    simp only [Option.some.injEq, Prod.mk.injEq] at seen
    rw [Port.LenExact, seen.1, seen.2] at last
    exact absurd last.1 (by decide)
  · cases seen

/-! ## A threshold on `len` -/

/-- The call sends its packet to queue `i`. -/
def Port.SendsTo (cb : Callbacks Ω π) (i : QId) (p : Port π) : Call Ω π → Prop
  | .oqEnqueue ω _ skb => slot? (cb.qSelect ω p.infos skb) = some i
  | .oqDequeue _ => False

/-- The queues called `name` are congested at `len == n`, and then drop the tail or the
packet. -/
structure Callbacks.Threshold (cb : Callbacks Ω π) (name : NameBuf) (n : Nat) : Prop where
  condition : ∀ ω queue, queue.name = name → cb.congFn ω queue = decide (queue.len.toInt = n)
  action : ∀ ω queue skb, queue.name = name →
    cb.congActFn ω queue skb = oqConActDropTail ∨ cb.congActFn ω queue skb = oqConActDropPkt

/-- The packet of the call has `do_drop_tail` make room for it where queue `i` is congested. -/
def Port.ChoosesTail (cb : Callbacks Ω π) (i : QId) (p : Port π) : Call Ω π → Prop
  | .oqEnqueue ω _ skb => cb.congActFn ω (p.infos i) skb = oqConActDropTail
  | .oqDequeue _ => False

/-- A tree of `n` packets makes the queue congested if `len` has gained nothing on it. -/
theorem Port.Counted.congested_iff {cb : Callbacks Ω π} {p q : Port π} {calls : List (Call Ω π)} {i : QId} {n : Nat}
    {t : Side} (counted : Port.Counted cb p calls q i) (threshold : cb.Threshold (p.queues i).name n)
    (full : (q.items i t).length = n) (ω : Ω) :
    cb.congFn ω (q.infos i) = true ↔ n < 2 ^ 31 ∧ p.surplus cb i t calls % 2 ^ 32 = 0 := by
  have len : (q.infos i).len = BitVec.ofNat 32 (n + p.surplus cb i t calls) := full ▸ counted.len t
  rw [threshold.condition ω (q.infos i) counted.name, decide_eq_true_eq, ← toInt_ofNat_eq_iff, len]

/-- A queue with the threshold `n` never holds more than `n` packets in either tree exactly if
`n` is an `int` and every packet that is sent to the queue while a tree holds `n`, and whose
insertion into this tree does not fail, comes when `len` has gained nothing on the tree, or a
multiple of `2 ^ 32`, and has its tail drop, if that is the action, take a packet out of it. -/
theorem run_within_threshold_iff (cb : Callbacks Ω π) {p : Port π} {calls : List (Call Ω π)} (init : p.Initialised)
    {i : QId} {n : Nat} (positive : 1 ≤ n) (threshold : cb.Threshold (p.queues i).name n) :
    (∀ q, Lib.Visits (Port.call cb) p calls q → ∀ t, (q.items i t).length ≤ n) ↔
      ∀ done c outs q, done ++ [c] <+: calls → Lib.run (Port.call cb) p done = .ok (outs, q) → q.SendsTo cb i c →
        ∀ t, (q.items i t).length = n → q.fails cb i t c = false →
          n < 2 ^ 31 ∧ p.surplus cb i t done % 2 ^ 32 = 0 ∧
            (q.ChoosesTail cb i c → q.tailDropsFrom cb i t c = true) := by
  constructor
  · intro always done c outs q sub run sends t full inserted
    obtain ⟨s, holds, counted⟩ := run_counted init run
    cases c with
    | oqDequeue ω => exact absurd sends id
    | oqEnqueue ω ins skb =>
      have slot : slot? (cb.qSelect ω s.infos skb) = some i := holds.infos ▸ sends
      have ready : (s.queues i).ready = true := by
        refine (counted i).1 t fun empty => ?_
        rw [holds.length_items, empty, List.length_nil] at full
        omega
      obtain ⟨out, s', way⟩ := ListPort.called_of_ready slot ready ins
      have agree := call_agree cb q s (.oqEnqueue ω ins skb) holds
      rw [way.run] at agree
      obtain ⟨q', step, holds'⟩ := agree.of_ok_right
      have within := always q' (Lib.Calls.next ⟨done, outs, sub, run⟩ step) t
      have stays : ¬ ((s.queues i).side t).length < ((s'.queues i).side t).length := by
        rw [← holds.length_items, ← holds'.length_items]
        omega
      rw [way.grows_iff slot, ← holds.fails, ← holds.tailDropsFrom, ← holds.infos] at stays
      have congested : cb.congFn ω (q.infos i) = true := by
        by_contra free
        exact stays ⟨inserted, fun full => absurd full free⟩
      obtain ⟨small, surplus⟩ := ((counted i).2.congested_iff threshold full ω).1 congested
      refine ⟨small, surplus, fun tail => ?_⟩
      by_contra spared
      rw [Bool.not_eq_true] at spared
      exact stays ⟨inserted, fun _ => ⟨tail, spared⟩⟩
  · rintro safe q ⟨done, outs, sub, run⟩
    refine Lib.run_induction (P := fun done _ q => done <+: calls → ∀ t, (q.items i t).length ≤ n) ?_ ?_ run sub
    · intro _ t
      have holds : Holds p (ListPort.initial p.infos) := ⟨_, _, _, PortRepr.initial init⟩
      rw [holds.length_items]
      cases t <;> exact Nat.zero_le n
    · intro done outs q c out q' run before step sub t
      obtain ⟨s, holds, counted⟩ := run_counted init run
      have agree := call_agree cb q s c holds
      rw [step] at agree
      obtain ⟨s', run', holds'⟩ := agree.of_ok
      have way := ListPort.Called.of_call run'
      have held := before ((List.prefix_append _ _).trans sub) t
      rw [holds.length_items] at held
      rw [holds'.length_items]
      by_contra exceeds
      obtain ⟨ω, ins, skb, rfl, slot, full⟩ := way.exceeds held (Nat.lt_of_not_le exceeds)
      have grows : ((s.queues i).side t).length < ((s'.queues i).side t).length := by omega
      rw [way.grows_iff slot, ← holds.fails, ← holds.tailDropsFrom, ← holds.infos] at grows
      rw [← holds.length_items] at full
      have sends : q.SendsTo cb i (.oqEnqueue ω ins skb) := by
        rw [Port.SendsTo, holds.infos]
        exact slot
      obtain ⟨small, surplus, room⟩ := safe done _ outs q sub run sends t full grows.1
      obtain ⟨tail, spared⟩ := grows.2 (((counted i).2.congested_iff threshold full ω).2 ⟨small, surplus⟩)
      rw [room tail] at spared
      cases spared

theorem routines_threshold (n : Nat) (name : NameBuf) (admPrio proPrio : SkBuff π → Key) :
    (Callbacks.routines n 3 admPrio proPrio : Callbacks Ω π).Threshold name n :=
  ⟨fun _ _ _ => rfl, fun _ _ _ _ => .inr rfl⟩

theorem twoCalls_within_threshold_iff :
    (∀ q, Lib.Visits (Port.call (.routines 1 3 (fun _ => 0) (fun _ => 0))) (Port.blank ()) twoCalls q →
      ∀ t, (q.items 0 t).length ≤ 1) ↔
      ∀ done c outs q, done ++ [c] <+: twoCalls →
        Lib.run (Port.call (.routines 1 3 (fun _ => 0) (fun _ => 0))) (Port.blank ()) done = .ok (outs, q) →
        q.SendsTo (.routines 1 3 (fun _ => 0) (fun _ => 0)) 0 c → ∀ t, (q.items 0 t).length = 1 →
        q.fails (.routines 1 3 (fun _ => 0) (fun _ => 0)) 0 t c = false →
        1 < 2 ^ 31 ∧ (Port.blank ()).surplus (.routines 1 3 (fun _ => 0) (fun _ => 0)) 0 t done % 2 ^ 32 = 0 ∧
          (q.ChoosesTail (.routines 1 3 (fun _ => 0) (fun _ => 0)) 0 c →
            q.tailDropsFrom (.routines 1 3 (fun _ => 0) (fun _ => 0)) 0 t c = true) :=
  run_within_threshold_iff _ (Port.blank_initialised ()) (by decide) (routines_threshold 1 _ _ _)

/-- After one tail drop the threshold is passed: three packets, and the queue that is
full at one holds two. -/
theorem tail_drop_breaks_threshold :
    ¬ ∀ q, Lib.Visits (Port.call (.routines 1 2 (fun _ => 0) (fun _ => 0))) (Port.blank ())
      (twoCalls ++ [.oqEnqueue () .ok ⟨9, ()⟩]) q → ∀ t, (q.items 0 t).length ≤ 1 := by
  intro always
  have seen : (match Lib.run (Port.call (.routines 1 2 (fun _ => 0) (fun _ => 0))) (Port.blank ())
      (twoCalls ++ [.oqEnqueue () .ok ⟨9, ()⟩]) with
      | .ok r => (r.2.items 0 .admn).length
      | .error _ => 0) = 2 := by
    decide +kernel
  split at seen
  · next r run =>
    have last := always r.2 (Lib.Visits.of_run run) .admn
    rw [seen] at last
    exact absurd last (by decide)
  · cases seen

end OpenQueue
