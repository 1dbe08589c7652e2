import OpenQueue.Spec.Accounting
import OpenQueue.Spec.Interleaving
import OpenQueue.Spec.Service

/-!
# A policy that makes the queues bounded FIFOs

With one processing key for all packets, the congestion condition `queue->len == n` and the
action `OQ_CON_ACT_DROP_PKT`, every queue is a FIFO of `n` places that turns away what does
not fit: `oq_dequeue` returns packets in the order in which they were admitted, `queue->len`
is the number of packets held, and `kfree_skb` is called for the packets turned away and for
no other. The admission keys do not matter.
-/

namespace OpenQueue

variable {Ω π : Type}

/-- Queues with `n` places and the processing key `k` for all packets. -/
structure Callbacks.Bounded (cb : Callbacks Ω π) (n : Nat) (k : Key) : Prop where
  condition : ∀ ω queue, cb.congFn ω queue = decide (queue.len.toInt = n)
  action : ∀ ω queue skb, cb.congActFn ω queue skb = oqConActDropPkt
  key : ∀ ω queue skb, cb.procFn ω queue skb = k

/-- FIFOs, and the packets turned away so far. -/
structure FifoPort (π : Type) where
  queues : QId → List (SkBuff π)
  refused : List (SkBuff π)

namespace FifoPort

def empty : FifoPort π := ⟨fun _ => [], []⟩

/-- A packet that does not fit is turned away. -/
def enqueue (n : Nat) (i : QId) (skb : SkBuff π) (f : FifoPort π) : FifoPort π :=
  if (f.queues i).length < n then { f with queues := Function.update f.queues i (f.queues i ++ [skb]) }
  else { f with refused := f.refused ++ [skb] }

def dequeue (i : QId) (f : FifoPort π) : FifoPort π :=
  { f with queues := Function.update f.queues i (f.queues i).tail }

/-- One call of the qdisc on the queue that `route` names. -/
def call (n : Nat) (route : Call Ω π → Option QId) (f : FifoPort π) (c : Call Ω π) : Except Fault (Out π × FifoPort π) :=
  match route c with
  | none => .error .badIndex
  | some i =>
    match c with
    | .oqEnqueue _ _ skb => .ok (.status 0, f.enqueue n i skb)
    | .oqDequeue _ => .ok (.dequeue (.of (f.queues i).head?), f.dequeue i)

variable {n : Nat} {route : Call Ω π → Option QId} {f : FifoPort π} {i : QId} {ω : Ω} {ins : Inserts} {skb : SkBuff π}

theorem call_enqueue (sent : route (.oqEnqueue ω ins skb) = some i) :
    f.call n route (.oqEnqueue ω ins skb) = .ok (.status 0, f.enqueue n i skb) := by
  rw [call.eq_def, sent]

theorem call_dequeue (sent : route (.oqDequeue ω) = some i) :
    f.call n route (.oqDequeue ω) = .ok (.dequeue (.of (f.queues i).head?), f.dequeue i) := by
  rw [call.eq_def, sent]

end FifoPort

/-- A queue that holds the packets `l` in this order, one key for all. -/
structure SpecQueue.IsFifo (q : SpecQueue π) (n : Nat) (k : Key) (l : List (SkBuff π)) : Prop where
  skbs : q.held.map Held.skb = l
  keys : ∀ x ∈ q.held, x.procKey = k
  len : q.len = BitVec.ofNat 32 l.length
  bound : l.length ≤ n

namespace SpecQueue.IsFifo

variable {cb : Callbacks Ω π} {q q' : SpecQueue π} {n : Nat} {k : Key} {l : List (SkBuff π)} {ω : Ω} {skb : SkBuff π}

theorem toInt_len (h : q.IsFifo n k l) (small : n < 2 ^ 31) : q.len.toInt = l.length := by
  have below : l.length < 2 ^ 31 := h.bound.trans_lt small
  have exact := (toInt_ofNat_eq_iff l.length 0).2 ⟨below, rfl⟩
  rwa [Nat.add_zero, ← h.len] at exact

/-- Among equal keys, the order of service is the order of arrival. -/
theorem order (h : q.IsFifo n k l) : q.order = q.held := by
  refine List.Pairwise.insertionSort_eq (List.pairwise_of_forall_mem_list fun x hx y hy => ?_)
  rw [h.keys x hx, h.keys y hy]

theorem enqueue (h : q.IsFifo n k l) (bounded : cb.Bounded n k) (room : l.length < n) :
    (q.enqueue cb ω skb).IsFifo n k (l ++ [skb]) := by
  refine ⟨?_, ?_, ?_, ?_⟩
  · rw [SpecQueue.enqueue, List.map_append, h.skbs]
    rfl
  · intro x hx
    rcases List.mem_append.1 hx with old | new
    · exact h.keys x old
    · rw [List.mem_singleton.1 new]
      exact bounded.key ω _ skb
  · rw [List.length_append, List.length_singleton, BitVec.ofNat_add, ← h.len]
    rfl
  · rw [List.length_append, List.length_singleton]
    exact room

theorem dequeue {skb? : Option (SkBuff π)} (h : q.IsFifo n k l) (deq : q.dequeue = (skb?, q')) :
    skb? = l.head? ∧ q'.IsFifo n k l.tail := by
  have sub := dequeue_sublist deq
  have keys : ∀ x ∈ q'.held, x.procKey = k := fun x hx => h.keys x (sub.subset hx)
  obtain ⟨packet, rest⟩ := order_dequeue deq
  have tail : q'.held = q.held.tail := by
    rw [← h.order, ← rest]
    refine (List.Pairwise.insertionSort_eq (List.pairwise_of_forall_mem_list fun x hx y hy => ?_)).symm
    rw [keys x hx, keys y hy]
  refine ⟨?_, ?_, keys, ?_, ?_⟩
  · rw [packet, h.order, ← h.skbs, List.head?_map]
  · rw [tail, ← h.skbs, List.map_tail]
  · rcases dequeue_cases deq with ⟨empty, -, rfl⟩ | ⟨x, front, back, -, split, rfl⟩
    · rw [← h.skbs, empty]
      have len := h.len
      rw [← h.skbs, empty] at len
      exact len
    · have long : l.length = l.tail.length + 1 := by
        have held := congrArg List.length h.skbs
        rw [List.length_map, split, List.length_append, List.length_cons] at held
        rw [List.length_tail]
        omega
      show q.len - 1 = _
      rw [h.len, long, BitVec.ofNat_add]
      exact BitVec.add_sub_cancel _ _
  · rw [List.length_tail]
    have := h.bound
    omega

theorem dropped (h : q.IsFifo n k l) : IsFifo { q with dropped := q.dropped + 1 } n k l :=
  ⟨h.skbs, h.keys, h.len, h.bound⟩

end SpecQueue.IsFifo

/-- The port behind its FIFOs. -/
structure FollowsFifo (n : Nat) (k : Key) (ready : QId → Bool) (p : Port π) (f : FifoPort π) : Prop where
  spec : ∃ s, Follows p s ∧ s.dropped = f.refused ∧ ∀ i, (s.queues i).IsFifo n k (f.queues i) ∧
    (s.queues i).ready = ready i

namespace FollowsFifo

variable {cb : Callbacks Ω π} {n : Nat} {k : Key} {ready : QId → Bool} {p : Port π} {f : FifoPort π} {i : QId} {ω : Ω}
  {ins : Inserts} {skb : SkBuff π}

theorem initial (init : p.Initialised) : FollowsFifo n k (fun i => (p.queues i).ready) p .empty :=
  ⟨_, Follows.initial init, rfl, fun i => ⟨⟨rfl, nofun, init.len i, Nat.zero_le n⟩, rfl⟩⟩

/-- The other queues, and whether they are initialised, stay. -/
theorem update {s : SpecPort π} {q : SpecQueue π} {l dropped : List (SkBuff π)}
    (all : ∀ i, (s.queues i).IsFifo n k (f.queues i) ∧ (s.queues i).ready = ready i)
    (here : q.IsFifo n k l) (same : q.ready = (s.queues i).ready) (j : QId) :
    ((s.set i q dropped).queues j).IsFifo n k (Function.update f.queues i l j) ∧
      ((s.set i q dropped).queues j).ready = ready j := by
  by_cases other : j = i
  · subst other
    rw [SpecPort.set_same, Function.update_self, same]
    exact ⟨here, (all j).2⟩
  · rw [SpecPort.set_other other, Function.update_of_ne other]
    exact all j

theorem enqueue {route : Call Ω π → Option QId} (h : FollowsFifo n k ready p f) (bounded : cb.Bounded n k)
    (small : n < 2 ^ 31) (routes : cb.Routes route) (sent : route (.oqEnqueue ω ins skb) = some i)
    (set : ready i = true) (admits : p.Admits cb (.oqEnqueue ω ins skb)) :
    ∃ out p' f', p.call cb (.oqEnqueue ω ins skb) = .ok (out, p') ∧
      f.call n route (.oqEnqueue ω ins skb) = .ok (out, f') ∧ FollowsFifo n k ready p' f' := by
  obtain ⟨s, follows, log, all⟩ := h.spec
  have slot : slot? (cb.qSelect ω s.infos skb) = some i := by
    rw [← follows.infos]
    exact (routes p _).trans sent
  have len := (all i).1.toInt_len small
  have full : cb.congFn ω (s.infos i) = decide ((f.queues i).length = n) := by
    rw [bounded.condition]
    refine decide_eq_decide.2 ?_
    show (s.queues i).len.toInt = n ↔ _
    rw [len, Nat.cast_inj]
  rw [FifoPort.call_enqueue sent, FifoPort.enqueue]
  by_cases room : (f.queues i).length < n
  · have free : cb.congFn ω (s.infos i) = false := by
      rw [full]
      exact decide_eq_false room.ne
    obtain ⟨p', run, next⟩ := follows.called admits (.admitted slot free ((all i).2.trans set))
    rw [if_pos room]
    exact ⟨_, p', _, run, rfl, _, next, (List.append_nil _).trans log,
      update all ((all i).1.enqueue bounded room) rfl⟩
  · have congested : Congested cb s.infos ω skb i := by
      refine ⟨slot, full.trans (decide_eq_true ?_)⟩
      have := (all i).1.bound
      omega
    obtain ⟨p', run, next⟩ := follows.called admits (.refused congested (bounded.action ω _ skb))
    rw [if_neg room]
    refine ⟨_, p', _, run, rfl, _, next, by rw [SpecPort.set, log], fun j => ?_⟩
    have same : ((s.set i _ [skb]).queues j).IsFifo n k (Function.update f.queues i (f.queues i) j) ∧ _ :=
      update all (all i).1.dropped rfl j
    rwa [Function.update_eq_self] at same

theorem dequeue {route : Call Ω π → Option QId} (h : FollowsFifo n k ready p f) (routes : cb.Routes route)
    (sent : route (.oqDequeue ω) = some i) :
    ∃ out p' f', p.call cb (.oqDequeue ω) = .ok (out, p') ∧ f.call n route (.oqDequeue ω) = .ok (out, f') ∧
      FollowsFifo n k ready p' f' := by
  obtain ⟨s, follows, log, all⟩ := h.spec
  have slot : slot? (cb.schedFn ω s.infos) = some i := by
    rw [← follows.infos]
    exact (routes p _).trans sent
  rcases deq : (s.queues i).dequeue with ⟨skb?, q⟩
  obtain ⟨rfl, fifo⟩ := (all i).1.dequeue deq
  obtain ⟨p', run, next⟩ := follows.called (.dequeue cb p ω) (.dequeued slot deq)
  rw [FifoPort.call_dequeue sent]
  exact ⟨_, p', _, run, rfl, _, next, (List.append_nil _).trans log,
    update all fifo (SpecQueue.dequeue_ready deq)⟩

end FollowsFifo

/-- Under such a policy with `n` below `2 ^ 31`, whose selector and scheduler do not look at
the queues, every run of the qdisc goes to its end and answers as bounded FIFOs do, as long
as every call is sent to a slot that is set up, no packet is handed in while its queue holds
it, and every insertion that is needed gets its memory. Memory holds the packets of the
FIFOs in their order, `len` counts them, and the packets freed are those turned away. -/
theorem run_is_bounded_fifo (cb : Callbacks Ω π) {n : Nat} {k : Key} (bounded : cb.Bounded n k) (small : n < 2 ^ 31)
    {route : Call Ω π → Option QId} (routes : cb.Routes route) {p : Port π} {calls : List (Call Ω π)}
    (init : p.Initialised) (sent : ∀ c ∈ calls, ∃ i, route c = some i ∧ (p.queues i).ready = true)
    (admitted : ∀ t c, Lib.Calls (Port.call cb) p calls t c → t.Admits cb c) :
    ∃ outs q f, Lib.run (Port.call cb) p calls = .ok (outs, q) ∧
      Lib.run (FifoPort.call n route) .empty calls = .ok (outs, f) ∧
      (∀ i, (q.order i).map Item.skb = f.queues i ∧ (q.infos i).len.toInt = (f.queues i).length ∧
        (f.queues i).length ≤ n) ∧ q.mem.freed = f.refused := by
  obtain ⟨outs, q, run, f, ran, h⟩ := Lib.run_ok
    (A := fun t c => t.Admits cb c ∧ ∃ i, route c = some i ∧ (p.queues i).ready = true)
    (P := fun done outs t => ∃ f, Lib.run (FifoPort.call n route) .empty done = .ok (outs, f) ∧
      FollowsFifo n k (fun i => (p.queues i).ready) t f)
    (fun t c call => ⟨admitted t c call, sent c call.mem⟩) ⟨.empty, rfl, .initial init⟩ (by
      intro done outs t c _ inv permitted
      obtain ⟨f, ran, h⟩ := inv
      obtain ⟨admits, i, goes, ready⟩ := permitted
      have next : ∃ out t' f', t.call cb c = .ok (out, t') ∧ f.call n route c = .ok (out, f') ∧
          FollowsFifo n k (fun i => (p.queues i).ready) t' f' := by
        cases c with
        | oqEnqueue ω ins skb => exact h.enqueue bounded small routes goes ready admits
        | oqDequeue ω => exact h.dequeue routes goes
      obtain ⟨out, t', f', step, step', h'⟩ := next
      exact ⟨out, t', step, f', Lib.run_snoc_eq_ok.2 ⟨outs, f, out, ran, step', rfl⟩, h'⟩)
  obtain ⟨s, follows, log, all⟩ := h.spec
  refine ⟨outs, q, f, run, ran, fun i => ⟨?_, ?_, (all i).1.bound⟩, follows.freed.trans log⟩
  · rw [follows.order, (all i).1.order, List.map_map]
    exact (all i).1.skbs
  · rw [follows.infos]
    exact (all i).1.toInt_len small

/-- One place, three packets and two dequeues. -/
def fifoCalls : List (Call Unit Unit) :=
  [.oqEnqueue () .ok ⟨7, ()⟩, .oqEnqueue () .ok ⟨8, ()⟩, .oqDequeue (), .oqEnqueue () .ok ⟨9, ()⟩, .oqDequeue ()]

/-- The routines with `OQ_CON_ACT_DROP_PKT` for the action and one place. -/
def onePlace : Callbacks Unit Unit := .routines 1 3 (fun _ => 0) (fun _ => 0)

theorem onePlace_bounded : onePlace.Bounded 1 0 := ⟨fun _ _ => rfl, fun _ _ _ => rfl, fun _ _ _ => rfl⟩

theorem onePlace_routes : onePlace.Routes fun _ => some 0 := by
  intro p c
  cases c <;> rfl

/-- The second packet is turned away, and the others come back. -/
theorem fifoCalls_bounded : ∃ outs q f,
    Lib.run (Port.call onePlace) (Port.blank ()) fifoCalls = .ok (outs, q) ∧
      Lib.run (FifoPort.call 1 fun _ => some 0) .empty fifoCalls = .ok (outs, f) ∧
      returned outs = [⟨7, ()⟩, ⟨9, ()⟩] ∧ q.mem.freed = [⟨8, ()⟩] := by
  have admitted : ∀ t c, Lib.Calls (Port.call onePlace) (Port.blank ()) fifoCalls t c → t.Admits onePlace c :=
    Lib.forall_calls_of_count (by decide +kernel)
  obtain ⟨outs, q, f, run, ran, -, freed⟩ := run_is_bounded_fifo onePlace onePlace_bounded (by decide) onePlace_routes
    (Port.blank_initialised ()) (fun _ _ => ⟨0, rfl, rfl⟩) admitted
  obtain ⟨outs', f', ran', seen⟩ := Lib.exists_of_ends
    (P := fun outs (f : FifoPort Unit) => returned outs = [⟨7, ()⟩, ⟨9, ()⟩] && f.refused = [⟨8, ()⟩])
    (r := Lib.run (FifoPort.call 1 fun _ => some 0) .empty fifoCalls) (by decide +kernel)
  cases ran.symm.trans ran'
  rw [Bool.and_eq_true, decide_eq_true_eq, decide_eq_true_eq] at seen
  exact ⟨outs, q, f, run, ran, seen.1, freed.trans seen.2⟩

end OpenQueue
