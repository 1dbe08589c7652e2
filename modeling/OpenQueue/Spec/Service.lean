import OpenQueue.Spec.Stays

/-!
# The order in which a queue serves its packets

Read from memory, the packets of a queue stand in an order of service: the rings of
`proc_q` from the greatest key down, each from its head. Dequeuing goes through this order
from its front: it is the order of the arrivals that have not left, by processing key and
then by call. A packet that arrives goes behind everything with its processing key or a
greater one, and a tail drop only moves packets forward. So a packet waits for the packets
ahead of it and for later arrivals with a greater key, and for nothing else.
-/

namespace OpenQueue

variable {Ω π : Type}

namespace Port

/-- The packets of queue `i`, the next one to be served first. -/
def order (p : Port π) (i : QId) : List (Item π) :=
  (p.queues i).procQ.entries.reverse.flatMap fun e => p.bucket i .proc e.1

/-- How many packets of queue `i` are served before the packet at address `a`. -/
def ahead (p : Port π) (i : QId) (a : Addr) : Nat := (p.order i).findIdx fun x => x.skb.addr = a

theorem key_of_mem_bucket {p : Port π} {i : QId} {t : Side} {k : Key} {x : Item π} (h : x ∈ p.bucket i t k) :
    x.key = k := by
  obtain ⟨a, -, rfl⟩ := List.mem_map.1 h
  rfl

theorem bucket_of_absent {p : Port π} {i : QId} {t : Side} {k : Key} (absent : ((p.queues i).tree t).lookup k = none) :
    p.bucket i t k = [] := by
  rw [bucket, cellsAt, absent]
  rfl

theorem pairwise_order (p : Port π) (i : QId) : (p.order i).Pairwise fun x y => y.key ≤ x.key := by
  refine List.pairwise_flatMap.2 ⟨fun e _ => ?_, ?_⟩
  · refine List.pairwise_of_forall_mem_list fun x hx y hy => ?_
    rw [key_of_mem_bucket hx, key_of_mem_bucket hy]
  · refine (List.pairwise_reverse.2 (p.queues i).procQ.sorted).imp ?_
    intro e e' less x hx y hy
    rw [key_of_mem_bucket hx, key_of_mem_bucket hy]
    exact less.le

theorem filter_order (p : Port π) (i : QId) (k : Key) :
    (p.order i).filter (fun x => x.key = k) = p.bucket i .proc k :=
  Lib.OrdMap.filter_flatMap_reverse (f := Item.key) (F := p.bucket i .proc) _ k (fun _ _ => key_of_mem_bucket)
    fun _ absent => bucket_of_absent (t := .proc) absent

end Port

/-- The packets of a queue in the order of service. -/
def SpecQueue.order (q : SpecQueue π) : List (Held π) := Lib.serviceOrder Held.procKey q.held

namespace Follows

variable {cb : Callbacks Ω π} {p p' : Port π} {s s' : SpecPort π} {i : QId} {ω : Ω}

/-- Memory shows the order of service of the specification. -/
theorem order (f : Follows p s) (i : QId) : p.order i = (s.queues i).order.map Held.procItem := by
  obtain ⟨g, C, L, repr⟩ := f.holds
  have sorted : p.order i = Lib.serviceOrder Item.key ((s.queues i).held.map Held.procItem) := by
    refine Lib.serviceOrder_eq_of_buckets (p.pairwise_order i) fun k => ?_
    rw [p.filter_order, repr.bucket]
    rfl
  rw [sorted, Lib.serviceOrder_map]
  rfl

theorem mem_order_iff (f : Follows p s) {x : Item π} : x ∈ p.order i ↔ ∃ h ∈ (s.queues i).held, h.procItem = x := by
  rw [f.order, List.mem_map]
  simp only [SpecQueue.order, (Lib.serviceOrder_perm _ _).mem_iff]

end Follows

/-! ## Dequeuing -/

namespace SpecQueue

variable {q : SpecQueue π}

/-- A dequeue takes the front of the order. -/
theorem order_dequeue {q' : SpecQueue π} {skb? : Option (SkBuff π)} (h : q.dequeue = (skb?, q')) :
    skb? = q.order.head?.map Held.skb ∧ q'.order = q.order.tail := by
  unfold dequeue at h
  cases top : Lib.takeMax Held.procKey q.held with
  | none =>
    rw [top] at h
    cases h
    rw [order, Lib.takeMax_eq_none_iff.1 top]
    exact ⟨rfl, rfl⟩
  | some taken =>
    obtain ⟨x, held⟩ := taken
    rw [top] at h
    cases h
    rw [order, Lib.serviceOrder_of_takeMax top]
    exact ⟨rfl, rfl⟩

end SpecQueue

/-- What `n` dequeues return from packets in this order. -/
def served (packets : List (SkBuff π)) (n : Nat) : List (Out π) :=
  (List.range n).map fun j => .dequeue (.of packets[j]?)

theorem served_succ (packets : List (SkBuff π)) (n : Nat) :
    served packets (n + 1) = .dequeue (.of packets.head?) :: served packets.tail n := by
  rw [served, List.range_succ_eq_map, List.map_cons, List.map_map, List.head?_eq_getElem?]
  refine congrArg _ (List.map_congr_left fun j _ => ?_)
  simp only [Function.comp_apply, List.getElem?_tail]

namespace Follows

variable {cb : Callbacks Ω π} {p p' : Port π} {s s' : SpecPort π} {i : QId} {ω : Ω}

/-- One dequeue from queue `i`. -/
theorem dequeue (f : Follows p s) (picks : p.selects cb (.oqDequeue ω) = some i) :
    ∃ p' s', p.call cb (.oqDequeue ω) = .ok (.dequeue (.of ((p.order i).head?.map Item.skb)), p') ∧ Follows p' s' ∧
      p'.order i = (p.order i).tail := by
  rcases deq : (s.queues i).dequeue with ⟨skb?, q⟩
  obtain ⟨rfl, rest⟩ := SpecQueue.order_dequeue deq
  have slot : slot? (cb.schedFn ω s.infos) = some i := by
    rw [← f.infos]
    exact picks
  obtain ⟨p', run, f'⟩ := f.called (.dequeue cb p ω) (.dequeued slot deq)
  refine ⟨p', _, ?_, f', ?_⟩
  · rw [run, f.order, List.head?_map, Option.map_map]
    rfl
  · rw [f'.order, SpecPort.set_same, rest, f.order, List.map_tail]

/-- Dequeues from one queue go through its order of service, and then find nothing. -/
theorem drain (f : Follows p s) {ωs : List Ω}
    (picks : ∀ t c, Lib.Calls (Port.call cb) p (ωs.map .oqDequeue) t c → t.selects cb c = some i) :
    ∃ p', Lib.run (Port.call cb) p (ωs.map .oqDequeue) = .ok (served ((p.order i).map Item.skb) ωs.length, p') ∧
      p'.order i = (p.order i).drop ωs.length := by
  induction ωs generalizing p s with
  | nil => exact ⟨p, rfl, rfl⟩
  | cons ω ωs ih =>
    obtain ⟨p₁, s₁, first, f₁, rest⟩ := f.dequeue (picks p _ (Lib.calls_cons.2 (.inl ⟨rfl, rfl⟩)))
    obtain ⟨p', later, left⟩ := ih f₁ fun t c call => picks t c (Lib.calls_cons.2 (.inr ⟨_, _, first, call⟩))
    refine ⟨p', ?_, ?_⟩
    · rw [List.map_cons, List.length_cons, served_succ, List.head?_map, ← List.map_tail, ← rest]
      exact Lib.run_cons_eq_ok.2 ⟨_, p₁, _, first, later, rfl⟩
    · rw [left, rest, List.length_cons, List.drop_tail]

end Follows

/-- After a run in which no packet is handed in while its queue holds it, and every
insertion that is needed gets its memory, dequeues that all pick queue `i` return the
arrivals of the run that have not left the queue. None of them is lost and none comes twice;
the greater processing key is served first, and the earlier arrival among equals. The
dequeues return `NULL` as soon as there are no more. -/
theorem run_drains_in_order (cb : Callbacks Ω π) {p q : Port π} {calls : List (Call Ω π)} {outs : List (Out π)}
    (init : p.Initialised) (admitted : ∀ t c, Lib.Calls (Port.call cb) p calls t c → t.Admits cb c)
    (run : Lib.run (Port.call cb) p calls = .ok (outs, q)) {i : QId} {ωs : List Ω}
    (picks : ∀ t c, Lib.Calls (Port.call cb) q (ωs.map .oqDequeue) t c → t.selects cb c = some i) :
    ∃ ws : List (Arrival π), (∀ a, a ∈ ws ↔ a.Waits cb p calls i) ∧ ws.Pairwise Arrival.Before ∧
      ∃ q', Lib.run (Port.call cb) q (ωs.map .oqDequeue) = .ok (served (ws.map Arrival.skb) ωs.length, q') ∧
        (q'.order i).map Item.skb = (ws.map Arrival.skb).drop ωs.length := by
  obtain ⟨s, ws, f, h⟩ := run_holdsArrivals init admitted run i
  obtain ⟨q', drain, left⟩ := f.drain picks
  have order : (q.order i).map Item.skb = (Lib.serviceOrder Arrival.key ws).map Arrival.skb := by
    have keyed : Lib.serviceOrder Prod.snd (ws.map Arrival.keyed) =
        Lib.serviceOrder Prod.snd ((s.queues i).held.map Held.keyed) := congrArg _ h.held
    rw [Lib.serviceOrder_map, Lib.serviceOrder_map] at keyed
    have packets := congrArg (List.map Prod.fst) keyed
    rw [List.map_map, List.map_map] at packets
    rw [f.order, List.map_map]
    exact packets.symm
  refine ⟨Lib.serviceOrder Arrival.key ws, fun a => ?_, Lib.pairwise_serviceOrder_of_pairwise h.ordered, q', ?_, ?_⟩
  · rw [(Lib.serviceOrder_perm _ _).mem_iff, h.waits]
  · rw [← order]
    exact drain
  · rw [left, List.map_drop, order]

/-- Two packets arrive. -/
def twoArrive : List (Call Unit Unit) := [.oqEnqueue () .ok ⟨7, ()⟩, .oqEnqueue () .ok ⟨8, ()⟩]

theorem twoArrive_admitted (q : Port Unit) (c : Call Unit Unit)
    (call : Lib.Calls (Port.call byAddress) (Port.blank ()) twoArrive q c) : q.Admits byAddress c :=
  Lib.forall_calls_of_count (P := Port.Admits byAddress) (by decide +kernel) q c call

/-- The second has the greater key, and three dequeues return the second, the first and
nothing. -/
theorem twoArrive_drained : ∃ outs q q', ∃ ws : List (Arrival Unit),
    Lib.run (Port.call byAddress) (Port.blank ()) twoArrive = .ok (outs, q) ∧
      (∀ a, a ∈ ws ↔ a.Waits byAddress (Port.blank ()) twoArrive 0) ∧
      served (ws.map Arrival.skb) 3 =
        [.dequeue (.packet ⟨8, ()⟩), .dequeue (.packet ⟨7, ()⟩), .dequeue .noPacket] ∧
      Lib.run (Port.call byAddress) q ([(), (), ()].map .oqDequeue) = .ok (served (ws.map Arrival.skb) 3, q') := by
  obtain ⟨outs, q, run, seen⟩ := Lib.exists_of_ends
    (P := fun _ q => Lib.ends (fun outs _ =>
        outs = [.dequeue (.packet ⟨8, ()⟩), .dequeue (.packet ⟨7, ()⟩), .dequeue .noPacket])
      (Lib.run (Port.call byAddress) q ([(), (), ()].map .oqDequeue)))
    (r := Lib.run (Port.call byAddress) (Port.blank ()) twoArrive) (by decide +kernel)
  obtain ⟨outs', q', drain, returned⟩ := Lib.exists_of_ends seen
  rw [decide_eq_true_eq] at returned
  have picks : ∀ t c, Lib.Calls (Port.call byAddress) q ([(), (), ()].map .oqDequeue) t c → t.selects byAddress c = some 0 := by
    intro t c call
    obtain ⟨ω, -, rfl⟩ := List.mem_map.1 call.mem
    rfl
  obtain ⟨ws, waits, -, q'', drain', -⟩ :=
    run_drains_in_order byAddress (Port.blank_initialised ()) twoArrive_admitted run picks
  have same : outs' = served (ws.map Arrival.skb) 3 := (Prod.mk.inj (Except.ok.inj (drain.symm.trans drain'))).1
  exact ⟨outs, q, q'', ws, run, waits, same.symm.trans returned, drain'⟩

/-! ## Waiting -/

/-- The call takes a packet from queue `i`, if there is one. -/
def Port.serves (cb : Callbacks Ω π) (i : QId) (p : Port π) : Call Ω π → Bool
  | .oqEnqueue .. => false
  | .oqDequeue ω => slot? (cb.schedFn ω p.infos) = some i

open Classical in
/-- The call adds a packet with a greater processing key than `k` to queue `i`. -/
noncomputable def Port.overtakes (cb : Callbacks Ω π) (i : QId) (k : Key) (p : Port π) (c : Call Ω π) : Bool :=
  decide (∃ skb k', p.Enqueues cb i skb k' c ∧ k < k')

theorem Port.Enqueues.overtakes {cb : Callbacks Ω π} {i : QId} {k k' : Key} {p : Port π} {c : Call Ω π} {skb : SkBuff π}
    (h : p.Enqueues cb i skb k' c) : (decide (k < k')).toNat ≤ (p.overtakes cb i k c).toNat := by
  apply Bool.toNat_le_toNat
  rw [Bool.le_iff_imp, decide_eq_true_eq]
  intro less
  classical
  exact decide_eq_true ⟨skb, k', h, less⟩

namespace SpecQueue

variable {q q' : SpecQueue π} {x : Held π}

/-- How many packets are served before the packet at address `a`. -/
def ahead (q : SpecQueue π) (a : Addr) : Nat := q.order.findIdx fun x => x.skb.addr = a

theorem mem_order : x ∈ q.order ↔ x ∈ q.held := (Lib.serviceOrder_perm _ _).mem_iff

theorem Distinct.order (distinct : q.Distinct) : (q.order.map fun x => x.skb.addr).Nodup :=
  ((Lib.serviceOrder_perm _ _).map _).nodup_iff.2 distinct

/-- An address is in one place. -/
theorem Distinct.once (distinct : q.Distinct) (a : Addr) :
    (q.order.filter fun x => x.skb.addr = a).length ≤ 1 := by
  have count := List.nodup_iff_count_le_one.1 distinct.order a
  rw [List.count_eq_countP, List.countP_map, List.countP_eq_length_filter] at count
  exact count

/-- A packet that leaves makes nobody wait longer. -/
theorem ahead_sublist (distinct : q.Distinct) (sub : q'.held.Sublist q.held) (member : x ∈ q'.held) :
    q'.ahead x.skb.addr ≤ q.ahead x.skb.addr :=
  Lib.findIdx_le_of_sublist (Lib.serviceOrder_sublist _ sub) (distinct.once _) ⟨x, mem_order.2 member, by simp⟩

/-- An arrival makes those wait longer that have a smaller key. -/
theorem ahead_enqueue (cb : Callbacks Ω π) (ω : Ω) {skb : SkBuff π} (member : x ∈ q.held)
    (other : x.skb.addr ≠ skb.addr) :
    (q.enqueue cb ω skb).ahead x.skb.addr ≤
      q.ahead x.skb.addr + (decide (x.procKey < cb.procFn ω q.toQueueInfo skb)).toNat := by
  obtain ⟨front, back, split, split', -, greater⟩ := Lib.serviceOrder_append Held.procKey q.held
    ⟨skb, cb.admnFn ω q.toQueueInfo skb, cb.procFn ω q.toQueueInfo skb⟩
  have arrival : (decide (skb.addr = x.skb.addr)) = false := by simpa using Ne.symm other
  simp only [ahead, order, enqueue, split, split', List.findIdx_append, List.findIdx_cons, arrival, cond_false]
  split
  · omega
  · next absent =>
    have behind : x ∈ back := by
      have place : x ∈ front ++ back := split ▸ mem_order.2 member
      rcases List.mem_append.1 place with before | after
      · exact absurd (List.findIdx_lt_length_of_exists ⟨x, before, by simp⟩) absent
      · exact after
    simp only [greater x behind, decide_true, Bool.toNat_true]
    omega

/-- A dequeue brings every packet that stays one place forward. -/
theorem ahead_dequeue {skb? : Option (SkBuff π)} (distinct : q.Distinct) (deq : q.dequeue = (skb?, q'))
    (member : x ∈ q'.held) : q'.ahead x.skb.addr + 1 = q.ahead x.skb.addr := by
  obtain ⟨-, rest⟩ := order_dequeue deq
  have later := mem_order.2 member
  have once := distinct.order
  simp only [ahead]
  rw [rest] at later ⊢
  cases whole : q.order with
  | nil =>
    rw [whole] at later
    cases later
  | cons e tail =>
    rw [whole] at later once
    have first : (decide (e.skb.addr = x.skb.addr)) = false := by
      refine decide_eq_false fun same => (List.nodup_cons.1 once).1 ?_
      exact List.mem_map.2 ⟨x, later, same.symm⟩
    rw [List.findIdx_cons, first]
    rfl

end SpecQueue

namespace Follows

variable {cb : Callbacks Ω π} {p p' : Port π} {s s' : SpecPort π} {c : Call Ω π} {out : Out π} {i j : QId} {ω : Ω}
  {ins : Inserts} {skb : SkBuff π} {k : Key}

theorem ahead (f : Follows p s) (i : QId) (a : Addr) : p.ahead i a = (s.queues i).ahead a := by
  rw [Port.ahead, f.order, List.findIdx_map]
  rfl

/-- While a packet stays, every service of its queue brings it one place forward, and only
an arrival with a greater key puts it back by one. -/
theorem waits (f : Follows p s) (f' : Follows p' s') (admits : p.Admits cb c) (way : s.Called cb c out s')
    {x : Held π} (before : x ∈ (s.queues i).held) (after : x ∈ (s'.queues i).held) :
    p'.ahead i x.skb.addr + (p.serves cb i c).toNat ≤
      p.ahead i x.skb.addr + (p.overtakes cb i x.procKey c).toNat := by
  rw [f.ahead, f'.ahead]
  cases way with
  | @admitted j ω ins skb slot free ready =>
    by_cases here : i = j
    · subst here
      have arrival := SpecQueue.ahead_enqueue cb ω before (f.fresh admits slot x before)
      have key : _ ≤ (p.overtakes cb i x.procKey (.oqEnqueue ω ins skb)).toNat := (f.enqueues_free slot free).overtakes
      rw [SpecPort.set_same]
      exact arrival.trans (Nat.add_le_add_left key _)
    · rw [SpecPort.set_other here]
      exact Nat.le_add_right _ _
  | @tailDropped j ω ins skb skb? q congested tail ready drop =>
    by_cases here : i = j
    · subst here
      rw [SpecPort.set_same] at after ⊢
      have other := f.fresh admits congested.slot x before
      have kept : x ∈ q.held := by
        rcases List.mem_append.1 after with kept | new
        · exact kept
        · rw [List.mem_singleton.1 new] at other
          exact absurd rfl other
      have dropped := SpecQueue.ahead_sublist (f.distinct i) (SpecQueue.dropTail_sublist drop) kept
      have arrival := SpecQueue.ahead_enqueue cb ω kept other
      have key : _ ≤ (p.overtakes cb i x.procKey (.oqEnqueue ω ins skb)).toNat :=
        (f.enqueues_afterDrop congested tail drop).overtakes
      exact arrival.trans (Nat.add_le_add dropped key)
    · rw [SpecPort.set_other here]
      exact Nat.le_add_right _ _
  | @refused j ω ins skb congested pkt =>
    by_cases here : i = j
    · subst here
      rw [SpecPort.set_same]
      exact Nat.le_add_right _ _
    · rw [SpecPort.set_other here]
      exact Nat.le_add_right _ _
  | ignored congested tail pkt => exact Nat.le_add_right _ _
  | @dequeued j ω skb? q slot deq =>
    have serves : p.serves cb i (.oqDequeue ω) = decide (j = i) := by
      rw [Port.serves, f.infos, slot]
      simp only [Option.some.injEq]
    by_cases here : i = j
    · subst here
      rw [SpecPort.set_same] at after ⊢
      have forward := SpecQueue.ahead_dequeue (f.distinct i) deq after
      rw [serves, decide_eq_true rfl, Bool.toNat_true, forward]
      exact Nat.le_add_right _ _
    · rw [SpecPort.set_other here, serves, decide_eq_false (Ne.symm here)]
      exact Nat.le_add_right _ _

end Follows

/-- While a packet is held, its queue has been served at most as often as there were packets
ahead of it, plus one for each later arrival with a greater processing key. In the run
before and while it is held, no packet is handed in while its queue holds it, and every
insertion that is needed gets its memory. -/
theorem run_waits_at_most (cb : Callbacks Ω π) {p q q' : Port π} {calls more : List (Call Ω π)}
    {outs outs' : List (Out π)} (init : p.Initialised)
    (admitted : ∀ t c, Lib.Calls (Port.call cb) p calls t c → t.Admits cb c)
    (run : Lib.run (Port.call cb) p calls = .ok (outs, q))
    (admitted' : ∀ t c, Lib.Calls (Port.call cb) q more t c → t.Admits cb c)
    (run' : Lib.run (Port.call cb) q more = .ok (outs', q')) {i : QId} {x : Item π}
    (held : ∀ t, Lib.Visits (Port.call cb) q more t → x ∈ t.order i) :
    q'.ahead i x.skb.addr + Lib.count (Port.serves cb i) (Port.call cb) q more ≤
      q.ahead i x.skb.addr + Lib.count (Port.overtakes cb i x.key) (Port.call cb) q more := by
  obtain ⟨s, f⟩ := Follows.run init admitted run
  have invariant := Lib.run_invariant (A := fun t c => t.Admits cb c ∧ x ∈ t.order i)
    (P := fun done _ t => (∃ s, Follows t s) ∧ (x ∈ t.order i →
      t.ahead i x.skb.addr + Lib.count (Port.serves cb i) (Port.call cb) q done ≤
        q.ahead i x.skb.addr + Lib.count (Port.overtakes cb i x.key) (Port.call cb) q done))
    (fun t c call => ⟨admitted' t c call, ?_⟩) ⟨⟨s, f⟩, fun _ => le_rfl⟩ ?_ run'
  · exact invariant.2 (held q' (.of_run run'))
  · obtain ⟨js, os, sub, ran⟩ := call
    exact held t ⟨js, os, (List.prefix_append js [c]).trans sub, ran⟩
  · intro done os t c o t' ran inv admits step
    obtain ⟨⟨s, f⟩, bound⟩ := inv
    obtain ⟨s', way, f'⟩ := f.call admits.1 step
    refine ⟨⟨s', f'⟩, fun stays => ?_⟩
    obtain ⟨h, before, rfl⟩ := f.mem_order_iff.1 admits.2
    obtain ⟨h', after, same⟩ := f'.mem_order_iff.1 stays
    obtain rfl : h' = h := by
      cases h
      cases h'
      cases same
      rfl
    have one := f.waits f' admits.1 way before after
    have sofar := bound admits.2
    rw [Lib.count_snoc _ ran, Lib.count_snoc _ ran]
    simp only [Held.procItem] at one sofar ⊢
    omega

/-- A packet with a greater key arrives and is served. -/
def oneOvertakes : List (Call Unit Unit) := [.oqEnqueue () .ok ⟨9, ()⟩, .oqDequeue ()]

/-- Nothing is ahead of packet 8, and it waits for one service while it is overtaken once. -/
theorem oneOvertakes_waits : ∃ outs q outs' q',
    Lib.run (Port.call byAddress) (Port.blank ()) twoArrive = .ok (outs, q) ∧
      Lib.run (Port.call byAddress) q oneOvertakes = .ok (outs', q') ∧
      q'.ahead 0 8 + Lib.count (Port.serves byAddress 0) (Port.call byAddress) q oneOvertakes ≤
        q.ahead 0 8 + Lib.count (Port.overtakes byAddress 0 8) (Port.call byAddress) q oneOvertakes := by
  obtain ⟨outs, q, run, seen⟩ := Lib.exists_of_ends
    (P := fun _ q => Lib.count (fun t c => !decide (t.Admits byAddress c)) (Port.call byAddress) q oneOvertakes = 0 &&
      oneOvertakes.inits.all fun js =>
        Lib.ends (fun _ t => (⟨8, 0, ⟨8, ()⟩⟩ : Item Unit) ∈ t.order 0) (Lib.run (Port.call byAddress) q js))
    (r := Lib.run (Port.call byAddress) (Port.blank ()) twoArrive) (by decide +kernel)
  rw [Bool.and_eq_true, decide_eq_true_eq, List.all_eq_true] at seen
  obtain ⟨outs', q', run', -⟩ := Lib.exists_of_ends (seen.2 oneOvertakes (by simp))
  refine ⟨outs, q, outs', q', run, run', ?_⟩
  refine run_waits_at_most byAddress (x := ⟨8, 0, ⟨8, ()⟩⟩) (Port.blank_initialised ()) twoArrive_admitted run
    (Lib.forall_calls_of_count seen.1) run' (fun t visit => ?_)
  obtain ⟨js, os, sub, ran⟩ := visit
  obtain ⟨os', t', ran', member⟩ := Lib.exists_of_ends (seen.2 js ((List.mem_inits js oneOvertakes).2 sub))
  cases ran.symm.trans ran'
  exact of_decide_eq_true member

end OpenQueue
