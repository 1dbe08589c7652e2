import OpenQueue.Spec.Refinement

/-!
# Whole runs of the queue functions

From an initialised port, any sequence of permitted `do_enqueue`, `do_drop_tail` and
`oq_dequeue` calls runs to its end, and at every step memory shows what the
specification holds. That the two trees index the same packets, and that the late
error returns are never taken, follows.
-/

namespace OpenQueue

variable {Ω π : Type}

/-- What is read from memory is what the specification holds: bucket by bucket, in
arrival order, and the packets freed are the packets dropped. -/
structure Port.Shows (p : Port π) (s : SpecPort π) : Prop where
  infos : p.infos = s.infos
  admn : ∀ i k, p.bucket i .admn k = ((s.queues i).held.filter (fun x => x.admnKey = k)).map Held.admnItem
  proc : ∀ i k, p.bucket i .proc k = ((s.queues i).held.filter (fun x => x.procKey = k)).map Held.procItem
  items : ∀ i t, (p.items i t).Perm ((s.queues i).held.map fun x => x.item t)
  dropped : p.mem.freed = s.dropped

namespace Refines

variable {p q : Port π} {g : QId → QLayout} {s : SpecPort π} {i : QId} {t : Side}

theorem shows (ref : Refines p g s) : p.Shows s := by
  refine ⟨ref.infos, fun i k => ?_, fun i k => ?_, ref.items_perm, ref.repr.freed⟩
  · rw [ref.bucket, List.filter_map]
    rfl
  · rw [ref.bucket, List.filter_map]
    rfl

end Refines

/-- The two-tree implementation simulates the arrival-ordered queue, step by step. -/
theorem run_simulates_arrival_order (cb : Callbacks Ω π) {p : Port π} {ops : List (Op Ω π)} (init : p.Initialised)
    (allowed : ∀ q op, Lib.Calls (Port.step cb) p ops q op → q.Allows cb op) :
    ∀ done, done <+: ops → ∃ outs q s, Lib.run (Port.step cb) p done = .ok (outs, q) ∧
      Lib.run (SpecPort.step cb) (SpecPort.initial p.infos) done = .ok (outs, s) ∧ q.Shows s := by
  intro done sub
  obtain ⟨outs, q, run, g, s, ref, spec⟩ := Refines.run init (fun q op call => allowed q op (call.mono sub))
  exact ⟨outs, q, s, run, spec, ref.shows⟩

/-- Two packets arrive, one is dropped and one is returned. -/
def twoPackets : List (Op Unit Unit) :=
  [.doEnqueue 0 () .ok ⟨7, ()⟩, .doEnqueue 0 () .ok ⟨8, ()⟩, .doDropTail 0, .oqDequeue ()]

theorem twoPackets_allowed (q : Port Unit) (op : Op Unit Unit)
    (call : Lib.Calls (Port.step (.routines 256 2 (fun _ => 0) (fun _ => 1))) (Port.blank ()) twoPackets q op) :
    q.Allows (.routines 256 2 (fun _ => 0) (fun _ => 1)) op := by
  rcases Lib.calls_cons.1 call with ⟨rfl, rfl⟩ | ⟨o, p₁, step, call⟩
  · exact ⟨rfl, rfl, fun t x hx => by cases t <;> cases hx⟩
  rcases Lib.calls_cons.1 call with ⟨rfl, rfl⟩ | ⟨o, p₂, -, call⟩
  · cases step
    exact ⟨rfl, rfl, fun t => by cases t <;> decide⟩
  rcases Lib.calls_cons.1 call with ⟨rfl, rfl⟩ | ⟨o, p₃, -, call⟩
  · trivial
  rcases Lib.calls_cons.1 call with ⟨rfl, rfl⟩ | ⟨o, p₄, -, call⟩
  · rfl
  exact absurd call Lib.calls_nil

theorem twoPackets_simulated :
    ∃ outs q s,
      Lib.run (Port.step (.routines 256 2 (fun _ => 0) (fun _ => 1))) (Port.blank ()) twoPackets = .ok (outs, q) ∧
      Lib.run (SpecPort.step (.routines 256 2 (fun _ => 0) (fun _ => 1))) (SpecPort.initial (Port.blank ()).infos)
        twoPackets = .ok (outs, s) ∧ q.Shows s :=
  run_simulates_arrival_order _ (Port.blank_initialised ()) twoPackets_allowed twoPackets List.prefix_rfl

/-! ## The two trees index the same packets -/

/-- No bucket is empty, every packet is in one container of each tree, and the two
containers name each other's key. -/
structure Port.CrossIndexed (p : Port π) (i : QId) : Prop where
  bucket : ∀ t k l, ((p.queues i).tree t).lookup k = some l → p.bucket i t k ≠ []
  once : ∀ t, ((p.items i t).map fun x => x.skb.addr).Nodup
  mirror : ∀ skb a b, ⟨a, b, skb⟩ ∈ p.items i .admn ↔ ⟨b, a, skb⟩ ∈ p.items i .proc

namespace Refines

variable {cb : Callbacks Ω π} {ω : Ω} {p q : Port π} {g : QId → QLayout} {s : SpecPort π} {i : QId} {t : Side}

theorem crossIndexed (ref : Refines p g s) (i : QId) : p.CrossIndexed i := by
  refine ⟨fun t k l stored => ?_, fun t => ?_, fun skb a b => ?_⟩
  · rw [ref.repr.bucket, ne_eq, ← (ref.repr.side i t).lookup_eq_none_iff]
    intro absent
    rw [(ref.repr.side i t).lookup, absent] at stored
    cases stored
  · rw [((ref.items_perm i t).map fun x => x.skb.addr).nodup_iff, List.map_map]
    cases t <;> exact ref.distinct i
  · rw [(ref.items_perm i .admn).mem_iff, (ref.items_perm i .proc).mem_iff]
    simp only [List.mem_map, Held.item, Held.admnItem, Held.procItem, Item.mk.injEq]
    constructor
    · rintro ⟨x, hx, ha, hb, hs⟩
      exact ⟨x, hx, hb, ha, hs⟩
    · rintro ⟨x, hx, hb, ha, hs⟩
      exact ⟨x, hx, ha, hb, hs⟩

/-- A tail drop finds both containers, or nothing at all. -/
theorem dropTail_exit (ref : Refines p g s) (cb : Callbacks Ω π) (i : QId) :
    ∃ exit q, p.step cb (.doDropTail i) = .ok (.dropTail exit, q) ∧
      (p.items i .admn = [] ∧ exit = .noPacket ∧ q = p ∨ p.items i .admn ≠ [] ∧ exit = .dropped) := by
  obtain ⟨exit, q, g', s', run, spec, -, -, took⟩ := ref.doDropTail cb i
  refine ⟨exit, q, run, ?_⟩
  rcases took with ⟨empty, same⟩ | ⟨full, -⟩
  · refine .inl ⟨empty, ?_, same⟩
    have none := SpecQueue.dropTail_eq_none_iff.2 ⟨rfl, (ref.items_eq_nil_iff i .admn).1 empty⟩
    simp only [SpecPort.step, none, Except.ok.injEq, Prod.mk.injEq, Out.dropTail.injEq] at spec
    exact spec.1.symm
  · refine .inr ⟨full, ?_⟩
    rcases top : (s.queues i).dropTail with ⟨_ | skb, q'⟩
    · exact absurd ((ref.items_eq_nil_iff i .admn).2 (SpecQueue.dropTail_eq_none_iff.1 top).2) full
    · simp only [SpecPort.step, top, Except.ok.injEq, Prod.mk.injEq, Out.dropTail.injEq] at spec
      exact spec.1.symm

/-- A dequeue finds both containers, or nothing at all. -/
theorem dequeue_exit (ref : Refines p g s) (slot : slot? (cb.schedFn ω p.infos) = some i) :
    ∃ exit q, p.step cb (.oqDequeue ω) = .ok (.dequeue exit, q) ∧
      (p.items i .proc = [] ∧ exit = .noPacket ∧ q = p ∨ p.items i .proc ≠ [] ∧ ∃ skb, exit = .packet skb) := by
  have allow : p.Allows cb (.oqDequeue ω) := by
    show (slot? (cb.schedFn ω p.infos)).isSome = true
    rw [slot]
    rfl
  obtain ⟨exit, q, g', s', run, spec, -, i', slot', -, took⟩ := ref.oqDequeue allow
  obtain rfl : i = i' := Option.some.inj (slot.symm.trans slot')
  rw [ref.infos] at slot
  refine ⟨exit, q, run, ?_⟩
  rcases took with ⟨empty, same⟩ | ⟨full, -⟩
  · refine .inl ⟨empty, ?_, same⟩
    have none := SpecQueue.dequeue_eq_none_iff.2 ⟨rfl, (ref.items_eq_nil_iff i .proc).1 empty⟩
    simp only [SpecPort.step, slot, none, Except.ok.injEq, Prod.mk.injEq, Out.dequeue.injEq] at spec
    exact spec.1.symm
  · refine .inr ⟨full, ?_⟩
    rcases top : (s.queues i).dequeue with ⟨_ | skb, q'⟩
    · exact absurd ((ref.items_eq_nil_iff i .proc).2 (SpecQueue.dequeue_eq_none_iff.1 top).2) full
    · simp only [SpecPort.step, slot, top, Except.ok.injEq, Prod.mk.injEq, Out.dequeue.injEq] at spec
      exact ⟨skb, spec.1.symm⟩

end Refines

/-- In every state a permitted run reaches, the two trees of each queue index the same
packets, and neither `do_drop_tail` nor `oq_dequeue` gives up half-way: they fail
exactly on an empty queue, and then change nothing. -/
theorem run_keeps_cross_index (cb : Callbacks Ω π) {p : Port π} {ops : List (Op Ω π)} (init : p.Initialised)
    (allowed : ∀ q op, Lib.Calls (Port.step cb) p ops q op → q.Allows cb op) :
    ∃ outs q, Lib.run (Port.step cb) p ops = .ok (outs, q) ∧ (∀ i, q.CrossIndexed i) ∧
      (∀ i, ∃ exit q', q.step cb (.doDropTail i) = .ok (.dropTail exit, q') ∧
        exit ≠ .noProcList ∧ exit ≠ .noProcContainer ∧ (exit.code = -eInval ↔ q.items i .admn = []) ∧
        (q.items i .admn = [] → q' = q)) ∧
      ∀ ω i, slot? (cb.schedFn ω q.infos) = some i →
        ∃ exit q', q.step cb (.oqDequeue ω) = .ok (.dequeue exit, q') ∧
        exit ≠ .noAdmnList ∧ exit ≠ .noAdmnContainer ∧ (exit.skb? = none ↔ q.items i .proc = []) ∧
        (q.items i .proc = [] → q' = q) := by
  obtain ⟨outs, q, run, g, s, ref, -⟩ := Refines.run init allowed
  refine ⟨outs, q, run, ref.crossIndexed, fun i => ?_, fun ω i slot => ?_⟩
  · obtain ⟨exit, q', step, ⟨empty, rfl, same⟩ | ⟨full, rfl⟩⟩ := ref.dropTail_exit cb i
    · exact ⟨_, q', step, nofun, nofun, by simp [DropExit.code, empty], fun _ => same⟩
    · exact ⟨_, q', step, nofun, nofun, by simp [DropExit.code, eInval, full], fun empty => absurd empty full⟩
  · obtain ⟨exit, q', step, ⟨empty, rfl, same⟩ | ⟨full, skb, rfl⟩⟩ := ref.dequeue_exit slot
    · exact ⟨_, q', step, nofun, nofun, by simp [DequeueExit.skb?, empty], fun _ => same⟩
    · exact ⟨_, q', step, nofun, nofun, by simp [DequeueExit.skb?, full], fun empty => absurd empty full⟩

theorem twoPackets_cross_indexed :
    ∃ outs q, Lib.run (Port.step (.routines 256 2 (fun _ => 0) (fun _ => 1))) (Port.blank ()) twoPackets =
      .ok (outs, q) ∧ ∀ i, q.CrossIndexed i := by
  obtain ⟨outs, q, run, crossIndexed, -⟩ := run_keeps_cross_index _ (Port.blank_initialised ()) twoPackets_allowed
  exact ⟨outs, q, run, crossIndexed⟩

end OpenQueue
