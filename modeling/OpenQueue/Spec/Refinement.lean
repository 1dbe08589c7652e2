import OpenQueue.Sim.Observe
import OpenQueue.Spec.Arrival

/-!
# Queues in memory do what queues in arrival order do

`Refines` ties the memory of a port to its specification: the two lists of every
queue are its arrival list read twice, and no cell is lost. Every call that keeps its
part of the contract succeeds, answers as the specification does, and edits the rings
in one of three ways: a new last cell, no first cell, or no cell of one packet.
-/

namespace OpenQueue

variable {Ω π : Type}

/-- What the caller owes: the queue is initialised and does not hold the packet, the
insertions get their memory, and the scheduler names a slot of the array. -/
def Port.Allows (cb : Callbacks Ω π) (p : Port π) : Op Ω π → Prop
  | .doEnqueue i _ ins skb =>
    (p.queues i).ready = true ∧ ins = .ok ∧ ∀ t, ∀ x ∈ p.items i t, x.skb.addr ≠ skb.addr
  | .doDropTail _ => True
  | .oqDequeue ω => (slot? (cb.schedFn ω p.infos)).isSome

/-! ## What a call does to the rings -/

namespace Port

/-- The rings of the other queues are as before. -/
def SameElsewhere (p p' : Port π) (i : QId) : Prop := ∀ j, j ≠ i → p'.cellsAt j = p.cellsAt j

/-- A ring on side `t` lost its first cell, and one on side `t'` its only cell with the
same packet. -/
def Took (p p' : Port π) (i : QId) (t t' : Side) : Prop :=
  ∃ k c back k' front c' back', Removed (p.cellsAt i t) (p'.cellsAt i t) k [] c back ∧
    Removed (p.cellsAt i t') (p'.cellsAt i t') k' front c' back' ∧ (p.mem.skb c').addr = (p.mem.skb c).addr ∧
    ∀ x ∈ front ++ back', (p.mem.skb x).addr ≠ (p.mem.skb c).addr

/-- Take a packet from side `t` first, or find nothing and leave the port as it is. -/
def TookOrEmpty (p p' : Port π) (i : QId) (t t' : Side) : Prop :=
  p.items i t = [] ∧ p' = p ∨ p.items i t ≠ [] ∧ p.Took p' i t t'

/-- The pointer surgery of a call. -/
def Surgery (cb : Callbacks Ω π) (p p' : Port π) : Op Ω π → Prop
  | .doEnqueue i ω _ skb => p.SameElsewhere p' i ∧
    (∃ c, Pushed (p.cellsAt i .admn) (p'.cellsAt i .admn) (cb.admnFn ω (p.infos i) skb) c) ∧
    ∃ c, Pushed (p.cellsAt i .proc) (p'.cellsAt i .proc) (cb.procFn ω (p.infos i) skb) c
  | .doDropTail i => p.SameElsewhere p' i ∧ p.TookOrEmpty p' i .admn .proc
  | .oqDequeue ω => ∃ i, slot? (cb.schedFn ω p.infos) = some i ∧ p.SameElsewhere p' i ∧
    p.TookOrEmpty p' i .proc .admn

end Port

/-! ## The relation -/

namespace SpecPort

/-- The lists of all queues. -/
def lists (s : SpecPort π) : ListPort π := ⟨fun i => (s.queues i).lists, s.dropped⟩

theorem lists_update (s : SpecPort π) (i : QId) (q : SpecQueue π) (dropped : List (SkBuff π)) :
    lists ⟨Function.update s.queues i q, dropped⟩ = ⟨Function.update s.lists.queues i q.lists, dropped⟩ := by
  simp only [lists, ListPort.mk.injEq, and_true]
  exact Function.comp_update SpecQueue.lists s.queues i q

end SpecPort

/-- The memory holds what the specification holds, and nothing else is live. -/
structure Refines (p : Port π) (g : QId → QLayout) (s : SpecPort π) : Prop where
  repr : PortRepr p g 0 0 s.lists
  distinct : ∀ i, (s.queues i).Distinct

/-- The container of a held packet in one tree. -/
def Held.item (x : Held π) : Side → Item π
  | .admn => x.admnItem
  | .proc => x.procItem

namespace Refines

variable {p p' : Port π} {g g' : QId → QLayout} {s : SpecPort π} {i : QId} {t t' : Side}

theorem infos (ref : Refines p g s) : p.infos = s.infos := ref.repr.infos

theorem side (s : SpecPort π) (i : QId) (t : Side) :
    (s.lists.queues i).side t = (s.queues i).held.map (fun x => x.item t) := by
  cases t <;> rfl

theorem items_perm (ref : Refines p g s) (i : QId) (t : Side) :
    (p.items i t).Perm ((s.queues i).held.map fun x => x.item t) :=
  side s i t ▸ ref.repr.items_perm i t

theorem bucket (ref : Refines p g s) (i : QId) (t : Side) (k : Key) :
    p.bucket i t k = ((s.queues i).held.map fun x => x.item t).filter (fun x => x.key = k) :=
  side s i t ▸ ref.repr.bucket i t k

theorem items_eq_nil_iff (ref : Refines p g s) (i : QId) (t : Side) : p.items i t = [] ↔ (s.queues i).held = [] := by
  have perm := ref.items_perm i t
  constructor
  · intro empty
    rw [empty] at perm
    simpa using perm.symm.eq_nil
  · intro empty
    rw [empty] at perm
    exact perm.eq_nil

/-- The rings read from memory are the layout. -/
theorem cellsAt (ref : Refines p g s) (i : QId) (t : Side) : p.cellsAt i t = ((g i).side t).cellsAt :=
  funext fun k => ref.repr.cellsAt i t k

theorem update {m' : Mem π} {q' : OqQueue} {gq : QLayout} {a : SpecQueue π} {L : List (SkBuff π)}
    (ref : Refines p g s) (after : QueueRepr m' q' gq a.lists) (distinct : a.Distinct)
    (own : QOwned m' gq (0 + (rest QLayout.cells g i + 0)) (0 + (rest QLayout.heads g i + 0)))
    (frame : Frame p.mem m' (rest QLayout.cells g i + 0) (rest QLayout.heads g i + 0))
    (log : m'.freed = p.mem.freed ++ L) :
    Refines ⟨m', Function.update p.queues i q'⟩ (Function.update g i gq)
      ⟨Function.update s.queues i a, s.dropped ++ L⟩ := by
  refine ⟨?_, fun j => ?_⟩
  · rw [SpecPort.lists_update]
    have repr := ref.repr.update after own frame log
    rw [add_zero] at repr
    exact repr
  · by_cases same : j = i
    · subst same
      simpa only [Function.update_self] using distinct
    · simpa only [Function.update_of_ne same] using ref.distinct j

/-- A changed layout of one queue leaves the rings of the others alone. -/
theorem sameElsewhere {s' : SpecPort π} {gq : QLayout} (ref : Refines p g s)
    (ref' : Refines p' (Function.update g i gq) s') : p.SameElsewhere p' i := by
  intro j other
  funext t
  rw [ref'.cellsAt, ref.cellsAt, Function.update_of_ne other]

/-- Packets in one ring are different. -/
theorem ring_distinct (ref : Refines p g s) (i : QId) (t : Side) (k : Key) :
    ((p.cellsAt i t k).map fun c => (p.mem.skb c).addr).Nodup := by
  have addrs : (p.cellsAt i t k).map (fun c => (p.mem.skb c).addr) = (p.bucket i t k).map fun x => x.skb.addr := by
    rw [Port.bucket, List.map_map]
    rfl
  rw [addrs, ref.bucket]
  have all : (((s.queues i).held.map fun x => x.item t).map fun x => x.skb.addr).Nodup := by
    rw [List.map_map]
    cases t <;> exact ref.distinct i
  exact all.sublist (List.filter_sublist.map _)

/-- The two removals, read from memory. -/
theorem took (ref : Refines p g s) (t t' : Side) {r r' : Key → List Addr} (after : p'.cellsAt i t = r)
    (after' : p'.cellsAt i t' = r') (both : TookBoth p.mem ((g i).side t).cellsAt r ((g i).side t').cellsAt r') : p.Took p' i t t' := by
  obtain ⟨k, c, back, k', front, c', back', first, second, same, earlier⟩ := both
  rw [← ref.cellsAt, ← after] at first
  rw [← ref.cellsAt, ← after'] at second
  refine ⟨k, c, back, k', front, c', back', first, second, same, ?_⟩
  intro x hx
  rcases List.mem_append.1 hx with hx | hx
  · exact earlier x hx
  · have nodup := ref.ring_distinct i t' k'
    rw [second.1, List.map_append, List.map_cons] at nodup
    have later := (List.nodup_cons.1 (List.nodup_append.1 nodup).2.1).1
    intro again
    exact later (List.mem_map.2 ⟨x, hx, by rw [again, same]⟩)

/-! ## One call -/

section Step

variable {cb : Callbacks Ω π} {ω : Ω}

theorem doEnqueue {ins : Inserts} {skb : SkBuff π} (ref : Refines p g s)
    (allow : p.Allows cb (.doEnqueue i ω ins skb)) :
    ∃ p' g' s', p.step cb (.doEnqueue i ω ins skb) = .ok (.status netXmitSuccess, p') ∧
      s.step cb (.doEnqueue i ω ins skb) = .ok (.status netXmitSuccess, s') ∧ Refines p' g' s' ∧
      p.Surgery cb p' (.doEnqueue i ω ins skb) := by
  obtain ⟨ready, rfl, fresh⟩ := allow
  have ready' : (s.queues i).ready = true := by
    have info := congrFun ref.infos i
    simp only [Port.infos, SpecPort.infos] at info
    rwa [info] at ready
  obtain ⟨q', m', gq, C, L, run, after, own, frame, log, exact⟩ :=
    doEnqueue_spec (ref.repr.queues i) (ref.repr.focus i) (SpecQueue.lists_enqueue cb ω skb ready')
  obtain ⟨rfl, rfl, ⟨c, pushed⟩, ⟨c', pushed'⟩⟩ := exact rfl
  have distinct : ((s.queues i).enqueue cb ω skb).Distinct := by
    refine (ref.distinct i).enqueue (fun x hx => ?_)
    have member : x.item .admn ∈ p.items i .admn := (ref.items_perm i .admn).mem_iff.2 (List.mem_map.2 ⟨x, hx, rfl⟩)
    exact fresh .admn _ member
  have ref' := ref.update (L := []) after distinct own frame (by rw [log, List.append_nil])
  rw [List.append_nil] at ref'
  refine ⟨_, _, _, Port.step_doEnqueue run, rfl, ref', ref.sameElsewhere ref', ⟨c, ?_⟩, ⟨c', ?_⟩⟩
  · rw [ref.cellsAt, ref'.cellsAt, Function.update_self, ref.infos]
    exact pushed
  · rw [ref.cellsAt, ref'.cellsAt, Function.update_self, ref.infos]
    exact pushed'

theorem doDropTail (ref : Refines p g s) (cb : Callbacks Ω π) (i : QId) :
    ∃ exit p' g' s', p.step cb (.doDropTail i) = .ok (.dropTail exit, p') ∧
      s.step cb (.doDropTail i) = .ok (.dropTail exit, s') ∧ Refines p' g' s' ∧
      p.Surgery cb p' (.doDropTail i) := by
  have spec := doDropTail_spec (ref.repr.queues i) (ref.repr.focus i)
  have answer := SpecQueue.lists_dropTail (ref.distinct i)
  rcases top : (s.queues i).dropTail with ⟨_ | skb, q⟩ <;> rw [top] at answer
  · change (s.lists.queues i).doDropTail = (.noPacket, [], q.lists) at answer
    rw [answer] at spec
    obtain ⟨q', m', gq, C, run, after, own, frame, log, same, -⟩ := spec
    obtain ⟨rfl, rfl, rfl, rfl⟩ := same rfl
    obtain ⟨rfl, empty⟩ := SpecQueue.dropTail_eq_none_iff.1 top
    refine ⟨.noPacket, p, g, s, ?_, ?_, ref, fun j _ => rfl, .inl ⟨(ref.items_eq_nil_iff i .admn).2 empty, rfl⟩⟩
    · rw [Port.step_doDropTail run, Function.update_eq_self]
    · simp only [SpecPort.step, top, Function.update_eq_self]
  · change (s.lists.queues i).doDropTail = (.dropped, [skb], q.lists) at answer
    rw [answer] at spec
    obtain ⟨q', m', gq, C, run, after, own, frame, log, -, took⟩ := spec
    obtain ⟨rfl, both⟩ := took rfl
    have ref' := ref.update after ((ref.distinct i).sublist (SpecQueue.dropTail_sublist top))
      (by rwa [zero_add (rest QLayout.heads g i + 0)]) frame log
    refine ⟨.dropped, _, _, _, Port.step_doDropTail run, ?_, ref', ref.sameElsewhere ref', .inr ⟨?_, ?_⟩⟩
    · simp only [SpecPort.step, top]
    · intro empty
      have nothing := SpecQueue.dropTail_eq_none_iff.2 ⟨rfl, (ref.items_eq_nil_iff i .admn).1 empty⟩
      rw [top] at nothing
      cases nothing
    · refine ref.took .admn .proc rfl rfl ?_
      rw [ref'.cellsAt, ref'.cellsAt, Function.update_self]
      exact both

theorem oqDequeue (ref : Refines p g s) (allow : p.Allows cb (.oqDequeue ω)) :
    ∃ exit p' g' s', p.step cb (.oqDequeue ω) = .ok (.dequeue exit, p') ∧
      s.step cb (.oqDequeue ω) = .ok (.dequeue exit, s') ∧ Refines p' g' s' ∧
      p.Surgery cb p' (.oqDequeue ω) := by
  obtain ⟨i, slot⟩ := Option.isSome_iff_exists.1 allow
  have slot' : slot? (cb.schedFn ω s.infos) = some i := ref.infos ▸ slot
  have spec := dequeueFrom_spec (ref.repr.queues i) (ref.repr.focus i)
  have answer := SpecQueue.lists_dequeue (ref.distinct i)
  rcases top : (s.queues i).dequeue with ⟨_ | skb, q⟩ <;> rw [top] at answer
  · change (s.lists.queues i).dequeueFrom = (.noPacket, q.lists) at answer
    rw [answer] at spec
    obtain ⟨q', m', gq, C, run, after, own, frame, log, same, -⟩ := spec
    obtain ⟨rfl, rfl, rfl, rfl⟩ := same rfl
    obtain ⟨rfl, empty⟩ := SpecQueue.dequeue_eq_none_iff.1 top
    refine ⟨.noPacket, p, g, s, ?_, ?_, ref, i, slot, fun j _ => rfl,
      .inl ⟨(ref.items_eq_nil_iff i .proc).2 empty, rfl⟩⟩
    · rw [Port.step_oqDequeue slot run, Function.update_eq_self]
    · simp only [SpecPort.step, slot', top, Function.update_eq_self]
  · change (s.lists.queues i).dequeueFrom = (.packet skb, q.lists) at answer
    rw [answer] at spec
    obtain ⟨q', m', gq, C, run, after, own, frame, log, -, took⟩ := spec
    obtain ⟨rfl, both⟩ := took skb rfl
    have ref' := ref.update (L := []) after ((ref.distinct i).sublist (SpecQueue.dequeue_sublist top))
      (by rwa [zero_add (rest QLayout.heads g i + 0)]) frame (by rw [log, List.append_nil])
    rw [List.append_nil] at ref'
    refine ⟨.packet skb, _, _, _, Port.step_oqDequeue slot run, ?_, ref', i, slot, ref.sameElsewhere ref',
      .inr ⟨?_, ?_⟩⟩
    · simp only [SpecPort.step, slot', top]
    · intro empty
      have nothing := SpecQueue.dequeue_eq_none_iff.2 ⟨rfl, (ref.items_eq_nil_iff i .proc).1 empty⟩
      rw [top] at nothing
      cases nothing
    · refine ref.took .proc .admn rfl rfl ?_
      rw [ref'.cellsAt, ref'.cellsAt, Function.update_self]
      exact both

/-- Every permitted call succeeds, answers as specified and keeps the relation. -/
theorem step {op : Op Ω π} (ref : Refines p g s) (allow : p.Allows cb op) :
    ∃ out p' g' s', p.step cb op = .ok (out, p') ∧ s.step cb op = .ok (out, s') ∧ Refines p' g' s' ∧
      p.Surgery cb p' op := by
  cases op with
  | doEnqueue i ω ins skb =>
    obtain ⟨p', g', s', run⟩ := ref.doEnqueue allow
    exact ⟨_, p', g', s', run⟩
  | doDropTail i =>
    obtain ⟨exit, p', g', s', run⟩ := ref.doDropTail cb i
    exact ⟨_, p', g', s', run⟩
  | oqDequeue ω =>
    obtain ⟨exit, p', g', s', run⟩ := ref.oqDequeue allow
    exact ⟨_, p', g', s', run⟩

end Step

theorem initial (init : p.Initialised) :
    Refines p (fun _ => ⟨.empty, .empty⟩) (SpecPort.initial p.infos) :=
  ⟨PortRepr.initial init, fun _ => List.nodup_nil⟩

/-- A run of permitted calls. -/
theorem run {cb : Callbacks Ω π} {ops : List (Op Ω π)} (init : p.Initialised)
    (allowed : ∀ q op, Lib.Calls (Port.step cb) p ops q op → q.Allows cb op) :
    ∃ outs q, Lib.run (Port.step cb) p ops = .ok (outs, q) ∧ ∃ g s, Refines q g s ∧
      Lib.run (SpecPort.step cb) (SpecPort.initial p.infos) ops = .ok (outs, s) := by
  refine Lib.run_ok (P := fun ops outs q => ∃ g s, Refines q g s ∧
    Lib.run (SpecPort.step cb) (SpecPort.initial p.infos) ops = .ok (outs, s)) allowed ⟨_, _, initial init, rfl⟩ ?_
  rintro ops outs q op - ⟨g, s, ref, before⟩ allow
  obtain ⟨out, q', g', s', step, step', ref', -⟩ := ref.step allow
  exact ⟨out, q', step, g', s', ref', Lib.run_snoc_eq_ok.2 ⟨outs, s, out, before, step', rfl⟩⟩

end Refines

end OpenQueue
