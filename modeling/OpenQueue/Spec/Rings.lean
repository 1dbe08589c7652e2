import OpenQueue.Spec.Simulation
import OpenQueue.Sim.Effects
import Mathlib

/-!
# The rings of a port

Whatever is called, the buckets of both trees are circular lists of live cells, no two
of them share a cell, and each holds its packets in arrival order; no dead cell is
touched and every search ends. Under the contract no cell is lost either: two
containers for each packet and one list head for each key of each tree.
-/

namespace OpenQueue

variable {Ω π : Type}

/-- Every bucket is a circular list of live cells that no other bucket shares. -/
structure Port.Rings (p : Port π) : Prop where
  head : ∀ i t k l, ((p.queues i).tree t).lookup k = some l →
    l ∈ p.mem.lists.live ∧ (p.cellsAt i t k).head? = some (p.mem.head l)
  cyclic : ∀ i t k, Lib.Cyclic p.mem.next p.mem.prev (p.cellsAt i t k)
  live : ∀ i t k, ∀ c ∈ p.cellsAt i t k, c ∈ p.mem.conts.live
  apart : ∀ i t k i' t' k' c, c ∈ p.cellsAt i t k → c ∈ p.cellsAt i' t' k' → i = i' ∧ t = t' ∧ k = k'

/-- Two containers for each packet, one list head for each key of each tree, and
nothing else. -/
structure Port.Accounted (p : Port π) : Prop where
  conts : ∀ c, c ∈ p.mem.conts.live ↔ ∃ i t k, c ∈ p.cellsAt i t k
  lists : ∀ l, l ∈ p.mem.lists.live ↔ ∃ i t k, ((p.queues i).tree t).lookup k = some l
  card_conts : ∀ t, p.mem.conts.live.card = 2 * ∑ i, (p.items i t).length
  card_lists : p.mem.lists.live.card = ∑ i, ((p.queues i).admnQ.entries.length + (p.queues i).procQ.entries.length)

/-! ## Sharing no cell -/

namespace PortRepr

variable {p : Port π} {g : QId → QLayout} {C L : Multiset Addr} {s : ListPort π}

theorem lookup_of_mem {l : Layout} {k : Key} {c : Addr} (h : c ∈ l.cellsAt k) :
    ∃ b, l.lookup k = some b ∧ c ∈ b.cells := by
  cases found : l.lookup k with
  | none => simp [Layout.cellsAt_of_none found] at h
  | some b => exact ⟨b, rfl, Layout.cellsAt_of_lookup found ▸ h⟩

theorem cells_apart (repr : PortRepr p g C L s) {i i' : QId} {t t' : Side} {k k' : Key} {c : Addr}
    (h : c ∈ ((g i).side t).cellsAt k) (h' : c ∈ ((g i').side t').cellsAt k') : i = i' ∧ t = t' ∧ k = k' := by
  have side : ∀ {j : QId} {u : Side} {a : Addr} {k : Key}, a ∈ ((g j).side u).cellsAt k → a ∈ (g j).cells := by
    intro j u a k ha
    have inside := Layout.mem_cells_of_cellsAt ha
    cases u
    · exact Multiset.mem_add.2 (.inl inside)
    · exact Multiset.mem_add.2 (.inr inside)
  have own := repr.focus i
  by_cases queue : i = i'
  · subst queue
    by_cases tree : t = t'
    · subst tree
      refine ⟨rfl, rfl, ?_⟩
      by_contra other
      have own' : ∃ F G, Owned p.mem ((g i).side t) F G := by
        cases t
        · exact ⟨_, _, own⟩
        · exact ⟨_, _, own.symm⟩
      obtain ⟨F, G, own'⟩ := own'
      obtain ⟨b, found, hb⟩ := lookup_of_mem h
      obtain ⟨b', found', hb'⟩ := lookup_of_mem h'
      have kept : Lib.OrdMap.lookup (Lib.OrdMap.erase ((g i).side t) k) k' = some b' := by
        rw [Lib.OrdMap.lookup_erase, if_neg (Ne.symm other), found']
      exact (own'.focus found).1.disjoint (Multiset.mem_coe.2 hb) (Multiset.mem_add.2 (.inl (Layout.mem_cells kept hb')))
    · exfalso
      have left := Layout.mem_cells_of_cellsAt h
      have right := Layout.mem_cells_of_cellsAt h'
      cases t <;> cases t'
      · exact tree rfl
      · exact own.conts.disjoint left (Multiset.mem_add.2 (.inl right))
      · exact own.conts.disjoint right (Multiset.mem_add.2 (.inl left))
      · exact tree rfl
  · exfalso
    have conts := repr.conts
    rw [sum_eq_rest QLayout.cells g i, add_assoc] at conts
    exact conts.disjoint (side h) (Multiset.mem_add.2 (.inl (mem_rest (Ne.symm queue) (side h'))))

theorem rings (repr : PortRepr p g C L s) : p.Rings := by
  refine ⟨fun i t k l stored => ?_, fun i t k => ?_, fun i t k c hc => ?_, fun i t k i' t' k' c hc hc' => ?_⟩
  · rw [(repr.side i t).lookup] at stored
    obtain ⟨b, found, rfl⟩ := Option.map_eq_some_iff.1 stored
    refine ⟨repr.lists.mem_live (Multiset.mem_add.2 (.inl (mem_heads g (Layout.mem_heads found)))), ?_⟩
    rw [repr.cellsAt, Layout.cellsAt_of_lookup found]
    exact ((repr.side i t).rings k b found).first
  · rw [repr.cellsAt]
    cases found : ((g i).side t).lookup k with
    | none =>
      rw [Layout.cellsAt_of_none found]
      exact ⟨List.nodup_nil, List.isChain_nil⟩
    | some b =>
      rw [Layout.cellsAt_of_lookup found]
      exact ((repr.side i t).rings k b found).ring
  · rw [repr.cellsAt] at hc
    exact repr.conts.mem_live (Multiset.mem_add.2 (.inl (mem_cells g (Layout.mem_cells_of_cellsAt hc))))
  · rw [repr.cellsAt] at hc hc'
    exact repr.cells_apart hc hc'

/-! ## Counting cells -/

theorem tree_entries (repr : PortRepr p g C L s) (i : QId) (t : Side) :
    ((p.queues i).tree t).entries = ((g i).side t).entries.map fun e => (e.1, e.2.list) := by
  rw [(repr.side i t).tree]
  rfl

/-- A tree has as many containers as items. -/
theorem card_cells (repr : PortRepr p g C L s) (i : QId) (t : Side) :
    ((g i).side t).cells.card = (p.items i t).length := by
  rw [Port.items, List.length_flatMap, repr.tree_entries, List.map_map, Layout.cells, Lib.OrdMap.card_sumBy]
  congr 1
  refine List.map_congr_left (fun e he => ?_)
  have found := Lib.OrdMap.mem_entries_iff.1 he
  simp only [Function.comp_apply, Multiset.coe_card, Port.bucket, List.length_map]
  rw [repr.cellsAt, Layout.cellsAt_of_lookup found]

/-- A tree has as many list heads as keys. -/
theorem card_heads (repr : PortRepr p g C L s) (i : QId) (t : Side) :
    ((g i).side t).heads.card = ((p.queues i).tree t).entries.length := by
  rw [repr.tree_entries, List.length_map, Layout.heads, Lib.OrdMap.card_sumBy]
  simp

end PortRepr

theorem Refines.accounted {p : Port π} {g : QId → QLayout} {s : SpecPort π} (ref : Refines p g s) : p.Accounted := by
  have conts := ref.repr.conts
  have lists := ref.repr.lists
  rw [add_zero] at conts lists
  refine ⟨fun c => ?_, fun l => ?_, fun t => ?_, ?_⟩
  · rw [conts.live, Multiset.mem_toFinset, Multiset.mem_sum]
    constructor
    · rintro ⟨i, -, hc⟩
      rcases Multiset.mem_add.1 hc with hc | hc
      · obtain ⟨k, hc⟩ := Layout.mem_cells_iff.1 hc
        exact ⟨i, .admn, k, by rwa [ref.cellsAt]⟩
      · obtain ⟨k, hc⟩ := Layout.mem_cells_iff.1 hc
        exact ⟨i, .proc, k, by rwa [ref.cellsAt]⟩
    · rintro ⟨i, t, k, hc⟩
      rw [ref.cellsAt] at hc
      exact Multiset.mem_sum.1 (PortRepr.mem_cells g (Layout.mem_cells_of_cellsAt hc))
  · rw [lists.live, Multiset.mem_toFinset]
    constructor
    · intro hl
      obtain ⟨i, -, hl⟩ := Multiset.mem_sum.1 hl
      rcases Multiset.mem_add.1 hl with hl | hl
      · obtain ⟨k, b, found, rfl⟩ := Layout.mem_heads_iff.1 hl
        exact ⟨i, .admn, k, by rw [(ref.repr.side i .admn).lookup]; exact congrArg _ found⟩
      · obtain ⟨k, b, found, rfl⟩ := Layout.mem_heads_iff.1 hl
        exact ⟨i, .proc, k, by rw [(ref.repr.side i .proc).lookup]; exact congrArg _ found⟩
    · rintro ⟨i, t, k, stored⟩
      rw [(ref.repr.side i t).lookup] at stored
      obtain ⟨b, found, rfl⟩ := Option.map_eq_some_iff.1 stored
      exact PortRepr.mem_heads g (Layout.mem_heads found)
  · have both : ∀ i, (g i).cells.card = 2 * (p.items i t).length := by
      intro i
      have count : ∀ u, (p.items i u).length = (s.queues i).held.length := by
        intro u
        rw [(ref.items_perm i u).length_eq, List.length_map]
      have admn := ref.repr.card_cells i .admn
      have proc := ref.repr.card_cells i .proc
      rw [count] at admn proc ⊢
      rw [QLayout.cells, Multiset.card_add]
      simp only [QLayout.side] at admn proc
      omega
    rw [conts.card_live, Multiset.card_sum, Finset.mul_sum]
    exact Finset.sum_congr rfl (fun i _ => both i)
  · have both : ∀ i, (g i).heads.card = (p.queues i).admnQ.entries.length + (p.queues i).procQ.entries.length := by
      intro i
      have admn := ref.repr.card_heads i .admn
      have proc := ref.repr.card_heads i .proc
      simp only [QLayout.side, OqQueue.tree] at admn proc
      rw [QLayout.heads, Multiset.card_add, admn, proc]
    rw [lists.card_live, Multiset.card_sum]
    exact Finset.sum_congr rfl (fun i _ => both i)

/-! ## Runs -/

/-- Heap-level correctness. On every run the buckets are rings of live cells of their
own in arrival order, and a call faults only for want of a node pool or a slot, never
on a dead cell or in an endless search. On a permitted run, moreover, the live cells
are exactly those of the held packets, and every permitted call is one of the three
ring edits. -/
theorem run_keeps_rings (cb : Callbacks Ω π) {p : Port π} (init : p.Initialised) (ops : List (Op Ω π)) :
    (∀ outs q, Lib.run (Port.step cb) p ops = .ok (outs, q) → q.Rings ∧
      (∀ i t k, ((q.cellsAt i t k).map q.mem.skb).Sublist (arrivals i ops)) ∧
      ∀ op e, q.step cb op = .error e → e = .noNodePool ∨ e = .badIndex) ∧
    ((∀ q op, Lib.Calls (Port.step cb) p ops q op → q.Allows cb op) →
      ∃ outs q, Lib.run (Port.step cb) p ops = .ok (outs, q) ∧ q.Accounted ∧
        ∀ op, q.Allows cb op → ∃ out q', q.step cb op = .ok (out, q') ∧ q.Surgery cb q' op) := by
  refine ⟨fun outs q run => ?_, fun allowed => ?_⟩
  · obtain ⟨s, run', g, C, L, repr⟩ := run_steps init run
    refine ⟨repr.rings, fun i t k => ?_, fun op e fault => ?_⟩
    · have skbs : (q.cellsAt i t k).map q.mem.skb = (q.bucket i t k).map Item.skb := by
        rw [Port.bucket, List.map_map]
        rfl
      rw [skbs, repr.bucket]
      refine (List.filter_sublist.map _).trans ((ListPort.run_arrivals run' i t).trans ?_)
      cases t <;> exact List.Sublist.refl _
    · have agree := step_agree cb q s op ⟨g, C, L, repr⟩
      rw [fault] at agree
      have fault' := agree.of_error
      rcases ListPort.stepped cb s op with ⟨out, s', ok, -⟩ | e' | e'
      · rw [ok] at fault'
        cases fault'
      · rw [e'] at fault'
        exact .inl (Except.error.inj fault').symm
      · rw [e'] at fault'
        exact .inr (Except.error.inj fault').symm
  · obtain ⟨outs, q, run, g, s, ref, -⟩ := Refines.run init allowed
    refine ⟨outs, q, run, ref.accounted, fun op allow => ?_⟩
    obtain ⟨out, q', g', s', step, -, -, surgery⟩ := ref.step allow
    exact ⟨out, q', step, surgery⟩

theorem twoPackets_rings :
    ∃ outs q, Lib.run (Port.step (.routines 256 2 (fun _ => 0) (fun _ => 1))) (Port.blank ()) twoPackets =
      .ok (outs, q) ∧ q.Rings ∧ q.Accounted := by
  obtain ⟨always, permitted⟩ := run_keeps_rings (.routines 256 2 (fun _ => 0) (fun _ => 1)) (Port.blank_initialised ())
    twoPackets
  obtain ⟨outs, q, run, accounted, -⟩ := permitted twoPackets_allowed
  exact ⟨outs, q, run, (always outs q run).1, accounted⟩

end OpenQueue
