import OpenQueue.Sim.Port
import Mathlib

/-!
# Reading the trees back from memory

What a port holds is read from its memory alone: the ring under each key of a tree by
following `next` from the head over live cells until the head comes back, and the
packets of a tree ring by ring. Over a memory that holds lists, the ring under a key
holds the items with that key in arrival order, and a tree holds the items of its
list.
-/

namespace OpenQueue

variable {Ω π : Type}

def QLayout.side (g : QLayout) : Side → Layout
  | .admn => g.admn
  | .proc => g.proc

/-- The ring of a list head. -/
def Mem.ring (m : Mem π) (contList : Addr) : List Addr := m.conts.ring m.next (m.head contList)

namespace Port

/-- The containers under a key of a tree, the head first. -/
def cellsAt (p : Port π) (i : QId) (t : Side) (k : Key) : List Addr :=
  (((p.queues i).tree t).lookup k).elim [] p.mem.ring

/-- What these containers say. -/
def bucket (p : Port π) (i : QId) (t : Side) (k : Key) : List (Item π) :=
  (p.cellsAt i t k).map (p.mem.item k)

/-- What a tree holds. -/
def items (p : Port π) (i : QId) (t : Side) : List (Item π) :=
  ((p.queues i).tree t).entries.flatMap fun e => p.bucket i t e.1

theorem items_of_tree_empty {p : Port π} {i : QId} {t : Side} (empty : (p.queues i).tree t = .empty) :
    p.items i t = [] := by
  rw [items, empty]
  rfl

/-- A tree is read through its own slot only. -/
theorem items_congr {m : Mem π} {queues queues' : QId → OqQueue} {i : QId} (same : queues' i = queues i) (t : Side) :
    items ⟨m, queues'⟩ i t = items ⟨m, queues⟩ i t := by
  simp only [items, bucket, cellsAt, same]

end Port

/-! ## Rings -/

section Ring

variable {m : Mem π} {b : Bucket}

theorem RingAt.ring_eq {S : Multiset Addr} (r : RingAt m b) (own : m.conts.Owns S) (inside : ∀ a ∈ b.cells, a ∈ S) :
    m.ring b.list = b.cells := by
  obtain ⟨back, cells⟩ := r.cells_eq
  have ring := r.ring
  rw [cells] at ring inside ⊢
  exact own.ring_eq ring inside

end Ring

/-! ## A port that holds lists -/

namespace PortRepr

variable {p : Port π} {g : QId → QLayout} {C L : Multiset Addr} {s : ListPort π} {i : QId} {t : Side} {k : Key}

theorem side (repr : PortRepr p g C L s) (i : QId) (t : Side) :
    TreeRepr p.mem ((p.queues i).tree t) ((g i).side t) ((s.queues i).side t) := by
  cases t with
  | admn => exact (repr.queues i).admn
  | proc => exact (repr.queues i).proc

theorem mem_cells (g : QId → QLayout) {a : Addr} (h : a ∈ ((g i).side t).cells) : a ∈ ∑ i, (g i).cells := by
  refine Multiset.mem_sum.2 ⟨i, Finset.mem_univ i, ?_⟩
  cases t with
  | admn => exact Multiset.mem_add.2 (.inl h)
  | proc => exact Multiset.mem_add.2 (.inr h)

theorem mem_heads (g : QId → QLayout) {a : Addr} (h : a ∈ ((g i).side t).heads) : a ∈ ∑ i, (g i).heads := by
  refine Multiset.mem_sum.2 ⟨i, Finset.mem_univ i, ?_⟩
  cases t with
  | admn => exact Multiset.mem_add.2 (.inl h)
  | proc => exact Multiset.mem_add.2 (.inr h)

theorem ring {b : Bucket} (repr : PortRepr p g C L s) (found : ((g i).side t).lookup k = some b) :
    p.mem.ring b.list = b.cells :=
  ((repr.side i t).rings k b found).ring_eq repr.conts fun _ ha =>
    Multiset.mem_add.2 (.inl (mem_cells g (Layout.mem_cells found ha)))

/-- The layout is what is read. -/
theorem cellsAt (repr : PortRepr p g C L s) (i : QId) (t : Side) (k : Key) :
    p.cellsAt i t k = ((g i).side t).cellsAt k := by
  rw [Port.cellsAt, (repr.side i t).lookup]
  cases found : ((g i).side t).lookup k with
  | none => rw [Layout.cellsAt_of_none found]; rfl
  | some b =>
    rw [Layout.cellsAt_of_lookup found]
    exact repr.ring found

/-- The ring under a key holds the items with that key, in arrival order. -/
theorem bucket (repr : PortRepr p g C L s) (i : QId) (t : Side) (k : Key) :
    p.bucket i t k = Index.bucket ((s.queues i).side t) k := by
  rw [Port.bucket, repr.cellsAt, (repr.side i t).items]

/-- A tree holds the items of its list. -/
theorem items_perm (repr : PortRepr p g C L s) (i : QId) (t : Side) :
    (p.items i t).Perm ((s.queues i).side t) := by
  refine Lib.perm_of_filter_eq (f := Item.key) (fun k => ?_)
  rw [Port.items, Lib.OrdMap.filter_flatMap]
  · exact repr.bucket i t k
  · intro k x hx
    obtain ⟨a, -, rfl⟩ := List.mem_map.1 hx
    rfl
  · intro k absent
    rw [Port.bucket, Port.cellsAt, absent]
    rfl

end PortRepr

end OpenQueue
