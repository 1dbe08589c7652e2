import OpenQueue.Sim.Index
import OpenQueue.Lib.Cyclic
import Mathlib

/-!
# Trees of rings in memory

A `Layout` says where the list heads and containers of a tree lie. `TreeRepr` ties
it to the memory and to the list of the tree's items: each bucket is a ring, read
from its head, and the ring under `k` holds the items with key `k` in arrival order.
Which cells exist is said by `Owned`, with the cells of everybody else as a frame.
-/

namespace OpenQueue

variable {π : Type}

/-- A list head and the ring it points into, first cell first. -/
structure Bucket where
  list : Addr
  cells : List Addr

/-- Where the buckets of a tree lie. -/
abbrev Layout := Lib.OrdMap Key Bucket

namespace Layout

/-- The containers of a tree. -/
def cells (g : Layout) : Multiset Addr := Lib.OrdMap.sumBy (fun b => (b.cells : Multiset Addr)) g

/-- The list heads of a tree. -/
def heads (g : Layout) : Multiset Addr := Lib.OrdMap.sumBy (fun b => {b.list}) g

/-- The ring under a key, empty if there is none. -/
def cellsAt (g : Layout) (k : Key) : List Addr := ((g.lookup k).map Bucket.cells).getD []

variable {g : Layout} {k : Key} {b : Bucket}

theorem cellsAt_of_lookup (h : g.lookup k = some b) : g.cellsAt k = b.cells := by
  simp [cellsAt, h]

theorem cellsAt_of_none (h : g.lookup k = none) : g.cellsAt k = [] := by
  simp [cellsAt, h]

theorem cells_split (h : g.lookup k = some b) : g.cells = b.cells + cells (g.erase k) :=
  Lib.OrdMap.sumBy_split _ h

theorem heads_split (h : g.lookup k = some b) : g.heads = b.list ::ₘ heads (g.erase k) :=
  Lib.OrdMap.sumBy_split _ h

theorem cells_insert (g : Layout) (k : Key) (b : Bucket) :
    cells (g.insert k b) = b.cells + cells (g.erase k) :=
  Lib.OrdMap.sumBy_insert _ g k b

theorem heads_insert (g : Layout) (k : Key) (b : Bucket) :
    heads (g.insert k b) = b.list ::ₘ heads (g.erase k) :=
  Lib.OrdMap.sumBy_insert _ g k b

/-- A new ring under the same list head is not seen by the tree. -/
theorem map_list_insert (h : g.lookup k = some b) (ring : List Addr) :
    (g.insert k ⟨b.list, ring⟩).map Bucket.list = g.map Bucket.list :=
  Lib.OrdMap.map_insert_same h rfl

theorem mem_cells (h : g.lookup k = some b) {a : Addr} (ha : a ∈ b.cells) : a ∈ g.cells := by
  rw [cells_split h]
  exact Multiset.mem_add.2 (.inl ha)

theorem mem_heads (h : g.lookup k = some b) : b.list ∈ g.heads := by
  rw [heads_split h]
  exact Multiset.mem_cons_self _ _

theorem mem_cells_iff {a : Addr} : a ∈ g.cells ↔ ∃ k, a ∈ g.cellsAt k := by
  rw [cells, Lib.OrdMap.mem_sumBy]
  constructor
  · rintro ⟨k, b, found, ha⟩
    exact ⟨k, cellsAt_of_lookup found ▸ ha⟩
  · rintro ⟨k, ha⟩
    cases found : g.lookup k with
    | none => simp [cellsAt_of_none found] at ha
    | some b => exact ⟨k, b, found, cellsAt_of_lookup found ▸ ha⟩

theorem mem_heads_iff {l : Addr} : l ∈ g.heads ↔ ∃ k b, g.lookup k = some b ∧ b.list = l := by
  rw [heads, Lib.OrdMap.mem_sumBy]
  simp only [Multiset.mem_singleton, eq_comm]

end Layout

/-- What the container at `a`, found under `k`, says. -/
def Mem.item (m : Mem π) (k : Key) (a : Addr) : Item π := ⟨k, m.otherKey a, m.skb a⟩

/-- The two memories agree on the containers `F` and the list heads `G`. -/
structure Frame (m m' : Mem π) (F G : Multiset Addr) : Prop where
  next : ∀ a ∈ F, m'.next a = m.next a
  prev : ∀ a ∈ F, m'.prev a = m.prev a
  skb : ∀ a ∈ F, m'.skb a = m.skb a
  otherKey : ∀ a ∈ F, m'.otherKey a = m.otherKey a
  head : ∀ l ∈ G, m'.head l = m.head l

namespace Frame

variable {m m' m'' : Mem π} {F F' G G' : Multiset Addr}

/-- Only the pools or the log differ. -/
theorem of_eq (hnext : m'.next = m.next) (hprev : m'.prev = m.prev) (hskb : m'.skb = m.skb)
    (hother : m'.otherKey = m.otherKey) (hhead : m'.head = m.head) : Frame m m' F G :=
  ⟨fun _ _ => by rw [hnext], fun _ _ => by rw [hprev], fun _ _ => by rw [hskb], fun _ _ => by rw [hother],
    fun _ _ => by rw [hhead]⟩

theorem trans (f : Frame m m' F G) (f' : Frame m' m'' F G) : Frame m m'' F G :=
  ⟨fun a h => (f'.next a h).trans (f.next a h), fun a h => (f'.prev a h).trans (f.prev a h),
    fun a h => (f'.skb a h).trans (f.skb a h), fun a h => (f'.otherKey a h).trans (f.otherKey a h),
    fun l h => (f'.head l h).trans (f.head l h)⟩

theorem mono (f : Frame m m' F G) (hF : ∀ a ∈ F', a ∈ F) (hG : ∀ l ∈ G', l ∈ G) : Frame m m' F' G' :=
  ⟨fun a h => f.next a (hF a h), fun a h => f.prev a (hF a h), fun a h => f.skb a (hF a h),
    fun a h => f.otherKey a (hF a h), fun l h => f.head l (hG l h)⟩

theorem item (f : Frame m m' F G) {a : Addr} (h : a ∈ F) (k : Key) : m'.item k a = m.item k a := by
  simp only [Mem.item, f.skb a h, f.otherKey a h]

end Frame

/-- A bucket in memory: the head points at the first cell of a ring. -/
structure RingAt (m : Mem π) (b : Bucket) : Prop where
  first : b.cells.head? = some (m.head b.list)
  ring : Lib.Cyclic m.next m.prev b.cells

/-- The live cells are those of the tree laid out by `g` and the frames `F` and `G`. -/
structure Owned (m : Mem π) (g : Layout) (F G : Multiset Addr) : Prop where
  conts : m.conts.Owns (g.cells + F)
  lists : m.lists.Owns (g.heads + G)

/-- The memory holds the list `l` as the tree laid out by `g`. -/
structure TreeRepr (m : Mem π) (tree : BTree) (g : Layout) (l : List (Item π)) : Prop where
  tree : tree = g.map Bucket.list
  rings : ∀ k b, g.lookup k = some b → RingAt m b
  items : ∀ k, (g.cellsAt k).map (m.item k) = Index.bucket l k

namespace Owned

variable {m m' : Mem π} {g : Layout} {k : Key} {b : Bucket} {F G : Multiset Addr}

/-- The cells of one bucket, apart from the rest of the tree and the frame. -/
theorem focus (own : Owned m g F G) (found : g.lookup k = some b) :
    m.conts.Owns (b.cells + (Layout.cells (g.erase k) + F)) ∧
      m.lists.Owns (b.list ::ₘ (Layout.heads (g.erase k) + G)) := by
  have conts := own.conts
  have lists := own.lists
  rw [Layout.cells_split found, add_assoc] at conts
  rw [Layout.heads_split found, Multiset.cons_add] at lists
  exact ⟨conts, lists⟩

theorem insert (conts : m.conts.Owns (b.cells + (Layout.cells (g.erase k) + F)))
    (lists : m.lists.Owns (b.list ::ₘ (Layout.heads (g.erase k) + G))) : Owned m (g.insert k b) F G := by
  refine ⟨?_, ?_⟩
  · rw [Layout.cells_insert, add_assoc]
    exact conts
  · rw [Layout.heads_insert, Multiset.cons_add]
    exact lists

end Owned

namespace RingAt

variable {m m' : Mem π} {b : Bucket} {F G : Multiset Addr}

theorem frame (r : RingAt m b) (f : Frame m m' F G) (hF : ∀ a ∈ b.cells, a ∈ F) (hG : b.list ∈ G) :
    RingAt m' b := by
  refine ⟨by rw [f.head _ hG]; exact r.first, r.ring.congr ?_ ?_⟩
  · intro a ha
    exact f.next a (hF a ha)
  · intro a ha
    exact f.prev a (hF a ha)

/-- A bucket is never empty. -/
theorem cells_eq (r : RingAt m b) : ∃ rest, b.cells = m.head b.list :: rest := by
  have first := r.first
  cases cells : b.cells with
  | nil => rw [cells] at first; cases first
  | cons a rest =>
    rw [cells] at first
    cases first
    exact ⟨rest, rfl⟩

end RingAt

namespace TreeRepr

variable {m m' : Mem π} {tree : BTree} {g : Layout} {l l' : List (Item π)} {k : Key} {b : Bucket}
  {F G : Multiset Addr}

theorem frame (repr : TreeRepr m tree g l) (f : Frame m m' F G) (hF : ∀ a ∈ g.cells, a ∈ F)
    (hG : ∀ a ∈ g.heads, a ∈ G) : TreeRepr m' tree g l := by
  refine ⟨repr.tree, ?_, ?_⟩
  · intro k b h
    exact (repr.rings k b h).frame f (fun a ha => hF a (Layout.mem_cells h ha)) (hG _ (Layout.mem_heads h))
  · intro k
    rw [← repr.items k]
    refine List.map_congr_left (fun a ha => ?_)
    cases h : g.lookup k with
    | none => simp [Layout.cellsAt, h] at ha
    | some b =>
      rw [Layout.cellsAt_of_lookup h] at ha
      exact f.item (hF a (Layout.mem_cells h ha)) k

theorem lookup (repr : TreeRepr m tree g l) (k : Key) : tree.lookup k = (g.lookup k).map Bucket.list := by
  rw [repr.tree, Lib.OrdMap.lookup_map]

/-- A key is in the tree exactly when some item has it. -/
theorem lookup_eq_none_iff (repr : TreeRepr m tree g l) : g.lookup k = none ↔ Index.bucket l k = [] := by
  rw [← repr.items k]
  constructor
  · intro h
    simp [Layout.cellsAt_of_none h]
  · intro h
    cases found : g.lookup k with
    | none => rfl
    | some b =>
      obtain ⟨rest, cells⟩ := (repr.rings k b found).cells_eq
      simp [Layout.cellsAt_of_lookup found, cells] at h

theorem bucket_eq (repr : TreeRepr m tree g l) (h : g.lookup k = some b) :
    Index.bucket l k = b.cells.map (m.item k) := by
  rw [← repr.items k, Layout.cellsAt_of_lookup h]

/-- Change the bucket of one key and keep the others. -/
theorem insert (repr : TreeRepr m tree g l)
    (f : Frame m m' (Layout.cells (g.erase k)) (Layout.heads (g.erase k)))
    (ring : RingAt m' b) (items : b.cells.map (m'.item k) = Index.bucket l' k)
    (others : ∀ k', k' ≠ k → Index.bucket l' k' = Index.bucket l k') :
    TreeRepr m' ((g.insert k b).map Bucket.list) (g.insert k b) l' := by
  refine ⟨rfl, ?_, ?_⟩
  · intro k' b' h
    rw [Lib.OrdMap.lookup_insert] at h
    split at h
    · cases h
      exact ring
    · next other =>
      have kept : Lib.OrdMap.lookup (g.erase k) k' = some b' := by
        rw [Lib.OrdMap.lookup_erase, if_neg other, h]
      exact (repr.rings k' b' h).frame f (fun a ha => Layout.mem_cells kept ha) (Layout.mem_heads kept)
  · intro k'
    by_cases same : k' = k
    · subst same
      rw [Layout.cellsAt_of_lookup (b := b) (by rw [Lib.OrdMap.lookup_insert, if_pos rfl]), items]
    · rw [others k' same, ← repr.items k']
      have kept : Layout.cellsAt (g.insert k b) k' = g.cellsAt k' := by
        simp only [Layout.cellsAt, Lib.OrdMap.lookup_insert, if_neg same]
      rw [kept]
      refine List.map_congr_left (fun a ha => ?_)
      cases h : g.lookup k' with
      | none => simp [Layout.cellsAt, h] at ha
      | some b' =>
        rw [Layout.cellsAt_of_lookup h] at ha
        have stays : Lib.OrdMap.lookup (g.erase k) k' = some b' := by
          rw [Lib.OrdMap.lookup_erase, if_neg same, h]
        exact f.item (Layout.mem_cells stays ha) k'

/-- Drop the bucket of one key and keep the others. -/
theorem erase (repr : TreeRepr m tree g l)
    (f : Frame m m' (Layout.cells (g.erase k)) (Layout.heads (g.erase k)))
    (items : Index.bucket l' k = [])
    (others : ∀ k', k' ≠ k → Index.bucket l' k' = Index.bucket l k') :
    TreeRepr m' ((g.erase k).map Bucket.list) (g.erase k) l' := by
  have kept : TreeRepr m ((g.erase k).map Bucket.list) (g.erase k) l' := by
    refine ⟨rfl, ?_, ?_⟩
    · intro k' b' h
      rw [Lib.OrdMap.lookup_erase] at h
      split at h
      · cases h
      · exact repr.rings k' b' h
    · intro k'
      by_cases same : k' = k
      · subst same
        rw [items]
        simp [Layout.cellsAt, Lib.OrdMap.lookup_erase]
      · rw [others k' same, ← repr.items k']
        simp only [Layout.cellsAt, Lib.OrdMap.lookup_erase, if_neg same]
  exact kept.frame f (fun a ha => ha) (fun a ha => ha)

end TreeRepr

end OpenQueue
