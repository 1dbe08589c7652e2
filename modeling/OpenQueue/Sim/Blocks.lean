import OpenQueue.Sim.Repr
import Mathlib

/-!
# The three blocks on memory and on lists

For each block first the memory it leaves, by executing it (`linkTail_present`,
`linkTail_absent`, ...), then its specification over `TreeRepr`: the ring changes at
one end or loses one cell, the list changes as `Index` says, the frames are untouched,
and the cells of the tree are accounted for again. A container taken out of its ring
is still live, so it moves into the frame until it is freed.
-/

namespace OpenQueue

variable {π : Type} {m m' : Mem π} {tree : BTree} {g g' : Layout} {l l' : List (Item π)} {F G : Multiset Addr}

/-- The ring under `k` got a new last cell; the others are as before. -/
def Pushed (r r' : Key → List Addr) (k : Key) (c : Addr) : Prop :=
  ∀ k', r' k' = if k' = k then r k ++ [c] else r k'

/-- The ring under `k` lost the cell between `front` and `back`; the others are as before. -/
def Removed (r r' : Key → List Addr) (k : Key) (front : List Addr) (c : Addr) (back : List Addr) : Prop :=
  r k = front ++ c :: back ∧ ∀ k', r' k' = if k' = k then front ++ back else r k'

namespace Layout

theorem mem_cells_of_cellsAt {g : Layout} {k : Key} {a : Addr} (h : a ∈ g.cellsAt k) : a ∈ g.cells := by
  cases found : g.lookup k with
  | none => simp [cellsAt_of_none found] at h
  | some b => exact mem_cells found (cellsAt_of_lookup found ▸ h)

theorem cellsAt_insert (g : Layout) (k k' : Key) (b : Bucket) :
    cellsAt (g.insert k b) k' = if k' = k then b.cells else g.cellsAt k' := by
  simp only [cellsAt, Lib.OrdMap.lookup_insert]
  split <;> rfl

theorem cellsAt_erase (g : Layout) (k k' : Key) :
    cellsAt (g.erase k) k' = if k' = k then [] else g.cellsAt k' := by
  simp only [cellsAt, Lib.OrdMap.lookup_erase]
  split <;> rfl

end Layout

/-! ## Linking at the tail -/

section LinkTail

variable {ready ins : Bool} {key otherKey : Key} {skb : SkBuff π} {contList : Addr}

/-- What `linkTail` leaves in memory when the bucket exists. -/
theorem linkTail_present (found : tree.lookup key = some contList) (hl : contList ∈ m.lists.live)
    (hh : m.head contList ∈ m.conts.live) (hz : m.prev (m.head contList) ∈ m.conts.live) :
    ∃ m', linkTail ready ins tree key otherKey skb m = .ok (tree, m') ∧
      m'.otherKey = Function.update m.otherKey m.conts.brk otherKey ∧
      m'.skb = Function.update m.skb m.conts.brk skb ∧
      m'.next = Function.update (Function.update m.next (m.prev (m.head contList)) m.conts.brk)
        m.conts.brk (m.head contList) ∧
      m'.prev = Function.update (Function.update m.prev m.conts.brk (m.prev (m.head contList)))
        (m.head contList) m.conts.brk ∧
      m'.head = m.head ∧ m'.conts = m.conts.alloc ∧ m'.lists = m.lists ∧ m'.freed = m.freed := by
  simp [-bind_pure_comp, linkTail, found, run_bind, getHead, getPrev, setPrev, setNext, setOtherKey, setSkb,
    allocContainer, onContainer, onContList, hl, hh, hz, Lib.Pool.alloc]

/-- What `linkTail` leaves in memory when there is no bucket. -/
theorem linkTail_absent (absent : tree.lookup key = none) :
    ∃ m', linkTail true ins tree key otherKey skb m =
        .ok (if ins then tree.insert key m.lists.brk else tree, m') ∧
      m'.otherKey = Function.update m.otherKey m.conts.brk otherKey ∧
      m'.skb = Function.update m.skb m.conts.brk skb ∧
      m'.next = Function.update m.next m.conts.brk m.conts.brk ∧
      m'.prev = Function.update m.prev m.conts.brk m.conts.brk ∧
      m'.head = Function.update m.head m.lists.brk m.conts.brk ∧
      m'.conts = m.conts.alloc ∧ m'.lists = m.lists.alloc ∧ m'.freed = m.freed := by
  simp [-bind_pure_comp, linkTail, absent, run_bind, setHead, setPrev, setNext, setOtherKey, setSkb,
    allocContainer, allocContList, onContainer, onContList, Lib.Pool.alloc, btreeInsert]

/-- Without `btree_init` there is no node pool. -/
theorem linkTail_unready (absent : tree.lookup key = none) :
    linkTail false ins tree key otherKey skb m = .error .noNodePool := by
  simp [-bind_pure_comp, linkTail, absent, run_bind, setHead, setPrev, setNext,
    allocContainer, allocContList, onContainer, onContList, Lib.Pool.alloc, btreeInsert]

/-- A bucket that exists: the new container becomes its last one. -/
theorem linkTail_push {x : Item π} {b : Bucket} (repr : TreeRepr m tree g l) (own : Owned m g F G)
    (found : g.lookup x.key = some b) :
    ∃ m' g', linkTail ready ins tree x.key x.otherKey x.skb m = .ok (tree, m') ∧
      TreeRepr m' tree g' (l ++ [x]) ∧ Owned m' g' F G ∧ Frame m m' F G ∧ m'.freed = m.freed ∧
      Pushed g.cellsAt g'.cellsAt x.key m.conts.brk := by
  obtain ⟨key, otherKey, skb⟩ := x
  change g.lookup key = some b at found
  have bucket := repr.rings key b found
  obtain ⟨rest, cells⟩ := bucket.cells_eq
  have ring := bucket.ring
  rw [cells] at ring
  have tail : (m.head b.list :: rest).getLast? = some (m.prev (m.head b.list)) := by
    rw [ring.prev_head, List.getLast?_cons, List.getLastD_eq_getLast?]
  have tailCell : m.prev (m.head b.list) ∈ b.cells := by
    rw [cells]
    exact List.mem_of_getLast? tail
  have headCell : m.head b.list ∈ b.cells := by
    rw [cells]
    exact List.mem_cons_self
  obtain ⟨conts, lists⟩ := own.focus found
  have inside : ∀ a ∈ b.cells, a ≠ m.conts.brk := by
    rintro a ha rfl
    exact conts.fresh (Multiset.mem_add.2 (.inl ha))
  have outside : ∀ a ∈ Layout.cells (g.erase key) + F, a ∉ b.cells ∧ a ≠ m.conts.brk := by
    intro a ha
    exact ⟨fun hb => conts.disjoint (Multiset.mem_coe.2 hb) ha,
      fun same => conts.fresh (Multiset.mem_add.2 (.inr (same ▸ ha)))⟩
  obtain ⟨m', run, hother, hskb, hnext, hprev, hhead, hconts, hlists, hfreed⟩ :
      ∃ m', linkTail ready ins tree key otherKey skb m = .ok (tree, m') ∧ _ :=
    linkTail_present (by rw [repr.lookup, found]; rfl)
      (lists.mem_live (Multiset.mem_cons_self _ _))
      (conts.mem_live (Multiset.mem_add.2 (.inl headCell))) (conts.mem_live (Multiset.mem_add.2 (.inl tailCell)))
  have frame : Frame m m' (Layout.cells (g.erase key) + F) (Layout.heads (g.erase key) + G) := by
    refine ⟨?_, ?_, ?_, ?_, fun _ _ => by rw [hhead]⟩ <;> intro a ha <;> obtain ⟨apart, old⟩ := outside a ha
    · rw [hnext, Function.update_of_ne old, Function.update_of_ne (ne_of_mem_of_not_mem tailCell apart).symm]
    · rw [hprev, Function.update_of_ne (ne_of_mem_of_not_mem headCell apart).symm, Function.update_of_ne old]
    · rw [hskb, Function.update_of_ne old]
    · rw [hother, Function.update_of_ne old]
  refine ⟨m', g.insert key ⟨b.list, b.cells ++ [m.conts.brk]⟩, run, ?_, ?_, ?_, hfreed, ?_⟩
  · rw [repr.tree, ← Layout.map_list_insert found (b.cells ++ [m.conts.brk])]
    refine repr.insert
      (frame.mono (fun a ha => Multiset.mem_add.2 (.inl ha)) (fun a ha => Multiset.mem_add.2 (.inl ha))) ?_ ?_ ?_
    · refine ⟨by simp [cells, hhead], ?_⟩
      rw [cells]
      refine ring.push (fun h => inside _ (cells ▸ h) rfl) tail ?_ ?_ ?_ ?_ ?_ ?_
      · rw [hnext, Function.update_of_ne (inside _ tailCell), Function.update_self]
      · rw [hnext, Function.update_self]
      · rw [hprev, Function.update_of_ne (inside _ headCell).symm, Function.update_self]
      · rw [hprev, Function.update_self]
      · intro a ha other
        rw [hnext, Function.update_of_ne (inside a (cells ▸ ha)), Function.update_of_ne other]
      · intro a ha other
        rw [hprev, Function.update_of_ne other, Function.update_of_ne (inside a (cells ▸ ha))]
    · rw [Index.bucket_append, repr.bucket_eq found, List.map_append]
      congr 1
      · refine List.map_congr_left (fun a ha => ?_)
        simp only [Mem.item, hother, hskb, Function.update_of_ne (inside a ha)]
      · simp [Mem.item, hother, hskb]
    · intro k other
      rw [Index.bucket_append, if_neg (fun h => other h.symm), List.append_nil]
  · refine Owned.insert ?_ (hlists ▸ lists)
    have grown := hconts ▸ conts.alloc
    have count : (m.conts.brk ::ₘ ((b.cells : Multiset Addr) + (Layout.cells (g.erase key) + F))) =
        ((b.cells ++ [m.conts.brk] : List Addr) : Multiset Addr) + (Layout.cells (g.erase key) + F) := by
      rw [← Multiset.coe_add, Multiset.coe_singleton, ← Multiset.singleton_add]
      abel
    rwa [count] at grown
  · exact frame.mono (fun a ha => Multiset.mem_add.2 (.inr ha)) (fun a ha => Multiset.mem_add.2 (.inr ha))
  · intro k
    rw [Layout.cellsAt_insert, Layout.cellsAt_of_lookup found]

/-- No bucket: a ring of one under a new list head, unless the tree has no memory
for it. Then both new cells are lost and the tree is as before. -/
theorem linkTail_new {x : Item π} (repr : TreeRepr m tree g l) (own : Owned m g F G)
    (absent : g.lookup x.key = none) :
    ∃ tree' m' g' C L, linkTail true ins tree x.key x.otherKey x.skb m = .ok (tree', m') ∧
      TreeRepr m' tree' g' (if ins then l ++ [x] else l) ∧ Owned m' g' (C + F) (L + G) ∧ Frame m m' F G ∧
      m'.freed = m.freed ∧
      (ins = true ∧ Pushed g.cellsAt g'.cellsAt x.key m.conts.brk ∧ C = 0 ∧ L = 0 ∨ ins = false ∧ g' = g) := by
  obtain ⟨key, otherKey, skb⟩ := x
  change g.lookup key = none at absent
  have old : ∀ a ∈ g.cells + F, a ≠ m.conts.brk := by
    rintro a ha rfl
    exact own.conts.fresh ha
  have oldList : ∀ a ∈ g.heads + G, a ≠ m.lists.brk := by
    rintro a ha rfl
    exact own.lists.fresh ha
  obtain ⟨m', run, hother, hskb, hnext, hprev, hhead, hconts, hlists, hfreed⟩ :
      ∃ m', linkTail true ins tree key otherKey skb m = _ ∧ _ :=
    linkTail_absent (by rw [repr.lookup, absent]; rfl)
  have frame : Frame m m' (g.cells + F) (g.heads + G) := by
    refine ⟨?_, ?_, ?_, ?_, ?_⟩ <;> intro a ha
    · rw [hnext, Function.update_of_ne (old a ha)]
    · rw [hprev, Function.update_of_ne (old a ha)]
    · rw [hskb, Function.update_of_ne (old a ha)]
    · rw [hother, Function.update_of_ne (old a ha)]
    · rw [hhead, Function.update_of_ne (oldList a ha)]
  have inTree := frame.mono (fun a ha => Multiset.mem_add.2 (.inl ha)) (fun a ha => Multiset.mem_add.2 (.inl ha))
  have inFrame := frame.mono (fun a ha => Multiset.mem_add.2 (.inr ha)) (fun a ha => Multiset.mem_add.2 (.inr ha))
  have conts := hconts ▸ own.conts.alloc
  have lists := hlists ▸ own.lists.alloc
  cases ins with
  | false =>
    refine ⟨tree, m', g, {m.conts.brk}, {m.lists.brk}, run, ?_, ⟨?_, ?_⟩, inFrame, hfreed, .inr ⟨rfl, rfl⟩⟩
    · exact repr.frame inTree (fun a ha => ha) (fun a ha => ha)
    · rwa [add_left_comm, Multiset.singleton_add]
    · rwa [add_left_comm, Multiset.singleton_add]
  | true =>
    have whole : g.erase key = g := Lib.OrdMap.erase_of_lookup_none absent
    refine ⟨_, m', g.insert key ⟨m.lists.brk, [m.conts.brk]⟩, 0, 0, run, ?_, ?_, inFrame, hfreed,
      .inl ⟨rfl, ?_, rfl, rfl⟩⟩
    · rw [if_pos rfl, repr.tree, ← Lib.OrdMap.map_insert Bucket.list g key ⟨m.lists.brk, [m.conts.brk]⟩]
      refine repr.insert (whole.symm ▸ inTree) ⟨?_, ?_⟩ ?_ ?_
      · rw [hhead, Function.update_self]
        rfl
      · apply Lib.Cyclic.single
        · rw [hnext, Function.update_self]
        · rw [hprev, Function.update_self]
      · rw [if_pos rfl, Index.bucket_append, repr.lookup_eq_none_iff.1 absent]
        simp [Mem.item, hother, hskb]
      · intro k other
        rw [if_pos rfl, Index.bucket_append, if_neg (fun h => other h.symm), List.append_nil]
    · refine Owned.insert ?_ ?_
      · rwa [whole, zero_add, Multiset.coe_singleton, Multiset.singleton_add]
      · rwa [whole, zero_add]
    · intro k
      rw [Layout.cellsAt_insert, Layout.cellsAt_of_none absent]
      rfl

/-- The specification of `linkTail`. The cells `C` and `L` are lost when the tree has
no memory for the new bucket, and only then. -/
theorem linkTail_spec {x : Item π} (repr : TreeRepr m tree g l) (own : Owned m g F G)
    (h : Index.add ready ins l x = .ok l') :
    ∃ tree' m' g' C L, linkTail ready ins tree x.key x.otherKey x.skb m = .ok (tree', m') ∧
      TreeRepr m' tree' g' l' ∧ Owned m' g' (C + F) (L + G) ∧ Frame m m' F G ∧ m'.freed = m.freed ∧
      (l' = l ++ [x] ∧ Pushed g.cellsAt g'.cellsAt x.key m.conts.brk ∧ C = 0 ∧ L = 0 ∨ l' = l ∧ g' = g ∧ ins = false) := by
  cases found : g.lookup x.key with
  | some b =>
    have present : Index.hasKey l x.key = true := by
      cases has : Index.hasKey l x.key with
      | true => rfl
      | false =>
        rw [Index.hasKey_eq_false_iff, ← repr.lookup_eq_none_iff, found] at has
        cases has
    simp only [Index.add, present, if_true, Except.ok.injEq] at h
    subst h
    obtain ⟨m', g', run, after, owned, frame, freed, pushed⟩ := linkTail_push repr own found
    exact ⟨tree, m', g', 0, 0, run, after, by simpa only [zero_add] using owned, frame, freed,
      .inl ⟨rfl, pushed, rfl, rfl⟩⟩
  | none =>
    have missing : Index.hasKey l x.key = false :=
      Index.hasKey_eq_false_iff.2 (repr.lookup_eq_none_iff.1 found)
    cases ready with
    | false => simp [Index.add, missing] at h
    | true =>
      simp only [Index.add, missing, Bool.false_eq_true, if_false, Bool.true_eq_false, Except.ok.injEq] at h
      subst h
      obtain ⟨tree', m', g', C, L, run, after, owned, frame, freed, outcome⟩ := linkTail_new repr own found
      refine ⟨tree', m', g', C, L, run, after, owned, frame, freed, ?_⟩
      rcases outcome with ⟨rfl, pushed, hC, hL⟩ | ⟨rfl, same⟩
      · exact .inl ⟨rfl, pushed, hC, hL⟩
      · exact .inr ⟨rfl, same, rfl⟩

/-- `linkTail` faults where the list does. -/
theorem linkTail_fault {x : Item π} {e : Fault} (repr : TreeRepr m tree g l)
    (h : Index.add ready ins l x = .error e) :
    linkTail ready ins tree x.key x.otherKey x.skb m = .error e := by
  unfold Index.add at h
  split at h
  · cases h
  · next missing =>
    split at h
    · next unready =>
      cases h
      have absent := repr.lookup_eq_none_iff.2 (Index.hasKey_eq_false_iff.1 (by simpa using missing))
      rw [unready]
      exact linkTail_unready (by rw [repr.lookup, absent]; rfl)
    · cases h

end LinkTail

/-! ## Taking a container out of its ring -/

section Remove

variable {k : Key} {b : Bucket} {front back : List Addr} {c first : Addr}

/-- Joining the neighbours of `c`, in a ring of at least two. -/
theorem removeCell (repr : TreeRepr m tree g l) (own : Owned m g F G) (found : g.lookup k = some b)
    (split : b.cells = front ++ c :: back) (start : (front ++ back).head? = some first)
    (hnext : m'.next = Function.update m.next (m.prev c) (m.next c))
    (hprev : m'.prev = Function.update m.prev (m.next c) (m.prev c))
    (hhead : m'.head = Function.update m.head b.list first)
    (hother : m'.otherKey = m.otherKey) (hskb : m'.skb = m.skb)
    (hconts : m'.conts = m.conts) (hlists : m'.lists = m.lists)
    (items : (front ++ back).map (m.item k) = Index.bucket l' k)
    (others : ∀ k', k' ≠ k → Index.bucket l' k' = Index.bucket l k') :
    TreeRepr m' tree (g.insert k ⟨b.list, front ++ back⟩) l' ∧
      Owned m' (g.insert k ⟨b.list, front ++ back⟩) (c ::ₘ F) G ∧ Frame m m' F G ∧
      Removed g.cellsAt (Layout.cellsAt (g.insert k ⟨b.list, front ++ back⟩)) k front c back := by
  have ring := (repr.rings k b found).ring
  rw [split] at ring
  obtain ⟨conts, lists⟩ := own.focus found
  have more : back ++ front ≠ [] := by
    intro none
    simp only [List.append_eq_nil_iff] at none
    simp [none] at start
  have neighbour : m.next c ∈ b.cells ∧ m.prev c ∈ b.cells := by
    rw [split]
    exact ring.links_mem (by simp)
  have outside : ∀ a ∈ Layout.cells (g.erase k) + F, a ∉ b.cells := by
    intro a ha hb
    exact conts.disjoint (Multiset.mem_coe.2 hb) ha
  have outsideList : ∀ a ∈ Layout.heads (g.erase k) + G, a ≠ b.list := by
    rintro a ha rfl
    exact (Multiset.nodup_cons.1 lists.nodup).1 ha
  have frame : Frame m m' (Layout.cells (g.erase k) + F) (Layout.heads (g.erase k) + G) := by
    refine ⟨?_, ?_, fun _ _ => by rw [hskb], fun _ _ => by rw [hother], ?_⟩ <;> intro a ha
    · rw [hnext, Function.update_of_ne (ne_of_mem_of_not_mem neighbour.2 (outside a ha)).symm]
    · rw [hprev, Function.update_of_ne (ne_of_mem_of_not_mem neighbour.1 (outside a ha)).symm]
    · rw [hhead, Function.update_of_ne (outsideList a ha)]
  have item : m'.item k = m.item k := by
    funext a
    simp only [Mem.item, hskb, hother]
  refine ⟨?_, ?_, frame.mono (fun a ha => Multiset.mem_add.2 (.inr ha)) (fun a ha => Multiset.mem_add.2 (.inr ha)),
    ?_, ?_⟩
  · rw [repr.tree, ← Layout.map_list_insert found (front ++ back)]
    refine repr.insert
      (frame.mono (fun a ha => Multiset.mem_add.2 (.inl ha)) (fun a ha => Multiset.mem_add.2 (.inl ha)))
      ⟨?_, ?_⟩ (by rw [item]; exact items) others
    · rw [hhead, Function.update_self]
      exact start
    · refine ring.remove more ?_ ?_ ?_ ?_
      · rw [hnext, Function.update_self]
      · rw [hprev, Function.update_self]
      · intro a _ other
        rw [hnext, Function.update_of_ne other]
      · intro a _ other
        rw [hprev, Function.update_of_ne other]
  · refine Owned.insert ?_ (hlists ▸ lists)
    have count : (b.cells : Multiset Addr) + (Layout.cells (g.erase k) + F) =
        ((front ++ back : List Addr) : Multiset Addr) + (Layout.cells (g.erase k) + c ::ₘ F) := by
      rw [split, ← Multiset.coe_add, ← Multiset.coe_add, ← Multiset.cons_coe, ← Multiset.singleton_add c,
        ← Multiset.singleton_add c]
      abel
    rw [hconts, ← count]
    exact conts
  · rw [Layout.cellsAt_of_lookup found, split]
  · intro k'
    rw [Layout.cellsAt_insert]

/-- Taking the only container: the bucket goes, and its list head with it. -/
theorem removeLast (repr : TreeRepr m tree g l) (own : Owned m g F G) (found : g.lookup k = some b)
    (split : b.cells = [c]) (items : Index.bucket l' k = [])
    (others : ∀ k', k' ≠ k → Index.bucket l' k' = Index.bucket l k') :
    TreeRepr { m with lists := m.lists.retire b.list } (tree.erase k) (g.erase k) l' ∧
      Owned { m with lists := m.lists.retire b.list } (g.erase k) (c ::ₘ F) G ∧
      Removed g.cellsAt (Layout.cellsAt (g.erase k)) k [] c [] := by
  obtain ⟨conts, lists⟩ := own.focus found
  refine ⟨?_, ⟨?_, lists.retire⟩, ?_, ?_⟩
  · rw [repr.tree, ← Lib.OrdMap.map_erase]
    exact repr.erase (Frame.of_eq rfl rfl rfl rfl rfl) items others
  · rw [split, Multiset.coe_singleton, Multiset.singleton_add] at conts
    rwa [← Multiset.add_cons] at conts
  · rw [Layout.cellsAt_of_lookup found, split]
    rfl
  · intro k'
    rw [Layout.cellsAt_erase]
    rfl

end Remove

/-! ## Taking the first container of the greatest key -/

section UnlinkHead

variable {key : Key} {contList : Addr}

theorem unlinkHead_alone (top : tree.last = some (key, contList)) (hl : contList ∈ m.lists.live)
    (hh : m.head contList ∈ m.conts.live) (alone : m.next (m.head contList) = m.head contList) :
    unlinkHead tree m = .ok (some ⟨m.head contList, m.otherKey (m.head contList), m.skb (m.head contList),
      tree.erase key⟩, { m with lists := m.lists.retire contList }) := by
  simp [-bind_pure_comp, unlinkHead, top, run_bind, getHead, getOtherKey, getSkb, getNext, freeContList,
    onContainer, onContList, hl, hh, alone]

theorem unlinkHead_more (top : tree.last = some (key, contList)) (hl : contList ∈ m.lists.live)
    (hh : m.head contList ∈ m.conts.live) (hn : m.next (m.head contList) ∈ m.conts.live)
    (hp : m.prev (m.head contList) ∈ m.conts.live) (more : m.next (m.head contList) ≠ m.head contList) :
    ∃ m', unlinkHead tree m = .ok (some ⟨m.head contList, m.otherKey (m.head contList),
        m.skb (m.head contList), tree⟩, m') ∧
      m'.next = Function.update m.next (m.prev (m.head contList)) (m.next (m.head contList)) ∧
      m'.prev = Function.update m.prev (m.next (m.head contList)) (m.prev (m.head contList)) ∧
      m'.head = Function.update m.head contList (m.next (m.head contList)) ∧
      m'.otherKey = m.otherKey ∧ m'.skb = m.skb ∧ m'.conts = m.conts ∧ m'.lists = m.lists ∧
      m'.freed = m.freed := by
  simp [-bind_pure_comp, unlinkHead, top, run_bind, getHead, getOtherKey, getSkb, getNext, getPrev, setPrev,
    setNext, setHead, onContainer, onContList, hl, hh, hn, hp, more]

/-- The last entry of the tree is the bucket of the chosen item. -/
theorem last_of_argmax {e : Item π} (repr : TreeRepr m tree g l) (best : l.argmax Item.key = some e) :
    ∃ b rest, g.lookup e.key = some b ∧ tree.last = some (e.key, b.list) ∧ Index.bucket l e.key = e :: rest := by
  obtain ⟨rest, bucket⟩ := Lib.filter_argmax best
  change Index.bucket l e.key = e :: rest at bucket
  cases found : g.lookup e.key with
  | none =>
    rw [repr.lookup_eq_none_iff.1 found] at bucket
    cases bucket
  | some b =>
    refine ⟨b, rest, rfl, ?_, bucket⟩
    rw [Lib.OrdMap.last_eq_some_iff, repr.lookup, found]
    refine ⟨rfl, ?_⟩
    intro k l' stored
    rw [repr.lookup] at stored
    obtain ⟨b', found', -⟩ := Option.map_eq_some_iff.1 stored
    have full : Index.bucket l k ≠ [] := by
      rw [ne_eq, ← repr.lookup_eq_none_iff, found']
      simp
    obtain ⟨y, hy⟩ := List.exists_mem_of_ne_nil _ full
    have member := List.mem_filter.1 hy
    have below := List.le_of_mem_argmax member.1 best
    rwa [of_decide_eq_true member.2] at below

/-- An empty tree has no head to take. -/
theorem unlinkHead_none (repr : TreeRepr m tree g l) (h : Index.takeMax l = none) :
    unlinkHead tree m = .ok (none, m) := by
  obtain rfl := Lib.takeMax_eq_none_iff.1 h
  have empty : tree.last = none := by
    rw [Lib.OrdMap.last_eq_none_iff]
    intro k
    rw [repr.lookup, repr.lookup_eq_none_iff.2 rfl]
    rfl
  simp [unlinkHead, empty]

/-- The specification of `unlinkHead`. -/
theorem unlinkHead_spec {e : Item π} (repr : TreeRepr m tree g l) (own : Owned m g F G)
    (h : Index.takeMax l = some (e, l')) :
    ∃ c tree' m' g' back, unlinkHead tree m = .ok (some ⟨c, e.otherKey, e.skb, tree'⟩, m') ∧
      TreeRepr m' tree' g' l' ∧ Owned m' g' (c ::ₘ F) G ∧ Frame m m' F G ∧ m'.freed = m.freed ∧
      Removed g.cellsAt g'.cellsAt e.key [] c back ∧ m.skb c = e.skb := by
  obtain ⟨e', best, taken⟩ := Option.map_eq_some_iff.1 h
  cases taken
  obtain ⟨b, rest, found, top, bucket⟩ := last_of_argmax repr best
  have ringAt := repr.rings e.key b found
  obtain ⟨back, cells⟩ := ringAt.cells_eq
  have ring := ringAt.ring
  rw [cells] at ring
  obtain ⟨conts, lists⟩ := own.focus found
  have live : ∀ a ∈ b.cells, a ∈ m.conts.live :=
    fun a ha => conts.mem_live (Multiset.mem_add.2 (.inl ha))
  have hl := lists.mem_live (Multiset.mem_cons_self _ _)
  have hh := live (m.head b.list) (by simp [cells])
  have contents := repr.bucket_eq found
  rw [bucket, cells, List.map_cons, List.cons.injEq] at contents
  obtain ⟨first, later⟩ := contents
  have others : ∀ k', k' ≠ e.key → Index.bucket (l.eraseP (fun x => x.key = e.key)) k' = Index.bucket l k' :=
    fun k' other => Index.bucket_takeMax_other l other
  have kept : Index.bucket (l.eraseP (fun x => x.key = e.key)) e.key = back.map (m.item e.key) := by
    rw [← later]
    have erased := Lib.filter_erase_argmax (f := Item.key) l e
    change Index.bucket _ _ = List.tail (Index.bucket _ _) at erased
    rw [erased, bucket]
    rfl
  have otherKey : e.otherKey = m.otherKey (m.head b.list) := congrArg Item.otherKey first
  have skb : e.skb = m.skb (m.head b.list) := congrArg Item.skb first
  rw [otherKey]
  cases back with
  | nil =>
    obtain ⟨after, owned, removed⟩ := removeLast repr own found cells kept others
    exact ⟨_, _, _, _, [], skb ▸ unlinkHead_alone top hl hh ring.next_head, after, owned,
      Frame.of_eq rfl rfl rfl rfl rfl, rfl, removed, skb.symm⟩
  | cons a back =>
    have hn : m.next (m.head b.list) = a := ring.next_head
    have hp := (ringAt.ring.links_mem (a := m.head b.list) (by simp [cells])).2
    have more : m.next (m.head b.list) ≠ m.head b.list := by
      rw [hn]
      rintro rfl
      exact (List.nodup_cons.1 ring.nodup).1 (by simp)
    obtain ⟨m', run, hnext, hprev, hhead, hother, hskb, hconts, hlists, hfreed⟩ :=
      unlinkHead_more top hl hh (live _ (by rw [hn, cells]; simp)) (live _ hp) more
    obtain ⟨after, owned, frame, removed⟩ := removeCell repr own found
      (show b.cells = [] ++ m.head b.list :: (a :: back) from cells) (by rw [hn]; rfl) hnext hprev hhead hother hskb hconts hlists kept.symm others
    exact ⟨_, _, m', _, _, skb ▸ run, after, owned, frame, hfreed, removed, skb.symm⟩

end UnlinkHead

/-! ## Searching a bucket -/

section UnlinkSkb

variable {key : Key} {skb : SkBuff π} {b : Bucket} {contList c : Addr}

/-- One round of the search. -/
theorem searchSkb_succ {rounds : Nat} (hl : contList ∈ m.lists.live) (hc : c ∈ m.conts.live) :
    searchSkb contList skb (rounds + 1) c m =
      if (m.skb c).addr = skb.addr then .ok (some c, m)
      else if m.next c = m.head contList then .ok (none, m)
      else searchSkb contList skb rounds (m.next c) m := by
  by_cases same : (m.skb c).addr = skb.addr
  · simp [searchSkb, run_bind, getSkb, onContainer, hc, same]
  · simp only [searchSkb, run_bind, getSkb, getNext, getHead, onContainer, onContList, hc, hl, same, if_true, if_false]
    split <;> rfl

/-- The search looks at the ring from its head and stops. -/
theorem searchSkb_spec (bucket : RingAt m b) (hl : b.list ∈ m.lists.live) (live : ∀ a ∈ b.cells, a ∈ m.conts.live)
    {rounds : Nat} (enough : b.cells.length ≤ rounds) :
    searchSkb b.list skb rounds (m.head b.list) m =
      .ok (b.cells.find? (fun a => (m.skb a).addr = skb.addr), m) := by
  obtain ⟨rest, cells⟩ := bucket.cells_eq
  have ring := bucket.ring
  rw [cells] at ring live enough ⊢
  rw [ring.loop_eq_find (F := fun rounds c => searchSkb b.list skb rounds c m)
    (fun n c hc => searchSkb_succ hl (live c hc)) enough]
  cases (m.head b.list :: rest).find? _ <;> rfl

theorem unlinkSkb_missing (absent : tree.lookup key = none) : unlinkSkb tree key skb m = .ok (.noList, m) := by
  simp [unlinkSkb, absent]

theorem unlinkSkb_unfound (stored : tree.lookup key = some contList) (hl : contList ∈ m.lists.live)
    (search : searchSkb contList skb m.conts.brk (m.head contList) m = .ok (none, m)) :
    unlinkSkb tree key skb m = .ok (.noContainer, m) := by
  simp [-bind_pure_comp, unlinkSkb, stored, run_bind, getHead, onContList, hl, search]

theorem unlinkSkb_alone (stored : tree.lookup key = some contList) (hl : contList ∈ m.lists.live)
    (search : searchSkb contList skb m.conts.brk (m.head contList) m = .ok (some c, m))
    (hc : c ∈ m.conts.live) (alone : m.next c = c) :
    unlinkSkb tree key skb m = .ok (.taken c (tree.erase key), { m with lists := m.lists.retire contList }) := by
  simp [-bind_pure_comp, unlinkSkb, stored, run_bind, getHead, getNext, freeContList, onContainer, onContList, hl,
    hc, search, alone]

theorem unlinkSkb_more (stored : tree.lookup key = some contList) (hl : contList ∈ m.lists.live)
    (search : searchSkb contList skb m.conts.brk (m.head contList) m = .ok (some c, m))
    (hc : c ∈ m.conts.live) (hn : m.next c ∈ m.conts.live) (hp : m.prev c ∈ m.conts.live)
    (more : m.next c ≠ c) (apart : m.prev c ≠ c) :
    ∃ m', unlinkSkb tree key skb m = .ok (.taken c tree, m') ∧
      m'.next = Function.update m.next (m.prev c) (m.next c) ∧
      m'.prev = Function.update m.prev (m.next c) (m.prev c) ∧
      m'.head = Function.update m.head contList (if c = m.head contList then m.next c else m.head contList) ∧
      m'.otherKey = m.otherKey ∧ m'.skb = m.skb ∧ m'.conts = m.conts ∧ m'.lists = m.lists ∧
      m'.freed = m.freed := by
  by_cases first : c = m.head contList
  · subst first
    simp [-bind_pure_comp, unlinkSkb, stored, run_bind, getHead, getNext, getPrev, setNext, setPrev, setHead,
      onContainer, onContList, hl, hc, hn, hp, search, more, Function.update_of_ne more.symm,
      Function.update_of_ne apart.symm]
  · simp [-bind_pure_comp, unlinkSkb, stored, run_bind, getHead, getNext, getPrev, setNext, setPrev,
      onContainer, onContList, hl, hc, hn, hp, search, more, Function.update_of_ne more.symm, first]

/-- The loop as `unlinkSkb` enters it, with its bound on the number of rounds. -/
theorem search_bucket (skb : SkBuff π) (repr : TreeRepr m tree g l) (own : Owned m g F G)
    (found : g.lookup key = some b) :
    searchSkb b.list skb m.conts.brk (m.head b.list) m =
      .ok (b.cells.find? (fun a => (m.skb a).addr = skb.addr), m) := by
  have bucket := repr.rings key b found
  obtain ⟨conts, lists⟩ := own.focus found
  exact searchSkb_spec bucket (lists.mem_live (Multiset.mem_cons_self _ _))
    (fun a ha => conts.mem_live (Multiset.mem_add.2 (.inl ha)))
    (conts.length_le bucket.ring.nodup (fun a ha => Multiset.mem_add.2 (.inl ha)))

theorem unlinkSkb_noList (skb : SkBuff π) (repr : TreeRepr m tree g l) (empty : Index.bucket l key = []) :
    unlinkSkb tree key skb m = .ok (.noList, m) :=
  unlinkSkb_missing (by rw [repr.lookup, repr.lookup_eq_none_iff.2 empty]; rfl)

theorem unlinkSkb_noContainer (repr : TreeRepr m tree g l) (own : Owned m g F G)
    (some : Index.bucket l key ≠ []) (none : ∀ x ∈ Index.bucket l key, x.skb.addr ≠ skb.addr) :
    unlinkSkb tree key skb m = .ok (.noContainer, m) := by
  cases found : g.lookup key with
  | none => exact absurd (repr.lookup_eq_none_iff.1 found) some
  | some b =>
    have lists := (own.focus found).2
    refine unlinkSkb_unfound (by rw [repr.lookup, found]; rfl) (lists.mem_live (Multiset.mem_cons_self _ _)) ?_
    rw [search_bucket skb repr own found]
    have unseen : b.cells.find? (fun a => (m.skb a).addr = skb.addr) = .none := by
      rw [List.find?_eq_none]
      intro a ha
      have apart := none (m.item key a) (by rw [repr.bucket_eq found]; exact List.mem_map_of_mem ha)
      simpa [Mem.item] using apart
    rw [unseen]

/-- The specification of `unlinkSkb`: the first matching container goes. -/
theorem unlinkSkb_spec (repr : TreeRepr m tree g l) (own : Owned m g F G)
    (hit : ∃ x ∈ Index.bucket l key, x.skb.addr = skb.addr) :
    ∃ c tree' m' g' front back, unlinkSkb tree key skb m = .ok (.taken c tree', m') ∧
      TreeRepr m' tree' g' (l.eraseP (Index.isAt key skb)) ∧ Owned m' g' (c ::ₘ F) G ∧ Frame m m' F G ∧
      m'.freed = m.freed ∧ Removed g.cellsAt g'.cellsAt key front c back ∧ (m.skb c).addr = skb.addr ∧
      ∀ a ∈ front, (m.skb a).addr ≠ skb.addr := by
  obtain ⟨x, hx, same⟩ := hit
  cases found : g.lookup key with
  | none =>
    rw [repr.lookup_eq_none_iff.1 found] at hx
    cases hx
  | some b =>
    have bucket := repr.rings key b found
    have contents := repr.bucket_eq found
    obtain ⟨conts, lists⟩ := own.focus found
    have live : ∀ a ∈ b.cells, a ∈ m.conts.live :=
      fun a ha => conts.mem_live (Multiset.mem_add.2 (.inl ha))
    have hl := lists.mem_live (Multiset.mem_cons_self _ _)
    have stored : tree.lookup key = some b.list := by rw [repr.lookup, found]; rfl
    have search := search_bucket skb repr own found
    -- the bucket has a matching item, so the loop finds a cell
    obtain ⟨c, hc⟩ : ∃ c, b.cells.find? (fun a => (m.skb a).addr = skb.addr) = some c := by
      rw [contents] at hx
      obtain ⟨a, ha, rfl⟩ := List.mem_map.1 hx
      exact Option.isSome_iff_exists.1 (List.find?_isSome.2 ⟨a, ha, by simpa [Mem.item] using same⟩)
    rw [hc] at search
    obtain ⟨match', front, back, split, earlier⟩ := List.find?_eq_some_iff_append.1 hc
    have matched : (m.skb c).addr = skb.addr := by simpa using match'
    have unmatched : ∀ a ∈ front, (m.skb a).addr ≠ skb.addr := fun a ha => by simpa using earlier a ha
    have items : Index.bucket (l.eraseP (Index.isAt key skb)) key = (front ++ back).map (m.item key) := by
      rw [Index.bucket_takeSkb_same, contents, split, List.map_append, List.map_cons, List.map_append,
        List.eraseP_append_right _ (by simpa [Mem.item] using unmatched),
        List.eraseP_cons_of_pos (by simp [Mem.item, matched])]
    have others : ∀ k', k' ≠ key → Index.bucket (l.eraseP (Index.isAt key skb)) k' = Index.bucket l k' :=
      fun k' other => Index.bucket_takeSkb_other l skb other
    have ring := bucket.ring
    have cell : c ∈ b.cells := by simp [split]
    rw [split] at ring
    by_cases more : back ++ front = []
    · obtain ⟨rfl, rfl⟩ := List.append_eq_nil_iff.1 more
      obtain ⟨after, owned, removed⟩ := removeLast repr own found split items others
      exact ⟨c, _, _, _, [], [], unlinkSkb_alone stored hl search (live c cell) (ring.next_eq_self_iff.2 more),
        after, owned, Frame.of_eq rfl rfl rfl rfl rfl, rfl, removed, matched, unmatched⟩
    · have hn : m.next c ≠ c := fun self => more (ring.next_eq_self_iff.1 self)
      have hp : m.prev c ≠ c := by
        rw [ring.prev_mid, List.getLastD_eq_getLast?, List.getLast?_eq_getLast_of_ne_nil more]
        intro self
        have member := List.getLast_mem more
        rw [Option.getD_some] at self
        rw [self] at member
        exact (List.nodup_cons.1 ring.rotate.nodup).1 member
      have links := bucket.ring.links_mem cell
      obtain ⟨m', run, hnext, hprev, hhead, hother, hskb, hconts, hlists, hfreed⟩ :=
        unlinkSkb_more stored hl search (live c cell) (live _ links.1) (live _ links.2) hn hp
      have start : (front ++ back).head? = some (if c = m.head b.list then m.next c else m.head b.list) := by
        have first := bucket.first
        rw [split] at first
        cases front with
        | nil =>
          simp only [List.nil_append, List.head?_cons, Option.some.injEq] at first
          rw [if_pos first, ring.next_mid]
          cases back with
          | nil => simp at more
          | cons a back => rfl
        | cons f front =>
          simp only [List.cons_append, List.head?_cons, Option.some.injEq] at first
          have apart : c ≠ m.head b.list := by
            rw [← first]
            rintro rfl
            exact (List.nodup_cons.1 ring.nodup).1 (by simp)
          rw [if_neg apart, ← first]
          rfl
      obtain ⟨after, owned, frame, removed⟩ := removeCell repr own found split start hnext hprev hhead hother
        hskb hconts hlists items.symm others
      exact ⟨c, tree, m', _, front, back, run, after, owned, frame, hfreed, removed, matched, unmatched⟩

end UnlinkSkb

end OpenQueue
