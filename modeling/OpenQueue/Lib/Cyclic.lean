import Mathlib

/-!
# Circular doubly linked lists

A ring is read through two link fields, given as functions `next` and `prev` on
cell addresses (one function per field, so a store to one field is visibly a frame
for the other). `Cyclic next prev l` says that following `next` from the first
cell of `l` visits `l` in order and comes back, and that `prev` undoes each of
these steps. The two pointer surgeries, `Cyclic.push` at the tail and
`Cyclic.remove` anywhere, ask only for the values of the four changed links and
agreement on the others; reading the ring from another cell is `Cyclic.rotate`, and a
loop around the ring is a fold over its cells.
-/

namespace Lib

variable {α : Type} {next prev next' prev' : α → α}

/-- A forward link together with its mirror. -/
def Linked (next prev : α → α) (a b : α) : Prop := next a = b ∧ prev b = a

/-- The cells `l`, in this order, are one circular doubly linked list. -/
structure Cyclic (next prev : α → α) (l : List α) : Prop where
  nodup : l.Nodup
  chain : (l ++ l.take 1).IsChain (Linked next prev)

/-- A linear run of links survives changes to `next` at its last cell and to
`prev` at its first: these are the two links that leave the run. -/
theorem isChain_open {l : List α} (nodup : l.Nodup) (chain : l.IsChain (Linked next prev))
    (forward : ∀ a ∈ l, some a ≠ l.getLast? → next' a = next a)
    (backward : ∀ a ∈ l, some a ≠ l.head? → prev' a = prev a) :
    l.IsChain (Linked next' prev') := by
  rw [List.isChain_iff_forall_rel_of_append_cons_cons] at chain ⊢
  intro a b front back split
  obtain ⟨fwd, bwd⟩ := chain split
  have hlast : some a ≠ l.getLast? := by
    subst split
    intro same
    have last : a ∈ (b :: back).getLast? := by
      simpa [List.getLast?_append] using same.symm
    have member := List.mem_of_getLast? last
    have distinct := (List.nodup_append.1 nodup).2.1
    exact (List.nodup_cons.1 distinct).1 member
  have hhead : some b ≠ l.head? := by
    subst split
    intro same
    cases front with
    | nil =>
      have equal : b = a := by simpa using same
      exact (List.nodup_cons.1 nodup).1 (by simp [equal])
    | cons first front =>
      have equal : b = first := by simpa using same
      exact (List.nodup_cons.1 nodup).1 (by simp [equal])
  have ha : a ∈ l := by simp [split]
  have hb : b ∈ l := by simp [split]
  exact ⟨by rw [forward a ha hlast, fwd], by rw [backward b hb hhead, bwd]⟩

namespace Cyclic

variable {l front back : List α} {a c h : α}

/-- The ring may be read from any of its cells. -/
theorem rotate (ring : Cyclic next prev (front ++ back)) : Cyclic next prev (back ++ front) := by
  refine ⟨(List.perm_append_comm.nodup_iff).1 ring.nodup, ?_⟩
  have chain := ring.chain
  cases front with
  | nil => simpa using chain
  | cons x front =>
    cases back with
    | nil => simpa using chain
    | cons y back =>
      simp only [List.cons_append, List.take_succ_cons, List.take_zero, List.append_assoc] at chain ⊢
      have halves := List.isChain_cons_split.1 chain
      exact List.isChain_cons_split.2 ⟨halves.2, halves.1⟩

/-- A ring depends on its own links only. -/
theorem congr (ring : Cyclic next prev l) (forward : ∀ a ∈ l, next' a = next a)
    (backward : ∀ a ∈ l, prev' a = prev a) : Cyclic next' prev' l := by
  refine ⟨ring.nodup, ring.chain.imp_of_mem_imp ?_⟩
  intro a b ha hb link
  have inside : ∀ x ∈ l ++ l.take 1, x ∈ l := by
    intro x hx
    rcases List.mem_append.1 hx with hx | hx
    · exact hx
    · exact List.mem_of_mem_take hx
  exact ⟨by rw [forward a (inside a ha), link.1], by rw [backward b (inside b hb), link.2]⟩

/-- The successor of the first cell. -/
theorem next_head (ring : Cyclic next prev (a :: l)) : next a = l.headD a := by
  have chain := ring.chain
  cases l with
  | nil =>
    have link : Linked next prev a a := by simpa using chain
    exact link.1
  | cons b l =>
    simp only [List.cons_append, List.isChain_cons_cons] at chain
    exact chain.1.1

/-- The predecessor of the first cell is the last one. -/
theorem prev_head (ring : Cyclic next prev (a :: l)) : prev a = l.getLastD a := by
  have chain := ring.chain
  rcases List.eq_nil_or_concat l with rfl | ⟨init, z, rfl⟩
  · have link : Linked next prev a a := by simpa using chain
    exact link.2
  · simp only [List.concat_eq_append, List.cons_append, List.append_assoc, List.take_succ_cons, List.take_zero,
      List.nil_append, List.isChain_cons_append_cons_cons] at chain
    simpa using chain.2.1.2

/-- The successor of a cell inside the ring. -/
theorem next_mid (ring : Cyclic next prev (front ++ a :: back)) :
    next a = (back ++ front).headD a := by
  have turned := ring.rotate
  rw [List.cons_append] at turned
  exact turned.next_head

/-- The predecessor of a cell inside the ring. -/
theorem prev_mid (ring : Cyclic next prev (front ++ a :: back)) :
    prev a = (back ++ front).getLastD a := by
  have turned := ring.rotate
  rw [List.cons_append] at turned
  exact turned.prev_head

/-- Both links stay inside the ring. -/
theorem links_mem (ring : Cyclic next prev l) (h : a ∈ l) : next a ∈ l ∧ prev a ∈ l := by
  obtain ⟨front, back, rfl⟩ := List.append_of_mem h
  rw [ring.next_mid, ring.prev_mid]
  have inside : ∀ x ∈ a :: (back ++ front), x ∈ front ++ a :: back := by
    intro x hx
    simp only [List.mem_cons, List.mem_append] at hx ⊢
    tauto
  refine ⟨inside _ ?_, inside _ ?_⟩
  · cases rest : back ++ front <;> simp
  · rw [List.getLastD_eq_getLast?]
    cases last : (back ++ front).getLast? with
    | none => exact List.mem_cons_self
    | some z => exact List.mem_cons_of_mem _ (List.mem_of_getLast? last)

/-- From the last cell `next` leads back to the first. -/
theorem next_last (ring : Cyclic next prev (h :: l)) (split : h :: l = front ++ [c]) : next c = h := by
  have turned := ring
  rw [split] at turned
  rw [turned.next_mid]
  cases front with
  | nil => exact (List.cons.inj split).1.symm
  | cons f front => exact (List.cons.inj split).1.symm

/-- From any other cell `next` leads to the following one, which is not the first. -/
theorem next_inner (ring : Cyclic next prev (h :: l)) (split : h :: l = front ++ c :: a :: back) :
    next c = a ∧ a ≠ h := by
  have turned := ring
  rw [split] at turned
  refine ⟨turned.next_mid, ?_⟩
  rintro rfl
  have later : a ∈ l := by
    cases front with
    | nil =>
      rw [(List.cons.inj split).2]
      exact List.mem_cons_self
    | cons f front =>
      rw [(List.cons.inj split).2]
      exact List.mem_append_right _ (List.mem_cons_of_mem _ List.mem_cons_self)
  exact (List.nodup_cons.1 ring.nodup).1 later

/-- A loop that goes once around the ring, from the first cell until it comes back,
folds its body over the cells. -/
theorem loop_eq_foldr [DecidableEq α] {β : Type} {F : Nat → α → β} {f : α → β → β} {z : β}
    (ring : Cyclic next prev (h :: l))
    (body : ∀ n, ∀ c ∈ h :: l, F (n + 1) c = f c (if next c = h then z else F n (next c))) {n : Nat}
    (enough : (h :: l).length ≤ n) : F n h = (h :: l).foldr f z := by
  suffices rest : ∀ back front c n, h :: l = front ++ c :: back → (c :: back).length ≤ n →
      F n c = (c :: back).foldr f z from rest l [] h n rfl enough
  intro back
  induction back with
  | nil =>
    intro front c n split enough
    obtain ⟨n, rfl⟩ := Nat.exists_eq_add_of_le' enough
    rw [List.length_singleton, body n c (by simp [split]), if_pos (ring.next_last split)]
    rfl
  | cons a back ih =>
    intro front c n split enough
    obtain ⟨n, rfl⟩ : ∃ m, n = m + 1 := ⟨n - 1, by simp at enough; omega⟩
    obtain ⟨step, inner⟩ := ring.next_inner split
    have rest := ih (front ++ [c]) a n (by rw [split]; simp) (by simp at enough ⊢; omega)
    rw [body n c (by simp [split]), step, if_neg inner, rest]
    rfl

/-- A loop that leaves the ring at the first cell with `P`. -/
theorem loop_eq_find [DecidableEq α] {β : Type} {F : Nat → α → β} {P : α → Prop} [DecidablePred P] {y : α → β}
    {z : β} (ring : Cyclic next prev (h :: l))
    (body : ∀ n, ∀ c ∈ h :: l, F (n + 1) c = if P c then y c else if next c = h then z else F n (next c)) {n : Nat}
    (enough : (h :: l).length ≤ n) : F n h = ((h :: l).find? P).elim z y := by
  rw [ring.loop_eq_foldr body enough]
  generalize h :: l = cells
  induction cells with
  | nil => rfl
  | cons a cells ih =>
    rw [List.foldr_cons, List.find?_cons, ih]
    by_cases found : P a <;> simp [found]

/-- A cell is its own successor exactly when it is alone. -/
theorem next_eq_self_iff (ring : Cyclic next prev (front ++ a :: back)) :
    next a = a ↔ back ++ front = [] := by
  have turned := ring.rotate
  rw [List.cons_append] at turned
  rw [turned.next_head]
  cases rest : back ++ front with
  | nil => simp
  | cons b others =>
    rw [rest] at turned
    have distinct : b ≠ a := by
      intro same
      exact (List.nodup_cons.1 turned.nodup).1 (by simp [same])
    simpa using distinct

/-- A cell linked to itself is a ring of one. -/
theorem single (forward : next a = a) (backward : prev a = a) : Cyclic next prev [a] :=
  ⟨List.nodup_singleton a, List.isChain_pair.2 ⟨forward, backward⟩⟩

/-- Closing a linear run into a ring. -/
theorem close {z : α} (nodup : l.Nodup) (chain : l.IsChain (Linked next prev))
    (first : l.head? = some h) (last : l.getLast? = some z) (link : Linked next prev z h) :
    Cyclic next prev l := by
  refine ⟨nodup, ?_⟩
  cases l with
  | nil => cases first
  | cons x l =>
    cases first
    simp only [List.take_succ_cons, List.take_zero]
    refine List.isChain_append.2 ⟨chain, List.isChain_singleton _, ?_⟩
    intro y hy w hw
    rw [last] at hy
    cases hy
    cases hw
    exact link

/-- The linear run inside a ring. -/
theorem run (ring : Cyclic next prev l) : l.IsChain (Linked next prev) :=
  (List.isChain_append.1 ring.chain).1

/-- Linking a new cell between the last cell and the first: a push at the tail. -/
theorem push {z : α} (ring : Cyclic next prev (h :: l)) (fresh : c ∉ h :: l)
    (tail : (h :: l).getLast? = some z)
    (nextTail : next' z = c) (nextNew : next' c = h) (prevNew : prev' c = z) (prevHead : prev' h = c)
    (forward : ∀ x ∈ h :: l, x ≠ z → next' x = next x)
    (backward : ∀ x ∈ h :: l, x ≠ h → prev' x = prev x) :
    Cyclic next' prev' (h :: l ++ [c]) := by
  have run : (h :: l).IsChain (Linked next' prev') := by
    apply isChain_open ring.nodup ring.run
    · intro a ha other
      exact forward a ha (fun same => other (by rw [same, tail]))
    · intro a ha other
      exact backward a ha (fun same => other (by rw [same]; rfl))
  refine close (h := h) (z := c) ?_ ?_ rfl (by rw [List.getLast?_append]; rfl) ⟨nextNew, prevHead⟩
  · exact List.nodup_append.2 ⟨ring.nodup, List.nodup_singleton c, by
      rintro x hx y hy rfl
      exact fresh (List.mem_singleton.1 hy ▸ hx)⟩
  · refine List.isChain_append.2 ⟨run, List.isChain_singleton _, ?_⟩
    intro y hy w hw
    rw [tail] at hy
    cases hy
    cases hw
    exact ⟨nextTail, prevNew⟩

/-- The four writes of a push at the tail. -/
theorem push_update [DecidableEq α] (ring : Cyclic next prev (h :: l)) (fresh : c ∉ h :: l) :
    Cyclic (Function.update (Function.update next (prev h) c) c h)
      (Function.update (Function.update prev c (prev h)) h c) (h :: l ++ [c]) := by
  have head : h ∈ h :: l := List.mem_cons_self
  have tail : (h :: l).getLast? = some (prev h) := by
    rw [List.getLast?_cons, ring.prev_head, List.getLastD_eq_getLast?]
  have old : ∀ x ∈ h :: l, x ≠ c := fun x mem same => fresh (same ▸ mem)
  refine ring.push fresh tail ?_ (Function.update_self ..) ?_ (Function.update_self ..) ?_ ?_
  · rw [Function.update_of_ne (old _ (ring.links_mem head).2), Function.update_self]
  · rw [Function.update_of_ne (old h head).symm, Function.update_self]
  · intro x mem other
    rw [Function.update_of_ne (old x mem), Function.update_of_ne other]
  · intro x mem other
    rw [Function.update_of_ne other, Function.update_of_ne (old x mem)]

/-- Unlinking the first cell of a ring of at least two. -/
theorem removeHead {b z : α} (ring : Cyclic next prev (a :: l))
    (first : l.head? = some b) (last : l.getLast? = some z)
    (nextTail : next' z = b) (prevHead : prev' b = z)
    (forward : ∀ x ∈ l, x ≠ z → next' x = next x)
    (backward : ∀ x ∈ l, x ≠ b → prev' x = prev x) :
    Cyclic next' prev' l := by
  have nodup := (List.nodup_cons.1 ring.nodup).2
  have tail : l.IsChain (Linked next prev) := (List.isChain_cons.1 ring.run).2
  refine close nodup ?_ first last ⟨nextTail, prevHead⟩
  apply isChain_open nodup tail
  · intro x hx other
    exact forward x hx (fun same => other (by rw [same, last]))
  · intro x hx other
    exact backward x hx (fun same => other (by rw [same, first]))

/-- Unlinking any cell of a ring of at least two: its neighbours are joined. -/
theorem remove (ring : Cyclic next prev (front ++ a :: back)) (more : back ++ front ≠ [])
    (nextPrev : next' (prev a) = next a) (prevNext : prev' (next a) = prev a)
    (forward : ∀ x ∈ front ++ back, x ≠ prev a → next' x = next x)
    (backward : ∀ x ∈ front ++ back, x ≠ next a → prev' x = prev x) :
    Cyclic next' prev' (front ++ back) := by
  have hnext := ring.next_mid
  have hprev := ring.prev_mid
  have turned := ring.rotate
  rw [List.cons_append] at turned
  have first : (back ++ front).head? = some (next a) := by
    rw [hnext]
    cases rest : back ++ front with
    | nil => exact absurd rest more
    | cons b others => rfl
  have last : (back ++ front).getLast? = some (prev a) := by
    rw [hprev, List.getLastD_eq_getLast?]
    cases rest : (back ++ front).getLast? with
    | none => exact absurd (List.getLast?_eq_none_iff.1 rest) more
    | some z => rfl
  have swap : ∀ x, x ∈ back ++ front → x ∈ front ++ back := by
    intro x hx
    simpa [or_comm] using hx
  exact (turned.removeHead first last nextPrev prevNext (fun x hx => forward x (swap x hx))
    (fun x hx => backward x (swap x hx))).rotate

end Cyclic

end Lib
