import OpenQueue.Lib.Arrival
import OpenQueue.Lib.OrdMap

/-!
# The order of service

A list in arrival order, put in the order in which `takeMax` goes through it: by
descending key, and in arrival order among equals. An arrival goes behind everything
with its key or a greater one, and elements that leave do not change the order of the
rest. A list of this order is determined by its buckets.
-/

namespace Lib

variable {α κ : Type} [LinearOrder κ] {f : α → κ} {l l' : List α} {x : α}

/-- By descending key, in arrival order among equals. -/
def serviceOrder (f : α → κ) (l : List α) : List α := l.insertionSort fun x y => f y ≤ f x

theorem serviceOrder_perm (f : α → κ) (l : List α) : (serviceOrder f l).Perm l := List.perm_insertionSort _ l

theorem total_descending (f : α → κ) : Std.Total fun x y : α => f y ≤ f x := ⟨fun x y => le_total (f y) (f x)⟩

theorem trans_descending (f : α → κ) : IsTrans α fun x y : α => f y ≤ f x := ⟨fun _ _ _ first second => second.trans first⟩

theorem pairwise_serviceOrder (f : α → κ) (l : List α) : (serviceOrder f l).Pairwise fun x y => f y ≤ f x :=
  have := total_descending f
  have := trans_descending f
  List.pairwise_insertionSort _ l

/-- What is taken out is the first to be served. -/
theorem serviceOrder_of_takeMax (h : takeMax f l = some (x, l')) : serviceOrder f l = x :: serviceOrder f l' := by
  obtain ⟨front, back, rfl, rfl, less, greatest⟩ := takeMax_split h
  clear h
  induction front with
  | nil => exact List.insertionSort_cons_of_forall_rel _ greatest
  | cons y front ih =>
    rw [List.forall_mem_cons] at less
    have rest : serviceOrder f (y :: (front ++ x :: back)) =
        (serviceOrder f (front ++ x :: back)).orderedInsert (fun a b => f b ≤ f a) y := rfl
    rw [List.cons_append, rest, ih less.2, List.orderedInsert_cons, if_neg (not_le_of_gt less.1)]
    rfl

/-! ## Buckets -/

theorem filter_orderedInsert (x : α) (l : List α) (k : κ) :
    (l.orderedInsert (fun a b => f b ≤ f a) x).filter (fun y => f y = k) = (x :: l).filter (fun y => f y = k) := by
  induction l with
  | nil => rfl
  | cons b l ih =>
    by_cases first : f b ≤ f x
    · rw [List.orderedInsert_cons, if_pos first]
    · rw [List.orderedInsert_cons, if_neg first, List.filter_cons, ih]
      have apart : f x ≠ f b := (lt_of_not_ge first).ne
      by_cases here : f b = k
      · have other : ¬ f x = k := fun same => apart (same.trans here.symm)
        simp [here, other]
      · simp [List.filter_cons, here]

/-- Equal keys stay in arrival order. -/
theorem filter_serviceOrder (f : α → κ) (l : List α) (k : κ) :
    (serviceOrder f l).filter (fun y => f y = k) = l.filter (fun y => f y = k) := by
  induction l with
  | nil => rfl
  | cons x l ih =>
    refine (filter_orderedInsert x _ k).trans ?_
    rw [List.filter_cons, List.filter_cons]
    exact if_congr Iff.rfl (congrArg _ ih) ih

theorem pairwise_orderedInsert {R : α → α → Prop} (before : ∀ y ∈ l, R x y)
    (sorted : l.Pairwise fun y z => f z < f y ∨ f z = f y ∧ R y z) :
    (l.orderedInsert (fun a b => f b ≤ f a) x).Pairwise fun y z => f z < f y ∨ f z = f y ∧ R y z := by
  induction l with
  | nil => exact List.pairwise_singleton _ x
  | cons b l ih =>
    obtain ⟨top, rest⟩ := List.pairwise_cons.1 sorted
    by_cases first : f b ≤ f x
    · rw [List.orderedInsert_cons, if_pos first]
      refine List.pairwise_cons.2 ⟨fun y hy => ?_, sorted⟩
      have below : f y ≤ f x := by
        rcases List.mem_cons.1 hy with rfl | later
        · exact first
        · rcases top y later with less | ⟨same, -⟩
          · exact less.le.trans first
          · exact same.le.trans first
      exact below.lt_or_eq.imp_right fun same => ⟨same, before y hy⟩
    · rw [List.orderedInsert_cons, if_neg first]
      refine List.pairwise_cons.2 ⟨fun y hy => ?_, ih (fun y hy => before y (List.mem_cons_of_mem b hy)) rest⟩
      rcases (List.mem_orderedInsert _).1 hy with rfl | later
      · exact .inl (lt_of_not_ge first)
      · exact top y later

/-- What is kept among equals, for a relation that holds along the arrivals. -/
theorem pairwise_serviceOrder_of_pairwise {R : α → α → Prop} (h : l.Pairwise R) :
    (serviceOrder f l).Pairwise fun x y => f y < f x ∨ f y = f x ∧ R x y := by
  induction l with
  | nil => exact List.Pairwise.nil
  | cons x l ih =>
    obtain ⟨before, rest⟩ := List.pairwise_cons.1 h
    exact pairwise_orderedInsert (fun y hy => before y ((serviceOrder_perm f l).mem_iff.1 hy)) (ih rest)

/-- Two lists by descending key with the same buckets are the same list. -/
theorem eq_of_descending (sorted : l.Pairwise fun x y => f y ≤ f x) (sorted' : l'.Pairwise fun x y => f y ≤ f x)
    (buckets : ∀ k, l.filter (fun x => f x = k) = l'.filter (fun x => f x = k)) : l = l' := by
  induction l generalizing l' with
  | nil => exact (perm_of_filter_eq buckets).nil_eq
  | cons a l ih =>
    have perm := perm_of_filter_eq buckets
    cases l' with
    | nil => exact absurd perm.eq_nil (List.cons_ne_nil a l)
    | cons b l' =>
      obtain ⟨top, sorted⟩ := List.pairwise_cons.1 sorted
      obtain ⟨top', sorted'⟩ := List.pairwise_cons.1 sorted'
      have same : f a = f b := by
        apply le_antisymm
        · rcases List.mem_cons.1 (perm.mem_iff.1 List.mem_cons_self) with eq | later
          · rw [eq]
          · exact top' a later
        · rcases List.mem_cons.1 (perm.mem_iff.2 List.mem_cons_self) with eq | later
          · rw [eq]
          · exact top b later
      have rest : a = b ∧ ∀ k, l.filter (fun x => f x = k) = l'.filter (fun x => f x = k) := by
        have first := buckets (f a)
        simp only [List.filter_cons, ← same, decide_true, if_true, List.cons.injEq] at first
        refine ⟨first.1, fun k => ?_⟩
        by_cases here : f a = k
        · rw [← here]
          exact first.2
        · have other := buckets k
          simpa only [List.filter_cons, ← same, here, decide_false, Bool.false_eq_true, if_false] using other
      rw [rest.1, ih sorted sorted' rest.2]

theorem serviceOrder_eq_of_buckets (sorted : l'.Pairwise fun x y => f y ≤ f x)
    (buckets : ∀ k, l'.filter (fun x => f x = k) = l.filter (fun x => f x = k)) : l' = serviceOrder f l :=
  eq_of_descending sorted (pairwise_serviceOrder f l) fun k => (buckets k).trans (filter_serviceOrder f l k).symm

/-! ## Arrivals and departures -/

/-- An arrival waits for everything with its key or a greater one, and for nothing else. -/
theorem serviceOrder_append (f : α → κ) (l : List α) (x : α) :
    ∃ ahead behind, serviceOrder f l = ahead ++ behind ∧ serviceOrder f (l ++ [x]) = ahead ++ x :: behind ∧
      (∀ y ∈ ahead, f x ≤ f y) ∧ ∀ y ∈ behind, f y < f x := by
  have sorted := pairwise_serviceOrder f l
  obtain ⟨ahead, behind, split, before, after⟩ : ∃ ahead behind, serviceOrder f l = ahead ++ behind ∧
      (∀ y ∈ ahead, f x ≤ f y) ∧ ∀ y ∈ behind, f y < f x := by
    generalize serviceOrder f l = s at sorted
    induction s with
    | nil => exact ⟨[], [], rfl, by simp, by simp⟩
    | cons y s ih =>
      obtain ⟨top, sorted⟩ := List.pairwise_cons.1 sorted
      by_cases above : f x ≤ f y
      · obtain ⟨ahead, behind, rfl, before, after⟩ := ih sorted
        exact ⟨y :: ahead, behind, rfl, List.forall_mem_cons.2 ⟨above, before⟩, after⟩
      · refine ⟨[], y :: s, rfl, by simp, ?_⟩
        intro z hz
        rcases List.mem_cons.1 hz with rfl | later
        · exact lt_of_not_ge above
        · exact (top z later).trans_lt (lt_of_not_ge above)
  refine ⟨ahead, behind, split, ?_, before, after⟩
  refine (serviceOrder_eq_of_buckets ?_ fun k => ?_).symm
  · rw [split] at sorted
    obtain ⟨left, right, cross⟩ := List.pairwise_append.1 sorted
    refine List.pairwise_append.2 ⟨left, List.pairwise_cons.2 ⟨fun y hy => (after y hy).le, right⟩, ?_⟩
    intro a ha b hb
    rcases List.mem_cons.1 hb with rfl | later
    · exact before a ha
    · exact cross a ha b later
  · have whole := filter_serviceOrder f l k
    rw [split, List.filter_append] at whole
    rw [List.filter_append, List.filter_append, ← whole, List.filter_cons]
    by_cases here : f x = k
    · have none : behind.filter (fun y => f y = k) = [] :=
        List.filter_eq_nil_iff.2 fun y hy => by simpa [← here] using (after y hy).ne
      simp [here, none]
    · simp [here]

/-- Whoever leaves, the others keep their order. -/
theorem serviceOrder_sublist (f : α → κ) (h : l'.Sublist l) : (serviceOrder f l').Sublist (serviceOrder f l) := by
  have := trans_descending f
  induction h with
  | slnil => exact List.Sublist.refl _
  | cons a _ ih => exact ih.trans (List.sublist_orderedInsert a _)
  | cons_cons a _ ih => exact ih.orderedInsert_sublist a (pairwise_serviceOrder f _)

theorem serviceOrder_map {β : Type} (g : β → α) (l : List β) :
    serviceOrder f (l.map g) = (serviceOrder (f ∘ g) l).map g :=
  (List.map_insertionSort _ _ g l fun _ _ _ _ => Iff.rfl).symm

/-! ## A place in the order -/

/-- Without others that match, leaving makes nobody wait longer. -/
theorem findIdx_le_of_sublist {p : α → Bool} (h : l'.Sublist l) (once : (l.filter p).length ≤ 1)
    (there : ∃ x ∈ l', p x = true) : l'.findIdx p ≤ l.findIdx p := by
  induction h with
  | slnil => exact le_rfl
  | @cons s t a sub ih =>
    have here : p a = false := by
      by_contra hit
      rw [Bool.not_eq_false] at hit
      obtain ⟨x, hx, match'⟩ := there
      have again : x ∈ t.filter p := List.mem_filter.2 ⟨sub.subset hx, match'⟩
      rw [List.filter_cons, if_pos hit, List.length_cons] at once
      have := List.length_pos_of_mem again
      omega
    rw [List.filter_cons, here] at once
    rw [List.findIdx_cons, here]
    have := ih once there
    simp only [cond_false]
    omega
  | @cons_cons s t a sub ih =>
    rw [List.findIdx_cons, List.findIdx_cons]
    cases here : p a with
    | true => exact le_rfl
    | false =>
      rw [List.filter_cons, here] at once
      have there' : ∃ x ∈ s, p x = true := by
        obtain ⟨x, hx, match'⟩ := there
        rcases List.mem_cons.1 hx with rfl | later
        · rw [here] at match'
          cases match'
        · exact ⟨x, later, match'⟩
      have := ih once there'
      simp only [cond_false]
      omega

/-! ## Ordered maps -/

/-- The buckets of a map from the greatest key down, filtered by key again. -/
theorem OrdMap.filter_flatMap_reverse {ν : Type} {F : κ → List α} (m : OrdMap κ ν) (k : κ)
    (keyed : ∀ k, ∀ x ∈ F k, f x = k) (absent : ∀ k, m.lookup k = none → F k = []) :
    (m.entries.reverse.flatMap fun e => F e.1).filter (fun x => f x = k) = F k := by
  have up := m.filter_flatMap k keyed absent
  rw [List.filter_flatMap] at up ⊢
  by_cases stored : ∃ v, (k, v) ∈ m.entries
  · obtain ⟨v, here⟩ := stored
    obtain ⟨low, high, split⟩ := List.append_of_mem here
    have sorted := m.sorted
    rw [split] at sorted
    obtain ⟨-, right, cross⟩ := List.pairwise_append.1 sorted
    have none : ∀ l : List (κ × ν), (∀ e ∈ l, e.1 ≠ k) →
        (l.flatMap fun e => (F e.1).filter fun x => f x = k) = [] := by
      intro l other
      refine List.flatMap_eq_nil_iff.2 fun e he => List.filter_eq_nil_iff.2 fun x hx => ?_
      simpa [keyed e.1 x hx] using other e he
    have below := none low fun e he => (cross e he (k, v) List.mem_cons_self).ne
    have above := none high fun e he => ((List.pairwise_cons.1 right).1 e he).ne'
    have above' := none high.reverse fun e he => ((List.pairwise_cons.1 right).1 e (List.mem_reverse.1 he)).ne'
    have below' := none low.reverse fun e he => (cross e (List.mem_reverse.1 he) (k, v) List.mem_cons_self).ne
    rw [split, List.flatMap_append, List.flatMap_cons, below, above, List.nil_append, List.append_nil] at up
    rw [split, List.reverse_append, List.reverse_cons, List.flatMap_append, List.flatMap_append, above', below',
      List.nil_append, List.append_nil, List.flatMap_singleton, up]
  · have missing : m.lookup k = none := OrdMap.lookup_eq_none_iff.2 fun v hv => stored ⟨v, hv⟩
    rw [absent k missing]
    refine List.flatMap_eq_nil_iff.2 fun e he => List.filter_eq_nil_iff.2 fun x hx => ?_
    have other : e.1 ≠ k := fun same => stored ⟨e.2, by rw [← same]; exact List.mem_reverse.1 he⟩
    simpa [keyed e.1 x hx] using other

end Lib
