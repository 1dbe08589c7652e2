import Mathlib

/-!
# Lists in arrival order, split by key

A list in arrival order is cut into buckets by a key; `List.argmax` picks the
greatest key and, among equals, the earliest arrival, and `takeMax` takes it out. The
lemmas say what erasing one element does to each bucket.
-/

namespace Lib

variable {α κ : Type}

/-- Erasing the first element with `p` among those with `q` acts on the bucket of `q`. -/
theorem filter_eraseP_same (p q : α → Bool) (l : List α) :
    (l.eraseP (fun x => q x && p x)).filter q = (l.filter q).eraseP p := by
  induction l with
  | nil => rfl
  | cons a l ih => cases hq : q a <;> cases hp : p a <;> simp [hq, hp, ih]

/-- Erasing an element outside the bucket of `q` leaves that bucket alone. -/
theorem filter_eraseP_other {p q : α → Bool} (l : List α) (apart : ∀ x, p x = true → q x = false) :
    (l.eraseP p).filter q = l.filter q := by
  induction l with
  | nil => rfl
  | cons a l ih =>
    cases hp : p a
    · cases hq : q a <;> simp [hq, hp, ih]
    · simp [hp, apart a hp]

/-- Lists with the same buckets hold the same elements. -/
theorem perm_of_filter_eq [DecidableEq κ] {f : α → κ} {l l' : List α}
    (buckets : ∀ k, l.filter (fun x => f x = k) = l'.filter (fun x => f x = k)) : l.Perm l' := by
  classical
  rw [List.perm_iff_count]
  intro a
  have left := List.count_filter (p := fun x => decide (f x = f a)) (a := a) (l := l) (by simp)
  have right := List.count_filter (p := fun x => decide (f x = f a)) (a := a) (l := l') (by simp)
  rw [← left, ← right, buckets]

section Argmax

variable [LinearOrder κ] {f : α → κ} {l l' : List α} {e : α}

/-- Take the greatest key out, the earliest arrival among equals. -/
def takeMax (f : α → κ) (l : List α) : Option (α × List α) :=
  (l.argmax f).map fun e => (e, l.eraseP (fun x => f x = f e))

theorem takeMax_eq_none_iff : takeMax f l = none ↔ l = [] := by
  rw [takeMax, Option.map_eq_none_iff, List.argmax_eq_none]

/-- The chosen element is the first of its bucket. -/
theorem filter_argmax (h : e ∈ l.argmax f) :
    ∃ rest, l.filter (fun x => f x = f e) = e :: rest := by
  induction l generalizing e with
  | nil => cases h
  | cons a l ih =>
    rw [List.argmax_cons] at h
    cases best : l.argmax f with
    | none =>
      rw [best] at h
      cases h
      exact ⟨_, List.filter_cons_of_pos (by simp)⟩
    | some c =>
      rw [best] at h
      simp only at h
      split at h
      · next below =>
        cases h
        obtain ⟨rest, split⟩ := ih best
        exact ⟨rest, by rw [List.filter_cons_of_neg (by simpa using ne_of_lt below), split]⟩
      · cases h
        exact ⟨_, List.filter_cons_of_pos (by simp)⟩

/-- Erasing the first element of the greatest key erases the chosen one. -/
theorem filter_erase_argmax (l : List α) (e : α) :
    (l.eraseP (fun x => f x = f e)).filter (fun x => f x = f e) = (l.filter (fun x => f x = f e)).tail := by
  have same := filter_eraseP_same (fun _ => true) (fun x => decide (f x = f e)) l
  simp only [Bool.and_true] at same
  rw [same]
  cases l.filter (fun x => f x = f e) <;> simp

/-- Where the element was: everything before it has a smaller key, and nothing after
it a greater one. -/
theorem takeMax_split (h : takeMax f l = some (e, l')) :
    ∃ front back, l = front ++ e :: back ∧ l' = front ++ back ∧ (∀ x ∈ front, f x < f e) ∧
      ∀ x ∈ back, f x ≤ f e := by
  obtain ⟨e', best, taken⟩ := Option.map_eq_some_iff.1 h
  cases taken
  have greatest : ∀ x ∈ l, f x ≤ f e := fun x hx => List.le_of_mem_argmax hx best
  obtain ⟨x, front, back, before, key, rfl, erased⟩ :=
    List.exists_of_eraseP (p := fun x => decide (f x = f e)) (List.argmax_mem best) (by simp)
  have least : ∀ y ∈ front, f y < f e := by
    intro y hy
    exact lt_of_le_of_ne (greatest y (by simp [hy])) (by simpa using before y hy)
  have same : x = e := by
    obtain ⟨rest, first⟩ := filter_argmax best
    have none : front.filter (fun x => decide (f x = f e)) = [] :=
      List.filter_eq_nil_iff.2 (fun y hy => by simpa using (least y hy).ne)
    rw [List.filter_append, none, List.nil_append, List.filter_cons, if_pos key] at first
    exact (List.cons.inj first).1
  subst same
  exact ⟨front, back, rfl, erased, least, fun y hy => greatest y (by simp [hy])⟩

/-- The first element of the greatest key is the one that is taken. -/
theorem takeMax_of_filter {k : κ} (first : (l.filter (fun x => f x = k)).head? = some e)
    (greatest : ∀ k', k < k' → l.filter (fun x => f x = k') = []) : ∃ rest, takeMax f l = some (e, rest) := by
  have member : e ∈ l ∧ f e = k := by simpa using List.mem_of_mem_head? first
  cases taken : takeMax f l with
  | none =>
    rw [takeMax_eq_none_iff.1 taken] at first
    cases first
  | some r =>
    obtain ⟨e', rest⟩ := r
    obtain ⟨best, argmax, same⟩ := Option.map_eq_some_iff.1 taken
    cases same
    have above : k ≤ f e' := member.2 ▸ List.le_of_mem_argmax member.1 argmax
    rcases lt_or_eq_of_le above with less | rfl
    · have none := greatest _ less
      rw [List.filter_eq_nil_iff] at none
      exact absurd (by simp) (none e' (List.argmax_mem argmax))
    · obtain ⟨others, split⟩ := filter_argmax argmax
      rw [split] at first
      cases first
      exact ⟨_, rfl⟩

theorem argmax_map {β : Type} (g : β → α) (l : List β) : (l.map g).argmax f = (l.argmax (f ∘ g)).map g := by
  induction l with
  | nil => rfl
  | cons a l ih =>
    rw [List.map_cons, List.argmax_cons, List.argmax_cons, ih]
    cases l.argmax (f ∘ g) with
    | none => rfl
    | some c =>
      simp only [Option.map_some, Function.comp_apply]
      split <;> rfl

theorem takeMax_map {β : Type} (g : β → α) (l : List β) :
    takeMax f (l.map g) = (takeMax (f ∘ g) l).map fun r => (g r.1, r.2.map g) := by
  rw [takeMax, takeMax, argmax_map, Option.map_map, Option.map_map]
  congr 1
  funext e
  simp only [Function.comp_apply, List.eraseP_map]
  rfl

end Argmax

end Lib
