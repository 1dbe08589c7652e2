import Mathlib

/-!
# Lists, element by element
-/

namespace Lib

variable {α β : Type} {f : α → Option β} {l : List α}

theorem mapM_eq_some_iff {l' : List β} : l.mapM f = some l' ↔ List.Forall₂ (fun a b => f a = some b) l l' := by
  induction l generalizing l' with
  | nil => simp [eq_comm]
  | cons a l ih =>
    rw [List.mapM_cons, List.forall₂_cons_left_iff]
    constructor
    · intro all
      obtain ⟨b, first, all⟩ := Option.bind_eq_some_iff.1 all
      obtain ⟨bs, rest, last⟩ := Option.bind_eq_some_iff.1 all
      exact ⟨b, bs, first, ih.1 rest, (Option.some.inj last).symm⟩
    · rintro ⟨b, bs, first, rest, rfl⟩
      rw [first, ih.2 rest]
      rfl

theorem mapM_eq_some_map {g : α → β} (h : ∀ a ∈ l, f a = some (g a)) : l.mapM f = some (l.map g) := by
  rw [mapM_eq_some_iff, List.forall₂_map_right_iff, List.forall₂_same]
  exact h

/-- Two readings of a list whose elements agree in what they are joined from. -/
theorem map_flatMap_mapM {γ δ : Type} {g : α → Option γ} {F : β → List δ} {G : γ → List δ}
    (same : ∀ a, (f a).map F = (g a).map G) (l : List α) :
    (l.mapM f).map (·.flatMap F) = (l.mapM g).map (·.flatMap G) := by
  induction l with
  | nil => rfl
  | cons a l ih =>
    have first := same a
    rw [List.mapM_cons, List.mapM_cons]
    cases hf : f a <;> cases hg : g a <;> rw [hf, hg] at first <;> try cases first
    · rfl
    · next b c =>
      have first : F b = G c := Option.some.inj first
      cases hl : l.mapM f <;> cases hl' : l.mapM g <;> rw [hl, hl'] at ih <;> try cases ih
      · rfl
      · next bs cs =>
        have rest : bs.flatMap F = cs.flatMap G := Option.some.inj ih
        show some ((b :: bs).flatMap F) = some ((c :: cs).flatMap G)
        rw [List.flatMap_cons, List.flatMap_cons, first, rest]

theorem eq_nil_of_mapM (read : l.mapM f = some []) : l = [] := by
  cases mapM_eq_some_iff.1 read
  rfl

/-- All elements are read. -/
theorem exists_mem_of_mapM {l' : List β} (read : l.mapM f = some l') {b : β} (mem : b ∈ l') : ∃ a ∈ l, f a = some b := by
  obtain ⟨same, each⟩ := List.forall₂_iff_get.1 (mapM_eq_some_iff.1 read)
  obtain ⟨i, inside, rfl⟩ := List.getElem_of_mem mem
  exact ⟨l[i], List.getElem_mem _, each i (by omega) inside⟩

theorem exists_of_mapM {l' : List β} (read : l.mapM f = some l') {a : α} (mem : a ∈ l) : ∃ b, f a = some b := by
  have each := mapM_eq_some_iff.1 read
  clear read
  induction each with
  | nil => cases mem
  | cons first _ ih =>
    rcases List.mem_cons.1 mem with rfl | mem
    · exact ⟨_, first⟩
    · exact ih mem

theorem exists_forall₂ {R : α → β → Prop} (each : ∀ a ∈ l, ∃ b, R a b) : ∃ l', List.Forall₂ R l l' := by
  induction l with
  | nil => exact ⟨[], .nil⟩
  | cons a l ih =>
    obtain ⟨b, first⟩ := each a List.mem_cons_self
    obtain ⟨bs, rest⟩ := ih fun a mem => each a (List.mem_cons_of_mem _ mem)
    exact ⟨b :: bs, .cons first rest⟩

/-- Two lists that are read off a third, put together. -/
theorem forall₂_zipWith {γ δ : Type} {R : α → β → Prop} {S : α → γ → Prop} {T : γ → δ → Prop} {F : β → γ → δ}
    {xs : List β} {ys : List γ} (first : List.Forall₂ R l xs) (second : List.Forall₂ S l ys)
    (each : ∀ a x y, R a x → S a y → T y (F x y)) : List.Forall₂ T ys (List.zipWith F xs ys) := by
  induction first generalizing ys with
  | nil =>
    cases second
    exact .nil
  | cons here _ ih =>
    cases second with
    | cons here' rest' => exact .cons (each _ _ _ here here') (ih rest')

/-- Two lists whose elements differ from the first element of what follows them. -/
theorem append_inj_of_stop {p : α → Prop} {l l' r r' : List α} (before : ∀ a ∈ l, ¬ p a) (before' : ∀ a ∈ l', ¬ p a)
    (stop : ∀ a, r.head? = some a → p a) (stop' : ∀ a, r'.head? = some a → p a) (same : l ++ r = l' ++ r') :
    l = l' ∧ r = r' := by
  induction l generalizing l' with
  | nil =>
    cases l' with
    | nil => exact ⟨rfl, same⟩
    | cons a l' =>
      rw [List.nil_append] at same
      exact absurd (stop a (by rw [same]; rfl)) (before' a List.mem_cons_self)
  | cons a l ih =>
    rw [List.forall_mem_cons] at before
    cases l' with
    | nil =>
      rw [List.nil_append] at same
      exact absurd (stop' a (by rw [← same]; rfl)) before.1
    | cons b l' =>
      rw [List.forall_mem_cons] at before'
      obtain ⟨rfl, rest⟩ := List.cons.inj same
      obtain ⟨rfl, rfl⟩ := ih before.2 before'.2 rest
      exact ⟨rfl, rfl⟩

/-- Of assignments under conditions, the last one that is made counts. -/
theorem foldl_assign {P : α → Prop} [DecidablePred P] (g : α → β) (init : β) (l : List α) :
    l.foldl (fun b a => if P a then g a else b) init = ((l.filter P).getLast?.map g).getD init := by
  induction l generalizing init with
  | nil => rfl
  | cons a l ih =>
    rw [List.foldl_cons, ih]
    by_cases here : P a
    · rw [if_pos here, List.filter_cons_of_pos (by simpa using here), List.getLast?_cons]
      cases (l.filter P).getLast? <;> rfl
    · rw [if_neg here, List.filter_cons_of_neg (by simpa using here)]

/-- The images are distinct exactly if no element shares its image with another. -/
theorem nodup_map_iff [DecidableEq β] {g : α → β} :
    (l.map g).Nodup ↔ ∀ a ∈ l, (l.filter fun b => g a = g b).length = 1 := by
  have count : ∀ a, (l.map g).count (g a) = (l.filter fun b => g a = g b).length := by
    intro a
    rw [List.count, List.countP_map, List.countP_eq_length_filter]
    congr 2
    funext b
    rw [Function.comp_apply, beq_eq_decide]
    exact decide_eq_decide.2 eq_comm
  simp [List.nodup_iff_count_eq_one, count]

end Lib
