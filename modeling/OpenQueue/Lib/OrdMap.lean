import Mathlib

/-!
# Ordered finite maps

A finite map from a linear order, kept as its entries in increasing key order, so
that the greatest key is the last entry. Clients reason through `lookup`: `ext`
says a map is its lookups, `last_eq_some_iff` says what the last entry is, and
`sumBy_split` moves one entry out of a sum over all values.
-/

namespace Lib

variable {κ ν μ : Type} [LinearOrder κ]

/-- A finite map as a list of entries with strictly increasing keys. -/
structure OrdMap (κ ν : Type) [LinearOrder κ] where
  entries : List (κ × ν)
  sorted : entries.Pairwise (fun a b => a.1 < b.1)

namespace OrdMap

/-- The map without entries. -/
def empty : OrdMap κ ν := ⟨[], List.Pairwise.nil⟩

instance : Inhabited (OrdMap κ ν) := ⟨empty⟩

/-- The value stored under `k`. -/
def lookup (m : OrdMap κ ν) (k : κ) : Option ν := (m.entries.find? (fun e => e.1 = k)).map Prod.snd

/-- The entry with the greatest key. -/
def last (m : OrdMap κ ν) : Option (κ × ν) := m.entries.getLast?

/-- Remove the entry of `k`, if there is one. -/
def erase (m : OrdMap κ ν) (k : κ) : OrdMap κ ν :=
  ⟨m.entries.filter (fun e => e.1 ≠ k), m.sorted.sublist List.filter_sublist⟩

/-- Store `v` under `k`, in place of any earlier value. -/
def insert (m : OrdMap κ ν) (k : κ) (v : ν) : OrdMap κ ν where
  entries := m.entries.filter (fun e => e.1 < k) ++ (k, v) :: m.entries.filter (fun e => k < e.1)
  sorted := by
    refine List.pairwise_append.2 ⟨m.sorted.sublist List.filter_sublist, ?_, ?_⟩
    · refine List.pairwise_cons.2 ⟨?_, m.sorted.sublist List.filter_sublist⟩
      intro e he
      simpa using (List.mem_filter.1 he).2
    · intro a ha b hb
      have below : a.1 < k := by simpa using (List.mem_filter.1 ha).2
      rcases List.mem_cons.1 hb with rfl | hb
      · exact below
      · have above : k < b.1 := by simpa using (List.mem_filter.1 hb).2
        exact below.trans above

/-- Apply `f` to every value. -/
def map (f : ν → μ) (m : OrdMap κ ν) : OrdMap κ μ where
  entries := m.entries.map (fun e => (e.1, f e.2))
  sorted := List.pairwise_map.2 m.sorted

/-- Keys are unique. -/
theorem value_unique {m : OrdMap κ ν} {k : κ} {v w : ν} (hv : (k, v) ∈ m.entries) (hw : (k, w) ∈ m.entries) :
    v = w := by
  by_contra different
  have order : Std.Symm (fun a b : κ × ν => a.1 ≠ b.1) := ⟨fun _ _ h => h.symm⟩
  have apart : m.entries.Pairwise (fun a b => a.1 ≠ b.1) := m.sorted.imp (fun h => ne_of_lt h)
  exact apart.forall hv hw (fun same => different (congrArg Prod.snd same)) rfl

theorem mem_entries_iff {m : OrdMap κ ν} {k : κ} {v : ν} : (k, v) ∈ m.entries ↔ m.lookup k = some v := by
  constructor
  · intro member
    unfold lookup
    cases found : m.entries.find? (fun e => e.1 = k) with
    | none =>
      have absent := List.find?_eq_none.1 found (k, v) member
      simp at absent
    | some e =>
      obtain ⟨k', w⟩ := e
      have key : k' = k := by simpa using List.find?_some found
      subst key
      have same := value_unique member (List.mem_of_find?_eq_some found)
      simp [same]
  · intro found
    obtain ⟨e, he, rfl⟩ := Option.map_eq_some_iff.1 found
    have key : e.1 = k := by simpa using List.find?_some he
    rw [← key]
    exact List.mem_of_find?_eq_some he

theorem lookup_eq_none_iff {m : OrdMap κ ν} {k : κ} : m.lookup k = none ↔ ∀ v, (k, v) ∉ m.entries := by
  rw [Option.eq_none_iff_forall_ne_some]
  simp only [ne_eq, mem_entries_iff]

/-- Entries in strictly increasing key order are determined by membership. -/
theorem entries_ext : ∀ {l l' : List (κ × ν)}, l.Pairwise (fun a b => a.1 < b.1) →
    l'.Pairwise (fun a b => a.1 < b.1) → (∀ e, e ∈ l ↔ e ∈ l') → l = l'
  | [], [], _, _, _ => rfl
  | [], b :: _, _, _, same => absurd ((same b).2 (by simp)) (by simp)
  | a :: _, [], _, _, same => absurd ((same a).1 (by simp)) (by simp)
  | a :: l, b :: l', hl, hl', same => by
    obtain ⟨low, rest⟩ := List.pairwise_cons.1 hl
    obtain ⟨low', rest'⟩ := List.pairwise_cons.1 hl'
    -- each head is in the other list, so neither key is below the other
    have heads : b = a := by
      rcases List.mem_cons.1 ((same a).1 (by simp)) with h | h
      · exact h.symm
      · rcases List.mem_cons.1 ((same b).2 (by simp)) with h' | h'
        · exact h'
        · exact absurd (low b h') (low' a h).asymm
    subst b
    have tails : l = l' := by
      apply entries_ext rest rest'
      intro e
      constructor
      · intro he
        rcases List.mem_cons.1 ((same e).1 (by simp [he])) with rfl | h
        · exact absurd (low e he) (lt_irrefl _)
        · exact h
      · intro he
        rcases List.mem_cons.1 ((same e).2 (by simp [he])) with rfl | h
        · exact absurd (low' e he) (lt_irrefl _)
        · exact h
    rw [tails]

/-- A map is its lookups. -/
theorem ext {m m' : OrdMap κ ν} (same : ∀ k, m.lookup k = m'.lookup k) : m = m' := by
  obtain ⟨l, hl⟩ := m
  obtain ⟨l', hl'⟩ := m'
  have entries : l = l' := by
    apply entries_ext hl hl'
    rintro ⟨k, v⟩
    have left := mem_entries_iff (m := ⟨l, hl⟩) (k := k) (v := v)
    have right := mem_entries_iff (m := ⟨l', hl'⟩) (k := k) (v := v)
    rw [same k] at left
    exact left.trans right.symm
  subst entries
  rfl

@[simp] theorem lookup_empty (k : κ) : (empty : OrdMap κ ν).lookup k = none := rfl

theorem lookup_insert (m : OrdMap κ ν) (k k' : κ) (v : ν) :
    (m.insert k v).lookup k' = if k' = k then some v else m.lookup k' := by
  apply Option.ext
  intro w
  rw [← mem_entries_iff]
  simp only [insert, List.mem_append, List.mem_cons, List.mem_filter, decide_eq_true_eq, Prod.mk.injEq]
  split
  · next same =>
    subst same
    simp [eq_comm]
  · next other =>
    rw [← mem_entries_iff]
    constructor
    · rintro (h | h | h)
      · exact h.1
      · exact absurd h.1 other
      · exact h.1
    · intro h
      rcases lt_or_gt_of_ne other with below | above
      · exact .inl ⟨h, below⟩
      · exact .inr (.inr ⟨h, above⟩)

theorem lookup_erase (m : OrdMap κ ν) (k k' : κ) :
    (m.erase k).lookup k' = if k' = k then none else m.lookup k' := by
  apply Option.ext
  intro w
  rw [← mem_entries_iff]
  simp only [erase, List.mem_filter, decide_eq_true_eq]
  split
  · next same => simp [same]
  · next other => simp [other, mem_entries_iff]

@[simp] theorem lookup_map (f : ν → μ) (m : OrdMap κ ν) (k : κ) : (m.map f).lookup k = (m.lookup k).map f := by
  simp only [lookup, map, List.find?_map, Option.map_map]
  rfl

theorem map_insert (f : ν → μ) (m : OrdMap κ ν) (k : κ) (v : ν) : (m.insert k v).map f = (m.map f).insert k (f v) := by
  apply ext
  intro k'
  simp only [lookup_map, lookup_insert]
  split <;> rfl

theorem map_erase (f : ν → μ) (m : OrdMap κ ν) (k : κ) : (m.erase k).map f = (m.map f).erase k := by
  apply ext
  intro k'
  simp only [lookup_map, lookup_erase]
  split <;> rfl

/-- Rewriting the value of a key does not change what `f` sees, if `f` sees no difference. -/
theorem map_insert_same {f : ν → μ} {m : OrdMap κ ν} {k : κ} {v w : ν} (stored : m.lookup k = some w)
    (same : f v = f w) : (m.insert k v).map f = m.map f := by
  apply ext
  intro k'
  simp only [lookup_map, lookup_insert]
  split
  · next key => simp [key, stored, same]
  · rfl

/-- The last entry is the one with the greatest key. -/
theorem last_eq_some_iff {m : OrdMap κ ν} {k : κ} {v : ν} :
    m.last = some (k, v) ↔ m.lookup k = some v ∧ ∀ k' v', m.lookup k' = some v' → k' ≤ k := by
  have greatest : ∀ {k v}, m.last = some (k, v) → m.lookup k = some v ∧ ∀ k' v', m.lookup k' = some v' → k' ≤ k := by
    intro k v h
    obtain ⟨init, split⟩ := List.getLast?_eq_some_iff.1 h
    have sorted := m.sorted
    rw [split] at sorted
    refine ⟨mem_entries_iff.1 (by simp [split]), ?_⟩
    intro k' v' found
    have member := mem_entries_iff.2 found
    rw [split] at member
    rcases List.mem_append.1 member with early | here
    · exact le_of_lt ((List.pairwise_append.1 sorted).2.2 _ early (k, v) (by simp))
    · cases List.mem_singleton.1 here
      exact le_refl _
  refine ⟨greatest, ?_⟩
  rintro ⟨found, top⟩
  cases h : m.last with
  | none =>
    have nothing := List.getLast?_eq_none_iff.1 h
    have member := mem_entries_iff.2 found
    rw [nothing] at member
    cases member
  | some e =>
    obtain ⟨k', v'⟩ := e
    obtain ⟨found', top'⟩ := greatest h
    obtain rfl := le_antisymm (top k' v' found') (top' k v found)
    rw [found] at found'
    cases found'
    rfl

theorem last_eq_none_iff {m : OrdMap κ ν} : m.last = none ↔ ∀ k, m.lookup k = none := by
  constructor
  · intro h k
    have nothing := List.getLast?_eq_none_iff.1 h
    simp [lookup, nothing]
  · intro h
    refine List.getLast?_eq_none_iff.2 (List.eq_nil_iff_forall_not_mem.2 ?_)
    rintro ⟨k, v⟩ member
    exact lookup_eq_none_iff.1 (h k) v member

/-! ## Sums over the values -/

variable {M : Type} [AddCommMonoid M]

/-- The sum of `f` over all values. -/
def sumBy (f : ν → M) (m : OrdMap κ ν) : M := (m.entries.map (fun e => f e.2)).sum

theorem erase_of_lookup_none {m : OrdMap κ ν} {k : κ} (absent : m.lookup k = none) : m.erase k = m := by
  apply ext
  intro k'
  rw [lookup_erase]
  split
  · next same => rw [same, absent]
  · rfl

theorem insert_perm (m : OrdMap κ ν) (k : κ) (v : ν) :
    (m.insert k v).entries.Perm ((k, v) :: (m.erase k).entries) := by
  have split := List.filter_append_perm (fun e => decide (e.1 < k)) (m.erase k).entries
  simp only [erase, List.filter_filter] at split
  refine List.perm_middle.trans (List.Perm.cons _ ?_)
  refine List.Perm.trans (List.Perm.of_eq ?_) split
  congr 1
  · refine List.filter_congr (fun e _ => ?_)
    by_cases h : e.1 < k
    · simp [h, ne_of_lt h]
    · simp [h]
  · refine List.filter_congr (fun e _ => ?_)
    rcases lt_trichotomy e.1 k with h | h | h
    · simp [h, h.asymm]
    · simp [h]
    · simp [h, h.asymm, ne_of_gt h]

theorem sumBy_insert (f : ν → M) (m : OrdMap κ ν) (k : κ) (v : ν) :
    sumBy f (m.insert k v) = f v + sumBy f (m.erase k) := by
  have perm := (insert_perm m k v).map (fun e => f e.2)
  simpa [sumBy] using perm.sum_eq

/-- One entry taken out of the sum. -/
theorem sumBy_split (f : ν → M) {m : OrdMap κ ν} {k : κ} {v : ν} (stored : m.lookup k = some v) :
    sumBy f m = f v + sumBy f (m.erase k) := by
  have same : m.insert k v = m := by
    apply ext
    intro k'
    rw [lookup_insert]
    split
    · next key => rw [key, stored]
    · rfl
  have h := sumBy_insert f m k v
  rwa [same] at h

theorem mem_sumBy {α : Type} {f : ν → Multiset α} {m : OrdMap κ ν} {a : α} :
    a ∈ sumBy f m ↔ ∃ k v, m.lookup k = some v ∧ a ∈ f v := by
  have all : ∀ l : List (κ × ν), a ∈ (l.map fun e => f e.2).sum ↔ ∃ e ∈ l, a ∈ f e.2 := by
    intro l
    induction l with
    | nil => simp
    | cons e l ih => simp [ih]
  rw [sumBy, all]
  constructor
  · rintro ⟨e, member, ha⟩
    exact ⟨e.1, e.2, mem_entries_iff.1 member, ha⟩
  · rintro ⟨k, v, stored, ha⟩
    exact ⟨(k, v), mem_entries_iff.2 stored, ha⟩

theorem card_sumBy {α : Type} (f : ν → Multiset α) (m : OrdMap κ ν) :
    (sumBy f m).card = (m.entries.map fun e => (f e.2).card).sum := by
  rw [sumBy]
  induction m.entries with
  | nil => rfl
  | cons e l ih => simp [ih]

/-- Lists laid out key by key, filtered by key again. -/
theorem filter_flatMap {α : Type} {key : α → κ} {F : κ → List α} (m : OrdMap κ ν) (k : κ)
    (keyed : ∀ k, ∀ x ∈ F k, key x = k) (absent : ∀ k, m.lookup k = none → F k = []) :
    (m.entries.flatMap fun e => F e.1).filter (fun x => key x = k) = F k := by
  have one : ∀ k', (F k').filter (fun x => key x = k) = if k' = k then F k' else [] := by
    intro k'
    split
    · next same => exact List.filter_eq_self.2 (fun x hx => by simp [keyed k' x hx, same])
    · next other => exact List.filter_eq_nil_iff.2 (fun x hx => by simp [keyed k' x hx, other])
  have all : ∀ l : List (κ × ν), l.Pairwise (fun a b => a.1 < b.1) →
      (l.flatMap fun e => F e.1).filter (fun x => key x = k) = if k ∈ l.map Prod.fst then F k else [] := by
    intro l sorted
    induction l with
    | nil => rfl
    | cons e l ih =>
      obtain ⟨low, sorted⟩ := List.pairwise_cons.1 sorted
      rw [List.flatMap_cons, List.filter_append, one, ih sorted]
      by_cases same : e.1 = k
      · have gone : k ∉ l.map Prod.fst := by
          intro again
          obtain ⟨e', he', rfl⟩ := List.mem_map.1 again
          exact (low e' he').ne same
        simp [same, gone]
      · rw [if_neg same, List.nil_append, List.map_cons]
        simp only [List.mem_cons, Ne.symm same, false_or]
  rw [all m.entries m.sorted]
  split
  · rfl
  · next missing =>
    refine (absent k (lookup_eq_none_iff.2 (fun v hv => missing ?_))).symm
    exact List.mem_map.2 ⟨(k, v), hv, rfl⟩

end OrdMap

end Lib
