import OpenQueue.Lib.JavaText
import Mathlib

/-!
# What `trim` and `split` return

Both directions for each method: which texts give a result, and what can be concluded
about a text from its result. `split` at one character is `List.splitOn` without the
empty pieces at the end, so a text is its pieces with the separator between them, and
perhaps more separators after the last.
-/

namespace Lib.Text

variable {s t u v : Text} {c : Char} {ps : List Text}

/-! ## Blanks -/

/-- Nothing but blanks. -/
def Blank (s : Text) : Prop := ∀ c ∈ s, isBlank c

/-- No blank at either end. -/
structure Tight (s : Text) : Prop where
  first : ∀ c, s.head? = some c → isBlank c = false
  last : ∀ c, s.getLast? = some c → isBlank c = false

theorem blank_nil : Blank [] := nofun

theorem Blank.append (hs : Blank s) (ht : Blank t) : Blank (s ++ t) := by
  intro c mem
  rcases List.mem_append.1 mem with mem | mem
  · exact hs c mem
  · exact ht c mem

theorem dropWhile_blank (hu : Blank u) (s : Text) : (u ++ s).dropWhile isBlank = s.dropWhile isBlank := by
  induction u with
  | nil => rfl
  | cons c u ih =>
    rw [List.cons_append, List.dropWhile_cons_of_pos (hu c List.mem_cons_self)]
    exact ih fun d mem => hu d (List.mem_cons_of_mem c mem)

theorem Blank.reverse (hs : Blank s) : Blank s.reverse := fun c mem => hs c (List.mem_reverse.1 mem)

/-- Blanks around a tight text are what `trim` removes. -/
theorem trim_of (hu : Blank u) (ht : Tight t) (hv : Blank v) : trim (u ++ t ++ v) = t := by
  have front : (t ++ v).dropWhile isBlank = if t = [] then [] else t ++ v := by
    cases t with
    | nil =>
      have none := dropWhile_blank hv []
      rwa [List.append_nil] at none
    | cons c t => exact List.dropWhile_cons_of_neg (by simp [ht.first c rfl])
  rw [trim, List.append_assoc, dropWhile_blank hu, front]
  by_cases empty : t = []
  · rw [if_pos empty, empty]
    rfl
  · rw [if_neg empty, List.reverse_append, dropWhile_blank hv.reverse]
    obtain ⟨init, c, rfl⟩ := (List.eq_nil_or_concat t).resolve_left empty
    have last := ht.last c (by simp)
    rw [List.concat_eq_append, List.reverse_concat, List.dropWhile_cons_of_neg (by simp [last])]
    simp

theorem blank_takeWhile (s : Text) : Blank (s.takeWhile isBlank) := fun _ mem => List.mem_takeWhile_imp mem

/-- A text is what `trim` leaves of it, between blanks. -/
theorem trim_spec (s : Text) : ∃ u v, Blank u ∧ Blank v ∧ s = u ++ trim s ++ v := by
  refine ⟨s.takeWhile isBlank, ((s.dropWhile isBlank).reverse.takeWhile isBlank).reverse, blank_takeWhile s,
    (blank_takeWhile _).reverse, ?_⟩
  rw [trim, List.append_assoc, ← List.reverse_append, List.takeWhile_append_dropWhile, List.reverse_reverse,
    List.takeWhile_append_dropWhile]

theorem head?_dropWhile_blank (s : Text) (c : Char) (first : (s.dropWhile isBlank).head? = some c) :
    isBlank c = false := by
  have stop := List.head?_dropWhile_not isBlank s
  rw [first] at stop
  simpa using stop

theorem tight_trim (s : Text) : Tight (trim s) where
  first c first := by
    obtain ⟨w, split⟩ : trim s <+: s.dropWhile isBlank := List.rdropWhile_prefix isBlank _
    apply head?_dropWhile_blank s
    rw [← split, List.head?_append, first]
    rfl
  last c last := by
    rw [trim, List.getLast?_reverse] at last
    exact head?_dropWhile_blank _ c last

theorem trim_eq_iff : trim s = t ↔ Tight t ∧ ∃ u v, Blank u ∧ Blank v ∧ s = u ++ t ++ v := by
  constructor
  · rintro rfl
    exact ⟨tight_trim s, trim_spec s⟩
  · rintro ⟨tight, u, v, hu, hv, rfl⟩
    exact trim_of hu tight hv

theorem Tight.trim_eq (ht : Tight t) : trim t = t := trim_eq_iff.2 ⟨ht, [], [], blank_nil, blank_nil, by simp⟩

theorem trim_append_blank (hv : Blank v) : trim (s ++ v) = trim s := by
  obtain ⟨x, y, hx, hy, split⟩ := trim_spec s
  refine trim_eq_iff.2 ⟨tight_trim s, x, y ++ v, hx, hy.append hv, ?_⟩
  rw [← List.append_assoc, ← split]

theorem trim_blank_append (hu : Blank u) : trim (u ++ s) = trim s := by
  obtain ⟨x, y, hx, hy, split⟩ := trim_spec s
  refine trim_eq_iff.2 ⟨tight_trim s, u ++ x, y, hu.append hx, hy, ?_⟩
  rw [List.append_assoc, List.append_assoc, ← List.append_assoc x, ← split]

/-- Blanks after a tight text. -/
theorem Tight.trim_append (ht : Tight t) (hv : Blank v) : trim (t ++ v) = t :=
  trim_eq_iff.2 ⟨ht, [], v, blank_nil, hv, rfl⟩

/-- Blanks before a tight text. -/
theorem Tight.trim_after (ht : Tight t) (hu : Blank u) : trim (u ++ t) = t :=
  trim_eq_iff.2 ⟨ht, u, [], hu, blank_nil, by simp⟩

/-- A text that holds no blank. -/
theorem tight_of_no_blank (none : ∀ c ∈ s, isBlank c = false) : Tight s :=
  ⟨fun c first => none c (List.mem_of_head? first), fun c last => none c (List.mem_of_getLast? last)⟩

/-- No blanks at the beginning. -/
theorem Tight.eq_nil_of_blank_left (h : Tight (u ++ v)) (hu : Blank u) : u = [] := by
  cases u with
  | nil => rfl
  | cons c u => cases (hu c List.mem_cons_self).symm.trans (h.first c rfl)

/-- No blanks at the end. -/
theorem Tight.eq_nil_of_blank_right (h : Tight (u ++ v)) (hv : Blank v) : v = [] := by
  rcases List.eq_nil_or_concat v with rfl | ⟨v, c, rfl⟩
  · rfl
  · have last := h.last c (by rw [List.concat_eq_append, ← List.append_assoc, List.getLast?_concat])
    cases (hv c (by simp)).symm.trans last

/-- Only the ends count. -/
theorem Tight.between (hs : Tight s) (ht : Tight t) (some : s ≠ []) (some' : t ≠ []) (m : Text) :
    Tight (s ++ m ++ t) where
  first c first := by
    rw [List.append_assoc, List.head?_append_of_ne_nil s some] at first
    exact hs.first c first
  last c last := by
    rw [List.getLast?_append_of_ne_nil _ some'] at last
    exact ht.last c last

/-- `trim` removes blanks only. -/
theorem mem_of_mem_trim (mem : c ∈ trim s) : c ∈ s := by
  obtain ⟨u, v, -, -, split⟩ := trim_spec s
  rw [split]
  simp [mem]

theorem mem_trim_of_mem (mem : c ∈ s) (other : isBlank c = false) : c ∈ trim s := by
  obtain ⟨u, v, hu, hv, split⟩ := trim_spec s
  rw [split, List.mem_append, List.mem_append] at mem
  rcases mem with (mem | mem) | mem
  · cases (hu c mem).symm.trans other
  · exact mem
  · cases (hv c mem).symm.trans other

theorem getLast?_trim (ends : s.getLast? = some c) (other : isBlank c = false) : (trim s).getLast? = some c := by
  obtain ⟨u, v, hu, hv, split⟩ := trim_spec s
  rw [split] at ends
  rcases List.eq_nil_or_concat v with rfl | ⟨v, d, rfl⟩
  · rw [List.append_nil] at ends
    by_cases empty : trim s = []
    · rw [empty, List.append_nil] at ends
      cases (hu c (List.mem_of_getLast? ends)).symm.trans other
    · rwa [List.getLast?_append_of_ne_nil _ empty] at ends
  · have blank := hv d (by simp)
    rw [List.concat_eq_append, ← List.append_assoc, List.getLast?_concat] at ends
    cases ends
    cases blank.symm.trans other

/-! ## Pieces -/

/-- The first separator ends what stands before it. -/
theorem append_sep_inj {α : Type} {c : α} {u v r r' : List α} (hu : c ∉ u) (hv : c ∉ v) (same : u ++ c :: r = v ++ c :: r') :
    u = v ∧ r = r' := by
  induction u generalizing v with
  | nil =>
    cases v with
    | nil => exact ⟨rfl, (List.cons.inj same).2⟩
    | cons d v => exact absurd ((List.cons.inj same).1 ▸ List.mem_cons_self) hv
  | cons d u ih =>
    rw [List.mem_cons, not_or] at hu
    cases v with
    | nil => exact absurd (List.cons.inj same).1.symm hu.1
    | cons e v =>
      rw [List.mem_cons, not_or] at hv
      obtain ⟨rfl, tail⟩ := List.cons.inj same
      obtain ⟨rfl, rest⟩ := ih hu.2 hv.2 tail
      exact ⟨rfl, rest⟩

/-- The last separator begins what stands after it. -/
theorem append_sep_inj_right {α : Type} {c : α} {u v r r' : List α} (hr : c ∉ r) (hr' : c ∉ r')
    (same : u ++ c :: r = v ++ c :: r') : u = v ∧ r = r' := by
  have same := congrArg List.reverse same
  simp only [List.reverse_append, List.reverse_cons, List.append_assoc, List.singleton_append] at same
  obtain ⟨last, first⟩ := append_sep_inj (by simpa using hr) (by simpa using hr') same
  exact ⟨List.reverse_injective first, List.reverse_injective last⟩

theorem pieces_single (c : Char) (s : Text) : pieces [c] 0 s = s.splitOn c := by
  induction s with
  | nil => rfl
  | cons d s ih =>
    rw [pieces, List.splitOn_cons_eq_if_modifyHead, ← ih]
    by_cases same : d = c
    · simp [same]
    · have differ : ¬ c = d := fun h => same h.symm
      simp only [List.isPrefixOf_cons_cons, beq_iff_eq, differ, same, Bool.and_eq_true, false_and, if_false]
      have some : pieces [c] 0 s ≠ [] := ih ▸ List.splitOn_ne_nil c s
      cases split : pieces [c] 0 s with
      | nil => exact absurd split some
      | cons p ps => rfl

theorem not_mem_of_mem_splitOn {p : Text} (mem : p ∈ s.splitOn c) : c ∉ p := by
  induction s generalizing p with
  | nil => simp_all
  | cons d s ih =>
    rw [List.splitOn_cons_eq_if_modifyHead] at mem
    split at mem
    · rcases List.mem_cons.1 mem with rfl | mem
      · exact List.not_mem_nil
      · exact ih mem
    · next differ =>
      obtain ⟨q, qs, split⟩ := List.exists_cons_of_ne_nil (List.splitOn_ne_nil c s)
      rw [split] at mem ih
      rcases List.mem_cons.1 mem with rfl | mem
      · rw [List.mem_cons, not_or]
        exact ⟨fun same => differ (by simp [same]), ih List.mem_cons_self⟩
      · exact ih (List.mem_cons_of_mem q mem)

theorem intercalate_cons {α : Type} (sep p : List α) (qs : List (List α)) :
    sep.intercalate (p :: qs) = p ++ qs.flatMap (sep ++ ·) := by
  induction qs generalizing p with
  | nil => simp
  | cons q qs ih => rw [List.intercalate_cons_cons, ih, List.flatMap_cons, List.append_assoc, List.append_assoc]

/-- More pieces, each with a separator before it. -/
theorem intercalate_append {α : Type} (sep : List α) {ps : List (List α)} (nonempty : ps ≠ []) (qs : List (List α)) :
    sep.intercalate (ps ++ qs) = sep.intercalate ps ++ qs.flatMap (sep ++ ·) := by
  obtain ⟨p, ps, rfl⟩ := List.exists_cons_of_ne_nil nonempty
  rw [List.cons_append, intercalate_cons, intercalate_cons, List.flatMap_append, List.append_assoc]

/-- The last piece ends the text. -/
theorem exists_intercalate_concat {α : Type} (sep : List α) (ps : List (List α)) (p : List α) :
    ∃ front, sep.intercalate (ps ++ [p]) = front ++ p := by
  cases ps with
  | nil => exact ⟨[], by simp⟩
  | cons q ps =>
    refine ⟨sep.intercalate (q :: ps) ++ sep, ?_⟩
    rw [intercalate_append _ (List.cons_ne_nil q ps)]
    simp

theorem mem_intercalate {α : Type} {a : α} {sep : List α} {ps : List (List α)} (mem : a ∈ sep.intercalate ps) :
    a ∈ sep ∨ ∃ p ∈ ps, a ∈ p := by
  cases ps with
  | nil => cases mem
  | cons p ps =>
    rw [intercalate_cons, List.mem_append, List.mem_flatMap] at mem
    rcases mem with here | ⟨q, mem, later⟩
    · exact .inr ⟨p, List.mem_cons_self, here⟩
    · rcases List.mem_append.1 later with inside | inside
      · exact .inl inside
      · exact .inr ⟨q, List.mem_cons_of_mem p mem, inside⟩

/-- Pieces in which the separator does not begin can be told from the whole. -/
theorem intercalate_inj {α : Type} {c : α} {sep : List α} {ps qs : List (List α)} (free : ∀ p ∈ ps, c ∉ p)
    (free' : ∀ q ∈ qs, c ∉ q) (nonempty : ps ≠ []) (nonempty' : qs ≠ [])
    (same : (c :: sep).intercalate ps = (c :: sep).intercalate qs) : ps = qs := by
  induction ps generalizing qs with
  | nil => exact absurd rfl nonempty
  | cons p ps ih =>
    obtain ⟨q, qs, rfl⟩ := List.exists_cons_of_ne_nil nonempty'
    rw [List.forall_mem_cons] at free free'
    have none : ∀ r : List α, c ∉ r → ∀ s t : List α, s ++ c :: t ≠ r := by
      intro r absent s t whole
      exact absent (whole ▸ by simp)
    cases ps with
    | nil =>
      cases qs with
      | nil => simpa using same
      | cons q' qs =>
        rw [List.intercalate_cons_cons, List.intercalate_singleton, List.append_assoc] at same
        exact absurd same.symm (none p free.1 _ _)
    | cons p' ps =>
      cases qs with
      | nil =>
        rw [List.intercalate_cons_cons, List.intercalate_singleton, List.append_assoc] at same
        exact absurd same (none q free'.1 _ _)
      | cons q' qs =>
        rw [List.intercalate_cons_cons, List.intercalate_cons_cons, List.append_assoc, List.append_assoc] at same
        obtain ⟨rfl, rest⟩ := append_sep_inj free.1 free'.1 same
        rw [ih free.2 free'.2 (List.cons_ne_nil _ _) (List.cons_ne_nil _ _) (List.append_cancel_left rest)]

/-- Separators after the last piece are empty pieces. -/
theorem intercalate_replicate (sep : Text) (nonempty : ps ≠ []) (k : Nat) :
    sep.intercalate (ps ++ List.replicate k []) = sep.intercalate ps ++ (List.replicate k sep).flatten := by
  rw [intercalate_append sep nonempty, List.flatMap_replicate, List.append_nil]

theorem eq_replicate_of_all_empty {l : List Text} (empty : ∀ p ∈ l, p.isEmpty) :
    l = List.replicate l.length [] :=
  List.eq_replicate_iff.2 ⟨rfl, fun p mem => List.isEmpty_iff.1 (empty p mem)⟩

/-- What is left without the empty pieces at the end. -/
theorem eq_append_of_rdropWhile {qs : List Text} (result : qs.rdropWhile List.isEmpty = ps) :
    ∃ k, qs = ps ++ List.replicate k [] := by
  refine ⟨(qs.rtakeWhile List.isEmpty).length, ?_⟩
  rw [← eq_replicate_of_all_empty fun p mem => List.mem_rtakeWhile_imp mem, ← result,
    List.rdropWhile_append_rtakeWhile]

theorem getLast?_of_rdropWhile {qs : List Text} (result : qs.rdropWhile List.isEmpty = ps) (nonempty : ps ≠ []) :
    ps.getLast? ≠ some [] := by
  intro last
  have stop := List.rdropWhile_last_not List.isEmpty qs (by rw [result]; exact nonempty)
  simp only [result] at stop
  rw [List.getLast?_eq_getLast_of_ne_nil nonempty] at last
  rw [Option.some.inj last] at stop
  exact stop rfl

theorem rdropWhile_replicate_empty (ends : ps.getLast? ≠ some []) (k : Nat) :
    (ps ++ List.replicate k []).rdropWhile List.isEmpty = ps := by
  induction k with
  | zero =>
    rw [List.replicate_zero, List.append_nil, List.rdropWhile_eq_self_iff]
    intro some last
    rw [List.getLast?_eq_getLast_of_ne_nil some, List.isEmpty_iff.1 last] at ends
    exact ends rfl
  | succ k ih => rw [List.replicate_succ', ← List.append_assoc, List.rdropWhile_concat_pos _ _ _ rfl, ih]

/-- The pieces of a text at a character. -/
theorem split_eq_iff (nonempty : ps ≠ []) :
    split s [c] = ps ↔ (∀ p ∈ ps, c ∉ p) ∧
      ∃ k, s = [c].intercalate ps ++ List.replicate k c ∧ (ps.getLast? = some [] → ps = [[]] ∧ k = 0) := by
  rw [split, pieces_single]
  constructor
  · intro result
    have join : [c].intercalate (s.splitOn c) = s := List.intercalate_splitOn c
    split at result
    · next p single =>
      subst result
      rw [single, List.intercalate_singleton] at join
      subst join
      have clean : c ∉ p := not_mem_of_mem_splitOn (s := p) (by rw [single]; exact List.mem_singleton_self p)
      refine ⟨by simpa using clean, 0, by simp, fun last => ⟨by simpa using last, rfl⟩⟩
    · have result : (s.splitOn c).rdropWhile List.isEmpty = ps := result
      obtain ⟨k, split⟩ := eq_append_of_rdropWhile result
      refine ⟨fun p mem => not_mem_of_mem_splitOn (s := s) (by rw [split]; exact List.mem_append_left _ mem), k, ?_, ?_⟩
      · rw [← List.flatten_replicate_singleton, ← intercalate_replicate [c] nonempty, ← split, join]
      · intro last
        exact absurd last (getLast?_of_rdropWhile result nonempty)
  · rintro ⟨clean, k, rfl, last⟩
    have split : ([c].intercalate ps ++ List.replicate k c).splitOn c = ps ++ List.replicate k [] := by
      rw [← List.flatten_replicate_singleton, ← intercalate_replicate [c] nonempty]
      refine List.splitOn_intercalate c ?_ (by simp [nonempty])
      intro p mem
      rcases List.mem_append.1 mem with mem | mem
      · exact clean p mem
      · rw [List.eq_of_mem_replicate mem]
        exact List.not_mem_nil
    rw [split]
    by_cases ends : ps.getLast? = some []
    · obtain ⟨rfl, rfl⟩ := last ends
      rfl
    · have drop : (ps ++ List.replicate k []).rdropWhile List.isEmpty = ps := rdropWhile_replicate_empty ends k
      split
      · next q single =>
        cases ps with
        | nil => exact absurd rfl nonempty
        | cons p ps =>
          rw [List.cons_append, List.cons_eq_cons, List.append_eq_nil_iff, List.replicate_eq_nil_iff] at single
          obtain ⟨rfl, rfl, rfl⟩ := single
          simp
      · exact drop

/-- There is no piece if there are separators only. -/
theorem getLast?_of_split_eq_nil (none : split s [c] = []) : s.getLast? = some c := by
  rw [split, pieces_single] at none
  have join : [c].intercalate (s.splitOn c) = s := List.intercalate_splitOn c
  split at none
  · cases none
  · next several =>
    have empty : (s.splitOn c).rdropWhile List.isEmpty = [] := none
    have all := eq_replicate_of_all_empty (List.rdropWhile_eq_nil_iff.1 empty)
    have nonempty : s.splitOn c ≠ [] := List.splitOn_ne_nil c s
    rw [all] at several join nonempty
    generalize (s.splitOn c).length = n at several join nonempty
    match n with
    | 0 => exact absurd rfl nonempty
    | 1 => exact absurd rfl (several [])
    | n + 2 =>
      have commas := intercalate_replicate [c] (List.cons_ne_nil [] []) (n + 1)
      rw [List.flatten_replicate_singleton, List.intercalate_singleton, List.nil_append] at commas
      rw [← join, List.replicate_succ]
      refine (congrArg List.getLast? commas).trans ?_
      rw [List.replicate_succ', List.getLast?_concat]

theorem split_eq_single_iff :
    split s [c] = [t] ↔ c ∉ t ∧ ∃ k, s = t ++ List.replicate k c ∧ (t = [] → k = 0) := by
  rw [split_eq_iff (List.cons_ne_nil t [])]
  simp only [List.forall_mem_singleton, List.intercalate_singleton, List.getLast?_singleton, Option.some.injEq,
    List.cons.injEq, and_true]
  refine and_congr_right fun _ => exists_congr fun k => and_congr_right fun _ => ?_
  exact ⟨fun h empty => (h empty).2, fun h empty => ⟨empty, h empty⟩⟩

theorem split_of_not_mem (none : c ∉ s) : split s [c] = [s] := split_eq_single_iff.2 ⟨none, 0, by simp, fun _ => rfl⟩

theorem split_eq_pair_iff :
    split s [c] = [u, v] ↔ c ∉ u ∧ c ∉ v ∧ v ≠ [] ∧ ∃ k, s = u ++ c :: v ++ List.replicate k c := by
  rw [split_eq_iff (List.cons_ne_nil u [v])]
  simp only [List.forall_mem_cons, List.intercalate_cons_cons, List.intercalate_singleton]
  constructor
  · rintro ⟨⟨hu, hv, -⟩, k, eq, last⟩
    refine ⟨hu, hv, ?_, k, by simpa using eq⟩
    rintro rfl
    exact absurd (last rfl).1 (by simp)
  · rintro ⟨hu, hv, some, k, eq⟩
    exact ⟨⟨hu, hv, by simp⟩, k, by simpa using eq, fun last => absurd (by simpa using last) some⟩

/-- Two pieces of a text that does not end with the separator. -/
theorem split_pair_ends {e : Char} (pieces : split s [c] = [u, v]) (ends : s.getLast? = some e) (other : e ≠ c) :
    c ∉ u ∧ c ∉ v ∧ s = u ++ c :: v ∧ v.getLast? = some e := by
  obtain ⟨hu, hv, some, k, rfl⟩ := split_eq_pair_iff.1 pieces
  cases k with
  | zero =>
    rw [List.replicate_zero, List.append_nil] at ends ⊢
    refine ⟨hu, hv, rfl, ?_⟩
    rwa [List.getLast?_append_of_ne_nil _ (List.cons_ne_nil c v), List.getLast?_cons_of_ne_nil some] at ends
  | succ k =>
    rw [List.replicate_succ', ← List.append_assoc, List.getLast?_concat] at ends
    exact absurd (Option.some.inj ends).symm other

theorem split_eq_triple_iff :
    split s [c] = [t, u, v] ↔
      c ∉ t ∧ c ∉ u ∧ c ∉ v ∧ v ≠ [] ∧ ∃ k, s = t ++ c :: u ++ c :: v ++ List.replicate k c := by
  rw [split_eq_iff (List.cons_ne_nil t [u, v])]
  simp only [List.forall_mem_cons, List.intercalate_cons_cons, List.intercalate_singleton]
  constructor
  · rintro ⟨⟨ht, hu, hv, -⟩, k, eq, last⟩
    refine ⟨ht, hu, hv, ?_, k, by simpa using eq⟩
    rintro rfl
    exact absurd (last rfl).1 (by simp)
  · rintro ⟨ht, hu, hv, some, k, eq⟩
    exact ⟨⟨ht, hu, hv, by simp⟩, k, by simpa using eq, fun last => absurd (by simpa using last) some⟩

/-- A list with a blank after each separator. -/
theorem split_list (nonempty : ps ≠ []) (some : ∀ p ∈ ps, p ≠ []) (clean : ∀ p ∈ ps, c ∉ p) (other : c ≠ ' ')
    (tight : ∀ p ∈ ps, Tight p) :
    ∃ tokens, tokens ≠ [] ∧ split ([c, ' '].intercalate ps) [c] = tokens ∧ tokens.map trim = ps := by
  obtain ⟨p, ps, rfl⟩ := List.exists_cons_of_ne_nil nonempty
  rw [List.forall_mem_cons] at some clean tight
  have blank : Blank [' '] := by simp [Blank, isBlank]
  refine ⟨p :: ps.map ([' '] ++ ·), List.cons_ne_nil _ _, (split_eq_iff (List.cons_ne_nil _ _)).2 ⟨?_, 0, ?_, ?_⟩, ?_⟩
  · rw [List.forall_mem_cons, List.forall_mem_map]
    refine ⟨clean.1, fun q mem => ?_⟩
    rw [List.mem_append, List.mem_singleton, not_or]
    exact ⟨other, clean.2 q mem⟩
  · rw [intercalate_cons, intercalate_cons, List.flatMap_map, List.replicate_zero, List.append_nil]
    rfl
  · intro last
    have mem := List.mem_of_getLast? last
    rw [List.mem_cons, List.mem_map] at mem
    rcases mem with empty | ⟨q, -, empty⟩
    · exact absurd empty.symm some.1
    · exact absurd empty (List.cons_ne_nil _ _)
  · rw [List.map_cons, List.map_map, tight.1.trim_eq]
    refine congrArg _ ((List.map_congr_left fun q mem => ?_).trans (List.map_id ps))
    exact (tight.2 q mem).trim_after blank

theorem tight_intercalate (sep : Text) (nonempty : ps ≠ []) (some : ∀ p ∈ ps, p ≠ []) (tight : ∀ p ∈ ps, Tight p) :
    sep.intercalate ps ≠ [] ∧ Tight (sep.intercalate ps) := by
  induction ps with
  | nil => exact absurd rfl nonempty
  | cons p ps ih =>
    rw [List.forall_mem_cons] at some tight
    cases ps with
    | nil =>
      rw [List.intercalate_singleton]
      exact ⟨some.1, tight.1⟩
    | cons q ps =>
      obtain ⟨rest, ends⟩ := ih (List.cons_ne_nil q ps) some.2 tight.2
      rw [List.intercalate_cons_cons]
      exact ⟨by simp [rest], tight.1.between ends some.1 rest sep⟩

/-! ## First occurrences -/

/-- What stands before the first occurrence of a character. -/
def upTo (c : Char) (s : Text) : Text := s.takeWhile fun d => d ≠ c

/-- What stands after the first occurrence of a character. -/
def after (c : Char) (s : Text) : Text := (s.dropWhile fun d => d ≠ c).tail

theorem startsWith_iff : startsWith s t ↔ t <+: s := List.isPrefixOf_iff_prefix

/-- Only what stands before a character counts for a start without it. -/
theorem startsWith_append (free : c ∉ t) (v : Text) : startsWith (s ++ c :: v) t = startsWith s t := by
  rw [Bool.eq_iff_iff, startsWith_iff, startsWith_iff]
  refine ⟨fun starts => ?_, fun starts => starts.trans (List.prefix_append s _)⟩
  have whole : s ++ [c] <+: s ++ c :: v := ⟨v, by simp⟩
  rcases List.prefix_or_prefix_of_prefix starts whole with inside | inside
  · rcases List.prefix_concat_iff.1 inside with rfl | inside
    · exact absurd (by simp) free
    · exact inside
  · exact absurd (inside.subset (by simp)) free

theorem takeWhile_ne_append (free : c ∉ u) (v : Text) : (u ++ c :: v).takeWhile (fun d => d ≠ c) = u := by
  have all : ∀ d ∈ u, decide (d ≠ c) = true := fun d mem => decide_eq_true fun same => free (same ▸ mem)
  rw [List.takeWhile_append_of_pos all, List.takeWhile_cons_of_neg (by simp), List.append_nil]

theorem takeWhile_ne_of_not_mem (free : c ∉ s) : s.takeWhile (fun d => d ≠ c) = s := by
  have all : ∀ d ∈ s, decide (d ≠ c) = true := fun d mem => decide_eq_true fun same => free (same ▸ mem)
  exact List.takeWhile_eq_self_iff.2 all

theorem upTo_append (free : c ∉ u) (v : Text) : upTo c (u ++ c :: v) = u := takeWhile_ne_append free v

theorem upTo_of_not_mem (free : c ∉ s) : upTo c s = s := takeWhile_ne_of_not_mem free

theorem after_append (free : c ∉ u) (v : Text) : after c (u ++ c :: v) = v := by
  have all : ∀ d ∈ u, decide (d ≠ c) = true := fun d mem => decide_eq_true fun same => free (same ▸ mem)
  rw [after, List.dropWhile_append_of_pos all, List.dropWhile_cons_of_neg (by simp), List.tail_cons]

theorem indexOf_append (free : c ∉ u) (v : Text) : indexOf (u ++ c :: v) c = some u.length := by
  rw [indexOf, List.findIdx?_append, List.findIdx?_eq_none_iff.2]
  · simp [List.findIdx?_cons]
  · exact fun d mem => decide_eq_false fun same => free (same ▸ mem)

theorem indexOf_eq_none_iff : indexOf s c = none ↔ c ∉ s := by
  rw [indexOf, List.findIdx?_eq_none_iff]
  constructor
  · exact fun none mem => of_decide_eq_false (none c mem) rfl
  · exact fun free d mem => decide_eq_false fun same => free (same ▸ mem)

/-- An occurrence is found at the end of what stands before it. -/
theorem indexOf_eq_some_iff {n : Nat} : indexOf s c = some n ↔ ∃ u v, s = u ++ c :: v ∧ c ∉ u ∧ u.length = n := by
  constructor
  · intro found
    have here : c ∈ s := by
      by_contra free
      rw [indexOf_eq_none_iff.2 free] at found
      cases found
    obtain ⟨u, v, rfl, free⟩ := List.eq_append_cons_of_mem here
    rw [indexOf_append free] at found
    exact ⟨u, v, rfl, free, Option.some.inj found⟩
  · rintro ⟨u, v, rfl, free, rfl⟩
    exact indexOf_append free v

theorem substring_append (u v w : Text) : substring (u ++ v ++ w) u.length (u.length + v.length) = some v := by
  rw [substring, if_pos (by simp)]
  rw [← List.length_append, List.take_left, List.drop_left]

/-- What stands between the first occurrences of two characters. -/
theorem substring_between {d : Char} {w : Text} (hc : c ∉ u) (hd : d ∉ u) (differ : d ≠ c) (hv : d ∉ v) :
    ∃ i j, indexOf (u ++ c :: (v ++ d :: w)) c = some i ∧ indexOf (u ++ c :: (v ++ d :: w)) d = some j ∧
      substring (u ++ c :: (v ++ d :: w)) (i + 1) j = some v := by
  have free : d ∉ u ++ c :: v := by
    rw [List.mem_append, List.mem_cons, not_or, not_or]
    exact ⟨hd, differ, hv⟩
  have last := indexOf_append free w
  have inside := substring_append (u ++ [c]) v (d :: w)
  rw [List.append_assoc, List.cons_append] at last
  refine ⟨u.length, (u ++ c :: v).length, indexOf_append hc _, last, ?_⟩
  simpa [Nat.add_assoc, Nat.add_comm 1] using inside

/-- What `substring` cuts out between the first occurrences of two characters. -/
theorem substring_eq_some {d : Char} {i j : Nat} (first : indexOf s c = some i) (last : indexOf s d = some j)
    (between : substring s (i + 1) j = some v) :
    ∃ u w, s = u ++ c :: (v ++ d :: w) ∧ c ∉ u ∧ d ∉ u ∧ d ∉ v := by
  obtain ⟨u, x, whole, hc, rfl⟩ := indexOf_eq_some_iff.1 first
  obtain ⟨y, w, rfl, hd, rfl⟩ := indexOf_eq_some_iff.1 last
  rw [substring] at between
  split at between
  · next bounds =>
    rw [List.take_left, Option.some.injEq] at between
    have front : u ++ [c] <+: y ++ d :: w := ⟨x, by rw [whole, List.append_assoc]; rfl⟩
    obtain ⟨v', rfl⟩ := List.prefix_of_prefix_length_le front (List.prefix_append y _) (by simpa using bounds.1)
    rw [show u.length + 1 = (u ++ [c]).length by simp, List.drop_left] at between
    subst between
    rw [List.mem_append, List.mem_append, not_or, not_or] at hd
    exact ⟨u, w, by simp, hc, hd.1.1, hd.2⟩
  · cases between

theorem replace_of_not_mem {d : Char} (free : c ∉ s) : replace s c d = s := by
  have same : ∀ e ∈ s, (if e = c then d else e) = id e := by
    intro e mem
    have other : e ≠ c := fun same => free (same ▸ mem)
    rw [if_neg other]
    rfl
  exact (List.map_congr_left same).trans (List.map_id s)

theorem replace_append {d : Char} : replace (s ++ t) c d = replace s c d ++ replace t c d := List.map_append

/-! ## Longer separators -/

section Separator

variable {sep : Text}

theorem pieces_ne_nil (sep : Text) (n : Nat) (s : Text) : pieces sep n s ≠ [] := by
  fun_induction pieces sep n s <;> simp_all

/-- Whatever the separator, the text is its pieces with the separator between them. -/
theorem intercalate_pieces (x : Char) (xs : Text) (n : Nat) (s : Text) :
    (x :: xs).intercalate (pieces (x :: xs) n s) = s.drop n := by
  fun_induction pieces (x :: xs) n s with
  | case1 n => simp
  | case2 n c s ih => rw [ih, List.drop_succ_cons]
  | case3 c s starts ih =>
    obtain ⟨rest, split⟩ := List.isPrefixOf_iff_prefix.1 starts
    rw [List.intercalate_cons_of_ne_nil (pieces_ne_nil _ _ _), ih, List.drop_zero, ← split]
    obtain ⟨rfl, rfl⟩ := List.cons.inj split
    simp
  | case4 c s starts none ih => exact absurd none (pieces_ne_nil _ _ _)
  | case5 c s starts p ps split ih =>
    rw [split] at ih
    rw [List.intercalate_cons_cons_left, ih]
    rfl

/-- Where the separator does not occur there is one piece. -/
theorem pieces_of_not_infix (free : ¬ sep <:+: s) : pieces sep 0 s = [s] := by
  induction s with
  | nil => rfl
  | cons c s ih =>
    have here : ¬ sep.isPrefixOf (c :: s) := fun starts => free (List.isPrefixOf_iff_prefix.1 starts).isInfix
    rw [pieces, if_neg here, ih fun later => free (later.trans (List.suffix_cons c s).isInfix)]

/-- The first piece ends at the first place where the separator can start. -/
theorem pieces_append {x : Char} {xs : Text} (first : x ∉ u) (v : Text) :
    pieces (x :: xs) 0 (u ++ (x :: xs) ++ v) = u :: pieces (x :: xs) 0 v := by
  induction u with
  | nil =>
    have skip : ∀ w : Text, pieces (x :: xs) w.length (w ++ v) = pieces (x :: xs) 0 v := by
      intro w
      induction w with
      | nil => rfl
      | cons c w ih => exact ih
    rw [List.nil_append, List.cons_append, pieces, if_pos]
    · exact congrArg _ (skip xs)
    · exact List.isPrefixOf_iff_prefix.2 ⟨v, rfl⟩
  | cons c u ih =>
    rw [List.mem_cons, not_or] at first
    have here : ¬ (x :: xs).isPrefixOf (c :: (u ++ (x :: xs) ++ v)) := by
      rw [List.isPrefixOf_cons_cons, Bool.and_eq_true, beq_iff_eq]
      exact fun starts => first.1 starts.1
    rw [List.cons_append, List.cons_append, pieces, if_neg here, ih first.2]

/-- A separator of three characters that does not reach over the end of a text. -/
theorem infix_append {x y z : Char} (free : y ∉ u) (found : [x, y, z] <:+: u ++ v) :
    [x, y, z] <:+: v ∨ v.head? = some y := by
  induction u with
  | nil => exact .inl found
  | cons d u ih =>
    rw [List.mem_cons, not_or] at free
    rcases List.infix_cons_iff.1 found with here | later
    · obtain ⟨-, here⟩ := List.cons_prefix_cons.1 here
      cases u with
      | nil =>
        obtain ⟨w, rfl⟩ := here
        exact .inr rfl
      | cons e u =>
        rw [List.mem_cons, not_or] at free
        exact absurd (List.cons_prefix_cons.1 here).1 free.2.1
    · exact ih free.2 later

/-- The same from the other end. -/
theorem infix_append_right {x y z : Char} (free : y ∉ v) (found : [x, y, z] <:+: u ++ v) :
    [x, y, z] <:+: u ∨ u.getLast? = some y := by
  have back : [z, y, x] <:+: v.reverse ++ u.reverse := by
    rw [← List.reverse_append]
    exact List.reverse_infix.2 found
  rcases infix_append (fun mem => free (List.mem_reverse.1 mem)) back with found | last
  · exact .inl (List.reverse_infix.1 found)
  · rw [List.head?_reverse] at last
    exact .inr last

/-- The text on both sides of the only separator. -/
theorem split_append {x : Char} {xs : Text} (first : x ∉ u) (free : ¬ (x :: xs) <:+: v) (some : v ≠ []) :
    split (u ++ (x :: xs) ++ v) (x :: xs) = [u, v] := by
  rw [split, pieces_append first, pieces_of_not_infix free]
  simp [some]

/-- What two pieces say about the text. -/
theorem split_eq_pair {x : Char} {xs : Text} (pieces : split s (x :: xs) = [u, v]) :
    v ≠ [] ∧ ∃ k, s = u ++ (x :: xs) ++ v ++ (List.replicate k (x :: xs)).flatten := by
  have join := intercalate_pieces x xs 0 s
  rw [split] at pieces
  split at pieces
  · cases pieces
  · have result : (Text.pieces (x :: xs) 0 s).rdropWhile List.isEmpty = [u, v] := pieces
    obtain ⟨k, split⟩ := eq_append_of_rdropWhile result
    rw [split, intercalate_replicate _ (by simp), List.drop_zero, List.intercalate_cons_cons,
      List.intercalate_singleton] at join
    refine ⟨?_, k, join.symm⟩
    rintro rfl
    exact getLast?_of_rdropWhile result (by simp) rfl

end Separator

end Lib.Text
