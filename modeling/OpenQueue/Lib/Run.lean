import Mathlib

/-!
# Runs of a fallible step function

`run step s is` feeds the inputs `is` to `step` from `s` and collects the outputs; the
first failure ends it. `Visits` and `Calls` speak of what happens along the way: the
states a run goes through and the inputs it meets in them. An invariant over the
history is proved input by input with `run_induction`, and two systems whose steps
agree have runs that agree.
-/

namespace Lib

variable {σ τ ι ο ε : Type}

/-- Feed the inputs one after the other. -/
def run (step : σ → ι → Except ε (ο × σ)) : σ → List ι → Except ε (List ο × σ)
  | s, [] => .ok ([], s)
  | s, i :: is =>
    match step s i with
    | .error e => .error e
    | .ok (o, s') =>
      match run step s' is with
      | .error e => .error e
      | .ok (os, t) => .ok (o :: os, t)

/-- The run goes through the state `t`. -/
def Visits (step : σ → ι → Except ε (ο × σ)) (s : σ) (is : List ι) (t : σ) : Prop :=
  ∃ js os, js <+: is ∧ run step s js = .ok (os, t)

/-- The run meets the input `i` in the state `t`. -/
def Calls (step : σ → ι → Except ε (ο × σ)) (s : σ) (is : List ι) (t : σ) (i : ι) : Prop :=
  ∃ js os, js ++ [i] <+: is ∧ run step s js = .ok (os, t)

variable {step : σ → ι → Except ε (ο × σ)} {s t : σ} {is js : List ι} {os : List ο} {i : ι} {o : ο}

theorem run_nil_eq_ok : run step s [] = .ok (os, t) ↔ os = [] ∧ t = s := by
  simp [run, eq_comm]

theorem run_cons_eq_ok :
    run step s (i :: is) = .ok (os, t) ↔
      ∃ o s' os', step s i = .ok (o, s') ∧ run step s' is = .ok (os', t) ∧ os = o :: os' := by
  cases first : step s i with
  | error e => simp [run, first]
  | ok p =>
    obtain ⟨o, s'⟩ := p
    cases rest : run step s' is with
    | error e =>
      simp only [run, first, rest]
      constructor
      · nofun
      · rintro ⟨_, _, _, h, h', -⟩
        cases h
        rw [rest] at h'
        cases h'
    | ok q =>
      obtain ⟨os', t'⟩ := q
      simp only [run, first, rest, Except.ok.injEq, Prod.mk.injEq]
      constructor
      · rintro ⟨rfl, rfl⟩
        exact ⟨o, s', os', ⟨rfl, rfl⟩, rest, rfl⟩
      · rintro ⟨_, _, _, ⟨rfl, rfl⟩, h', rfl⟩
        rw [rest] at h'
        cases h'
        exact ⟨rfl, rfl⟩

theorem run_append_eq_ok :
    run step s (is ++ js) = .ok (os, t) ↔
      ∃ os₁ s' os₂, run step s is = .ok (os₁, s') ∧ run step s' js = .ok (os₂, t) ∧ os = os₁ ++ os₂ := by
  induction is generalizing s os with
  | nil =>
    simp only [List.nil_append, run_nil_eq_ok]
    constructor
    · intro h
      exact ⟨[], s, os, ⟨rfl, rfl⟩, h, rfl⟩
    · rintro ⟨_, _, _, ⟨rfl, rfl⟩, h, rfl⟩
      exact h
  | cons i is ih =>
    simp only [List.cons_append, run_cons_eq_ok, ih]
    constructor
    · rintro ⟨o, s', _, first, ⟨os₁, s'', os₂, h, h', rfl⟩, rfl⟩
      exact ⟨o :: os₁, s'', os₂, ⟨o, s', os₁, first, h, rfl⟩, h', rfl⟩
    · rintro ⟨_, s'', os₂, ⟨o, s', os₁, first, h, rfl⟩, h', rfl⟩
      exact ⟨o, s', os₁ ++ os₂, first, ⟨os₁, s'', os₂, h, h', rfl⟩, rfl⟩

theorem run_snoc_eq_ok :
    run step s (is ++ [i]) = .ok (os, t) ↔
      ∃ os' s' o, run step s is = .ok (os', s') ∧ step s' i = .ok (o, t) ∧ os = os' ++ [o] := by
  rw [run_append_eq_ok]
  constructor
  · rintro ⟨os', s', _, h, last, rfl⟩
    obtain ⟨o, t', _, h', nil, rfl⟩ := run_cons_eq_ok.1 last
    obtain ⟨rfl, rfl⟩ := run_nil_eq_ok.1 nil
    exact ⟨os', s', o, h, h', rfl⟩
  · rintro ⟨os', s', o, h, h', rfl⟩
    exact ⟨os', s', [o], h, run_cons_eq_ok.2 ⟨o, t, [], h', run_nil_eq_ok.2 ⟨rfl, rfl⟩, rfl⟩, rfl⟩

/-- A failure of the last step is one of the run. -/
theorem run_snoc_of_error {e : ε} (h : run step s is = .ok (os, t)) (failed : step t i = .error e) :
    run step s (is ++ [i]) = .error e := by
  induction is generalizing s os with
  | nil =>
    obtain ⟨-, rfl⟩ := run_nil_eq_ok.1 h
    simp [run, failed]
  | cons j is ih =>
    obtain ⟨o, s', os', first, rest, -⟩ := run_cons_eq_ok.1 h
    rw [List.cons_append, run, first]
    simp only [ih rest]

/-- One output for each input. -/
theorem run_length (h : run step s is = .ok (os, t)) : os.length = is.length := by
  induction is generalizing s os with
  | nil => simp [(run_nil_eq_ok.1 h).1]
  | cons i is ih =>
    obtain ⟨o, s', os', -, rest, rfl⟩ := run_cons_eq_ok.1 h
    simp [ih rest]

/-- A run up to any point, and on from there. -/
theorem run_split (h : run step s is = .ok (os, t)) (n : Nat) :
    ∃ u, run step s (is.take n) = .ok (os.take n, u) ∧ run step u (is.drop n) = .ok (os.drop n, t) := by
  have whole := h
  rw [← List.take_append_drop n is] at h
  obtain ⟨os₁, u, os₂, first, second, rfl⟩ := run_append_eq_ok.1 h
  have length := run_length first
  rw [List.length_take] at length
  have both := run_length whole
  rw [List.length_append] at both
  refine ⟨u, ?_, ?_⟩
  · rw [first]
    congr 2
    rcases Nat.le_total n is.length with le | le
    · rw [List.take_left' (by omega)]
    · rw [List.take_of_length_le (by rw [List.length_append]; omega)]
      have none : os₂ = [] := List.eq_nil_of_length_eq_zero (by omega)
      rw [none, List.append_nil]
  · rw [second]
    congr 2
    rcases Nat.le_total n is.length with le | le
    · rw [List.drop_left' (by omega)]
    · rw [List.drop_of_length_le (by rw [List.length_append]; omega)]
      exact List.eq_nil_of_length_eq_zero (by omega)

/-- Induction over the history: what holds at the start and is kept by each step
holds after every run. -/
theorem run_induction {P : List ι → List ο → σ → Prop} (nil : P [] [] s)
    (snoc : ∀ is os t i o t', run step s is = .ok (os, t) → P is os t → step t i = .ok (o, t') →
      P (is ++ [i]) (os ++ [o]) t')
    (h : run step s is = .ok (os, t)) : P is os t := by
  induction is using List.reverseRecOn generalizing os t with
  | nil =>
    obtain ⟨rfl, rfl⟩ := run_nil_eq_ok.1 h
    exact nil
  | append_singleton is i ih =>
    obtain ⟨os', s', o, before, last, rfl⟩ := run_snoc_eq_ok.1 h
    exact snoc is os' s' i o t before (ih before) last

/-! ## Along the way -/

theorem Visits.of_run (h : run step s is = .ok (os, t)) : Visits step s is t :=
  ⟨is, os, List.prefix_rfl, h⟩

theorem Calls.mono (h : Calls step s js t i) (le : js <+: is) : Calls step s is t i := by
  obtain ⟨ks, os, sub, run⟩ := h
  exact ⟨ks, os, sub.trans le, run⟩

/-- The last input of a run. -/
theorem Calls.last (h : run step s is = .ok (os, t)) (i : ι) : Calls step s (is ++ [i]) t i :=
  ⟨is, os, List.prefix_rfl, h⟩

/-- A step that succeeds is part of the run. -/
theorem Calls.next {t' : σ} (h : Calls step s is t i) (ok : step t i = .ok (o, t')) : Visits step s is t' := by
  obtain ⟨js, os, sub, run⟩ := h
  exact ⟨js ++ [i], os ++ [o], sub, run_snoc_eq_ok.2 ⟨os, t, o, run, ok, rfl⟩⟩

/-- What is said of the `n`-th input and the state it meets, with one input more. -/
theorem exists_at_snoc {Q : σ → ι → Prop} {n : Nat} (h : run step s is = .ok (os, t)) :
    (∃ j os u, (is ++ [i])[n]? = some j ∧ run step s ((is ++ [i]).take n) = .ok (os, u) ∧ Q u j) ↔
      (∃ j os u, is[n]? = some j ∧ run step s (is.take n) = .ok (os, u) ∧ Q u j) ∨ n = is.length ∧ Q t i := by
  rcases Nat.lt_trichotomy n is.length with lt | rfl | gt
  · rw [List.getElem?_append_left lt, List.take_append_of_le_length lt.le]
    exact ⟨.inl, Or.rec id fun last => absurd last.1 lt.ne⟩
  · rw [List.getElem?_concat_length, List.take_left, h, List.getElem?_eq_none le_rfl]
    constructor
    · rintro ⟨j, os', u, here, same, q⟩
      cases here
      cases same
      exact .inr ⟨rfl, q⟩
    · rintro (⟨j, os', u, none, -⟩ | ⟨-, q⟩)
      · cases none
      · exact ⟨i, os, t, rfl, rfl, q⟩
  · rw [List.getElem?_eq_none (by rw [List.length_append, List.length_singleton]; omega), List.getElem?_eq_none gt.le]
    constructor
    · rintro ⟨j, os', u, none, -⟩
      cases none
    · rintro (⟨j, os', u, none, -⟩ | ⟨same, -⟩)
      · cases none
      · exact absurd same gt.ne'

theorem Calls.mem (h : Calls step s is t i) : i ∈ is := by
  obtain ⟨js, os, sub, -⟩ := h
  exact sub.subset (List.mem_append_right js List.mem_cons_self)

theorem calls_nil : ¬ Calls step s [] t i := by
  rintro ⟨js, os, sub, -⟩
  simpa using sub.length_le

theorem calls_cons {j : ι} :
    Calls step s (i :: is) t j ↔ t = s ∧ j = i ∨ ∃ o s', step s i = .ok (o, s') ∧ Calls step s' is t j := by
  constructor
  · rintro ⟨js, os, sub, run⟩
    cases js with
    | nil =>
      obtain ⟨-, rfl⟩ := run_nil_eq_ok.1 run
      exact .inl ⟨rfl, (List.cons_prefix_cons.1 sub).1⟩
    | cons k js =>
      obtain ⟨rfl, below⟩ := List.cons_prefix_cons.1 sub
      obtain ⟨o, s', os', first, rest, -⟩ := run_cons_eq_ok.1 run
      exact .inr ⟨o, s', first, js, os', below, rest⟩
  · rintro (⟨rfl, rfl⟩ | ⟨o, s', first, js, os, sub, rest⟩)
    · exact ⟨[], [], List.cons_prefix_cons.2 ⟨rfl, List.nil_prefix⟩, rfl⟩
    · exact ⟨i :: js, o :: os, List.cons_prefix_cons.2 ⟨rfl, sub⟩, run_cons_eq_ok.2 ⟨o, s', os, first, rest, rfl⟩⟩

/-- Induction over the history of permitted inputs. -/
theorem run_invariant {P : List ι → List ο → σ → Prop} {A : σ → ι → Prop}
    (permitted : ∀ t i, Calls step s is t i → A t i) (nil : P [] [] s)
    (snoc : ∀ is os t i o t', run step s is = .ok (os, t) → P is os t → A t i → step t i = .ok (o, t') →
      P (is ++ [i]) (os ++ [o]) t')
    (h : run step s is = .ok (os, t)) : P is os t := by
  refine run_induction (P := fun is os t => (∀ t i, Calls step s is t i → A t i) → P is os t) (fun _ => nil) ?_ h
    permitted
  intro is os t i o t' before inv last permitted
  exact snoc is os t i o t' before (inv fun t j call => permitted t j (call.mono (List.prefix_append _ _)))
    (permitted t i (Calls.last before i)) last

/-- An invariant that every permitted step keeps, and that lets it succeed, carries
the run to its end. -/
theorem run_ok {P : List ι → List ο → σ → Prop} {A : σ → ι → Prop}
    (permitted : ∀ t i, Calls step s is t i → A t i) (nil : P [] [] s)
    (snoc : ∀ is os t i, run step s is = .ok (os, t) → P is os t → A t i →
      ∃ o t', step t i = .ok (o, t') ∧ P (is ++ [i]) (os ++ [o]) t') :
    ∃ os t, run step s is = .ok (os, t) ∧ P is os t := by
  induction is using List.reverseRecOn with
  | nil => exact ⟨[], s, rfl, nil⟩
  | append_singleton is i ih =>
    obtain ⟨os, t, before, inv⟩ := ih (fun t j h => permitted t j (h.mono (List.prefix_append _ _)))
    obtain ⟨o, t', last, inv'⟩ := snoc is os t i before inv (permitted t i (Calls.last before i))
    exact ⟨os ++ [o], t', run_snoc_eq_ok.2 ⟨os, t, o, before, last, rfl⟩, inv'⟩

/-! ## Running to see -/

/-- The run ends, with outputs and in a state that satisfy `P`. -/
def ends (P : List ο → σ → Bool) : Except ε (List ο × σ) → Bool
  | .ok r => P r.1 r.2
  | .error _ => false

theorem exists_of_ends {P : List ο → σ → Bool} {r : Except ε (List ο × σ)} (h : ends P r = true) :
    ∃ os t, r = .ok (os, t) ∧ P os t = true := by
  cases r with
  | error e => cases h
  | ok r => exact ⟨r.1, r.2, rfl, h⟩

/-! ## Counting inputs -/

/-- How many inputs the run meets in a state in which `P` holds of them. -/
def count (P : σ → ι → Bool) (step : σ → ι → Except ε (ο × σ)) : σ → List ι → Nat
  | _, [] => 0
  | s, i :: is => (P s i).toNat +
    match step s i with
    | .ok (_, s') => count P step s' is
    | .error _ => 0

theorem count_snoc (P : σ → ι → Bool) (h : run step s is = .ok (os, t)) (i : ι) :
    count P step s (is ++ [i]) = count P step s is + (P t i).toNat := by
  induction is generalizing s os with
  | nil =>
    obtain ⟨-, rfl⟩ := run_nil_eq_ok.1 h
    simp only [List.nil_append, count, Nat.zero_add]
    split <;> rfl
  | cons j is ih =>
    obtain ⟨o, s', os', first, rest, -⟩ := run_cons_eq_ok.1 h
    simp only [List.cons_append, count, first, ih rest, Nat.add_assoc]

theorem count_eq_zero_iff {P : σ → ι → Bool} :
    count P step s is = 0 ↔ ∀ t i, Calls step s is t i → P t i = false := by
  induction is generalizing s with
  | nil => exact ⟨fun _ t i call => absurd call calls_nil, fun _ => rfl⟩
  | cons j is ih =>
    have rest : (match step s j with | .ok (_, s') => count P step s' is | .error _ => 0) = 0 ↔
        ∀ o s', step s j = .ok (o, s') → ∀ t i, Calls step s' is t i → P t i = false := by
      cases first : step s j with
      | error e => simp
      | ok r =>
        obtain ⟨o, s'⟩ := r
        simp only [ih, Except.ok.injEq, Prod.mk.injEq]
        exact ⟨fun h o' s'' same => same.2 ▸ h, fun h => h o s' ⟨rfl, rfl⟩⟩
    rw [count, Nat.add_eq_zero_iff, rest, Bool.toNat_eq_zero]
    constructor
    · rintro ⟨here, later⟩ t i call
      rcases calls_cons.1 call with ⟨rfl, rfl⟩ | ⟨o, s', first, call⟩
      · exact here
      · exact later o s' first t i call
    · intro never
      exact ⟨never s j (calls_cons.2 (.inl ⟨rfl, rfl⟩)),
        fun o s' first t i call => never t i (calls_cons.2 (.inr ⟨o, s', first, call⟩))⟩

/-- Running to see that every input meets `P`. -/
theorem forall_calls_of_count {P : σ → ι → Prop} [∀ s i, Decidable (P s i)]
    (never : count (fun s i => !decide (P s i)) step s is = 0) (t : σ) (i : ι) (call : Calls step s is t i) : P t i := by
  have here := count_eq_zero_iff.1 never t i call
  rw [Bool.not_eq_false', decide_eq_true_eq] at here
  exact here

/-! ## Two systems -/

/-- Both fail alike, or both succeed with the same output and related states. -/
inductive Agree (R : σ → τ → Prop) : Except ε (ο × σ) → Except ε (ο × τ) → Prop
  | ok {out : ο} {a : σ} {b : τ} : R a b → Agree R (.ok (out, a)) (.ok (out, b))
  | error (e : ε) : Agree R (.error e) (.error e)

theorem Agree.of_ok {R : σ → τ → Prop} {a : σ} {y : Except ε (ο × τ)} (h : Agree R (.ok (o, a)) y) :
    ∃ b, y = .ok (o, b) ∧ R a b := by
  cases h with
  | ok related => exact ⟨_, rfl, related⟩

theorem Agree.of_ok_right {R : σ → τ → Prop} {x : Except ε (ο × σ)} {b : τ} (h : Agree R x (.ok (o, b))) :
    ∃ a, x = .ok (o, a) ∧ R a b := by
  cases h with
  | ok related => exact ⟨_, rfl, related⟩

theorem Agree.mono {R R' : σ → τ → Prop} {x : Except ε (ο × σ)} {y : Except ε (ο × τ)} (h : Agree R x y)
    (weaker : ∀ a b, R a b → R' a b) : Agree R' x y := by
  cases h with
  | ok related => exact .ok (weaker _ _ related)
  | error e => exact .error e

theorem Agree.of_error {R : σ → τ → Prop} {e : ε} {y : Except ε (ο × τ)} (h : Agree R (.error e) y) :
    y = .error e := by
  cases h
  rfl

theorem Agree.of_error_right {R : σ → τ → Prop} {e : ε} {x : Except ε (ο × σ)} (h : Agree R x (.error e)) :
    x = .error e := by
  cases h
  rfl

theorem Agree.map {R : σ → τ → Prop} {ο' : Type} {x : Except ε (ο × σ)} {y : Except ε (ο × τ)} (h : Agree R x y)
    (g : ο → ο') : Agree R (x.map fun a => (g a.1, a.2)) (y.map fun b => (g b.1, b.2)) := by
  cases h with
  | ok related => exact .ok related
  | error e => exact .error e

theorem run_agree {R : σ → τ → Prop} {step' : τ → ι → Except ε (ο × τ)} {s' : τ}
    (steps : ∀ s t i, R s t → Agree R (step s i) (step' t i)) (related : R s s') :
    Agree R (run step s is) (run step' s' is) := by
  induction is generalizing s s' with
  | nil => exact .ok related
  | cons i is ih =>
    have first := steps s s' i related
    rw [run, run]
    generalize step s i = x at first
    generalize step' s' i = y at first
    cases first with
    | error e => exact .error e
    | @ok out a b next =>
      have rest := ih next
      simp only
      generalize run step a is = x at rest
      generalize run step' b is = y at rest
      cases rest with
      | error e => exact .error e
      | ok last => exact .ok last

/-- One system sees all inputs, the other those it keeps: if the rest do not touch the
relation, the second answers as the first does. -/
theorem run_filter {R : σ → τ → Prop} {step' : τ → ι → Except ε (ο × τ)} {s' : τ} {keep : ι → Bool}
    (kept : ∀ a b i o a', keep i = true → R a b → step a i = .ok (o, a') → ∃ b', step' b i = .ok (o, b') ∧ R a' b')
    (skipped : ∀ a b i o a', keep i = false → R a b → step a i = .ok (o, a') → R a' b) (related : R s s')
    (h : run step s is = .ok (os, t)) :
    ∃ t', run step' s' (is.filter keep) = .ok (((is.zip os).filter fun io => keep io.1).map Prod.snd, t') ∧ R t t' := by
  induction is generalizing s s' os with
  | nil =>
    obtain ⟨rfl, rfl⟩ := run_nil_eq_ok.1 h
    exact ⟨s', rfl, related⟩
  | cons i is ih =>
    obtain ⟨o, a, os', first, rest, rfl⟩ := run_cons_eq_ok.1 h
    rw [List.zip_cons_cons, List.filter_cons, List.filter_cons]
    cases keeps : keep i with
    | true =>
      obtain ⟨b, first', next⟩ := kept s s' i o a keeps related first
      obtain ⟨t', rest', last⟩ := ih next rest
      exact ⟨t', run_cons_eq_ok.2 ⟨o, b, _, first', rest', rfl⟩, last⟩
    | false => exact ih (skipped s s' i o a keeps related first) rest

/-! ## Steps of a relation -/

/-- One step for each input. -/
inductive Steps (R : σ → ι → σ → Prop) : σ → List ι → σ → Prop
  | nil (s : σ) : Steps R s [] s
  | cons {s t u : σ} {i : ι} {is : List ι} : R s i t → Steps R t is u → Steps R s (i :: is) u

namespace Steps

variable {R : σ → ι → σ → Prop} {u : σ}

theorem append (first : Steps R s is t) (second : Steps R t js u) : Steps R s (is ++ js) u := by
  induction first with
  | nil => exact second
  | cons step _ ih => exact .cons step (ih second)

theorem single (step : R s i t) : Steps R s [i] t := .cons step (.nil t)

/-- The same inputs under other names. -/
theorem map {κ : Type} {f : ι → κ} {R' : σ → κ → σ → Prop} (h : Steps R s is t)
    (sub : ∀ i ∈ is, ∀ s t, R s i t → R' s (f i) t) : Steps R' s (is.map f) t := by
  induction h with
  | nil => exact .nil _
  | cons step _ ih =>
    rw [List.forall_mem_cons] at sub
    exact .cons (sub.1 _ _ step) (ih sub.2)

theorem exists_of_mem (h : Steps R s is t) (mem : i ∈ is) : ∃ s t, R s i t := by
  induction h with
  | nil => cases mem
  | cons step _ ih =>
    rcases List.mem_cons.1 mem with rfl | mem
    · exact ⟨_, _, step⟩
    · exact ih mem

end Steps

end Lib
