import Mathlib

/-!
# C strings in fixed arrays

A `char[n]` is a list of `n` bytes, and the string it holds ends at its first NUL, if
it has one. `strncpy` into an array that is one byte longer than the bound leaves the
last byte alone: the array then holds the source exactly if the source is shorter than
the bound, or as long as the bound and the last byte was NUL before.
-/

namespace Lib

/-- A `char`. -/
abbrev Byte := BitVec 8

/-- A C string, by its characters before the terminator. -/
@[ext]
structure CStr where
  chars : List Byte
  noNul : 0 ∉ chars
  deriving DecidableEq

/-- A `char[n]`. -/
structure CharBuf (n : Nat) where
  bytes : List Byte
  size : bytes.length = n
  deriving DecidableEq

/-- An array of NULs. -/
def CharBuf.zero (n : Nat) : CharBuf n := ⟨List.replicate n 0, List.length_replicate⟩

/-- The string an array holds, if it ends inside the array. -/
def cstr? : List Byte → Option (List Byte)
  | [] => none
  | c :: s => if c = 0 then some [] else (cstr? s).map (c :: ·)

/-- `strcmp`, or `none` when it would read past the end of an array. -/
def strcmp : List Byte → List Byte → Option Int
  | a :: s, b :: t => if a ≠ b then some (if a < b then -1 else 1) else if a = 0 then some 0 else strcmp s t
  | _, _ => none

/-- `strncmp(s, t, count)`, or `none` when it would read past the end of an array. -/
def strncmp : Nat → List Byte → List Byte → Option Int
  | 0, _, _ => some 0
  | n + 1, a :: s, b :: t =>
    if a ≠ b then some (if a < b then -1 else 1) else if a = 0 then some 0 else strncmp n s t
  | _ + 1, _, _ => none

/-- A string in memory, with its terminator. -/
def CStr.bytes (s : CStr) : List Byte := s.chars ++ [0]

/-- `strncpy(dst, src, count)`: the characters of `src`, cut off at `count` or filled up
with NULs. -/
def CharBuf.strncpy {n : Nat} (dst : CharBuf n) (src : CStr) (count : Nat) (fits : count ≤ n) : CharBuf n where
  bytes := (src.chars ++ List.replicate count 0).take count ++ dst.bytes.drop count
  size := by simp [dst.size, fits]

/-! ## Reading a string -/

variable {s t x y : List Byte}

theorem cstr?_eq_some_iff : cstr? s = some x ↔ 0 ∉ x ∧ ∃ rest, s = x ++ 0 :: rest := by
  induction s generalizing x with
  | nil => simp [cstr?]
  | cons c s ih =>
    rw [cstr?]
    split
    · next nul =>
      subst nul
      constructor
      · intro same
        cases same
        exact ⟨List.not_mem_nil, s, rfl⟩
      · rintro ⟨noNul, rest, split⟩
        cases x with
        | nil => rfl
        | cons d x =>
          obtain ⟨rfl, -⟩ := List.cons.inj split
          exact absurd List.mem_cons_self noNul
    · next other =>
      rw [Option.map_eq_some_iff]
      constructor
      · rintro ⟨x, inner, rfl⟩
        obtain ⟨noNul, rest, rfl⟩ := ih.1 inner
        refine ⟨?_, rest, rfl⟩
        rw [List.mem_cons]
        rintro (nul | inside)
        · exact other nul.symm
        · exact noNul inside
      · rintro ⟨noNul, rest, split⟩
        cases x with
        | nil => exact absurd (List.cons.inj split).1 other
        | cons d x =>
          obtain ⟨rfl, rfl⟩ := List.cons.inj split
          exact ⟨x, ih.2 ⟨fun inside => noNul (List.mem_cons_of_mem _ inside), rest, rfl⟩, rfl⟩

theorem cstr?_of_mem (nul : 0 ∈ s) : cstr? s = some (s.takeWhile (· ≠ 0)) := by
  induction s with
  | nil => cases nul
  | cons c s ih =>
    rw [cstr?, List.takeWhile_cons]
    by_cases zero : c = 0
    · rw [if_pos zero, if_neg (by simp [zero])]
    · rw [if_neg zero, if_pos (decide_eq_true zero), ih (List.mem_of_ne_of_mem (Ne.symm zero) nul)]
      rfl

theorem cstr?_of_not_mem (noNul : 0 ∉ s) : cstr? s = none := by
  rw [Option.eq_none_iff_forall_ne_some]
  intro x str
  obtain ⟨-, rest, rfl⟩ := cstr?_eq_some_iff.1 str
  exact noNul (List.mem_append_right x List.mem_cons_self)

/-- Comparing with a terminated string of the same array size never reads past the end,
and finds it equal to itself only. -/
theorem strcmp_spec (size : s.length = t.length) (str : cstr? t = some y) :
    ∃ c, strcmp s t = some c ∧ (c = 0 ↔ cstr? s = some y) := by
  induction t generalizing s y with
  | nil => cases str
  | cons b t ih =>
    cases s with
    | nil => cases size
    | cons a s =>
      rw [strcmp, cstr?]
      rw [cstr?] at str
      by_cases same : a = b
      · subst same
        rw [if_neg (fun differ => differ rfl)]
        by_cases nul : a = 0
        · rw [if_pos nul] at str ⊢
          exact ⟨0, rfl, by rw [if_pos nul]; simpa using str⟩
        · rw [if_neg nul] at str ⊢
          obtain ⟨y, inner, rfl⟩ := Option.map_eq_some_iff.1 str
          obtain ⟨c, cmp, equal⟩ := ih (Nat.succ.inj size) inner
          refine ⟨c, cmp, equal.trans ?_⟩
          rw [if_neg nul, Option.map_eq_some_iff]
          simp
      · rw [if_pos same]
        refine ⟨_, rfl, ?_⟩
        have differ : ¬ (if a = 0 then some [] else (cstr? s).map (a :: ·)) = some y := by
          intro equal
          by_cases nul : a = 0
          · rw [if_pos nul] at equal
            cases equal
            have other : b ≠ 0 := fun zero => same (nul.trans zero.symm)
            rw [if_neg other] at str
            obtain ⟨_, -, impossible⟩ := Option.map_eq_some_iff.1 str
            cases impossible
          · rw [if_neg nul] at equal
            obtain ⟨_, -, rfl⟩ := Option.map_eq_some_iff.1 equal
            split at str
            · cases str
            · obtain ⟨_, -, head⟩ := Option.map_eq_some_iff.1 str
              exact same (List.cons.inj head).1.symm
        constructor
        · intro zero
          split at zero <;> cases zero
        · intro equal
          exact absurd equal differ

/-- Two strings are equal up to the bound. -/
theorem strncmp_spec (n : Nat) (hx : 0 ∉ x) (hy : 0 ∉ y) (s t : List Byte) :
    ∃ c, strncmp n (x ++ 0 :: s) (y ++ 0 :: t) = some c ∧ (c = 0 ↔ x.take n = y.take n) := by
  have nonzero : ∀ {a b : Byte}, (if a < b then (-1 : Int) else 1) ≠ 0 := by
    intro a b
    split <;> decide
  induction n generalizing x y with
  | zero => exact ⟨0, rfl, by simp⟩
  | succ n ih =>
    cases x with
    | nil =>
      cases y with
      | nil => exact ⟨0, by simp [strncmp], by simp⟩
      | cons b y =>
        have differ : (0 : Byte) ≠ b := fun same => hy (same ▸ List.mem_cons_self)
        exact ⟨_, by rw [List.nil_append, List.cons_append, strncmp, if_pos differ], by simp [nonzero]⟩
    | cons a x =>
      have notNul : a ≠ 0 := fun same => hx (same ▸ List.mem_cons_self)
      cases y with
      | nil =>
        exact ⟨_, by rw [List.nil_append, List.cons_append, strncmp, if_pos notNul], by simp⟩
      | cons b y =>
        rw [List.cons_append, List.cons_append, strncmp]
        by_cases same : a = b
        · subst same
          rw [if_neg (fun differ => differ rfl), if_neg notNul]
          obtain ⟨c, cmp, equal⟩ := ih (fun h => hx (List.mem_cons_of_mem _ h)) (fun h => hy (List.mem_cons_of_mem _ h))
          exact ⟨c, cmp, by simpa using equal⟩
        · rw [if_pos same]
          exact ⟨_, rfl, by simp [nonzero, same]⟩

namespace CharBuf

variable {n : Nat} {dst : CharBuf (n + 1)} {src : CStr}

theorem bytes_strncpy {k : Nat} (dst : CharBuf k) (fits : n ≤ k) : (dst.strncpy src n fits).bytes =
    (src.chars ++ List.replicate n 0).take n ++ dst.bytes.drop n := rfl

/-- What fits into an array that is one byte longer than the bound. -/
theorem cstr?_strncpy_iff :
    cstr? (dst.strncpy src n (Nat.le_succ n)).bytes = some src.chars ↔
      src.chars.length < n ∨ src.chars.length = n ∧ dst.bytes[n]? = some 0 := by
  obtain ⟨last, tail⟩ : ∃ c, dst.bytes.drop n = [c] := List.length_eq_one_iff.1 (by simp [dst.size])
  have byte : dst.bytes[n]? = some last := by rw [← List.head?_drop, tail]; rfl
  rw [byte, Option.some.injEq, bytes_strncpy, tail, cstr?_eq_some_iff]
  rcases Nat.lt_trichotomy src.chars.length n with short | exactly | long
  · have padded : (src.chars ++ List.replicate n 0).take n =
        src.chars ++ 0 :: List.replicate (n - src.chars.length - 1) 0 := by
      rw [List.take_append, List.take_of_length_le (Nat.le_of_lt short), List.take_replicate,
        Nat.min_eq_left (Nat.sub_le _ _), ← List.replicate_succ, Nat.sub_add_cancel (by omega)]
    rw [padded, List.append_assoc]
    exact iff_of_true ⟨src.noNul, _, rfl⟩ (.inl short)
  · have cut : (src.chars ++ List.replicate n 0).take n = src.chars := List.take_left' exactly
    rw [cut]
    constructor
    · rintro ⟨-, rest, split⟩
      exact .inr ⟨exactly, (List.cons.inj (List.append_cancel_left split)).1⟩
    · rintro (short | ⟨-, rfl⟩)
      · omega
      · exact ⟨src.noNul, [], rfl⟩
  · refine iff_of_false ?_ (by omega)
    rintro ⟨-, rest, split⟩
    have size := congrArg List.length split
    simp at size
    omega

/-- A string of the size of the bound has no end in the array but that of before. -/
theorem cstr?_strncpy_eq_none (full : src.chars.length = n) (last : dst.bytes[n]? ≠ some 0) :
    cstr? (dst.strncpy src n (Nat.le_succ n)).bytes = none := by
  obtain ⟨c, tail⟩ : ∃ c, dst.bytes.drop n = [c] := List.length_eq_one_iff.1 (by simp [dst.size])
  have nonzero : 0 ≠ c := by
    rintro rfl
    rw [← List.head?_drop, tail] at last
    exact last rfl
  rw [bytes_strncpy, tail, List.take_left' full]
  refine cstr?_of_not_mem fun nul => ?_
  rcases List.mem_append.1 nul with inside | atEnd
  · exact src.noNul inside
  · exact nonzero (List.mem_singleton.1 atEnd)

/-- A copy into NULs always ends inside the array. -/
theorem zero_strncpy (src : CStr) :
    ∃ rest, ((zero (n + 1)).strncpy src n (Nat.le_succ n)).bytes = src.chars.take n ++ 0 :: rest := by
  rw [bytes_strncpy, zero, List.drop_replicate, Nat.add_sub_cancel_left, List.take_append, List.take_replicate,
    List.append_assoc]
  cases min (n - src.chars.length) n with
  | zero => exact ⟨[], rfl⟩
  | succ k => exact ⟨List.replicate k 0 ++ [0], rfl⟩

/-- A name is found again by its first `n` characters. -/
theorem strncmp_zero_strncpy (src t : CStr) :
    ∃ c, strncmp n ((zero (n + 1)).strncpy src n (Nat.le_succ n)).bytes t.bytes = some c ∧
      (c = 0 ↔ src.chars.take n = t.chars.take n) := by
  obtain ⟨rest, bytes⟩ := zero_strncpy (n := n) src
  rw [bytes, CStr.bytes]
  have noNul : 0 ∉ src.chars.take n := fun h => src.noNul (List.mem_of_mem_take h)
  have cut := strncmp_spec n noNul t.noNul rest []
  rwa [List.take_take, Nat.min_self] at cut

end CharBuf

end Lib
