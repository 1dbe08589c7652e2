import OpenQueue.Lib.JavaText
import OpenQueue.Lib.Lists
import Mathlib

/-!
# Decimal integers as text

Which texts are decimal integers, and that the text of an `int` is one.
-/

namespace Lib

/-- The number that a text of digits spells. -/
def natLiteral? (ds : Text) : Option Nat :=
  if ds ≠ [] ∧ ds.all Char.isDigit then some (Nat.ofDigitChars 10 ds 0) else none

/-- The integer that a text of digits spells, perhaps after a sign. -/
def intLiteral? : Text → Option Int
  | '-' :: ds => (natLiteral? ds).map fun n : Nat => -(n : Int)
  | '+' :: ds => (natLiteral? ds).map fun n : Nat => (n : Int)
  | ds => (natLiteral? ds).map fun n : Nat => (n : Int)

theorem isDigit_of_mem {n : Nat} {c : Char} (mem : c ∈ Nat.toDigits 10 n) : c.isDigit :=
  Nat.isDigit_of_mem_toDigits (by decide) (by decide) mem

theorem natLiteral?_toDigits (n : Nat) : natLiteral? (Nat.toDigits 10 n) = some n := by
  have digits : (Nat.toDigits 10 n).all Char.isDigit := by
    rw [List.all_eq_true]
    exact fun c mem => isDigit_of_mem mem
  rw [natLiteral?, if_pos ⟨Nat.toDigits_ne_nil, digits⟩, Nat.ofDigitChars_ten_toDigits]

/-- A text of digits has no sign. -/
theorem intLiteral?_of_digits {ds : Text} (digits : ∀ c ∈ ds, c.isDigit) :
    intLiteral? ds = (natLiteral? ds).map fun n : Nat => (n : Int) := by
  rw [intLiteral?.eq_def]
  split
  · exact absurd (digits '-' List.mem_cons_self) (by decide)
  · exact absurd (digits '+' List.mem_cons_self) (by decide)
  · rfl

theorem toList_toString_natCast (n : Nat) : (toString (n : Int)).toList = Nat.toDigits 10 n := by
  rw [← Nat.toList_repr]
  rfl

theorem toList_toString_neg (n : Nat) (pos : 0 < n) : (toString (-n : Int)).toList = '-' :: Nat.toDigits 10 n := by
  obtain ⟨m, rfl⟩ := Nat.exists_eq_succ_of_ne_zero (Nat.ne_of_gt pos)
  rw [← Nat.toList_repr]
  show (Int.repr (Int.negSucc m)).toList = _
  rw [Int.repr]
  simp

/-- Digits, after a minus sign if the number is negative. -/
theorem toList_toString_int (z : Int) :
    (0 ≤ z ∧ (toString z).toList = Nat.toDigits 10 z.natAbs) ∨
      (z < 0 ∧ (toString z).toList = '-' :: Nat.toDigits 10 z.natAbs) := by
  rcases Int.eq_nat_or_neg z with ⟨n, rfl | rfl⟩
  · exact .inl ⟨Int.natCast_nonneg n, by rw [toList_toString_natCast, Int.natAbs_natCast]⟩
  · rcases Nat.eq_zero_or_pos n with rfl | pos
    · exact .inl ⟨Int.le_refl _, rfl⟩
    · exact .inr ⟨by omega, by rw [toList_toString_neg n pos, Int.natAbs_neg, Int.natAbs_natCast]⟩

theorem intLiteral?_toString (z : Int) : intLiteral? (toString z).toList = some z := by
  rcases toList_toString_int z with ⟨sign, text⟩ | ⟨sign, text⟩
  · rw [text, intLiteral?_of_digits fun c mem => isDigit_of_mem mem, natLiteral?_toDigits,
      Option.map_some, Int.natAbs_of_nonneg sign]
  · rw [text, intLiteral?, natLiteral?_toDigits, Option.map_some, Option.some.injEq]
    omega

theorem intLiteral?_intText (n : BitVec 32) : intLiteral? (intText n) = some n.toInt := intLiteral?_toString n.toInt

theorem intText_inj {n m : BitVec 32} : intText n = intText m ↔ n = m := by
  refine ⟨fun same => ?_, congrArg intText⟩
  have values := congrArg intLiteral? same
  rw [intLiteral?_intText, intLiteral?_intText, Option.some.injEq] at values
  exact BitVec.eq_of_toInt_eq values

theorem intText_ne_nil (n : BitVec 32) : intText n ≠ [] := by
  intro empty
  have value := intLiteral?_intText n
  rw [empty] at value
  cases value

theorem mem_intText {n : BitVec 32} {c : Char} (mem : c ∈ intText n) : c.isDigit ∨ c = '-' := by
  rcases toList_toString_int n.toInt with ⟨-, text⟩ | ⟨-, text⟩ <;> rw [intText, text] at mem
  · exact .inl (isDigit_of_mem mem)
  · rcases List.mem_cons.1 mem with rfl | mem
    · exact .inr rfl
    · exact .inl (isDigit_of_mem mem)

/-! ## Numbers that Java reads -/

/-- Digits, perhaps with a fraction. -/
def isMagnitude (s : Text) : Bool :=
  s.takeWhile Char.isDigit ≠ [] &&
    match s.dropWhile Char.isDigit with
    | [] => true
    | '.' :: f => f ≠ [] && f.all Char.isDigit
    | _ => false

/-- The sign of a number, and its text without the sign. -/
def signed : Text → Int × Text
  | '-' :: s => (-1, s)
  | s => (1, s)

/-- A decimal number, perhaps with a minus sign. -/
def isDecimal (t : Text) : Bool := isMagnitude (signed t).2

/-- A decimal number without its fraction. -/
def wholePart (t : Text) : Int := (signed t).1 * Nat.ofDigitChars 10 ((signed t).2.takeWhile Char.isDigit) 0

theorem mem_isMagnitude {s : Text} (h : isMagnitude s) {c : Char} (mem : c ∈ s) : c.isDigit ∨ c = '.' := by
  rw [isMagnitude, Bool.and_eq_true] at h
  rw [← List.takeWhile_append_dropWhile (p := Char.isDigit) (l := s), List.mem_append] at mem
  rcases mem with mem | mem
  · exact .inl (List.mem_takeWhile_imp mem)
  · split at h
    · next none => simp [none] at mem
    · next f rest =>
      rw [rest, List.mem_cons] at mem
      rcases mem with rfl | mem
      · exact .inr rfl
      · have digits := (Bool.and_eq_true_iff.1 h.2).2
        exact .inl (List.all_eq_true.1 digits c mem)
    · cases h.2

theorem mem_isDecimal {s : Text} (h : isDecimal s) {c : Char} (mem : c ∈ s) : c.isDigit ∨ c = '-' ∨ c = '.' := by
  unfold isDecimal signed at h
  split at h
  · rcases List.mem_cons.1 mem with rfl | mem
    · exact .inr (.inl rfl)
    · exact (mem_isMagnitude h mem).imp_right .inr
  · exact (mem_isMagnitude h mem).imp_right .inr

theorem ne_nil_of_isDecimal {s : Text} (h : isDecimal s) : s ≠ [] := by
  rintro rfl
  cases h

/-- The `int` that a decimal number is, if it is one. -/
def decimalInt? (t : Text) : Option (BitVec 32) :=
  if isDecimal t ∧ ((signed t).2.dropWhile Char.isDigit).all (fun c => c = '.' || c = '0') ∧
      -2 ^ 31 ≤ wholePart t ∧ wholePart t < 2 ^ 31 then
    some (BitVec.ofInt 32 (wholePart t))
  else none

example : decimalInt? "-12.0".toList = some (-12) ∧ decimalInt? "0.85".toList = none := by decide

/-- Decimal digits are digits, decimal numbers can be read, and the cast to `int` keeps
the value of those that are an `int`. -/
structure Jre.ReadsDecimals (jre : Jre) : Prop where
  digit : ∀ c : Char, c.isDigit → jre.digit c = some (c.toNat - 48)
  double : ∀ t, isDecimal t → ∃ d, jre.parseDouble t = some d
  cast : ∀ t n, decimalInt? t = some n → (jre.parseDouble t).map jre.intValue = some n

theorem Jre.magnitude_toDigits {jre : Jre} (digit : ∀ c : Char, c.isDigit → jre.digit c = some (c.toNat - 48)) (n : Nat) :
    jre.magnitude (Nat.toDigits 10 n) = some n := by
  have some : (Nat.toDigits 10 n).isEmpty = false := by simp [Nat.toDigits_ne_nil]
  rw [Jre.magnitude, some, if_neg (by decide), mapM_eq_some_map fun c mem => digit c (isDigit_of_mem mem),
    Option.map_some, List.foldl_map]
  exact congrArg Option.some Nat.ofDigitChars_ten_toDigits

/-- A number with no sign. -/
theorem Jre.parseInt_of_digits {jre : Jre} {ds : Text} (digits : ∀ c ∈ ds, c.isDigit) :
    jre.parseInt ds = (jre.magnitude ds).bind fun n : Nat =>
      if -2 ^ 31 ≤ (n : Int) ∧ (n : Int) < 2 ^ 31 then some (BitVec.ofInt 32 n) else none := by
  rw [Jre.parseInt.eq_def]
  split
  · exact absurd (digits '-' List.mem_cons_self) (by decide)
  · exact absurd (digits '+' List.mem_cons_self) (by decide)
  · rfl

/-- The text of an `int` is read as that `int`. -/
theorem Jre.parseInt_intText {jre : Jre} (digit : ∀ c : Char, c.isDigit → jre.digit c = some (c.toNat - 48))
    (n : BitVec 32) : jre.parseInt (intText n) = some n := by
  have range : -2 ^ 31 ≤ n.toInt ∧ n.toInt < 2 ^ 31 := ⟨BitVec.le_toInt n, BitVec.toInt_lt⟩
  rcases toList_toString_int n.toInt with ⟨sign, text⟩ | ⟨sign, text⟩
  · rw [intText, text, Jre.parseInt_of_digits fun c mem => isDigit_of_mem mem, Jre.magnitude_toDigits digit, Option.bind_some,
      Int.natAbs_of_nonneg sign, if_pos range, BitVec.ofInt_toInt]
  · have value : -(n.toInt.natAbs : Int) = n.toInt := by omega
    rw [intText, text, Jre.parseInt, Jre.magnitude_toDigits digit, Option.bind_some, value]
    show (if -2 ^ 31 ≤ n.toInt ∧ n.toInt < 2 ^ 31 then some (BitVec.ofInt 32 n.toInt) else none) = some n
    rw [if_pos range, BitVec.ofInt_toInt]

/-! ## Integers through `double` -/

/-- The cast to `int` of the `double` nearest to an integer. -/
def saturate (z : Int) : BitVec 32 := BitVec.ofInt 32 (max (-2 ^ 31) (min z (2 ^ 31 - 1)))

/-- Decimal integers are read as the nearest `double`, and the cast to `int` goes to the
nearest `int`. -/
structure Jre.ReadsIntegers (jre : Jre) : Prop where
  read : ∀ t z, intLiteral? t = some z → (jre.parseDouble t).map jre.intValue = some (saturate z)

theorem toInt_saturate (z : Int) : (saturate z).toInt = max (-2 ^ 31) (min z (2 ^ 31 - 1)) := by
  rw [saturate, BitVec.toInt_ofInt, Int.bmod_eq_of_le_mul_two] <;> omega

end Lib
