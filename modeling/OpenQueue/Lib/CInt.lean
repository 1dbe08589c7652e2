import Mathlib

/-!
# Integers of C on a 64-bit machine

The three types that an expression over `int`, `unsigned int` and decimal constants can
have, the usual arithmetic conversions between them, and the comparison operators. On a
little-endian machine a field in network byte order is loaded with its bytes swapped.
-/

namespace Lib

/-- A value of type `int`, `unsigned int` or `long`. -/
inductive CInt where
  | int (v : BitVec 32)
  | unsigned (v : BitVec 32)
  | long (v : BitVec 64)

/-- The comparison operators. -/
inductive Comparison where
  | eq
  | ne
  | lt
  | le
  | gt
  | ge
  deriving DecidableEq

/-- The comparison of integers. -/
def Comparison.holds : Comparison → Int → Int → Bool
  | .eq, a, b => a = b
  | .ne, a, b => a ≠ b
  | .lt, a, b => a < b
  | .le, a, b => a ≤ b
  | .gt, a, b => a > b
  | .ge, a, b => a ≥ b

/-- The bits of an `int` as `unsigned int`. -/
theorem toNat_eq_toInt (c : BitVec 32) : (c.toNat : Int) = if c.toInt < 0 then c.toInt + 2 ^ 32 else c.toInt := by
  have bound := c.isLt
  rw [BitVec.toInt_eq_toNat_cond]
  split <;> split <;> omega

namespace CInt

def value : CInt → Int
  | .int v => v.toInt
  | .unsigned v => v.toNat
  | .long v => v.toInt

/-- The conversion to `int`. -/
def toInt32 : CInt → BitVec 32
  | .int v => v
  | .unsigned v => v
  | .long v => v.setWidth 32

/-- The values of two operands at their common type. An `int` that meets an `unsigned
int` keeps its bits, and a `long` can hold every value of the other two. -/
def converted : CInt → CInt → Int × Int
  | .int a, .int b => (a.toInt, b.toInt)
  | .int a, .unsigned b => (a.toNat, b.toNat)
  | .unsigned a, .int b => (a.toNat, b.toNat)
  | .unsigned a, .unsigned b => (a.toNat, b.toNat)
  | a, b => (a.value, b.value)

/-- `a OP b`, which is 0 or 1. -/
def compare (op : Comparison) (a b : CInt) : CInt :=
  .int (if op.holds (converted a b).1 (converted a b).2 then 1 else 0)

/-- A decimal constant, after a minus sign if it is negative. The constant 2147483648
does not fit an `int`, so its negation is a `long`. -/
def constant (n : BitVec 32) : CInt := if n = BitVec.intMin 32 then .long (BitVec.ofInt 64 n.toInt) else .int n

theorem value_constant (n : BitVec 32) : (constant n).value = n.toInt := by
  rw [constant]
  split
  · next least =>
    subst least
    decide
  · rfl

theorem toInt32_constant (n : BitVec 32) : (constant n).toInt32 = n := by
  rw [constant]
  split
  · next least =>
    subst least
    decide
  · rfl

theorem value_compare (op : Comparison) (a b : CInt) :
    (compare op a b).value = if op.holds (converted a b).1 (converted a b).2 then 1 else 0 := by
  rw [compare, value]
  split <;> rfl

theorem converted_swap (a b : CInt) : converted b a = (converted a b).swap := by
  cases a <;> cases b <;> rfl

/-- Of type `unsigned int`. -/
def isUnsigned : CInt → Bool
  | .unsigned _ => true
  | _ => false

/-- The value that meets an `unsigned int`: the bits of an `int`, and a `long` as it is. -/
def besideUnsigned : CInt → Int
  | .int v => v.toNat
  | .unsigned v => v.toNat
  | .long v => v.toInt

/-- What is compared depends on whether one of the two is unsigned. -/
theorem converted_eq (a b : CInt) :
    converted a b =
      if a.isUnsigned || b.isUnsigned then (a.besideUnsigned, b.besideUnsigned) else (a.value, b.value) := by
  cases a <;> cases b <;> rfl

theorem besideUnsigned_of_nonneg {a : CInt} (nonneg : 0 ≤ a.value) : a.besideUnsigned = a.value := by
  cases a with
  | int v => exact (toNat_eq_toInt v).trans (if_neg (Int.not_lt.2 nonneg))
  | unsigned v => rfl
  | long v => rfl

theorem isUnsigned_constant (n : BitVec 32) : (constant n).isUnsigned = false := by
  rw [constant]
  split <;> rfl

theorem besideUnsigned_constant (n : BitVec 32) :
    (constant n).besideUnsigned = if -2 ^ 31 < n.toInt ∧ n.toInt < 0 then n.toInt + 2 ^ 32 else n.toInt := by
  have low := BitVec.le_toInt n
  rw [constant]
  split
  · next least =>
    subst least
    decide
  · next other =>
    have other : n.toInt ≠ -2 ^ 31 := fun least => other (BitVec.eq_of_toInt_eq least)
    rw [besideUnsigned, toNat_eq_toInt]
    split <;> split <;> omega

end CInt

/-- A narrower unsigned value keeps its value when it is promoted to `int`. -/
theorem toInt_setWidth_of_lt {w : Nat} (x : BitVec w) (small : w < 32) : (x.setWidth 32).toInt = x.toNat := by
  have bound : x.toNat < 2 ^ 31 := Nat.lt_of_lt_of_le x.isLt (Nat.pow_le_pow_right (by decide) (by omega))
  rw [BitVec.toInt_setWidth, Int.bmod_eq_of_le_mul_two] <;> omega

/-! ## Byte order -/

/-- Two bytes in the other order. -/
def swap16 (x : BitVec 16) : BitVec 16 := BitVec.ofNat 16 (x.toNat % 2 ^ 8 * 2 ^ 8 + x.toNat / 2 ^ 8)

/-- Four bytes in the other order. -/
def swap32 (x : BitVec 32) : BitVec 32 :=
  BitVec.ofNat 32 (x.toNat % 2 ^ 8 * 2 ^ 24 + x.toNat / 2 ^ 8 % 2 ^ 8 * 2 ^ 16 + x.toNat / 2 ^ 16 % 2 ^ 8 * 2 ^ 8 +
    x.toNat / 2 ^ 24)

theorem toNat_swap16 (x : BitVec 16) : (swap16 x).toNat = x.toNat % 2 ^ 8 * 2 ^ 8 + x.toNat / 2 ^ 8 := by
  have small := x.isLt
  rw [swap16, BitVec.toNat_ofNat, Nat.mod_eq_of_lt (by omega)]

theorem toNat_swap32 (x : BitVec 32) : (swap32 x).toNat =
    x.toNat % 2 ^ 8 * 2 ^ 24 + x.toNat / 2 ^ 8 % 2 ^ 8 * 2 ^ 16 + x.toNat / 2 ^ 16 % 2 ^ 8 * 2 ^ 8 +
      x.toNat / 2 ^ 24 := by
  have small := x.isLt
  rw [swap32, BitVec.toNat_ofNat, Nat.mod_eq_of_lt (by omega)]

@[simp] theorem swap16_swap16 (x : BitVec 16) : swap16 (swap16 x) = x := by
  have small := x.isLt
  apply BitVec.eq_of_toNat_eq
  rw [toNat_swap16, toNat_swap16]
  omega

/-- The bytes of a number that is given by its bytes. -/
theorem bytes_of_eq {n a b c d : Nat} (hb : b < 2 ^ 8) (hc : c < 2 ^ 8) (hd : d < 2 ^ 8)
    (eq : n = a * 2 ^ 24 + b * 2 ^ 16 + c * 2 ^ 8 + d) :
    n % 2 ^ 8 = d ∧ n / 2 ^ 8 % 2 ^ 8 = c ∧ n / 2 ^ 16 % 2 ^ 8 = b ∧ n / 2 ^ 24 = a := by
  omega

@[simp] theorem swap32_swap32 (x : BitVec 32) : swap32 (swap32 x) = x := by
  have small := x.isLt
  obtain ⟨h0, h1, h2, h3⟩ := bytes_of_eq (by omega) (by omega) (by omega) (toNat_swap32 x)
  apply BitVec.eq_of_toNat_eq
  rw [toNat_swap32, h0, h1, h2, h3]
  omega

theorem swap16_inj {x y : BitVec 16} : swap16 x = swap16 y ↔ x = y :=
  ⟨fun same => by rw [← swap16_swap16 x, same, swap16_swap16], congrArg swap16⟩

theorem swap32_inj {x y : BitVec 32} : swap32 x = swap32 y ↔ x = y :=
  ⟨fun same => by rw [← swap32_swap32 x, same, swap32_swap32], congrArg swap32⟩

theorem toNat_swap32_eq_zero_iff {x : BitVec 32} : (swap32 x).toNat = 0 ↔ x.toNat = 0 := by
  have inj := swap32_inj (x := x) (y := 0)
  rwa [show swap32 0 = 0 by decide, ← BitVec.toNat_inj, ← BitVec.toNat_inj] at inj

/-- Four bytes that read the same in both orders. -/
theorem swap32_eq_self_iff {x : BitVec 32} :
    swap32 x = x ↔ x.toNat % 2 ^ 8 = x.toNat / 2 ^ 24 ∧ x.toNat / 2 ^ 8 % 2 ^ 8 = x.toNat / 2 ^ 16 % 2 ^ 8 := by
  have small := x.isLt
  rw [← BitVec.toNat_inj, toNat_swap32]
  constructor
  · intro same
    obtain ⟨h0, h1, h2, h3⟩ := bytes_of_eq (by omega) (by omega) (by omega) same.symm
    exact ⟨h0, h1⟩
  · rintro ⟨outer, inner⟩
    rw [← outer, inner, outer]
    omega

end Lib
