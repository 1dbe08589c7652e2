import OpenQueue.Gen.Meaning

/-!
# Inline expressions keep their meaning, or not

An integer literal goes through `double` and is cut to the range of `int`, a field of
two or four bytes is compared with its bytes in the wrong order, and an `int` that meets
an address becomes unsigned. `Inline.exact` says for which expressions none of this can
be seen, whatever the queue and the packet are.
-/

namespace OpenQueue.Gen

open Lib (Text Jre CInt)

/-! ## Which expressions are exact -/

/-- An operand that C reads as it is written. -/
def Operand.plain : Operand Int → Bool
  | .queue _ => true
  | .packet (.byte _) => true
  | .packet _ => false
  | .num z => -2 ^ 31 ≤ z ∧ z < 2 ^ 31

/-- No queue and no packet shows a difference between an operand and a literal that is
not one of the literals. -/
def Operand.literalEqExact : Operand Int → Int → Bool
  | .queue _, z => -2 ^ 31 ≤ z ∧ z < 2 ^ 31
  | .packet (.byte _), _ => true
  | .packet (.short _), z => z < 0 ∨ 2 ^ 16 ≤ z ∨ z % 2 ^ 8 = z / 2 ^ 8
  | .packet (.word _), z =>
    z ≤ -2 ^ 31 ∨ z = 0xffffff7f ∨
      (0 ≤ z ∧ z < 2 ^ 31 ∧ z % 2 ^ 8 = z / 2 ^ 24 ∧ z / 2 ^ 8 % 2 ^ 8 = z / 2 ^ 16 % 2 ^ 8)
  | .num z', z => z' = z ∨ (z' < 2 ^ 31 - 1 ∨ z < 2 ^ 31 - 1) ∧ (-2 ^ 31 < z' ∨ -2 ^ 31 < z)

/-- `==` and `!=` are exact. -/
def Operand.eqExact : Operand Int → Operand Int → Bool
  | o, .num z => o.literalEqExact z
  | .num z, o => o.literalEqExact z
  | .packet (.short _), .packet (.short _) => true
  | .packet (.word _), .packet (.word _) => true
  | o, o' => o.plain && o'.plain

/-- `<` is exact. -/
def Operand.ltExact : Operand Int → Operand Int → Bool
  | .num z, .num z' => z' ≤ z ∨ (z < 2 ^ 31 - 1 ∧ -2 ^ 31 < z')
  | .queue _, .num z => z < 2 ^ 31
  | .num z, .queue _ => -2 ^ 31 ≤ z
  | .packet (.byte _), .num _ => true
  | .num _, .packet (.byte _) => true
  | .packet (.short _), .num z => z ≤ 1 ∨ 2 ^ 16 - 1 ≤ z
  | .num z, .packet (.short _) => z ≤ 0 ∨ 2 ^ 16 - 2 ≤ z
  | .packet (.word _), .num z => z ≤ -2 ^ 31 ∨ z = 0 ∨ z = 1
  | .num z, .packet (.word _) => z ≤ -2 ^ 31 ∨ z = 0
  | .packet (.short f), .packet (.short g) => f = g
  | .packet (.word f), .packet (.word g) => f = g
  | o, o' => o.plain && o'.plain

/-- The C source of an expression has the value of the expression. -/
def Inline.exact : Inline Int → Bool
  | .operand o => o.plain
  | .compare .eq lhs rhs => lhs.eqExact rhs
  | .compare .ne lhs rhs => lhs.eqExact rhs
  | .compare .lt lhs rhs => lhs.ltExact rhs
  | .compare .ge lhs rhs => lhs.ltExact rhs
  | .compare .gt lhs rhs => rhs.ltExact lhs
  | .compare .le lhs rhs => rhs.ltExact lhs

/-! ## What C compares -/

/-- The operand that is printed. -/
def Operand.printed : Operand Int → Operand (BitVec 32)
  | .queue a => .queue a
  | .packet a => .packet a
  | .num z => .num (Lib.saturate z)

def Inline.printed : Inline Int → Inline (BitVec 32)
  | .operand o => .operand o.printed
  | .compare op lhs rhs => .compare op lhs.printed rhs.printed

/-- The value that C reads for an operand. -/
def Operand.seen (env : Env) : Operand Int → Int
  | .queue a => (env.queue a).toInt
  | .packet (.byte f) => (env.header.byte f).toNat
  | .packet (.short f) => (Lib.swap16 (env.header.short f)).toNat
  | .packet (.word f) => (Lib.swap32 (env.header.word f)).toNat
  | .num z => max (-2 ^ 31) (min z (2 ^ 31 - 1))

/-- The same value, next to one of type `unsigned int`. -/
def Operand.seenUnsigned (env : Env) : Operand Int → Int
  | .queue a => (env.queue a).toNat
  | .num z => if -2 ^ 31 < z ∧ z < 0 then z + 2 ^ 32 else max (-2 ^ 31) (min z (2 ^ 31 - 1))
  | o => o.seen env

theorem Operand.isWord_printed (o : Operand Int) : o.printed.isWord = o.isWord := by
  rcases o with a | (f | f | f) | z <;> rfl

theorem Operand.value_load (env : Env) (o : Operand Int) : (o.printed.load env).value = o.seen env := by
  rcases o with a | (f | f | f) | z
  · rfl
  · exact PacketAttr.read_byte env f
  · exact PacketAttr.read_short env f
  · rfl
  · exact (CInt.value_constant _).trans (Lib.toInt_saturate z)

theorem Operand.besideUnsigned_load (env : Env) (o : Operand Int) :
    (o.printed.load env).besideUnsigned = o.seenUnsigned env := by
  rcases o with a | (f | f | f) | z
  · rfl
  · exact (PacketAttr.besideUnsigned_load env _).trans (PacketAttr.read_byte env f)
  · exact (PacketAttr.besideUnsigned_load env _).trans (PacketAttr.read_short env f)
  · rfl
  · rw [seenUnsigned, printed, load, CInt.besideUnsigned_constant, Lib.toInt_saturate]
    split <;> split <;> omega

/-- The two integers that C compares in what is printed. -/
def comparedPrinted (env : Env) (lhs rhs : Operand Int) : Int × Int := compared env lhs.printed rhs.printed

theorem comparedPrinted_swap (env : Env) (o o' : Operand Int) :
    comparedPrinted env o' o = (comparedPrinted env o o').swap := compared_swap ..

theorem comparedPrinted_of_not_word {env : Env} {o o' : Operand Int} (h : o.isWord = false) (h' : o'.isWord = false) :
    comparedPrinted env o o' = (o.seen env, o'.seen env) := by
  rw [← Operand.isWord_printed] at h h'
  rw [comparedPrinted, compared_of_not_word h h', Operand.value_load, Operand.value_load]

theorem comparedPrinted_of_word {env : Env} {o o' : Operand Int} (h : o.isWord || o'.isWord) :
    comparedPrinted env o o' = (o.seenUnsigned env, o'.seenUnsigned env) := by
  rw [← o.isWord_printed, ← o'.isWord_printed] at h
  rw [comparedPrinted, compared_of_word h, Operand.besideUnsigned_load, Operand.besideUnsigned_load]

theorem comparedPrinted_word (env : Env) (f : WordField) (o : Operand Int) :
    comparedPrinted env (.packet (.word f)) o = ((Operand.packet (.word f)).seen env, o.seenUnsigned env) :=
  comparedPrinted_of_word rfl

theorem comparedPrinted_eq (env : Env) (o o' : Operand Int) :
    comparedPrinted env o o' =
      if o.isWord || o'.isWord then (o.seenUnsigned env, o'.seenUnsigned env) else (o.seen env, o'.seen env) := by
  split
  · next word => exact comparedPrinted_of_word word
  · next other =>
    obtain ⟨h, h'⟩ := Bool.or_eq_false_iff.1 (Bool.not_eq_true _ ▸ other)
    exact comparedPrinted_of_not_word h h'

/-! ## Equality -/

/-- `==` gives what it gives for integers. -/
def EqKept (o o' : Operand Int) : Prop :=
  ∀ env, (comparedPrinted env o o').1 = (comparedPrinted env o o').2 ↔ o.value env = o'.value env

/-- `<` gives what it gives for integers. -/
def LtKept (o o' : Operand Int) : Prop :=
  ∀ env, (comparedPrinted env o o').1 < (comparedPrinted env o o').2 ↔ o.value env < o'.value env

/-- All counters, and all fields of one width, have one value. -/
def Env.of (q : BitVec 32) (b : BitVec 8) (s : BitVec 16) (w : BitVec 32) : Env :=
  ⟨fun _ => q, ⟨fun _ => b, fun _ => s, fun _ => w⟩⟩

theorem eqKept_comm {o o' : Operand Int} : EqKept o o' ↔ EqKept o' o := by
  refine forall_congr' fun env => ?_
  rw [comparedPrinted_swap env o' o]
  exact iff_congr eq_comm eq_comm

theorem eqKept_of_not_word {o o' : Operand Int} (h : o.isWord = false) (h' : o'.isWord = false) :
    EqKept o o' ↔ ∀ env, o.seen env = o'.seen env ↔ o.value env = o'.value env := by
  refine forall_congr' fun env => ?_
  rw [comparedPrinted_of_not_word h h']

theorem eqKept_word {f : WordField} {o : Operand Int} :
    EqKept (.packet (.word f)) o ↔
      ∀ env, ((Lib.swap32 (env.header.word f)).toNat : Int) = o.seenUnsigned env ↔
        ((env.header.word f).toNat : Int) = o.value env := by
  refine forall_congr' fun env => ?_
  rw [comparedPrinted_word]
  rfl

theorem eqKept_queue_num {a : QueueAttr} {z : Int} : EqKept (.queue a) (.num z) ↔ -2 ^ 31 ≤ z ∧ z < 2 ^ 31 := by
  rw [eqKept_of_not_word rfl rfl]
  simp only [Operand.seen, Operand.value]
  constructor
  · intro kept
    have high : (2 ^ 31 - 1 : Int) = max (-2 ^ 31) (min z (2 ^ 31 - 1)) ↔ (2 ^ 31 - 1 : Int) = z :=
      kept (.of (BitVec.intMax 32) 0 0 0)
    have low : (-2 ^ 31 : Int) = max (-2 ^ 31) (min z (2 ^ 31 - 1)) ↔ (-2 ^ 31 : Int) = z :=
      kept (.of (BitVec.intMin 32) 0 0 0)
    omega
  · intro range env
    omega

theorem eqKept_byte_num {f : ByteField} {z : Int} : EqKept (.packet (.byte f)) (.num z) := by
  rw [eqKept_of_not_word rfl rfl]
  intro env
  have small := (env.header.byte f).isLt
  simp only [Operand.seen, Operand.value]
  omega

theorem eqKept_short_num {f : ShortField} {z : Int} :
    EqKept (.packet (.short f)) (.num z) ↔ z < 0 ∨ 2 ^ 16 ≤ z ∨ z % 2 ^ 8 = z / 2 ^ 8 := by
  rw [eqKept_of_not_word rfl rfl]
  simp only [Operand.seen, Operand.value, Lib.toNat_swap16]
  constructor
  · intro kept
    by_contra other
    have kept := kept (.of 0 0 (BitVec.ofNat 16 z.toNat) 0)
    simp only [Env.of, BitVec.toNat_ofNat] at kept
    omega
  · intro cond env
    have small := (env.header.short f).isLt
    omega

theorem eqKept_word_num {f : WordField} {z : Int} :
    EqKept (.packet (.word f)) (.num z) ↔
      z ≤ -2 ^ 31 ∨ z = 0xffffff7f ∨
        (0 ≤ z ∧ z < 2 ^ 31 ∧ z % 2 ^ 8 = z / 2 ^ 24 ∧ z / 2 ^ 8 % 2 ^ 8 = z / 2 ^ 16 % 2 ^ 8) := by
  rw [eqKept_word]
  simp only [Operand.seenUnsigned, Operand.value]
  have swapped : (Lib.swap32 0xffffff7f).toNat = 2 ^ 31 - 1 := by decide
  have plain : (0xffffff7f : BitVec 32).toNat = 0xffffff7f := by decide
  constructor
  · intro kept
    by_contra other
    rcases Int.lt_or_le z 0 with negative | nonneg
    · have kept := kept (.of 0 0 0 (Lib.swap32 (BitVec.ofNat 32 (z + 2 ^ 32).toNat)))
      simp only [Env.of, Lib.swap32_swap32, BitVec.toNat_ofNat] at kept
      rw [if_pos (by omega)] at kept
      omega
    · rcases Int.lt_or_le z (2 ^ 31) with small | large
      · obtain ⟨n, rfl⟩ := Int.eq_ofNat_of_zero_le nonneg
        have value : (BitVec.ofNat 32 n).toNat = n := by rw [BitVec.toNat_ofNat, Nat.mod_eq_of_lt (by omega)]
        have kept := kept (.of 0 0 0 (BitVec.ofNat 32 n))
        have fixed := Lib.swap32_eq_self_iff (x := BitVec.ofNat 32 n)
        rw [← BitVec.toNat_inj, value] at fixed
        simp only [Env.of, value, iff_true] at kept
        rw [if_neg (by omega)] at kept
        omega
      · have kept := kept (.of 0 0 0 0xffffff7f)
        simp only [Env.of, swapped, plain] at kept
        rw [if_neg (by omega)] at kept
        omega
  · rintro cond env
    generalize env.header.word f = w
    have small := (Lib.swap32 w).isLt
    rw [if_neg (by omega)]
    rcases cond with low | rfl | ⟨nonneg, high, outer, inner⟩
    · omega
    · have inj := Lib.swap32_inj (x := w) (y := 0xffffff7f)
      rw [← BitVec.toNat_inj, ← BitVec.toNat_inj, swapped, plain] at inj
      omega
    · obtain ⟨n, rfl⟩ := Int.eq_ofNat_of_zero_le nonneg
      have value : (BitVec.ofNat 32 n).toNat = n := by rw [BitVec.toNat_ofNat, Nat.mod_eq_of_lt (by omega)]
      have fixed : Lib.swap32 (BitVec.ofNat 32 n) = BitVec.ofNat 32 n := by
        rw [Lib.swap32_eq_self_iff, value]
        omega
      have inj := Lib.swap32_inj (x := w) (y := BitVec.ofNat 32 n)
      rw [fixed, ← BitVec.toNat_inj, ← BitVec.toNat_inj, value] at inj
      omega

theorem eqKept_num_num {z z' : Int} :
    EqKept (.num z) (.num z') ↔ z = z' ∨ (z < 2 ^ 31 - 1 ∨ z' < 2 ^ 31 - 1) ∧ (-2 ^ 31 < z ∨ -2 ^ 31 < z') := by
  rw [eqKept_of_not_word rfl rfl]
  simp only [Operand.seen, Operand.value]
  constructor
  · intro kept
    have kept := kept (.of 0 0 0 0)
    omega
  · intro cond env
    omega

theorem eqKept_literal {o : Operand Int} {z : Int} : EqKept o (.num z) ↔ o.literalEqExact z := by
  rcases o with a | (f | f | f) | z'
  · exact eqKept_queue_num.trans decide_eq_true_iff.symm
  · exact iff_of_true eqKept_byte_num rfl
  · exact eqKept_short_num.trans decide_eq_true_iff.symm
  · exact eqKept_word_num.trans decide_eq_true_iff.symm
  · exact eqKept_num_num.trans decide_eq_true_iff.symm

theorem Operand.isWord_of_plain {o : Operand Int} (plain : o.plain) : o.isWord = false := by
  rcases o with a | (f | f | f) | z <;> first | rfl | cases plain

theorem Operand.seen_of_plain {env : Env} {o : Operand Int} (plain : o.plain) : o.seen env = o.value env := by
  rcases o with a | (f | f | f) | z
  · rfl
  · rfl
  · cases plain
  · cases plain
  · have range := of_decide_eq_true plain
    simp only [seen, value]
    omega

theorem comparedPrinted_of_plain {env : Env} {o o' : Operand Int} (h : o.plain) (h' : o'.plain) :
    comparedPrinted env o o' = (o.value env, o'.value env) := by
  rw [comparedPrinted_of_not_word (Operand.isWord_of_plain h) (Operand.isWord_of_plain h'), Operand.seen_of_plain h,
    Operand.seen_of_plain h']

theorem eqKept_of_plain {o o' : Operand Int} (h : o.plain) (h' : o'.plain) : EqKept o o' := by
  intro env
  rw [comparedPrinted_of_plain h h']

theorem eqKept_short_short {f g : ShortField} : EqKept (.packet (.short f)) (.packet (.short g)) := by
  rw [eqKept_of_not_word rfl rfl]
  intro env
  simp only [Operand.seen, Operand.value, Int.natCast_inj, BitVec.toNat_inj, Lib.swap16_inj]

theorem eqKept_word_word {f g : WordField} : EqKept (.packet (.word f)) (.packet (.word g)) := by
  rw [eqKept_word]
  intro env
  simp only [Operand.seenUnsigned, Operand.seen, Operand.value, Int.natCast_inj, BitVec.toNat_inj, Lib.swap32_inj]

/-- What C reads for an attribute that is 1. -/
def Operand.seenOne : Operand Int → Option Int
  | .queue _ => some 1
  | .packet (.byte _) => some 1
  | .packet (.short _) => some (2 ^ 8)
  | .packet (.word _) => some (2 ^ 24)
  | .num _ => none

theorem Operand.value_ones {o : Operand Int} {x : Int} (read : o.seenOne = some x) : o.value (.of 1 1 1 1) = 1 := by
  rcases o with a | (f | f | f) | z <;> first | rfl | cases read

theorem comparedPrinted_ones {o o' : Operand Int} {x y : Int} (read : o.seenOne = some x) (read' : o'.seenOne = some y) :
    comparedPrinted (.of 1 1 1 1) o o' = (x, y) := by
  have short : (Lib.swap16 1).toNat = 2 ^ 8 := by decide
  have word : (Lib.swap32 1).toNat = 2 ^ 24 := by decide
  have seen : ∀ {o : Operand Int} {x : Int}, o.seenOne = some x →
      o.seen (.of 1 1 1 1) = x ∧ o.seenUnsigned (.of 1 1 1 1) = x := by
    intro o x read
    rcases o with a | (f | f | f) | z <;> cases read
    · exact ⟨rfl, rfl⟩
    · exact ⟨rfl, rfl⟩
    · exact ⟨congrArg Int.ofNat short, congrArg Int.ofNat short⟩
    · exact ⟨congrArg Int.ofNat word, congrArg Int.ofNat word⟩
  rw [comparedPrinted_eq, (seen read).1, (seen read).2, (seen read').1, (seen read').2, ite_self]

/-- Attributes that are all 1, and that C reads as different numbers. -/
theorem not_eqKept {o o' : Operand Int} {x y : Int} (read : o.seenOne = some x) (read' : o'.seenOne = some y)
    (differ : x ≠ y) : ¬ EqKept o o' := by
  intro kept
  have kept := (kept (.of 1 1 1 1)).2 ((Operand.value_ones read).trans (Operand.value_ones read').symm)
  rw [comparedPrinted_ones read read'] at kept
  exact differ kept

theorem eqKept_iff {o o' : Operand Int} : EqKept o o' ↔ o.eqExact o' := by
  rcases o' with a' | (f' | f' | f') | z'
  case num => exact eqKept_literal
  all_goals
    rcases o with a | (f | f | f) | z
    case num => exact eqKept_comm.trans eqKept_literal
  -- against a counter
  · exact iff_of_true (eqKept_of_plain rfl rfl) rfl
  · exact iff_of_true (eqKept_of_plain rfl rfl) rfl
  · exact iff_of_false (not_eqKept rfl rfl (by decide)) Bool.false_ne_true
  · exact iff_of_false (not_eqKept rfl rfl (by decide)) Bool.false_ne_true
  -- against a byte
  · exact iff_of_true (eqKept_of_plain rfl rfl) rfl
  · exact iff_of_true (eqKept_of_plain rfl rfl) rfl
  · exact iff_of_false (not_eqKept rfl rfl (by decide)) Bool.false_ne_true
  · exact iff_of_false (not_eqKept rfl rfl (by decide)) Bool.false_ne_true
  -- against two bytes
  · exact iff_of_false (not_eqKept rfl rfl (by decide)) Bool.false_ne_true
  · exact iff_of_false (not_eqKept rfl rfl (by decide)) Bool.false_ne_true
  · exact iff_of_true eqKept_short_short rfl
  · exact iff_of_false (not_eqKept rfl rfl (by decide)) Bool.false_ne_true
  -- against four bytes
  · exact iff_of_false (not_eqKept rfl rfl (by decide)) Bool.false_ne_true
  · exact iff_of_false (not_eqKept rfl rfl (by decide)) Bool.false_ne_true
  · exact iff_of_false (not_eqKept rfl rfl (by decide)) Bool.false_ne_true
  · exact iff_of_true eqKept_word_word rfl

/-! ## Order -/

theorem ltKept_of_not_word {o o' : Operand Int} (h : o.isWord = false) (h' : o'.isWord = false) :
    LtKept o o' ↔ ∀ env, o.seen env < o'.seen env ↔ o.value env < o'.value env := by
  refine forall_congr' fun env => ?_
  rw [comparedPrinted_of_not_word h h']

theorem ltKept_word {f : WordField} {o : Operand Int} :
    LtKept (.packet (.word f)) o ↔
      ∀ env, ((Lib.swap32 (env.header.word f)).toNat : Int) < o.seenUnsigned env ↔
        ((env.header.word f).toNat : Int) < o.value env := by
  refine forall_congr' fun env => ?_
  rw [comparedPrinted_word]
  rfl

theorem ltKept_word_right {f : WordField} {o : Operand Int} :
    LtKept o (.packet (.word f)) ↔
      ∀ env, o.seenUnsigned env < ((Lib.swap32 (env.header.word f)).toNat : Int) ↔
        o.value env < ((env.header.word f).toNat : Int) := by
  refine forall_congr' fun env => ?_
  rw [comparedPrinted_swap, comparedPrinted_word]
  rfl

theorem ltKept_of_plain {o o' : Operand Int} (h : o.plain) (h' : o'.plain) : LtKept o o' := by
  intro env
  rw [comparedPrinted_of_plain h h']

theorem ltKept_num_num {z z' : Int} :
    LtKept (.num z) (.num z') ↔ z' ≤ z ∨ (z < 2 ^ 31 - 1 ∧ -2 ^ 31 < z') := by
  rw [ltKept_of_not_word rfl rfl]
  simp only [Operand.seen, Operand.value]
  constructor
  · intro kept
    have kept := kept (.of 0 0 0 0)
    omega
  · intro cond env
    omega

theorem ltKept_queue_num {a : QueueAttr} {z : Int} : LtKept (.queue a) (.num z) ↔ z < 2 ^ 31 := by
  rw [ltKept_of_not_word rfl rfl]
  simp only [Operand.seen, Operand.value]
  constructor
  · intro kept
    have high : (2 ^ 31 - 1 : Int) < max (-2 ^ 31) (min z (2 ^ 31 - 1)) ↔ (2 ^ 31 - 1 : Int) < z :=
      kept (.of (BitVec.intMax 32) 0 0 0)
    omega
  · intro range env
    have low := BitVec.le_toInt (env.queue a)
    omega

theorem ltKept_num_queue {a : QueueAttr} {z : Int} : LtKept (.num z) (.queue a) ↔ -2 ^ 31 ≤ z := by
  rw [ltKept_of_not_word rfl rfl]
  simp only [Operand.seen, Operand.value]
  constructor
  · intro kept
    have low : max (-2 ^ 31) (min z (2 ^ 31 - 1)) < (-2 ^ 31 : Int) ↔ z < (-2 ^ 31 : Int) :=
      kept (.of (BitVec.intMin 32) 0 0 0)
    omega
  · intro range env
    have high := BitVec.toInt_lt (x := env.queue a)
    omega

theorem ltKept_byte_num {f : ByteField} {z : Int} : LtKept (.packet (.byte f)) (.num z) := by
  rw [ltKept_of_not_word rfl rfl]
  intro env
  have small := (env.header.byte f).isLt
  simp only [Operand.seen, Operand.value]
  omega

theorem ltKept_num_byte {f : ByteField} {z : Int} : LtKept (.num z) (.packet (.byte f)) := by
  rw [ltKept_of_not_word rfl rfl]
  intro env
  have small := (env.header.byte f).isLt
  simp only [Operand.seen, Operand.value]
  omega

theorem ltKept_short_num {f : ShortField} {z : Int} :
    LtKept (.packet (.short f)) (.num z) ↔ z ≤ 1 ∨ 2 ^ 16 - 1 ≤ z := by
  rw [ltKept_of_not_word rfl rfl]
  simp only [Operand.seen, Operand.value, Lib.toNat_swap16]
  constructor
  · intro kept
    -- 0x0001, 0x00ff and 0xfeff are read as 0x0100, 0xff00 and 0xfffe
    have k1 := kept (.of 0 0 0x0001#16 0)
    have k2 := kept (.of 0 0 0x00ff#16 0)
    have k3 := kept (.of 0 0 0xfeff#16 0)
    simp only [Env.of, BitVec.toNat_ofNat] at k1 k2 k3
    omega
  · intro cond env
    have small := (env.header.short f).isLt
    omega

theorem ltKept_num_short {f : ShortField} {z : Int} :
    LtKept (.num z) (.packet (.short f)) ↔ z ≤ 0 ∨ 2 ^ 16 - 2 ≤ z := by
  rw [ltKept_of_not_word rfl rfl]
  simp only [Operand.seen, Operand.value, Lib.toNat_swap16]
  constructor
  · intro kept
    have k1 := kept (.of 0 0 0x0001#16 0)
    have k2 := kept (.of 0 0 0x00ff#16 0)
    have k3 := kept (.of 0 0 0xfeff#16 0)
    simp only [Env.of, BitVec.toNat_ofNat] at k1 k2 k3
    omega
  · intro cond env
    have small := (env.header.short f).isLt
    omega

theorem ltKept_word_num {f : WordField} {z : Int} :
    LtKept (.packet (.word f)) (.num z) ↔ z ≤ -2 ^ 31 ∨ z = 0 ∨ z = 1 := by
  rw [ltKept_word]
  simp only [Operand.seenUnsigned, Operand.value]
  constructor
  · intro kept
    have k0 := kept (.of 0 0 0 0x00#32)
    have k1 := kept (.of 0 0 0 0x01#32)
    have k2 := kept (.of 0 0 0 0xff#32)
    simp only [Env.of, Lib.toNat_swap32, BitVec.toNat_ofNat] at k0 k1 k2
    split at k0 <;> split at k1 <;> split at k2 <;> omega
  · intro cond env
    have zero := Lib.toNat_swap32_eq_zero_iff (x := env.header.word f)
    rw [if_neg (by omega)]
    omega

theorem ltKept_num_word {f : WordField} {z : Int} :
    LtKept (.num z) (.packet (.word f)) ↔ z ≤ -2 ^ 31 ∨ z = 0 := by
  rw [ltKept_word_right]
  simp only [Operand.seenUnsigned, Operand.value]
  constructor
  · intro kept
    have k0 := kept (.of 0 0 0 0x00#32)
    have k1 := kept (.of 0 0 0 0x01#32)
    have k2 := kept (.of 0 0 0 0xff#32)
    simp only [Env.of, Lib.toNat_swap32, BitVec.toNat_ofNat] at k0 k1 k2
    split at k0 <;> split at k1 <;> split at k2 <;> omega
  · intro cond env
    have zero := Lib.toNat_swap32_eq_zero_iff (x := env.header.word f)
    rw [if_neg (by omega)]
    omega

theorem ltKept_short_short {f g : ShortField} : LtKept (.packet (.short f)) (.packet (.short g)) ↔ f = g := by
  rw [ltKept_of_not_word rfl rfl]
  simp only [Operand.seen, Operand.value, Lib.toNat_swap16]
  constructor
  · intro kept
    by_contra differ
    -- 0x00ff and 0x0100 are read as 0xff00 and 0x0001
    have kept := kept ⟨fun _ => 0, ⟨fun _ => 0, fun h => if h = f then 0x00ff#16 else 0x0100#16, fun _ => 0⟩⟩
    simp only [if_true, if_neg (Ne.symm differ), BitVec.toNat_ofNat] at kept
    omega
  · rintro rfl env
    omega

theorem ltKept_word_word {f g : WordField} : LtKept (.packet (.word f)) (.packet (.word g)) ↔ f = g := by
  rw [ltKept_word]
  simp only [Operand.seenUnsigned, Operand.seen, Operand.value]
  constructor
  · intro kept
    by_contra differ
    have kept := kept ⟨fun _ => 0, ⟨fun _ => 0, fun _ => 0, fun h => if h = f then 0x00ff#32 else 0x0100#32⟩⟩
    simp only [if_true, if_neg (Ne.symm differ), Lib.toNat_swap32, BitVec.toNat_ofNat] at kept
    omega
  · rintro rfl env
    omega

/-- The smaller of two attributes, read by C as the greater. -/
theorem not_ltKept (env : Env) {o o' : Operand Int}
    (apart : o.value env < o'.value env ∧ (comparedPrinted env o o').2 ≤ (comparedPrinted env o o').1) : ¬ LtKept o o' :=
  fun kept => Int.not_lt.2 apart.2 ((kept env).2 apart.1)

theorem ltKept_iff {o o' : Operand Int} : LtKept o o' ↔ o.ltExact o' := by
  rcases o' with a' | (f' | f' | f') | z' <;> rcases o with a | (f | f | f) | z
  -- against a counter
  · exact iff_of_true (ltKept_of_plain rfl rfl) rfl
  · exact iff_of_true (ltKept_of_plain rfl rfl) rfl
  · exact iff_of_false (not_ltKept (.of 2 2 1 0) (by cases f <;> cases a' <;> decide)) Bool.false_ne_true
  · exact iff_of_false (not_ltKept (.of 2 2 2 1) (by cases f <;> cases a' <;> decide)) Bool.false_ne_true
  · exact ltKept_num_queue.trans decide_eq_true_iff.symm
  -- against a byte
  · exact iff_of_true (ltKept_of_plain rfl rfl) rfl
  · exact iff_of_true (ltKept_of_plain rfl rfl) rfl
  · exact iff_of_false (not_ltKept (.of 2 2 1 0) (by cases f <;> cases f' <;> decide)) Bool.false_ne_true
  · exact iff_of_false (not_ltKept (.of 2 2 2 1) (by cases f <;> cases f' <;> decide)) Bool.false_ne_true
  · exact iff_of_true ltKept_num_byte rfl
  -- against two bytes
  · exact iff_of_false (not_ltKept (.of 1 1 0x0100 0) (by cases a <;> cases f' <;> decide)) Bool.false_ne_true
  · exact iff_of_false (not_ltKept (.of 1 1 0x0100 0) (by cases f <;> cases f' <;> decide)) Bool.false_ne_true
  · exact ltKept_short_short.trans decide_eq_true_iff.symm
  · exact iff_of_false (not_ltKept (.of 2 2 2 1) (by cases f <;> cases f' <;> decide)) Bool.false_ne_true
  · exact ltKept_num_short.trans decide_eq_true_iff.symm
  -- against four bytes
  · exact iff_of_false (not_ltKept (.of 1 1 1 0x01000000) (by cases a <;> cases f' <;> decide)) Bool.false_ne_true
  · exact iff_of_false (not_ltKept (.of 1 1 1 0x01000000) (by cases f <;> cases f' <;> decide)) Bool.false_ne_true
  · exact iff_of_false (not_ltKept (.of 1 1 1 0x01000000) (by cases f <;> cases f' <;> decide)) Bool.false_ne_true
  · exact ltKept_word_word.trans decide_eq_true_iff.symm
  · exact ltKept_num_word.trans decide_eq_true_iff.symm
  -- against a literal
  · exact ltKept_queue_num.trans decide_eq_true_iff.symm
  · exact iff_of_true ltKept_byte_num rfl
  · exact ltKept_short_num.trans decide_eq_true_iff.symm
  · exact ltKept_word_num.trans decide_eq_true_iff.symm
  · exact ltKept_num_num.trans decide_eq_true_iff.symm

/-! ## Whole expressions -/

theorem Operand.seen_eq_value_iff {o : Operand Int} : (∀ env, o.seen env = o.value env) ↔ o.plain := by
  refine ⟨fun same => ?_, fun plain env => seen_of_plain plain⟩
  rcases o with a | (f | f | f) | z
  · rfl
  · rfl
  · exact absurd (same (.of 1 1 1 1)) (by cases f <;> decide)
  · exact absurd (same (.of 1 1 1 1)) (by cases f <;> decide)
  · have same : max (-2 ^ 31) (min z (2 ^ 31 - 1)) = z := same (.of 1 1 1 1)
    refine decide_eq_true ?_
    omega

/-- A comparison is kept if its truth is. -/
theorem value_compare_eq_iff {op : Lib.Comparison} {o o' : Operand Int} :
    (∀ env, (Inline.cValue env (.compare op o.printed o'.printed)).value = Inline.value env (.compare op o o')) ↔
      ∀ env, op.holds (comparedPrinted env o o').1 (comparedPrinted env o o').2 =
        op.holds (o.value env) (o'.value env) := by
  refine forall_congr' fun env => ?_
  rw [Inline.cValue, CInt.value_compare, Inline.value]
  show (if op.holds (comparedPrinted env o o').1 (comparedPrinted env o o').2 then (1 : Int) else 0) = _ ↔ _
  cases op.holds (comparedPrinted env o o').1 (comparedPrinted env o o').2 <;>
    cases op.holds (o.value env) (o'.value env) <;> decide

theorem Inline.cValue_printed_iff {e : Inline Int} :
    (∀ env, (e.printed.cValue env).value = e.value env) ↔ e.exact := by
  cases e with
  | operand o =>
    rw [exact, ← Operand.seen_eq_value_iff]
    exact forall_congr' fun env => by rw [printed, cValue, Operand.value_load, value]
  | compare op lhs rhs =>
    refine value_compare_eq_iff.trans ?_
    cases op with
    | eq =>
      refine Iff.trans (forall_congr' fun env => ?_) eqKept_iff
      exact decide_eq_decide
    | ne =>
      refine Iff.trans (forall_congr' fun env => ?_) eqKept_iff
      exact decide_eq_decide.trans not_iff_not
    | lt =>
      refine Iff.trans (forall_congr' fun env => ?_) ltKept_iff
      exact decide_eq_decide
    | ge =>
      refine Iff.trans (forall_congr' fun env => ?_) ltKept_iff
      exact decide_eq_decide.trans (by rw [ge_iff_le, ge_iff_le, ← Int.not_lt, ← Int.not_lt, not_iff_not])
    | gt =>
      refine Iff.trans (forall_congr' fun env => ?_) (@ltKept_iff rhs lhs)
      rw [comparedPrinted_swap env lhs rhs]
      exact decide_eq_decide
    | le =>
      refine Iff.trans (forall_congr' fun env => ?_) (@ltKept_iff rhs lhs)
      rw [comparedPrinted_swap env lhs rhs]
      exact decide_eq_decide.trans (by rw [← Int.not_lt, ← Int.not_lt, not_iff_not]; rfl)

/-- The expression in a right-hand side whose numbers are decimal integers. -/
def readSource (rhs : Text) : Option (Inline Int) := do
  let body ← inlineBody rhs
  let e ← readExpr body
  e.mapNum Lib.intLiteral?

section Results

variable {jre : Jre}

theorem Operand.mapNum_toInt? (law : jre.ReadsIntegers) {o : Operand Text} {o' : Operand Int}
    (read : o.mapNum Lib.intLiteral? = some o') : o.mapNum (toInt? jre) = some o'.printed := by
  cases o with
  | queue a =>
    cases read
    rfl
  | packet a =>
    cases read
    rfl
  | num t =>
    obtain ⟨z, number, rfl⟩ := Option.map_eq_some_iff.1 read
    exact congrArg (Option.map Operand.num) (law.read t z number)

theorem Inline.mapNum_toInt? (law : jre.ReadsIntegers) {e : Inline Text} {e' : Inline Int}
    (read : e.mapNum Lib.intLiteral? = some e') : e.mapNum (Gen.toInt? jre) = some e'.printed := by
  cases e with
  | operand o =>
    obtain ⟨o', operand, rfl⟩ := Option.map_eq_some_iff.1 read
    exact congrArg (Option.map Inline.operand) (Operand.mapNum_toInt? law operand)
  | compare op lhs rhs =>
    obtain ⟨lhs', left, read⟩ := Option.bind_eq_some_iff.1 read
    obtain ⟨rhs', right, read⟩ := Option.bind_eq_some_iff.1 read
    cases read
    rw [mapNum, Operand.mapNum_toInt? law left, Operand.mapNum_toInt? law right]
    rfl

/-- The emitted C expression has the value of the source expression, for every queue and
every packet, exactly if the expression is exact. -/
theorem inline_meaning_iff (law : jre.ReadsIntegers) {rhs t : Text} {e : Inline Int}
    (accepted : validateInline jre rhs = .ok (some t)) (source : readSource rhs = some e) :
    (∀ env, Evaluates env t (e.value env)) ↔ e.exact := by
  obtain ⟨body, e₀, c, found, read, emitted, rfl⟩ := validateInline_eq_some_iff.1 accepted
  rw [readSource, found, Option.bind_eq_bind, Option.bind_some, read] at source
  cases (Inline.mapNum_toInt? law source).symm.trans emitted
  rw [← Inline.cValue_printed_iff]
  exact forall_congr' fun env => evaluates_cText

/-- A library whose doubles are the integers. -/
def integerJre : Jre where
  digit c := if c.isDigit then some (c.toNat - 48) else none
  Double := Int
  parseDouble := Lib.intLiteral?
  intValue := Lib.saturate
  doubleText z := (toString z).toList ++ ".0".toList
  isUpperCase := Char.isUpper
  toLowerCase := Char.toLower
  iterate := id
  iterate_perm _ := .refl _

theorem integerJre_readsIntegers : integerJre.ReadsIntegers where
  read _ _ literal := congrArg (Option.map Lib.saturate) literal

/-- A threshold on a counter is exact. -/
theorem threshold_kept :
    validateInline integerJre "inline\x7bQueue.len >= 128\x7d".toList = .ok (some "(queue->len >= 128)".toList) ∧
      ∀ env, Evaluates env "(queue->len >= 128)".toList
        (Inline.value env (.compare .ge (.queue .len) (.num 128))) := by
  have accepted : validateInline integerJre "inline\x7bQueue.len >= 128\x7d".toList =
      .ok (some "(queue->len >= 128)".toList) := by decide +kernel
  exact ⟨accepted, (inline_meaning_iff integerJre_readsIntegers accepted (by decide +kernel)).2 (by decide)⟩

/-- A packet of 64 bytes is not found to be shorter than 1000. -/
theorem total_length_swapped :
    ∃ t env, validateInline integerJre "inline\x7bPacket.tot_len < 1000\x7d".toList = .ok (some t) ∧
      readSource "inline\x7bPacket.tot_len < 1000\x7d".toList =
        some (.compare .lt (.packet (.short .totLen)) (.num 1000)) ∧
      env.header.short .totLen = 64 ∧
      Inline.value env (.compare .lt (.packet (.short .totLen)) (.num 1000)) = 1 ∧ Evaluates env t 0 ∧
      ¬ Evaluates env t 1 := by
  let c : Inline (BitVec 32) := .compare .lt (.packet (.short .totLen)) (.num 1000)
  refine ⟨c.cText, .of 0 0 64 0, by decide +kernel, by decide +kernel, rfl, by decide, ?_, ?_⟩
  · exact evaluates_cText.2 (by decide)
  · rw [evaluates_cText]
    decide

end Results

end OpenQueue.Gen
