import OpenQueue.Gen.Inline

/-!
# What an expression means

Twice: read as mathematics, over integers, and as the C source that is printed for it,
on a little-endian 64-bit kernel. The pointer that `skb_header_pointer` returns is taken
to point to the IPv4 header of the packet.
-/

namespace OpenQueue.Gen

open Lib (CInt)

/-- The fields of an IPv4 header, as numbers. -/
structure IpHeader where
  byte : ByteField → BitVec 8
  short : ShortField → BitVec 16
  word : WordField → BitVec 32

/-- The queue and the packet that an expression is evaluated for. -/
structure Env where
  queue : QueueAttr → BitVec 32
  header : IpHeader

/-! ## Over the integers -/

def Operand.value (env : Env) : Operand Int → Int
  | .queue a => (env.queue a).toInt
  | .packet (.byte f) => (env.header.byte f).toNat
  | .packet (.short f) => (env.header.short f).toNat
  | .packet (.word f) => (env.header.word f).toNat
  | .num z => z

def Inline.value (env : Env) : Inline Int → Int
  | .operand o => o.value env
  | .compare op lhs rhs => if op.holds (lhs.value env) (rhs.value env) then 1 else 0

/-! ## In C -/

/-- The value of an operand after the integer promotions. The fields of `struct iphdr`
are in network byte order. -/
def Operand.load (env : Env) : Operand (BitVec 32) → CInt
  | .queue a => .int (env.queue a)
  | .packet (.byte f) => .int ((env.header.byte f).setWidth 32)
  | .packet (.short f) => .int ((Lib.swap16 (env.header.short f)).setWidth 32)
  | .packet (.word f) => .unsigned (Lib.swap32 (env.header.word f))
  | .num n => .constant n

def Inline.cValue (env : Env) : Inline (BitVec 32) → CInt
  | .operand o => o.load env
  | .compare op lhs rhs => .compare op (lhs.load env) (rhs.load env)

/-- The two integers that C compares. -/
def compared (env : Env) (lhs rhs : Operand (BitVec 32)) : Int × Int := CInt.converted (lhs.load env) (rhs.load env)

/-- A C source text has the value `v`. -/
def Evaluates (env : Env) (t : Lib.Text) (v : Int) : Prop :=
  ∃ e : Inline (BitVec 32), e.cText = t ∧ (e.cValue env).value = v

theorem evaluates_cText {env : Env} {e : Inline (BitVec 32)} {v : Int} :
    Evaluates env e.cText v ↔ (e.cValue env).value = v := by
  constructor
  · rintro ⟨e', text, value⟩
    rwa [← Inline.cText_inj.1 text]
  · exact fun value => ⟨e, rfl, value⟩

/-! ## Loads and conversions -/

/-- The value of a field, as C loads it. -/
def PacketAttr.read (env : Env) (a : PacketAttr) : Int := ((Operand.packet a).load env).value

theorem PacketAttr.read_byte (env : Env) (f : ByteField) : read env (.byte f) = (env.header.byte f).toNat :=
  Lib.toInt_setWidth_of_lt _ (by decide)

theorem PacketAttr.read_short (env : Env) (f : ShortField) :
    read env (.short f) = (Lib.swap16 (env.header.short f)).toNat := Lib.toInt_setWidth_of_lt _ (by decide)

theorem PacketAttr.read_word (env : Env) (f : WordField) :
    read env (.word f) = (Lib.swap32 (env.header.word f)).toNat := rfl

theorem PacketAttr.read_nonneg (env : Env) (a : PacketAttr) : 0 ≤ a.read env := by
  cases a with
  | byte f => rw [read_byte]; exact Int.natCast_nonneg _
  | short f => rw [read_short]; exact Int.natCast_nonneg _
  | word f => rw [read_word]; exact Int.natCast_nonneg _

theorem PacketAttr.besideUnsigned_load (env : Env) (a : PacketAttr) :
    ((Operand.packet a).load env).besideUnsigned = a.read env :=
  CInt.besideUnsigned_of_nonneg (a.read_nonneg env)

/-- The addresses are the operands of type `unsigned int`. -/
def Operand.isWord {N : Type} : Operand N → Bool
  | .packet (.word _) => true
  | _ => false

theorem Operand.isUnsigned_load (env : Env) (o : Operand (BitVec 32)) : (o.load env).isUnsigned = o.isWord := by
  rcases o with a | (f | f | f) | c
  case num => exact CInt.isUnsigned_constant c
  all_goals rfl

theorem compared_swap (env : Env) (o o' : Operand (BitVec 32)) : compared env o' o = (compared env o o').swap :=
  CInt.converted_swap _ _

theorem compared_of_not_word {env : Env} {o o' : Operand (BitVec 32)} (h : o.isWord = false) (h' : o'.isWord = false) :
    compared env o o' = ((o.load env).value, (o'.load env).value) := by
  rw [compared, CInt.converted_eq, Operand.isUnsigned_load, Operand.isUnsigned_load, h, h']
  rfl

theorem compared_of_word {env : Env} {o o' : Operand (BitVec 32)} (h : o.isWord || o'.isWord) :
    compared env o o' = ((o.load env).besideUnsigned, (o'.load env).besideUnsigned) := by
  rw [compared, CInt.converted_eq, Operand.isUnsigned_load, Operand.isUnsigned_load, if_pos h]

end OpenQueue.Gen
