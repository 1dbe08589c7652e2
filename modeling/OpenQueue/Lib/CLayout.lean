import Mathlib
import OpenQueue.Lib.CString

/-!
# Objects in memory

The size of a C type and the offsets of the members of a struct, with the padding that
alignment asks for, and an object as the bytes at these offsets. `Overwrites T f` says
that `f` sets the bytes in `T`, whatever was in memory, and no others. It is kept by
sequencing, so what a piece of code leaves of the old contents comes from its stores.
-/

namespace Lib

/-! ## Types -/

/-- What the layout of a C type depends on. -/
structure CType where
  size : Nat
  align : Nat
  deriving DecidableEq

namespace CType

def char : CType := ⟨1, 1⟩

def int : CType := ⟨4, 4⟩

def array (elem : CType) (count : Nat) : CType := ⟨count * elem.size, elem.align⟩

/-- The first multiple of `a` from `x` on. -/
def alignUp (x a : Nat) : Nat := (x + (a - 1)) / a * a

/-- The offsets of members that are placed from `x` on, and the end of the last one. -/
def place : Nat → List CType → List Nat × Nat
  | x, [] => ([], x)
  | x, t :: ts =>
    let start := alignUp x t.align
    let rest := place (start + t.size) ts
    (start :: rest.1, rest.2)

/-- The offsets of the members of a struct. -/
def offsets (members : List CType) : List Nat := (place 0 members).1

def struct (members : List CType) : CType :=
  let align := (members.map CType.align).foldr max 1
  ⟨alignUp (place 0 members).2 align, align⟩

end CType

/-! ## Bytes -/

/-- The bytes of memory, from the start of an object on. -/
abbrev Bytes := Nat → Byte

namespace Bytes

variable {m m' : Bytes} {off n i : Nat} {bs : List Byte}

/-- A store. -/
def write (m : Bytes) (off : Nat) (bs : List Byte) : Bytes :=
  fun i => if off ≤ i then bs.getD (i - off) (m i) else m i

/-- The bytes of a `char[n]`. -/
def chars (m : Bytes) (off n : Nat) : List Byte := (List.range n).map fun i => m (off + i)

/-- An `int`, the least significant byte first. -/
def int (m : Bytes) (off : Nat) : BitVec 32 :=
  BitVec.ofNat 32 ((m off).toNat + 256 * (m (off + 1)).toNat + 65536 * (m (off + 2)).toNat +
    16777216 * (m (off + 3)).toNat)

/-- The bytes of an `int`. -/
def ofInt (x : BitVec 32) : List Byte :=
  [BitVec.ofNat 8 x.toNat, BitVec.ofNat 8 (x.toNat / 256), BitVec.ofNat 8 (x.toNat / 65536),
    BitVec.ofNat 8 (x.toNat / 16777216)]

theorem write_outside (outside : i < off ∨ off + bs.length ≤ i) : m.write off bs i = m i := by
  unfold write
  split
  · next start =>
    rw [List.getD_eq_default]
    omega
  · rfl

theorem write_inside (start : off ≤ i) (stop : i < off + bs.length) : m.write off bs i = bs.getD (i - off) 0 := by
  rw [write, if_pos start]
  have inside : i - off < bs.length := by omega
  rw [List.getD_eq_getElem _ _ inside, List.getD_eq_getElem _ _ inside]

@[simp] theorem length_chars : (m.chars off n).length = n := by simp [chars]

theorem getElem?_chars (inside : i < n) : (m.chars off n)[i]? = some (m (off + i)) := by
  rw [chars, List.getElem?_map, List.getElem?_range inside]
  rfl

theorem chars_congr (same : ∀ i, off ≤ i → i < off + n → m i = m' i) : m.chars off n = m'.chars off n := by
  refine List.map_congr_left fun i mem => ?_
  have inside := List.mem_range.1 mem
  exact same (off + i) (by omega) (by omega)

/-- A store at the start of an array leaves the rest of it. -/
theorem chars_write (fits : bs.length ≤ n) : (m.write off bs).chars off n = bs ++ (m.chars off n).drop bs.length := by
  refine List.ext_getElem? fun i => ?_
  by_cases inside : i < n
  · rw [getElem?_chars inside, List.getElem?_append]
    split
    · next early =>
      rw [write_inside (by omega) (by omega), Nat.add_sub_cancel_left, List.getD_eq_getElem _ _ early,
        List.getElem?_eq_getElem early]
    · next late =>
      rw [write_outside (by omega), List.getElem?_drop, getElem?_chars (by omega)]
      congr 2
      omega
  · rw [List.getElem?_eq_none (by rw [length_chars]; omega), List.getElem?_eq_none]
    rw [List.length_append, List.length_drop, length_chars]
    omega

@[simp] theorem length_ofInt (x : BitVec 32) : (ofInt x).length = 4 := rfl

theorem int_congr (same : ∀ i, off ≤ i → i < off + 4 → m i = m' i) : m.int off = m'.int off := by
  unfold int
  rw [same off (by omega) (by omega), same (off + 1) (by omega) (by omega), same (off + 2) (by omega) (by omega),
    same (off + 3) (by omega) (by omega)]

/-- A stored `int` is read back. -/
theorem int_write (m : Bytes) (off : Nat) (x : BitVec 32) : (m.write off (ofInt x)).int off = x := by
  have byte : ∀ k < 4, m.write off (ofInt x) (off + k) = (ofInt x).getD k 0 := by
    intro k small
    rw [write_inside (by omega) (by rw [length_ofInt]; omega), Nat.add_sub_cancel_left]
  have first := byte 0 (by omega)
  rw [Nat.add_zero] at first
  refine BitVec.eq_of_toNat_eq ?_
  rw [int, first, byte 1 (by omega), byte 2 (by omega), byte 3 (by omega)]
  have bound := x.isLt
  simp only [ofInt, List.getD_cons_zero, List.getD_cons_succ, BitVec.toNat_ofNat]
  omega

end Bytes

/-! ## What is overwritten -/

/-- The bytes in `T` are set independently of the memory, and the others are left. -/
structure Overwrites (T : Nat → Prop) (f : Bytes → Bytes) : Prop where
  inside : ∀ m m' i, T i → f m i = f m' i
  outside : ∀ m i, ¬ T i → f m i = m i

namespace Overwrites

variable {T U : Nat → Prop} {f g : Bytes → Bytes}

theorem nothing : Overwrites (fun _ => False) fun m => m where
  inside _ _ _ h := h.elim
  outside _ _ _ := rfl

theorem write (off : Nat) (bs : List Byte) :
    Overwrites (fun i => off ≤ i ∧ i < off + bs.length) fun m => m.write off bs where
  inside m m' i h := by rw [Bytes.write_inside h.1 h.2, Bytes.write_inside h.1 h.2]
  outside m i h := Bytes.write_outside (by omega)

theorem comp (hg : Overwrites U g) (hf : Overwrites T f) : Overwrites (fun i => T i ∨ U i) fun m => g (f m) where
  inside m m' i h := by
    by_cases last : U i
    · exact hg.inside _ _ i last
    · rw [hg.outside _ i last, hg.outside _ i last]
      exact hf.inside m m' i (h.resolve_right last)
  outside m i h := by
    rw [not_or] at h
    rw [hg.outside _ i h.2, hf.outside m i h.1]

theorem mono (hf : Overwrites T f) (same : ∀ i, T i ↔ U i) : Overwrites U f where
  inside m m' i h := hf.inside m m' i ((same i).2 h)
  outside m i h := hf.outside m i (mt (same i).1 h)

/-- What two runs give agrees where what they leave does. -/
theorem chars_eq_iff (hf : Overwrites T f) (m m' : Bytes) (n : Nat) :
    (f m).chars 0 n = (f m').chars 0 n ↔ ∀ i < n, ¬ T i → m i = m' i := by
  constructor
  · intro same i small left
    have byte := congrArg (·[i]?) same
    simp only [Bytes.getElem?_chars small, Nat.zero_add, Option.some.injEq] at byte
    rwa [hf.outside m i left, hf.outside m' i left] at byte
  · intro same
    refine Bytes.chars_congr fun i _ small => ?_
    by_cases set : T i
    · exact hf.inside m m' i set
    · rw [hf.outside m i set, hf.outside m' i set]
      exact same i (by omega) set

end Overwrites

end Lib
