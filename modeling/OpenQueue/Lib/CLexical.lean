import OpenQueue.Lib.Decimal
import Mathlib

/-!
# Tokens of C

Identifiers, decimal constants, and what a string literal denotes.
-/

namespace Lib

open Text

/-! ## Identifiers -/

def isIdentStart (c : Char) : Bool := c.isAlpha || c = '_'

def isIdentChar (c : Char) : Bool := c.isAlphanum || c = '_'

def isIdentifier : Text → Bool
  | [] => false
  | c :: s => isIdentStart c && s.all isIdentChar

theorem isIdentifier_iff {s : Text} :
    isIdentifier s ↔ (∃ c, s.head? = some c ∧ isIdentStart c) ∧ ∀ c ∈ s, isIdentChar c := by
  cases s with
  | nil => exact iff_of_false nofun fun h => by simp at h
  | cons c s =>
    have start : isIdentStart c → isIdentChar c := by
      simp only [isIdentStart, isIdentChar, Char.isAlphanum, Bool.or_eq_true]
      exact fun h => h.imp_left .inl
    rw [isIdentifier, Bool.and_eq_true, List.all_eq_true, List.forall_mem_cons]
    simp only [List.head?_cons, Option.some.injEq, exists_eq_left']
    exact ⟨fun h => ⟨h.1, start h.1, h.2⟩, fun h => ⟨h.1, h.2.2⟩⟩

/-- Letter case, of the characters of identifiers. -/
structure Jre.AsciiCase (jre : Jre) : Prop where
  upper : ∀ c : Char, isIdentChar c → jre.isUpperCase c = c.isUpper
  lower : ∀ c : Char, c.isUpper → jre.toLowerCase c = c.toLower

theorem toNat_toLower {c : Char} (upper : c.isUpper) :
    65 ≤ c.toNat ∧ c.toNat ≤ 90 ∧ c.toLower.toNat = c.toNat + 32 := by
  have bounds := of_decide_eq_true upper
  have ⟨low, high⟩ := bounds
  rw [ge_iff_le, UInt32.le_iff_toNat_le] at low
  rw [UInt32.le_iff_toNat_le] at high
  have least : 'A'.val.toNat = 65 := rfl
  have most : 'Z'.val.toNat = 90 := rfl
  refine ⟨least ▸ low, most ▸ high, ?_⟩
  rw [Char.toLower, dif_pos bounds]
  show (c.val + ('a'.val - 'A'.val)).toNat = c.val.toNat + 32
  have step : ('a'.val - 'A'.val).toNat = 32 := rfl
  rw [UInt32.toNat_add, step]
  omega

/-- Identifiers are written in ASCII. -/
theorem toNat_lt_of_isIdentChar {c : Char} (h : isIdentChar c) : c.toNat < 128 := by
  simp only [isIdentChar, Char.isAlphanum, Char.isAlpha, Char.isUpper, Char.isLower, Char.isDigit, Bool.or_eq_true,
    Bool.and_eq_true, decide_eq_true_eq, ge_iff_le, UInt32.le_iff_toNat_le] at h
  show c.val.toNat < 128
  rcases h with ((h | h) | h) | rfl
  · have : 'Z'.val.toNat = 90 := rfl
    omega
  · have : 'z'.val.toNat = 122 := rfl
    omega
  · have : '9'.val.toNat = 57 := rfl
    omega
  · decide

/-! ## Words -/

/-- A character of an identifier or of a number. -/
def isWordChar (c : Char) : Bool := isIdentChar c || c = '-' || c = '.'

/-- A text of such characters. -/
structure IsWord (s : Text) : Prop where
  nonempty : s ≠ []
  chars : ∀ c ∈ s, isWordChar c

theorem IsWord.of_isIdentifier {s : Text} (h : isIdentifier s) : IsWord s where
  nonempty := by
    rintro rfl
    cases h
  chars c mem := by
    rw [isWordChar, (isIdentifier_iff.1 h).2 c mem]
    rfl

theorem IsWord.of_isDecimal {s : Text} (h : isDecimal s) : IsWord s where
  nonempty := ne_nil_of_isDecimal h
  chars c mem := by
    rcases mem_isDecimal h mem with digit | rfl | rfl
    · simp [isWordChar, isIdentChar, Char.isAlphanum, digit]
    · rfl
    · rfl

theorem IsWord.not_mem {s : Text} (h : IsWord s) {c : Char} (other : isWordChar c = false) : c ∉ s := by
  intro mem
  rw [h.chars c mem] at other
  cases other

theorem not_isBlank_of_isWordChar {c : Char} (h : isWordChar c) : isBlank c = false := by
  simp only [isWordChar, isIdentChar, Char.isAlphanum, Char.isAlpha, Char.isUpper, Char.isLower, Char.isDigit,
    Bool.or_eq_true, Bool.and_eq_true, decide_eq_true_eq, ge_iff_le, UInt32.le_iff_toNat_le] at h
  rw [isBlank, decide_eq_false_iff_not]
  show ¬ c.val.toNat ≤ 32
  rcases h with ((((h | h) | h) | rfl) | rfl) | rfl
  · have : 'A'.val.toNat = 65 := rfl
    omega
  · have : 'a'.val.toNat = 97 := rfl
    omega
  · have : '0'.val.toNat = 48 := rfl
    omega
  · decide
  · decide
  · decide

theorem IsWord.no_blank {s : Text} (h : IsWord s) : ∀ c ∈ s, isBlank c = false :=
  fun c mem => not_isBlank_of_isWordChar (h.chars c mem)

/-! ## The words of a text -/

/-- The identifiers and the numbers of a text: the longest runs of their characters. -/
def wordsOf (s : Text) : List Text := (s.splitOnP fun c => !isIdentChar c).filter (· ≠ [])

/-- What may follow the digits of a floating constant. -/
def isExponent : Text → Bool
  | [] => true
  | e :: s =>
    let ds := match s with
      | '-' :: ds => ds
      | '+' :: ds => ds
      | ds => ds
    (e = 'e' || e = 'E') && ds ≠ [] && ds.all Char.isDigit

/-- A decimal constant, integer or floating. Integers do not begin with 0, which would
make them octal. -/
def isConstant (s : Text) : Bool :=
  let whole := s.takeWhile Char.isDigit
  whole ≠ [] &&
    match s.dropWhile Char.isDigit with
    | [] => whole = ['0'] || whole.head? ≠ some '0'
    | '.' :: s => s.takeWhile Char.isDigit ≠ [] && isExponent (s.dropWhile Char.isDigit)
    | s => isExponent s

/-- A constant, perhaps after a minus sign. -/
def isNumeric : Text → Bool
  | '-' :: s => isConstant s
  | s => isConstant s

theorem head?_toDigits {n : Nat} (pos : 0 < n) : (Nat.toDigits 10 n).head? ≠ some '0' := by
  induction n using Nat.strongRecOn with
  | ind n ih =>
    rw [Nat.toDigits_eq_if (by decide)]
    split
    · next small =>
      rw [List.head?_cons, ne_eq, Option.some.injEq]
      intro zero
      have value := congrArg Char.toNat zero
      rw [Nat.toNat_digitChar_of_lt_ten small] at value
      have : ('0' : Char).toNat = 48 := rfl
      omega
    · next large =>
      have rest := ih (n / 10) (by omega) (by omega)
      rwa [List.head?_append_of_ne_nil _ Nat.toDigits_ne_nil]

theorem isConstant_toDigits (n : Nat) : isConstant (Nat.toDigits 10 n) := by
  have digits : ∀ c ∈ Nat.toDigits 10 n, c.isDigit := fun c mem => isDigit_of_mem mem
  have whole : (Nat.toDigits 10 n).takeWhile Char.isDigit = Nat.toDigits 10 n := List.takeWhile_eq_self_iff.2 digits
  have rest : (Nat.toDigits 10 n).dropWhile Char.isDigit = [] := List.dropWhile_eq_nil_iff.2 digits
  have octal : Nat.toDigits 10 n = ['0'] ∨ (Nat.toDigits 10 n).head? ≠ some '0' := by
    rcases Nat.eq_zero_or_pos n with rfl | pos
    · exact .inl rfl
    · exact .inr (head?_toDigits pos)
  simp only [isConstant, whole, rest]
  simpa [Nat.toDigits_ne_nil] using octal

theorem isNumeric_of_digits {c : Char} {s : Text} (digit : c.isDigit) (constant : isConstant (c :: s)) :
    isNumeric (c :: s) := by
  rw [isNumeric.eq_def]
  split
  · next eq =>
    cases eq
    exact absurd digit (by decide)
  · exact constant

theorem isNumeric_toDigits (n : Nat) : isNumeric (Nat.toDigits 10 n) := by
  have constant := isConstant_toDigits n
  cases digits : Nat.toDigits 10 n with
  | nil => exact absurd digits Nat.toDigits_ne_nil
  | cons c s =>
    rw [digits] at constant
    exact isNumeric_of_digits (isDigit_of_mem (digits ▸ List.mem_cons_self)) constant

/-- The characters of a number. -/
def isNumericChar (c : Char) : Bool := c.isDigit || c ∈ "-+.eE".toList

theorem mem_isExponent {s : Text} (h : isExponent s) {c : Char} (mem : c ∈ s) : isNumericChar c := by
  cases s with
  | nil => cases mem
  | cons e s =>
    simp only [isExponent, Bool.and_eq_true, Bool.or_eq_true, decide_eq_true_eq] at h
    obtain ⟨⟨mark, -⟩, digits⟩ := h
    rcases List.mem_cons.1 mem with rfl | mem
    · rcases mark with rfl | rfl <;> rfl
    · have digit : ∀ ds : Text, ds.all Char.isDigit → c ∈ ds → isNumericChar c := by
        intro ds all mem
        rw [isNumericChar, List.all_eq_true.1 all c mem]
        rfl
      split at digits
      · rcases List.mem_cons.1 mem with rfl | mem
        · rfl
        · exact digit _ digits mem
      · rcases List.mem_cons.1 mem with rfl | mem
        · rfl
        · exact digit _ digits mem
      · exact digit _ digits mem

theorem mem_isConstant {s : Text} (h : isConstant s) {c : Char} (mem : c ∈ s) : isNumericChar c := by
  rw [isConstant, Bool.and_eq_true] at h
  rw [← List.takeWhile_append_dropWhile (p := Char.isDigit) (l := s), List.mem_append] at mem
  have digit : ∀ t : Text, c ∈ t.takeWhile Char.isDigit → isNumericChar c := by
    intro t mem
    rw [isNumericChar, List.mem_takeWhile_imp mem]
    rfl
  rcases mem with mem | mem
  · exact digit s mem
  · obtain ⟨-, h⟩ := h
    split at h
    · next none => simp [none] at mem
    · next f rest =>
      rw [rest, List.mem_cons] at mem
      rw [Bool.and_eq_true] at h
      rcases mem with rfl | mem
      · rfl
      · rw [← List.takeWhile_append_dropWhile (p := Char.isDigit) (l := f), List.mem_append] at mem
        rcases mem with mem | mem
        · exact digit f mem
        · exact mem_isExponent h.2 mem
    · exact mem_isExponent h mem

theorem mem_isNumeric {s : Text} (h : isNumeric s) {c : Char} (mem : c ∈ s) : isNumericChar c := by
  rw [isNumeric.eq_def] at h
  split at h
  · rcases List.mem_cons.1 mem with rfl | mem
    · rfl
    · exact mem_isConstant h mem
  · exact mem_isConstant h mem

example : isNumeric "-12.5E-3".toList ∧ isNumeric "0".toList ∧ ¬ isNumeric "NaN".toList ∧ ¬ isNumeric "08".toList := by
  decide

/-! ## String literals -/

def isOctDigit (c : Char) : Bool := '0' ≤ c && c ≤ '7'

def isHexDigit (c : Char) : Bool := c.isDigit || ('a' ≤ c && c ≤ 'f') || ('A' ≤ c && c ≤ 'F')

def hexValue (c : Char) : Nat :=
  if c.isDigit then c.toNat - 48 else if 'a' ≤ c then c.toNat - 87 else c.toNat - 55

/-- The character with the number that digits spell. -/
def charOf (base : Nat) (ds : Text) : Char := Char.ofNat (ds.foldl (fun n d => base * n + hexValue d) 0)

/-- A simple escape sequence. -/
def simpleEscape : Char → Char
  | 'a' => '\x07'
  | 'b' => '\x08'
  | 'f' => '\x0c'
  | 'n' => '\n'
  | 'r' => '\r'
  | 't' => '\t'
  | 'v' => '\x0b'
  | c => c

/-- What follows a backslash: the character it stands for, and what is left. A backslash
in front of the closing quote leaves the literal open. -/
def escape? : Text → Option (Char × Text)
  | [] => none
  | c :: s =>
    let octal := ((c :: s).take 3).takeWhile isOctDigit
    let hex (n : Nat) : Option (Char × Text) :=
      let ds := (s.take n).takeWhile isHexDigit
      if ds = [] then none else some (charOf 16 ds, s.drop ds.length)
    if octal ≠ [] then some (charOf 8 octal, (c :: s).drop octal.length)
    else if c = 'x' then hex s.length
    else if c = 'u' then hex 4
    else if c = 'U' then hex 8
    else if c = '\n' then none
    else some (simpleEscape c, s)

theorem escape?_length {s rest : Text} {c : Char} (read : escape? s = some (c, rest)) : rest.length < s.length := by
  cases s with
  | nil => cases read
  | cons d s =>
    have digits : ∀ n, (let ds := (s.take n).takeWhile isHexDigit
        if ds = [] then none else some (charOf 16 ds, s.drop ds.length)) = some (c, rest) →
        rest.length < (d :: s).length := by
      intro n read
      simp only at read
      split at read
      · cases read
      · cases read
        rw [List.length_drop, List.length_cons]
        omega
    simp only [escape?] at read
    split at read
    · next octal =>
      cases read
      have some := List.length_pos_iff.2 octal
      rw [List.length_drop]
      simp only [List.length_cons]
      omega
    · split at read
      · exact digits _ read
      · split at read
        · exact digits _ read
        · split at read
          · exact digits _ read
          · split at read
            · cases read
            · cases read
              exact Nat.lt_succ_self _

/-- The characters that the text between two double quotes denotes, if it is one literal. -/
def readLiteral : Text → Option Text
  | [] => some []
  | c :: s =>
    if c = '"' ∨ c = '\n' then none
    else if c = '\\' then
      match read : escape? s with
      | none => none
      | some (d, rest) =>
        have := escape?_length read
        (readLiteral rest).map (d :: ·)
    else (readLiteral s).map (c :: ·)
termination_by s => s.length

end Lib
