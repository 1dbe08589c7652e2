import Mathlib

/-!
# Java strings, and what is left open of the Java library

The methods of `java.lang.String` on lists of characters, for separators that are plain
text. `Jre` collects what depends on the library beyond that: digits, `double`, letter
case, and the order in which a `HashMap` is iterated, of which only that every key comes
up once is known.
-/

namespace Lib

/-- A Java `String`. -/
abbrev Text := List Char

namespace Text

/-- `trim` removes these at both ends. -/
def isBlank (c : Char) : Bool := c.toNat ≤ 32

/-- `trim()`. -/
def trim (s : Text) : Text := ((s.dropWhile isBlank).reverse.dropWhile isBlank).reverse

/-- The text between the occurrences of `sep`, read from the left; the first `skip`
characters belong to an occurrence. -/
def pieces (sep : Text) : Nat → Text → List Text
  | _, [] => [[]]
  | skip + 1, _ :: s => pieces sep skip s
  | 0, c :: s =>
    if sep.isPrefixOf (c :: s) then [] :: pieces sep (sep.length - 1) s
    else
      match pieces sep 0 s with
      | [] => [[c]]
      | p :: ps => (c :: p) :: ps

/-- `split(sep)`: trailing empty strings are dropped, unless nothing was split. -/
def split (s sep : Text) : List Text :=
  match pieces sep 0 s with
  | [_] => [s]
  | ps => (ps.reverse.dropWhile List.isEmpty).reverse

/-- `startsWith(t)`. -/
def startsWith (s t : Text) : Bool := t.isPrefixOf s

/-- `contains(t)`. -/
def contains (s t : Text) : Bool := s.tails.any fun u => t.isPrefixOf u

/-- `indexOf(c)`, `none` for -1. -/
def indexOf (s : Text) (c : Char) : Option Nat := s.findIdx? fun d => d = c

/-- `substring(begin, end)`, `none` for a `StringIndexOutOfBoundsException`. -/
def substring (s : Text) (first last : Nat) : Option Text :=
  if first ≤ last ∧ last ≤ s.length then some ((s.take last).drop first) else none

/-- `replace(c, d)`. -/
def replace (s : Text) (c d : Char) : Text := s.map fun x => if x = c then d else x

/-- The text between line ends, which are LF, CR or CR LF. -/
def linePieces : Text → List Text
  | [] => [[]]
  | '\r' :: '\n' :: s => [] :: linePieces s
  | '\r' :: s => [] :: linePieces s
  | '\n' :: s => [] :: linePieces s
  | c :: s =>
    match linePieces s with
    | [] => [[c]]
    | p :: ps => (c :: p) :: ps

/-- What repeated `readLine()` returns: nothing follows the last line end. -/
def lines (s : Text) : List Text :=
  match (linePieces s).reverse with
  | [] :: ps => ps.reverse
  | ps => ps.reverse

example : split "a,,b,".toList ",".toList = ["a".toList, [], "b".toList] := by decide

example : split ",".toList ",".toList = [] ∧ split [] ",".toList = [[]] := by decide

example : split "a = b = c".toList " = ".toList = ["a".toList, "b".toList, "c".toList] := by decide

end Text

/-- What the Java library decides. -/
structure Jre where
  /-- `Character.digit(c, 10)`, `none` for -1 -/
  digit : Char → Option Nat
  Double : Type
  /-- `Double.parseDouble`, `none` for a `NumberFormatException` -/
  parseDouble : Text → Option Double
  /-- the conversion to `int` -/
  intValue : Double → BitVec 32
  /-- the conversion to `String` -/
  doubleText : Double → Text
  /-- `Character.isUpperCase` -/
  isUpperCase : Char → Bool
  /-- `Character.toLowerCase` -/
  toLowerCase : Char → Char
  /-- the order in which a `HashMap` is iterated whose keys were put in this order -/
  iterate : List Text → List Text
  iterate_perm : ∀ keys, (iterate keys).Perm keys

/-- The number that a list of digits spells, if there is one. -/
def Jre.magnitude (jre : Jre) (s : Text) : Option Nat :=
  if s.isEmpty then none else (s.mapM jre.digit).map fun ds => ds.foldl (fun n d => 10 * n + d) 0

/-- `Integer.parseInt`, `none` for a `NumberFormatException`: an optional sign, digits, and
a value that an `int` can hold. -/
def Jre.parseInt (jre : Jre) (s : Text) : Option (BitVec 32) :=
  let signed (n : Int) : Option (BitVec 32) :=
    if -2 ^ 31 ≤ n ∧ n < 2 ^ 31 then some (BitVec.ofInt 32 n) else none
  match s with
  | '-' :: ds => (jre.magnitude ds).bind fun n => signed (-n)
  | '+' :: ds => (jre.magnitude ds).bind fun n => signed n
  | ds => (jre.magnitude ds).bind fun n => signed n

/-- The conversion of an `int` to `String`. -/
def intText (n : BitVec 32) : Text := (toString n.toInt).toList

end Lib
