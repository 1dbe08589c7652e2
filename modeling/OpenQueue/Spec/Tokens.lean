import OpenQueue.Gen.Document
import OpenQueue.Lib.CLexical
import OpenQueue.Spec.Generated

/-!
# The generated source as C

Whether the variables of a function body are its parameters, and whether numbers, names
and string literals are tokens of C, for every piece of the document that `generateModule`
prints. Each part has its condition on the policy.
-/

namespace OpenQueue.Gen

open Lib (Text Jre)

/-! ## Valid pieces -/

/-- The variables of the generated functions. -/
def varNames : List Text := [Var.queue, .skb, .sch].map Var.text

/-- A piece is valid in the body of a function with these parameters. In code, a word that
is one of the variables is a parameter, a word that begins with a digit is a number, and
there are no quotes. -/
def Piece.Valid (params : List Text) : Piece → Prop
  | .code t => '"' ∉ t ∧ ∀ w ∈ Lib.wordsOf t, (w ∈ varNames → w ∈ params) ∧ (w.head?.any Char.isDigit → Lib.isNumeric w)
  | .number t => Lib.isNumeric t
  | .name t => Lib.isIdentifier t
  | .quoted t => Lib.readLiteral t = some t
  | _ => True

instance Piece.decidableValid (params : List Text) : (p : Piece) → Decidable (p.Valid params)
  | .code t => inferInstanceAs (Decidable ('"' ∉ t ∧ ∀ w ∈ Lib.wordsOf t,
      (w ∈ varNames → w ∈ params) ∧ (w.head?.any Char.isDigit → Lib.isNumeric w)))
  | .number t => inferInstanceAs (Decidable (Lib.isNumeric t))
  | .name t => inferInstanceAs (Decidable (Lib.isIdentifier t))
  | .quoted t => inferInstanceAs (Decidable (Lib.readLiteral t = some t))
  | .routine _ => .isTrue trivial
  | .literal _ => .isTrue trivial
  | .comment _ => .isTrue trivial

/-- The function has an identifier as its name and a valid body. -/
structure CFunction.Valid (f : CFunction) : Prop where
  name : Lib.isIdentifier f.name
  body : ∀ p ∈ f.body, p.Valid (f.params.map Param.name)

structure CSource.Valid (src : CSource) : Prop where
  outside : ∀ p ∈ src.header ++ src.footer, p.Valid []
  functions : ∀ f ∈ src.functions, f.Valid

/-! ## Expressions -/

theorem Var.text_injective : Function.Injective Var.text := by
  intro v v' same
  cases v <;> cases v' <;> first | rfl | exact absurd same (by decide)

/-- The names of the parameters of a function. -/
def RoutineType.paramNames (type : RoutineType) : List Text := type.scope.map Var.text

section Parts

variable {jre : Jre} {files : Text → Option Text} {text : Text} {gen : OQGen jre.Double} {port : Port jre.Double}
  {f : CFunction}

/-- The statement is valid in a function that serves its type. -/
def Statement.Valid (type : RoutineType) (s : Statement jre.Double) : Prop := ∀ p ∈ s.pieces, p.Valid type.paramNames

/-- The characters of a port's name become characters of identifiers. -/
def Port.Named (port : Port jre.Double) : Prop :=
  ∀ c ∈ port.name, Lib.isIdentChar (if jre.isUpperCase c then jre.toLowerCase c else c)

def routineTypes : List RoutineType :=
  [.congestionCondition, .congestionAction, .admissionPriority, .processingPriority, .queueSelector,
    .schedulingPriority]

theorem OQGen.Assigned.defined {type : RoutineType} {s : Statement jre.Double} (here : gen.Assigned type s) :
    type ∈ routineTypes := by
  cases here with
  | @queue _ _ a _ found here => cases a <;> decide
  | queueSelect found here => decide
  | schedPrio found here => decide

/-- The type of service of a packet. -/
def tos : Inline (BitVec 32) := .operand (.packet (.byte .tos))

end Parts

end OpenQueue.Gen
