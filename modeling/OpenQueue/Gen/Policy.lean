import OpenQueue.Lib.JavaText
import OpenQueue.Lib.PutMap

/-!
# The objects of the policy generator

`Queue`, `Port`, `Routine` and the two kinds of `Statement` of OQGen, with the fields
that the generator reads. A field that may be `null` is an `Option`. `δ` is Java's
`double`.
-/

namespace OpenQueue.Gen

open Lib (Text Jre PutMap)

/-- `RoutineType`. -/
inductive RoutineType where
  | undefined
  | congestionCondition
  | congestionAction
  | admissionPriority
  | processingPriority
  | queueSelector
  | schedulingPriority
  deriving DecidableEq

/-- `Routine`. -/
structure Routine where
  type : RoutineType
  name : Text
  deriving DecidableEq

/-- `Statement`: an `InlineStatement` or a `RoutineCallStatement`. -/
inductive Statement (δ : Type) where
  | inline (statement : Text) (type : RoutineType)
  | routineCall (name : Text) (type : RoutineType) (params : Option (List δ))

/-- The open call with the arguments that every routine of a type gets. -/
def RoutineType.openCall : RoutineType → Option Text
  | .undefined => none
  | .congestionCondition => some "(queue".toList
  | .congestionAction => some "(queue, skb".toList
  | .admissionPriority => some "(skb".toList
  | .processingPriority => some "(skb".toList
  | .queueSelector => some "(sch, skb".toList
  | .schedulingPriority => some "(sch".toList

/-- `getStatement`: the C expression of a statement. -/
def Statement.getStatement (jre : Jre) : Statement jre.Double → Text
  | .inline statement _ => statement
  | .routineCall name type params =>
    match type.openCall with
    | none => []
    | some args =>
      match params with
      | some (p :: ps) =>
        name ++ args ++ ", ".toList ++ (toString (ps.length + 1)).toList ++
          (p :: ps).flatMap (fun p => ", ".toList ++ jre.doubleText p) ++ ")".toList
      | _ => name ++ args ++ ", 0)".toList

/-- `Queue`. -/
structure Queue (δ : Type) where
  name : Text
  size : BitVec 32
  admPrio : Option (Statement δ) := none
  congestion : Option (Statement δ) := none
  congAction : Option (Statement δ) := none
  procPrio : Option (Statement δ) := none

/-- `Queue.isWellDefined`. -/
def Queue.isWellDefined {δ : Type} (q : Queue δ) : Bool :=
  q.admPrio.isSome && q.congestion.isSome && q.congAction.isSome && q.procPrio.isSome

/-- `Port`. -/
structure Port (δ : Type) where
  name : Text
  queueSelect : Option (Statement δ) := none
  schedPrio : Option (Statement δ) := none
  queues : List Text := []

/-- `Port.isWellDefined`. -/
def Port.isWellDefined {δ : Type} (p : Port δ) : Bool :=
  p.queueSelect.isSome && p.schedPrio.isSome && !p.queues.isEmpty

/-- `OQGen`: what has been read of a policy. -/
structure OQGen (δ : Type) where
  routines : PutMap Text Routine := .empty
  queues : PutMap Text (Queue δ) := .empty
  port : Option (Port δ) := none

/-- `queues.values()`, in the order of its iteration. -/
def OQGen.values {jre : Jre} (gen : OQGen jre.Double) : List (Queue jre.Double) :=
  gen.queues.values (jre.iterate gen.queues.keys)

end OpenQueue.Gen
