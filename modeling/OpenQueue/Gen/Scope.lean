import OpenQueue.Gen.Emit
import OpenQueue.Gen.Typed

/-!
# The functions of a module and their parameters

The six functions that a policy fills with its statements, and the variables that an
expression mentions.
-/

namespace OpenQueue.Gen

open Lib (Text Jre)

/-- A parameter of a generated function. -/
inductive Var where
  | queue
  | skb
  | sch
  deriving DecidableEq

def Var.text : Var → Text
  | .queue => "queue".toList
  | .skb => "skb".toList
  | .sch => "sch".toList

/-- The struct that a parameter points to. -/
def Var.struct : Var → Text
  | .queue => "oq_queue".toList
  | .skb => "sk_buff".toList
  | .sch => "Qdisc".toList

/-- The parameters of the function that serves attributes of a type. -/
def RoutineType.scope : RoutineType → List Var
  | .undefined => []
  | .congestionCondition => [.queue]
  | .congestionAction => [.queue, .skb]
  | .admissionPriority => [.queue, .skb]
  | .processingPriority => [.queue, .skb]
  | .queueSelector => [.sch, .skb]
  | .schedulingPriority => [.sch]

/-- The result type of that function. -/
def RoutineType.result : RoutineType → Text
  | .undefined => []
  | .congestionCondition => "bool".toList
  | .congestionAction => "int".toList
  | .admissionPriority => "unsigned long".toList
  | .processingPriority => "unsigned long".toList
  | .queueSelector => "int".toList
  | .schedulingPriority => "int".toList

/-- What the name of that function ends in. -/
def RoutineType.suffix : RoutineType → Text
  | .undefined => []
  | .congestionCondition => "_cong_func".toList
  | .congestionAction => "_cong_act_func".toList
  | .admissionPriority => "_admn_func".toList
  | .processingPriority => "_proc_func".toList
  | .queueSelector => "_qselc_func".toList
  | .schedulingPriority => "_schd_func".toList

def Var.param (v : Var) : Text := "struct ".toList ++ v.struct ++ " *".toList ++ v.text

/-- The parameter list of that function. -/
def RoutineType.params (type : RoutineType) : Text := ", ".toList.intercalate (type.scope.map Var.param)

/-- The head of that function. -/
def RoutineType.head (type : RoutineType) (modName : Text) : Text :=
  type.result ++ " ".toList ++ modName ++ type.suffix ++ "(".toList ++ type.params

/-- The variables of an operand. -/
def Operand.vars {ν : Type} : Operand ν → List Var
  | .queue _ => [.queue]
  | .packet _ => [.skb]
  | .num _ => []

/-- The variables of an expression. -/
def Inline.vars {ν : Type} : Inline ν → List Var
  | .operand o => o.vars
  | .compare _ lhs rhs => lhs.vars ++ rhs.vars

/-- An expression may stand in the body of the function that serves a type. -/
def Inline.inScope {ν : Type} (e : Inline ν) (type : RoutineType) : Prop := ∀ v ∈ e.vars, v ∈ type.scope

instance {ν : Type} (e : Inline ν) (type : RoutineType) : Decidable (e.inScope type) :=
  inferInstanceAs (Decidable (∀ v ∈ e.vars, v ∈ type.scope))

/-! ## Calls -/

/-- The variables that every routine of a type is called with. -/
def RoutineType.args : RoutineType → List Var
  | .undefined => []
  | .congestionCondition => [.queue]
  | .congestionAction => [.queue, .skb]
  | .admissionPriority => [.skb]
  | .processingPriority => [.skb]
  | .queueSelector => [.sch, .skb]
  | .schedulingPriority => [.sch]

/-- What the prototype of such a routine has. -/
def RoutineType.signature (type : RoutineType) : Signature :=
  ⟨type, type.result.split " ".toList, type.args.map fun v => v.struct ++ "*".toList⟩

theorem RoutineType.validateRoutine_eq {type : RoutineType} (defined : type ≠ .undefined) :
    validateRoutine type = validateFunction type.signature := by
  cases type with
  | undefined => exact absurd rfl defined
  | _ => rfl

theorem RoutineType.openCall_eq {type : RoutineType} (defined : type ≠ .undefined) :
    type.openCall = some ("(".toList ++ ", ".toList.intercalate (type.args.map Var.text)) := by
  cases type with
  | undefined => exact absurd rfl defined
  | _ => decide

/-- The variables that a routine is called with are parameters of the calling function. -/
theorem RoutineType.args_subset_scope (type : RoutineType) : type.args ⊆ type.scope := by
  cases type <;> decide

/-- The arguments after the variables: how many parameters there are, and the parameters. -/
def callArgs (jre : Jre) : Option (List jre.Double) → List Text
  | some (p :: ps) => (toString (ps.length + 1)).toList :: (p :: ps).map jre.doubleText
  | _ => ["0".toList]

/-- A call as it is printed. -/
theorem getStatement_routineCall {jre : Jre} (name : Text) {type : RoutineType} (defined : type ≠ .undefined)
    (params : Option (List jre.Double)) :
    Statement.getStatement jre (.routineCall name type params) =
      name ++ "(".toList ++ ", ".toList.intercalate (type.args.map Var.text ++ callArgs jre params) ++ ")".toList := by
  have nonempty : type.args.map Var.text ≠ [] := by
    cases type with
    | undefined => exact absurd rfl defined
    | _ => nofun
  rw [Statement.getStatement, RoutineType.openCall_eq defined, Lib.Text.intercalate_append _ nonempty]
  rcases params with - | (- | ⟨p, ps⟩)
  · simp [callArgs]
  · simp [callArgs]
  · simp only [callArgs, List.flatMap_cons, List.flatMap_map, List.map_cons, List.append_assoc]

section Functions

variable {jre : Jre} (gen : OQGen jre.Double)

/-- The function that serves an attribute of the queues. -/
def OQGen.generateFn : Attr → Text → Option Text
  | .congestion => gen.generateCongFn
  | .congAction => gen.generateCongActFn
  | .admPrio => gen.generateAdmnFn
  | .procPrio => gen.generateProcFn

/-- The comment above the function for an attribute of the queues. -/
def Attr.comment : Attr → Text
  | .congestion => "/* Congestion condition*/".toList
  | .congAction => "/* Congestion action */".toList
  | .admPrio => "/* Admission priority */".toList
  | .procPrio => "/* Processing priority */".toList

/-- The variable that such a function collects its result in. -/
def Attr.var : Attr → Text
  | .congestion => "cond".toList
  | .congAction => "status".toList
  | .admPrio => "key".toList
  | .procPrio => "key".toList

/-- What that variable starts with. -/
def Attr.init : Attr → Text
  | .congestion => "false".toList
  | .congAction => "0".toList
  | .admPrio => "0".toList
  | .procPrio => "0".toList

/-- The four functions for queues collect the value of a statement in a variable of their
result type. -/
theorem OQGen.generateFn_eq (a : Attr) :
    gen.generateFn a =
      gen.generateDispatchFn a ⟨a.comment, a.type.result, a.type.suffix, a.type.params, a.var, a.init⟩ := by
  have cong : RoutineType.congestionCondition.params = "struct oq_queue *queue".toList := by decide
  have others : ∀ type ∈ [RoutineType.congestionAction, .admissionPriority, .processingPriority],
      type.params = "struct oq_queue *queue, struct sk_buff *skb".toList := by decide
  cases a with
  | congestion => rw [show Attr.congestion.type.params = _ from cong]; rfl
  | congAction => rw [show Attr.congAction.type.params = _ from others _ (by decide)]; rfl
  | admPrio => rw [show Attr.admPrio.type.params = _ from others _ (by decide)]; rfl
  | procPrio => rw [show Attr.procPrio.type.params = _ from others _ (by decide)]; rfl

/-- The two functions for the port have the heads given above, and return the value of
their statement. -/
theorem OQGen.generateQselcFn_eq (port : Port jre.Double) (modName : Text) :
    generateQselcFn port modName = port.queueSelect.map fun s =>
      "/* Queue selection priority */\n".toList ++ RoutineType.queueSelector.head modName ++
        ")\n\x7b\n    return ".toList ++ s.getStatement jre ++ ";\n\x7d\n\n".toList := by
  have first : "/* Queue selection priority */\nint ".toList =
      "/* Queue selection priority */\n".toList ++ RoutineType.queueSelector.result ++ " ".toList := by decide
  have second : "_qselc_func(struct Qdisc *sch, struct sk_buff *skb)\n\x7b\n    return ".toList =
      RoutineType.queueSelector.suffix ++ "(".toList ++ RoutineType.queueSelector.params ++
        ")\n\x7b\n    return ".toList := by decide
  simp only [generateQselcFn, RoutineType.head, first, second, List.append_assoc]

theorem OQGen.generateSchdFn_eq (port : Port jre.Double) (modName : Text) :
    generateSchdFn port modName = port.schedPrio.map fun s =>
      "/* Scheduling priority */\n".toList ++ RoutineType.schedulingPriority.head modName ++
        ")\n\x7b\n    return ".toList ++ s.getStatement jre ++ ";\n\x7d\n\n".toList := by
  have first : "/* Scheduling priority */\nint ".toList =
      "/* Scheduling priority */\n".toList ++ RoutineType.schedulingPriority.result ++ " ".toList := by decide
  have second : "_schd_func(struct Qdisc *sch)\n\x7b\n    return ".toList =
      RoutineType.schedulingPriority.suffix ++ "(".toList ++ RoutineType.schedulingPriority.params ++
        ")\n\x7b\n    return ".toList := by decide
  simp only [generateSchdFn, RoutineType.head, first, second, List.append_assoc]

end Functions

end OpenQueue.Gen
