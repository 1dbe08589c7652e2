import OpenQueue.Gen.Policy

/-!
# Reading a policy

`parsePolicyFile` and all it calls, line by line. A failure is the list of messages that
`showError` printed before `false` was returned, or an exception that nothing catches.
The contents of the imported headers are given as a partial function on file names.
-/

namespace OpenQueue.Gen

open Lib (Text Jre PutMap)
open Lib.Text

/-- `showError(text, line)`. -/
structure Message where
  text : Text
  line : Nat
  deriving DecidableEq

/-- How reading ends when it does not succeed. -/
inductive Failure where
  | errors (messages : List Message)
  | thrown (exception : Text)
  deriving DecidableEq

/-- `showError` and `return false`. -/
def fail {α : Type} (text line : Text) (lineNumber : Nat) : Except Failure α :=
  .error (.errors [⟨text ++ line, lineNumber⟩])

/-! ## Inline statements -/

/-- `validateSubExpr`: an attribute of the queue or of the packet, or a number. -/
def validateSubExpr (jre : Jre) (subExpr : Text) : Option Text :=
  if subExpr.startsWith "Queue".toList then
    match subExpr.split ".".toList with
    | [_, attr] =>
      if attr.trim ∈ ["max_len".toList, "len".toList, "dropped".toList, "total".toList] then
        some ("queue->".toList ++ attr.trim)
      else none
    | _ => none
  else if subExpr.startsWith "Packet".toList then
    match subExpr.split ".".toList with
    | [_, attr] =>
      if attr.trim ∈ ["tos".toList, "tot_len".toList, "id".toList, "ttl".toList, "protocol".toList, "saddr".toList,
          "daddr".toList] then
        some ("((struct iphdr *)skb_header_pointer(skb, 0, 0, NULL))->".toList ++ attr.trim)
      else none
    | _ => none
  else
    (jre.parseDouble subExpr.trim).map fun d => Lib.intText (jre.intValue d)

/-- The comparison operators of an inline statement. -/
def comparisons : List Text := ["==".toList, "!=".toList, "<".toList, "<=".toList, ">".toList, ">=".toList]

/-- What stands between the braces: an operand, or a comparison of two. -/
def validateExpr (jre : Jre) (exp : Text) : Option Text :=
  match exp.split " ".toList with
  | [operand] => validateSubExpr jre operand.trim
  | [left, op, right] => do
    let lhs ← validateSubExpr jre left.trim
    let rhs ← validateSubExpr jre right.trim
    if op.trim ∈ comparisons then
      some ("(".toList ++ lhs ++ " ".toList ++ op.trim ++ " ".toList ++ rhs ++ ")".toList)
    else none
  | _ => none

/-- `InlineStatement.validate`. The closing brace is not required to come after the
opening one. -/
def validateInline (jre : Jre) (exp : Text) : Except Failure (Option Text) :=
  if exp.startsWith "inline".toList then
    match exp.indexOf '\x7b', exp.indexOf '\x7d' with
    | some beginIndex, some endIndex =>
      match exp.substring (beginIndex + 1) endIndex with
      | none => .error (.thrown "StringIndexOutOfBoundsException".toList)
      | some exp => .ok (validateExpr jre exp)
    | _, _ => .ok none
  else .ok none

/-! ## Imported routines -/

/-- What a signature validator asks for: the words of the result type, and the structs
that the first parameters point to. -/
structure Signature where
  type : RoutineType
  result : List Text
  structs : List Text

/-- `struct S* name`. -/
def isStructParam (param struct : Text) : Bool :=
  match param.trim.split " ".toList with
  | [kind, name, _] => kind.trim = "struct".toList && name.trim = struct
  | _ => false

/-- `int argc`. -/
def isArgc (param : Text) : Bool :=
  match param.trim.split " ".toList with
  | [type, _] => type.trim = "int".toList
  | _ => false

/-- The parameter list of a routine. -/
def areParams (structs : List Text) (params : Text) : Bool :=
  let paramTokens := params.split ",".toList
  paramTokens.length = structs.length + 2 &&
    (List.zipWith isStructParam paramTokens structs).all id &&
    match paramTokens.drop structs.length with
    | [argc, dots] => isArgc argc && dots.trim = "...".toList
    | _ => false

/-- The six signature validators. -/
def validateFunction (sig : Signature) (line : Text) : Option Routine :=
  match line.split "(".toList with
  | [typeName, rest] =>
    let typeNameTokens := typeName.trim.split " ".toList
    match typeNameTokens.getLast?, rest.split ")".toList with
    | some funcName, [params, _] =>
      if typeNameTokens.dropLast.map trim = sig.result ∧ areParams sig.structs params then
        some ⟨sig.type, funcName⟩
      else none
    | _, _ => none
  | _ => none

def validateQueueSelectFunction : Text → Option Routine :=
  validateFunction ⟨.queueSelector, ["int".toList], ["Qdisc*".toList, "sk_buff*".toList]⟩

def validateCongestionFunction : Text → Option Routine :=
  validateFunction ⟨.congestionCondition, ["bool".toList], ["oq_queue*".toList]⟩

def validateCongestionActionFunction : Text → Option Routine :=
  validateFunction ⟨.congestionAction, ["int".toList], ["oq_queue*".toList, "sk_buff*".toList]⟩

def validateAdmissionFunction : Text → Option Routine :=
  validateFunction ⟨.admissionPriority, ["unsigned".toList, "long".toList], ["sk_buff*".toList]⟩

def validateProcessingFunction : Text → Option Routine :=
  validateFunction ⟨.processingPriority, ["unsigned".toList, "long".toList], ["sk_buff*".toList]⟩

def validateSchedulingFunction : Text → Option Routine :=
  validateFunction ⟨.schedulingPriority, ["int".toList], ["Qdisc*".toList]⟩

/-- `getNextRoutineType`. -/
def getNextRoutineType (annotationLine : Text) : RoutineType :=
  if annotationLine.contains "@oq_qsel_func".toList then .queueSelector
  else if annotationLine.contains "@oq_cong_func".toList then .congestionCondition
  else if annotationLine.contains "@oq_cong_act_func".toList then .congestionAction
  else if annotationLine.contains "@oq_admn_func".toList then .admissionPriority
  else if annotationLine.contains "@oq_proc_func".toList then .processingPriority
  else if annotationLine.contains "@oq_schd_func".toList then .schedulingPriority
  else .undefined

/-- The validator that `processImport` calls on a line annotated with a type. -/
def validateRoutine : RoutineType → Text → Option Routine
  | .undefined => fun _ => none
  | .queueSelector => validateQueueSelectFunction
  | .congestionCondition => validateCongestionFunction
  | .congestionAction => validateCongestionActionFunction
  | .admissionPriority => validateAdmissionFunction
  | .processingPriority => validateProcessingFunction
  | .schedulingPriority => validateSchedulingFunction

/-- The loop of `processImport`. -/
def importLines (routines : PutMap Text Routine) (nextRoutineType : RoutineType) (lineNumber : Nat) :
    List Text → Except (List Message) (PutMap Text Routine)
  | [] => .ok routines
  | line :: rest =>
    let line := line.trim
    if line.startsWith "//".toList then
      importLines routines (getNextRoutineType line) (lineNumber + 1) rest
    else if line.isEmpty || nextRoutineType = .undefined then
      importLines routines nextRoutineType (lineNumber + 1) rest
    else
      match validateRoutine nextRoutineType line with
      | none => .error [⟨"Invalid function: ".toList ++ line, lineNumber + 1⟩]
      | some routine =>
        match routines.get routine.name with
        | some _ => .error [⟨"Function with the same name already exists: ".toList ++ line, lineNumber + 1⟩]
        | none => importLines (routines.put routine.name routine) .undefined (lineNumber + 1) rest

/-- `processImport`. -/
def processImport (files : Text → Option Text) (routines : PutMap Text Routine) (fileName : Text) :
    Except (List Message) (PutMap Text Routine) :=
  match fileName.split ".".toList with
  | [_, extension] =>
    if extension = "h".toList then
      match files fileName with
      | none => .error [⟨"File not found: ".toList ++ fileName, 0⟩]
      | some text => importLines routines .undefined 0 text.lines
    else .error []
  | _ => .error []

/-! ## Declarations -/

/-- `KIND name = KIND(args...` up to the closing parenthesis: the name and the
arguments. -/
def validateDeclaration (kind line : Text) : Option (Text × Text) :=
  match line.split "=".toList with
  | [lhs, rhs] =>
    match lhs.trim.split " ".toList, rhs.trim.split "(".toList with
    | [word, name], [word', rest] =>
      if word = kind ∧ name.trim ≠ [] ∧ word'.trim = kind then
        match rest.split ")".toList with
        | [args, _] => some (name.trim, args)
        | _ => none
      else none
    | _, _ => none
  | _ => none

/-- `validateQueueDeclaration`. -/
def validateQueueDeclaration (jre : Jre) (line : Text) : Option (Queue jre.Double) := do
  let (name, args) ← validateDeclaration "Queue".toList line
  let size ← jre.parseInt args.trim
  return { name := name, size := size }

/-- `validatePortDeclaration`. -/
def validatePortDeclaration {δ : Type} (queues : PutMap Text (Queue δ)) (line : Text) : Option (Port δ) := do
  let (name, args) ← validateDeclaration "Port".toList line
  let tokens := args.split ",".toList
  if tokens ≠ [] ∧ ∀ token ∈ tokens, (queues.get token.trim).isSome then
    return { name := name, queues := tokens.map trim }
  else none

/-! ## Assignments -/

/-- The statement of `validateFunctionAssignment`, or `none` when it returns `false`. -/
def validateFunctionAssignment (jre : Jre) (routines : PutMap Text Routine) (rhs : Text) (type : RoutineType) :
    Except Failure (Option (Statement jre.Double)) :=
  if rhs.startsWith "inline".toList then do
    let statement ← validateInline jre rhs
    return statement.map fun s => .inline s type
  else
    let funcName := rhs.takeWhile fun c => c ≠ '('
    match routines.get funcName with
    | none => .ok none
    | some routine =>
      if routine.type ≠ type then .ok none
      else
        match rhs.indexOf '(', rhs.indexOf ')' with
        | some first, some last =>
          match rhs.substring (first + 1) last with
          | none => .error (.thrown "StringIndexOutOfBoundsException".toList)
          | some params =>
            match params.trim.split ",".toList with
            | [] => .ok (some (.routineCall funcName type none))
            | paramTokens =>
              .ok ((paramTokens.mapM fun token => jre.parseDouble token.trim).map fun vals =>
                .routineCall funcName type (some vals))
        | _, _ => .ok (some (.routineCall funcName type none))

/-- The attributes of a queue. -/
inductive Attr where
  | congestion
  | congAction
  | admPrio
  | procPrio
  deriving DecidableEq

def Attr.type : Attr → RoutineType
  | .congestion => .congestionCondition
  | .congAction => .congestionAction
  | .admPrio => .admissionPriority
  | .procPrio => .processingPriority

/-- The attribute of a queue with this name. -/
def queueAttr? (attr : Text) : Option Attr :=
  if attr = "congestion".toList then some .congestion
  else if attr = "congAction".toList then some .congAction
  else if attr = "admPrio".toList then some .admPrio
  else if attr = "procPrio".toList then some .procPrio
  else none

/-- The statement assigned to an attribute. -/
def Queue.statement {δ : Type} (q : Queue δ) : Attr → Option (Statement δ)
  | .congestion => q.congestion
  | .congAction => q.congAction
  | .admPrio => q.admPrio
  | .procPrio => q.procPrio

/-- `setCongestion`, `setCongAction`, `setAdmPrio` and `setProcPrio`. -/
def Queue.assign {δ : Type} (q : Queue δ) (s : Statement δ) : Attr → Queue δ
  | .congestion => { q with congestion := some s }
  | .congAction => { q with congAction := some s }
  | .admPrio => { q with admPrio := some s }
  | .procPrio => { q with procPrio := some s }

/-- `OBJ.ATTR = RHS;`. -/
def parseAssignment (jre : Jre) (gen : OQGen jre.Double) (line : Text) (lineNumber : Nat) :
    Except Failure (OQGen jre.Double) :=
  let invalid : Except Failure (OQGen jre.Double) := fail "Invalid assignment statement: ".toList line lineNumber
  let invalidFunction : Except Failure (OQGen jre.Double) :=
    fail "Invalid function assignment: ".toList line lineNumber
  match line.split " = ".toList with
  | [lhs, rhs] =>
    let rhs := (rhs.trim.replace ';' ' ').trim
    match lhs.trim.split ".".toList with
    | [objName, attr] =>
      match gen.queues.get objName with
      | some queue =>
        match queueAttr? attr with
        | none => invalid
        | some a => do
          match ← validateFunctionAssignment jre gen.routines rhs a.type with
          | none => invalidFunction
          | some s => return { gen with queues := gen.queues.put objName (queue.assign s a) }
      | none =>
        match gen.port with
        | none => invalid
        | some port =>
          if port.name ≠ objName then invalid
          else if attr = "queueSelect".toList then do
            match ← validateFunctionAssignment jre gen.routines rhs .queueSelector with
            | none => invalidFunction
            | some s => return { gen with port := some { port with queueSelect := some s } }
          else if attr = "schedPrio".toList then do
            match ← validateFunctionAssignment jre gen.routines rhs .schedulingPriority with
            | none => invalidFunction
            | some s => return { gen with port := some { port with schedPrio := some s } }
          else invalid
    | _ => invalid
  | _ => invalid

/-! ## The policy file -/

/-- One line of the policy file. -/
def parseLine (jre : Jre) (files : Text → Option Text) (gen : OQGen jre.Double) (line : Text) (lineNumber : Nat) :
    Except Failure (OQGen jre.Double) :=
  let line := line.trim
  if line.startsWith "//".toList || line.isEmpty then .ok gen
  else if line.startsWith "import".toList then
    match line.split "\"".toList with
    | [word, fileName] =>
      if word.trim = "import".toList then
        match processImport files gen.routines fileName.trim with
        | .ok routines => .ok { gen with routines := routines }
        | .error messages =>
          .error (.errors (messages ++ [⟨"Error while processing import: ".toList ++ line, lineNumber⟩]))
      else fail "Invalid import statement: ".toList line lineNumber
    | _ => fail "Invalid import statement: ".toList line lineNumber
  else if line.getLast? ≠ some ';' then fail "';' expected at the end of line: ".toList line lineNumber
  else if line.startsWith "Queue".toList then
    match validateQueueDeclaration jre line with
    | none => fail "Invalid Queue declaration: ".toList line lineNumber
    | some queue => .ok { gen with queues := gen.queues.put queue.name queue }
  else if line.startsWith "Port".toList then
    match validatePortDeclaration gen.queues line with
    | none => fail "Invalid Port declaration: ".toList line lineNumber
    | some port => .ok { gen with port := some port }
  else parseAssignment jre gen line lineNumber

/-- The loop of `parsePolicyFile`. -/
def parseLines (jre : Jre) (files : Text → Option Text) (gen : OQGen jre.Double) (lineNumber : Nat) :
    List Text → Except Failure (OQGen jre.Double)
  | [] => .ok gen
  | line :: rest =>
    match parseLine jre files gen line (lineNumber + 1) with
    | .error e => .error e
    | .ok gen => parseLines jre files gen (lineNumber + 1) rest

/-- `parsePolicyFile`, on the text of the file. -/
def parsePolicyFile (jre : Jre) (files : Text → Option Text) (text : Text) : Except Failure (OQGen jre.Double) :=
  parseLines jre files {} 0 text.lines

/-- `isWellDefined`. -/
def OQGen.isWellDefined {jre : Jre} (gen : OQGen jre.Double) : Except Message Unit :=
  match gen.port with
  | none => .error ⟨"Port not well-defined".toList, 0⟩
  | some port =>
    if port.isWellDefined then
      match gen.values.find? fun q => !q.isWellDefined with
      | some q => .error ⟨"Queue not well-defined: ".toList ++ q.name, 0⟩
      | none => .ok ()
    else .error ⟨"Port not well-defined".toList, 0⟩

end OpenQueue.Gen
