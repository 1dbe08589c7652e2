import OpenQueue.Gen.Accepted
import OpenQueue.Gen.Inline
import OpenQueue.Lib.CLexical

/-!
# The policy language

The statements of a policy as abstract syntax, what each of them records, and how it is
written in the style of the sample policy. Numbers are kept as they are written. The
parameters of a call are recorded as Java reads them; in an inline expression `number`
says which `int` is written.
-/

namespace OpenQueue.Gen

open Lib (Text Jre PutMap)

/-! ## Abstract syntax -/

/-- The right-hand side of an assignment. -/
inductive Rhs where
  | routine (name : Text)
  | call (name : Text) (params : List Text)
  | inline (e : Inline Text)

/-- An attribute of a queue or of the port. -/
inductive AnyAttr where
  | queue (a : Attr)
  | port (a : PortAttr)
  deriving DecidableEq

/-- A statement of a policy. -/
inductive Stmt where
  | imports (file : Text)
  | queue (name : Text) (size : BitVec 32)
  | port (name : Text) (queues : List Text)
  | assign (obj : Text) (attr : AnyAttr) (rhs : Rhs)

def AnyAttr.type : AnyAttr → RoutineType
  | .queue a => a.type
  | .port a => a.type

/-! ## What is recorded -/

section Records

variable (jre : Jre) (number : Text → Option (BitVec 32))

/-- The statement that a right-hand side stands for, if its numbers can be read. -/
def Rhs.statement (type : RoutineType) : Rhs → Option (Statement jre.Double)
  | .routine name => some (.routineCall name type none)
  | .call name params => (params.mapM jre.parseDouble).map fun vals => .routineCall name type (some vals)
  | .inline e => (e.mapNum number).map fun c => .inline c.cText type

/-- The policy after a statement. -/
inductive Records (files : Text → Option Text) (gen : OQGen jre.Double) : Stmt → OQGen jre.Double → Prop where
  | imports {file : Text} {routines : PutMap Text Routine} (read : processImport files gen.routines file = .ok routines) :
      Records files gen (.imports file) { gen with routines := routines }
  | queue {name : Text} {size : BitVec 32} :
      Records files gen (.queue name size) { gen with queues := gen.queues.put name { name := name, size := size } }
  | port {name : Text} {queues : List Text} :
      Records files gen (.port name queues) { gen with port := some { name := name, queues := queues } }
  | queueAttr {obj : Text} {a : Attr} {rhs : Rhs} {q : Queue jre.Double} {s : Statement jre.Double}
      (found : gen.queues.get obj = some q) (read : rhs.statement jre number a.type = some s) :
      Records files gen (.assign obj (.queue a) rhs) { gen with queues := gen.queues.put obj (q.assign s a) }
  | portAttr {obj : Text} {a : PortAttr} {rhs : Rhs} {port : Port jre.Double} {s : Statement jre.Double}
      (other : gen.queues.get obj = none) (found : gen.port = some port) (name : port.name = obj)
      (read : rhs.statement jre number a.type = some s) :
      Records files gen (.assign obj (.port a) rhs) { gen with port := some (port.assign s a) }

end Records

/-! ## Rendering -/

def AnyAttr.text : AnyAttr → Text
  | .queue a => a.text
  | .port a => a.text

def Operand.text : Operand Text → Text
  | .queue a => "Queue.".toList ++ a.text
  | .packet a => "Packet.".toList ++ a.text
  | .num n => n

def Inline.text : Inline Text → Text
  | .operand o => o.text
  | .compare op lhs rhs => lhs.text ++ " ".toList ++ opText op ++ " ".toList ++ rhs.text

def Rhs.text : Rhs → Text
  | .routine name => name
  | .call name params => name ++ "(".toList ++ ", ".toList.intercalate params ++ ")".toList
  | .inline e => "inline\x7b".toList ++ e.text ++ "\x7d".toList

/-- `KIND NAME = KIND(ARGS);` -/
def declaration (kind name args : Text) : Text :=
  kind ++ " ".toList ++ name ++ " = ".toList ++ kind ++ "(".toList ++ args ++ ");".toList

def Stmt.text : Stmt → Text
  | .imports file => "import \"".toList ++ file ++ "\"".toList
  | .queue name size => declaration "Queue".toList name (Lib.intText size)
  | .port name queues => declaration "Port".toList name (", ".toList.intercalate queues)
  | .assign obj attr rhs => obj ++ ".".toList ++ attr.text ++ " = ".toList ++ rhs.text ++ ";".toList

end OpenQueue.Gen
