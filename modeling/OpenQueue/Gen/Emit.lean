import OpenQueue.Gen.Parser

/-!
# The text of a policy module

The functions of OQGen that write the C source, in the order of `generateModule`. The
four functions that choose a statement by the name of the queue differ in their frame
only and share `generateDispatchFn`. `none` is a `NullPointerException`, for a policy
that is not well-defined. The fixed lines of the comment at the top are left out.
-/

namespace OpenQueue.Gen

open Lib (Text Jre)

/-- `if (strncmp(queue->name, "NAME", TCQ_OQ_NAME_LEN) == 0) VAR = STATEMENT;`. -/
structure Branch where
  name : Text
  statement : Text

def Branch.text (var : Text) (b : Branch) : Text :=
  "    if (strncmp(queue->name, \"".toList ++ b.name ++ "\", TCQ_OQ_NAME_LEN) == 0)\n        ".toList ++ var ++
    " = ".toList ++ b.statement ++ ";\n".toList

/-- The frame of a function that chooses a statement. -/
structure DispatchFn where
  comment : Text
  type : Text
  suffix : Text
  params : Text
  var : Text
  init : Text

/-- `init_queue(&priv->queues[i], "NAME", SIZE)`. -/
structure InitCall where
  name : Text
  size : BitVec 32

def InitCall.text (i : Nat) (c : InitCall) : Text :=
  "    if (init_queue(&priv->queues[".toList ++ (toString i).toList ++ "], \"".toList ++ c.name ++ "\", ".toList ++
    Lib.intText c.size ++ ") != 0)\n        return -ENOMEM;\n".toList

namespace OQGen

variable {jre : Jre} (gen : OQGen jre.Double)

/-- The branches for an attribute, in the order of the map. -/
def branches (a : Attr) : Option (List Branch) :=
  gen.values.mapM fun q => (q.statement a).map fun s => ⟨q.name, s.getStatement jre⟩

/-- The calls of `init_queue`, in the order of the map. -/
def initCalls : List InitCall := gen.values.map fun q => ⟨q.name, q.size⟩

/-- `getModuleName`. -/
def getModuleName (jre : Jre) (name : Text) : Text :=
  "oqp_".toList ++ name.flatMap fun c => if jre.isUpperCase c then ['_', jre.toLowerCase c] else [c]

/-- `generateHeader`. -/
def generateHeader (port : Port jre.Double) (modName : Text) : Text :=
  "/*\n * mod_".toList ++ modName ++ ".c    OpenQueue policy ".toList ++ port.name ++ "\n */\n\n".toList ++
    "#include <linux/module.h>\n#include <linux/kernel.h>\n#include <linux/init.h>\n".toList ++
    "#include <net/pkt_sched.h>\n\n#include \"../../include/qdisc/sch_openqueue.h\"\n".toList ++
    "#include \"../../include/routine/routines.h\"\n\n#define TCQ_OQ_NO_QUEUES\t".toList ++
    (toString gen.queues.keys.length).toList ++ "\n\n".toList

def generateDispatchFn (a : Attr) (fn : DispatchFn) (modName : Text) : Option Text :=
  (gen.branches a).map fun bs =>
    fn.comment ++ "\n".toList ++ fn.type ++ " ".toList ++ modName ++ fn.suffix ++ "(".toList ++ fn.params ++
      ")\n\x7b\n    ".toList ++ fn.type ++ " ".toList ++ fn.var ++ " = ".toList ++ fn.init ++ ";\n\n".toList ++
      bs.flatMap (Branch.text fn.var) ++ "\n    return ".toList ++ fn.var ++ ";\n\x7d\n\n".toList

def generateCongFn : Text → Option Text :=
  gen.generateDispatchFn .congestion
    ⟨"/* Congestion condition*/".toList, "bool".toList, "_cong_func".toList, "struct oq_queue *queue".toList,
      "cond".toList, "false".toList⟩

def generateCongActFn : Text → Option Text :=
  gen.generateDispatchFn .congAction
    ⟨"/* Congestion action */".toList, "int".toList, "_cong_act_func".toList,
      "struct oq_queue *queue, struct sk_buff *skb".toList, "status".toList, "0".toList⟩

def generateAdmnFn : Text → Option Text :=
  gen.generateDispatchFn .admPrio
    ⟨"/* Admission priority */".toList, "unsigned long".toList, "_admn_func".toList,
      "struct oq_queue *queue, struct sk_buff *skb".toList, "key".toList, "0".toList⟩

def generateProcFn : Text → Option Text :=
  gen.generateDispatchFn .procPrio
    ⟨"/* Processing priority */".toList, "unsigned long".toList, "_proc_func".toList,
      "struct oq_queue *queue, struct sk_buff *skb".toList, "key".toList, "0".toList⟩

/-- `generateQselcFn`. -/
def generateQselcFn (port : Port jre.Double) (modName : Text) : Option Text :=
  port.queueSelect.map fun s =>
    "/* Queue selection priority */\nint ".toList ++ modName ++
      "_qselc_func(struct Qdisc *sch, struct sk_buff *skb)\n\x7b\n    return ".toList ++ s.getStatement jre ++
      ";\n\x7d\n\n".toList

/-- `generateSchdFn`. -/
def generateSchdFn (port : Port jre.Double) (modName : Text) : Option Text :=
  port.schedPrio.map fun s =>
    "/* Scheduling priority */\nint ".toList ++ modName ++
      "_schd_func(struct Qdisc *sch)\n\x7b\n    return ".toList ++ s.getStatement jre ++ ";\n\x7d\n\n".toList

/-- `generateInitQueueFn`. -/
def generateInitQueueFn : Text :=
  "/* Initialize queue */\nint init_queue(struct oq_queue *queue, const char* name, int max_len)\n\x7b\n".toList ++
    "    if ((btree_init(&queue->admn_q) != 0) || (btree_init(&queue->proc_q) != 0))\n        return -1;\n\n".toList ++
    "    queue->max_len = max_len;\n    queue->len = 0;\n    queue->dropped = 0;\n    queue->total = 0;\n".toList ++
    "    strncpy(queue->name, name, TCQ_OQ_NAME_LEN);\n\n    return 0;\n\x7d\n\n".toList

/-- The function around its calls of `init_queue`. -/
def initPortText (modName portName : Text) (calls : List InitCall) : Text :=
  "/* Initialize policy */\nint ".toList ++ modName ++ "_init_port(struct oq_priv *priv)\n\x7b\n".toList ++
    (calls.zipIdx.flatMap fun c => c.1.text c.2) ++
    "\n    priv->num_q = TCQ_OQ_NO_QUEUES;\n    strncpy(priv->port_name, \"".toList ++ portName ++
    "\", TCQ_OQ_NAME_LEN);\n\n    priv->cong_fn = ".toList ++ modName ++ "_cong_func;\n    priv->cong_act_fn = ".toList ++
    modName ++ "_cong_act_func;\n    priv->admn_fn = ".toList ++ modName ++ "_admn_func;\n    priv->proc_fn = ".toList ++
    modName ++ "_proc_func;\n    priv->q_select = ".toList ++ modName ++ "_qselc_func;\n    priv->sched_fn = ".toList ++
    modName ++ "_schd_func;\n\n    return 0;\n\x7d\n\n".toList

/-- `generateInitPortFn`. -/
def generateInitPortFn (port : Port jre.Double) (modName : Text) : Text := initPortText modName port.name gen.initCalls

/-- `generateFooter`. -/
def generateFooter (port : Port jre.Double) (modName : Text) : Text :=
  "/* Initialize policy */\nstatic int __init ".toList ++ modName ++
    "_init(void)\n\x7b\n    printk(KERN_INFO \"Registered OpenQueue policy ".toList ++ modName ++
    "\\n\");\n\n    return oq_register_policy(\"".toList ++ port.name ++ "\", ".toList ++ modName ++
    "_init_port);\n\x7d\n\n/* Exit policy */\nstatic void __exit ".toList ++ modName ++
    "_exit(void)\n\x7b\n    printk(KERN_INFO \"Unregistered OpenQueue policy ".toList ++ modName ++
    "\\n\");\n\x7d\n\nmodule_init(".toList ++ modName ++ "_init);\nmodule_exit(".toList ++ modName ++
    "_exit);\nMODULE_LICENSE(\"GPL\");\n".toList

/-- `generateModule`, under the name that `generateCode` gives it. -/
def generateModule : Option Text := do
  let port ← gen.port
  let modName := getModuleName jre port.name
  return gen.generateHeader port modName ++ (← gen.generateCongFn modName) ++ (← gen.generateCongActFn modName) ++
    (← gen.generateAdmnFn modName) ++ (← gen.generateProcFn modName) ++ (← generateQselcFn port modName) ++
    (← generateSchdFn port modName) ++ generateInitQueueFn ++ gen.generateInitPortFn port modName ++
    generateFooter port modName

/-- `generateCode`, when the files can be written: the text of the module. -/
def generateCode : Except Failure Text :=
  match gen.generateModule with
  | some code => .ok code
  | none => .error (.thrown "NullPointerException".toList)

end OQGen

/-- The three stages of `main`. What it adds to the messages of a stage is left out. -/
def oqGen (jre : Jre) (files : Text → Option Text) (text : Text) : Except Failure Text := do
  let gen ← parsePolicyFile jre files text
  match gen.isWellDefined with
  | .error message => .error (.errors [message])
  | .ok () => gen.generateCode

end OpenQueue.Gen
