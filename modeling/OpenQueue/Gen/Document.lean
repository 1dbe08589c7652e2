import OpenQueue.Gen.Dispatch
import OpenQueue.Gen.Scope

/-!
# The printed module, piece by piece

The source of a module as a document: a header, ten functions with their parameters and
bodies, and a footer, each a list of pieces that say what their text stands for. What
`generateModule` prints is the text of this document.
-/

namespace OpenQueue.Gen

open Lib (Text Jre)

/-- A part of the source. A name of a queue or of the port between double quotes is
`quoted`; a `literal` is any other string. -/
inductive Piece where
  | code (t : Text)
  | number (t : Text)
  | name (t : Text)
  | routine (t : Text)
  | quoted (t : Text)
  | literal (t : Text)
  | comment (t : Text)

def Piece.text : Piece → Text
  | .code t => t
  | .number t => t
  | .name t => t
  | .routine t => t
  | .quoted t => "\"".toList ++ t ++ "\"".toList
  | .literal t => "\"".toList ++ t ++ "\"".toList
  | .comment t => t

/-- A parameter; its type ends in a blank or an asterisk. -/
structure Param where
  type : Text
  name : Text

def Param.text (p : Param) : Text := p.type ++ p.name

def Var.asParam (v : Var) : Param := ⟨"struct ".toList ++ v.struct ++ " *".toList, v.text⟩

structure CFunction where
  comment : Text
  result : Text
  name : Text
  params : List Param
  body : List Piece

def paramsText : List Param → Text
  | [] => "void".toList
  | ps => ", ".toList.intercalate (ps.map Param.text)

def CFunction.text (f : CFunction) : Text :=
  f.comment ++ "\n".toList ++ f.result ++ " ".toList ++ f.name ++ "(".toList ++ paramsText f.params ++
    ")\n\x7b\n".toList ++ f.body.flatMap Piece.text ++ "\x7d\n\n".toList

structure CSource where
  header : List Piece
  functions : List CFunction
  footer : List Piece

def CSource.text (src : CSource) : Text :=
  src.header.flatMap Piece.text ++ src.functions.flatMap CFunction.text ++ src.footer.flatMap Piece.text

/-- A function is printed without a break. -/
theorem CSource.text_within {src : CSource} {f : CFunction} (mem : f ∈ src.functions) : f.text <:+: src.text := by
  obtain ⟨before, after, split⟩ := List.append_of_mem mem
  refine ⟨src.header.flatMap Piece.text ++ before.flatMap CFunction.text,
    after.flatMap CFunction.text ++ src.footer.flatMap Piece.text, ?_⟩
  simp only [CSource.text, split, List.flatMap_append, List.flatMap_cons, List.append_assoc]

/-! ## The pieces of a module -/

section Source

variable {jre : Jre}

def Statement.pieces : Statement jre.Double → List Piece
  | .inline t _ => [.code t]
  | .routineCall name type params =>
    match type.openCall with
    | none => []
    | some args =>
      [.routine name, .code args] ++ (callArgs jre params).flatMap (fun n => [.code ", ".toList, .number n]) ++
        [.code ")".toList]

theorem Statement.text_pieces (s : Statement jre.Double) : s.pieces.flatMap Piece.text = s.getStatement jre := by
  cases s with
  | inline t type => simp [pieces, getStatement, Piece.text]
  | routineCall name type params =>
    rw [pieces, getStatement]
    cases type.openCall with
    | none => rfl
    | some args => rcases params with - | (- | ⟨p, ps⟩) <;> simp [callArgs, Piece.text, List.flatMap_assoc, List.flatMap_map]

/-- The branch for a queue. -/
def branchPieces (var name : Text) (s : Statement jre.Double) : List Piece :=
  [.code "    if (strncmp(queue->name, ".toList, .quoted name,
    .code (", TCQ_OQ_NAME_LEN) == 0)\n        ".toList ++ var ++ " = ".toList)] ++ s.pieces ++ [.code ";\n".toList]

theorem text_branchPieces (var name : Text) (s : Statement jre.Double) :
    (branchPieces var name s).flatMap Piece.text = Branch.text var ⟨name, s.getStatement jre⟩ := by
  unfold branchPieces Branch.text
  simp only [Piece.text, List.flatMap_append, List.flatMap_cons, List.flatMap_nil, s.text_pieces,
    List.append_assoc, List.append_nil, String.reduceToList,
    List.cons_append, List.nil_append]

/-- The call for the queue at `i`. -/
def initPieces (i : Nat) (c : InitCall) : List Piece :=
  [.code "    if (init_queue(&priv->queues[".toList, .number (toString i).toList, .code "], ".toList, .quoted c.name,
    .code ", ".toList, .number (Lib.intText c.size), .code ") != 0)\n        return -ENOMEM;\n".toList]

theorem text_initPieces (i : Nat) (c : InitCall) : (initPieces i c).flatMap Piece.text = c.text i := by
  unfold initPieces InitCall.text
  simp only [Piece.text, List.flatMap_cons, List.flatMap_nil, List.append_assoc, List.append_nil, String.reduceToList,
    List.cons_append, List.nil_append]

namespace OQGen

variable (gen : OQGen jre.Double) (port : Port jre.Double) (modName : Text)

def headerPieces : List Piece :=
  [.comment ("/*\n * mod_".toList ++ modName ++ ".c    OpenQueue policy ".toList ++ port.name ++ "\n */\n\n".toList),
    .code ("#include <linux/module.h>\n#include <linux/kernel.h>\n#include <linux/init.h>\n".toList ++
      "#include <net/pkt_sched.h>\n\n#include ".toList),
    .literal "../../include/qdisc/sch_openqueue.h".toList, .code "\n#include ".toList,
    .literal "../../include/routine/routines.h".toList, .code "\n\n#define TCQ_OQ_NO_QUEUES\t".toList,
    .number (toString gen.queues.keys.length).toList, .code "\n\n".toList]

/-- The function for an attribute of the queues. -/
def dispatchFn (a : Attr) : Option CFunction :=
  (gen.values.mapM fun (q : Queue jre.Double) => (q.statement a).map (branchPieces a.var q.name)).map fun bs =>
    { comment := a.comment
      result := a.type.result
      name := modName ++ a.type.suffix
      params := a.type.scope.map Var.asParam
      body := .code ("    ".toList ++ a.type.result ++ " ".toList ++ a.var ++ " = ".toList ++ a.init ++ ";\n\n".toList) ::
        bs.flatten ++ [.code ("\n    return ".toList ++ a.var ++ ";\n".toList)] }

/-- A function for an attribute of the port. -/
def returnFn (comment : Text) (type : RoutineType) (s : Statement jre.Double) : CFunction where
  comment := comment
  result := type.result
  name := modName ++ type.suffix
  params := type.scope.map Var.asParam
  body := .code "    return ".toList :: s.pieces ++ [.code ";\n".toList]

def qselcFn : Statement jre.Double → CFunction :=
  returnFn modName "/* Queue selection priority */".toList .queueSelector

def schdFn : Statement jre.Double → CFunction := returnFn modName "/* Scheduling priority */".toList .schedulingPriority

def initQueueFn : CFunction where
  comment := "/* Initialize queue */".toList
  result := "int".toList
  name := "init_queue".toList
  params := [⟨"struct oq_queue *".toList, "queue".toList⟩, ⟨"const char* ".toList, "name".toList⟩,
    ⟨"int ".toList, "max_len".toList⟩]
  body := [.code (
    "    if ((btree_init(&queue->admn_q) != 0) || (btree_init(&queue->proc_q) != 0))\n        return -1;\n\n".toList ++
    "    queue->max_len = max_len;\n    queue->len = 0;\n    queue->dropped = 0;\n    queue->total = 0;\n".toList ++
    "    strncpy(queue->name, name, TCQ_OQ_NAME_LEN);\n\n    return 0;\n".toList)]

def initPortFn : CFunction where
  comment := "/* Initialize policy */".toList
  result := "int".toList
  name := modName ++ "_init_port".toList
  params := [⟨"struct oq_priv *".toList, "priv".toList⟩]
  body :=
    (gen.initCalls.zipIdx.flatMap fun c => initPieces c.2 c.1) ++
    [.code "\n    priv->num_q = TCQ_OQ_NO_QUEUES;\n    strncpy(priv->port_name, ".toList, .quoted port.name,
      .code ", TCQ_OQ_NAME_LEN);\n\n    priv->cong_fn = ".toList, .name (modName ++ "_cong_func".toList),
      .code ";\n    priv->cong_act_fn = ".toList, .name (modName ++ "_cong_act_func".toList),
      .code ";\n    priv->admn_fn = ".toList, .name (modName ++ "_admn_func".toList),
      .code ";\n    priv->proc_fn = ".toList, .name (modName ++ "_proc_func".toList),
      .code ";\n    priv->q_select = ".toList, .name (modName ++ "_qselc_func".toList),
      .code ";\n    priv->sched_fn = ".toList, .name (modName ++ "_schd_func".toList),
      .code ";\n\n    return 0;\n".toList]

/-- The functions of the kernel module. -/
def initFn : CFunction where
  comment := "/* Initialize policy */".toList
  result := "static int __init".toList
  name := modName ++ "_init".toList
  params := []
  body :=
    [.code "    printk(KERN_INFO ".toList,
      .literal ("Registered OpenQueue policy ".toList ++ modName ++ "\\n".toList),
      .code ");\n\n    return oq_register_policy(".toList, .quoted port.name, .code ", ".toList,
      .name (modName ++ "_init_port".toList), .code ");\n".toList]

def exitFn : CFunction where
  comment := "/* Exit policy */".toList
  result := "static void __exit".toList
  name := modName ++ "_exit".toList
  params := []
  body :=
    [.code "    printk(KERN_INFO ".toList,
      .literal ("Unregistered OpenQueue policy ".toList ++ modName ++ "\\n".toList), .code ");\n".toList]

def footerPieces : List Piece :=
  [.code "module_init(".toList, .name (modName ++ "_init".toList), .code ");\nmodule_exit(".toList,
    .name (modName ++ "_exit".toList), .code ");\nMODULE_LICENSE(".toList, .literal "GPL".toList, .code ");\n".toList]

/-- The document that `generateModule` prints. -/
def source : Option CSource := do
  let port ← gen.port
  let modName := getModuleName jre port.name
  let cong ← gen.dispatchFn modName .congestion
  let congAct ← gen.dispatchFn modName .congAction
  let admn ← gen.dispatchFn modName .admPrio
  let proc ← gen.dispatchFn modName .procPrio
  let queueSelect ← port.queueSelect
  let schedPrio ← port.schedPrio
  return {
    header := gen.headerPieces port modName
    functions := [cong, congAct, admn, proc,
      qselcFn modName queueSelect, schdFn modName schedPrio, initQueueFn, gen.initPortFn port modName,
      initFn port modName, exitFn modName]
    footer := footerPieces modName }

/-! ## Its text -/

set_option maxRecDepth 4000 in
theorem text_headerPieces : (gen.headerPieces port modName).flatMap Piece.text = gen.generateHeader port modName := by
  unfold headerPieces generateHeader
  simp only [Piece.text, List.flatMap_cons, List.flatMap_nil, List.append_assoc, List.append_nil, String.reduceToList,
    List.cons_append, List.nil_append]

set_option maxRecDepth 4000 in
theorem text_footer :
    (initFn port modName).text ++ ((exitFn modName).text ++ (footerPieces modName).flatMap Piece.text) =
      generateFooter port modName := by
  unfold initFn exitFn footerPieces generateFooter CFunction.text
  simp only [paramsText, Piece.text, List.flatMap_cons,
    List.flatMap_nil, List.append_assoc, List.append_nil, String.reduceToList,
    List.cons_append, List.nil_append]

set_option maxRecDepth 4000 in
theorem text_initQueueFn : initQueueFn.text = generateInitQueueFn := by
  unfold initQueueFn generateInitQueueFn CFunction.text
  simp only [paramsText, Param.text,
    List.map_cons, List.map_nil, Lib.Text.intercalate_cons, List.flatMap_cons, List.flatMap_nil, Piece.text,
    List.append_nil, String.reduceToList,
    List.cons_append, List.nil_append]

set_option maxRecDepth 4000 in
theorem text_initPortFn : (gen.initPortFn port modName).text = gen.generateInitPortFn port modName := by
  unfold initPortFn generateInitPortFn initPortText CFunction.text
  simp only [paramsText, Param.text, List.map_cons, List.map_nil, List.intercalate_singleton, Piece.text, List.flatMap_append, List.flatMap_cons,
    List.flatMap_nil, List.flatMap_assoc, text_initPieces, List.append_assoc, List.append_nil, String.reduceToList,
    List.cons_append, List.nil_append]

/-- The parameter list of a function that a policy fills. -/
theorem paramsText_scope {type : RoutineType} (defined : type ≠ .undefined) :
    paramsText (type.scope.map Var.asParam) = type.params := by
  cases type with
  | undefined => exact absurd rfl defined
  | _ => rfl

theorem text_returnFn {type : RoutineType} (defined : type ≠ .undefined) (comment : Text) (s : Statement jre.Double) :
    (returnFn modName comment type s).text =
      comment ++ "\n".toList ++ (type.head modName ++ ")\n\x7b\n".toList ++
        ("    return ".toList ++ s.getStatement jre ++ ";\n".toList) ++ "\x7d\n\n".toList) := by
  unfold returnFn CFunction.text RoutineType.head
  simp only [paramsText_scope defined, List.cons_append, List.flatMap_cons, List.flatMap_append, s.text_pieces,
    List.flatMap_nil, Piece.text, List.append_assoc, List.append_nil]

/-- The body of the function for an attribute of the queues, around its branches. -/
def dispatchBody (a : Attr) (bs : List Branch) : Text :=
  "    ".toList ++ a.type.result ++ " ".toList ++ a.var ++ " = ".toList ++ a.init ++ ";\n\n".toList ++
    bs.flatMap (Branch.text a.var) ++ "\n    return ".toList ++ a.var ++ ";\n".toList

theorem generateFn_text (a : Attr) : gen.generateFn a modName = (gen.branches a).map fun bs =>
    a.comment ++ "\n".toList ++
      (a.type.head modName ++ ")\n\x7b\n".toList ++ dispatchBody a bs ++ "\x7d\n\n".toList) := by
  rw [generateFn_eq]
  unfold generateDispatchFn dispatchBody RoutineType.head
  simp only [List.append_assoc, String.reduceToList, List.cons_append, List.nil_append]

theorem text_dispatchFn (a : Attr) : (gen.dispatchFn modName a).map CFunction.text = gen.generateFn a modName := by
  have branches := Lib.map_flatMap_mapM (F := (·.flatMap Piece.text)) (G := Branch.text a.var)
    (f := fun q : Queue jre.Double => (q.statement a).map (branchPieces a.var q.name))
    (g := fun q => (q.statement a).map fun s => ⟨q.name, s.getStatement jre⟩) (by
      intro q
      rw [Option.map_map, Option.map_map]
      exact congrArg (Option.map · (q.statement a)) (funext fun s => text_branchPieces a.var q.name s)) gen.values
  have defined : a.type ≠ .undefined := by cases a <;> nofun
  have frame : gen.generateFn a modName = ((gen.branches a).map (·.flatMap (Branch.text a.var))).map fun bs =>
      a.comment ++ "\n".toList ++ a.type.head modName ++ ")\n\x7b\n    ".toList ++ a.type.result ++ " ".toList ++ a.var ++
        " = ".toList ++ a.init ++ ";\n\n".toList ++ bs ++ "\n    return ".toList ++ a.var ++ ";\n\x7d\n\n".toList := by
    rw [generateFn_text, Option.map_map]
    unfold dispatchBody
    simp only [Function.comp_def, List.append_assoc, String.reduceToList, List.cons_append, List.nil_append]
  rw [frame, OQGen.branches, ← branches, dispatchFn, Option.map_map, Option.map_map]
  congr 1
  funext bs
  simp only [Function.comp_apply, CFunction.text, RoutineType.head, paramsText_scope defined, List.cons_append,
    List.flatMap_cons, List.flatMap_append, List.flatten_eq_flatMap, List.flatMap_assoc, id, List.flatMap_nil, Piece.text,
    List.append_assoc, List.append_nil, String.reduceToList, List.nil_append]

theorem text_qselcFn : (port.queueSelect.map (qselcFn modName)).map CFunction.text = generateQselcFn port modName := by
  rw [generateQselcFn_eq, Option.map_map]
  refine congrArg (Option.map · port.queueSelect) (funext fun s => (text_returnFn modName (by decide) _ s).trans ?_)
  simp only [List.append_assoc, String.reduceToList, List.cons_append, List.nil_append]

theorem text_schdFn : (port.schedPrio.map (schdFn modName)).map CFunction.text = generateSchdFn port modName := by
  rw [generateSchdFn_eq, Option.map_map]
  refine congrArg (Option.map · port.schedPrio) (funext fun s => (text_returnFn modName (by decide) _ s).trans ?_)
  simp only [List.append_assoc, String.reduceToList, List.cons_append, List.nil_append]

/-- `generateModule` prints the document. -/
theorem generateModule_eq : gen.generateModule = gen.source.map CSource.text := by
  have cong : gen.generateCongFn = gen.generateFn .congestion := rfl
  have congAct : gen.generateCongActFn = gen.generateFn .congAction := rfl
  have admn : gen.generateAdmnFn = gen.generateFn .admPrio := rfl
  have proc : gen.generateProcFn = gen.generateFn .procPrio := rfl
  unfold generateModule source
  rw [cong, congAct, admn, proc]
  simp only [Option.bind_eq_bind, Option.pure_def, ← text_dispatchFn, ← text_qselcFn, ← text_schdFn, Option.bind_map,
    Option.map_bind, Function.comp_def, Option.map_some, CSource.text, List.flatMap_cons, List.flatMap_nil,
    List.append_assoc, List.append_nil, text_headerPieces, text_initQueueFn, text_initPortFn, text_footer]

/-! ## Its functions -/

variable {gen port}

/-- The functions of a module. -/
inductive Has (gen : OQGen jre.Double) (port : Port jre.Double) : CFunction → Prop where
  | dispatch {a : Attr} {f : CFunction} (found : gen.dispatchFn (getModuleName jre port.name) a = some f) : Has gen port f
  | queueSelect {s : Statement jre.Double} (here : port.queueSelect = some s) :
      Has gen port (qselcFn (getModuleName jre port.name) s)
  | schedPrio {s : Statement jre.Double} (here : port.schedPrio = some s) :
      Has gen port (schdFn (getModuleName jre port.name) s)
  | initQueue : Has gen port initQueueFn
  | initPort : Has gen port (gen.initPortFn port (getModuleName jre port.name))
  | init : Has gen port (initFn port (getModuleName jre port.name))
  | exit : Has gen port (exitFn (getModuleName jre port.name))

theorem source_eq_some {src : CSource} (found : gen.source = some src) :
    ∃ port, gen.port = some port ∧ src.header = gen.headerPieces port (getModuleName jre port.name) ∧
      src.footer = footerPieces (getModuleName jre port.name) ∧
      (∀ a, ∃ f, gen.dispatchFn (getModuleName jre port.name) a = some f) ∧
      ∀ f, f ∈ src.functions ↔ gen.Has port f := by
  obtain ⟨port, here, found⟩ := Option.bind_eq_some_iff.1 found
  obtain ⟨cong, cong', found⟩ := Option.bind_eq_some_iff.1 found
  obtain ⟨congAct, congAct', found⟩ := Option.bind_eq_some_iff.1 found
  obtain ⟨admn, admn', found⟩ := Option.bind_eq_some_iff.1 found
  obtain ⟨proc, proc', found⟩ := Option.bind_eq_some_iff.1 found
  obtain ⟨select, select', found⟩ := Option.bind_eq_some_iff.1 found
  obtain ⟨sched, sched', found⟩ := Option.bind_eq_some_iff.1 found
  cases found
  refine ⟨port, here, rfl, rfl, fun a => ?_, fun f => ⟨fun mem => ?_, fun has => ?_⟩⟩
  · cases a
    · exact ⟨_, cong'⟩
    · exact ⟨_, congAct'⟩
    · exact ⟨_, admn'⟩
    · exact ⟨_, proc'⟩
  · simp only [List.mem_cons, List.not_mem_nil, or_false] at mem
    rcases mem with rfl | rfl | rfl | rfl | rfl | rfl | rfl | rfl | rfl | rfl
    · exact .dispatch cong'
    · exact .dispatch congAct'
    · exact .dispatch admn'
    · exact .dispatch proc'
    · exact .queueSelect select'
    · exact .schedPrio sched'
    · exact .initQueue
    · exact .initPort
    · exact .init
    · exact .exit
  · cases has with
    | @dispatch a f found =>
      cases a
      · cases cong'.symm.trans found
        simp
      · cases congAct'.symm.trans found
        simp
      · cases admn'.symm.trans found
        simp
      · cases proc'.symm.trans found
        simp
    | queueSelect here =>
      cases select'.symm.trans here
      simp
    | schedPrio here =>
      cases sched'.symm.trans here
      simp
    | _ => simp

/-- Every function of a module is in its text. -/
theorem Has.text_within {f : CFunction} {code : Text} (has : gen.Has port f) (here : gen.port = some port)
    (printed : gen.generateModule = some code) : f.text <:+: code := by
  rw [generateModule_eq] at printed
  obtain ⟨src, found, rfl⟩ := Option.map_eq_some_iff.1 printed
  obtain ⟨port', here', -, -, -, functions⟩ := source_eq_some found
  cases here.symm.trans here'
  exact CSource.text_within ((functions f).2 has)

end OQGen

/-- The source has a function with the head of a type and this body. -/
def HasFunction (code : Text) (type : RoutineType) (modName body : Text) : Prop :=
  (type.head modName ++ ")\n\x7b\n".toList ++ body ++ "\x7d\n\n".toList) <:+: code

variable {gen : OQGen jre.Double} {port : Port jre.Double} {code : Text}

/-- The function for an attribute of the queues is printed around its branches. -/
theorem hasFunction_dispatch {a : Attr} {bs : List Branch} (here : gen.port = some port)
    (printed : gen.generateModule = some code) (branches : gen.branches a = some bs) :
    HasFunction code a.type (OQGen.getModuleName jre port.name) (OQGen.dispatchBody a bs) := by
  have serves := gen.text_dispatchFn (OQGen.getModuleName jre port.name) a
  rw [OQGen.generateFn_text, branches] at serves
  obtain ⟨f, has, text⟩ := Option.map_eq_some_iff.1 serves
  have inside := (OQGen.Has.dispatch has).text_within here printed
  rw [text] at inside
  exact (List.suffix_append _ _).isInfix.trans inside

theorem initPort_within (here : gen.port = some port) (printed : gen.generateModule = some code) :
    OQGen.initPortText (OQGen.getModuleName jre port.name) port.name gen.initCalls <:+: code := by
  have has : gen.Has port (gen.initPortFn port (OQGen.getModuleName jre port.name)) := .initPort
  have inside := has.text_within here printed
  rwa [OQGen.text_initPortFn] at inside

/-- The number of queues is defined in the header. -/
theorem noQueues_within (printed : gen.generateModule = some code) :
    ("\n\n#define TCQ_OQ_NO_QUEUES\t".toList ++ (toString gen.queues.keys.length).toList ++ "\n\n".toList) <:+: code := by
  rw [OQGen.generateModule_eq] at printed
  obtain ⟨src, found, rfl⟩ := Option.map_eq_some_iff.1 printed
  obtain ⟨port, -, header, -⟩ := OQGen.source_eq_some found
  have pieces : [Piece.code "\n\n#define TCQ_OQ_NO_QUEUES\t".toList, .number (toString gen.queues.keys.length).toList,
      .code "\n\n".toList] <:+: src.header := by
    rw [header]
    exact (List.drop_suffix 5 (gen.headerPieces port (OQGen.getModuleName jre port.name))).isInfix
  obtain ⟨before, after, split⟩ := pieces
  refine ⟨before.flatMap Piece.text, after.flatMap Piece.text ++ (src.functions.flatMap CFunction.text ++
    src.footer.flatMap Piece.text), ?_⟩
  rw [CSource.text, ← split]
  simp only [List.flatMap_append, List.flatMap_cons, List.flatMap_nil, Piece.text, List.append_assoc, List.append_nil]

theorem hasFunction_queueSelect {s : Statement jre.Double} (here : gen.port = some port)
    (printed : gen.generateModule = some code) (select : port.queueSelect = some s) :
    HasFunction code .queueSelector (OQGen.getModuleName jre port.name)
      ("    return ".toList ++ s.getStatement jre ++ ";\n".toList) := by
  have has : gen.Has port _ := .queueSelect select
  have inside := has.text_within here printed
  rw [OQGen.qselcFn, OQGen.text_returnFn _ (by decide)] at inside
  exact (List.suffix_append _ _).isInfix.trans inside

theorem hasFunction_schedPrio {s : Statement jre.Double} (here : gen.port = some port)
    (printed : gen.generateModule = some code) (sched : port.schedPrio = some s) :
    HasFunction code .schedulingPriority (OQGen.getModuleName jre port.name)
      ("    return ".toList ++ s.getStatement jre ++ ";\n".toList) := by
  have has : gen.Has port _ := .schedPrio sched
  have inside := has.text_within here printed
  rw [OQGen.schdFn, OQGen.text_returnFn _ (by decide)] at inside
  exact (List.suffix_append _ _).isInfix.trans inside

end Source

end OpenQueue.Gen
