import OpenQueue.Gen.Callbacks
import OpenQueue.Gen.Document

/-!
# Where a compiled module is read

`compile` and `compileProgram` take what they need from the policy. All of it stands in
the text that `generateModule` prints, in the frame of the function that it is compiled
to: the branches of the four functions for queues, the calls in `init_port`, and the
expressions that the two functions for the port return.
-/

namespace OpenQueue.Gen

open Lib (Text Jre)

section Modules

variable {jre : Jre} {lit : Text → Option Lib.CStr} {expr : Text → Option CExpr} {gen : OQGen jre.Double} {code : Text}

/-- A compiled module is what a text says. -/
structure CModule.ReadFrom (lit : Text → Option Lib.CStr) (code : Text) (m : CModule) : Prop where
  func : ∀ a, ∃ bs : List Branch, HasFunction code a.type m.modName (OQGen.dispatchBody a bs) ∧
    List.Forall₂ (fun b c => lit b.name = some c.literal ∧ c.queue = b.name ∧ c.statement = b.statement) bs (m.func a)
  inits : ∃ portName calls, OQGen.initPortText m.modName portName calls <:+: code ∧ lit portName = some m.portName ∧
    List.Forall₂ (fun c i => lit c.name = some i.literal ∧ i.maxLen = c.size) calls m.inits
  noQueues : ("\n\n#define TCQ_OQ_NO_QUEUES\t".toList ++ (toString m.noQueues).toList ++ "\n\n".toList) <:+: code

/-- An expression of a function that serves a type. -/
structure ReadsInScope (expr : Text → Option CExpr) (type : RoutineType) (t : Text) (e : CExpr) : Prop where
  read : expr t = some e
  scope : ∀ v ∈ e.vars, v ∈ type.scope

/-- A compiled program is what a text says. -/
structure CProgram.ReadFrom (lit : Text → Option Lib.CStr) (expr : Text → Option CExpr) (code : Text)
    (prog : CProgram) : Prop where
  names : prog.code.ReadFrom lit code
  func : ∀ a, List.Forall₂ (fun b c => c.literal = b.literal ∧ ReadsInScope expr a.type b.statement c.expr)
    (prog.code.func a) (prog.func a)
  qselcFunc : ∃ t, HasFunction code .queueSelector prog.code.modName ("    return ".toList ++ t ++ ";\n".toList) ∧
    ReadsInScope expr .queueSelector t prog.qselcFunc
  schdFunc : ∃ t, HasFunction code .schedulingPriority prog.code.modName ("    return ".toList ++ t ++ ";\n".toList) ∧
    ReadsInScope expr .schedulingPriority t prog.schdFunc

theorem compile_readFrom {m : CModule} (compiled : compile lit gen = some m)
    (printed : gen.generateModule = some code) : m.ReadFrom lit code := by
  obtain ⟨port, here, compiled⟩ := Option.bind_eq_some_iff.1 compiled
  obtain ⟨portName, named, compiled⟩ := Option.bind_eq_some_iff.1 compiled
  obtain ⟨literals, read, compiled⟩ := Option.bind_eq_some_iff.1 compiled
  obtain ⟨cong, cong', compiled⟩ := Option.bind_eq_some_iff.1 compiled
  obtain ⟨congAct, congAct', compiled⟩ := Option.bind_eq_some_iff.1 compiled
  obtain ⟨admn, admn', compiled⟩ := Option.bind_eq_some_iff.1 compiled
  obtain ⟨proc, proc', compiled⟩ := Option.bind_eq_some_iff.1 compiled
  cases compiled
  have read := Lib.mapM_eq_some_iff.1 read
  have branches : ∀ {a bs}, gen.branches a = some bs →
      List.Forall₂ (fun b c => lit b.name = some c.literal ∧ c.queue = b.name ∧ c.statement = b.statement) bs
        (readBranches literals bs) := by
    intro a bs branches
    refine Lib.forall₂_zipWith read (Lib.mapM_eq_some_iff.1 branches) fun q l b literal branch => ?_
    obtain ⟨s, -, rfl⟩ := Option.map_eq_some_iff.1 branch
    exact ⟨literal, rfl, rfl⟩
  refine ⟨fun a => ?_, ⟨port.name, gen.initCalls, initPort_within here printed, named, ?_⟩, ?_⟩
  · cases a
    · exact ⟨cong, hasFunction_dispatch here printed cong', branches cong'⟩
    · exact ⟨congAct, hasFunction_dispatch here printed congAct', branches congAct'⟩
    · exact ⟨admn, hasFunction_dispatch here printed admn', branches admn'⟩
    · exact ⟨proc, hasFunction_dispatch here printed proc', branches proc'⟩
  · refine Lib.forall₂_zipWith (S := fun q c => c = ⟨q.name, q.size⟩) read ?_ fun q l c literal is => ?_
    · exact List.forall₂_map_right_iff.2 (List.forall₂_same.2 fun _ _ => rfl)
    · subst is
      exact ⟨literal, rfl⟩
  · exact noQueues_within printed

theorem compile_modName {m : CModule} {port : Port jre.Double} (compiled : compile lit gen = some m)
    (here : gen.port = some port) : m.modName = OQGen.getModuleName jre port.name := by
  simp only [compile, here, Option.bind_eq_bind, Option.bind_some, Option.bind_eq_some_iff, Option.pure_def] at compiled
  obtain ⟨portName, -, literals, -, cong, -, congAct, -, admn, -, proc, -, ⟨⟩⟩ := compiled
  rfl

theorem compileExpr_eq_some {type : RoutineType} {t : Text} {e : CExpr} (compiled : compileExpr expr type t = some e) :
    ReadsInScope expr type t e := by
  obtain ⟨read, scope⟩ := Option.filter_eq_some_iff.1 compiled
  exact ⟨read, fun v mem => of_decide_eq_true (List.all_eq_true.1 scope v mem)⟩

theorem compileFn_eq_some {type : RoutineType} {bs : List CBranch} {cs : List CCase}
    (compiled : compileFn expr type bs = some cs) :
    List.Forall₂ (fun b c => c.literal = b.literal ∧ ReadsInScope expr type b.statement c.expr) bs cs := by
  refine (Lib.mapM_eq_some_iff.1 compiled).imp fun b c read => ?_
  obtain ⟨e, compiled, rfl⟩ := Option.map_eq_some_iff.1 read
  exact ⟨rfl, compileExpr_eq_some compiled⟩

/-- A program that is compiled from a policy is read from the text that is printed for it. -/
theorem compileProgram_readFrom {prog : CProgram} (compiled : compileProgram lit expr gen = some prog)
    (printed : gen.generateModule = some code) : prog.ReadFrom lit expr code := by
  obtain ⟨m, compiled', compiled⟩ := Option.bind_eq_some_iff.1 compiled
  obtain ⟨port, here, compiled⟩ := Option.bind_eq_some_iff.1 compiled
  obtain ⟨select, select', compiled⟩ := Option.bind_eq_some_iff.1 compiled
  obtain ⟨sched, sched', compiled⟩ := Option.bind_eq_some_iff.1 compiled
  obtain ⟨cong, cong', compiled⟩ := Option.bind_eq_some_iff.1 compiled
  obtain ⟨congAct, congAct', compiled⟩ := Option.bind_eq_some_iff.1 compiled
  obtain ⟨admn, admn', compiled⟩ := Option.bind_eq_some_iff.1 compiled
  obtain ⟨proc, proc', compiled⟩ := Option.bind_eq_some_iff.1 compiled
  obtain ⟨qselc, qselc', compiled⟩ := Option.bind_eq_some_iff.1 compiled
  obtain ⟨schd, schd', compiled⟩ := Option.bind_eq_some_iff.1 compiled
  cases compiled
  have modName := compile_modName compiled' here
  refine ⟨compile_readFrom compiled' printed, fun a => ?_, ⟨_, ?_, compileExpr_eq_some qselc'⟩,
    ⟨_, ?_, compileExpr_eq_some schd'⟩⟩
  · cases a
    · exact compileFn_eq_some cong'
    · exact compileFn_eq_some congAct'
    · exact compileFn_eq_some admn'
    · exact compileFn_eq_some proc'
  · rw [modName]
    exact hasFunction_queueSelect here printed select'
  · rw [modName]
    exact hasFunction_schedPrio here printed sched'

end Modules

end OpenQueue.Gen
