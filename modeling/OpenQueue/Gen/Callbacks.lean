import OpenQueue.Gen.Dispatch
import OpenQueue.Gen.Meaning
import OpenQueue.Gen.Scope
import OpenQueue.Lib.CLexical
import OpenQueue.Sim.Slots

/-!
# The callbacks of a generated module

A statement of a module is an inline expression or a call of a routine, and its text says
which. What the compiler reads in a text is a parameter (`expr`), and so are the routines
and the headers of the packets (`Runtime`). With these the six functions of a module are
the six callbacks of the qdisc: the four that compare names assign to their result in
every branch that is taken, so the last one counts.
-/

namespace OpenQueue.Gen

open Lib (Text Jre)

/-! ## Expressions -/

/-- An expression of a module: one printed for an inline statement, or a call. -/
inductive CExpr where
  | inline (e : Inline (BitVec 32))
  | call (name : Text) (vars : List Var) (args : List Text)

namespace CExpr

def text : CExpr → Text
  | .inline e => e.cText
  | .call name vars args => name ++ "(".toList ++ ", ".toList.intercalate (vars.map Var.text ++ args) ++ ")".toList

/-- The parameters of the surrounding function that the expression names. -/
def vars : CExpr → List Var
  | .inline e => e.vars
  | .call _ vars _ => vars

/-- A call is that of an identifier, and passes numbers besides the variables. -/
def WellFormed : CExpr → Prop
  | .inline _ => True
  | .call name _ args => Lib.isIdentifier name ∧ args ≠ [] ∧ ∀ t ∈ args, Lib.isNumeric t

end CExpr

/-- The compiler reads the expressions that are printed. -/
def ReadsExprs (expr : Text → Option CExpr) : Prop := ∀ e : CExpr, e.WellFormed → expr e.text = some e

theorem not_isNumeric_var (v : Var) : ¬ Lib.isNumeric v.text := by
  cases v <;> decide

theorem not_mem_var (v : Var) : ',' ∉ v.text := by
  cases v <;> decide

theorem not_mem_isNumeric {t : Text} (h : Lib.isNumeric t) : ',' ∉ t := by
  intro mem
  exact absurd (Lib.mem_isNumeric h mem) (by decide)

/-- The arguments of a call can be read back. -/
theorem callText_inj {vars vars' : List Var} {args args' : List Text} (given : args ≠ []) (given' : args' ≠ [])
    (numeric : ∀ t ∈ args, Lib.isNumeric t) (numeric' : ∀ t ∈ args', Lib.isNumeric t)
    (same : ", ".toList.intercalate (vars.map Var.text ++ args) = ", ".toList.intercalate (vars'.map Var.text ++ args')) :
    vars = vars' ∧ args = args' := by
  have free : ∀ (vs : List Var) (ts : List Text), (∀ t ∈ ts, Lib.isNumeric t) → ∀ t ∈ vs.map Var.text ++ ts, ',' ∉ t := by
    intro vs ts numeric
    rw [List.forall_mem_append, List.forall_mem_map]
    exact ⟨fun v _ => not_mem_var v, fun t mem => not_mem_isNumeric (numeric t mem)⟩
  have head : ∀ {ts : List Text}, (∀ t ∈ ts, Lib.isNumeric t) → ∀ t, ts.head? = some t → Lib.isNumeric t :=
    fun numeric t first => numeric t (List.mem_of_head? first)
  have others : ∀ vs : List Var, ∀ t ∈ vs.map Var.text, ¬ Lib.isNumeric t := by
    intro vs
    rw [List.forall_mem_map]
    exact fun v _ => not_isNumeric_var v
  have pieces := Lib.Text.intercalate_inj (free vars args numeric) (free vars' args' numeric')
    (List.append_ne_nil_of_right_ne_nil _ given) (List.append_ne_nil_of_right_ne_nil _ given') same
  obtain ⟨names, rest⟩ := Lib.append_inj_of_stop (others vars) (others vars') (head numeric) (head numeric') pieces
  have injective : Function.Injective Var.text := by
    intro v v' same
    cases v <;> cases v' <;> first | rfl | exact absurd same (by decide)
  exact ⟨injective.list_map names, rest⟩

/-- No inline expression looks like a call. -/
theorem Inline.cText_ne_call (e : Inline (BitVec 32)) {name rest : Text} (h : Lib.isIdentifier name) :
    e.cText ≠ name ++ '(' :: rest := by
  obtain ⟨⟨c, first, start⟩, -⟩ := Lib.isIdentifier_iff.1 h
  obtain ⟨name', rfl⟩ : ∃ name', name = c :: name' := List.head?_eq_some_iff.1 first
  have opens : ∀ t : Text, '(' :: t ≠ c :: name' ++ '(' :: rest := by
    intro t same
    rw [← (List.cons.inj same).1] at start
    exact absurd start (by decide)
  have inside : '(' ∈ c :: name' ++ '(' :: rest := by simp
  cases e with
  | compare op lhs rhs => exact opens _
  | operand o =>
    cases o with
    | packet a => exact opens _
    | queue a =>
      intro same
      rw [← same] at inside
      exact absurd inside (by cases a <;> decide)
    | num n =>
      intro same
      rw [← same] at inside
      exact absurd (Lib.mem_intText inside) (by decide)

/-- The text determines the expression. -/
theorem CExpr.text_inj {e e' : CExpr} (h : e.WellFormed) (h' : e'.WellFormed) (same : e.text = e'.text) : e = e' := by
  have shape : ∀ (name : Text) vars args, text (.call name vars args) =
      name ++ '(' :: (", ".toList.intercalate (vars.map Var.text ++ args) ++ [')']) := by
    intro name vars args
    simp [text]
  cases e with
  | inline e =>
    cases e' with
    | inline e' => exact congrArg _ (Inline.cText_inj.1 same)
    | call name vars args =>
      rw [shape] at same
      exact absurd same (e.cText_ne_call h'.1)
  | call name vars args =>
    cases e' with
    | inline e' =>
      rw [shape] at same
      exact absurd same.symm (e'.cText_ne_call h.1)
    | call name' vars' args' =>
      have word : ∀ {n : Text}, Lib.isIdentifier n → '(' ∉ n := fun h => (Lib.IsWord.of_isIdentifier h).not_mem rfl
      rw [shape, shape] at same
      obtain ⟨rfl, rest⟩ := Lib.Text.append_sep_inj (word h.1) (word h'.1) same
      obtain ⟨rfl, rfl⟩ := callText_inj h.2.1 h'.2.1 h.2.2 h'.2.2 (List.append_cancel_right rest)
      rfl

/-- There is such a compiler. -/
theorem exists_readsExprs : ∃ expr, ReadsExprs expr := by
  classical
  refine ⟨fun t => if h : ∃ e : CExpr, e.WellFormed ∧ e.text = t then some h.choose else none, ?_⟩
  intro e good
  have found : ∃ e' : CExpr, e'.WellFormed ∧ e'.text = e.text := ⟨e, good, rfl⟩
  exact (dif_pos found).trans (congrArg some (CExpr.text_inj found.choose_spec.1 good found.choose_spec.2))

/-! ## Values -/

section Values

variable {Ω π : Type}

/-- The arguments of a generated function. -/
structure Frame (π : Type) where
  queue : Option QueueInfo := none
  skb : Option (SkBuff π) := none
  sch : Option (QId → QueueInfo) := none

/-- What a variable points to. -/
inductive Pointee (π : Type) where
  | queue (queue : QueueInfo)
  | skb (skb : SkBuff π)
  | sch (infos : QId → QueueInfo)

def Frame.pointee (f : Frame π) : Var → Option (Pointee π)
  | .queue => f.queue.map .queue
  | .skb => f.skb.map .skb
  | .sch => f.sch.map .sch

/-- What the expressions of a module refer to: the header of each packet, and the value
that a routine returns for the variables and the other arguments of a call. -/
structure Runtime (Ω π : Type) where
  header : SkBuff π → IpHeader
  routine : Ω → Text → List (Pointee π) → List Text → Int

def counter (queue : QueueInfo) : QueueAttr → BitVec 32
  | .maxLen => queue.maxLen
  | .len => queue.len
  | .dropped => queue.dropped
  | .total => queue.total

/-- The queue and the packet that an inline expression refers to. In a function that has
none of them there is no expression that does. -/
def Frame.env (rt : Runtime Ω π) (f : Frame π) : Env where
  queue := f.queue.elim (fun _ => 0) counter
  header := f.skb.elim ⟨fun _ => 0, fun _ => 0, fun _ => 0⟩ rt.header

def CExpr.eval (rt : Runtime Ω π) (ω : Ω) (f : Frame π) : CExpr → Int
  | .inline e => (e.cValue (f.env rt)).value
  | .call name vars args => rt.routine ω name (vars.filterMap f.pointee) args

/-! Conversion to the result types of the functions. -/

def toBool (z : Int) : Bool := z ≠ 0

def toInt (z : Int) : Int := (BitVec.ofInt 32 z).toInt

def toUnsignedLong (z : Int) : Key := (BitVec.ofInt 64 z).toFin

/-- The functions of a queue, from the values of the four statements. -/
def queuePolicy (value : Attr → Ω → Frame π → Int) : QueuePolicy Ω π where
  cong ω queue := toBool (value .congestion ω { queue := some queue })
  congAct ω queue skb := toInt (value .congAction ω { queue := some queue, skb := some skb })
  admn ω queue skb := toUnsignedLong (value .admPrio ω { queue := some queue, skb := some skb })
  proc ω queue skb := toUnsignedLong (value .procPrio ω { queue := some queue, skb := some skb })

end Values

/-! ## Programs -/

/-- A branch of a function, compiled. -/
structure CCase where
  literal : Lib.CStr
  expr : CExpr

/-- A module with the bodies of its functions. -/
structure CProgram where
  code : CModule
  congFunc : List CCase
  congActFunc : List CCase
  admnFunc : List CCase
  procFunc : List CCase
  qselcFunc : CExpr
  schdFunc : CExpr

def CProgram.func (prog : CProgram) : Attr → List CCase
  | .congestion => prog.congFunc
  | .congAction => prog.congActFunc
  | .admPrio => prog.admnFunc
  | .procPrio => prog.procFunc

section Compile

variable {jre : Jre} (lit : Text → Option Lib.CStr) (expr : Text → Option CExpr)

/-- An expression in a function that serves a type: its variables are parameters. -/
def compileExpr (type : RoutineType) (t : Text) : Option CExpr :=
  (expr t).filter fun e => e.vars.all (· ∈ type.scope)

def compileFn (type : RoutineType) (bs : List CBranch) : Option (List CCase) :=
  bs.mapM fun b => (compileExpr expr type b.statement).map fun e => ⟨b.literal, e⟩

/-- The program that the compiler makes of the generated source. -/
def compileProgram (gen : OQGen jre.Double) : Option CProgram := do
  let code ← compile lit gen
  let port ← gen.port
  let queueSelect ← port.queueSelect
  let schedPrio ← port.schedPrio
  return {
    code := code
    congFunc := ← compileFn expr Attr.congestion.type code.congFunc
    congActFunc := ← compileFn expr Attr.congAction.type code.congActFunc
    admnFunc := ← compileFn expr Attr.admPrio.type code.admnFunc
    procFunc := ← compileFn expr Attr.procPrio.type code.procFunc
    qselcFunc := ← compileExpr expr .queueSelector (queueSelect.getStatement jre)
    schdFunc := ← compileExpr expr .schedulingPriority (schedPrio.getStatement jre) }

end Compile

/-! ## Callbacks -/

section Callbacks

variable {Ω π α : Type} (rt : Runtime Ω π)

/-- A function that compares names: every branch that is taken assigns. -/
def dispatch (convert : Int → α) (init : α) (cases : List CCase) (ω : Ω) (f : Frame π) (name : NameBuf) : α :=
  cases.foldl (fun result c =>
    if Lib.strncmp tcqOqNameLen name.bytes c.literal.bytes = some 0 then convert (c.expr.eval rt ω f) else result) init

/-- The six functions that `init_port` stores. -/
def CProgram.callbacks (prog : CProgram) : Callbacks Ω π where
  congFn ω queue := dispatch rt toBool false prog.congFunc ω { queue := some queue } queue.name
  congActFn ω queue skb := dispatch rt toInt 0 prog.congActFunc ω { queue := some queue, skb := some skb } queue.name
  admnFn ω queue skb := dispatch rt toUnsignedLong 0 prog.admnFunc ω { queue := some queue, skb := some skb } queue.name
  procFn ω queue skb := dispatch rt toUnsignedLong 0 prog.procFunc ω { queue := some queue, skb := some skb } queue.name
  qSelect ω infos skb := toInt (prog.qselcFunc.eval rt ω { sch := some infos, skb := some skb })
  schedFn ω infos := toInt (prog.schdFunc.eval rt ω { sch := some infos })

end Callbacks

end OpenQueue.Gen
