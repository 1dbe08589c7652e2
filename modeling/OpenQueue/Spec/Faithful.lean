import OpenQueue.Gen.Callbacks
import OpenQueue.Spec.Completeness
import OpenQueue.Spec.Generated
import OpenQueue.Spec.Inline

/-!
# A generated module runs as its policy

A policy means something by itself: each of its queues has four right-hand sides, read over
the integers, and a call of the qdisc is answered by those of the queue it picks. From the
text of a policy OQGen makes a module, the compiler makes functions of it, `init_port`
stores them with the names of the queues, and the qdisc calls them. At the end of this
chain every run of the qdisc is a run of the policy. The one thing that the policy does not
say is which slot a queue gets: this is the order in which Java iterates a map.
-/

namespace OpenQueue.Gen

open Lib (Text Jre)

/-! ## What a policy says -/

/-- An operand with its constant as an integer. -/
def Operand.integer : Operand (BitVec 32) → Operand Int
  | .queue a => .queue a
  | .packet a => .packet a
  | .num n => .num n.toInt

/-- An expression with its constants as integers. -/
def Inline.integer : Inline (BitVec 32) → Inline Int
  | .operand o => .operand o.integer
  | .compare op lhs rhs => .compare op lhs.integer rhs.integer

section Meaning

variable {Ω π : Type} (jre : Jre) (rt : Runtime Ω π)

/-- The value of a right-hand side. A routine gets the variables of its type and the
parameters. -/
def Rhs.value (type : RoutineType) (ω : Ω) (f : Frame π) : Rhs → Int
  | .routine name => rt.routine ω name (type.args.filterMap f.pointee) (callArgs jre none)
  | .call name params =>
    rt.routine ω name (type.args.filterMap f.pointee) (callArgs jre (params.mapM jre.parseDouble))
  | .inline e => ((e.mapNum Lib.decimalInt?).map fun c => c.integer.value (f.env rt)).getD 0

/-- The value for slot `i`, which belongs to the queue at position `i`. -/
def slotValue (order : List QueueDef) (i : QId) (a : Attr) (ω : Ω) (f : Frame π) : Int :=
  (order[i.val]?).elim 0 fun q => (q.attr a).value jre rt a.type ω f

/-- What the policy computes, with its queues in this order. -/
def Policy.slots (p : Policy) (order : List QueueDef) : SlotPolicy Ω π where
  queue i := queuePolicy (slotValue jre rt order i)
  qSelect ω infos skb :=
    toInt ((p.port.attr .queueSelect).value jre rt .queueSelector ω { sch := some infos, skb := some skb })
  schedFn ω infos := toInt ((p.port.attr .schedPrio).value jre rt .schedulingPriority ω { sch := some infos })

end Meaning

/-- The right-hand side can be compiled, and C computes what it says: parameters are
printed as numbers, and an inline expression is exact and uses what the function has. -/
def Rhs.Kept (jre : Jre) (type : RoutineType) : Rhs → Prop
  | .routine _ => True
  | .call _ params => ∀ t ∈ params, ∀ d, jre.parseDouble t = some d → Lib.isNumeric (jre.doubleText d)
  | .inline e => ∀ c, e.mapNum Lib.decimalInt? = some c → c.integer.exact ∧ c.inScope type

/-- The compiler reads identifiers between quotes as their characters. -/
def ReadsNames (lit : Text → Option Lib.CStr) : Prop :=
  ∀ t, Lib.isIdentifier t → ∃ l, lit t = some l ∧ l.chars = t.map fun c => BitVec.ofNat 8 c.toNat

/-- A policy that goes through unchanged. -/
structure Policy.Kept (jre : Jre) (p : Policy) : Prop where
  readable : p.Readable
  attrs : ∀ q ∈ p.queues, ∀ a, (q.attr a).Kept jre a.type
  portAttrs : ∀ a, (p.port.attr a).Kept jre a.type
  few : p.queues.length ≤ tcqOqMaxQueue
  apart : (p.queues.map fun q => q.name.take tcqOqNameLen).Nodup

/-! ## Right-hand sides -/

section Rhs

variable {jre : Jre} {expr : Text → Option CExpr} {type : RoutineType}

theorem Operand.printed_integer (o : Operand (BitVec 32)) : o.integer.printed = o := by
  cases o with
  | queue a => rfl
  | packet a => rfl
  | num n =>
    have low := n.le_toInt
    have high := n.toInt_lt
    refine congrArg Operand.num (BitVec.toInt_inj.1 ?_)
    rw [Lib.toInt_saturate]
    omega

theorem Inline.printed_integer (e : Inline (BitVec 32)) : e.integer.printed = e := by
  cases e with
  | operand o => exact congrArg _ o.printed_integer
  | compare op lhs rhs => rw [integer, printed, lhs.printed_integer, rhs.printed_integer]

theorem compileExpr_text (reads : ReadsExprs expr) {e : CExpr} (good : e.WellFormed) (scope : ∀ v ∈ e.vars, v ∈ type.scope) :
    compileExpr expr type e.text = some e := by
  rw [compileExpr, reads e good]
  simpa using scope

theorem isNumeric_callArgs {params : Option (List jre.Double)}
    (numeric : ∀ vals, params = some vals → ∀ d ∈ vals, Lib.isNumeric (jre.doubleText d)) :
    callArgs jre params ≠ [] ∧ ∀ t ∈ callArgs jre params, Lib.isNumeric t := by
  have count : ∀ n : Nat, Lib.isNumeric (toString n).toList := by
    intro n
    have digits : (toString n).toList = Nat.toDigits 10 n := by simp
    rw [digits]
    exact Lib.isNumeric_toDigits n
  rcases params with - | (- | ⟨d, ds⟩)
  · exact ⟨List.cons_ne_nil _ _, List.forall_mem_singleton.2 rfl⟩
  · exact ⟨List.cons_ne_nil _ _, List.forall_mem_singleton.2 rfl⟩
  · refine ⟨List.cons_ne_nil _ _, ?_⟩
    rw [callArgs, List.forall_mem_cons, List.forall_mem_map]
    exact ⟨count _, numeric _ rfl⟩

/-- A call is compiled to the call that was meant. -/
theorem compileExpr_call (reads : ReadsExprs expr) (defined : type ≠ .undefined) {name : Text} (h : Lib.isIdentifier name)
    {params : Option (List jre.Double)}
    (numeric : ∀ vals, params = some vals → ∀ d ∈ vals, Lib.isNumeric (jre.doubleText d)) :
    compileExpr expr type (Statement.getStatement jre (.routineCall name type params)) =
      some (.call name type.args (callArgs jre params)) := by
  obtain ⟨given, numbers⟩ := isNumeric_callArgs numeric
  rw [getStatement_routineCall name defined params]
  exact compileExpr_text (e := .call name type.args (callArgs jre params)) reads ⟨h, given, numbers⟩
    fun v mem => type.args_subset_scope mem

/-- What is compiled for a right-hand side has its value. -/
theorem Rhs.compileExpr_statement (reads : ReadsExprs expr) (defined : type ≠ .undefined) {rhs : Rhs} (h : rhs.WellFormed)
    (kept : rhs.Kept jre type) {s : Statement jre.Double} (read : rhs.statement jre Lib.decimalInt? type = some s) :
    ∃ e, compileExpr expr type (s.getStatement jre) = some e ∧
      ∀ {Ω π : Type} (rt : Runtime Ω π) ω f, e.eval rt ω f = rhs.value jre rt type ω f := by
  cases rhs with
  | routine name =>
    cases read
    exact ⟨_, compileExpr_call reads defined h nofun, fun rt ω f => rfl⟩
  | call name params =>
    obtain ⟨vals, numbers, rfl⟩ := Option.map_eq_some_iff.1 read
    refine ⟨_, compileExpr_call reads defined h.1 ?_, fun rt ω f => ?_⟩
    · rintro _ ⟨⟩ d mem
      obtain ⟨t, listed, number⟩ := Lib.exists_mem_of_mapM numbers mem
      exact kept t listed d number
    · rw [CExpr.eval, Rhs.value, numbers]
  | inline e =>
    obtain ⟨c, numbers, rfl⟩ := Option.map_eq_some_iff.1 read
    obtain ⟨exact, scope⟩ := kept c numbers
    refine ⟨.inline c, compileExpr_text (e := .inline c) reads trivial scope, fun rt ω f => ?_⟩
    have value := Inline.cValue_printed_iff.2 exact (f.env rt)
    rw [c.printed_integer] at value
    rw [CExpr.eval, value, Rhs.value, numbers]
    rfl

end Rhs

/-! ## Functions -/

section Functions

variable {Ω π α : Type} {rt : Runtime Ω π} {expr : Text → Option CExpr} {type : RoutineType}

theorem dispatch_stored (convert : Int → α) (init : α) (cases : List CCase) (ω : Ω) (f : Frame π) (l : Lib.CStr) :
    dispatch rt convert init cases ω f (stored l) =
      (((cases.filter fun c => cut l = cut c.literal).getLast?).map fun c => convert (c.expr.eval rt ω f)).getD init := by
  have taken : ∀ c : CCase, Lib.strncmp tcqOqNameLen (stored l).bytes c.literal.bytes = some 0 ↔ cut l = cut c.literal := by
    intro c
    obtain ⟨r, compared, equal⟩ := Lib.CharBuf.strncmp_zero_strncpy (n := tcqOqNameLen) l c.literal
    have compared : Lib.strncmp tcqOqNameLen (stored l).bytes c.literal.bytes = some r := compared
    rw [compared, Option.some.injEq]
    exact equal
  rw [dispatch]
  simp only [taken]
  exact Lib.foldl_assign _ init cases

/-- The statement of the queue itself gives the result. -/
theorem dispatch_own (convert : Int → α) (init : α) {cases : List CCase} {c : CCase} (ω : Ω) (f : Frame π)
    (apart : (cases.map fun c => cut c.literal).Nodup) (mem : c ∈ cases) :
    dispatch rt convert init cases ω f (stored c.literal) = convert (c.expr.eval rt ω f) := by
  have single := Lib.nodup_map_iff.1 apart c mem
  obtain ⟨c', one⟩ := List.length_eq_one_iff.1 single
  have own : c ∈ cases.filter fun b => cut c.literal = cut b.literal := List.mem_filter.2 ⟨mem, decide_eq_true rfl⟩
  rw [one, List.mem_singleton] at own
  subst own
  rw [dispatch_stored, one]
  rfl

/-- No statement gives a result for a name that is none of the names. -/
theorem dispatch_none (convert : Int → α) (init : α) {cases : List CCase} {l : Lib.CStr} (ω : Ω) (f : Frame π)
    (other : ∀ c ∈ cases, cut l ≠ cut c.literal) : dispatch rt convert init cases ω f (stored l) = init := by
  rw [dispatch_stored, List.filter_eq_nil_iff.2 fun c mem => by simpa using other c mem]
  rfl

end Functions

/-! ## Modules -/

section Modules

variable {jre : Jre} {p : Policy} {gen : OQGen jre.Double} {lit : Text → Option Lib.CStr} {expr : Text → Option CExpr}
  {order : List QueueDef} {prog : CProgram}

/-- The queues of the policy, in the order in which Java has them. -/
theorem Policy.Recorded.exists_order (h : p.WellFormed) (recorded : p.Recorded gen) :
    ∃ order : List QueueDef, order.Perm p.queues ∧ order.map QueueDef.name = jre.iterate (p.queues.map QueueDef.name) ∧
      gen.values = order.map (QueueDef.queue jre) := by
  let find (n : Text) : Option QueueDef := p.queues.find? fun q => q.name = n
  have found : ∀ q ∈ p.queues, find q.name = some q := by
    intro q mem
    obtain ⟨q', hit⟩ : ∃ q', find q.name = some q' := Option.isSome_iff_exists.1 (List.find?_isSome.2 ⟨q, mem, by simp⟩)
    have name : q'.name = q.name := by simpa using List.find?_some hit
    rw [hit, List.inj_on_of_nodup_map h.queueNames (List.mem_of_find?_eq_some hit) mem name]
  have keys : gen.queues.keys = p.queues.map QueueDef.name := by
    rw [Lib.PutMap.keys, recorded.queues, List.map_map]
    rfl
  have all : ∀ {names : List Text}, (∀ n ∈ names, ∃ q ∈ p.queues, q.name = n) →
      (names.filterMap find).map QueueDef.name = names ∧
        names.filterMap gen.queues.get = (names.filterMap find).map (QueueDef.queue jre) := by
    intro names
    induction names with
    | nil => exact fun _ => ⟨rfl, rfl⟩
    | cons n names ih =>
      intro known
      rw [List.forall_mem_cons] at known
      obtain ⟨⟨q, mem, rfl⟩, known⟩ := known
      obtain ⟨names', values⟩ := ih known
      have get : gen.queues.get q.name = some (q.queue jre) := by
        apply Lib.PutMap.get_eq_some_of_mem
        rw [recorded.queues]
        exact List.mem_map_of_mem (f := fun q => (q.name, q.queue jre)) mem
      rw [List.filterMap_cons_some (found q mem), List.filterMap_cons_some get, List.map_cons, List.map_cons, names', values]
      exact ⟨rfl, rfl⟩
  have perm := jre.iterate_perm (p.queues.map QueueDef.name)
  obtain ⟨names, values⟩ := @all (jre.iterate (p.queues.map QueueDef.name)) fun n mem => by
    simpa using perm.mem_iff.1 mem
  refine ⟨_, ?_, names, ?_⟩
  · refine (perm.filterMap find).trans (List.Perm.of_eq ?_)
    rw [List.filterMap_map]
    exact (List.filterMap_congr (f := find ∘ QueueDef.name) (g := some) found).trans List.filterMap_some
  · rw [OQGen.values, Lib.PutMap.values, keys, values]

/-- The program has the expressions `e` under the literals `l`. -/
structure CProgram.Has (prog : CProgram) (order : List QueueDef) (l : QueueDef → Lib.CStr)
    (e : QueueDef → Attr → CExpr) (select sched : CExpr) : Prop where
  func : ∀ a, prog.func a = order.map fun q => ⟨l q, e q a⟩
  inits : prog.code.inits = order.map fun q => ⟨l q, q.size⟩
  select : prog.qselcFunc = select
  sched : prog.schdFunc = sched

theorem compileProgram_has {l : QueueDef → Lib.CStr} {e : QueueDef → Attr → CExpr} {select sched : CExpr} {port : Port jre.Double}
    {queueSelect schedPrio : Statement jre.Double} (defined : ∀ q ∈ gen.values, q.isWellDefined)
    (values : gen.values = order.map (QueueDef.queue jre))
    (here : gen.port = some port) (readable : ∃ l, lit port.name = some l) (literals : ∀ q ∈ order, lit q.name = some (l q))
    (exprs : ∀ q ∈ order, ∀ a, compileExpr expr a.type ((q.queue jre).code a) = some (e q a))
    (selects : port.queueSelect = some queueSelect) (scheds : port.schedPrio = some schedPrio)
    (select' : compileExpr expr .queueSelector (queueSelect.getStatement jre) = some select)
    (sched' : compileExpr expr .schedulingPriority (schedPrio.getStatement jre) = some sched) :
    ∃ prog, compileProgram lit expr gen = some prog ∧ prog.Has order l e select sched := by
  obtain ⟨name, literal⟩ := readable
  have names : Literals lit gen (order.map l) := by
    refine ⟨⟨port, name, here, literal⟩, ?_⟩
    rw [values, List.forall₂_map_left_iff, List.forall₂_map_right_iff, List.forall₂_same]
    exact literals
  obtain ⟨code, compiled, h⟩ := names.compile defined
  have zip : ∀ {α : Type} (g : Lib.CStr → Queue jre.Double → α),
      List.zipWith g (order.map l) (order.map (QueueDef.queue jre)) = order.map fun q => g (l q) (q.queue jre) := by
    intro α g
    rw [List.zipWith_map, List.zipWith_self]
  have fn : ∀ a, compileFn expr a.type (code.func a) = some (order.map fun q => ⟨l q, e q a⟩) := by
    intro a
    rw [h.func, values, zip, compileFn, List.mapM_map]
    exact Lib.mapM_eq_some_map fun q mem => by simp [exprs q mem a]
  have inits := h.inits
  rw [values, zip] at inits
  rw [compileProgram, compiled, here]
  simp only [Option.bind_eq_bind, Option.bind_some, selects, scheds, select', sched']
  rw [show code.congFunc = code.func .congestion from rfl, show code.congActFunc = code.func .congAction from rfl,
    show code.admnFunc = code.func .admPrio from rfl, show code.procFunc = code.func .procPrio from rfl, fn, fn, fn, fn]
  refine ⟨_, rfl, ?_, inits, rfl, rfl⟩
  intro a
  cases a <;> rfl

variable {l : QueueDef → Lib.CStr} {e : QueueDef → Attr → CExpr} {select sched : CExpr}

/-- The name that a slot gets. -/
theorem CProgram.Has.name (trees : Nat → Trees) (h : prog.Has order l e select sched) (i : QId) :
    ((prog.code.started trees).queues i).name = (order[i.val]?).elim (stored ⟨[], List.not_mem_nil⟩) fun q => stored (l q) := by
  cases position : order[i.val]? with
  | none =>
    rw [CModule.started_rest (by rw [h.inits, List.length_map]; exact List.getElem?_eq_none_iff.1 position)]
    show (.zero _ : NameBuf) = stored ⟨[], List.not_mem_nil⟩
    decide +kernel
  | some q =>
    have init : prog.code.inits[i.val]? = some ⟨l q, q.size⟩ := by
      rw [h.inits, List.getElem?_map, position]
      rfl
    rw [CModule.started_slot init]
    rfl

/-- What a function of the module computes for a slot. -/
theorem CProgram.Has.dispatch {trees : Nat → Trees} (h : prog.Has order l e select sched)
    (apart : (order.map fun q => cut (l q)).Nodup) (named : ∀ q ∈ order, cut (l q) ≠ []) {Ω π α : Type} (rt : Runtime Ω π)
    (values : ∀ q ∈ order, ∀ a ω f, (e q a).eval rt ω f = (q.attr a).value jre rt a.type ω f) (convert : Int → α) (i : QId)
    (a : Attr) (ω : Ω) (f : Frame π) :
    Gen.dispatch rt convert (convert 0) (prog.func a) ω f ((prog.code.started trees).queues i).name =
      convert (slotValue jre rt order i a ω f) := by
  rw [h.name, h.func, slotValue]
  cases position : order[i.val]? with
  | none =>
    refine dispatch_none _ _ ω f ?_
    rw [List.forall_mem_map]
    exact fun q mem => (named q mem).symm
  | some q =>
    have mem : q ∈ order := List.mem_of_getElem? position
    have apart : ((order.map fun q => (⟨l q, e q a⟩ : CCase)).map fun c => cut c.literal).Nodup := by
      rw [List.map_map]
      exact apart
    have own : (⟨l q, e q a⟩ : CCase) ∈ order.map fun q => (⟨l q, e q a⟩ : CCase) :=
      List.mem_map_of_mem (f := fun q => (⟨l q, e q a⟩ : CCase)) mem
    exact (dispatch_own convert (convert 0) ω f apart own).trans (congrArg convert (values q mem a ω f))

/-- The callbacks of the module are the functions of the policy. -/
theorem CProgram.Has.follow (trees : Nat → Trees) (h : prog.Has order l e select sched)
    (apart : (order.map fun q => cut (l q)).Nodup) (named : ∀ q ∈ order, cut (l q) ≠ []) {Ω π : Type} (rt : Runtime Ω π)
    (values : ∀ q ∈ order, ∀ a ω f, (e q a).eval rt ω f = (q.attr a).value jre rt a.type ω f)
    (selects : ∀ ω f, select.eval rt ω f = (p.port.attr .queueSelect).value jre rt .queueSelector ω f)
    (scheds : ∀ ω f, sched.eval rt ω f = (p.port.attr .schedPrio).value jre rt .schedulingPriority ω f) :
    (prog.callbacks rt).Follow (p.slots jre rt order) fun i => ((prog.code.started trees).queues i).name where
  cong i ω queue here := by
    show Gen.dispatch rt toBool (toBool 0) (prog.func .congestion) ω _ queue.name = _
    rw [here, h.dispatch apart named rt values]
    rfl
  congAct i ω queue skb here := by
    show Gen.dispatch rt toInt (toInt 0) (prog.func .congAction) ω _ queue.name = _
    rw [here, h.dispatch apart named rt values]
    rfl
  admn i ω queue skb here := by
    show Gen.dispatch rt toUnsignedLong (toUnsignedLong 0) (prog.func .admPrio) ω _ queue.name = _
    rw [here, h.dispatch apart named rt values]
    rfl
  proc i ω queue skb here := by
    show Gen.dispatch rt toUnsignedLong (toUnsignedLong 0) (prog.func .procPrio) ω _ queue.name = _
    rw [here, h.dispatch apart named rt values]
    rfl
  qSelect := by
    funext ω infos skb
    show toInt (prog.qselcFunc.eval rt ω _) = _
    rw [h.select, selects]
    rfl
  schedFn := by
    funext ω infos
    show toInt (prog.schdFunc.eval rt ω _) = _
    rw [h.sched, scheds]
    rfl

end Modules

/-! ## From text to runs -/

section Results

variable {jre : Jre} {files : Text → Option Text} {text : Text} {p : Policy} {lit : Text → Option Lib.CStr}
  {expr : Text → Option CExpr}

/-- An identifier can be read from the bytes of its literal. -/
theorem map_bytes {n : Text} (h : ∀ c ∈ n, Lib.isIdentChar c) :
    (n.map fun c => BitVec.ofNat 8 c.toNat).map (fun b => Char.ofNat b.toNat) = n := by
  rw [List.map_map]
  refine (List.map_congr_left fun c mem => ?_).trans (List.map_id n)
  have small := Lib.toNat_lt_of_isIdentChar (h c mem)
  show Char.ofNat (BitVec.ofNat 8 c.toNat).toNat = c
  rw [BitVec.toNat_ofNat, Nat.mod_eq_of_lt (by omega), Char.ofNat_toNat]

/-- Literals that begin alike are those of names that begin alike. -/
theorem take_eq_of_cut {n n' : Text} {l l' : Lib.CStr} (h : Lib.isIdentifier n) (h' : Lib.isIdentifier n')
    (chars : l.chars = n.map fun c => BitVec.ofNat 8 c.toNat) (chars' : l'.chars = n'.map fun c => BitVec.ofNat 8 c.toNat)
    (same : cut l = cut l') : n.take tcqOqNameLen = n'.take tcqOqNameLen := by
  have back : ∀ {n : Text}, Lib.isIdentifier n →
      ((n.take tcqOqNameLen).map fun c => BitVec.ofNat 8 c.toNat).map (fun b => Char.ofNat b.toNat) = n.take tcqOqNameLen :=
    fun h => map_bytes fun c mem => (Lib.isIdentifier_iff.1 h).2 c (List.mem_of_mem_take mem)
  rw [cut, cut, chars, chars', ← List.map_take, ← List.map_take] at same
  rw [← back h, same, back h']

theorem cut_ne_nil {n : Text} {l : Lib.CStr} (h : Lib.isIdentifier n) (chars : l.chars = n.map fun c => BitVec.ofNat 8 c.toNat) :
    cut l ≠ [] := by
  cases n with
  | nil => cases h
  | cons c n =>
    rw [cut, chars]
    exact List.cons_ne_nil _ _

/-- A policy that goes through unchanged is accepted and compiled, and its module can be
initialised. From a zeroed `struct oq_priv` that any successful `init_port` has set up, over
any memory, the qdisc with the callbacks of the module answers every sequence of calls as
the policy does. -/
theorem module_runs_policy (law : jre.ReadsDecimals) (names : ReadsNames lit) (reads : ReadsExprs expr) (h : p.WellFormed)
    (kept : p.Kept jre) (renders : Renders files p text) :
    ∃ gen prog order, Accepts jre files text gen ∧ compileProgram lit expr gen = some prog ∧
      order.Perm p.queues ∧ order.map QueueDef.name = jre.iterate (p.queues.map QueueDef.name) ∧
      (∃ priv, prog.code.initPort (fun _ => .ok) .zero = .ok (0, priv)) ∧
      ∀ {Ω π : Type} (rt : Runtime Ω π) (trees : Nat → Trees) (priv : OqPriv) (mem : Mem π) (calls : List (Call Ω π)),
        prog.code.initPort trees .zero = .ok (0, priv) →
          Lib.run (Port.call (prog.callbacks rt)) ⟨mem, priv.queues⟩ calls =
            Lib.run (Port.callAt (p.slots jre rt order)) ⟨mem, priv.queues⟩ calls := by
  obtain ⟨gen, accepted, recorded⟩ := kept.readable.accepts law h renders
  obtain ⟨order, perm, iterated, values⟩ := recorded.exists_order h
  obtain ⟨-, -, -, defined⟩ := OQGen.isWellDefined_iff.1 accepted.wellDefined
  have listed : ∀ q ∈ order, q ∈ p.queues := fun q mem => perm.mem_iff.1 mem
  -- the literal of each queue, and the expression of each attribute
  have literal : ∀ q ∈ order, ∃ l, lit q.name = some l ∧ l.chars = q.name.map fun c => BitVec.ofNat 8 c.toNat :=
    fun q mem => names q.name (h.queues q (listed q mem))
  have attr : ∀ q ∈ order, ∀ a, ∃ e, compileExpr expr a.type ((q.queue jre).code a) = some e ∧
      ∀ {Ω π : Type} (rt : Runtime Ω π) ω f, e.eval rt ω f = (q.attr a).value jre rt a.type ω f := by
    intro q mem a
    have good := (h.attrs q (listed q mem) a).1
    obtain ⟨s, read⟩ := Rhs.exists_statement law good (kept.readable.attrs q (listed q mem) a).2 a.type
    have code : (q.queue jre).code a = s.getStatement jre := by
      rw [Queue.code, q.statement_queue, read]
      rfl
    rw [code]
    exact Rhs.compileExpr_statement reads (by cases a <;> decide) good (kept.attrs q (listed q mem) a) read
  have port : ∀ a, ∃ s e, (p.port.attr a).statement jre Lib.decimalInt? a.type = some s ∧
      compileExpr expr a.type (s.getStatement jre) = some e ∧
      ∀ {Ω π : Type} (rt : Runtime Ω π) ω f, e.eval rt ω f = (p.port.attr a).value jre rt a.type ω f := by
    intro a
    obtain ⟨s, read⟩ := Rhs.exists_statement law (h.portAttrs a).1 (kept.readable.portAttrs a).2 a.type
    obtain ⟨e, compiled, value⟩ := Rhs.compileExpr_statement reads (by cases a <;> decide) (h.portAttrs a).1 (kept.portAttrs a) read
    exact ⟨s, e, read, compiled, value⟩
  have : Nonempty Lib.CStr := ⟨⟨[], List.not_mem_nil⟩⟩
  have : Nonempty CExpr := ⟨.inline (.operand (.num 0))⟩
  choose! l literals chars using literal
  choose! e exprs evals using attr
  obtain ⟨_, select, selected, select', selects⟩ := port .queueSelect
  obtain ⟨_, sched, scheduled, sched', scheds⟩ := port .schedPrio
  obtain ⟨portName, read, -⟩ := names p.port.name h.portName
  obtain ⟨prog, compiled, has⟩ := compileProgram_has defined values recorded.port ⟨portName, read⟩ literals exprs selected
    scheduled select' sched'
  have identifier : ∀ q ∈ order, Lib.isIdentifier q.name := fun q mem => h.queues q (listed q mem)
  have apart : (order.map fun q => cut (l q)).Nodup := by
    have takes := (perm.map fun q => q.name.take tcqOqNameLen).nodup_iff.2 kept.apart
    refine List.Nodup.map_on ?_ (List.Nodup.of_map _ takes)
    intro q mem q' mem' same
    exact List.inj_on_of_nodup_map takes mem mem'
      (take_eq_of_cut (identifier q mem) (identifier q' mem') (chars q mem) (chars q' mem') same)
  have named : ∀ q ∈ order, cut (l q) ≠ [] := fun q mem => cut_ne_nil (identifier q mem) (chars q mem)
  have fits : prog.code.inits.length ≤ tcqOqMaxQueue := by
    rw [has.inits, List.length_map, perm.length_eq]
    exact kept.few
  refine ⟨gen, prog, order, accepted, compiled, perm, iterated, ⟨_, CModule.initPort_ok_iff.2 ⟨fits, rfl, rfl⟩⟩, ?_⟩
  intro Ω π rt trees priv mem calls run
  obtain ⟨-, rfl⟩ := CModule.initPort_zero run
  have follow := has.follow trees apart named rt (fun q mem a => evals q mem a rt) (selects rt) (scheds rt)
  exact follow.run (fun i => rfl) calls

theorem plainLit_readsNames : ReadsNames plainLit := by
  intro t h
  have chars := (Lib.isIdentifier_iff.1 h).2
  have noNul : 0 ∉ t.map fun c => BitVec.ofNat 8 c.toNat := by
    rw [List.mem_map]
    rintro ⟨c, mem, zero⟩
    have small := Lib.toNat_lt_of_isIdentChar (chars c mem)
    have zero := congrArg BitVec.toNat zero
    rw [BitVec.toNat_ofNat, Nat.mod_eq_of_lt (by omega)] at zero
    have nul : c = '\x00' := by rw [← Char.ofNat_toNat c, zero]; rfl
    have word := chars c mem
    rw [nul] at word
    exact absurd word (by decide)
  have plain : t.all (fun c => c.isAlphanum || c = '_') := List.all_eq_true.2 chars
  exact ⟨⟨_, noNul⟩, dif_pos ⟨noNul, plain⟩, rfl⟩

theorem samplePolicy_kept : samplePolicy.Kept decimalJre where
  readable := by
    refine ⟨by decide +kernel, by decide +kernel, ?_, ?_⟩
    · simp only [samplePolicy, List.forall_mem_cons]
      refine ⟨fun a => ?_, fun a => ?_, List.forall_mem_nil _⟩ <;> cases a <;> decide +kernel
    · intro a
      cases a <;> decide +kernel
  attrs := by
    have threshold : (Rhs.inline (.compare .eq (.queue .len) (.num "1024".toList))).Kept decimalJre
        Attr.congestion.type := by
      rintro c ⟨⟩
      decide +kernel
    have probability : (Rhs.call "cong_act".toList ["0.85".toList]).Kept decimalJre Attr.congAction.type := by
      intro t mem d read
      rw [List.mem_singleton] at mem
      subst mem
      cases read
      decide +kernel
    simp only [samplePolicy, List.forall_mem_cons]
    refine ⟨fun a => ?_, fun a => ?_, List.forall_mem_nil _⟩
    · cases a with
      | congestion => exact threshold
      | congAction => exact probability
      | admPrio => trivial
      | procPrio => trivial
    · cases a <;> trivial
  portAttrs := by
    intro a
    cases a <;> trivial
  few := by decide
  apart := by decide +kernel

/-- The sample policy is run as it is written. -/
theorem sample_module_runs :
    ∃ expr gen prog order, Accepts decimalJre routinesFile sampleText gen ∧
      compileProgram plainLit expr gen = some prog ∧ order.map QueueDef.name = ["q1".toList, "q2".toList] ∧
      ∀ (rt : Runtime Unit Unit) (mem : Mem Unit) (calls : List (Call Unit Unit)), ∃ priv,
        prog.code.initPort (fun _ => .ok) .zero = .ok (0, priv) ∧
          Lib.run (Port.call (prog.callbacks rt)) ⟨mem, priv.queues⟩ calls =
            Lib.run (Port.callAt (samplePolicy.slots decimalJre rt order)) ⟨mem, priv.queues⟩ calls := by
  obtain ⟨expr, reads⟩ := exists_readsExprs
  obtain ⟨gen, prog, order, accepted, compiled, -, iterated, ⟨priv, init⟩, runs⟩ :=
    module_runs_policy decimalJre_readsDecimals plainLit_readsNames reads samplePolicy_wellFormed samplePolicy_kept
      samplePolicy_renders
  exact ⟨expr, gen, prog, order, accepted, compiled, iterated, fun rt mem calls =>
    ⟨priv, init, runs rt _ priv mem calls init⟩⟩

end Results

end OpenQueue.Gen
