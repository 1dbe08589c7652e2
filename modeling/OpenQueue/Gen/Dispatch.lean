import OpenQueue.Gen.Accepted
import OpenQueue.Gen.Module
import OpenQueue.Lib.Lists

/-!
# The compiled module of a well-defined policy

What `compile` makes of a policy in terms of its queues (`Compiled`), what the generated
`init_port` leaves in a zeroed `struct oq_priv` (`started`), and which branches a
dispatch function takes for a name that was copied into such memory: those whose literal
agrees with it in the first `TCQ_OQ_NAME_LEN` bytes.
-/

namespace OpenQueue.Gen

open Lib (Text Jre mapM_eq_some_iff)

/-! ## Literals and branches -/

section Compile

variable {jre : Jre} {lit : Text → Option Lib.CStr} {gen : OQGen jre.Double} {names : List Lib.CStr} {m : CModule}

/-- The expression emitted for an attribute. -/
def Queue.code (q : Queue jre.Double) (a : Attr) : Text := ((q.statement a).map (Statement.getStatement jre)).getD []

theorem branches_eq (defined : ∀ q ∈ gen.values, q.isWellDefined) (a : Attr) :
    gen.branches a = some (gen.values.map fun q => ⟨q.name, q.code a⟩) := by
  rw [OQGen.branches, mapM_eq_some_iff, List.forall₂_map_right_iff, List.forall₂_same]
  intro q mem
  obtain ⟨s, here⟩ := Queue.isWellDefined_iff.1 (defined q mem) a
  rw [Queue.code, here]
  rfl

/-- `generateModule` finds every statement of a well-defined policy. -/
theorem OQGen.exists_generateModule (defined : gen.isWellDefined = .ok ()) :
    ∃ port code, gen.port = some port ∧ gen.generateModule = some code := by
  obtain ⟨port, here, ported, queues⟩ := OQGen.isWellDefined_iff.1 defined
  rw [Port.isWellDefined, Bool.and_eq_true, Bool.and_eq_true, Option.isSome_iff_exists, Option.isSome_iff_exists]
    at ported
  obtain ⟨⟨⟨select, selects⟩, prio, prios⟩, -⟩ := ported
  refine ⟨port, ?_⟩
  simp only [OQGen.generateModule, here, OQGen.generateCongFn, OQGen.generateCongActFn, OQGen.generateAdmnFn,
    OQGen.generateProcFn, OQGen.generateDispatchFn, branches_eq queues, OQGen.generateQselcFn, selects,
    OQGen.generateSchdFn, prios, Option.map_some, Option.bind_eq_bind, Option.bind_some, Option.pure_def]
  exact ⟨_, trivial, rfl⟩

/-- The compiler reads the port's name, and the names of the queues as `names`. -/
structure Literals (lit : Text → Option Lib.CStr) (gen : OQGen jre.Double) (names : List Lib.CStr) : Prop where
  port : ∃ port l, gen.port = some port ∧ lit port.name = some l
  queues : List.Forall₂ (fun q l => lit q.name = some l) gen.values names

/-- A module as made of the queues and their literals. -/
structure Compiled (gen : OQGen jre.Double) (names : List Lib.CStr) (m : CModule) : Prop where
  func : ∀ a, m.func a = List.zipWith (fun l q => ⟨l, q.name, q.code a⟩) names gen.values
  inits : m.inits = List.zipWith (fun l q => ⟨l, q.size⟩) names gen.values
  noQueues : m.noQueues = gen.values.length

theorem Literals.compile (defined : ∀ q ∈ gen.values, q.isWellDefined) (h : Literals lit gen names) :
    ∃ m, compile lit gen = some m ∧ Compiled gen names m := by
  obtain ⟨port, l, here, name⟩ := h.port
  have literals : gen.values.mapM (fun q => lit q.name) = some names := mapM_eq_some_iff.2 h.queues
  simp only [Gen.compile, here, name, literals, branches_eq defined, Option.bind_eq_bind, Option.bind_some,
    Option.pure_def, Option.some.injEq, exists_eq_left']
  refine ⟨?_, List.zipWith_map_right .., OQGen.length_values.symm⟩
  intro a
  cases a <;> exact List.zipWith_map_right ..

theorem literals_of_compile (compiled : compile lit gen = some m) : ∃ names, Literals lit gen names := by
  obtain ⟨port, here, compiled⟩ := Option.bind_eq_some_iff.1 compiled
  obtain ⟨l, name, compiled⟩ := Option.bind_eq_some_iff.1 compiled
  obtain ⟨names, literals, -⟩ := Option.bind_eq_some_iff.1 compiled
  exact ⟨names, ⟨port, l, here, name⟩, mapM_eq_some_iff.1 literals⟩

theorem compiled_of_compile (defined : ∀ q ∈ gen.values, q.isWellDefined) (compiled : compile lit gen = some m) :
    ∃ names, Literals lit gen names ∧ Compiled gen names m := by
  obtain ⟨names, literals⟩ := literals_of_compile compiled
  obtain ⟨m', again, h⟩ := literals.compile defined
  cases compiled.symm.trans again
  exact ⟨names, literals, h⟩

theorem Literals.length_eq (h : Literals lit gen names) : names.length = gen.values.length := h.queues.length_eq.symm

/-- The literal of the queue at a position. -/
theorem Literals.get {i : Nat} {q : Queue jre.Double} (h : Literals lit gen names) (here : gen.values[i]? = some q) :
    ∃ l, names[i]? = some l ∧ lit q.name = some l := by
  obtain ⟨inside, rfl⟩ := List.getElem?_eq_some_iff.1 here
  have inside' : i < names.length := h.length_eq ▸ inside
  exact ⟨names[i], List.getElem?_eq_getElem inside', (List.forall₂_iff_get.1 h.queues).2 i inside inside'⟩

theorem Compiled.map_literal (h : Compiled gen names m) (literals : Literals lit gen names) (a : Attr) :
    (m.func a).map CBranch.literal = names := by
  rw [h.func, List.map_zipWith]
  exact List.ext_getElem (by simp [literals.length_eq]) (by simp)

theorem Compiled.length_inits (h : Compiled gen names m) (literals : Literals lit gen names) :
    m.inits.length = gen.values.length := by
  rw [h.inits, List.length_zipWith, literals.length_eq, Nat.min_self]

end Compile

/-! ## The branches that are taken -/

/-- The part of a name that a bounded copy keeps. -/
def cut (l : Lib.CStr) : List Lib.Byte := l.chars.take tcqOqNameLen

/-- A name in memory that was zeroed. -/
def stored (l : Lib.CStr) : NameBuf := NameBuf.copy (.zero _) l

theorem cstr?_stored (l : Lib.CStr) : Lib.cstr? (stored l).bytes = some (cut l) := by
  obtain ⟨rest, bytes⟩ := Lib.CharBuf.zero_strncpy (n := tcqOqNameLen) l
  exact Lib.cstr?_eq_some_iff.2 ⟨fun nul => l.noNul (List.mem_of_mem_take nul), rest, bytes⟩

theorem taken_stored (l : Lib.CStr) (bs : List CBranch) :
    CModule.taken (stored l) bs = .ok (bs.filter fun b => cut l = cut b.literal) := by
  induction bs with
  | nil => rfl
  | cons b bs ih =>
    obtain ⟨c, compared, equal⟩ := Lib.CharBuf.strncmp_zero_strncpy (n := tcqOqNameLen) l b.literal
    have compared : Lib.strncmp tcqOqNameLen (stored l).bytes b.literal.bytes = some c := compared
    simp only [CModule.taken, compared, ih, List.filter_cons, decide_eq_true_eq]
    exact congrArg _ (if_congr equal rfl rfl)

/-! ## `init_port` -/

/-- Both calls of `btree_init` succeed; which pools they give does not matter. -/
def Trees.ok : Trees := ⟨.ok 0, .ok 1⟩

/-- A slot after a successful `init_queue`. -/
def CInit.slot (call : CInit) (queue : OqQueue) : OqQueue :=
  { ready := true, maxLen := call.maxLen, len := 0, dropped := 0, total := 0, name := queue.name.copy call.literal,
    admnQ := .empty, procQ := .empty }

/-- An array after calls from slot `i` on that each write their own slot. -/
def filled {α : Type} (write : Nat → CInit → α → α) (i : Nat) (calls : List CInit) (array : QId → α) : QId → α :=
  fun s =>
    match if i ≤ s.val then calls[s.val - i]? else none with
    | some call => write s call (array s)
    | none => array s

section Filled

variable {α : Type} {w : Nat → CInit → α → α}

theorem filled_nil (i : Nat) (array : QId → α) : filled w i [] array = array := by
  funext s
  simp [filled]

theorem filled_cons {i : Nat} (inside : i < tcqOqMaxQueue) (call : CInit) (calls : List CInit) (array : QId → α) :
    filled w (i + 1) calls (Function.update array ⟨i, inside⟩ (w i call (array ⟨i, inside⟩))) =
      filled w i (call :: calls) array := by
  funext s
  rcases Nat.lt_trichotomy s.val i with before | here | after
  · have other : s ≠ ⟨i, inside⟩ := fun same => by simp [same] at before
    simp [filled, Function.update_of_ne other, show ¬ i + 1 ≤ s.val by omega, show ¬ i ≤ s.val by omega]
  · have same : s = ⟨i, inside⟩ := Fin.ext here
    subst same
    simp [filled, show ¬ i + 1 ≤ i by omega]
  · have other : s ≠ ⟨i, inside⟩ := fun same => by simp [same] at after
    obtain ⟨d, steps⟩ : ∃ d, s.val - i = d + 1 := ⟨s.val - i - 1, by omega⟩
    have steps' : s.val - (i + 1) = d := by omega
    simp [filled, Function.update_of_ne other, show i + 1 ≤ s.val by omega, show i ≤ s.val by omega, steps, steps']

theorem filled_slot {s : QId} {call : CInit} {calls : List CInit} (here : calls[s.val]? = some call) (array : QId → α) :
    filled w 0 calls array s = w s call (array s) := by
  simp [filled, here]

theorem filled_rest {s : QId} {calls : List CInit} (beyond : calls.length ≤ s.val) (array : QId → α) :
    filled w 0 calls array s = array s := by
  simp [filled, List.getElem?_eq_none beyond]

end Filled

/-- The private data after successful calls from slot `i` on. -/
def OqPriv.filled (trees : Nat → Trees) (i : Nat) (calls : List CInit) (priv : OqPriv) : OqPriv :=
  { priv with
    queues := Gen.filled (fun _ call => call.slot) i calls priv.queues
    nodePools := Gen.filled (fun s _ => (trees s).pools) i calls priv.nodePools }

theorem OqPriv.filled_nil (trees : Nat → Trees) (i : Nat) (priv : OqPriv) : priv.filled trees i [] = priv := by
  rw [OqPriv.filled, Gen.filled_nil, Gen.filled_nil]

theorem OqPriv.filled_cons (trees : Nat → Trees) {i : Nat} (inside : i < tcqOqMaxQueue) (call : CInit)
    (calls : List CInit) (priv : OqPriv) :
    (priv.put ⟨i, inside⟩ ((trees i).pools (priv.nodePools ⟨i, inside⟩))
      (call.slot (priv.queues ⟨i, inside⟩))).filled trees (i + 1) calls = priv.filled trees i (call :: calls) := by
  have queues := Gen.filled_cons (w := fun _ call => call.slot) inside call calls priv.queues
  have pools := Gen.filled_cons (w := fun s _ => (trees s).pools) inside call calls priv.nodePools
  rw [OqPriv.filled, OqPriv.filled, ← queues, ← pools]
  rfl

theorem OqPriv.filled_rest (trees : Nat → Trees) {s : QId} {calls : List CInit} (beyond : calls.length ≤ s.val)
    (priv : OqPriv) :
    (priv.filled trees 0 calls).queues s = priv.queues s ∧
      (priv.filled trees 0 calls).nodePools s = priv.nodePools s :=
  ⟨Gen.filled_rest (w := fun _ call => call.slot) beyond priv.queues,
    Gen.filled_rest (w := fun s _ => (trees s).pools) beyond priv.nodePools⟩

theorem initQueue_of_succeed {trees : Trees} (ok : trees.succeed = true) (call : CInit) (pools : NodePools)
    (queue : OqQueue) : initQueue trees call pools queue = (true, trees.pools pools, call.slot queue) := by
  obtain ⟨admn | _, proc | _⟩ := trees
  · rfl
  all_goals cases ok

theorem initQueue_of_failed {trees : Trees} (failed : trees.succeed = false) (call : CInit) (pools : NodePools)
    (queue : OqQueue) :
    initQueue trees call pools queue = (false, trees.pools pools, trees.queue pools queue) := by
  rw [initQueue, failed]
  rfl

/-- One call fills its slot, or stops `init_port`. -/
theorem initQueues_cons (trees : Nat → Trees) {i : Nat} (inside : i < tcqOqMaxQueue) (call : CInit)
    (calls : List CInit) (priv : OqPriv) :
    (trees i).succeed = true ∧ initQueues trees i (call :: calls) priv =
      initQueues trees (i + 1) calls (priv.put ⟨i, inside⟩ ((trees i).pools (priv.nodePools ⟨i, inside⟩))
        (call.slot (priv.queues ⟨i, inside⟩))) ∨
    (trees i).succeed = false ∧ initQueues trees i (call :: calls) priv =
      .ok (false, priv.put ⟨i, inside⟩ ((trees i).pools (priv.nodePools ⟨i, inside⟩))
        ((trees i).queue (priv.nodePools ⟨i, inside⟩) (priv.queues ⟨i, inside⟩))) := by
  rw [initQueues, dif_pos inside]
  cases ok : (trees i).succeed with
  | true => exact .inl ⟨rfl, by simp only [initQueue_of_succeed ok, if_true]⟩
  | false => exact .inr ⟨rfl, by simp only [initQueue_of_failed ok, Bool.false_eq_true, if_false]⟩

theorem initQueues_outside (trees : Nat → Trees) {i : Nat} (outside : ¬ i < tcqOqMaxQueue) (call : CInit)
    (calls : List CInit) (priv : OqPriv) : initQueues trees i (call :: calls) priv = .error .badIndex := by
  rw [initQueues, dif_neg outside]

/-- The calls stay inside the array, and end at the first that fails. -/
theorem initQueues_cases (trees : Nat → Trees) (priv : OqPriv) {i : Nat} {calls : List CInit}
    (inside : i + calls.length ≤ tcqOqMaxQueue) :
    (∃ j left, (trees j).succeed = false ∧ initQueues trees i calls priv = .ok (false, left) ∧ left.numQ = priv.numQ) ∨
      initQueues trees i calls priv = .ok (true, priv.filled trees i calls) := by
  induction calls generalizing i priv with
  | nil => exact .inr (by rw [initQueues, OqPriv.filled_nil])
  | cons call calls ih =>
    rw [List.length_cons] at inside
    have here : i < tcqOqMaxQueue := by omega
    rcases initQueues_cons trees here call calls priv with ⟨-, eq⟩ | ⟨failed, eq⟩
    · rw [eq, ← OqPriv.filled_cons trees here]
      exact ih _ (by omega)
    · exact .inl ⟨i, _, failed, eq, rfl⟩

/-- Calls that all succeed have stayed inside the array. -/
theorem initQueues_fits {trees : Nat → Trees} {priv priv' : OqPriv} {i : Nat} {calls : List CInit}
    (start : i ≤ tcqOqMaxQueue) (run : initQueues trees i calls priv = .ok (true, priv')) :
    i + calls.length ≤ tcqOqMaxQueue := by
  induction calls generalizing i priv with
  | nil => exact start
  | cons call calls ih =>
    by_cases here : i < tcqOqMaxQueue
    · rcases initQueues_cons trees here call calls priv with ⟨-, eq⟩ | ⟨-, eq⟩
      · rw [eq] at run
        have rest := ih (by omega : i + 1 ≤ tcqOqMaxQueue) run
        rw [List.length_cons]
        omega
      · rw [eq] at run
        cases run
    · rw [initQueues_outside trees here] at run
      cases run

/-- Without a failure the calls run over the end of the array. -/
theorem initQueues_overflow (priv : OqPriv) {i : Nat} {calls : List CInit} (start : i ≤ tcqOqMaxQueue)
    (outside : tcqOqMaxQueue < i + calls.length) :
    initQueues (fun _ => .ok) i calls priv = .error .badIndex := by
  induction calls generalizing i priv with
  | nil =>
    rw [List.length_nil] at outside
    omega
  | cons call calls ih =>
    rw [List.length_cons] at outside
    by_cases here : i < tcqOqMaxQueue
    · rcases initQueues_cons (fun _ => .ok) here call calls priv with ⟨-, eq⟩ | ⟨failed, -⟩
      · rw [eq]
        exact ih _ (by omega) (by omega)
      · cases failed
    · exact initQueues_outside _ here call calls priv

namespace CModule

variable {m : CModule}

/-- A `struct oq_priv` after a successful `init_port`. -/
def setUp (m : CModule) (trees : Nat → Trees) (priv : OqPriv) : OqPriv :=
  { priv.filled trees 0 m.inits with
    numQ := BitVec.ofNat 32 m.noQueues
    portName := priv.portName.copy m.portName
    callbacks := some m.modName }

/-- A zeroed one. -/
def started (m : CModule) (trees : Nat → Trees) : OqPriv := m.setUp trees .zero

theorem initPort_cases (trees : Nat → Trees) (inside : m.inits.length ≤ tcqOqMaxQueue) :
    (∃ j left, (trees j).succeed = false ∧ m.initPort trees .zero = .ok (-eNoMem, left) ∧ left.numQ = 0) ∨
      m.initPort trees .zero = .ok (0, m.started trees) := by
  have run := initQueues_cases trees .zero (i := 0) (by omega : 0 + m.inits.length ≤ tcqOqMaxQueue)
  rcases run with ⟨j, left, failed, eq, numQ⟩ | eq
  · exact .inl ⟨j, left, failed, by rw [initPort, eq], numQ⟩
  · exact .inr (by rw [initPort, eq]; rfl)

/-- With all the memory it asks for, `init_port` succeeds exactly if the queues fit. -/
theorem initPort_ok_iff {code : Int} {priv : OqPriv} :
    m.initPort (fun _ => .ok) .zero = .ok (code, priv) ↔
      m.inits.length ≤ tcqOqMaxQueue ∧ code = 0 ∧ priv = m.started fun _ => .ok := by
  by_cases inside : m.inits.length ≤ tcqOqMaxQueue
  · rcases initPort_cases (fun _ => .ok) inside with ⟨_, _, failed, -⟩ | eq
    · cases failed
    · simp only [eq, Except.ok.injEq, Prod.mk.injEq, inside, true_and, eq_comm]
  · have overflow := initQueues_overflow .zero (i := 0) (Nat.zero_le _)
      (by omega : tcqOqMaxQueue < 0 + m.inits.length)
    rw [initPort, overflow]
    exact iff_of_false nofun fun fits => inside fits.1

/-- Where `init_port` returns 0 the queues fit, and their slots are filled. -/
theorem initPort_filled {trees : Nat → Trees} {priv priv' : OqPriv} (run : m.initPort trees priv = .ok (0, priv')) :
    m.inits.length ≤ tcqOqMaxQueue ∧ priv' = m.setUp trees priv := by
  unfold initPort at run
  split at run
  · cases run
  · exact absurd (Prod.mk.inj (Except.ok.inj run)).1 (by decide)
  · next left calls =>
    have fits := initQueues_fits (Nat.zero_le _) calls
    rcases initQueues_cases trees priv fits with ⟨j, left', -, eq, -⟩ | eq
    · rw [eq] at calls
      cases calls
    · rw [eq] at calls
      cases calls
      refine ⟨by omega, (Prod.mk.inj (Except.ok.inj run)).2.symm⟩

/-- A zeroed `struct oq_priv` is then set up. -/
theorem initPort_zero {trees : Nat → Trees} {priv : OqPriv} (run : m.initPort trees .zero = .ok (0, priv)) :
    m.inits.length ≤ tcqOqMaxQueue ∧ priv = m.started trees :=
  initPort_filled run

variable {trees : Nat → Trees}

theorem started_slot {s : QId} {call : CInit} (here : m.inits[s.val]? = some call) :
    (m.started trees).queues s = call.slot (OqPriv.zero.queues s) :=
  filled_slot (w := fun _ call => call.slot) here OqPriv.zero.queues

theorem started_rest {s : QId} (beyond : m.inits.length ≤ s.val) :
    (m.started trees).queues s = OqPriv.zero.queues s :=
  filled_rest (w := fun _ call => call.slot) beyond OqPriv.zero.queues

end CModule

end OpenQueue.Gen
