import OpenQueue.Gen.Complete
import OpenQueue.Gen.Headers
import OpenQueue.Lib.Lists
import OpenQueue.Lib.Run

/-!
# Every policy of the language is read

An abstract policy, and the texts that render it: its statements in the order of the
sample policy, one on a line, among comments and blank lines. Such a text is accepted,
with exactly the queues and the port of the policy, if and only if no word of the policy
misleads the parser and the numbers of its inline expressions are of type `int`.
-/

namespace OpenQueue.Gen

open Lib (Text Jre PutMap Steps)
open Lib.Text

/-! ## Abstract policies -/

/-- A queue with its attributes. -/
structure QueueDef where
  name : Text
  size : BitVec 32
  attr : Attr → Rhs

/-- A port with its attributes. -/
structure PortDef where
  name : Text
  queues : List Text
  attr : PortAttr → Rhs

/-- A policy; each import comes with the routines that the header declares. -/
structure Policy where
  imports : List (Text × List Routine)
  queues : List QueueDef
  port : PortDef

def attrs : List Attr := [.congestion, .congAction, .admPrio, .procPrio]

def portAttrs : List PortAttr := [.queueSelect, .schedPrio]

def QueueDef.assigns (q : QueueDef) : List Stmt := attrs.map fun a => .assign q.name (.queue a) (q.attr a)

def PortDef.assigns (p : PortDef) : List Stmt := portAttrs.map fun a => .assign p.name (.port a) (p.attr a)

namespace Policy

def routines (p : Policy) : List Routine := p.imports.flatMap Prod.snd

/-- The statements of a policy, in the order of the sample policy. -/
def stmts (p : Policy) : List Stmt :=
  p.imports.map (fun i => .imports i.1) ++ (p.queues.map (fun q => .queue q.name q.size) ++
    (p.queues.flatMap QueueDef.assigns ++ (.port p.port.name p.port.queues :: p.port.assigns)))

end Policy

/-- The routine of a right-hand side is declared, with this type. -/
def Rhs.Uses (routines : List Routine) (type : RoutineType) : Rhs → Prop
  | .routine name => ⟨type, name⟩ ∈ routines
  | .call name _ => ⟨type, name⟩ ∈ routines
  | .inline _ => True

instance (routines : List Routine) (type : RoutineType) : DecidablePred (Rhs.Uses routines type)
  | .routine name => inferInstanceAs (Decidable (⟨type, name⟩ ∈ routines))
  | .call name _ => inferInstanceAs (Decidable (⟨type, name⟩ ∈ routines))
  | .inline _ => isTrue trivial

structure Policy.WellFormed (p : Policy) : Prop where
  files : ∀ i ∈ p.imports, IsHeader i.1
  routines : ∀ r ∈ p.routines, r.WellFormed
  routineNames : (p.routines.map Routine.name).Nodup
  queueNames : (p.queues.map QueueDef.name).Nodup
  queues : ∀ q ∈ p.queues, Lib.isIdentifier q.name
  attrs : ∀ q ∈ p.queues, ∀ a, (q.attr a).WellFormed ∧ (q.attr a).Uses p.routines a.type
  portName : Lib.isIdentifier p.port.name
  apart : p.port.name ∉ p.queues.map QueueDef.name
  listed : p.port.queues ≠ []
  declared : ∀ n ∈ p.port.queues, n ∈ p.queues.map QueueDef.name
  portAttrs : ∀ a, (p.port.attr a).WellFormed ∧ (p.port.attr a).Uses p.routines a.type

/-- The lines that are neither comments nor blank. -/
def significant (lines : List Text) : List Text :=
  (lines.map trim).filter fun line => !(line.startsWith "//".toList || line.isEmpty)

/-- The text of a policy, whose headers can be read. -/
structure Renders (files : Text → Option Text) (p : Policy) (text : Text) : Prop where
  headers : ∀ i ∈ p.imports, ∃ header, files i.1 = some header ∧ Declares header.lines i.2
  lines : significant text.lines = p.stmts.map Stmt.text

/-- The numbers of an inline expression are integers of type `int`. -/
def Rhs.integral : Rhs → Bool
  | .inline e => (e.mapNum Lib.decimalInt?).isSome
  | _ => true

/-- No word misleads the parser, and no number is changed. -/
structure Policy.Readable (p : Policy) : Prop where
  files : ∀ i ∈ p.imports, i.1.count '.' = 1
  names : ∀ n ∈ p.port.name :: p.queues.map QueueDef.name, plainName n
  attrs : ∀ q ∈ p.queues, ∀ a, (q.attr a).plain ∧ (q.attr a).integral
  portAttrs : ∀ a, (p.port.attr a).plain ∧ (p.port.attr a).integral

/-- The queue that is to be recorded. -/
def QueueDef.queue (jre : Jre) (q : QueueDef) : Queue jre.Double where
  name := q.name
  size := q.size
  admPrio := (q.attr .admPrio).statement jre Lib.decimalInt? Attr.admPrio.type
  congestion := (q.attr .congestion).statement jre Lib.decimalInt? Attr.congestion.type
  congAction := (q.attr .congAction).statement jre Lib.decimalInt? Attr.congAction.type
  procPrio := (q.attr .procPrio).statement jre Lib.decimalInt? Attr.procPrio.type

/-- The port that is to be recorded. -/
def PortDef.port (jre : Jre) (p : PortDef) : Port jre.Double where
  name := p.name
  queueSelect := (p.attr .queueSelect).statement jre Lib.decimalInt? PortAttr.queueSelect.type
  schedPrio := (p.attr .schedPrio).statement jre Lib.decimalInt? PortAttr.schedPrio.type
  queues := p.queues

/-- The queues and the port are those of the policy. -/
structure Policy.Recorded {jre : Jre} (p : Policy) (gen : OQGen jre.Double) : Prop where
  queues : gen.queues.entries = p.queues.map fun q => (q.name, q.queue jre)
  port : gen.port = some (p.port.port jre)

/-! ## Lines and statements -/

section Lines

variable {jre : Jre} {files : Text → Option Text} {gen gen' : OQGen jre.Double}

/-- Only the significant lines count. -/
theorem parseLines_iff {lines : List Text} {lineNumber : Nat} :
    parseLines jre files gen lineNumber lines = .ok gen' ↔
      Steps (Reads jre files) gen (significant lines) gen' := by
  induction lines generalizing gen lineNumber with
  | nil =>
    constructor
    · rintro ⟨⟩
      exact .nil _
    · rintro ⟨⟩
      rfl
  | cons line lines ih =>
    rw [parseLines]
    by_cases nothing : line.trim.startsWith "//".toList || line.trim.isEmpty
    · have skip : significant (line :: lines) = significant lines := by
        rw [significant, List.map_cons, List.filter_cons_of_neg (by rw [nothing]; decide), ← significant]
      have same : parseLine jre files gen line (lineNumber + 1) = .ok gen := parseLine_iff.2 (.skip nothing)
      rw [skip, same]
      exact ih
    · have keep : significant (line :: lines) = line.trim :: significant lines := by
        rw [significant, List.map_cons, List.filter_cons_of_pos (by rw [Bool.eq_false_iff.2 nothing]; rfl), ← significant]
      rw [keep]
      constructor
      · intro parsed
        split at parsed
        · cases parsed
        · next mid first => exact .cons (parseLine_iff.1 first) (ih.1 parsed)
      · rintro (_ | ⟨first, rest⟩)
        rw [parseLine_iff.2 first]
        exact ih.2 rest

variable {p : Policy}

theorem Policy.WellFormed.stmt (h : p.WellFormed) : ∀ stmt ∈ p.stmts, stmt.WellFormed := by
  simp only [Policy.stmts, List.forall_mem_append, List.forall_mem_map, List.forall_mem_flatMap, List.forall_mem_cons,
    QueueDef.assigns, PortDef.assigns]
  refine ⟨h.files, h.queues, fun q mem a _ => ⟨h.queues q mem, (h.attrs q mem a).1⟩, ⟨h.portName, h.listed, ?_⟩,
    fun a _ => ⟨h.portName, (h.portAttrs a).1⟩⟩
  intro n mem
  obtain ⟨q, here, rfl⟩ := List.mem_map.1 (h.declared n mem)
  exact h.queues q here

/-- A policy is readable if its statements are plain and its numbers integers. -/
theorem Policy.readable_iff : p.Readable ↔
    (∀ stmt ∈ p.stmts, stmt.plain) ∧ (∀ q ∈ p.queues, ∀ a, (q.attr a).integral) ∧ ∀ a, (p.port.attr a).integral := by
  have stmts : (∀ stmt ∈ p.stmts, stmt.plain) ↔ (∀ i ∈ p.imports, i.1.count '.' = 1) ∧
      (∀ q ∈ p.queues, ∀ a, plainName q.name ∧ (q.attr a).plain) ∧ ∀ a, plainName p.port.name ∧ (p.port.attr a).plain := by
    have all : ∀ a, a ∈ Gen.attrs := by
      intro a
      cases a <;> decide
    have all' : ∀ a, a ∈ Gen.portAttrs := by
      intro a
      cases a <;> decide
    simp only [Policy.stmts, List.forall_mem_append, List.forall_mem_map, List.forall_mem_flatMap, List.forall_mem_cons,
      QueueDef.assigns, PortDef.assigns, Stmt.plain, decide_eq_true_eq, Bool.and_eq_true, all, all', forall_const,
      implies_true, true_and]
  rw [stmts]
  constructor
  · rintro ⟨files, names, attrs, portAttrs⟩
    rw [List.forall_mem_cons, List.forall_mem_map] at names
    exact ⟨⟨files, fun q mem a => ⟨names.2 q mem, (attrs q mem a).1⟩, fun a => ⟨names.1, (portAttrs a).1⟩⟩,
      fun q mem a => (attrs q mem a).2, fun a => (portAttrs a).2⟩
  · rintro ⟨⟨files, attrs, portAttrs⟩, integral, integral'⟩
    refine ⟨files, ?_, fun q mem a => ⟨(attrs q mem a).2, integral q mem a⟩, fun a => ⟨(portAttrs a).2, integral' a⟩⟩
    rw [List.forall_mem_cons, List.forall_mem_map]
    exact ⟨(portAttrs .queueSelect).1, fun q mem => (attrs q mem .congestion).1⟩

end Lines

/-! ## What the statements record -/

section Records

variable {jre : Jre} {files : Text → Option Text} {gen : OQGen jre.Double}

/-- A statement that may stand here, and what it records. -/
def Does (jre : Jre) (files : Text → Option Text) (gen : OQGen jre.Double) (stmt : Stmt) (gen' : OQGen jre.Double) : Prop :=
  stmt.Legal gen ∧ Records jre Lib.decimalInt? files gen stmt gen'

theorem processImport_header {file header : Text} {rs : List Routine} {routines : PutMap Text Routine} (h : IsHeader file)
    (dots : file.count '.' = 1) (read : files file = some header) (declares : Declares header.lines rs)
    (good : ∀ r ∈ rs, r.WellFormed) (names : (rs.map Routine.name).Nodup) (fresh : ∀ r ∈ rs, routines.get r.name = none) :
    processImport files routines file = .ok (putAll routines rs) := by
  obtain ⟨base, rfl⟩ := h.extension
  have free : '.' ∉ base := by
    rw [List.count_append] at dots
    exact List.count_eq_zero.1 (Nat.add_right_cancel (m := 1) dots)
  have pieces : split (base ++ ".h".toList) ".".toList = [base, "h".toList] :=
    (split_eq_pair_iff (c := '.')).2 ⟨free, by decide, by decide, 0, by simp⟩
  rw [processImport, pieces]
  simp only [if_true, read]
  exact importLines_declares declares good names fresh 0

theorem putAll_append (routines : PutMap Text Routine) (rs rs' : List Routine) :
    putAll routines (rs ++ rs') = putAll (putAll routines rs) rs' := List.foldl_append

theorem does_imports {imports : List (Text × List Routine)} (files' : ∀ i ∈ imports, IsHeader i.1 ∧ i.1.count '.' = 1)
    (headers : ∀ i ∈ imports, ∃ header, files i.1 = some header ∧ Declares header.lines i.2)
    (good : ∀ r ∈ imports.flatMap Prod.snd, r.WellFormed) (names : ((imports.flatMap Prod.snd).map Routine.name).Nodup)
    (fresh : ∀ r ∈ imports.flatMap Prod.snd, gen.routines.get r.name = none) :
    Steps (Does jre files) gen (imports.map fun i => .imports i.1)
      { gen with routines := putAll gen.routines (imports.flatMap Prod.snd) } := by
  induction imports generalizing gen with
  | nil => exact .nil _
  | cons i imports ih =>
    rw [List.forall_mem_cons] at files' headers
    rw [List.flatMap_cons, List.forall_mem_append] at good fresh
    rw [List.flatMap_cons, List.map_append, List.nodup_append] at names
    obtain ⟨names, names', apart⟩ := names
    obtain ⟨header, read, declares⟩ := headers.1
    have first := processImport_header files'.1.1 files'.1.2 read declares good.1 names fresh.1
    rw [List.flatMap_cons, putAll_append]
    refine .cons ⟨trivial, .imports first⟩ (ih files'.2 headers.2 good.2 names' fun r mem => ?_)
    have absent : r.name ∉ i.2.map Routine.name := fun twice => apart _ twice _ (List.mem_map_of_mem mem) rfl
    exact ((get_putAll names).2 _ absent).trans (fresh.2 r mem)

theorem does_queues {queues : List QueueDef} (names : (queues.map QueueDef.name).Nodup)
    (fresh : ∀ q ∈ queues, q.name ∉ gen.queues.keys) :
    ∃ m, m.entries = gen.queues.entries ++ queues.map (fun q => (q.name, { name := q.name, size := q.size })) ∧
      Steps (Does jre files) gen (queues.map fun q => .queue q.name q.size) { gen with queues := m } := by
  induction queues generalizing gen with
  | nil => exact ⟨gen.queues, by simp, .nil _⟩
  | cons q queues ih =>
    rw [List.map_cons, List.nodup_cons] at names
    rw [List.forall_mem_cons] at fresh
    have first : (gen.queues.put q.name { name := q.name, size := q.size }).entries =
        gen.queues.entries ++ [(q.name, { name := q.name, size := q.size })] := Lib.PutMap.putEntries_new _ fresh.1
    obtain ⟨m, entries, steps⟩ := @ih { gen with queues := gen.queues.put q.name { name := q.name, size := q.size } } names.2 (by
      intro q' mem
      rw [Lib.PutMap.keys, first, List.map_append, List.mem_append, not_or]
      refine ⟨fresh.2 q' mem, fun same => names.1 ?_⟩
      have same : q'.name = q.name := List.mem_singleton.1 same
      exact same ▸ List.mem_map_of_mem mem)
    refine ⟨m, ?_, .cons ⟨trivial, .queue⟩ steps⟩
    rw [entries, first, List.map_cons, List.append_assoc]
    rfl

theorem does_assigns {q : QueueDef} {l r : List (Text × Queue jre.Double)} {q₀ : Queue jre.Double}
    {stmt : Attr → Statement jre.Double} (read : ∀ a, (q.attr a).statement jre Lib.decimalInt? a.type = some (stmt a))
    (absent : q.name ∉ l.map Prod.fst) (entries : gen.queues.entries = l ++ (q.name, q₀) :: r)
    (known : ∀ a, (q.attr a).Known gen.routines a.type) (as : List Attr) :
    ∃ m, m.entries = l ++ (q.name, as.foldl (fun q a => q.assign (stmt a) a) q₀) :: r ∧
      Steps (Does jre files) gen (as.map fun a => .assign q.name (.queue a) (q.attr a)) { gen with queues := m } := by
  induction as generalizing gen q₀ with
  | nil => exact ⟨gen.queues, entries, .nil _⟩
  | cons a as ih =>
    have found : gen.queues.get q.name = some q₀ := Lib.PutMap.get_eq_some_of_mem (by rw [entries]; simp)
    have first : (gen.queues.put q.name (q₀.assign (stmt a) a)).entries =
        l ++ (q.name, q₀.assign (stmt a) a) :: r := by
      show Lib.PutMap.putEntries gen.queues.entries _ _ = _
      rw [entries, Lib.PutMap.putEntries_old _ _ absent]
    obtain ⟨m, entries', steps⟩ := @ih { gen with queues := gen.queues.put q.name (q₀.assign (stmt a) a) } _ first known
    exact ⟨m, entries', .cons ⟨known a, .queueAttr found (read a)⟩ steps⟩

/-- Four assignments give the queue. -/
theorem QueueDef.foldl_assign {q : QueueDef} {stmt : Attr → Statement jre.Double}
    (read : ∀ a, (q.attr a).statement jre Lib.decimalInt? a.type = some (stmt a)) :
    attrs.foldl (fun q a => q.assign (stmt a) a) { name := q.name, size := q.size } = q.queue jre := by
  rw [QueueDef.queue, read, read, read, read]
  rfl

theorem does_attrs {queues : List QueueDef} {l : List (Text × Queue jre.Double)}
    (read : ∀ q ∈ queues, ∀ a, ∃ s, (q.attr a).statement jre Lib.decimalInt? a.type = some s)
    (entries : gen.queues.entries = l ++ queues.map (fun q => (q.name, { name := q.name, size := q.size })))
    (known : ∀ q ∈ queues, ∀ a, (q.attr a).Known gen.routines a.type) :
    ∃ m, m.entries = l ++ queues.map (fun q => (q.name, q.queue jre)) ∧
      Steps (Does jre files) gen (queues.flatMap QueueDef.assigns) { gen with queues := m } := by
  induction queues generalizing gen l with
  | nil => exact ⟨gen.queues, entries, .nil _⟩
  | cons q queues ih =>
    rw [List.forall_mem_cons] at read known
    choose stmt here using read.1
    have nodup := gen.queues.nodup
    rw [entries, List.map_append, List.map_cons, List.map_cons, List.nodup_append] at nodup
    have absent : q.name ∉ l.map Prod.fst := fun mem => nodup.2.2 _ mem _ List.mem_cons_self rfl
    obtain ⟨m, first, steps⟩ : ∃ m, _ ∧ Steps (Does jre files) gen q.assigns { gen with queues := m } :=
      does_assigns here absent entries known.1 attrs
    rw [QueueDef.foldl_assign here] at first
    obtain ⟨m', rest, steps'⟩ := @ih { gen with queues := m } (l ++ [(q.name, q.queue jre)]) read.2
      (by rw [first, List.append_assoc]; rfl) known.2
    refine ⟨m', ?_, steps.append steps'⟩
    rw [rest, List.append_assoc]
    rfl

theorem does_port {p : PortDef} {queueSelect schedPrio : Statement jre.Double}
    (select : (p.attr .queueSelect).statement jre Lib.decimalInt? .queueSelector = some queueSelect)
    (sched : (p.attr .schedPrio).statement jre Lib.decimalInt? .schedulingPriority = some schedPrio)
    (declared : ∀ n ∈ p.queues, (gen.queues.get n).isSome) (other : gen.queues.get p.name = none)
    (known : ∀ a, (p.attr a).Known gen.routines a.type) :
    Steps (Does jre files) gen (.port p.name p.queues :: p.assigns) { gen with port := some (p.port jre) } := by
  let port : Port jre.Double := { name := p.name, queues := p.queues }
  let port' : Port jre.Double := port.assign queueSelect .queueSelect
  have first : Does jre files gen (.port p.name p.queues) { gen with port := some port } := ⟨declared, .port⟩
  have second : Does jre files { gen with port := some port } (.assign p.name (.port .queueSelect) (p.attr .queueSelect))
      { gen with port := some port' } := ⟨known .queueSelect, .portAttr (a := .queueSelect) other rfl rfl select⟩
  have third : Does jre files { gen with port := some port' } (.assign p.name (.port .schedPrio) (p.attr .schedPrio))
      { gen with port := some (port'.assign schedPrio .schedPrio) } :=
    ⟨known .schedPrio, .portAttr (a := .schedPrio) other rfl rfl sched⟩
  have last : p.port jre = port'.assign schedPrio .schedPrio := by
    show PortDef.port jre p = { name := p.name, queueSelect := some queueSelect, schedPrio := some schedPrio, queues := p.queues }
    rw [← select, ← sched]
    rfl
  rw [last]
  exact .cons first (.cons second (.single third))

/-- A right-hand side that can be recorded. -/
theorem Rhs.exists_statement (law : jre.ReadsDecimals) {rhs : Rhs} (h : rhs.WellFormed) (integral : rhs.integral)
    (type : RoutineType) : ∃ s, rhs.statement jre Lib.decimalInt? type = some s := by
  cases rhs with
  | routine name => exact ⟨_, rfl⟩
  | call name params =>
    obtain ⟨vals, each⟩ := Lib.exists_forall₂ fun p mem => law.double p (h.2.2 p mem)
    exact ⟨.routineCall name type (some vals), by rw [Rhs.statement, Lib.mapM_eq_some_iff.2 each]; rfl⟩
  | inline e =>
    obtain ⟨c, read⟩ := Option.isSome_iff_exists.1 integral
    exact ⟨.inline c.cText type, by rw [Rhs.statement, read]; rfl⟩

theorem Rhs.known_of_uses {routines : List Routine} {rhs : Rhs} {type : RoutineType} {table : PutMap Text Routine}
    (uses : rhs.Uses routines type) (all : ∀ r ∈ routines, table.get r.name = some r) : rhs.Known table type := by
  cases rhs with
  | routine name => exact ⟨_, all _ uses, rfl⟩
  | call name params => exact ⟨_, all _ uses, rfl⟩
  | inline e => trivial

theorem does_stmts {p : Policy} {text : Text} (law : jre.ReadsDecimals) (h : p.WellFormed) (renders : Renders files p text)
    (readable : p.Readable) : ∃ gen : OQGen jre.Double, Steps (Does jre files) {} p.stmts gen ∧ p.Recorded gen := by
  have all := (@get_putAll _ .empty h.routineNames).1
  have known : ∀ q ∈ p.queues, ∀ a, (q.attr a).Known (putAll .empty p.routines) a.type :=
    fun q mem a => Rhs.known_of_uses (h.attrs q mem a).2 all
  have read : ∀ q ∈ p.queues, ∀ a, ∃ s, (q.attr a).statement jre Lib.decimalInt? a.type = some s :=
    fun q mem a => Rhs.exists_statement law (h.attrs q mem a).1 (readable.attrs q mem a).2 _
  have imports : Steps (Does jre files) {} (p.imports.map fun i => .imports i.1) { routines := putAll .empty p.routines } :=
    does_imports (fun i mem => ⟨h.files i mem, readable.files i mem⟩) renders.headers h.routines h.routineNames
      fun _ _ => rfl
  obtain ⟨m, entries, queues⟩ : ∃ m, _ ∧ Steps (Does jre files) { routines := putAll .empty p.routines } _
      { routines := putAll .empty p.routines, queues := m } := does_queues h.queueNames fun _ _ => List.not_mem_nil
  obtain ⟨m', entries', attrs⟩ : ∃ m', _ ∧ Steps (Does jre files) { routines := putAll .empty p.routines, queues := m } _
      { routines := putAll .empty p.routines, queues := m' } := does_attrs read entries known
  have entries' : m'.entries = p.queues.map fun q => (q.name, q.queue jre) := entries'
  have keys : m'.keys = p.queues.map QueueDef.name := by
    rw [Lib.PutMap.keys, entries', List.map_map]
    rfl
  have declared : ∀ n ∈ p.port.queues, (m'.get n).isSome := fun n mem =>
    Option.isSome_iff_exists.2 (Lib.PutMap.mem_keys_iff.1 (keys ▸ h.declared n mem))
  have other : m'.get p.port.name = none := by
    rw [← Option.not_isSome_iff_eq_none, Option.isSome_iff_exists, ← Lib.PutMap.mem_keys_iff, keys]
    exact h.apart
  obtain ⟨queueSelect, select⟩ := Rhs.exists_statement law (h.portAttrs .queueSelect).1 (readable.portAttrs _).2 .queueSelector
  obtain ⟨schedPrio, sched⟩ := Rhs.exists_statement law (h.portAttrs .schedPrio).1 (readable.portAttrs _).2 .schedulingPriority
  have port : Steps (Does jre files) { routines := putAll .empty p.routines, queues := m' } _ _ :=
    does_port select sched declared other fun a => Rhs.known_of_uses (h.portAttrs a).2 all
  exact ⟨_, imports.append (queues.append (attrs.append port)), entries', rfl⟩

end Records

/-! ## The policy that is read -/

section Results

variable {jre : Jre} {files : Text → Option Text} {gen : OQGen jre.Double} {p : Policy} {text : Text}

theorem Rhs.integral_of_statement {rhs : Rhs} {type : RoutineType} {s : Statement jre.Double}
    (read : rhs.statement jre Lib.decimalInt? type = some s) : rhs.integral := by
  cases rhs with
  | routine name => rfl
  | call name params => rfl
  | inline e =>
    obtain ⟨c, read, -⟩ := Option.map_eq_some_iff.1 read
    rw [Rhs.integral, read]
    rfl

theorem QueueDef.statement_queue (q : QueueDef) (a : Attr) :
    (q.queue jre).statement a = (q.attr a).statement jre Lib.decimalInt? a.type := by
  cases a <;> rfl

theorem OQGen.mem_values_iff {q : Queue jre.Double} : q ∈ gen.values ↔ ∃ k, (k, q) ∈ gen.queues.entries := by
  constructor
  · intro mem
    obtain ⟨k, -, found⟩ := List.mem_filterMap.1 mem
    obtain ⟨e, here, rfl⟩ := Option.map_eq_some_iff.1 found
    exact ⟨e.1, List.mem_of_find?_eq_some here⟩
  · rintro ⟨k, mem⟩
    refine List.mem_filterMap.2 ⟨k, (jre.iterate_perm _).mem_iff.2 (List.mem_map_of_mem mem), ?_⟩
    exact Lib.PutMap.get_eq_some_of_mem mem

/-- The recorded policy is well-defined if every statement could be recorded. -/
theorem Policy.Recorded.wellDefined_iff (h : p.WellFormed) (recorded : p.Recorded gen) :
    gen.isWellDefined = .ok () ↔
      (∀ q ∈ p.queues, ∀ a, ∃ s, (q.attr a).statement jre Lib.decimalInt? a.type = some s) ∧
        ∀ a, ∃ s, (p.port.attr a).statement jre Lib.decimalInt? a.type = some s := by
  have queues : (∀ q ∈ gen.values, q.isWellDefined) ↔
      ∀ q ∈ p.queues, ∀ a, ∃ s, (q.attr a).statement jre Lib.decimalInt? a.type = some s := by
    simp only [OQGen.mem_values_iff, recorded.queues, List.mem_map, Prod.mk.injEq, Queue.isWellDefined_iff]
    constructor
    · intro all q mem a
      obtain ⟨s, read⟩ := all (q.queue jre) ⟨q.name, q, mem, rfl, rfl⟩ a
      exact ⟨s, q.statement_queue a ▸ read⟩
    · rintro all _ ⟨_, q, mem, -, rfl⟩ a
      rw [q.statement_queue]
      exact all q mem a
  have port : (p.port.port jre).isWellDefined ↔
      ∀ a, ∃ s, (p.port.attr a).statement jre Lib.decimalInt? a.type = some s := by
    have listed : (p.port.port jre).queues.isEmpty = false := List.isEmpty_eq_false_iff.2 h.listed
    rw [Port.isWellDefined, listed, Bool.not_false, Bool.and_true, Bool.and_eq_true, Option.isSome_iff_exists,
      Option.isSome_iff_exists]
    constructor
    · rintro ⟨select, sched⟩ a
      cases a with
      | queueSelect => exact select
      | schedPrio => exact sched
    · exact fun all => ⟨all .queueSelect, all .schedPrio⟩
  rw [OQGen.isWellDefined_iff, queues, ← port, recorded.port]
  simp [and_comm]

theorem Policy.Readable.accepts (readable : p.Readable) (law : jre.ReadsDecimals) (h : p.WellFormed)
    (renders : Renders files p text) : ∃ gen, Accepts jre files text gen ∧ p.Recorded gen := by
  obtain ⟨gen, steps, recorded⟩ := does_stmts law h renders readable
  have plain := (Policy.readable_iff.1 readable).1
  have lines : Steps (Reads jre files) {} (significant text.lines) gen := by
    rw [renders.lines]
    refine steps.map fun stmt mem before after does => ?_
    exact reads_text law law.cast (h.stmt stmt mem) (plain stmt mem) does.1 does.2
  have queues := fun q mem a => Rhs.exists_statement law (h.attrs q mem a).1 (readable.attrs q mem a).2 a.type
  have port := fun a => Rhs.exists_statement law (h.portAttrs a).1 (readable.portAttrs a).2 a.type
  exact ⟨gen, ⟨parseLines_iff.2 lines, (recorded.wellDefined_iff h).2 ⟨queues, port⟩⟩, recorded⟩

/-- A text of the policy is accepted with the queues and the port of the policy exactly
if the policy is readable. -/
theorem rendering_read_iff (law : jre.ReadsDecimals) (h : p.WellFormed) (renders : Renders files p text) :
    (∃ gen, Accepts jre files text gen ∧ p.Recorded gen) ↔ p.Readable := by
  constructor
  · rintro ⟨gen, accepted, recorded⟩
    have steps := parseLines_iff.1 accepted.parsed
    rw [renders.lines] at steps
    obtain ⟨queues, port⟩ := (recorded.wellDefined_iff h).1 accepted.wellDefined
    refine Policy.readable_iff.2 ⟨fun stmt mem => ?_, fun q mem a => ?_, fun a => ?_⟩
    · obtain ⟨before, after, reads⟩ := steps.exists_of_mem (List.mem_map_of_mem mem)
      exact plain_of_reads (h.stmt stmt mem) reads
    · obtain ⟨s, read⟩ := queues q mem a
      exact Rhs.integral_of_statement read
    · obtain ⟨s, read⟩ := port a
      exact Rhs.integral_of_statement read
  · exact fun readable => readable.accepts law h renders

end Results

/-! ## The sample policy -/

/-- A `double` as the decimal number it is read from. -/
def decimalJre : Jre where
  digit c := if c.isDigit then some (c.toNat - 48) else none
  Double := Text
  parseDouble t := if Lib.isDecimal t then some t else none
  intValue t := Lib.saturate (Lib.wholePart t)
  doubleText t := t
  isUpperCase := Char.isUpper
  toLowerCase := Char.toLower
  iterate keys := keys
  iterate_perm _ := .rfl

theorem decimalJre_readsDecimals : decimalJre.ReadsDecimals where
  digit c h := if_pos h
  double t h := ⟨t, if_pos h⟩
  cast t n h := by
    unfold Lib.decimalInt? at h
    split at h
    · next is =>
      obtain ⟨decimal, -, low, high⟩ := is
      have read : decimalJre.parseDouble t = some t := if_pos decimal
      rw [← h, read]
      show some (Lib.saturate (Lib.wholePart t)) = _
      rw [Lib.saturate, min_eq_left (by omega), max_eq_right low]
    · cases h

/-- The lines of the header. -/
def routinesLines : List Text := [
  "",
  "// Congestion condition",
  "// @oq_cong_func",
  "bool my_congestion_condition(struct oq_queue* queue, int argc, ...);",
  "",
  "// Congestion action",
  "// @oq_cong_act_func",
  "int cong_act(struct oq_queue* queue, struct sk_buff* skb, int argc, ...);",
  "",
  "// Admission priority",
  "// @oq_admn_func",
  "unsigned long my_adm_prio(struct sk_buff* skb, int argc, ...);",
  "",
  "// Processing priority",
  "// @oq_proc_func",
  "unsigned long my_pro_prio(struct sk_buff* skb, int argc, ...);",
  "",
  "// Queue selector during admission",
  "// @oq_qsel_func",
  "int select_admission_queue(struct Qdisc* sch, struct sk_buff* skb, int argc, ...);",
  "",
  "// Scheduling priority",
  "// @oq_schd_func",
  "int my_schd_prio(struct Qdisc* sch, int argc, ...);"].map String.toList

def routinesFile (file : Text) : Option Text :=
  if file = "include/routine/routines.h".toList then some ("\n".toList.intercalate routinesLines) else none

def sampleRoutines : List Routine := [
  ⟨.congestionCondition, "my_congestion_condition".toList⟩,
  ⟨.congestionAction, "cong_act".toList⟩,
  ⟨.admissionPriority, "my_adm_prio".toList⟩,
  ⟨.processingPriority, "my_pro_prio".toList⟩,
  ⟨.queueSelector, "select_admission_queue".toList⟩,
  ⟨.schedulingPriority, "my_schd_prio".toList⟩]

/-- The text of the sample policy. -/
def sampleText : Text := "\n".toList.intercalate <| List.map String.toList [
  "// Define OpenQueue policy for a port",
  "",
  "// Import function definitions",
  "import \"include/routine/routines.h\"",
  "",
  "// Create queues",
  "// Size 128",
  "Queue q1 = Queue(128);",
  "// Size 1024",
  "Queue q2 = Queue(1024);",
  "",
  "// Attributes of q1",
  "q1.congestion = inline\x7bQueue.len == 1024\x7d;",
  "// Drop with 85% probability",
  "q1.congAction = cong_act(0.85);",
  "q1.admPrio = my_adm_prio;",
  "q1.procPrio = my_pro_prio;",
  "",
  "// Attributes of q2",
  "q2.congestion = my_congestion_condition;",
  "q2.congAction = cong_act;",
  "q2.admPrio = my_adm_prio;",
  "q2.procPrio = my_pro_prio;",
  "",
  "// Create port",
  "Port myPort = Port(q1, q2);",
  "",
  "// Define port attributes",
  "myPort.queueSelect = select_admission_queue;",
  "myPort.schedPrio = my_schd_prio;",
  ""]

def sampleAttr (congestion congAction : Rhs) : Attr → Rhs
  | .congestion => congestion
  | .congAction => congAction
  | .admPrio => .routine "my_adm_prio".toList
  | .procPrio => .routine "my_pro_prio".toList

def samplePolicy : Policy where
  imports := [("include/routine/routines.h".toList, sampleRoutines)]
  queues := [
    ⟨"q1".toList, 128, sampleAttr (.inline (.compare .eq (.queue .len) (.num "1024".toList)))
      (.call "cong_act".toList ["0.85".toList])⟩,
    ⟨"q2".toList, 1024, sampleAttr (.routine "my_congestion_condition".toList) (.routine "cong_act".toList)⟩]
  port := ⟨"myPort".toList, ["q1".toList, "q2".toList], fun a => match a with
    | .queueSelect => .routine "select_admission_queue".toList
    | .schedPrio => .routine "my_schd_prio".toList⟩

/-- A blank line, a comment, and a routine under its annotation. -/
theorem Declares.entry {blank comment annotation line : Text} {lines : List Text} {r : Routine} {rs : List Routine}
    (empty : blank.trim = []) (plain : getNextRoutineType comment.trim = .undefined)
    (slashes : annotation.trim.startsWith "//".toList) (type : getNextRoutineType annotation.trim = r.type)
    (is : line.trim = r.prototype) (rest : Declares lines rs) :
    Declares (blank :: comment :: annotation :: line :: lines) (r :: rs) :=
  .skip (fun starts => by rw [empty] at starts; cases starts) (.skip (fun _ => plain)
    (@Declares.routine annotation line [] lines r rs slashes type nofun is rest))

theorem samplePolicy_renders : Renders routinesFile samplePolicy sampleText where
  headers := by
    rw [samplePolicy, List.forall_mem_singleton]
    refine ⟨_, if_pos rfl, ?_⟩
    have lines : Lib.Text.lines ("\n".toList.intercalate routinesLines) = routinesLines := by decide +kernel
    rw [lines]
    refine .entry ?_ ?_ ?_ ?_ ?_ (.entry ?_ ?_ ?_ ?_ ?_ (.entry ?_ ?_ ?_ ?_ ?_ (.entry ?_ ?_ ?_ ?_ ?_
      (.entry ?_ ?_ ?_ ?_ ?_ (.entry ?_ ?_ ?_ ?_ ?_ .nil))))) <;> decide +kernel
  lines := by decide +kernel

theorem samplePolicy_wellFormed : samplePolicy.WellFormed where
  files := by
    rw [samplePolicy, List.forall_mem_singleton]
    exact ⟨⟨"include/routine/routines".toList, rfl⟩, by decide, by rintro c ⟨⟩; decide⟩
  routines := by
    have good : ∀ r ∈ samplePolicy.routines, r.type ≠ .undefined ∧ Lib.isIdentifier r.name := by decide +kernel
    exact fun r mem => ⟨(good r mem).1, (good r mem).2⟩
  routineNames := by decide +kernel
  queueNames := by decide +kernel
  queues := by
    simp only [samplePolicy, List.forall_mem_cons]
    decide +kernel
  attrs := by
    simp only [samplePolicy, List.forall_mem_cons]
    refine ⟨fun a => ?_, fun a => ?_, nofun⟩ <;> cases a <;> decide +kernel
  portName := by decide +kernel
  apart := by decide +kernel
  listed := by decide +kernel
  declared := by decide +kernel
  portAttrs := by
    intro a
    cases a <;> decide +kernel

/-- The sample policy is accepted as it is. -/
theorem sample_policy_read :
    ∃ gen, Accepts decimalJre routinesFile sampleText gen ∧ samplePolicy.Recorded gen := by
  refine (rendering_read_iff decimalJre_readsDecimals samplePolicy_wellFormed samplePolicy_renders).2 ⟨?_, ?_, ?_, ?_⟩
  · decide +kernel
  · decide +kernel
  · simp only [samplePolicy, List.forall_mem_cons]
    refine ⟨fun a => ?_, fun a => ?_, nofun⟩ <;> cases a <;> decide +kernel
  · intro a
    cases a <;> decide +kernel

/-- One queue with this name, and constants for all attributes. -/
def constantPolicy (name : Text) : Policy where
  imports := []
  queues := [⟨name, 8, fun _ => .inline (.operand (.num "0".toList))⟩]
  port := ⟨"port".toList, [name], fun _ => .inline (.operand (.num "0".toList))⟩

def keywordText : Text := "\n".toList.intercalate <| List.map String.toList [
  "Queue Queue1 = Queue(8);",
  "Queue1.congestion = inline\x7b0\x7d;",
  "Queue1.congAction = inline\x7b0\x7d;",
  "Queue1.admPrio = inline\x7b0\x7d;",
  "Queue1.procPrio = inline\x7b0\x7d;",
  "Port port = Port(Queue1);",
  "port.queueSelect = inline\x7b0\x7d;",
  "port.schedPrio = inline\x7b0\x7d;"]

/-- A policy over a queue whose name begins with `Queue` is not accepted: its second line
is taken for a declaration. -/
theorem keyword_name_refused :
    (constantPolicy "Queue1".toList).WellFormed ∧ Renders (fun _ => none) (constantPolicy "Queue1".toList) keywordText ∧
      ∀ gen, ¬ Accepts decimalJre (fun _ => none) keywordText gen := by
  have zero : (Rhs.inline (.operand (.num "0".toList))).WellFormed := by decide
  refine ⟨⟨nofun, nofun, by decide, by decide, by decide, ?_, by decide, by decide, by decide, by decide, ?_⟩,
    ⟨nofun, by decide +kernel⟩, ?_⟩
  · rw [constantPolicy, List.forall_mem_singleton]
    exact fun a => ⟨zero, trivial⟩
  · exact fun a => ⟨zero, trivial⟩
  · intro gen accepted
    have fails : (match parsePolicyFile decimalJre (fun _ => none) keywordText with
        | .ok _ => true
        | .error _ => false) = false := by decide +kernel
    rw [accepted.parsed] at fails
    cases fails

end OpenQueue.Gen
