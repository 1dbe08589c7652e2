import OpenQueue.Gen.Dispatch
import OpenQueue.Lib.Moves
import OpenQueue.Spec.Generated

/-!
# Exceptions of the generator

OQGen is to end by reporting an error or by writing the module, whatever the policy and
the imported headers contain. It does, except for an assignment with a closing brace
or parenthesis before the first opening one: `substring` is then asked for a text of
negative length. Every other index, array access and reference is safe, those of
`generateCode` because `isWellDefined` came before.
-/

namespace OpenQueue.Gen

open Lib (Text Jre PutMap ErrorsIn)
open Lib.Text

/-! ## Clean ends -/

/-- `showError` was called before `false` was returned. -/
def Failure.Reported : Failure → Prop
  | .errors messages => messages ≠ []
  | .thrown _ => False

/-- There is a result, or an error was reported. -/
abbrev Clean {α : Type} : Except Failure α → Prop := ErrorsIn Failure.Reported

theorem clean_fail {α : Type} (text line : Text) (lineNumber : Nat) :
    Clean (fail text line lineNumber : Except Failure α) :=
  List.cons_ne_nil _ _

theorem clean_bind {α β : Type} {x : Except Failure α} {f : α → Except Failure β} :
    Clean (x >>= f) ↔ Clean x ∧ ∀ a, x = .ok a → Clean (f a) :=
  ErrorsIn.bind_iff

/-! ## Statements -/

/-- The first `closing` stands before the first `opening`. -/
def Inverted (opening closing : Char) (s : Text) : Prop :=
  ∃ first last, s.indexOf opening = some first ∧ s.indexOf closing = some last ∧ last < first

/-- An inline statement with its braces, or a call of a routine of the type with its
parentheses, the wrong way round. -/
inductive Inverts (routines : PutMap Text Routine) (type : RoutineType) (rhs : Text) : Prop where
  | inline (starts : rhs.startsWith "inline".toList) (inverted : Inverted '\x7b' '\x7d' rhs)
  | call {routine : Routine} (other : rhs.startsWith "inline".toList = false)
      (known : routines.get (rhs.takeWhile fun c => c ≠ '(') = some routine) (typed : routine.type = type)
      (inverted : Inverted '(' ')' rhs)

/-- `substring` between two marks throws if they are the wrong way round. -/
theorem substring_isNone_iff {s : Text} {opening closing : Char} {first last : Nat} (differ : opening ≠ closing)
    (here : s.indexOf opening = some first) (there : s.indexOf closing = some last) :
    s.substring (first + 1) last = none ↔ Inverted opening closing s := by
  obtain ⟨inside, is, -⟩ := List.findIdx?_eq_some_iff_getElem.1 here
  obtain ⟨inside', is', -⟩ := List.findIdx?_eq_some_iff_getElem.1 there
  have apart : first ≠ last := by
    rintro rfl
    exact differ ((of_decide_eq_true is).symm.trans (of_decide_eq_true is'))
  have inverted : Inverted opening closing s ↔ last < first := by
    simp only [Inverted, here, there, Option.some.injEq, exists_eq_left', exists_and_left]
  rw [inverted, substring, ite_eq_right_iff]
  refine ⟨fun throws => ?_, fun before bounds => by omega⟩
  by_contra
  cases throws ⟨by omega, by omega⟩

section Statements

variable {jre : Jre} {routines : PutMap Text Routine} {rhs : Text} {type : RoutineType}

theorem validateInline_clean_iff (starts : rhs.startsWith "inline".toList) :
    Clean (validateInline jre rhs) ↔ ¬ Inverted '\x7b' '\x7d' rhs := by
  rw [validateInline, if_pos starts]
  split
  · next first last here there =>
    rw [← substring_isNone_iff (by decide) here there]
    split
    · next throws => exact iff_of_false id (not_not.2 throws)
    · next body found => exact iff_of_true trivial (by rw [found]; nofun)
  · next absent =>
    refine iff_of_true trivial ?_
    rintro ⟨first, last, here, there, -⟩
    exact absent first last here there

theorem validateFunctionAssignment_clean_iff :
    Clean (validateFunctionAssignment jre routines rhs type) ↔ ¬ Inverts routines type rhs := by
  unfold validateFunctionAssignment
  split
  · next starts =>
    rw [clean_bind, validateInline_clean_iff starts]
    constructor
    · rintro ⟨ordered, -⟩ (⟨-, inverted⟩ | ⟨other, -⟩)
      · exact ordered inverted
      · exact Bool.false_ne_true (other.symm.trans starts)
    · exact fun ordered => ⟨fun inverted => ordered (.inline starts inverted), fun _ _ => trivial⟩
  · next other =>
    have only : ∀ {P : Prop}, (∀ routine, routines.get (rhs.takeWhile fun c => c ≠ '(') = some routine →
        routine.type = type → Inverted '(' ')' rhs → P) → Inverts routines type rhs → P := by
      rintro P step (⟨starts, -⟩ | ⟨-, known, typed, inverted⟩)
      · exact absurd starts other
      · exact step _ known typed inverted
    dsimp only
    split
    · next unknown =>
      refine iff_of_true trivial (only fun routine known _ _ => ?_)
      cases unknown.symm.trans known
    · next routine known =>
      split
      · next mistyped =>
        refine iff_of_true trivial (only fun routine' known' typed _ => ?_)
        cases known.symm.trans known'
        exact mistyped typed
      · next typed =>
        split
        · next first last here there =>
          split
          · next throws =>
            refine iff_of_false id (not_not.2 ?_)
            exact .call (Bool.eq_false_iff.2 other) known (not_not.1 typed)
              ((substring_isNone_iff (by decide) here there).1 throws)
          · next params found =>
            refine iff_of_true ?_ (only fun _ _ _ inverted => ?_)
            · split <;> trivial
            · cases found.symm.trans ((substring_isNone_iff (by decide) here there).2 inverted)
        · next absent =>
          refine iff_of_true trivial (only fun _ _ _ inverted => ?_)
          obtain ⟨first, last, here, there, -⟩ := inverted
          exact absent first last here there

end Statements

/-! ## Lines -/

/-- What kind of routine an assignment asks for. -/
inductive Assignable {δ : Type} (gen : OQGen δ) (objName attr : Text) : RoutineType → Prop where
  | queue {queue : Queue δ} {a : Attr} (found : gen.queues.get objName = some queue) (known : attr = a.text) :
      Assignable gen objName attr a.type
  | port {port : Port δ} {a : PortAttr} (other : gen.queues.get objName = none) (found : gen.port = some port)
      (name : port.name = objName) (known : attr = a.text) : Assignable gen objName attr a.type

/-- The line assigns, to an attribute of a queue or of the port, a statement with its marks
the wrong way round. -/
inductive AssignsInverted {δ : Type} (gen : OQGen δ) (line : Text) : Prop where
  | intro {lhs rhs objName attr : Text} {type : RoutineType} (halves : line.split " = ".toList = [lhs, rhs])
      (names : lhs.trim.split ".".toList = [objName, attr]) (asked : Assignable gen objName attr type)
      (inverts : Inverts gen.routines type (rhs.trim.replace ';' ' ').trim)

/-- A line at which reading throws. -/
structure Breaks {δ : Type} (gen : OQGen δ) (line : Text) : Prop where
  ends : line.getLast? = some ';'
  comment : line.startsWith "//".toList = false
  other : ∀ word ∈ ["import".toList, "Queue".toList, "Port".toList], line.startsWith word = false
  assigns : AssignsInverted gen line

section Lines

variable {jre : Jre} {files : Text → Option Text} {gen : OQGen jre.Double} {line : Text} {lineNumber : Nat}

/-- The attributes of a queue are those of `queueAttr?`. -/
theorem assignable_queue_iff {objName attr : Text} {type : RoutineType} {queue : Queue jre.Double}
    (found : gen.queues.get objName = some queue) :
    Assignable gen objName attr type ↔ ∃ a, queueAttr? attr = some a ∧ a.type = type := by
  constructor
  · rintro (⟨-, known⟩ | ⟨other, -⟩)
    · exact ⟨_, queueAttr?_eq_some_iff.2 known, rfl⟩
    · cases found.symm.trans other
  · rintro ⟨a, known, rfl⟩
    exact .queue found (queueAttr?_eq_some_iff.1 known)

theorem assignable_port_iff {objName attr : Text} {type : RoutineType} (other : gen.queues.get objName = none) :
    Assignable gen objName attr type ↔
      ∃ port a, gen.port = some port ∧ port.name = objName ∧ attr = PortAttr.text a ∧ a.type = type := by
  constructor
  · rintro (⟨found, -⟩ | ⟨-, found, name, known⟩)
    · cases other.symm.trans found
    · exact ⟨_, _, found, name, known, rfl⟩
  · rintro ⟨port, a, found, name, known, rfl⟩
    exact .port other found name known

theorem assignable_port_known {objName attr : Text} {port : Port jre.Double} {a : PortAttr}
    (other : gen.queues.get objName = none) (found : gen.port = some port) (name : port.name = objName)
    (known : attr = a.text) (type : RoutineType) : Assignable gen objName attr type ↔ type = a.type := by
  rw [assignable_port_iff other]
  constructor
  · rintro ⟨-, a', -, -, known', rfl⟩
    rw [known] at known'
    cases a <;> cases a' <;> first | rfl | exact absurd known' (by decide)
  · rintro rfl
    exact ⟨port, a, found, name, known, rfl⟩

section Assignment

variable {lhs rhs objName attr : Text} (halves : line.split " = ".toList = [lhs, rhs])
  (names : lhs.trim.split ".".toList = [objName, attr])

include halves names

theorem assignsInverted_iff : AssignsInverted gen line ↔
    ∃ type, Assignable gen objName attr type ∧ Inverts gen.routines type (rhs.trim.replace ';' ' ').trim := by
  constructor
  · rintro ⟨halves', names', asked, inverts⟩
    cases halves.symm.trans halves'
    cases names.symm.trans names'
    exact ⟨_, asked, inverts⟩
  · rintro ⟨type, asked, inverts⟩
    exact ⟨halves, names, asked, inverts⟩

/-- An assignment that asks for no routine is reported. -/
theorem unasked_clean_iff {α : Type} {text : Text} (unasked : ∀ type, ¬ Assignable gen objName attr type) :
    Clean (fail text line lineNumber : Except Failure α) ↔ ¬ AssignsInverted gen line := by
  refine iff_of_true (clean_fail text line lineNumber) ?_
  rw [assignsInverted_iff halves names]
  exact fun ⟨type, asked, _⟩ => unasked type asked

/-- One that asks for a routine is as clean as the check of its statement. -/
theorem asked_clean_iff {α : Type} {text : Text} {type : RoutineType} {f : Statement jre.Double → α}
    (asked : ∀ type', Assignable gen objName attr type' ↔ type' = type) :
    Clean (validateFunctionAssignment jre gen.routines (rhs.trim.replace ';' ' ').trim type >>= fun v =>
      match v with
      | none => fail text line lineNumber
      | some s => pure (f s)) ↔ ¬ AssignsInverted gen line := by
  have check : Clean (validateFunctionAssignment jre gen.routines (rhs.trim.replace ';' ' ').trim type >>= fun v =>
      match v with
      | none => fail text line lineNumber
      | some s => pure (f s)) ↔
      Clean (validateFunctionAssignment jre gen.routines (rhs.trim.replace ';' ' ').trim type) := by
    rw [clean_bind, and_iff_left_iff_imp]
    intro _ v _
    cases v with
    | none => exact clean_fail text line lineNumber
    | some s => trivial
  rw [check, validateFunctionAssignment_clean_iff, assignsInverted_iff halves names]
  simp only [asked, exists_eq_left]

end Assignment

theorem parseAssignment_clean_iff : Clean (parseAssignment jre gen line lineNumber) ↔ ¬ AssignsInverted gen line := by
  unfold parseAssignment
  dsimp only
  split
  · next lhs rhs halves =>
    split
    · next objName attr names =>
      split
      · next queue found =>
        split
        · next unknown =>
          refine unasked_clean_iff halves names fun type asked => ?_
          obtain ⟨a, known, -⟩ := (assignable_queue_iff found).1 asked
          cases unknown.symm.trans known
        · next a known =>
          refine asked_clean_iff halves names fun type => ?_
          simp only [assignable_queue_iff found, known, Option.some.injEq, exists_eq_left', eq_comm]
      · next other =>
        split
        · next absent =>
          refine unasked_clean_iff halves names fun type asked => ?_
          obtain ⟨port, -, found, -⟩ := (assignable_port_iff other).1 asked
          cases absent.symm.trans found
        · next port found =>
          split
          · next differs =>
            refine unasked_clean_iff halves names fun type asked => ?_
            obtain ⟨port', -, found', name, -⟩ := (assignable_port_iff other).1 asked
            cases found.symm.trans found'
            exact differs name
          · next name =>
            have name := not_not.1 name
            split
            · next known =>
              exact asked_clean_iff halves names (assignable_port_known (a := .queueSelect) other found name known)
            · next notSelect =>
              split
              · next known =>
                exact asked_clean_iff halves names (assignable_port_known (a := .schedPrio) other found name known)
              · next notPrio =>
                refine unasked_clean_iff halves names fun type asked => ?_
                obtain ⟨-, a, -, -, known, -⟩ := (assignable_port_iff other).1 asked
                cases a with
                | queueSelect => exact notSelect known
                | schedPrio => exact notPrio known
    · next shape =>
      refine iff_of_true (clean_fail _ line lineNumber) ?_
      rintro ⟨halves', names, -⟩
      cases halves.symm.trans halves'
      exact shape _ _ names
  · next shape =>
    refine iff_of_true (clean_fail _ line lineNumber) ?_
    rintro ⟨halves, -⟩
    exact shape _ _ halves

theorem parseLine_clean_iff : Clean (parseLine jre files gen line lineNumber) ↔ ¬ Breaks gen line.trim := by
  unfold parseLine
  dsimp only
  split
  · next nothing =>
    refine iff_of_true trivial fun breaks => ?_
    rcases Bool.or_eq_true_iff.1 nothing with comment | empty
    · exact Bool.false_ne_true (breaks.comment.symm.trans comment)
    · have ends := breaks.ends
      rw [List.isEmpty_iff.1 empty] at ends
      cases ends
  · next something =>
    have comment : line.trim.startsWith "//".toList = false := by
      rw [Bool.or_eq_true, not_or] at something
      exact Bool.eq_false_iff.2 something.1
    split
    · next starts =>
      refine iff_of_true ?_ fun breaks => Bool.false_ne_true ((breaks.other _ (by decide)).symm.trans starts)
      split
      · split
        · split
          · trivial
          · exact List.append_ne_nil_of_right_ne_nil _ (List.cons_ne_nil _ _)
        · exact clean_fail _ line.trim lineNumber
      · exact clean_fail _ line.trim lineNumber
    · next imports =>
      split
      · next ends => exact iff_of_true (clean_fail _ line.trim lineNumber) fun breaks => ends breaks.ends
      · next ends =>
        split
        · next starts =>
          refine iff_of_true ?_ fun breaks => Bool.false_ne_true ((breaks.other _ (by decide)).symm.trans starts)
          split
          · exact clean_fail _ line.trim lineNumber
          · trivial
        · next queue =>
          split
          · next starts =>
            refine iff_of_true ?_ fun breaks => Bool.false_ne_true ((breaks.other _ (by decide)).symm.trans starts)
            split
            · exact clean_fail _ line.trim lineNumber
            · trivial
          · next port =>
            rw [parseAssignment_clean_iff, not_iff_not]
            refine ⟨fun assigns => ⟨not_not.1 ends, comment, ?_, assigns⟩, Breaks.assigns⟩
            rw [List.forall_mem_cons, List.forall_mem_cons, List.forall_mem_singleton]
            exact ⟨Bool.eq_false_iff.2 imports, Bool.eq_false_iff.2 queue, Bool.eq_false_iff.2 port⟩

/-- Reading is clean if it is at the first line, and at the lines after it. -/
theorem parseLines_clean_cons {lines : List Text} : Clean (parseLines jre files gen lineNumber (line :: lines)) ↔
    ¬ Breaks gen line.trim ∧ ∀ gen', parseLine jre files gen line (lineNumber + 1) = .ok gen' →
      Clean (parseLines jre files gen' (lineNumber + 1) lines) := by
  have same : parseLines jre files gen lineNumber (line :: lines) =
      parseLine jre files gen line (lineNumber + 1) >>= fun gen' =>
        parseLines jre files gen' (lineNumber + 1) lines := by
    rw [parseLines]
    cases parseLine jre files gen line (lineNumber + 1) <;> rfl
  rw [same, clean_bind, parseLine_clean_iff]

theorem parseLines_clean_iff {lines : List Text} : Clean (parseLines jre files gen lineNumber lines) ↔
    ∀ before line rest gen', lines = before ++ line :: rest →
      parseLines jre files gen lineNumber before = .ok gen' → ¬ Breaks gen' line.trim := by
  induction lines generalizing gen lineNumber with
  | nil => exact iff_of_true trivial fun before line rest gen' cut => absurd cut (by simp)
  | cons first lines ih =>
    rw [parseLines_clean_cons]
    simp only [ih]
    constructor
    · rintro ⟨here, later⟩ before line rest gen' cut parsed
      cases before with
      | nil =>
        cases cut
        cases parsed
        exact here
      | cons _ before =>
        cases cut
        rw [parseLines] at parsed
        split at parsed
        · cases parsed
        · next mid read => exact later mid read before line rest gen' rfl parsed
    · intro clean
      refine ⟨clean [] first lines gen rfl rfl, fun mid read before line rest gen' cut parsed => ?_⟩
      refine clean (first :: before) line rest gen' (congrArg (first :: ·) cut) ?_
      rw [parseLines, read]
      exact parsed

end Lines

/-! ## The three stages -/

section Stages

variable {jre : Jre} {files : Text → Option Text} {gen : OQGen jre.Double}

theorem generateCode_clean (defined : gen.isWellDefined = .ok ()) : Clean gen.generateCode := by
  obtain ⟨port, code, -, generated⟩ := OQGen.exists_generateModule defined
  rw [OQGen.generateCode, generated]
  trivial

/-- OQGen ends by reporting an error or by generating the module exactly if no line of the
policy, in the state in which reading comes to it, assigns a statement with its marks the
wrong way round. -/
theorem oqGen_clean_iff (text : Text) : Clean (oqGen jre files text) ↔
    ∀ before line rest gen, text.lines = before ++ line :: rest → parseLines jre files {} 0 before = .ok gen →
      ¬ Breaks gen line.trim := by
  rw [oqGen, clean_bind, parsePolicyFile, parseLines_clean_iff, and_iff_left_iff_imp]
  intro _ gen _
  split
  · exact List.cons_ne_nil _ _
  · next defined => exact generateCode_clean defined

/-- A queue whose congestion condition is `rhs`. -/
def congestedWhen (rhs : Text) : Text :=
  "Queue q = Queue(1);\nq.congestion = ".toList ++ rhs ++ ";\n".toList

/-- A header that declares a routine `a)b`. -/
def crookedHeader : Text := "// @oq_cong_func\nbool a)b(struct oq_queue* q, int argc, ...);\n".toList

/-- Braces, and parentheses once a header has declared a name with one, end in an
exception that nothing catches. -/
theorem misplaced_marks_throw :
    oqGen smallJre (fun _ => none) (congestedWhen "inline\x7d0\x7b".toList) =
      .error (.thrown "StringIndexOutOfBoundsException".toList) ∧
    oqGen smallJre (fun _ => some crookedHeader) ("import \"r.h\"\n".toList ++ congestedWhen "a)b(1)".toList) =
      .error (.thrown "StringIndexOutOfBoundsException".toList) ∧
    ¬ Clean (oqGen smallJre (fun _ => none) (congestedWhen "inline\x7d0\x7b".toList)) := by
  have braces : oqGen smallJre (fun _ => none) (congestedWhen "inline\x7d0\x7b".toList) =
      .error (.thrown "StringIndexOutOfBoundsException".toList) := by decide +kernel
  refine ⟨braces, by decide +kernel, ?_⟩
  rw [braces]
  exact id

end Stages

end OpenQueue.Gen
