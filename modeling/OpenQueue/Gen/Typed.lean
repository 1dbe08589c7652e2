import OpenQueue.Gen.Accepted
import OpenQueue.Gen.Inline

/-!
# The statements of an accepted policy

Every statement has passed `validateFunctionAssignment` for its attribute, so it is an
inline expression, or the call of an imported routine of the right type. Every routine
comes from an annotated line of an imported header, and the table of routines only grows.
-/

namespace OpenQueue.Gen

open Lib (Text Jre PutMap)

/-! ## Prototypes -/

theorem isStructParam_iff {param struct : Text} :
    isStructParam param struct ↔ ∃ kind name last, param.trim.split " ".toList = [kind, name, last] ∧
      kind.trim = "struct".toList ∧ name.trim = struct := by
  unfold isStructParam
  constructor
  · intro valid
    split at valid
    · next kind name last pieces =>
      rw [Bool.and_eq_true, decide_eq_true_eq, decide_eq_true_eq] at valid
      exact ⟨kind, name, last, pieces, valid⟩
    · cases valid
  · rintro ⟨kind, name, last, pieces, is, points⟩
    rw [pieces]
    exact Bool.and_eq_true_iff.2 ⟨decide_eq_true is, decide_eq_true points⟩

theorem isArgc_iff {param : Text} :
    isArgc param ↔ ∃ type last, param.trim.split " ".toList = [type, last] ∧ type.trim = "int".toList := by
  unfold isArgc
  constructor
  · intro valid
    split at valid
    · next type last pieces => exact ⟨type, last, pieces, of_decide_eq_true valid⟩
    · cases valid
  · rintro ⟨type, last, pieces, is⟩
    rw [pieces]
    exact decide_eq_true is

/-- The pieces of a parameter list. -/
theorem areParams_iff {structs : List Text} {params : Text} :
    areParams structs params ↔ ∃ ptrs argc dots, params.split ",".toList = ptrs ++ [argc, dots] ∧
      List.Forall₂ (fun ptr struct => isStructParam ptr struct) ptrs structs ∧ isArgc argc ∧
      dots.trim = "...".toList := by
  simp only [areParams, Bool.and_eq_true, decide_eq_true_eq, and_assoc]
  generalize params.split ",".toList = tokens
  constructor
  · rintro ⟨count, leading, last⟩
    obtain ⟨argc, dots, drop⟩ := List.length_eq_two.1 (by rw [List.length_drop]; omega :
      (tokens.drop structs.length).length = 2)
    rw [drop, Bool.and_eq_true, decide_eq_true_eq] at last
    refine ⟨tokens.take structs.length, argc, dots, by rw [← drop, List.take_append_drop], ?_, last⟩
    refine List.forall₂_iff_get.2 ⟨by rw [List.length_take]; omega, fun i inside inside' => ?_⟩
    have inside'' : i < (List.zipWith isStructParam tokens structs).length := by
      rw [List.length_zipWith]
      omega
    have here := List.all_eq_true.1 leading _ (List.getElem_mem inside'')
    simpa using here
  · rintro ⟨ptrs, argc, dots, rfl, pointers, counter, ellipsis⟩
    have same := pointers.length_eq
    refine ⟨by simp [same], ?_, ?_⟩
    · rw [List.all_eq_true]
      intro b mem
      obtain ⟨i, inside, rfl⟩ := List.getElem_of_mem mem
      rw [List.length_zipWith] at inside
      have here := (List.forall₂_iff_get.1 pointers).2 i (by omega) (by omega)
      simpa [List.getElem_append_left (show i < ptrs.length by omega)] using here
    · rw [← same, List.drop_left]
      exact Bool.and_eq_true_iff.2 ⟨counter, decide_eq_true ellipsis⟩

/-- What a validator has seen. -/
theorem validateFunction_iff {sig : Signature} {line : Text} {r : Routine} :
    validateFunction sig line = some r ↔ r.type = sig.type ∧ ∃ typeName rest words params tail,
      line.split "(".toList = [typeName, rest] ∧ typeName.trim.split " ".toList = words ++ [r.name] ∧
      rest.split ")".toList = [params, tail] ∧ words.map Lib.Text.trim = sig.result ∧ areParams sig.structs params := by
  constructor
  · intro valid
    unfold validateFunction at valid
    split at valid
    · next typeName rest halves =>
      simp only at valid
      split at valid
      · next funcName params tail last close =>
        split at valid
        · next found =>
          cases valid
          obtain ⟨words, pieces⟩ := List.getLast?_eq_some_iff.1 last
          rw [pieces, List.dropLast_concat] at found
          exact ⟨rfl, typeName, rest, words, params, tail, halves, pieces, close, found⟩
        · cases valid
      · cases valid
    · cases valid
  · rintro ⟨type, typeName, rest, words, params, tail, halves, pieces, close, found⟩
    unfold validateFunction
    simp only [halves, close, pieces, List.getLast?_concat, List.dropLast_concat]
    rw [if_pos found, ← type]

/-! ## Imported routines -/

/-- The lines of a header have an annotation, and after it, with nothing but blank lines
between, the prototype of a routine of the announced type. -/
structure Annotated (lines : List Text) (r : Routine) : Prop where
  announced : r.type ≠ .undefined
  found : ∃ before comment blanks line after, lines = before ++ comment :: blanks ++ line :: after ∧
    comment.trim.startsWith "//".toList ∧ getNextRoutineType comment.trim = r.type ∧
    (∀ blank ∈ blanks, blank.trim = []) ∧ validateRoutine r.type line.trim = some r

/-- A routine is declared in one of the headers. -/
def Declared (files : Text → Option Text) (r : Routine) : Prop :=
  ∃ fileName text, files fileName = some text ∧ Annotated text.lines r

/-- What the loop of `processImport` has read when it expects a routine of this type. -/
def Announces (read : List Text) (type : RoutineType) : Prop :=
  type ≠ .undefined → ∃ before comment blanks, read = before ++ comment :: blanks ∧
    comment.trim.startsWith "//".toList ∧ getNextRoutineType comment.trim = type ∧
    ∀ blank ∈ blanks, blank.trim = []

theorem validateRoutine_type {type : RoutineType} {line : Text} {r : Routine}
    (valid : validateRoutine type line = some r) : r.type = type := by
  cases type with
  | undefined => cases valid
  | queueSelector => exact (validateFunction_iff.1 valid).1
  | congestionCondition => exact (validateFunction_iff.1 valid).1
  | congestionAction => exact (validateFunction_iff.1 valid).1
  | admissionPriority => exact (validateFunction_iff.1 valid).1
  | processingPriority => exact (validateFunction_iff.1 valid).1
  | schedulingPriority => exact (validateFunction_iff.1 valid).1

/-- A table of routines, each filed under its name. -/
structure Sound (P : Routine → Prop) (routines : PutMap Text Routine) : Prop where
  named : ∀ k r, routines.get k = some r → r.name = k
  holds : ∀ k r, routines.get k = some r → P r

/-- One table has all the routines of another. -/
def Extends (routines routines' : PutMap Text Routine) : Prop :=
  ∀ k r, routines.get k = some r → routines'.get k = some r

theorem Sound.put {P : Routine → Prop} {routines : PutMap Text Routine} {r : Routine} (h : Sound P routines)
    (new : P r) : Sound P (routines.put r.name r) where
  named k r' found := by
    rw [PutMap.get_put] at found
    split at found
    · next same =>
      cases found
      exact same.symm
    · exact h.named k r' found
  holds k r' found := by
    rw [PutMap.get_put] at found
    split at found
    · cases found
      exact new
    · exact h.holds k r' found

theorem extends_put {routines : PutMap Text Routine} {r : Routine} (fresh : routines.get r.name = none) :
    Extends routines (routines.put r.name r) := by
  intro k r' found
  rw [PutMap.get_put]
  split
  · next same =>
    subst same
    cases fresh.symm.trans found
  · exact found

/-- The loop of `processImport` adds routines that the header declares. -/
theorem importLines_spec {P : Routine → Prop} {routines routines' : PutMap Text Routine} {type : RoutineType}
    {lineNumber : Nat} {read lines : List Text} (declared : ∀ r, Annotated (read ++ lines) r → P r)
    (announces : Announces read type) (h : Sound P routines)
    (done : importLines routines type lineNumber lines = .ok routines') :
    Sound P routines' ∧ Extends routines routines' := by
  induction lines generalizing routines type lineNumber read with
  | nil =>
    cases done
    exact ⟨h, fun _ _ found => found⟩
  | cons line lines ih =>
    have next : ∀ r, Annotated ((read ++ [line]) ++ lines) r → P r := by
      rwa [List.append_assoc]
    simp only [importLines] at done
    split at done
    · next comment =>
      refine ih next ?_ h done
      exact fun _ => ⟨read, line, [], rfl, comment, rfl, nofun⟩
    · split at done
      · next skipped =>
        refine ih next ?_ h done
        intro expected
        obtain ⟨before, comment, blanks, rfl, slashes, type, empty⟩ := announces expected
        refine ⟨before, comment, blanks ++ [line], by simp, slashes, type, ?_⟩
        intro blank mem
        rcases List.mem_append.1 mem with mem | mem
        · exact empty blank mem
        · cases List.mem_singleton.1 mem
          simpa [expected] using skipped
      · next expected =>
        split at done
        · cases done
        · next r valid =>
          split at done
          · cases done
          · next fresh =>
            have typed := validateRoutine_type valid
            have known : type ≠ .undefined := fun undefined => expected (by simp [undefined])
            have here : P r := by
              obtain ⟨before, comment, blanks, rfl, slashes, announced, empty⟩ := announces known
              refine declared r ⟨by rwa [typed], before, comment, blanks, line, lines, rfl, slashes, ?_, empty, ?_⟩
              · rw [announced, typed]
              · rwa [typed]
            obtain ⟨sound, grown⟩ := ih next nofun (h.put here) done
            exact ⟨sound, fun k r' found => grown k r' (extends_put fresh k r' found)⟩

theorem processImport_spec {files : Text → Option Text} {routines routines' : PutMap Text Routine} {fileName : Text}
    (h : Sound (Declared files) routines) (done : processImport files routines fileName = .ok routines') :
    Sound (Declared files) routines' ∧ Extends routines routines' := by
  unfold processImport at done
  split at done
  · split at done
    · split at done
      · cases done
      · next text found =>
        have declared : ∀ r, Annotated ([] ++ text.lines) r → Declared files r :=
          fun r here => ⟨fileName, text, found, here⟩
        exact importLines_spec declared nofun h done
    · cases done
  · cases done

/-! ## Assigned statements -/

/-- What `validateFunctionAssignment` lets through. -/
inductive Recorded (jre : Jre) (routines : PutMap Text Routine) (type : RoutineType) :
    Statement jre.Double → Prop where
  | inline (e : Inline (BitVec 32)) : Recorded jre routines type (.inline e.cText type)
  | call {r : Routine} {params : Option (List jre.Double)} (found : routines.get r.name = some r)
      (typed : r.type = type) (given : params ≠ some []) :
      Recorded jre routines type (.routineCall r.name type params)

section Statements

variable {jre : Jre} {files : Text → Option Text} {gen gen' : OQGen jre.Double} {type : RoutineType}
  {s : Statement jre.Double}

/-- A statement is assigned to an attribute of this type. -/
inductive OQGen.Assigned (gen : OQGen jre.Double) : RoutineType → Statement jre.Double → Prop where
  | queue {k : Text} {q : Queue jre.Double} {a : Attr} {s : Statement jre.Double} (found : gen.queues.get k = some q)
      (here : q.statement a = some s) : Assigned gen a.type s
  | queueSelect {port : Port jre.Double} {s : Statement jre.Double} (found : gen.port = some port)
      (here : port.queueSelect = some s) : Assigned gen .queueSelector s
  | schedPrio {port : Port jre.Double} {s : Statement jre.Double} (found : gen.port = some port)
      (here : port.schedPrio = some s) : Assigned gen .schedulingPriority s

theorem OQGen.assigned_queueSelector (h : gen.Assigned .queueSelector s) :
    ∃ port, gen.port = some port ∧ port.queueSelect = some s := by
  generalize eq : RoutineType.queueSelector = type at h
  cases h with
  | @queue _ _ a _ found here => cases a <;> cases eq
  | queueSelect found here => exact ⟨_, found, here⟩
  | schedPrio found here => cases eq

theorem OQGen.assigned_schedulingPriority (h : gen.Assigned .schedulingPriority s) :
    ∃ port, gen.port = some port ∧ port.schedPrio = some s := by
  generalize eq : RoutineType.schedulingPriority = type at h
  cases h with
  | @queue _ _ a _ found here => cases a <;> cases eq
  | queueSelect found here => cases eq
  | schedPrio found here => exact ⟨_, found, here⟩

/-- The statements of a policy, each with the type of its attribute. -/
def OQGen.statements (gen : OQGen jre.Double) : List (RoutineType × Statement jre.Double) :=
  (gen.queues.entries.flatMap fun e => [Attr.congestion, .congAction, .admPrio, .procPrio].filterMap fun a =>
    (e.2.statement a).map (a.type, ·)) ++
  gen.port.toList.flatMap fun port =>
    port.queueSelect.toList.map (.queueSelector, ·) ++ port.schedPrio.toList.map (.schedulingPriority, ·)

theorem validateFunctionAssignment_recorded {P : Routine → Prop} {routines : PutMap Text Routine} {rhs : Text}
    (h : Sound P routines) (valid : validateFunctionAssignment jre routines rhs type = .ok (some s)) :
    Recorded jre routines type s := by
  simp only [validateFunctionAssignment] at valid
  split at valid
  · cases inline : validateInline jre rhs with
    | error e =>
      rw [inline] at valid
      cases valid
    | ok t =>
      cases t with
      | none =>
        rw [inline] at valid
        cases valid
      | some t =>
        rw [inline] at valid
        cases valid
        obtain ⟨-, -, e, -, -, -, rfl⟩ := validateInline_eq_some_iff.1 inline
        exact .inline e
  · split at valid
    · cases valid
    · next r found =>
      have name := h.named _ _ found
      rw [← name] at found valid
      split at valid
      · cases valid
      · next typed =>
        have typed := Decidable.not_not.1 typed
        split at valid
        · split at valid
          · cases valid
          · split at valid
            · cases valid
              refine .call found typed ?_
              rintro ⟨⟩
            · next nonempty =>
              obtain ⟨vals, read, rfl⟩ := Option.map_eq_some_iff.1 (Except.ok.inj valid)
              refine .call found typed ?_
              rintro ⟨⟩
              exact absurd (Lib.eq_nil_of_mapM read) nonempty
        · cases valid
          refine .call found typed ?_
          rintro ⟨⟩

theorem Recorded.mono {routines routines' : PutMap Text Routine} (grown : Extends routines routines')
    (h : Recorded jre routines type s) : Recorded jre routines' type s := by
  cases h with
  | inline e => exact .inline e
  | call found typed given => exact .call (grown _ _ found) typed given

theorem Queue.statement_assign {q : Queue jre.Double} {a b : Attr} :
    (q.assign s b).statement a = if a = b then some s else q.statement a := by
  cases a <;> cases b <;> rfl

/-- A new queue has no statements. -/
theorem validateQueueDeclaration_statement {line : Text} {q : Queue jre.Double}
    (valid : validateQueueDeclaration jre line = some q) (a : Attr) : q.statement a = none := by
  obtain ⟨⟨name, args⟩, -, valid⟩ := Option.bind_eq_some_iff.1 valid
  obtain ⟨size, -, valid⟩ := Option.bind_eq_some_iff.1 valid
  cases valid
  cases a <;> rfl

/-- A new port has no statements. -/
theorem validatePortDeclaration_statement {line : Text} {queues : PutMap Text (Queue jre.Double)}
    {port : Port jre.Double} (valid : validatePortDeclaration queues line = some port) :
    port.queueSelect = none ∧ port.schedPrio = none := by
  obtain ⟨⟨name, args⟩, -, valid⟩ := Option.bind_eq_some_iff.1 valid
  simp only at valid
  split at valid
  · cases valid
    exact ⟨rfl, rfl⟩
  · cases valid

/-- A statement was there before the line, or has been validated by it. -/
theorem Edit.assigned (edit : Edit jre files gen gen') (here : gen'.Assigned type s) :
    gen.Assigned type s ∨ ∃ rhs, validateFunctionAssignment jre gen.routines rhs type = .ok (some s) := by
  cases edit with
  | skip => exact .inl here
  | imports =>
    left
    cases here with
    | queue found here => exact .queue found here
    | queueSelect found here => exact .queueSelect found here
    | schedPrio found here => exact .schedPrio found here
  | queue valid =>
    left
    cases here with
    | queue found here =>
      rw [PutMap.get_put] at found
      split at found
      · cases found
        rw [validateQueueDeclaration_statement valid] at here
        cases here
      · exact .queue found here
    | queueSelect found here => exact .queueSelect found here
    | schedPrio found here => exact .schedPrio found here
  | port valid =>
    left
    cases here with
    | queue found here => exact .queue found here
    | queueSelect found here =>
      cases found
      cases (validatePortDeclaration_statement valid).1.symm.trans here
    | schedPrio found here =>
      cases found
      cases (validatePortDeclaration_statement valid).2.symm.trans here
  | queueAttr was valid =>
    cases here with
    | queue found here =>
      rw [PutMap.get_put] at found
      split at found
      · cases found
        rw [Queue.statement_assign] at here
        split at here
        · next same =>
          cases here
          subst same
          exact .inr ⟨_, valid⟩
        · exact .inl (.queue was here)
      · exact .inl (.queue found here)
    | queueSelect found here => exact .inl (.queueSelect found here)
    | schedPrio found here => exact .inl (.schedPrio found here)
  | queueSelect was valid =>
    cases here with
    | queue found here => exact .inl (.queue found here)
    | queueSelect found here =>
      cases found
      cases here
      exact .inr ⟨_, valid⟩
    | schedPrio found here =>
      cases found
      exact .inl (.schedPrio was here)
  | schedPrio was valid =>
    cases here with
    | queue found here => exact .inl (.queue found here)
    | queueSelect found here =>
      cases found
      exact .inl (.queueSelect was here)
    | schedPrio found here =>
      cases found
      cases here
      exact .inr ⟨_, valid⟩

/-- The statements and the routines of a policy. -/
structure OQGen.Typed (files : Text → Option Text) (gen : OQGen jre.Double) : Prop where
  routines : Sound (Declared files) gen.routines
  statements : ∀ type s, gen.Assigned type s → Recorded jre gen.routines type s

theorem Edit.routines (edit : Edit jre files gen gen') (h : Sound (Declared files) gen.routines) :
    Sound (Declared files) gen'.routines ∧ Extends gen.routines gen'.routines := by
  cases edit with
  | imports valid => exact processImport_spec h valid
  | _ => exact ⟨h, fun _ _ found => found⟩

theorem OQGen.Typed.edit (edit : Edit jre files gen gen') (h : gen.Typed files) : gen'.Typed files := by
  obtain ⟨sound, grown⟩ := edit.routines h.routines
  refine ⟨sound, ?_⟩
  intro type s here
  rcases edit.assigned here with before | ⟨rhs, valid⟩
  · exact (h.statements type s before).mono grown
  · exact (validateFunctionAssignment_recorded h.routines valid).mono grown

theorem Accepts.typed {text : Text} (accepted : Accepts jre files text gen) : gen.Typed files := by
  refine parseLines_invariant ⟨⟨?_, ?_⟩, ?_⟩ (fun _ _ edit h => h.edit edit) accepted.parsed
  · intro k r found
    cases found
  · intro k r found
    cases found
  · rintro type s (⟨found, -⟩ | ⟨found, -⟩ | ⟨found, -⟩) <;> cases found

end Statements

end OpenQueue.Gen
