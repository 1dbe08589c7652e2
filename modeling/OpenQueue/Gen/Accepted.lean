import OpenQueue.Gen.Parser
import OpenQueue.Lib.Splitting

/-!
# What an accepted policy is

`Edit` has one constructor for each way in which a line of a policy file changes what
has been read, and `parseLine` does nothing else. `parseLines_invariant` carries a
property through the file, and gives that every queue is filed under its own name and
that the port lists declared queues only.
-/

namespace OpenQueue.Gen

open Lib (Text Jre PutMap)
open Lib.Text (startsWith startsWith_iff)

/-! ## Attributes -/

def Attr.text : Attr → Text
  | .congestion => "congestion".toList
  | .congAction => "congAction".toList
  | .admPrio => "admPrio".toList
  | .procPrio => "procPrio".toList

/-- The two attributes of a port. -/
inductive PortAttr where
  | queueSelect
  | schedPrio
  deriving DecidableEq

def PortAttr.text : PortAttr → Text
  | .queueSelect => "queueSelect".toList
  | .schedPrio => "schedPrio".toList

def PortAttr.type : PortAttr → RoutineType
  | .queueSelect => .queueSelector
  | .schedPrio => .schedulingPriority

/-- `setQueueSelect` and `setSchedPrio`. -/
def Port.assign {δ : Type} (p : Port δ) (s : Statement δ) : PortAttr → Port δ
  | .queueSelect => { p with queueSelect := some s }
  | .schedPrio => { p with schedPrio := some s }

theorem queueAttr?_eq_some_iff {t : Text} {a : Attr} : queueAttr? t = some a ↔ t = a.text := by
  constructor
  · unfold queueAttr?
    intro found
    split at found
    · next is =>
      cases found
      exact is
    · split at found
      · next is =>
        cases found
        exact is
      · split at found
        · next is =>
          cases found
          exact is
        · split at found
          · next is =>
            cases found
            exact is
          · cases found
  · rintro rfl
    cases a <;> decide

/-! ## The lines of a policy file -/

section Lines

variable {jre : Jre} {files : Text → Option Text}

/-- What an assignment does. -/
inductive Assigns (jre : Jre) (gen : OQGen jre.Double) (objName attr rhs : Text) : OQGen jre.Double → Prop where
  | queue {queue : Queue jre.Double} {a : Attr} {s : Statement jre.Double}
      (found : gen.queues.get objName = some queue) (known : attr = a.text)
      (valid : validateFunctionAssignment jre gen.routines rhs a.type = .ok (some s)) :
      Assigns jre gen objName attr rhs { gen with queues := gen.queues.put objName (queue.assign s a) }
  | port {port : Port jre.Double} {a : PortAttr} {s : Statement jre.Double} (other : gen.queues.get objName = none)
      (found : gen.port = some port) (name : port.name = objName) (known : attr = a.text)
      (valid : validateFunctionAssignment jre gen.routines rhs a.type = .ok (some s)) :
      Assigns jre gen objName attr rhs { gen with port := some (port.assign s a) }

/-- What a line does, without the blanks around it. -/
inductive Reads (jre : Jre) (files : Text → Option Text) (gen : OQGen jre.Double) (line : Text) : OQGen jre.Double → Prop
    where
  | skip (nothing : line.startsWith "//".toList || line.isEmpty) : Reads jre files gen line gen
  | imports {word fileName : Text} {routines : PutMap Text Routine} (starts : line.startsWith "import".toList)
      (pieces : line.split "\"".toList = [word, fileName]) (is : word.trim = "import".toList)
      (valid : processImport files gen.routines fileName.trim = .ok routines) :
      Reads jre files gen line { gen with routines := routines }
  | queue {queue : Queue jre.Double} (ends : line.getLast? = some ';') (starts : line.startsWith "Queue".toList)
      (valid : validateQueueDeclaration jre line = some queue) :
      Reads jre files gen line { gen with queues := gen.queues.put queue.name queue }
  | port {port : Port jre.Double} (ends : line.getLast? = some ';') (starts : line.startsWith "Port".toList)
      (valid : validatePortDeclaration gen.queues line = some port) :
      Reads jre files gen line { gen with port := some port }
  | assign {lhs rhs objName attr : Text} {gen' : OQGen jre.Double} (ends : line.getLast? = some ';')
      (comment : line.startsWith "//".toList = false)
      (other : ∀ word ∈ ["import".toList, "Queue".toList, "Port".toList], line.startsWith word = false)
      (halves : line.split " = ".toList = [lhs, rhs]) (names : lhs.trim.split ".".toList = [objName, attr])
      (assigns : Assigns jre gen objName attr (rhs.trim.replace ';' ' ').trim gen') : Reads jre files gen line gen'

/-- What one line does. -/
inductive Edit (jre : Jre) (files : Text → Option Text) (gen : OQGen jre.Double) : OQGen jre.Double → Prop where
  | skip : Edit jre files gen gen
  | imports {fileName : Text} {routines : PutMap Text Routine}
      (valid : processImport files gen.routines fileName = .ok routines) :
      Edit jre files gen { gen with routines := routines }
  | queue {line : Text} {queue : Queue jre.Double} (valid : validateQueueDeclaration jre line = some queue) :
      Edit jre files gen { gen with queues := gen.queues.put queue.name queue }
  | port {line : Text} {port : Port jre.Double} (valid : validatePortDeclaration gen.queues line = some port) :
      Edit jre files gen { gen with port := some port }
  | queueAttr {objName rhs : Text} {queue : Queue jre.Double} {a : Attr} {s : Statement jre.Double}
      (found : gen.queues.get objName = some queue)
      (valid : validateFunctionAssignment jre gen.routines rhs a.type = .ok (some s)) :
      Edit jre files gen { gen with queues := gen.queues.put objName (queue.assign s a) }
  | queueSelect {rhs : Text} {port : Port jre.Double} {s : Statement jre.Double} (found : gen.port = some port)
      (valid : validateFunctionAssignment jre gen.routines rhs .queueSelector = .ok (some s)) :
      Edit jre files gen { gen with port := some { port with queueSelect := some s } }
  | schedPrio {rhs : Text} {port : Port jre.Double} {s : Statement jre.Double} (found : gen.port = some port)
      (valid : validateFunctionAssignment jre gen.routines rhs .schedulingPriority = .ok (some s)) :
      Edit jre files gen { gen with port := some { port with schedPrio := some s } }

variable {gen gen' : OQGen jre.Double} {line : Text} {lineNumber : Nat}

/-- A statement is assigned if it is valid. -/
theorem assign_iff {α : Type} {check : Except Failure (Option (Statement jre.Double))} {text : Text}
    {f : Statement jre.Double → α} {r : α} :
    (check >>= fun v => match v with
      | none => fail text line lineNumber
      | some s => pure (f s)) = .ok r ↔ ∃ s, check = .ok (some s) ∧ f s = r := by
  cases check with
  | error e => exact iff_of_false nofun nofun
  | ok v =>
    cases v with
    | none => exact iff_of_false nofun nofun
    | some s =>
      refine ⟨fun run => ⟨s, rfl, Except.ok.inj run⟩, ?_⟩
      rintro ⟨_, ⟨⟩, rfl⟩
      rfl

theorem parseAssignment_iff : parseAssignment jre gen line lineNumber = .ok gen' ↔
    ∃ lhs rhs objName attr, line.split " = ".toList = [lhs, rhs] ∧ lhs.trim.split ".".toList = [objName, attr] ∧
      Assigns jre gen objName attr (rhs.trim.replace ';' ' ').trim gen' := by
  constructor
  · intro parsed
    unfold parseAssignment at parsed
    split at parsed
    · next lhs rhs halves =>
      split at parsed
      · next objName attr names =>
        refine ⟨lhs, rhs, objName, attr, halves, names, ?_⟩
        split at parsed
        · next queue found =>
          split at parsed
          · cases parsed
          · next a known =>
            obtain ⟨s, valid, rfl⟩ := assign_iff.1 parsed
            exact .queue found (queueAttr?_eq_some_iff.1 known) valid
        · next other =>
          split at parsed
          · cases parsed
          · next port found =>
            split at parsed
            · cases parsed
            · next name =>
              have name := not_not.1 name
              split at parsed
              · next known =>
                obtain ⟨s, valid, rfl⟩ := assign_iff.1 parsed
                exact .port (a := .queueSelect) other found name known valid
              · split at parsed
                · next known =>
                  obtain ⟨s, valid, rfl⟩ := assign_iff.1 parsed
                  exact .port (a := .schedPrio) other found name known valid
                · cases parsed
      · cases parsed
    · cases parsed
  · rintro ⟨lhs, rhs, objName, attr, halves, names, assigns⟩
    simp only [parseAssignment, halves, names]
    cases assigns with
    | @queue queue a s found known valid =>
      simp only [found, queueAttr?_eq_some_iff.2 known]
      exact assign_iff.2 ⟨s, valid, rfl⟩
    | @port port a s other found name known valid =>
      simp only [other, found, name, ne_eq, not_true_eq_false, if_false]
      cases a with
      | queueSelect =>
        have known : attr = "queueSelect".toList := known
        rw [if_pos known]
        exact assign_iff.2 ⟨s, valid, by rw [← name]; rfl⟩
      | schedPrio =>
        have known : attr = "schedPrio".toList := known
        rw [if_neg (by rw [known]; decide), if_pos known]
        exact assign_iff.2 ⟨s, valid, by rw [← name]; rfl⟩

theorem parseLine_iff : parseLine jre files gen line lineNumber = .ok gen' ↔ Reads jre files gen line.trim gen' := by
  constructor
  · intro parsed
    simp only [parseLine] at parsed
    split at parsed
    · next nothing =>
      cases parsed
      exact .skip nothing
    · next something =>
      rw [Bool.or_eq_true, not_or, Bool.not_eq_true, Bool.not_eq_true] at something
      split at parsed
      · next starts =>
        split at parsed
        · next word fileName pieces =>
          split at parsed
          · next is =>
            split at parsed
            · next routines valid =>
              cases parsed
              exact .imports starts pieces is valid
            · cases parsed
          · cases parsed
        · cases parsed
      · next imports =>
        split at parsed
        · cases parsed
        · next ends =>
          have ends := not_not.1 ends
          split at parsed
          · next starts =>
            split at parsed
            · cases parsed
            · next queue valid =>
              cases parsed
              exact .queue ends starts valid
          · next queue =>
            split at parsed
            · next starts =>
              split at parsed
              · cases parsed
              · next port valid =>
                cases parsed
                exact .port ends starts valid
            · next port =>
              obtain ⟨lhs, rhs, objName, attr, halves, names, assigns⟩ := parseAssignment_iff.1 parsed
              refine .assign ends something.1 ?_ halves names assigns
              rw [List.forall_mem_cons, List.forall_mem_cons, List.forall_mem_singleton]
              exact ⟨Bool.eq_false_iff.2 imports, Bool.eq_false_iff.2 queue, Bool.eq_false_iff.2 port⟩
  · intro reads
    simp only [parseLine]
    generalize line.trim = t at reads
    cases reads with
    | skip nothing => exact if_pos nothing
    | imports starts pieces is valid =>
      obtain ⟨w, rfl⟩ := startsWith_iff.1 starts
      rw [if_neg (by simp [startsWith]), if_pos starts]
      simp only [pieces, is, valid, if_true]
    | queue ends starts valid =>
      obtain ⟨w, rfl⟩ := startsWith_iff.1 starts
      rw [if_neg (by simp [startsWith]), if_neg (by simp [startsWith]), if_neg (not_not.2 ends), if_pos starts]
      simp only [valid]
    | port ends starts valid =>
      obtain ⟨w, rfl⟩ := startsWith_iff.1 starts
      rw [if_neg (by simp [startsWith]), if_neg (by simp [startsWith]), if_neg (not_not.2 ends),
        if_neg (by simp [startsWith]), if_pos starts]
      simp only [valid]
    | assign ends comment other halves names assigns =>
      rw [List.forall_mem_cons, List.forall_mem_cons, List.forall_mem_singleton] at other
      obtain ⟨imports, queue, port⟩ := other
      have empty : t.isEmpty = false := by
        cases t with
        | nil => cases ends
        | cons c t => rfl
      rw [comment, empty, imports, queue, port, if_neg (by decide), if_neg (by decide), if_neg (not_not.2 ends),
        if_neg (by decide), if_neg (by decide)]
      exact parseAssignment_iff.2 ⟨_, _, _, _, halves, names, assigns⟩

theorem parseLine_edit (parsed : parseLine jre files gen line lineNumber = .ok gen') : Edit jre files gen gen' := by
  cases parseLine_iff.1 parsed with
  | skip => exact .skip
  | imports starts pieces is valid => exact .imports valid
  | queue ends starts valid => exact .queue valid
  | port ends starts valid => exact .port valid
  | assign ends comment other halves names assigns =>
    cases assigns with
    | queue found known valid => exact .queueAttr found valid
    | @port port a s other found name known valid =>
      cases a with
      | queueSelect => exact .queueSelect found valid
      | schedPrio => exact .schedPrio found valid

/-- What every line keeps holds of the policy that was read. -/
theorem parseLines_invariant {P : OQGen jre.Double → Prop} {lines : List Text} (init : P gen)
    (step : ∀ g g', Edit jre files g g' → P g → P g')
    (parsed : parseLines jre files gen lineNumber lines = .ok gen') : P gen' := by
  induction lines generalizing gen lineNumber with
  | nil =>
    cases parsed
    exact init
  | cons line lines ih =>
    rw [parseLines] at parsed
    split at parsed
    · cases parsed
    · next next first => exact ih (step gen next (parseLine_edit first) init) parsed

/-! ## Well-formed policies -/

/-- Every queue is filed under its own name, and the port lists declared queues. -/
structure OQGen.WellFormed {δ : Type} (gen : OQGen δ) : Prop where
  named : ∀ k q, gen.queues.get k = some q → q.name = k
  declared : ∀ port, gen.port = some port → ∀ n ∈ port.queues, ∃ q, gen.queues.get n = some q

theorem Queue.name_assign {δ : Type} (q : Queue δ) (s : Statement δ) (a : Attr) : (q.assign s a).name = q.name := by
  cases a <;> rfl

/-- A queue that is filed under its name. -/
theorem OQGen.WellFormed.put {δ : Type} {gen : OQGen δ} (h : gen.WellFormed) {k : Text} {q : Queue δ}
    (name : q.name = k) : OQGen.WellFormed { gen with queues := gen.queues.put k q } where
  named j q' found := by
    rw [PutMap.get_put] at found
    split at found
    · next same =>
      cases found
      rw [name, same]
    · exact h.named j q' found
  declared port here n listed := by
    rw [PutMap.get_put]
    split
    · exact ⟨q, rfl⟩
    · exact h.declared port here n listed

theorem validatePortDeclaration_declared {δ : Type} {queues : PutMap Text (Queue δ)} {port : Port δ} {n : Text}
    (valid : validatePortDeclaration queues line = some port) (listed : n ∈ port.queues) :
    ∃ q, queues.get n = some q := by
  obtain ⟨⟨name, args⟩, -, valid⟩ := Option.bind_eq_some_iff.1 valid
  simp only at valid
  split at valid
  · next ok =>
    cases valid
    obtain ⟨token, mem, rfl⟩ := List.mem_map.1 listed
    exact Option.isSome_iff_exists.1 (ok.2 token mem)
  · cases valid

theorem OQGen.WellFormed.edit (edit : Edit jre files gen gen') (h : gen.WellFormed) : gen'.WellFormed := by
  cases edit with
  | skip => exact h
  | imports => exact ⟨h.named, h.declared⟩
  | queue => exact h.put rfl
  | port valid =>
    refine ⟨h.named, ?_⟩
    rintro _ ⟨⟩ n listed
    exact validatePortDeclaration_declared valid listed
  | queueAttr found => exact h.put ((Queue.name_assign _ _ _).trans (h.named _ _ found))
  | queueSelect found =>
    refine ⟨h.named, ?_⟩
    rintro _ ⟨⟩ n listed
    exact h.declared _ found n listed
  | schedPrio found =>
    refine ⟨h.named, ?_⟩
    rintro _ ⟨⟩ n listed
    exact h.declared _ found n listed

/-- The generator accepts a policy text: both `parsePolicyFile` and `isWellDefined`
return true. -/
structure Accepts (jre : Jre) (files : Text → Option Text) (text : Text) (gen : OQGen jre.Double) : Prop where
  parsed : parsePolicyFile jre files text = .ok gen
  wellDefined : gen.isWellDefined = .ok ()

theorem Accepts.wellFormed {text : Text} (accepted : Accepts jre files text gen) : gen.WellFormed := by
  refine parseLines_invariant ⟨?_, ?_⟩ (fun _ _ edit h => h.edit edit) accepted.parsed
  · intro k q found
    cases found
  · intro port here
    cases here

end Lines

/-! ## Imports -/

section Imports

variable {jre : Jre} {files files' : Text → Option Text}

end Imports

/-! ## The listing of the queues -/

section Values

variable {jre : Jre} {gen : OQGen jre.Double}

theorem OQGen.map_some_values (gen : OQGen jre.Double) :
    gen.values.map some = (jre.iterate gen.queues.keys).map gen.queues.get :=
  PutMap.values_eq fun _ hk => (jre.iterate_perm _).mem_iff.1 hk

/-- The size of the map is the number of its values. -/
theorem OQGen.length_values : gen.values.length = gen.queues.keys.length := by
  have lengths := congrArg List.length (map_some_values gen)
  rwa [List.length_map, List.length_map, (jre.iterate_perm _).length_eq] at lengths

/-- A listed queue is the one declared under its name. -/
theorem OQGen.WellFormed.get_name {q : Queue jre.Double} (h : gen.WellFormed) (listed : q ∈ gen.values) :
    gen.queues.get q.name = some q := by
  obtain ⟨k, -, found⟩ := List.mem_filterMap.1 listed
  rwa [h.named k q found]

theorem OQGen.isWellDefined_iff : gen.isWellDefined = .ok () ↔
    ∃ port, gen.port = some port ∧ port.isWellDefined ∧ ∀ q ∈ gen.values, q.isWellDefined := by
  unfold isWellDefined
  cases gen.port with
  | none => simp
  | some port =>
    by_cases good : port.isWellDefined
    · simp only [good, if_true, Option.some.injEq, exists_eq_left', true_and]
      split
      · next q bad =>
        have fails := List.find?_some bad
        refine iff_of_false nofun fun all => ?_
        rw [all q (List.mem_of_find?_eq_some bad)] at fails
        cases fails
      · next all =>
        refine iff_of_true rfl fun q mem => ?_
        simpa using List.find?_eq_none.1 all q mem
    · simp [good]

/-- A queue that is well-defined has a statement for each attribute. -/
theorem Queue.isWellDefined_iff {δ : Type} {q : Queue δ} :
    q.isWellDefined ↔ ∀ a, ∃ s, q.statement a = some s := by
  simp only [isWellDefined, Bool.and_eq_true, Option.isSome_iff_exists]
  constructor
  · rintro ⟨⟨⟨admn, cong⟩, act⟩, proc⟩ a
    cases a
    · exact cong
    · exact act
    · exact admn
    · exact proc
  · intro all
    exact ⟨⟨⟨all .admPrio, all .congestion⟩, all .congAction⟩, all .procPrio⟩

end Values

end OpenQueue.Gen
