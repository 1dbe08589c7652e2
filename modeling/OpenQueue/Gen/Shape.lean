import OpenQueue.Gen.Inline
import OpenQueue.Gen.Scope
import OpenQueue.Gen.Typed

/-!
# What an accepted line looks like

The validators cut a line at the first occurrences of some characters. These lemmas put
the line together again from the parts that were looked at, with the parts that were not.
-/

namespace OpenQueue.Gen

open Lib (Text Jre PutMap)
open Lib.Text

/-! ## Declarations and imports -/

/-- A declaration; what stands after the closing parenthesis is not looked at. -/
structure DeclarationShape (kind line name args : Text) (lhs n word tail : Text) : Prop where
  line_eq : line = lhs ++ '=' :: (word ++ '(' :: (args ++ ')' :: tail))
  equals : '=' ∉ lhs
  words : lhs.trim = kind ++ ' ' :: n
  name_eq : n.trim = name
  call : word.trim = kind
  opens : '(' ∉ word
  closes : ')' ∉ args
  closes' : ')' ∉ tail

theorem validateDeclaration_shape {kind line name args : Text} (ends : line.getLast? = some ';')
    (valid : validateDeclaration kind line = some (name, args)) :
    ∃ lhs n word tail, DeclarationShape kind line name args lhs n word tail := by
  unfold validateDeclaration at valid
  split at valid
  · next lhs rhs halves =>
    obtain ⟨equals, -, rfl, endsRhs⟩ := split_pair_ends (c := '=') halves ends (by decide)
    split at valid
    · next word n word' rest words call =>
      split at valid
      · next is =>
        obtain ⟨rfl, -, is⟩ := is
        split at valid
        · next args' tail list =>
          cases valid
          obtain ⟨u, v, hu, hv, whole⟩ := trim_spec rhs
          obtain ⟨opens, -, split, endsRest⟩ := split_pair_ends (c := '(') call (getLast?_trim endsRhs rfl) (by decide)
          obtain ⟨closes, closes', rfl, -⟩ := split_pair_ends (c := ')') list endsRest (by decide)
          -- a text that is trimmed does not end with the separator
          obtain ⟨-, -, some, k, join⟩ := split_eq_pair_iff (c := ' ').1 words
          have k_zero : k = 0 := by
            cases k with
            | zero => rfl
            | succ k =>
              have tight := tight_trim lhs
              rw [join, List.replicate_succ', ← List.append_assoc] at tight
              cases tight.last ' ' List.getLast?_concat
          subst k_zero
          refine ⟨lhs, n, u ++ word', tail ++ v, ?_, equals, by simpa using join, rfl, ?_, ?_, closes, ?_⟩
          · rw [whole, split]
            simp
          · rw [← is, trim_eq_iff]
            obtain ⟨x, y, hx, hy, eq⟩ := trim_spec word'
            refine ⟨tight_trim word', u ++ x, y, hu.append hx, hy, ?_⟩
            conv_lhs => rw [eq]
            simp
          · rw [List.mem_append, not_or]
            refine ⟨fun mem => ?_, opens⟩
            exact absurd (hu _ mem) (by decide)
          · rw [List.mem_append, not_or]
            refine ⟨closes', fun mem => ?_⟩
            exact absurd (hv _ mem) (by decide)
        · cases valid
      · cases valid
    · cases valid
  · cases valid

/-- The name of an imported file. -/
theorem processImport_shape {files : Text → Option Text} {routines routines' : PutMap Text Routine} {fileName : Text}
    (done : processImport files routines fileName = .ok routines') :
    ∃ base k, fileName = base ++ ".h".toList ++ List.replicate k '.' := by
  unfold processImport at done
  split at done
  · next base extension pieces =>
    obtain ⟨-, -, -, k, rfl⟩ := split_eq_pair_iff (c := '.').1 pieces
    split at done
    · next is =>
      subst is
      exact ⟨base, k, by simp⟩
    · cases done
  · cases done

/-! ## Right-hand sides -/

/-- A call, with what follows its closing parenthesis. -/
structure CallShape (rhs name args extra : Text) : Prop where
  rhs_eq : rhs = name ++ '(' :: (args ++ ')' :: extra)
  opens : '(' ∉ name
  early : ')' ∉ name
  closes : ')' ∉ args

/-- An inline statement, with what follows its closing brace. -/
structure InlineShape (rhs word body extra : Text) : Prop where
  rhs_eq : rhs = word ++ '\x7b' :: (body ++ '\x7d' :: extra)
  opens : '\x7b' ∉ word
  early : '\x7d' ∉ word
  closes : '\x7d' ∉ body

/-- The ways in which `validateFunctionAssignment` accepts a text. -/
inductive ReadsRhs (jre : Jre) (routines : PutMap Text Routine) (rhs : Text) (type : RoutineType) :
    Statement jre.Double → Prop where
  | inline {word body extra : Text} {e : Inline Text} {c : Inline (BitVec 32)} (starts : rhs.startsWith "inline".toList)
      (shape : InlineShape rhs word body extra) (read : readExpr body = some e)
      (values : e.mapNum (toInt? jre) = some c) : ReadsRhs jre routines rhs type (.inline c.cText type)
  | bare {r : Routine} (other : rhs.startsWith "inline".toList = false) (found : routines.get (upTo '(' rhs) = some r)
      (unclosed : '(' ∈ rhs → ')' ∉ rhs) : ReadsRhs jre routines rhs type (.routineCall (upTo '(' rhs) type none)
  | empty {r : Routine} {name args extra : Text} (other : rhs.startsWith "inline".toList = false)
      (found : routines.get name = some r) (shape : CallShape rhs name args extra)
      (nothing : args.trim.split ",".toList = []) : ReadsRhs jre routines rhs type (.routineCall name type none)
  | call {r : Routine} {name args extra : Text} {vals : List jre.Double} (other : rhs.startsWith "inline".toList = false)
      (found : routines.get name = some r) (shape : CallShape rhs name args extra)
      (something : args.trim.split ",".toList ≠ [])
      (read : (args.trim.split ",".toList).mapM (fun token => jre.parseDouble token.trim) = some vals) :
      ReadsRhs jre routines rhs type (.routineCall name type (some vals))

section Rhs

variable {jre : Jre} {routines : PutMap Text Routine} {rhs body : Text} {type : RoutineType} {s : Statement jre.Double}

theorem inlineBody_shape (found : inlineBody rhs = some body) :
    rhs.startsWith "inline".toList ∧ ∃ word extra, InlineShape rhs word body extra := by
  unfold inlineBody at found
  split at found
  · next starts =>
    obtain ⟨i, first, found⟩ := Option.bind_eq_some_iff.1 found
    obtain ⟨j, last, found⟩ := Option.bind_eq_some_iff.1 found
    obtain ⟨word, extra, eq, opens, early, closes⟩ := substring_eq_some first last found
    exact ⟨starts, word, extra, eq, opens, early, closes⟩
  · cases found

theorem validateFunctionAssignment_shape (valid : validateFunctionAssignment jre routines rhs type = .ok (some s)) :
    ReadsRhs jre routines rhs type s := by
  simp only [validateFunctionAssignment] at valid
  split at valid
  · cases inline : validateInline jre rhs with
    | error e =>
      rw [inline] at valid
      cases valid
    | ok t =>
      cases t with
      | none =>
        rw [inline] at valid
        cases valid
      | some t =>
        rw [inline] at valid
        cases valid
        obtain ⟨body, e, c, found, read, values, rfl⟩ := validateInline_eq_some_iff.1 inline
        obtain ⟨starts, word, extra, shape⟩ := inlineBody_shape found
        exact .inline starts shape read values
  · next other =>
    have other := Bool.eq_false_iff.2 other
    split at valid
    · cases valid
    · next r found =>
      split at valid
      · cases valid
      · split at valid
        · next i j first last =>
          split at valid
          · cases valid
          · next args between =>
            obtain ⟨name, extra, eq, opens, early, closes⟩ := substring_eq_some first last between
            have name_eq : rhs.takeWhile (fun c => c ≠ '(') = name := by rw [eq, takeWhile_ne_append opens]
            rw [name_eq] at valid found
            split at valid
            · next none =>
              cases valid
              exact .empty other found ⟨eq, opens, early, closes⟩ none
            · next some =>
              obtain ⟨vals, read, rfl⟩ := Option.map_eq_some_iff.1 (Except.ok.inj valid)
              exact .call other found ⟨eq, opens, early, closes⟩ some read
        · next unclosed =>
          cases valid
          refine .bare other found fun opens closes => ?_
          cases first : indexOf rhs '(' with
          | none => exact indexOf_eq_none_iff.1 first opens
          | some i =>
            cases last : indexOf rhs ')' with
            | none => exact indexOf_eq_none_iff.1 last closes
            | some j => exact unclosed i j first last

end Rhs

/-! ## Operands -/

/-- An attribute, with the dots that follow it. -/
structure FieldShape (kind t attr : Text) (object field : Text) (dots : Nat) : Prop where
  text_eq : t = object ++ '.' :: field ++ List.replicate dots '.'
  starts : object.startsWith kind
  free : '.' ∉ object
  free' : '.' ∉ field
  field_eq : field.trim = attr

/-- The ways in which an operand is read. -/
inductive ReadsOperand (t : Text) : Operand Text → Prop where
  | queue {a : QueueAttr} {object field : Text} {dots : Nat}
      (shape : FieldShape "Queue".toList t a.text object field dots) : ReadsOperand t (.queue a)
  | packet {a : PacketAttr} {object field : Text} {dots : Nat}
      (shape : FieldShape "Packet".toList t a.text object field dots) : ReadsOperand t (.packet a)
  | num (queue : t.startsWith "Queue".toList = false) (packet : t.startsWith "Packet".toList = false) :
      ReadsOperand t (.num t.trim)

section Operands

variable {t body : Text} {o : Operand Text} {e : Inline Text}

theorem split_field {kind object field : Text} (starts : t.startsWith kind) (dot : '.' ∉ kind)
    (pieces : t.split ".".toList = [object, field]) :
    ∃ dots, FieldShape kind t field.trim object field dots := by
  obtain ⟨free, free', -, dots, rfl⟩ := split_eq_pair_iff (c := '.').1 pieces
  rw [List.append_assoc, List.cons_append, startsWith_append dot] at starts
  exact ⟨dots, rfl, starts, free, free', rfl⟩

theorem readOperand_shape (read : readOperand t = some o) : ReadsOperand t o := by
  unfold readOperand at read
  split at read
  · next starts =>
    split at read
    · next object field pieces =>
      obtain ⟨a, found, rfl⟩ := Option.map_eq_some_iff.1 read
      have text : a.text = field.trim := by simpa using List.find?_some found
      obtain ⟨dots, shape⟩ := split_field starts (by decide) pieces
      rw [← text] at shape
      exact .queue shape
    · cases read
  · next queue =>
    split at read
    · next starts =>
      split at read
      · next object field pieces =>
        obtain ⟨a, found, rfl⟩ := Option.map_eq_some_iff.1 read
        have text : a.text = field.trim := by simpa using List.find?_some found
        obtain ⟨dots, shape⟩ := split_field starts (by decide) pieces
        rw [← text] at shape
        exact .packet shape
      · cases read
    · next packet =>
      cases read
      exact .num (Bool.eq_false_iff.2 queue) (Bool.eq_false_iff.2 packet)

/-- The ways in which an expression is read. -/
inductive ReadsExpr (body : Text) : Inline Text → Prop where
  | operand {x : Text} {o : Operand Text} (pieces : body.split " ".toList = [x]) (read : ReadsOperand x.trim o) :
      ReadsExpr body (.operand o)
  | compare {x p y : Text} {l r : Operand Text} {op : Lib.Comparison} (pieces : body.split " ".toList = [x, p, y])
      (left : ReadsOperand x.trim l) (right : ReadsOperand y.trim r) (is : p.trim = opText op) :
      ReadsExpr body (.compare op l r)

theorem readExpr_shape (read : readExpr body = some e) : ReadsExpr body e := by
  unfold readExpr at read
  split at read
  · next x pieces =>
    obtain ⟨o, operand, rfl⟩ := Option.map_eq_some_iff.1 read
    exact .operand pieces (readOperand_shape operand)
  · next x p y pieces =>
    obtain ⟨l, left, read⟩ := Option.bind_eq_some_iff.1 read
    obtain ⟨r, right, read⟩ := Option.bind_eq_some_iff.1 read
    obtain ⟨op, found, read⟩ := Option.bind_eq_some_iff.1 read
    cases read
    have is : opText op = p.trim := by simpa using List.find?_some found
    exact .compare pieces (readOperand_shape left) (readOperand_shape right) is.symm
  · cases read

end Operands

/-! ## The names in the tables -/

/-- The names that a line can refer to. -/
structure OQGen.Tidy {δ : Type} (gen : OQGen δ) : Prop where
  queues : ∀ k q, gen.queues.get k = some q → Tight k ∧ '=' ∉ k
  port : ∀ p, gen.port = some p → Tight p.name ∧ '=' ∉ p.name
  routines : ∀ k r, gen.routines.get k = some r → ∀ c, k.getLast? = some c → isBlank c = false

section Tidy

variable {jre : Jre} {files : Text → Option Text} {gen gen' : OQGen jre.Double}

theorem validateDeclaration_name {kind line name args : Text}
    (valid : validateDeclaration kind line = some (name, args)) : Tight name ∧ '=' ∉ name := by
  unfold validateDeclaration at valid
  split at valid
  · next lhs rhs halves =>
    obtain ⟨equals, -⟩ := split_eq_pair_iff (c := '=').1 halves
    split at valid
    · next word n word' rest words call =>
      obtain ⟨-, -, -, k, join⟩ := split_eq_pair_iff (c := ' ').1 words
      split at valid
      · split at valid
        · cases valid
          refine ⟨tight_trim n, fun mem => equals (mem_of_mem_trim ?_)⟩
          rw [join]
          simp [mem_of_mem_trim mem]
        · cases valid
      · cases valid
    · cases valid
  · cases valid

theorem validateFunction_name {sig : Signature} {line : Text} {r : Routine}
    (valid : validateFunction sig line = some r) (c : Char) (last : r.name.getLast? = some c) : isBlank c = false := by
  obtain ⟨-, typeName, -, init, -, -, -, split, -⟩ := validateFunction_iff.1 valid
  -- the last word ends where the trimmed text does
  obtain ⟨-, k, join, -⟩ := (split_eq_iff (c := ' ') (by simp)).1 split
  obtain ⟨front, whole⟩ := exists_intercalate_concat [' '] init r.name
  have tight := tight_trim typeName
  rw [join, whole] at tight
  cases k with
  | zero =>
    refine tight.last c ?_
    rw [List.replicate_zero, List.append_nil, List.getLast?_append_of_ne_nil]
    · exact last
    · intro none
      rw [none] at last
      cases last
  | succ k =>
    rw [List.replicate_succ', ← List.append_assoc] at tight
    cases tight.last ' ' List.getLast?_concat

theorem OQGen.Tidy.put {δ : Type} {gen : OQGen δ} (h : gen.Tidy) {k : Text} {q : Queue δ} (name : Tight k ∧ '=' ∉ k) :
    OQGen.Tidy { gen with queues := gen.queues.put k q } where
  queues j q' found := by
    rw [PutMap.get_put] at found
    split at found
    · next same => rwa [same]
    · exact h.queues j q' found
  port := h.port
  routines := h.routines

theorem OQGen.Tidy.edit (typed : gen'.Typed files) (edit : Edit jre files gen gen') (h : gen.Tidy) : gen'.Tidy := by
  cases edit with
  | skip => exact h
  | imports valid =>
    refine ⟨h.queues, h.port, ?_⟩
    intro k r found
    obtain ⟨fileName, text, -, announced, before, comment, blanks, line, after, -, -, -, -, valid⟩ :=
      typed.routines.holds k r found
    rw [RoutineType.validateRoutine_eq announced] at valid
    rw [← typed.routines.named k r found]
    exact validateFunction_name valid
  | queue valid =>
    obtain ⟨⟨name, args⟩, declared, valid⟩ := Option.bind_eq_some_iff.1 valid
    obtain ⟨size, -, valid⟩ := Option.bind_eq_some_iff.1 valid
    cases valid
    exact h.put (validateDeclaration_name declared)
  | port valid =>
    refine ⟨h.queues, ?_, h.routines⟩
    rintro _ ⟨⟩
    obtain ⟨⟨name, args⟩, declared, valid⟩ := Option.bind_eq_some_iff.1 valid
    simp only at valid
    split at valid
    · cases valid
      exact validateDeclaration_name declared
    · cases valid
  | queueAttr found => exact h.put (h.queues _ _ found)
  | queueSelect found =>
    have name := h.port _ found
    refine ⟨h.queues, ?_, h.routines⟩
    rintro _ ⟨⟩
    exact name
  | schedPrio found =>
    have name := h.port _ found
    refine ⟨h.queues, ?_, h.routines⟩
    rintro _ ⟨⟩
    exact name

/-- Every state of the parser has tidy names. -/
theorem tidy_of_parseLines {lines : List Text} {lineNumber : Nat}
    (parsed : parseLines jre files {} lineNumber lines = .ok gen) : gen.Tidy := by
  refine (parseLines_invariant (P := fun g => g.Typed files ∧ g.Tidy) ⟨⟨⟨?_, ?_⟩, ?_⟩, ⟨?_, ?_, ?_⟩⟩
    (fun _ _ edit h => ⟨h.1.edit edit, h.2.edit (h.1.edit edit) edit⟩) parsed).2
  · intro k r found
    cases found
  · intro k r found
    cases found
  · rintro type s (⟨found, -⟩ | ⟨found, -⟩ | ⟨found, -⟩) <;> cases found
  · intro k q found
    cases found
  · intro p found
    cases found
  · intro k r found
    cases found

end Tidy

end OpenQueue.Gen
