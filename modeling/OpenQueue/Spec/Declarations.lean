import OpenQueue.Gen.Complete
import OpenQueue.Spec.Generated

/-!
# Declarations are read back

The two validators of declarations cut a line at `=`, at blanks, at parentheses and at
commas, and count the pieces. On a declaration written with an identifier and an `int`, or
with identifiers in a list, every count comes out right and what was written is returned.
-/

namespace OpenQueue.Gen

open Lib (Text Jre IsWord)

variable {jre : Jre} {files : Text → Option Text} {gen gen' : OQGen jre.Double} {lines : List Text}

theorem validateQueueDeclaration_name {line : Text} {q : Queue jre.Double}
    (valid : validateQueueDeclaration jre line = some q) : q.name ≠ [] := by
  obtain ⟨⟨name, args⟩, declared, sized⟩ := Option.bind_eq_some_iff.1 valid
  obtain ⟨size, -, made⟩ := Option.bind_eq_some_iff.1 sized
  cases made
  unfold validateDeclaration at declared
  split at declared
  · split at declared
    · split at declared
      · next words =>
        split at declared
        · cases declared
          exact words.2.1
        · cases declared
      · cases declared
    · cases declared
  · cases declared

/-- No queue has the empty name. -/
def OQGen.Named (gen : OQGen jre.Double) : Prop := gen.queues.get [] = none

theorem OQGen.Named.edit (edit : Edit jre files gen gen') (named : gen.Named) : gen'.Named := by
  cases edit with
  | queue valid =>
    rw [Named, Lib.PutMap.get_put, if_neg (Ne.symm (validateQueueDeclaration_name valid))]
    exact named
  | @queueAttr objName rhs queue a s found valid =>
    have other : ([] : Text) ≠ objName := by
      rintro rfl
      cases named.symm.trans found
    rw [Named, Lib.PutMap.get_put, if_neg other]
    exact named
  | skip | imports | port | queueSelect | schedPrio => exact named

theorem named_of_parseLines (read : parseLines jre files {} 0 lines = .ok gen) : gen.Named := by
  have init : ({} : OQGen jre.Double).Named := rfl
  exact parseLines_invariant init (fun _ _ edit named => named.edit edit) read

/-- Nothing between the parentheses is one item, the empty one. -/
theorem validatePortDeclaration_empty {name : Text} (named : gen.Named) (word : IsWord name) :
    validatePortDeclaration gen.queues (Stmt.port name []).text = none := by
  have kind : IsWord "Port".toList := .of_isIdentifier (by decide)
  have read := validateDeclaration_text kind word (List.not_mem_nil (a := '=')) (List.not_mem_nil (a := '('))
    (List.not_mem_nil (a := ')'))
  show validatePortDeclaration gen.queues (declaration "Port".toList name []) = none
  rw [validatePortDeclaration, read]
  refine if_neg fun declared => ?_
  have empty := declared.2 [] (by decide)
  change (gen.queues.get []).isSome at empty
  rw [named] at empty
  cases empty

/-- A declaration whose words are not kept apart. -/
theorem declaration_eq {kind name args before middle : Text} (first : before = kind ++ " ".toList)
    (second : middle = " = ".toList ++ kind ++ "(".toList) :
    before ++ name ++ middle ++ args ++ ");".toList = declaration kind name args := by
  rw [first, second, declaration]
  simp only [List.append_assoc]

/-- A queue declaration returns its name and its size. A port declaration returns its name
and its list if there is one and all its names are declared, and nothing otherwise. -/
theorem declarations_round_trip (digit : ∀ c : Char, c.isDigit → jre.digit c = some (c.toNat - 48))
    (read : parseLines jre files {} 0 lines = .ok gen) :
    (∀ name, Lib.isIdentifier name → ∀ n : BitVec 32,
      validateQueueDeclaration jre ("Queue ".toList ++ name ++ " = Queue(".toList ++ Lib.intText n ++ ");".toList) =
        some { name := name, size := n }) ∧
    ∀ name, Lib.isIdentifier name → ∀ names : List Text, (∀ n ∈ names, Lib.isIdentifier n) →
      validatePortDeclaration gen.queues
          ("Port ".toList ++ name ++ " = Port(".toList ++ ", ".toList.intercalate names ++ ");".toList) =
        if names ≠ [] ∧ ∀ n ∈ names, (gen.queues.get n).isSome then some { name := name, queues := names } else none := by
  constructor
  · intro name ident n
    have text : "Queue ".toList ++ name ++ " = Queue(".toList ++ Lib.intText n ++ ");".toList =
        (Stmt.queue name n).text := declaration_eq (by decide) (by decide)
    rw [text]
    exact validateQueueDeclaration_text digit (.of_isIdentifier ident) n
  · intro name ident names idents
    have text : "Port ".toList ++ name ++ " = Port(".toList ++ ", ".toList.intercalate names ++ ");".toList =
        (Stmt.port name names).text := declaration_eq (by decide) (by decide)
    rw [text]
    by_cases some : names = []
    · rw [if_neg fun declared => declared.1 some, some]
      exact validatePortDeclaration_empty (named_of_parseLines read) (.of_isIdentifier ident)
    · rw [validatePortDeclaration_eq gen.queues (.of_isIdentifier ident) some fun n mem => .of_isIdentifier (idents n mem)]
      simp only [ne_eq, some, not_false_eq_true, true_and]

/-- A queue `q` was declared, and no queue `r`. -/
def declaresQ (read : Except Failure (OQGen smallJre.Double)) : Bool :=
  match read with
  | .ok gen => (gen.queues.get "q".toList).isSome && (gen.queues.get "r".toList).isNone
  | .error _ => false

theorem oneQueue_round_trip : ∃ gen : OQGen smallJre.Double,
    parseLines smallJre (fun _ => none) {} 0 ["Queue q = Queue(128);".toList] = .ok gen ∧
    validateQueueDeclaration smallJre "Queue r = Queue(-5);".toList = some { name := "r".toList, size := -5 } ∧
    validatePortDeclaration gen.queues "Port p = Port(q, q);".toList =
      some { name := "p".toList, queues := ["q".toList, "q".toList] } ∧
    validatePortDeclaration gen.queues "Port p = Port(q, r);".toList = none := by
  have seen : declaresQ (parseLines smallJre (fun _ => none) {} 0 ["Queue q = Queue(128);".toList]) := by
    decide +kernel
  unfold declaresQ at seen
  split at seen
  · next gen read =>
    rw [Bool.and_eq_true, Option.isNone_iff_eq_none] at seen
    obtain ⟨queues, ports⟩ := declarations_round_trip (fun c h => if_pos h) read
    have both := ports "p".toList (by decide) ["q".toList, "q".toList] (by decide)
    have other := ports "p".toList (by decide) ["q".toList, "r".toList] (by decide)
    rw [if_pos ⟨List.cons_ne_nil _ _, List.forall_mem_cons.2 ⟨seen.1, List.forall_mem_singleton.2 seen.1⟩⟩] at both
    have absent : ¬ (gen.queues.get "r".toList).isSome := by
      rw [seen.2]
      decide
    rw [if_neg fun declared => absent (declared.2 _ (by decide))] at other
    exact ⟨gen, read, queues "r".toList (by decide) (-5), both, other⟩
  · cases seen

end OpenQueue.Gen
