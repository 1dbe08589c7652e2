import OpenQueue.Gen.Scope
import OpenQueue.Lib.CLexical
import OpenQueue.Lib.Splitting

/-!
# Headers as they are written

The prototypes of a header in the style of `routines.h`, each under a comment that
announces its type. `importLines` reads them all, past comments and whatever else stands
between them.
-/

namespace OpenQueue.Gen

open Lib (Text PutMap IsWord)
open Lib.Text

/-- `struct S* name, ..., int argc, ...`. -/
def RoutineType.prototypeParams (type : RoutineType) : Text :=
  ", ".toList.intercalate
    (type.args.map (fun v => "struct ".toList ++ v.struct ++ "* ".toList ++ v.text) ++ ["int argc".toList, "...".toList])

/-- The prototype of a routine. -/
def Routine.prototype (r : Routine) : Text :=
  r.type.result ++ " ".toList ++ r.name ++ "(".toList ++ r.type.prototypeParams ++ ");".toList

/-- The lines of a header that declares these routines. -/
inductive Declares : List Text → List Routine → Prop where
  | nil : Declares [] []
  | skip {line : Text} {lines : List Text} {rs : List Routine}
      (plain : line.trim.startsWith "//".toList → getNextRoutineType line.trim = .undefined) (rest : Declares lines rs) :
      Declares (line :: lines) rs
  | routine {comment line : Text} {blanks lines : List Text} {r : Routine} {rs : List Routine}
      (slashes : comment.trim.startsWith "//".toList) (type : getNextRoutineType comment.trim = r.type)
      (blank : ∀ b ∈ blanks, b.trim = []) (is : line.trim = r.prototype) (rest : Declares lines rs) :
      Declares (comment :: (blanks ++ line :: lines)) (r :: rs)

/-- A routine that can be declared. -/
structure Routine.WellFormed (r : Routine) : Prop where
  type : r.type ≠ .undefined
  name : Lib.isIdentifier r.name

/-- The words of a type and a name after them. -/
theorem split_typeName {words : List Text} {name : Text} (some : words ≠ []) (hw : ∀ w ∈ words, IsWord w)
    (hn : IsWord name) :
    Tight (" ".toList.intercalate words ++ " ".toList ++ name) ∧
      split (" ".toList.intercalate words ++ " ".toList ++ name) " ".toList = words ++ [name] := by
  have all : ∀ w ∈ words ++ [name], IsWord w := by
    rw [List.forall_mem_append, List.forall_mem_singleton]
    exact ⟨hw, hn⟩
  have join : " ".toList.intercalate words ++ " ".toList ++ name = [' '].intercalate (words ++ [name]) := by
    rw [intercalate_append _ some]
    simp
  rw [join]
  refine ⟨?_, (split_eq_iff (c := ' ') (by simp)).2 ⟨fun w mem => (all w mem).not_mem rfl, 0, by simp, ?_⟩⟩
  · exact (tight_intercalate _ (by simp) (fun w mem => (all w mem).nonempty)
      fun w mem => tight_of_no_blank (all w mem).no_blank).2
  · intro last
    rw [List.getLast?_concat] at last
    exact absurd (Option.some.inj last) hn.nonempty

/-- A prototype as it is written. -/
theorem validateFunction_text {sig : Signature} {name params : Text} (some : sig.result ≠ [])
    (hw : ∀ w ∈ sig.result, IsWord w) (opens' : '(' ∉ " ".toList.intercalate sig.result ++ " ".toList) (hn : IsWord name)
    (opens : '(' ∉ params) (closes : ')' ∉ params)
    (valid : areParams sig.structs params) :
    validateFunction sig (" ".toList.intercalate sig.result ++ " ".toList ++ name ++ "(".toList ++ params ++ ");".toList) =
      Option.some ⟨sig.type, name⟩ := by
  obtain ⟨tight, words⟩ := split_typeName some hw hn
  have free : '(' ∉ " ".toList.intercalate sig.result ++ " ".toList ++ name := by
    rw [List.mem_append, not_or]
    exact ⟨opens', hn.not_mem rfl⟩
  have halves : split (" ".toList.intercalate sig.result ++ " ".toList ++ name ++ "(".toList ++ params ++ ");".toList)
      "(".toList = [" ".toList.intercalate sig.result ++ " ".toList ++ name, params ++ ");".toList] :=
    (split_eq_pair_iff (c := '(')).2 ⟨free, by simp [opens], by simp, 0, by simp⟩
  have list : split (params ++ ");".toList) ")".toList = [params, ";".toList] :=
    (split_eq_pair_iff (c := ')')).2 ⟨closes, by simp, by simp, 0, by simp⟩
  have trimmed : sig.result.map trim = sig.result :=
    (List.map_congr_left fun w mem => (tight_of_no_blank (hw w mem).no_blank).trim_eq).trans (List.map_id _)
  exact validateFunction_iff.2 ⟨rfl, _, _, sig.result, params, _, halves, by rw [tight.trim_eq, words], list, trimmed, valid⟩

/-- The prototype of a routine is one of its type. -/
theorem validateRoutine_prototype {r : Routine} (h : r.WellFormed) : validateRoutine r.type r.prototype = some r := by
  obtain ⟨type, name⟩ := r
  obtain ⟨defined, ident⟩ := h
  have checked : " ".toList.intercalate type.signature.result = type.result ∧ type.signature.result ≠ [] ∧
      (∀ w ∈ type.signature.result, Lib.isIdentifier w) ∧ '(' ∉ type.result ++ " ".toList ∧ '(' ∉ type.prototypeParams ∧
      ')' ∉ type.prototypeParams ∧ areParams type.signature.structs type.prototypeParams := by
    cases type with
    | undefined => exact absurd rfl defined
    | _ => decide
  obtain ⟨result, some, words, opens, opens', closes, valid⟩ := checked
  have read := validateFunction_text some (fun w mem => .of_isIdentifier (words w mem)) (by rwa [result])
    (.of_isIdentifier ident) opens' closes valid
  rw [result] at read
  rw [RoutineType.validateRoutine_eq defined]
  exact read

/-! ## Reading a header -/

/-- Blank lines do not end an announcement. -/
theorem importLines_blanks {routines : PutMap Text Routine} {type : RoutineType} {blanks lines : List Text}
    (blank : ∀ b ∈ blanks, b.trim = []) (lineNumber : Nat) :
    importLines routines type lineNumber (blanks ++ lines) = importLines routines type (lineNumber + blanks.length) lines := by
  induction blanks generalizing lineNumber with
  | nil => rfl
  | cons b blanks ih =>
    rw [List.forall_mem_cons] at blank
    have comment : startsWith [] "//".toList = false := rfl
    have empty : (List.isEmpty ([] : Text) || type = .undefined) = true := rfl
    rw [List.cons_append, importLines, blank.1, comment, empty, if_neg (by decide), if_pos rfl, ih blank.2]
    congr 1
    rw [List.length_cons]
    omega

/-- The table after all routines of a header have been put. -/
def putAll (routines : PutMap Text Routine) (rs : List Routine) : PutMap Text Routine :=
  rs.foldl (fun routines r => routines.put r.name r) routines

theorem prototype_starts {r : Routine} (defined : r.type ≠ .undefined) :
    startsWith r.prototype "//".toList = false ∧ r.prototype.isEmpty = false := by
  obtain ⟨type, name⟩ := r
  cases type with
  | undefined => exact absurd rfl defined
  | _ => exact ⟨rfl, rfl⟩

theorem importLines_declares {lines : List Text} {rs : List Routine} (h : Declares lines rs)
    (good : ∀ r ∈ rs, r.WellFormed) {routines : PutMap Text Routine} (names : (rs.map Routine.name).Nodup)
    (fresh : ∀ r ∈ rs, routines.get r.name = none) (lineNumber : Nat) :
    importLines routines .undefined lineNumber lines = .ok (putAll routines rs) := by
  induction h generalizing routines lineNumber with
  | nil => rfl
  | @skip line lines rs plain rest ih =>
    simp only [importLines]
    split
    · next slashes =>
      rw [plain slashes]
      exact ih good names fresh _
    · rw [if_pos (by simp)]
      exact ih good names fresh _
  | @routine comment line blanks lines r rs slashes type blank is rest ih =>
    rw [List.forall_mem_cons] at good fresh
    rw [List.map_cons, List.nodup_cons] at names
    obtain ⟨start, some⟩ := prototype_starts good.1.type
    have expected : (r.prototype.isEmpty || r.type = .undefined) = false := by
      rw [some, decide_eq_false good.1.type]
      rfl
    simp only [importLines, slashes, if_true, type]
    rw [importLines_blanks blank]
    simp only [importLines, is, start, expected, validateRoutine_prototype good.1, fresh.1, Bool.false_eq_true, if_false]
    refine ih good.2 names.2 (fun r' mem => ?_) _
    have other : r'.name ≠ r.name := fun same => names.1 (same ▸ List.mem_map_of_mem mem)
    rw [PutMap.get_put, if_neg other]
    exact fresh.2 r' mem

theorem get_putAll {rs : List Routine} {routines : PutMap Text Routine} (names : (rs.map Routine.name).Nodup) :
    (∀ r ∈ rs, (putAll routines rs).get r.name = some r) ∧
      ∀ k, k ∉ rs.map Routine.name → (putAll routines rs).get k = routines.get k := by
  induction rs generalizing routines with
  | nil => exact ⟨nofun, fun _ _ => rfl⟩
  | cons r rs ih =>
    rw [List.map_cons, List.nodup_cons] at names
    obtain ⟨here, other⟩ := @ih (routines.put r.name r) names.2
    refine ⟨List.forall_mem_cons.2 ⟨?_, here⟩, fun k absent => ?_⟩
    · refine (other r.name names.1).trans ?_
      rw [PutMap.get_put, if_pos rfl]
    · rw [List.map_cons, List.mem_cons, not_or] at absent
      refine (other k absent.2).trans ?_
      rw [PutMap.get_put, if_neg absent.1]

end OpenQueue.Gen
