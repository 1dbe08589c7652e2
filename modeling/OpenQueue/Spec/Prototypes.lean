import OpenQueue.Gen.Document
import OpenQueue.Spec.Generated

/-!
# Calls of imported routines

Six validators for prototypes, the type stored with a routine, the check of an assignment,
the printer of calls and the frames of the generated functions all have to agree. A call
that is printed for an attribute is one of a routine whose prototype was validated for
that attribute, with the arguments that the prototype asks for.
-/

namespace OpenQueue.Gen

open Lib (Text Jre)
open Lib.Text

/-! ## Prototypes -/

/-- The words of a parameter. -/
def words (param : Text) : List Text := (param.trim.split " ".toList).map trim

/-- Pointers to structs, and after them `int argc, ...`. -/
def Takes (structs : List Text) (params : List (List Text)) : Prop :=
  ∃ (names : List Text) (argc : Text), names.length = structs.length ∧
    params = List.zipWith (fun s n => ["struct".toList, s, n]) structs names ++ [["int".toList, argc], ["...".toList]]

section Results

variable {jre : Jre} {files : Text → Option Text} {text : Text} {gen : OQGen jre.Double}

end Results

end OpenQueue.Gen
