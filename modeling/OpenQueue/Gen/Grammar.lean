import OpenQueue.Gen.Complete
import OpenQueue.Lib.Lexer

/-!
# The grammar of a line

The words of the policy language are separated by blanks and delimiters. A line states
what a rendering states if it has the same tokens; then it differs from the rendering in
the blanks between the tokens only.
-/

namespace OpenQueue.Gen

open Lib (Text Jre)
open Lib.Text

/-! ## Tokens -/

def isDelimiter (c : Char) : Bool := c ∈ "=;(),.\x7b\x7d\"<>!".toList

/-- The tokens of a line. -/
abbrev lex (s : Text) : List Text := tokens isDelimiter s

/-- A name is a single word. -/
def isName (t : Text) : Bool := !t.isEmpty && t.all (isPlain isDelimiter)

/-- A number is written without blanks and delimiters besides the decimal point. -/
def isNumber (t : Text) : Bool := !t.isEmpty && t.all fun c => isPlain isDelimiter c || c = '.'

/-! ## Statements -/

def Operand.InGrammar : Operand Text → Prop
  | .num n => isNumber n
  | _ => True

def Inline.InGrammar : Inline Text → Prop
  | .operand o => o.InGrammar
  | .compare _ lhs rhs => lhs.InGrammar ∧ rhs.InGrammar

def Rhs.InGrammar : Rhs → Prop
  | .routine name => isName name
  | .call name params => isName name ∧ params ≠ [] ∧ ∀ p ∈ params, isNumber p
  | .inline e => e.InGrammar

/-- The words that other statements begin with. -/
def keywords : List Text := ["import".toList, "Queue".toList, "Port".toList]

def Stmt.InGrammar : Stmt → Prop
  | .imports file => '"' ∉ file ∧ ".h".toList <:+ file
  | .queue name _ => isName name
  | .port name queues => isName name ∧ queues ≠ [] ∧ ∀ n ∈ queues, isName n
  | .assign obj _ rhs => isName obj ∧ obj ∉ keywords ∧ rhs.InGrammar

/-- A line states this, up to insignificant blanks. The size of a queue may be written in
any way that Java reads. -/
def Stmt.Written (jre : Jre) (line : Text) : Stmt → Prop
  | .queue name size =>
    ∃ digits, jre.parseInt digits = some size ∧ lex line = lex (declaration "Queue".toList name digits)
  | stmt => lex line = lex stmt.text

/-! ## The tokens of a rendering -/

section Rendering

variable {name t : Text}

theorem not_blank_of_isDelimiter {c : Char} (hc : isDelimiter c) : isBlank c = false := by
  have all : "=;(),.\x7b\x7d\"<>!".toList.all fun c => !isBlank c := by decide
  simpa using List.all_eq_true.1 all c (by simpa [isDelimiter] using hc)

theorem lex_delim {c : Char} (hc : isDelimiter c) (u v : Text) : lex (u ++ c :: v) = lex u ++ [c] :: lex v :=
  tokens_delim hc (not_blank_of_isDelimiter hc) u v

theorem mem_lex_iff {c : Char} (hc : isDelimiter c) : [c] ∈ lex t ↔ c ∈ t :=
  mem_tokens_iff hc (not_blank_of_isDelimiter hc)

theorem lex_replicate {c : Char} (hc : isDelimiter c) (u : Text) (k : Nat) :
    lex (u ++ List.replicate k c) = lex u ++ List.replicate k [c] :=
  tokens_replicate hc (not_blank_of_isDelimiter hc) u k

theorem lex_trim (s : Text) : lex s.trim = lex s := tokens_trim s

theorem lex_cons {c : Char} (hb : isBlank c = false) (s : Text) : ∃ w ws, lex (c :: s) = (c :: w) :: ws :=
  tokens_cons hb s

theorem flatten_lex (none : ∀ c ∈ t, isBlank c = false) : (lex t).flatten = t := flatten_tokens none

theorem lex_space (u v : Text) : lex (u ++ ' ' :: v) = lex u ++ lex v := tokens_blank (by decide) u v

theorem isName_iff : isName t ↔ t ≠ [] ∧ ∀ c ∈ t, isPlain isDelimiter c := by
  simp [isName, List.all_eq_true]

theorem isNumber_iff : isNumber t ↔ t ≠ [] ∧ ∀ c ∈ t, isPlain isDelimiter c ∨ c = '.' := by
  simp [isNumber, List.all_eq_true]

theorem lex_name (h : isName t) : lex t = [t] :=
  tokens_word (isName_iff.1 h).1 (isName_iff.1 h).2

/-- There is no delimiter in a name. -/
theorem not_mem_name (h : isName t) {c : Char} (hc : isDelimiter c) : c ∉ t := by
  intro mem
  have other := (isPlain_iff.1 ((isName_iff.1 h).2 c mem)).2
  cases hc.symm.trans other

theorem number_no_blank (h : isNumber t) (c : Char) (mem : c ∈ t) : isBlank c = false := by
  rcases (isNumber_iff.1 h).2 c mem with plain | rfl
  · exact (isPlain_iff.1 plain).1
  · rfl

theorem not_mem_number (h : isNumber t) {c : Char} (hc : isDelimiter c) (other : c ≠ '.') : c ∉ t := by
  intro mem
  rcases (isNumber_iff.1 h).2 c mem with plain | dot
  · cases hc.symm.trans (isPlain_iff.1 plain).2
  · exact other dot

theorem lex_number_ne_nil (h : isNumber t) : lex t ≠ [] := by
  intro empty
  obtain ⟨some, -⟩ := isNumber_iff.1 h
  obtain ⟨c, t, rfl⟩ := List.exists_cons_of_ne_nil some
  have blank := tokens_eq_nil_iff.1 empty c List.mem_cons_self
  cases blank.symm.trans (number_no_blank h c List.mem_cons_self)

theorem lex_commas {v : Text} (hv : Blank v) (items : List Text) :
    lex ((',' :: v).intercalate items) = [[',']].intercalate (items.map lex) :=
  tokens_intercalate rfl rfl hv items

theorem lex_list (items : List Text) : lex (", ".toList.intercalate items) = [[',']].intercalate (items.map lex) :=
  lex_commas (v := [' ']) (by simp [Blank, isBlank]) items

theorem lex_declaration {kind args : Text} (hk : isName kind) (hn : isName name) :
    lex (declaration kind name args) = [kind, name] ++ ['='] :: ([kind] ++ ['('] :: (lex args ++ [')'] :: [[';']])) := by
  have shape : declaration kind name args =
      kind ++ ' ' :: ((name ++ [' ']) ++ '=' :: ([] ++ ' ' :: (kind ++ '(' :: (args ++ ')' :: ([] ++ ';' :: []))))) := by
    simp [declaration]
  rw [shape, lex_space, lex_delim rfl, lex_space name, lex_space, lex_delim rfl, lex_delim rfl, lex_delim rfl,
    lex_name hk, lex_name hn]
  rfl

theorem lex_import (file : Text) :
    lex (Stmt.imports file).text = ["import".toList] ++ ['"'] :: (lex file ++ [['"']]) := by
  have shape : (Stmt.imports file).text = "import ".toList ++ '"' :: (file ++ '"' :: []) := by
    show "import \"".toList ++ file ++ "\"".toList = _
    simp
  rw [shape, lex_delim rfl, lex_delim rfl]
  rfl

theorem lex_assign {obj : Text} (ho : isName obj) (attr : AnyAttr) (rhs : Rhs) :
    lex (Stmt.assign obj attr rhs).text =
      [obj] ++ ['.'] :: ([attr.text] ++ ['='] :: (lex rhs.text ++ [[';']])) := by
  have word : lex attr.text = [attr.text] := by rcases attr with a | a <;> cases a <;> decide
  have shape : (Stmt.assign obj attr rhs).text =
      obj ++ '.' :: ((attr.text ++ [' ']) ++ '=' :: ([] ++ ' ' :: (rhs.text ++ ';' :: []))) := by
    show obj ++ ".".toList ++ attr.text ++ " = ".toList ++ rhs.text ++ ";".toList = _
    simp
  rw [shape, lex_delim rfl, lex_delim rfl, lex_space attr.text, lex_space, lex_delim rfl, lex_name ho, word]
  rfl

theorem lex_call (hn : isName name) (params : List Text) :
    lex (Rhs.call name params).text = [name] ++ ['('] :: ([[',']].intercalate (params.map lex) ++ [[')']]) := by
  rw [Rhs.text_call, lex_delim rfl, lex_delim rfl, lex_list, lex_name hn]
  rfl

theorem lex_inline (e : Inline Text) :
    lex (Rhs.inline e).text = ["inline".toList] ++ ['\x7b'] :: (lex e.text ++ [['\x7d']]) := by
  have shape : (Rhs.inline e).text = "inline".toList ++ '\x7b' :: (e.text ++ '\x7d' :: []) := by
    rw [Rhs.text_inline]
    simp
  rw [shape, lex_delim rfl, lex_delim rfl]
  rfl

theorem lex_compare (op : Lib.Comparison) (lhs rhs : Operand Text) :
    lex (Inline.compare op lhs rhs).text = lex lhs.text ++ (lex (opText op) ++ lex rhs.text) := by
  have shape : (Inline.compare op lhs rhs).text = lhs.text ++ ' ' :: (opText op ++ ' ' :: rhs.text) := by
    show lhs.text ++ " ".toList ++ opText op ++ " ".toList ++ rhs.text = _
    simp
  rw [shape, lex_space, lex_space]

end Rendering

end OpenQueue.Gen
