import OpenQueue.Gen.Grammar
import OpenQueue.Gen.Shape

/-!
# Right-hand sides of which nothing is dropped

A right-hand side that is accepted has the tokens of the statement that it was read as
exactly if its text passes some checks at the places where the validators do not look.
-/

namespace OpenQueue.Gen

open Lib (Text Jre PutMap append_inj_of_stop)
open Lib.Text

/-! ## The checks -/

/-- `KIND.attr`, without more text at the kind and without more dots. -/
structure FieldKept (kind t : Text) : Prop where
  object : (upTo '.' t).trim = kind
  last : t.getLast? ≠ some '.'

section Checks

variable (number : Text → Option (BitVec 32))

/-- An attribute as above, or the text of an `int`. -/
def OperandKept (t : Text) : Prop :=
  if t.startsWith "Queue".toList then FieldKept "Queue".toList t
  else if t.startsWith "Packet".toList then FieldKept "Packet".toList t
  else (number t).isSome

def ExprKept (body : Text) : Prop :=
  match body.split " ".toList with
  | [x] => OperandKept number x.trim
  | [x, _, y] => OperandKept number x.trim ∧ OperandKept number y.trim
  | _ => True

/-- Nothing between the word and the braces, and nothing after them. -/
structure InlineKept (rhs : Text) : Prop where
  word : (upTo '\x7b' rhs).trim = "inline".toList
  ends : after '\x7d' rhs = []
  body : ExprKept number (upTo '\x7d' (after '\x7b' rhs))

/-- A list of parameters is closed, does not end with a comma, and nothing follows it. -/
structure CallKept (rhs : Text) : Prop where
  name : isName (upTo '(' rhs)
  closed : '(' ∈ rhs → ')' ∈ rhs ∧ after ')' rhs = [] ∧ (upTo ')' (after '(' rhs)).trim.getLast? ≠ some ','

def RhsKept (rhs : Text) : Prop :=
  if rhs.startsWith "inline".toList then InlineKept number rhs else CallKept rhs

end Checks

/-! ## Attributes -/

section Fields

variable {kind t attr object field : Text} {dots : Nat}

theorem FieldShape.exists_rest (shape : FieldShape kind t attr object field dots) : ∃ rest, t = kind ++ rest := by
  obtain ⟨rest, split⟩ := startsWith_iff.1 shape.starts
  refine ⟨rest ++ '.' :: field ++ List.replicate dots '.', ?_⟩
  rw [shape.text_eq, ← split]
  simp only [List.append_assoc]

theorem FieldShape.queue_kept_eq (shape : FieldShape "Queue".toList t attr object field dots)
    (number : Text → Option (BitVec 32)) : OperandKept number t = FieldKept "Queue".toList t := by
  obtain ⟨rest, rfl⟩ := shape.exists_rest
  exact if_pos rfl

theorem FieldShape.packet_kept_eq (shape : FieldShape "Packet".toList t attr object field dots)
    (number : Text → Option (BitVec 32)) : OperandKept number t = FieldKept "Packet".toList t := by
  obtain ⟨rest, rfl⟩ := shape.exists_rest
  exact (if_neg (by simp [startsWith])).trans (if_pos rfl)

theorem FieldShape.lex_eq (shape : FieldShape kind t attr object field dots) (word : lex attr = [attr]) :
    lex t = lex object ++ ['.'] :: ([attr] ++ List.replicate dots ['.']) := by
  have inside : lex field = [attr] := by rw [← lex_trim, shape.field_eq, word]
  rw [shape.text_eq, List.append_assoc, List.cons_append, lex_delim rfl, lex_replicate rfl, inside]

theorem FieldShape.kept_iff (shape : FieldShape kind t attr object field dots) (nonempty : attr ≠ []) :
    FieldKept kind t ↔ object.trim = kind ∧ dots = 0 := by
  have whole : t = object ++ '.' :: (field ++ List.replicate dots '.') := by simp [shape.text_eq]
  have first : upTo '.' t = object := by rw [whole, upTo_append shape.free]
  have last : t.getLast? ≠ some '.' ↔ dots = 0 := by
    cases dots with
    | zero =>
      have something : field ≠ [] := by
        rintro rfl
        exact nonempty shape.field_eq.symm
      refine iff_of_true (fun dot => shape.free' ?_) rfl
      rw [whole, List.replicate_zero, List.append_nil, List.getLast?_append_of_ne_nil _ (by simp),
        List.getLast?_cons_of_ne_nil something] at dot
      exact List.mem_of_getLast? dot
    | succ k =>
      refine iff_of_false (not_not.2 ?_) (by simp)
      rw [shape.text_eq, List.replicate_succ', ← List.append_assoc, List.getLast?_concat]
  constructor
  · exact fun kept => ⟨first ▸ kept.object, last.1 kept.last⟩
  · exact fun kept => ⟨first.symm ▸ kept.1, last.2 kept.2⟩

theorem lex_queueAttr (a : QueueAttr) : lex a.text = [a.text] := by cases a <;> decide

theorem lex_packetAttr (a : PacketAttr) : lex a.text = [a.text] := by rcases a with f | f | f <;> cases f <;> decide

theorem lex_queueText (a : QueueAttr) : lex (Operand.queue a).text = ["Queue".toList] ++ ['.'] :: [a.text] := by
  cases a <;> decide

theorem lex_packetText (a : PacketAttr) : lex (Operand.packet a).text = ["Packet".toList] ++ ['.'] :: [a.text] := by
  rcases a with f | f | f <;> cases f <;> decide

end Fields

/-! ## Operands -/

section Operands

variable {jre : Jre} {number : Text → Option (BitVec 32)} {t : Text} {o l : Operand Text} {c c' : Operand (BitVec 32)}
  {X Y : List Text}

theorem isPlain_of_isAlphanum {c : Char} (hc : c.isAlphanum) : isPlain isDelimiter c := by
  refine isPlain_iff.2 ⟨Lib.not_isBlank_of_isWordChar (by simp [Lib.isWordChar, Lib.isIdentChar, hc]), ?_⟩
  have all : "=;(),.\x7b\x7d\"<>!".toList.all fun c => !c.isAlphanum := by decide
  rw [Bool.eq_false_iff]
  intro delim
  have other := List.all_eq_true.1 all c (by simpa [isDelimiter] using delim)
  simp [hc] at other

theorem isNumber_of_parseDouble (law : jre.PlainNumbers) {d : jre.Double} (tight : Tight t)
    (read : jre.parseDouble t = some d) : isNumber t := by
  obtain ⟨c, s, rfl, -⟩ := law.first t d tight read
  refine isNumber_iff.2 ⟨List.cons_ne_nil c s, fun e mem => ?_⟩
  rcases law.chars _ d tight read e mem with alnum | rfl | rfl | rfl
  · exact .inl (isPlain_of_isAlphanum alnum)
  · exact .inr rfl
  · exact .inl rfl
  · exact .inl rfl

/-- How an operand begins. -/
def Operand.Begins (c : Char) : Operand Text → Prop
  | .queue _ => c = 'Q'
  | .packet _ => c = 'P'
  | .num n => isNumber n ∧ c ∈ n ∧ c ≠ 'Q' ∧ c ≠ 'P'

theorem Operand.begins_num (law : jre.PlainNumbers) {d : jre.Double} (tight : Tight t)
    (read : jre.parseDouble t = some d) : ∃ c s, t = c :: s ∧ (Operand.num t).Begins c := by
  obtain ⟨c, s, rfl, other⟩ := law.first t d tight read
  exact ⟨c, s, rfl, isNumber_of_parseDouble law tight read, List.mem_cons_self, other⟩

theorem toInt?_eq_some {n : BitVec 32} (read : toInt? jre t = some n) : ∃ d, jre.parseDouble t = some d := by
  obtain ⟨d, read, -⟩ := Option.map_eq_some_iff.1 read
  exact ⟨d, read⟩

theorem ReadsOperand.begins (law : jre.PlainNumbers) (tight : Tight t) (read : ReadsOperand t o)
    (value : o.mapNum (toInt? jre) = some c) : ∃ c s, t = c :: s ∧ o.Begins c := by
  cases read with
  | queue shape =>
    obtain ⟨rest, rfl⟩ := shape.exists_rest
    exact ⟨'Q', _, rfl, rfl⟩
  | packet shape =>
    obtain ⟨rest, rfl⟩ := shape.exists_rest
    exact ⟨'P', _, rfl, rfl⟩
  | num =>
    obtain ⟨n, read, -⟩ := Option.map_eq_some_iff.1 value
    rw [tight.trim_eq] at read ⊢
    obtain ⟨d, read⟩ := toInt?_eq_some read
    exact Operand.begins_num law tight read

theorem Operand.begins_text (law : jre.PlainNumbers) (h : l.InGrammar) (value : l.mapNum (toInt? jre) = some c) :
    ∃ c s, l.text = c :: s ∧ l.Begins c := by
  cases l with
  | queue a => exact ⟨'Q', _, rfl, rfl⟩
  | packet a => exact ⟨'P', _, rfl, rfl⟩
  | num n =>
    obtain ⟨m, read, -⟩ := Option.map_eq_some_iff.1 value
    obtain ⟨d, read⟩ := toInt?_eq_some read
    exact Operand.begins_num law (tight_of_no_blank (number_no_blank h)) read

theorem Operand.Begins.not_blank {c : Char} (h : o.Begins c) : isBlank c = false := by
  cases o with
  | queue a =>
    cases h
    rfl
  | packet a =>
    cases h
    rfl
  | num n => exact number_no_blank h.1 c h.2.1

/-- A part of an operator. -/
def isOp (w : Text) : Prop := ∃ c ∈ "=!<>".toList, w = [c]

theorem isDelimiter_of_op {c : Char} (op : c ∈ "=!<>".toList) : isDelimiter c ∧ c ≠ '.' := by
  have all : "=!<>".toList.all fun c => isDelimiter c && c ≠ '.' := by decide
  simpa using List.all_eq_true.1 all c op

theorem Operand.Begins.not_op {c : Char} (h : o.Begins c) : c ∉ "=!<>".toList := by
  intro op
  cases o with
  | queue a =>
    cases h
    revert op
    decide
  | packet a =>
    cases h
    revert op
    decide
  | num n =>
    obtain ⟨delim, other⟩ := isDelimiter_of_op op
    exact not_mem_number h.1 delim other h.2.1

/-- An operand does not begin with an operator. -/
theorem not_isOp_of_begins (begins : ∃ c s, t = c :: s ∧ o.Begins c) (w : Text) (first : (lex t).head? = some w) :
    ¬ isOp w := by
  obtain ⟨c, s, rfl, begins⟩ := begins
  obtain ⟨v, vs, split⟩ := lex_cons begins.not_blank s
  rw [split, List.head?_cons, Option.some.injEq] at first
  subst first
  rintro ⟨e, op, single⟩
  obtain ⟨rfl, -⟩ := List.cons.inj single
  exact begins.not_op op

/-- Two operands with the same tokens begin in the same way. -/
theorem begins_of_lex {t' : Text} (begins : ∃ c s, t = c :: s ∧ o.Begins c) (begins' : ∃ c s, t' = c :: s ∧ l.Begins c)
    (same : lex t ++ X = lex t' ++ Y) : ∃ c, o.Begins c ∧ l.Begins c := by
  obtain ⟨c, s, rfl, begins⟩ := begins
  obtain ⟨c', s', rfl, begins'⟩ := begins'
  obtain ⟨v, vs, split⟩ := lex_cons begins.not_blank s
  obtain ⟨v', vs', split'⟩ := lex_cons begins'.not_blank s'
  rw [split, split', List.cons_append, List.cons_append] at same
  obtain ⟨rfl, -⟩ := List.cons.inj (List.cons.inj same).1
  exact ⟨c, begins, begins'⟩

/-- An attribute followed by an operator or by nothing. -/
theorem FieldShape.kept_of_lex {kind attr attr' object field : Text} {dots : Nat}
    (shape : FieldShape kind t attr object field dots) (word : lex attr = [attr]) (nonempty : attr ≠ []) (dot : '.' ∉ kind)
    (stop : ∀ w, Y.head? = some w → isOp w) (same : lex t ++ X = ([kind] ++ ['.'] :: [attr']) ++ Y) :
    FieldKept kind t ∧ X = Y := by
  rw [shape.lex_eq word, List.append_assoc, List.append_assoc, List.cons_append, List.cons_append] at same
  have free : ['.'] ∉ lex object := fun mem => shape.free (mem_of_mem_tokens mem (List.mem_singleton_self _))
  have free' : ['.'] ∉ [kind] := by
    rw [List.mem_singleton]
    rintro rfl
    exact dot (List.mem_singleton_self _)
  obtain ⟨single, rest⟩ := append_sep_inj free free' same
  have rest : List.replicate dots ['.'] ++ X = Y := (List.cons.inj rest).2
  cases dots with
  | zero => exact ⟨(shape.kept_iff nonempty).2 ⟨trim_eq_of_tokens single, rfl⟩, rest⟩
  | succ k =>
    obtain ⟨c, op, single⟩ := stop ['.'] (by rw [← rest]; rfl)
    obtain ⟨rfl, -⟩ := List.cons.inj single
    exact absurd op (by decide)

/-- An accepted operand with the tokens of an operand. -/
theorem operandKept_of_lex (law : jre.PlainNumbers) (cast : ∀ t n, number t = some n → toInt? jre t = some n)
    (tight : Tight t) (read : ReadsOperand t o) (value : o.mapNum (toInt? jre) = some c) (h : l.InGrammar)
    (value' : l.mapNum number = some c') (stop : ∀ w, X.head? = some w → isOp w)
    (stop' : ∀ w, Y.head? = some w → isOp w) (same : lex t ++ X = lex l.text ++ Y) : OperandKept number t ∧ X = Y := by
  have valueInt : l.mapNum (toInt? jre) = some c' := by
    cases l with
    | queue a => exact value'
    | packet a => exact value'
    | num n =>
      obtain ⟨m, found, rfl⟩ := Option.map_eq_some_iff.1 value'
      rw [Operand.mapNum, cast n m found, Option.map_some]
  obtain ⟨e, begins, begins'⟩ := begins_of_lex (read.begins law tight value) (Operand.begins_text law h valueInt) same
  cases read with
  | @queue a object field dots shape =>
    cases begins
    cases l with
    | queue a' =>
      rw [lex_queueText] at same
      rw [shape.queue_kept_eq]
      exact shape.kept_of_lex (lex_queueAttr a) (by cases a <;> decide) (by decide) stop' same
    | packet a' => cases begins'
    | num n => exact absurd rfl begins'.2.2.1
  | @packet a object field dots shape =>
    cases begins
    cases l with
    | queue a' => cases begins'
    | packet a' =>
      rw [lex_packetText] at same
      rw [shape.packet_kept_eq]
      exact shape.kept_of_lex (lex_packetAttr a) (by rcases a with f | f | f <;> cases f <;> decide) (by decide) stop' same
    | num n => exact absurd rfl begins'.2.2.2
  | num queue packet =>
    obtain ⟨isNum, -, notQ, notP⟩ := begins
    rw [tight.trim_eq] at isNum
    cases l with
    | queue a' => exact absurd begins' notQ
    | packet a' => exact absurd begins' notP
    | num n =>
      have free : ∀ {n : Text}, isNumber n → ∀ w ∈ lex n, ¬ isOp w := by
        rintro n h _ mem ⟨c, op, rfl⟩
        obtain ⟨delim, other⟩ := isDelimiter_of_op op
        exact not_mem_number h delim other ((mem_lex_iff delim).1 mem)
      obtain ⟨tokens, rest⟩ := append_inj_of_stop (free isNum) (free h) stop stop' same
      have text : t = n := by
        rw [← flatten_lex (number_no_blank isNum), ← flatten_lex (t := n) (number_no_blank h)]
        exact congrArg List.flatten tokens
      obtain ⟨m, found, -⟩ := Option.map_eq_some_iff.1 value'
      refine ⟨?_, rest⟩
      rw [OperandKept, queue, packet, if_neg (by decide), if_neg (by decide), text, found]
      rfl

/-- An operand of which nothing is dropped has the tokens of what it is read as. -/
theorem OperandKept.lex_eq (law : jre.PlainNumbers) (cast : ∀ t n, number t = some n → toInt? jre t = some n)
    (tight : Tight t) (read : ReadsOperand t o) (value : o.mapNum (toInt? jre) = some c) (kept : OperandKept number t) :
    lex t = lex o.text ∧ o.InGrammar ∧ o.mapNum number = some c := by
  have begins := read.begins law tight value
  cases read with
  | @queue a object field dots shape =>
    rw [shape.queue_kept_eq] at kept
    obtain ⟨object, rfl⟩ := (shape.kept_iff (by cases a <;> decide)).1 kept
    refine ⟨?_, trivial, value⟩
    rw [shape.lex_eq (lex_queueAttr a), lex_queueText, ← lex_trim, object]
    rfl
  | @packet a object field dots shape =>
    rw [shape.packet_kept_eq] at kept
    obtain ⟨object, rfl⟩ := (shape.kept_iff (by rcases a with f | f | f <;> cases f <;> decide)).1 kept
    refine ⟨?_, trivial, value⟩
    rw [shape.lex_eq (lex_packetAttr a), lex_packetText, ← lex_trim, object]
    rfl
  | num queue packet =>
    rw [tight.trim_eq] at value begins ⊢
    rw [OperandKept, queue, packet, if_neg (by decide), if_neg (by decide), Option.isSome_iff_exists] at kept
    obtain ⟨m, found⟩ := kept
    obtain ⟨_, _, _, isNum, -⟩ := begins
    obtain ⟨m', found', rfl⟩ := Option.map_eq_some_iff.1 value
    cases (cast t m found).symm.trans found'
    exact ⟨rfl, isNum, by rw [Operand.mapNum, found, Option.map_some]⟩

end Operands

/-! ## Expressions -/

section Expressions

variable {jre : Jre} {number : Text → Option (BitVec 32)} {body : Text} {e e' : Inline Text} {c c' : Inline (BitVec 32)}

theorem isOp_of_mem_opText {op : Lib.Comparison} {w : Text} (mem : w ∈ lex (opText op)) : isOp w := by
  have all : (lex (opText op)).all fun w => "=!<>".toList.any fun c => w = [c] := by cases op <;> decide
  have here := List.all_eq_true.1 all w mem
  obtain ⟨c, op, same⟩ := List.any_eq_true.1 here
  exact ⟨c, op, of_decide_eq_true same⟩

theorem lex_opText_ne_nil (op : Lib.Comparison) : lex (opText op) ≠ [] := by cases op <;> decide

/-- An operator stops an operand. -/
theorem isOp_head {op : Lib.Comparison} {X : List Text} (w : Text) (first : (lex (opText op) ++ X).head? = some w) :
    isOp w := by
  rw [List.head?_append_of_ne_nil _ (lex_opText_ne_nil op)] at first
  exact isOp_of_mem_opText (List.mem_of_head? first)

theorem lex_triple {x p y : Text} (pieces : body.split " ".toList = [x, p, y]) :
    lex body = lex x.trim ++ (lex p.trim ++ lex y.trim) := by
  obtain ⟨-, -, -, -, k, rfl⟩ := split_eq_triple_iff (c := ' ').1 pieces
  have blank : Blank (List.replicate k ' ') := fun c mem => by
    rw [List.eq_of_mem_replicate mem]
    rfl
  rw [lex_trim, lex_trim, lex_trim, lex, tokens_append_blanks blank, List.append_assoc, List.cons_append,
    tokens_blank rfl, tokens_blank rfl]

theorem lex_single {x : Text} (pieces : body.split " ".toList = [x]) : lex body = lex x.trim := by
  obtain ⟨-, k, rfl, -⟩ := split_eq_single_iff (c := ' ').1 pieces
  have blank : Blank (List.replicate k ' ') := fun c mem => by
    rw [List.eq_of_mem_replicate mem]
    rfl
  rw [lex_trim, lex, tokens_append_blanks blank]

theorem Inline.mapNum_compare {ν μ : Type} {f : ν → Option μ} {op : Lib.Comparison} {l r : Operand ν} {c : Inline μ}
    (values : (Inline.compare op l r).mapNum f = some c) :
    ∃ l' r', l.mapNum f = some l' ∧ r.mapNum f = some r' ∧ c = .compare op l' r' := by
  obtain ⟨l', left, values⟩ := Option.bind_eq_some_iff.1 values
  obtain ⟨r', right, values⟩ := Option.bind_eq_some_iff.1 values
  cases values
  exact ⟨l', r', left, right, rfl⟩

/-- An accepted expression with the tokens of an expression. -/
theorem exprKept_of_lex (law : jre.PlainNumbers) (cast : ∀ t n, number t = some n → toInt? jre t = some n)
    (read : ReadsExpr body e) (values : e.mapNum (toInt? jre) = some c) (h : e'.InGrammar)
    (values' : e'.mapNum number = some c') (same : lex body = lex e'.text) : ExprKept number body := by
  have nothing : ∀ w : Text, ([] : List Text).head? = some w → isOp w := nofun
  cases read with
  | operand pieces read =>
    obtain ⟨v, value, rfl⟩ := Option.map_eq_some_iff.1 values
    rw [lex_single pieces] at same
    simp only [ExprKept, pieces]
    cases e' with
    | operand l =>
      obtain ⟨v', value', rfl⟩ := Option.map_eq_some_iff.1 values'
      refine (operandKept_of_lex law cast (tight_trim _) read value h value' nothing nothing ?_).1
      rw [List.append_nil, List.append_nil]
      exact same
    | compare op l r =>
      obtain ⟨l', r', left, -, rfl⟩ := Inline.mapNum_compare values'
      rw [lex_compare, ← List.append_nil (lex _)] at same
      have ends := (operandKept_of_lex law cast (tight_trim _) read value h.1 left nothing isOp_head same).2
      exact absurd (List.append_eq_nil_iff.1 ends.symm).1 (lex_opText_ne_nil op)
  | @compare x p y lo ro op pieces left right is =>
    obtain ⟨lv, rv, valueL, valueR, rfl⟩ := Inline.mapNum_compare values
    rw [lex_triple pieces, is] at same
    simp only [ExprKept, pieces]
    cases e' with
    | operand l =>
      obtain ⟨v', value', rfl⟩ := Option.map_eq_some_iff.1 values'
      have same : lex x.trim ++ (lex (opText op) ++ lex y.trim) = lex l.text ++ [] := by
        rw [List.append_nil]
        exact same
      have ends := (operandKept_of_lex law cast (tight_trim _) left valueL h value' isOp_head nothing same).2
      exact absurd (List.append_eq_nil_iff.1 ends).1 (lex_opText_ne_nil op)
    | compare op' l r =>
      obtain ⟨l', r', valueL', valueR', rfl⟩ := Inline.mapNum_compare values'
      rw [lex_compare] at same
      obtain ⟨keptL, rest⟩ := operandKept_of_lex law cast (tight_trim _) left valueL h.1 valueL' isOp_head isOp_head same
      -- the operators are the tokens up to the second operand
      have beginsR := right.begins law (tight_trim _) valueR
      have valueInt : r.mapNum (toInt? jre) = some r' := by
        have mono := Inline.mapNum_mono (e := .operand r) cast (by rw [Inline.mapNum, valueR', Option.map_some])
        obtain ⟨v, found, same⟩ := Option.map_eq_some_iff.1 mono
        cases same
        exact found
      have beginsR' := Operand.begins_text law h.2 valueInt
      obtain ⟨-, same⟩ := append_inj_of_stop (p := fun w => ¬ isOp w) (fun w mem => not_not.2 (isOp_of_mem_opText mem))
        (fun w mem => not_not.2 (isOp_of_mem_opText mem)) (not_isOp_of_begins beginsR) (not_isOp_of_begins beginsR') rest
      refine ⟨keptL, (operandKept_of_lex law cast (tight_trim _) right valueR h.2 valueR' nothing nothing ?_).1⟩
      rw [List.append_nil, List.append_nil]
      exact same

/-- An expression of which nothing is dropped has the tokens of what it is read as. -/
theorem ExprKept.lex_eq (law : jre.PlainNumbers) (cast : ∀ t n, number t = some n → toInt? jre t = some n)
    (read : ReadsExpr body e) (values : e.mapNum (toInt? jre) = some c) (kept : ExprKept number body) :
    lex body = lex e.text ∧ e.InGrammar ∧ e.mapNum number = some c := by
  cases read with
  | operand pieces read =>
    obtain ⟨v, value, rfl⟩ := Option.map_eq_some_iff.1 values
    simp only [ExprKept, pieces] at kept
    obtain ⟨tokens, good, exact⟩ := kept.lex_eq law cast (tight_trim _) read value
    exact ⟨(lex_single pieces).trans tokens, good, by rw [Inline.mapNum, exact, Option.map_some]⟩
  | compare pieces left right is =>
    obtain ⟨lv, rv, valueL, valueR, rfl⟩ := Inline.mapNum_compare values
    simp only [ExprKept, pieces] at kept
    obtain ⟨tokensL, goodL, exactL⟩ := kept.1.lex_eq law cast (tight_trim _) left valueL
    obtain ⟨tokensR, goodR, exactR⟩ := kept.2.lex_eq law cast (tight_trim _) right valueR
    refine ⟨?_, ⟨goodL, goodR⟩, by rw [Inline.mapNum, exactL, exactR]; rfl⟩
    rw [lex_triple pieces, lex_compare, tokensL, tokensR, is]

end Expressions

/-! ## Right-hand sides -/

section Rhs

variable {jre : Jre} {number : Text → Option (BitVec 32)} {routines : PutMap Text Routine} {type : RoutineType}
  {r : Text} {s s' : Statement jre.Double} {rhs : Rhs}

theorem CallShape.kept_iff {name args extra : Text} (shape : CallShape r name args extra) :
    CallKept r ↔ isName name ∧ extra = [] ∧ args.trim.getLast? ≠ some ',' := by
  have opened : '(' ∈ r := by simp [shape.rhs_eq]
  have closed : ')' ∈ r := by simp [shape.rhs_eq]
  have first : upTo '(' r = name := by rw [shape.rhs_eq, upTo_append shape.opens]
  have inside : upTo ')' (after '(' r) = args := by
    rw [shape.rhs_eq, after_append shape.opens, upTo_append shape.closes]
  have free : ')' ∉ name ++ '(' :: args := by simp [shape.early, shape.closes]
  have last : after ')' r = extra := by
    rw [shape.rhs_eq, ← List.cons_append, ← List.append_assoc, after_append free]
  constructor
  · intro kept
    obtain ⟨-, ends, comma⟩ := kept.closed opened
    exact ⟨first ▸ kept.name, last.symm.trans ends, inside ▸ comma⟩
  · rintro ⟨name, ends, comma⟩
    exact ⟨first.symm ▸ name, fun _ => ⟨closed, last.trans ends, inside.symm ▸ comma⟩⟩

theorem InlineShape.kept_iff {word body extra : Text} (shape : InlineShape r word body extra) :
    InlineKept number r ↔ word.trim = "inline".toList ∧ extra = [] ∧ ExprKept number body := by
  have first : upTo '\x7b' r = word := by rw [shape.rhs_eq, upTo_append shape.opens]
  have inside : upTo '\x7d' (after '\x7b' r) = body := by
    rw [shape.rhs_eq, after_append shape.opens, upTo_append shape.closes]
  have free : '\x7d' ∉ word ++ '\x7b' :: body := by simp [shape.early, shape.closes]
  have last : after '\x7d' r = extra := by
    rw [shape.rhs_eq, ← List.cons_append, ← List.append_assoc, after_append free]
  constructor
  · exact fun kept => ⟨first ▸ kept.word, last.symm.trans kept.ends, inside ▸ kept.body⟩
  · exact fun kept => ⟨first.symm ▸ kept.1, last.trans kept.2.1, inside.symm ▸ kept.2.2⟩

/-- The routine of a right-hand side that is not an inline statement. -/
theorem ReadsRhs.routine (reads : ReadsRhs jre routines r type s) (other : r.startsWith "inline".toList = false) :
    ∃ q, routines.get (upTo '(' r) = some q := by
  cases reads with
  | inline starts => cases starts.symm.trans other
  | bare _ found => exact ⟨_, found⟩
  | empty _ found shape => exact ⟨_, by rw [shape.rhs_eq, upTo_append shape.opens]; exact found⟩
  | call _ found shape => exact ⟨_, by rw [shape.rhs_eq, upTo_append shape.opens]; exact found⟩

/-- An inline statement has an opening brace. -/
theorem ReadsRhs.brace (reads : ReadsRhs jre routines r type s) (free : ['\x7b'] ∉ lex r) :
    r.startsWith "inline".toList = false := by
  cases reads with
  | inline _ shape =>
    refine absurd ((mem_lex_iff rfl).2 ?_) free
    simp [shape.rhs_eq]
  | bare other => exact other
  | empty other => exact other
  | call other => exact other

/-- The tokens of a list that does not end with a comma. -/
theorem lex_items {args : Text} (something : args.split ",".toList ≠ []) (comma : args.getLast? ≠ some ',') :
    lex args = [[',']].intercalate (((args.split ",".toList).map trim).map lex) := by
  obtain ⟨-, k, join, -⟩ := (split_eq_iff (c := ',') something).1 rfl
  cases k with
  | zero =>
    have tokens := lex_commas blank_nil (args.split ",".toList)
    rw [List.replicate_zero, List.append_nil] at join
    rw [List.map_map, show lex ∘ trim = lex from funext lex_trim, ← tokens]
    exact congrArg lex join
  | succ k =>
    refine absurd ?_ comma
    rw [join, List.replicate_succ', ← List.append_assoc, List.getLast?_concat]

theorem not_mem_list {c : Char} {params : List Text} (hp : ∀ p ∈ params, isNumber p) (hc : isDelimiter c)
    (comma : c ≠ ',') (dot : c ≠ '.') : [c] ∉ [[',']].intercalate (params.map lex) := by
  intro mem
  rcases mem_intercalate mem with sep | ⟨_, mem, inside⟩
  · simp [comma] at sep
  · obtain ⟨p, listed, rfl⟩ := List.mem_map.1 mem
    exact not_mem_number (hp p listed) hc dot ((mem_lex_iff hc).1 inside)

/-- A text with the tokens of a list does not end with a comma. -/
theorem getLast?_ne_comma {args : Text} {items : List Text} (nonempty : items ≠ [])
    (each : ∀ p ∈ items, lex p ≠ [] ∧ ',' ∉ p) (list : lex args = [[',']].intercalate (items.map lex)) :
    args.getLast? ≠ some ',' := by
  intro comma
  obtain ⟨front, rfl⟩ := List.getLast?_eq_some_iff.1 comma
  obtain ⟨init, p, rfl⟩ := (List.eq_nil_or_concat items).resolve_left nonempty
  rw [List.concat_eq_append] at each list
  obtain ⟨some, free⟩ := each p (by simp)
  obtain ⟨front', whole⟩ := exists_intercalate_concat [[',']] (init.map lex) (lex p)
  have last := congrArg List.getLast? list
  rw [lex_delim rfl, List.map_append, List.map_singleton, whole, List.getLast?_append_of_ne_nil _ some,
    show lex ([] : Text) = [] from rfl, List.getLast?_concat] at last
  exact free ((mem_lex_iff rfl).1 (List.mem_of_getLast? last.symm))

/-- The delimiters in an expression. -/
theorem not_mem_inlineText {e : Inline Text} {c : Char} (h : e.InGrammar) (hc : isDelimiter c) (dot : c ≠ '.')
    (op : c ∉ "=!<>".toList) : [c] ∉ lex e.text := by
  have word : ∀ {w : Text}, isName w → [c] ≠ w := by
    rintro _ name rfl
    exact not_mem_name name hc (List.mem_singleton_self c)
  have operand : ∀ o : Operand Text, o.InGrammar → [c] ∉ lex o.text := by
    intro o h
    cases o with
    | queue a =>
      have attr : isName a.text := by cases a <;> decide
      simp [lex_queueText, dot, word attr]
    | packet a =>
      have attr : isName a.text := by rcases a with f | f | f <;> cases f <;> decide
      simp [lex_packetText, dot, word attr]
    | num n => exact fun mem => not_mem_number h hc dot ((mem_lex_iff hc).1 mem)
  cases e with
  | operand o => exact operand o h
  | compare o l r =>
    rw [lex_compare, List.mem_append, List.mem_append, not_or, not_or]
    refine ⟨operand l h.1, fun mem => ?_, operand r h.2⟩
    obtain ⟨d, mem, same⟩ := isOp_of_mem_opText mem
    obtain ⟨rfl, -⟩ := List.cons.inj same
    exact op mem

/-- There is no semicolon in a right-hand side. -/
theorem Rhs.semicolon_not_mem (h : rhs.InGrammar) : [';'] ∉ lex rhs.text := by
  have word : ∀ {w : Text}, isName w → [';'] ≠ w := by
    rintro _ name rfl
    exact absurd name (by decide)
  cases rhs with
  | routine name => exact fun mem => not_mem_name h rfl ((mem_lex_iff rfl).1 mem)
  | call name params =>
    have free := not_mem_list h.2.2 (c := ';') rfl (by decide) (by decide)
    rw [lex_call h.1]
    simp [word h.1, free]
  | inline e =>
    have free := not_mem_inlineText h (c := ';') rfl (by decide) (by decide)
    rw [lex_inline]
    simp [free]

/-- An accepted right-hand side with the tokens of a call. -/
theorem callKept_of_lex {name : Text} {params : List Text} (tight : Tight r)
    (ends : ∀ c, (upTo '(' r).getLast? = some c → isBlank c = false) (h : (Rhs.call name params).InGrammar)
    (same : lex r = lex (Rhs.call name params).text) : CallKept r := by
  rw [lex_call h.1] at same
  have opened : '(' ∈ r := (mem_lex_iff rfl).1 (by rw [same]; simp)
  obtain ⟨n, x, rfl, opens⟩ := List.eq_append_cons_of_mem opened
  have free : ['('] ∉ lex n := fun mem => opens ((mem_lex_iff rfl).1 mem)
  have free' : ['('] ∉ [name] := by
    rw [List.mem_singleton]
    rintro rfl
    exact absurd h.1 (by decide)
  rw [lex_delim rfl] at same
  obtain ⟨first, rest⟩ := append_sep_inj free free' same
  -- the name is not followed by blanks, so it is the one that is written
  rw [upTo_append opens] at ends
  have nonempty : n ≠ [] := by
    rintro rfl
    cases first
  have name_eq : n = name := by
    refine Tight.eq_of_tokens ⟨fun c head => tight.first c ?_, ends⟩ first
    rw [List.head?_append_of_ne_nil _ nonempty, head]
  subst name_eq
  have closed : ')' ∈ x := (mem_lex_iff rfl).1 (by rw [rest]; simp)
  obtain ⟨args, extra, rfl, closes⟩ := List.eq_append_cons_of_mem closed
  rw [lex_delim rfl] at rest
  obtain ⟨list, nothing⟩ := append_sep_inj (fun mem => closes ((mem_lex_iff rfl).1 mem))
    (not_mem_list h.2.2 rfl (by decide) (by decide)) rest
  have shape : CallShape (n ++ '(' :: (args ++ ')' :: extra)) n args extra :=
    ⟨rfl, opens, not_mem_name h.1 rfl, closes⟩
  refine shape.kept_iff.2 ⟨h.1, ?_, ?_⟩
  · have tight : Tight ((n ++ '(' :: (args ++ [')'])) ++ extra) := by simpa using tight
    exact tight.eq_nil_of_blank_right (tokens_eq_nil_iff.1 nothing)
  · refine getLast?_ne_comma h.2.1 (fun p mem => ?_) ((lex_trim args).trans list)
    exact ⟨lex_number_ne_nil (h.2.2 p mem), not_mem_number (h.2.2 p mem) rfl (by decide)⟩

/-- An accepted right-hand side with the tokens of a right-hand side. -/
theorem rhsKept_of_lex (law : jre.PlainNumbers) (cast : ∀ t n, number t = some n → toInt? jre t = some n)
    (tight : Tight r) (reads : ReadsRhs jre routines r type s)
    (tidy : ∀ k q, routines.get k = some q → ∀ c, k.getLast? = some c → isBlank c = false) (h : rhs.InGrammar)
    {type' : RoutineType} (stated : rhs.statement jre number type' = some s') (same : lex r = lex rhs.text) : RhsKept number r := by
  cases rhs with
  | routine name =>
    have single : lex r = [name] := same.trans (lex_name h)
    cases tight.eq_of_tokens single
    have other := reads.brace (fun mem => not_mem_name h rfl ((mem_lex_iff rfl).1 mem))
    have opens : '(' ∉ r := not_mem_name h rfl
    rw [RhsKept, other, if_neg (by decide)]
    exact ⟨by rwa [upTo_of_not_mem opens], fun opened => absurd opened opens⟩
  | call name params =>
    have other : r.startsWith "inline".toList = false := by
      apply reads.brace
      rw [same, lex_call h.1]
      have free := not_mem_list h.2.2 (c := '\x7b') rfl (by decide) (by decide)
      have free' : '\x7b' ∉ name := not_mem_name h.1 rfl
      simp only [List.mem_append, List.mem_cons, not_or, List.not_mem_nil, not_false_eq_true, and_true, List.cons_append,
        List.nil_append]
      refine ⟨?_, by decide, free, by decide⟩
      rintro rfl
      exact free' (List.mem_singleton_self _)
    obtain ⟨q, found⟩ := reads.routine other
    rw [RhsKept, other, if_neg (by decide)]
    exact callKept_of_lex tight (tidy _ q found) h same
  | inline e =>
    obtain ⟨c', values', -⟩ := Option.map_eq_some_iff.1 stated
    rw [lex_inline] at same
    have opened : '\x7b' ∈ r := (mem_lex_iff rfl).1 (by rw [same]; simp)
    have starts : r.startsWith "inline".toList := by
      obtain ⟨word, x, rfl, opens⟩ := List.eq_append_cons_of_mem opened
      rw [lex_delim rfl] at same
      have word_eq := trim_eq_of_tokens
        (append_sep_inj (fun mem => opens ((mem_lex_iff rfl).1 mem)) (by decide) same).1
      obtain ⟨-, u, v, hu, -, rfl⟩ := trim_eq_iff.1 word_eq
      rw [List.append_assoc, List.append_assoc] at tight
      cases tight.eq_nil_of_blank_left hu
      rfl
    cases reads with
    | @inline word body extra e₀ c _ shape read values =>
      rw [RhsKept, if_pos starts]
      have tokens : lex r = lex word ++ ['\x7b'] :: (lex body ++ ['\x7d'] :: lex extra) := by
        rw [shape.rhs_eq, lex_delim rfl, lex_delim rfl]
      rw [tokens] at same
      obtain ⟨first, rest⟩ := append_sep_inj (fun mem => shape.opens ((mem_lex_iff rfl).1 mem)) (by decide) same
      obtain ⟨inside, nothing⟩ := append_sep_inj (fun mem => shape.closes ((mem_lex_iff rfl).1 mem))
        (not_mem_inlineText h rfl (by decide) (by decide)) rest
      refine shape.kept_iff.2 ⟨trim_eq_of_tokens first, ?_, ?_⟩
      · have tight : Tight ((word ++ '\x7b' :: (body ++ ['\x7d'])) ++ extra) := by simpa [shape.rhs_eq] using tight
        exact tight.eq_nil_of_blank_right (tokens_eq_nil_iff.1 nothing)
      · exact exprKept_of_lex law cast (readExpr_shape read) values h values' inside
    | bare other => cases starts.symm.trans other
    | empty other => cases starts.symm.trans other
    | call other => cases starts.symm.trans other

/-- A right-hand side of which nothing is dropped has the tokens of what it is read as. -/
theorem RhsKept.lex_eq (law : jre.PlainNumbers) (cast : ∀ t n, number t = some n → toInt? jre t = some n)
    (reads : ReadsRhs jre routines r type s) (kept : RhsKept number r) :
    ∃ rhs : Rhs, rhs.InGrammar ∧ rhs.statement jre number type = some s ∧ lex r = lex rhs.text := by
  cases reads with
  | @inline word body extra e c starts shape read values =>
    rw [RhsKept, if_pos starts] at kept
    obtain ⟨first, rfl, inside⟩ := shape.kept_iff.1 kept
    obtain ⟨tokens, good, exact⟩ := inside.lex_eq law cast (readExpr_shape read) values
    refine ⟨.inline e, good, by rw [Rhs.statement, exact, Option.map_some], ?_⟩
    rw [shape.rhs_eq, lex_delim rfl, lex_delim rfl, lex_inline, tokens, ← lex_trim word, first]
    rfl
  | bare other found unclosed =>
    rw [RhsKept, other, if_neg (by decide)] at kept
    have opens : '(' ∉ r := fun opened => unclosed opened (kept.closed opened).1
    have name := kept.name
    rw [upTo_of_not_mem opens] at name ⊢
    exact ⟨.routine r, name, rfl, rfl⟩
  | @empty q name args extra other found shape nothing =>
    rw [RhsKept, other, if_neg (by decide)] at kept
    obtain ⟨-, -, comma⟩ := shape.kept_iff.1 kept
    exact absurd (getLast?_of_split_eq_nil nothing) comma
  | @call q name args extra vals other found shape something read =>
    rw [RhsKept, other, if_neg (by decide)] at kept
    obtain ⟨hn, rfl, comma⟩ := shape.kept_iff.1 kept
    have params : ∀ p ∈ (args.trim.split ",".toList).map trim, isNumber p := by
      intro p mem
      obtain ⟨token, listed, rfl⟩ := List.mem_map.1 mem
      obtain ⟨d, read⟩ := Lib.exists_of_mapM read listed
      exact isNumber_of_parseDouble law (tight_trim token) read
    refine ⟨.call name ((args.trim.split ",".toList).map trim), ⟨hn, by simpa using something, params⟩, ?_, ?_⟩
    · have same : ((args.trim.split ",".toList).map trim).mapM jre.parseDouble = some vals := by
        rw [List.mapM_map]
        exact read
      rw [Rhs.statement, same, Option.map_some]
    · rw [shape.rhs_eq, lex_delim rfl, lex_delim rfl, lex_call hn, lex_name hn, ← lex_trim args, lex_items something comma]
      rfl

end Rhs

end OpenQueue.Gen
