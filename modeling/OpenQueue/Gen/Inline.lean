import OpenQueue.Gen.Parser
import OpenQueue.Lib.CInt
import OpenQueue.Lib.Decimal
import OpenQueue.Lib.Splitting

/-!
# Inline expressions

`InlineStatement.validate` reads an expression and prints another in one go. Here the
two are separate: `readExpr` gives the expression that a text stands for, with its
numbers as they are written, and `Inline.cText` the C source of an expression over
`int` constants. Different expressions have different C source, so a statement of a
module can be read back.
-/

namespace OpenQueue.Gen

open Lib (Text Jre)
open Lib.Text (append_sep_inj)

/-! ## Syntax -/

/-- The counters of `struct oq_queue`. -/
inductive QueueAttr where
  | maxLen
  | len
  | dropped
  | total
  deriving DecidableEq

/-- The fields of `struct iphdr` with one byte. -/
inductive ByteField where
  | tos
  | ttl
  | protocol
  deriving DecidableEq

/-- The fields of `struct iphdr` with two bytes. -/
inductive ShortField where
  | totLen
  | id
  deriving DecidableEq

/-- The fields of `struct iphdr` with four bytes. -/
inductive WordField where
  | saddr
  | daddr
  deriving DecidableEq

/-- The fields of `struct iphdr` that an expression may name. -/
inductive PacketAttr where
  | byte (f : ByteField)
  | short (f : ShortField)
  | word (f : WordField)
  deriving DecidableEq

/-- An operand, with its number given as `ν`. -/
inductive Operand (ν : Type) where
  | queue (a : QueueAttr)
  | packet (a : PacketAttr)
  | num (n : ν)
  deriving DecidableEq

/-- An expression. -/
inductive Inline (ν : Type) where
  | operand (o : Operand ν)
  | compare (op : Lib.Comparison) (lhs rhs : Operand ν)
  deriving DecidableEq

def QueueAttr.text : QueueAttr → Text
  | .maxLen => "max_len".toList
  | .len => "len".toList
  | .dropped => "dropped".toList
  | .total => "total".toList

def PacketAttr.text : PacketAttr → Text
  | .byte .tos => "tos".toList
  | .short .totLen => "tot_len".toList
  | .short .id => "id".toList
  | .byte .ttl => "ttl".toList
  | .byte .protocol => "protocol".toList
  | .word .saddr => "saddr".toList
  | .word .daddr => "daddr".toList

def opText : Lib.Comparison → Text
  | .eq => "==".toList
  | .ne => "!=".toList
  | .lt => "<".toList
  | .le => "<=".toList
  | .gt => ">".toList
  | .ge => ">=".toList

section Numbers

variable {ν μ : Type} (f : ν → Option μ)

/-- The same operand with its number read. -/
def Operand.mapNum : Operand ν → Option (Operand μ)
  | .queue a => some (.queue a)
  | .packet a => some (.packet a)
  | .num n => (f n).map .num

/-- The same expression with its numbers read. -/
def Inline.mapNum : Inline ν → Option (Inline μ)
  | .operand o => (o.mapNum f).map .operand
  | .compare op lhs rhs => do
    let lhs ← lhs.mapNum f
    let rhs ← rhs.mapNum f
    return .compare op lhs rhs

end Numbers

/-! ## Reading -/

def queueAttrs : List QueueAttr := [.maxLen, .len, .dropped, .total]

def packetAttrs : List PacketAttr :=
  [.byte .tos, .short .totLen, .short .id, .byte .ttl, .byte .protocol, .word .saddr, .word .daddr]

def operators : List Lib.Comparison := [.eq, .ne, .lt, .le, .gt, .ge]

/-- The operand that a text stands for. -/
def readOperand (subExpr : Text) : Option (Operand Text) :=
  if subExpr.startsWith "Queue".toList then
    match subExpr.split ".".toList with
    | [_, attr] => (queueAttrs.find? fun a => a.text = attr.trim).map .queue
    | _ => none
  else if subExpr.startsWith "Packet".toList then
    match subExpr.split ".".toList with
    | [_, attr] => (packetAttrs.find? fun a => a.text = attr.trim).map .packet
    | _ => none
  else some (.num subExpr.trim)

/-- The expression that a text stands for. -/
def readExpr (exp : Text) : Option (Inline Text) :=
  match exp.split " ".toList with
  | [operand] => (readOperand operand.trim).map .operand
  | [left, op, right] => do
    let lhs ← readOperand left.trim
    let rhs ← readOperand right.trim
    let op ← operators.find? fun o => opText o = op.trim
    return .compare op lhs rhs
  | _ => none

/-- What stands between the braces. -/
def inlineBody (rhs : Text) : Option Text :=
  if rhs.startsWith "inline".toList then do
    let beginIndex ← rhs.indexOf '\x7b'
    let endIndex ← rhs.indexOf '\x7d'
    rhs.substring (beginIndex + 1) endIndex
  else none

/-! ## Printing -/

def Operand.cText : Operand (BitVec 32) → Text
  | .queue a => "queue->".toList ++ a.text
  | .packet a => "((struct iphdr *)skb_header_pointer(skb, 0, 0, NULL))->".toList ++ a.text
  | .num n => Lib.intText n

def Inline.cText : Inline (BitVec 32) → Text
  | .operand o => o.cText
  | .compare op lhs rhs =>
    "(".toList ++ lhs.cText ++ " ".toList ++ opText op ++ " ".toList ++ rhs.cText ++ ")".toList

theorem Operand.cText_queue (a : QueueAttr) : cText (.queue a) = "queue->".toList ++ a.text := rfl

theorem Operand.cText_packet (a : PacketAttr) :
    cText (.packet a) = "((struct iphdr *)skb_header_pointer(skb, 0, 0, NULL))->".toList ++ a.text := rfl

/-- The cast of a number to `int`. -/
def toInt? (jre : Jre) (number : Text) : Option (BitVec 32) := (jre.parseDouble number).map jre.intValue

/-- A table that is searched for a text, where only the text is used. -/
theorem map_find?_text {α β : Type} (l : List α) (f : α → Text) (g : Text → β) (t : Text) :
    ((l.find? fun a => f a = t).map fun a => g (f a)) = if t ∈ l.map f then some (g t) else none := by
  induction l with
  | nil => rfl
  | cons a l ih =>
    by_cases here : f a = t
    · simp [here]
    · simp only [List.find?_cons, here, decide_false, ih, List.map_cons, List.mem_cons, Ne.symm here, false_or]

section Validate

variable {jre : Jre}

theorem validateSubExpr_eq (subExpr : Text) :
    validateSubExpr jre subExpr = ((readOperand subExpr).bind (Operand.mapNum (toInt? jre))).map Operand.cText := by
  rw [validateSubExpr, readOperand]
  split
  · rcases subExpr.split ".".toList with - | ⟨obj, - | ⟨attr, - | ⟨more, rest⟩⟩⟩
    · rfl
    · rfl
    · refine (map_find?_text queueAttrs QueueAttr.text ("queue->".toList ++ ·) attr.trim).symm.trans ?_
      simp only
      cases queueAttrs.find? fun a => a.text = attr.trim <;> rfl
    · rfl
  · split
    · rcases subExpr.split ".".toList with - | ⟨obj, - | ⟨attr, - | ⟨more, rest⟩⟩⟩
      · rfl
      · rfl
      · refine (map_find?_text packetAttrs PacketAttr.text
          ("((struct iphdr *)skb_header_pointer(skb, 0, 0, NULL))->".toList ++ ·) attr.trim).symm.trans ?_
        simp only
        cases packetAttrs.find? fun a => a.text = attr.trim <;> rfl
      · rfl
    · rw [Option.bind_some, Operand.mapNum, toInt?, Option.map_map, Option.map_map]
      rfl

theorem validateExpr_eq (exp : Text) :
    validateExpr jre exp = ((readExpr exp).bind (Inline.mapNum (toInt? jre))).map Inline.cText := by
  rw [validateExpr, readExpr]
  rcases exp.split " ".toList with - | ⟨left, - | ⟨op, - | ⟨right, - | ⟨more, rest⟩⟩⟩⟩
  · rfl
  · simp only [validateSubExpr_eq]
    cases readOperand left.trim with
    | none => rfl
    | some o =>
      show (o.mapNum (toInt? jre)).map Operand.cText = ((o.mapNum (toInt? jre)).map Inline.operand).map Inline.cText
      rw [Option.map_map]
      rfl
  · rfl
  · simp only [validateSubExpr_eq]
    cases readOperand left.trim with
    | none => rfl
    | some l =>
      cases readOperand right.trim with
      | none =>
        show (((l.mapNum (toInt? jre)).map Operand.cText).bind fun _ => none) = none
        exact Option.bind_fun_none _
      | some r =>
        have table := map_find?_text operators opText id op.trim
        cases found : operators.find? fun o => opText o = op.trim with
        | none =>
          have unknown : op.trim ∉ comparisons := by
            intro mem
            rw [found, if_pos (show op.trim ∈ operators.map opText from mem)] at table
            cases table
          show (((l.mapNum (toInt? jre)).map Operand.cText).bind fun _ =>
            ((r.mapNum (toInt? jre)).map Operand.cText).bind fun _ => if op.trim ∈ comparisons then _ else none) = none
          simp only [unknown, if_false, Option.bind_fun_none]
        | some o =>
          have text : opText o = op.trim := by simpa using List.find?_some found
          have known : op.trim ∈ comparisons := by
            rw [← text]
            cases o <;> decide
          cases hl : l.mapNum (toInt? jre) with
          | none => simp [Inline.mapNum, hl]
          | some lhs =>
            cases hr : r.mapNum (toInt? jre) with
            | none => simp [Inline.mapNum, hl, hr]
            | some rhs => simp [Inline.mapNum, Inline.cText, hl, hr, known, text]
  · rfl

theorem validateInline_eq_some_iff {rhs t : Text} :
    validateInline jre rhs = .ok (some t) ↔
      ∃ body e c, inlineBody rhs = some body ∧ readExpr body = some e ∧ e.mapNum (toInt? jre) = some c ∧
        c.cText = t := by
  rw [validateInline, inlineBody]
  split
  · cases rhs.indexOf '\x7b' with
    | none => simp
    | some first =>
      cases rhs.indexOf '\x7d' with
      | none => simp
      | some last =>
        cases body : rhs.substring (first + 1) last with
        | none => simp [body]
        | some body => simp [*, validateExpr_eq, Option.bind_eq_some_iff]
  · simp

end Validate

/-! ## Reading the C source back -/

theorem QueueAttr.text_injective {a b : QueueAttr} (same : a.text = b.text) : a = b := by
  cases a <;> cases b <;> first | rfl | exact absurd same (by decide)

theorem PacketAttr.text_injective {a b : PacketAttr} (same : a.text = b.text) : a = b := by
  revert same
  rcases a with f | f | f <;> rcases b with g | g | g <;> cases f <;> cases g <;> decide

theorem opText_injective {a b : Lib.Comparison} (same : opText a = opText b) : a = b := by
  cases a <;> cases b <;> first | rfl | exact absurd same (by decide)

theorem QueueAttr.not_mem_text (a : QueueAttr) : ' ' ∉ a.text := by cases a <;> decide

theorem PacketAttr.not_mem_text (a : PacketAttr) : ' ' ∉ a.text := by
  rcases a with f | f | f <;> cases f <;> decide

theorem not_mem_opText (op : Lib.Comparison) : ' ' ∉ opText op := by cases op <;> decide

theorem not_mem_intText (n : BitVec 32) : ' ' ∉ Lib.intText n := by
  intro mem
  exact absurd (Lib.mem_intText mem) (by decide)

/-- A constant begins with a digit or a minus sign. -/
theorem intText_append_ne_cons {n : BitVec 32} {c : Char} {r r' : Text} (other : ¬ (c.isDigit ∨ c = '-')) :
    Lib.intText n ++ r ≠ c :: r' := by
  intro same
  obtain ⟨d, ds, text⟩ := List.exists_cons_of_ne_nil (Lib.intText_ne_nil n)
  rw [text, List.cons_append] at same
  have mem : d ∈ Lib.intText n := text ▸ List.mem_cons_self
  exact other ((List.cons.inj same).1 ▸ Lib.mem_intText mem)

/-- An operand ends at the blank after it. -/
theorem Operand.cText_append_inj {o o' : Operand (BitVec 32)} {r r' : Text}
    (same : o.cText ++ ' ' :: r = o'.cText ++ ' ' :: r') : o = o' ∧ r = r' := by
  cases o with
  | queue a =>
    cases o' with
    | queue b =>
      rw [cText_queue, cText_queue, List.append_assoc, List.append_assoc] at same
      obtain ⟨text, rest⟩ := append_sep_inj a.not_mem_text b.not_mem_text (List.append_cancel_left same)
      exact ⟨congrArg _ (QueueAttr.text_injective text), rest⟩
    | packet b => exact absurd (List.cons.inj same).1 (by decide)
    | num n => exact absurd same.symm (intText_append_ne_cons (by decide))
  | packet a =>
    cases o' with
    | queue b => exact absurd (List.cons.inj same).1 (by decide)
    | packet b =>
      rw [cText_packet, cText_packet, List.append_assoc, List.append_assoc] at same
      obtain ⟨text, rest⟩ := append_sep_inj a.not_mem_text b.not_mem_text (List.append_cancel_left same)
      exact ⟨congrArg _ (PacketAttr.text_injective text), rest⟩
    | num n => exact absurd same.symm (intText_append_ne_cons (by decide))
  | num n =>
    cases o' with
    | queue b => exact absurd same (intText_append_ne_cons (by decide))
    | packet b => exact absurd same (intText_append_ne_cons (by decide))
    | num m =>
      obtain ⟨text, rest⟩ := append_sep_inj (not_mem_intText n) (not_mem_intText m) same
      exact ⟨congrArg _ (Lib.intText_inj.1 text), rest⟩

theorem Operand.cText_inj {o o' : Operand (BitVec 32)} : o.cText = o'.cText ↔ o = o' := by
  refine ⟨fun same => ?_, congrArg cText⟩
  have blank : o.cText ++ ' ' :: [] = o'.cText ++ ' ' :: [] := by rw [same]
  exact (cText_append_inj blank).1

/-- A comparison is closed by a parenthesis, and an operand is not. -/
theorem Operand.cText_ne_append (o : Operand (BitVec 32)) (t : Text) : o.cText ≠ t ++ [')'] := by
  intro same
  have last : o.cText.getLast? = some ')' := by rw [same, List.getLast?_concat]
  cases o with
  | queue a => cases a <;> exact absurd last (by decide)
  | packet a => rcases a with f | f | f <;> cases f <;> exact absurd last (by decide)
  | num n => exact absurd (Lib.mem_intText (List.mem_of_getLast? last)) (by decide)

/-- The C source determines the expression. -/
theorem Inline.cText_inj {e e' : Inline (BitVec 32)} : e.cText = e'.cText ↔ e = e' := by
  refine ⟨fun same => ?_, congrArg cText⟩
  cases e with
  | operand o =>
    cases e' with
    | operand o' => exact congrArg _ (Operand.cText_inj.1 same)
    | compare op l r => exact absurd same (o.cText_ne_append _)
  | compare op l r =>
    cases e' with
    | operand o' => exact absurd same.symm (o'.cText_ne_append _)
    | compare op' l' r' =>
      simp only [cText, List.append_assoc] at same
      obtain ⟨rfl, rest⟩ := Operand.cText_append_inj (List.append_cancel_left same)
      obtain ⟨op, rest⟩ := append_sep_inj (not_mem_opText op) (not_mem_opText op') rest
      rw [opText_injective op, Operand.cText_inj.1 (List.append_cancel_right rest)]

end OpenQueue.Gen
