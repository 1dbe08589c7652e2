import OpenQueue.Gen.Language
import OpenQueue.Gen.Accepted

/-!
# Statements as they are rendered are read back

One lemma for each kind of statement: on its rendering, `parseLine` records it. For an
assignment this takes a name that does not begin with one of the three words that
`parseLine` looks for first, and a routine whose name does not begin with `inline`;
without these it fails.
-/

namespace OpenQueue.Gen

open Lib (Text Jre PutMap IsWord)
open Lib.Text

/-! ## Declarations -/

section Declarations

variable {name : Text}

/-- A declaration as it is rendered. -/
theorem validateDeclaration_text {kind args : Text} (hk : IsWord kind) (hn : IsWord name)
    (equals : '=' ∉ args) (opens : '(' ∉ args) (closes : ')' ∉ args) :
    validateDeclaration kind (declaration kind name args) = some (name, args) := by
  have tight : Tight kind := tight_of_no_blank hk.no_blank
  have tight' : Tight name := tight_of_no_blank hn.no_blank
  have blank : Blank " ".toList := by simp [Blank, isBlank]
  have halves : split (declaration kind name args) "=".toList =
      [kind ++ " ".toList ++ name ++ " ".toList, " ".toList ++ (kind ++ ("(".toList ++ args) ++ ");".toList)] := by
    refine (split_eq_pair_iff (c := '=')).2 ⟨?_, ?_, by simp, 0, by simp [declaration]⟩
    · simp [hk.not_mem (c := '=') rfl, hn.not_mem (c := '=') rfl]
    · simp [hk.not_mem (c := '=') rfl, equals]
  have left : trim (kind ++ " ".toList ++ name ++ " ".toList) = kind ++ " ".toList ++ name :=
    (tight.between tight' hk.nonempty hn.nonempty _).trim_append blank
  have right : trim (" ".toList ++ (kind ++ ("(".toList ++ args) ++ ");".toList)) =
      kind ++ ("(".toList ++ args) ++ ");".toList :=
    (tight.between (tight_of_no_blank (by simp [isBlank])) hk.nonempty (by simp) _).trim_after blank
  have words : split (kind ++ " ".toList ++ name) " ".toList = [kind, name] :=
    (split_eq_pair_iff (c := ' ')).2 ⟨hk.not_mem rfl, hn.not_mem rfl, hn.nonempty, 0, by simp⟩
  have call : split (kind ++ ("(".toList ++ args) ++ ");".toList) "(".toList = [kind, args ++ ");".toList] :=
    (split_eq_pair_iff (c := '(')).2 ⟨hk.not_mem rfl, by simp [opens], by simp, 0, by simp⟩
  have list : split (args ++ ");".toList) ")".toList = [args, ";".toList] :=
    (split_eq_pair_iff (c := ')')).2 ⟨closes, by simp, by simp, 0, by simp⟩
  rw [validateDeclaration, halves]
  simp only [left, right, words, call, tight.trim_eq, tight'.trim_eq, list]
  exact if_pos ⟨trivial, hn.nonempty, trivial⟩

theorem isWord_intText (n : BitVec 32) : IsWord (Lib.intText n) where
  nonempty := Lib.intText_ne_nil n
  chars c mem := by
    rcases Lib.mem_intText mem with digit | rfl
    · simp [Lib.isWordChar, Lib.isIdentChar, Char.isAlphanum, digit]
    · rfl

theorem not_mem_intercalate {c : Char} {words : List Text} (hw : ∀ w ∈ words, IsWord w) (comma : c ≠ ',')
    (blank : c ≠ ' ') (other : Lib.isWordChar c = false) : c ∉ ", ".toList.intercalate words := by
  intro mem
  rcases mem_intercalate mem with inside | ⟨w, listed, inside⟩
  · simp [comma, blank] at inside
  · exact (hw w listed).not_mem other inside

/-- The items of a list of words. -/
theorem split_words {words : List Text} (nonempty : words ≠ []) (hw : ∀ w ∈ words, IsWord w) :
    ∃ tokens, tokens ≠ [] ∧ split (", ".toList.intercalate words) ",".toList = tokens ∧ tokens.map trim = words :=
  split_list nonempty (fun w mem => (hw w mem).nonempty) (fun w mem => (hw w mem).not_mem rfl) (by decide)
    fun w mem => tight_of_no_blank (hw w mem).no_blank

variable {jre : Jre}

theorem validateQueueDeclaration_text (digit : ∀ c : Char, c.isDigit → jre.digit c = some (c.toNat - 48))
    (hn : IsWord name) (size : BitVec 32) :
    validateQueueDeclaration jre (Stmt.queue name size).text = some { name := name, size := size } := by
  have word := isWord_intText size
  have kind : IsWord "Queue".toList := .of_isIdentifier (by decide)
  have read := validateDeclaration_text kind hn
    (word.not_mem rfl) (word.not_mem rfl) (word.not_mem rfl)
  show validateQueueDeclaration jre (declaration "Queue".toList name (Lib.intText size)) = _
  rw [validateQueueDeclaration, read]
  show (jre.parseInt (trim (Lib.intText size))).bind _ = _
  rw [(tight_of_no_blank word.no_blank).trim_eq, Jre.parseInt_intText digit]
  rfl

/-- A port is declared over what is between the commas, if all of that is declared. -/
theorem validatePortDeclaration_eq (queues : PutMap Text (Queue jre.Double)) {names : List Text} (hn : IsWord name)
    (nonempty : names ≠ []) (hw : ∀ n ∈ names, IsWord n) :
    validatePortDeclaration queues (Stmt.port name names).text =
      if ∀ n ∈ names, (queues.get n).isSome then some { name := name, queues := names } else none := by
  have kind : IsWord "Port".toList := .of_isIdentifier (by decide)
  have read := validateDeclaration_text kind hn
    (not_mem_intercalate hw (by decide) (by decide) rfl) (not_mem_intercalate hw (by decide) (by decide) rfl)
    (not_mem_intercalate hw (by decide) (by decide) rfl)
  obtain ⟨tokens, some, pieces, rfl⟩ := split_words nonempty hw
  show validatePortDeclaration queues (declaration "Port".toList name (", ".toList.intercalate (tokens.map trim))) = _
  rw [validatePortDeclaration, read]
  simp only [Option.bind_eq_bind, Option.bind_some, pieces, List.forall_mem_map, ne_eq, some, not_false_eq_true, true_and]
  rfl

theorem validatePortDeclaration_text {queues : PutMap Text (Queue jre.Double)} {names : List Text} (hn : IsWord name)
    (nonempty : names ≠ []) (hw : ∀ n ∈ names, IsWord n) (declared : ∀ n ∈ names, (queues.get n).isSome) :
    validatePortDeclaration queues (Stmt.port name names).text = some { name := name, queues := names } := by
  rw [validatePortDeclaration_eq queues hn nonempty hw, if_pos declared]

end Declarations

/-! ## Inline expressions -/

section Inline

def Operand.WellFormed : Operand Text → Prop
  | .num n => Lib.isDecimal n
  | _ => True

def Inline.WellFormed : Inline Text → Prop
  | .operand o => o.WellFormed
  | .compare _ lhs rhs => lhs.WellFormed ∧ rhs.WellFormed

instance : DecidablePred Operand.WellFormed
  | .queue _ => isTrue trivial
  | .packet _ => isTrue trivial
  | .num n => inferInstanceAs (Decidable (Lib.isDecimal n))

instance : DecidablePred Inline.WellFormed
  | .operand o => inferInstanceAs (Decidable o.WellFormed)
  | .compare _ lhs rhs => inferInstanceAs (Decidable (lhs.WellFormed ∧ rhs.WellFormed))

variable {o : Operand Text} {e : Inline Text}

theorem Operand.isWord_text (h : o.WellFormed) : IsWord o.text := by
  have closed : ∀ t : Text, t ≠ [] → t.all Lib.isWordChar → IsWord t := fun t some all => ⟨some, List.all_eq_true.1 all⟩
  cases o with
  | queue a => cases a <;> exact closed _ (by decide) (by decide)
  | packet a => rcases a with f | f | f <;> cases f <;> exact closed _ (by decide) (by decide)
  | num n => exact .of_isDecimal h

theorem readOperand_text (h : o.WellFormed) : readOperand o.text = some o := by
  cases o with
  | queue a => cases a <;> decide
  | packet a => rcases a with f | f | f <;> cases f <;> decide
  | num n =>
    have other : ∀ c t, Lib.isWordChar c = true → ¬ (c.isDigit ∨ c = '-' ∨ c = '.') → n.startsWith (c :: t) = false := by
      intro c t _ other
      rw [Bool.eq_false_iff]
      intro starts
      exact other (Lib.mem_isDecimal h ((startsWith_iff.1 starts).subset List.mem_cons_self))
    have queue : n.startsWith "Queue".toList = false := other _ _ rfl (by decide)
    have packet : n.startsWith "Packet".toList = false := other _ _ rfl (by decide)
    show readOperand n = _
    rw [readOperand, queue, packet, if_neg (by decide), if_neg (by decide),
      (tight_of_no_blank (IsWord.of_isDecimal h).no_blank).trim_eq]

theorem readExpr_text (h : e.WellFormed) : readExpr e.text = some e := by
  cases e with
  | operand o =>
    have word := Operand.isWord_text h
    show readExpr o.text = _
    rw [readExpr, show split o.text " ".toList = [o.text] from split_of_not_mem (word.not_mem rfl)]
    simp only [(tight_of_no_blank word.no_blank).trim_eq, readOperand_text h, Option.map_some]
  | compare op lhs rhs =>
    have word := Operand.isWord_text h.1
    have word' := Operand.isWord_text h.2
    have pieces : split (lhs.text ++ " ".toList ++ opText op ++ " ".toList ++ rhs.text) " ".toList =
        [lhs.text, opText op, rhs.text] :=
      (split_eq_triple_iff (c := ' ')).2
        ⟨word.not_mem rfl, not_mem_opText op, word'.not_mem rfl, word'.nonempty, 0, by simp⟩
    have found : (operators.find? fun o => opText o = trim (opText op)) = some op := by cases op <;> decide
    show readExpr (lhs.text ++ " ".toList ++ opText op ++ " ".toList ++ rhs.text) = _
    rw [readExpr, pieces]
    simp only [(tight_of_no_blank word.no_blank).trim_eq, (tight_of_no_blank word'.no_blank).trim_eq,
      readOperand_text h.1, readOperand_text h.2, found]
    rfl

theorem not_mem_opText_of {c : Char} (other : c ∉ "=!<>".toList) (op : Lib.Comparison) : c ∉ opText op := by
  intro mem
  apply other
  revert mem
  cases op <;> simp [opText] <;> grind

theorem Inline.not_mem_text (h : e.WellFormed) {c : Char} (word : Lib.isWordChar c = false) (blank : c ≠ ' ')
    (other : c ∉ "=!<>".toList) : c ∉ e.text := by
  cases e with
  | operand o => exact (Operand.isWord_text h).not_mem word
  | compare op lhs rhs =>
    show c ∉ lhs.text ++ " ".toList ++ opText op ++ " ".toList ++ rhs.text
    simp [(Operand.isWord_text h.1).not_mem word, (Operand.isWord_text h.2).not_mem word, blank, not_mem_opText_of other op]

theorem inlineBody_text (h : e.WellFormed) : inlineBody (Rhs.inline e).text = some e.text := by
  have close : '\x7d' ∉ e.text := Inline.not_mem_text h rfl (by decide) (by decide)
  obtain ⟨first, last, opened, closed, body⟩ :=
    substring_between (c := '\x7b') (u := "inline".toList) (w := []) (by decide) (by decide) (by decide) close
  have starts : startsWith ("inline".toList ++ '\x7b' :: (e.text ++ ['\x7d'])) "inline".toList = true := rfl
  show inlineBody ("inline".toList ++ '\x7b' :: (e.text ++ ['\x7d'])) = _
  rw [inlineBody, starts, opened, closed]
  exact body

end Inline

/-! ## Right-hand sides -/

section Rhs

def Rhs.WellFormed : Rhs → Prop
  | .routine name => Lib.isIdentifier name
  | .call name params => Lib.isIdentifier name ∧ params ≠ [] ∧ ∀ p ∈ params, Lib.isDecimal p
  | .inline e => e.WellFormed

instance : DecidablePred Rhs.WellFormed
  | .routine name => inferInstanceAs (Decidable (Lib.isIdentifier name))
  | .call name params =>
    inferInstanceAs (Decidable (Lib.isIdentifier name ∧ params ≠ [] ∧ ∀ p ∈ params, Lib.isDecimal p))
  | .inline e => inferInstanceAs (Decidable e.WellFormed)

/-- The routine does not look like an inline statement. -/
def Rhs.plain : Rhs → Bool
  | .routine name => !name.startsWith "inline".toList
  | .call name _ => !name.startsWith "inline".toList
  | .inline _ => true

/-- The routine is one for attributes of this type. -/
def Rhs.Known (routines : PutMap Text Routine) (type : RoutineType) : Rhs → Prop
  | .routine name => ∃ r, routines.get name = some r ∧ r.type = type
  | .call name _ => ∃ r, routines.get name = some r ∧ r.type = type
  | .inline _ => True

variable {rhs : Rhs}

theorem Rhs.text_call (name : Text) (params : List Text) :
    (Rhs.call name params).text = name ++ '(' :: (", ".toList.intercalate params ++ [')']) := by
  show name ++ "(".toList ++ ", ".toList.intercalate params ++ ")".toList = _
  simp

theorem Rhs.text_inline (e : Inline Text) :
    (Rhs.inline e).text = "inline\x7b".toList ++ e.text ++ "\x7d".toList := rfl

theorem Rhs.text_ne_nil (h : rhs.WellFormed) : rhs.text ≠ [] := by
  cases rhs with
  | routine name => exact (IsWord.of_isIdentifier h).nonempty
  | call name params => simp [text_call]
  | inline e => simp [text_inline]

theorem Rhs.tight_text (h : rhs.WellFormed) : Tight rhs.text := by
  cases rhs with
  | routine name => exact tight_of_no_blank (IsWord.of_isIdentifier h).no_blank
  | call name params =>
    have word := IsWord.of_isIdentifier h.1
    have tight : Tight (name ++ ("(".toList ++ ", ".toList.intercalate params) ++ ")".toList) :=
      (tight_of_no_blank word.no_blank).between (tight_of_no_blank (by simp [isBlank])) word.nonempty (by simp) _
    rw [text_call]
    simpa using tight
  | inline e =>
    exact (tight_of_no_blank (by simp [isBlank])).between (tight_of_no_blank (by simp [isBlank])) (by simp) (by simp) _

/-- The characters of a right-hand side. -/
theorem Rhs.not_mem_text (h : rhs.WellFormed) {c : Char} (word : Lib.isWordChar c = false) (blank : c ≠ ' ')
    (other : c ∉ "=!<>(),\x7b\x7d".toList) : c ∉ rhs.text := by
  cases rhs with
  | routine name => exact (IsWord.of_isIdentifier h).not_mem word
  | call name params =>
    have free := (IsWord.of_isIdentifier h.1).not_mem word
    have list := not_mem_intercalate (fun p mem => IsWord.of_isDecimal (h.2.2 p mem)) (by simp at other; tauto) blank word
    rw [text_call]
    simp_all
  | inline e =>
    have free := Inline.not_mem_text h word blank (by simp at other ⊢; tauto)
    have inline := (IsWord.of_isIdentifier (s := "inline".toList) (by decide)).not_mem word
    rw [text_inline]
    simp_all

/-- A right-hand side does not look like an assignment. -/
theorem Rhs.no_equals (h : rhs.WellFormed) : ¬ " = ".toList <:+: rhs.text ++ ";".toList := by
  have without : ∀ s : Text, '=' ∉ s → ¬ " = ".toList <:+: s := fun s free found => free (found.subset (by decide))
  cases rhs with
  | routine name =>
    apply without
    show '=' ∉ name ++ ";".toList
    simp [(IsWord.of_isIdentifier h).not_mem (c := '=') rfl]
  | call name params =>
    have free := (IsWord.of_isIdentifier h.1).not_mem (c := '=') rfl
    have list := not_mem_intercalate (c := '=') (fun p mem => IsWord.of_isDecimal (h.2.2 p mem)) (by decide) (by decide) rfl
    apply without
    rw [text_call]
    simp only [List.mem_append, List.mem_cons, not_or]
    exact ⟨⟨free, by decide, list, by decide⟩, by decide⟩
  | inline e =>
    cases e with
    | operand o =>
      apply without
      show '=' ∉ "inline\x7b".toList ++ o.text ++ "\x7d".toList ++ ";".toList
      simp [(Operand.isWord_text h).not_mem (c := '=') rfl]
    | compare op l r =>
      have left : '=' ∉ "inline\x7b".toList ++ l.text := by simp [(Operand.isWord_text h.1).not_mem (c := '=') rfl]
      have right : '=' ∉ r.text ++ "\x7d;".toList := by simp [(Operand.isWord_text h.2).not_mem (c := '=') rfl]
      -- the only equals signs stand in the operator, next to another of its characters
      have middle : ¬ " = ".toList <:+: " ".toList ++ opText op ++ " ".toList := by cases op <;> decide
      intro found
      have found : " = ".toList <:+: ("inline\x7b".toList ++ l.text) ++
          ((" ".toList ++ opText op ++ " ".toList) ++ (r.text ++ "\x7d;".toList)) := by
        simpa [text_inline, Inline.text] using found
      rcases infix_append left found with found | first
      · rcases infix_append_right right found with found | last
        · exact middle found
        · cases op <;> exact absurd last (by decide)
      · exact absurd first (by simp)

variable {jre : Jre} {number : Text → Option (BitVec 32)} {routines : PutMap Text Routine} {type : RoutineType}
  {s : Statement jre.Double}

/-- The same numbers in the same places. -/
theorem Inline.mapNum_mono {ν μ : Type} {f g : ν → Option μ} (sub : ∀ n m, f n = some m → g n = some m) {e : Inline ν}
    {c : Inline μ} (read : e.mapNum f = some c) : e.mapNum g = some c := by
  have operand : ∀ (o : Operand ν) (c : Operand μ), o.mapNum f = some c → o.mapNum g = some c := by
    intro o c read
    cases o with
    | queue a => exact read
    | packet a => exact read
    | num n =>
      obtain ⟨m, found, rfl⟩ := Option.map_eq_some_iff.1 read
      rw [Operand.mapNum, sub n m found, Option.map_some]
  cases e with
  | operand o =>
    obtain ⟨m, found, rfl⟩ := Option.map_eq_some_iff.1 read
    rw [mapNum, operand o m found, Option.map_some]
  | compare op lhs rhs =>
    obtain ⟨l, left, read⟩ := Option.bind_eq_some_iff.1 read
    obtain ⟨r, right, read⟩ := Option.bind_eq_some_iff.1 read
    cases read
    rw [mapNum, operand lhs l left, operand rhs r right]
    rfl

/-- A right-hand side as it is rendered. -/
theorem validateFunctionAssignment_text (cast : ∀ t n, number t = some n → toInt? jre t = some n)
    (h : rhs.WellFormed) (plain : rhs.plain) (known : rhs.Known routines type)
    (read : rhs.statement jre number type = some s) :
    validateFunctionAssignment jre routines rhs.text type = .ok (some s) := by
  cases rhs with
  | routine name =>
    obtain ⟨r, found, rfl⟩ := known
    cases read
    have other : name.startsWith "inline".toList = false := by simpa [Rhs.plain] using plain
    have word := IsWord.of_isIdentifier h
    have taken : (name.takeWhile fun c => c ≠ '(') = name := takeWhile_ne_of_not_mem (word.not_mem rfl)
    have none : indexOf name '(' = none := indexOf_eq_none_iff.2 (word.not_mem rfl)
    show validateFunctionAssignment jre routines name r.type = _
    rw [validateFunctionAssignment, other, if_neg (by decide)]
    simp only [taken, found, none]
    exact if_neg fun differ => differ rfl
  | call name params =>
    obtain ⟨r, found, rfl⟩ := known
    obtain ⟨vals, values, rfl⟩ := Option.map_eq_some_iff.1 read
    obtain ⟨ident, nonempty, decimals⟩ := h
    have words : ∀ p ∈ params, IsWord p := fun p mem => .of_isDecimal (decimals p mem)
    have free : '(' ∉ name := (IsWord.of_isIdentifier ident).not_mem rfl
    have other : (name ++ '(' :: (", ".toList.intercalate params ++ [')'])).startsWith "inline".toList = false := by
      rw [startsWith_append (by decide)]
      simpa [Rhs.plain] using plain
    have taken := takeWhile_ne_append free (", ".toList.intercalate params ++ [')'])
    obtain ⟨first, last, opened, closed, args⟩ := substring_between (c := '(') (d := ')') (w := []) free
      ((IsWord.of_isIdentifier ident).not_mem rfl) (by decide) (not_mem_intercalate words (by decide) (by decide) rfl)
    have tight : Tight (", ".toList.intercalate params) :=
      (tight_intercalate _ nonempty (fun p mem => (words p mem).nonempty)
        fun p mem => tight_of_no_blank (words p mem).no_blank).2
    obtain ⟨tokens, some, pieces, trimmed⟩ := split_words nonempty words
    have values : (tokens.mapM fun token => jre.parseDouble token.trim) = Option.some vals := by
      rw [← trimmed, List.mapM_map] at values
      exact values
    rw [Rhs.text_call, validateFunctionAssignment, other, if_neg (by decide)]
    simp only [taken, found, opened, closed, args, tight.trim_eq, pieces]
    rw [if_neg fun differ => differ rfl]
    cases tokens with
    | nil => exact absurd rfl some
    | cons token tokens =>
      simp only [values]
      rfl
  | inline e =>
    obtain ⟨c, values, rfl⟩ := Option.map_eq_some_iff.1 read
    have valid : validateInline jre (Rhs.inline e).text = .ok (some c.cText) :=
      validateInline_eq_some_iff.2 ⟨e.text, e, c, inlineBody_text h, readExpr_text h, Inline.mapNum_mono cast values, rfl⟩
    have starts : startsWith (Rhs.inline e).text "inline".toList = true := rfl
    rw [validateFunctionAssignment, starts, if_pos rfl, valid]
    rfl

/-- A routine that is taken for an inline statement is not assigned. -/
theorem plain_of_valid (h : rhs.WellFormed)
    (valid : validateFunctionAssignment jre routines rhs.text type = .ok (some s)) : rhs.plain := by
  have inline : ∀ t : Text, t.startsWith "inline".toList → '\x7b' ∉ t →
      validateFunctionAssignment jre routines t type ≠ .ok (some s) := by
    intro t starts free
    rw [validateFunctionAssignment, if_pos starts, validateInline, if_pos starts, indexOf_eq_none_iff.2 free]
    intro accepted
    cases accepted
  cases rhs with
  | routine name =>
    rw [Rhs.plain, Bool.not_eq_true', Bool.eq_false_iff]
    exact fun starts => inline name starts ((IsWord.of_isIdentifier h).not_mem rfl) valid
  | call name params =>
    rw [Rhs.plain, Bool.not_eq_true', Bool.eq_false_iff]
    intro starts
    have starts' : startsWith (Rhs.call name params).text "inline".toList := by
      rwa [Rhs.text_call, startsWith_append (by decide)]
    refine inline _ starts' ?_ valid
    have list := not_mem_intercalate (c := '\x7b') (fun p mem => IsWord.of_isDecimal (h.2.2 p mem)) (by decide) (by decide) rfl
    rw [Rhs.text_call]
    simp only [List.mem_append, List.mem_cons, not_or]
    exact ⟨(IsWord.of_isIdentifier h.1).not_mem rfl, by decide, list, by decide, List.not_mem_nil⟩
  | inline e => rfl

end Rhs

/-! ## Statements -/

section Stmt

/-- No line that begins with the name is taken for an import or a declaration. -/
def plainName (name : Text) : Bool := ["import".toList, "Queue".toList, "Port".toList].all fun word => !name.startsWith word

/-- A name of a header, which may stand between quotes. -/
structure IsHeader (file : Text) : Prop where
  extension : ∃ base, file = base ++ ".h".toList
  quote : '"' ∉ file
  first : ∀ c, file.head? = some c → isBlank c = false

def Stmt.WellFormed : Stmt → Prop
  | .imports file => IsHeader file
  | .queue name _ => Lib.isIdentifier name
  | .port name queues => Lib.isIdentifier name ∧ queues ≠ [] ∧ ∀ q ∈ queues, Lib.isIdentifier q
  | .assign obj _ rhs => Lib.isIdentifier obj ∧ rhs.WellFormed

/-- The words in a statement do not mislead the parser. -/
def Stmt.plain : Stmt → Bool
  | .imports file => file.count '.' = 1
  | .assign obj _ rhs => plainName obj && rhs.plain
  | _ => true

/-- What a statement uses has been declared. -/
def Stmt.Legal {jre : Jre} (gen : OQGen jre.Double) : Stmt → Prop
  | .port _ queues => ∀ q ∈ queues, (gen.queues.get q).isSome
  | .assign _ attr rhs => rhs.Known gen.routines attr.type
  | _ => True

variable {jre : Jre} {files : Text → Option Text} {gen gen' : OQGen jre.Double}

theorem IsHeader.tight {file : Text} (h : IsHeader file) : Tight file := by
  refine ⟨h.first, ?_⟩
  obtain ⟨base, rfl⟩ := h.extension
  intro c last
  rw [List.getLast?_append_of_ne_nil _ (by simp)] at last
  cases last
  decide

theorem split_imports {file : Text} (h : IsHeader file) :
    split (Stmt.imports file).text "\"".toList = ["import ".toList, file] := by
  have some : file ≠ [] := by
    obtain ⟨base, rfl⟩ := h.extension
    simp
  refine (split_eq_pair_iff (c := '"')).2 ⟨by decide, h.quote, some, 1, ?_⟩
  show "import \"".toList ++ file ++ "\"".toList = _
  simp

theorem getLast?_declaration (kind name args : Text) : (declaration kind name args).getLast? = some ';' := by
  rw [declaration, List.getLast?_append_of_ne_nil _ (by simp)]
  rfl

section Assign

variable {obj : Text} {attr : AnyAttr} {rhs : Rhs}

theorem Stmt.text_assign (obj : Text) (attr : AnyAttr) (rhs : Rhs) :
    (Stmt.assign obj attr rhs).text = obj ++ '.' :: (attr.text ++ " = ".toList ++ (rhs.text ++ ";".toList)) := by
  show obj ++ ".".toList ++ attr.text ++ " = ".toList ++ rhs.text ++ ";".toList = _
  simp

/-- Which lines begin with a word is decided by the name. -/
theorem Stmt.startsWith_assign {word : Text} (free : '.' ∉ word) :
    startsWith (Stmt.assign obj attr rhs).text word = startsWith obj word := by
  rw [text_assign, startsWith_append free]

theorem AnyAttr.isWord_text (attr : AnyAttr) : IsWord attr.text ∧ '.' ∉ attr.text := by
  rcases attr with a | a <;> cases a <;> exact ⟨.of_isIdentifier (by decide), by decide⟩

theorem not_comment (ho : Lib.isIdentifier obj) : startsWith obj "//".toList = false := by
  rw [Bool.eq_false_iff]
  intro starts
  exact (IsWord.of_isIdentifier ho).not_mem (c := '/') rfl ((startsWith_iff.1 starts).subset (by decide))

theorem not_mem_of_isIdentifier {c : Char} (ho : Lib.isIdentifier obj) (other : Lib.isIdentChar c = false) :
    c ∉ obj := by
  intro mem
  rw [(Lib.isIdentifier_iff.1 ho).2 c mem] at other
  cases other

theorem isWord_lhs (ho : Lib.isIdentifier obj) (attr : AnyAttr) : IsWord (obj ++ '.' :: attr.text) := by
  refine ⟨by simp, List.forall_mem_append.2 ⟨(IsWord.of_isIdentifier ho).chars, ?_⟩⟩
  exact List.forall_mem_cons.2 ⟨rfl, attr.isWord_text.1.chars⟩

/-- What `parseAssignment` makes of an assignment. -/
theorem split_assign (ho : Lib.isIdentifier obj) (h : rhs.WellFormed) (attr : AnyAttr) :
    split (Stmt.assign obj attr rhs).text " = ".toList = [obj ++ '.' :: attr.text, rhs.text ++ ";".toList] ∧
      trim (replace (trim (rhs.text ++ ";".toList)) ';' ' ') = rhs.text ∧
      split (trim (obj ++ '.' :: attr.text)) ".".toList = [obj, attr.text] := by
  have left := isWord_lhs ho attr
  refine ⟨?_, ?_, ?_⟩
  · have pieces : split (obj ++ '.' :: attr.text ++ [' ', '=', ' '] ++ (rhs.text ++ ";".toList)) [' ', '=', ' '] = _ :=
      split_append (left.not_mem rfl) (Rhs.no_equals h) (by simp)
    rw [Stmt.text_assign]
    simpa using pieces
  · have tight := (Rhs.tight_text h).between (t := ";".toList) (tight_of_no_blank (by simp [isBlank])) (Rhs.text_ne_nil h)
      (by simp) []
    rw [List.append_nil] at tight
    rw [tight.trim_eq, replace_append, replace_of_not_mem (Rhs.not_mem_text h rfl (by decide) (by decide))]
    exact (Rhs.tight_text h).trim_append (by simp [Blank, replace, isBlank])
  · rw [(tight_of_no_blank left.no_blank).trim_eq]
    exact (split_eq_pair_iff (c := '.')).2
      ⟨not_mem_of_isIdentifier ho rfl, attr.isWord_text.2, attr.isWord_text.1.nonempty, 0, by simp⟩

theorem reads_assign (ho : Lib.isIdentifier obj) (h : rhs.WellFormed) (plain : plainName obj)
    (assigns : Assigns jre gen obj attr.text rhs.text gen') :
    Reads jre files gen (Stmt.assign obj attr rhs).text gen' := by
  obtain ⟨halves, right, left⟩ := split_assign ho h attr
  have ends : (Stmt.assign obj attr rhs).text.getLast? = some ';' := by
    show (_ ++ ";".toList).getLast? = _
    rw [List.getLast?_append_of_ne_nil _ (by simp)]
    rfl
  refine .assign ends ?_ ?_ halves left (by rwa [right])
  · rw [Stmt.startsWith_assign (by decide), not_comment ho]
  · intro word mem
    have free : '.' ∉ word := by
      revert word
      decide
    rw [Stmt.startsWith_assign free]
    simpa using List.all_eq_true.1 plain word mem

end Assign

variable {number : Text → Option (BitVec 32)} {stmt : Stmt}

/-- A statement as it is rendered is recorded. -/
theorem reads_text (law : jre.ReadsDecimals) (cast : ∀ t n, number t = some n → toInt? jre t = some n)
    (h : stmt.WellFormed) (plain : stmt.plain) (legal : stmt.Legal gen) (records : Records jre number files gen stmt gen') :
    Reads jre files gen stmt.text gen' := by
  cases records with
  | imports read =>
    have word : trim "import ".toList = "import".toList := by decide
    refine .imports rfl (split_imports h) word ?_
    rwa [h.tight.trim_eq]
  | queue =>
    exact .queue (getLast?_declaration _ _ _) rfl (validateQueueDeclaration_text law.digit (.of_isIdentifier h) _)
  | port =>
    have words : ∀ q ∈ _, IsWord q := fun q mem => .of_isIdentifier (h.2.2 q mem)
    exact .port (getLast?_declaration _ _ _) rfl
      (validatePortDeclaration_text (.of_isIdentifier h.1) h.2.1 words legal)
  | queueAttr found read =>
    rw [Stmt.plain, Bool.and_eq_true] at plain
    exact reads_assign h.1 h.2 plain.1
      (.queue found rfl (validateFunctionAssignment_text cast h.2 plain.2 legal read))
  | portAttr other found name read =>
    rw [Stmt.plain, Bool.and_eq_true] at plain
    exact reads_assign h.1 h.2 plain.1
      (.port other found name rfl (validateFunctionAssignment_text cast h.2 plain.2 legal read))

/-- The name of a header that is read has no other dot. -/
theorem count_dots {file : Text} {routines routines' : PutMap Text Routine} (h : IsHeader file)
    (read : processImport files routines file = .ok routines') : file.count '.' = 1 := by
  unfold processImport at read
  split at read
  · next base extension pieces =>
    obtain ⟨free, free', some, k, rfl⟩ := (split_eq_pair_iff (c := '.')).1 pieces
    cases k with
    | zero => simp [List.count_eq_zero.2 free, List.count_eq_zero.2 free']
    | succ k =>
      obtain ⟨name, ends⟩ := h.extension
      have last := congrArg List.getLast? ends
      rw [List.replicate_succ', ← List.append_assoc, List.getLast?_concat, List.getLast?_append_of_ne_nil _ (by simp)] at last
      cases last
  · cases read

/-- An assignment is not a declaration, whatever it begins with. -/
theorem validateDeclaration_assign {obj : Text} {attr : AnyAttr} {rhs : Rhs} (ho : Lib.isIdentifier obj) (kind : Text) :
    validateDeclaration kind (Stmt.assign obj attr rhs).text = none := by
  have word := isWord_lhs ho attr
  have text : (Stmt.assign obj attr rhs).text =
      obj ++ '.' :: attr.text ++ " ".toList ++ '=' :: (" ".toList ++ rhs.text ++ ";".toList) := by
    simp [Stmt.text_assign]
  have free : '=' ∉ obj ++ '.' :: attr.text ++ " ".toList := by
    rw [List.mem_append, not_or]
    exact ⟨word.not_mem rfl, by decide⟩
  unfold validateDeclaration
  split
  · next lhs right halves =>
    -- the name and the attribute are one word
    obtain ⟨free', -, -, k, split⟩ := (split_eq_pair_iff (c := '=')).1 halves
    have split : obj ++ '.' :: attr.text ++ " ".toList ++ '=' :: (" ".toList ++ rhs.text ++ ";".toList) =
        lhs ++ '=' :: (right ++ List.replicate k '=') := by
      rw [← text, split, List.append_assoc, List.cons_append]
    obtain ⟨rfl, -⟩ := append_sep_inj free free' split
    rw [(tight_of_no_blank word.no_blank).trim_append (by simp [Blank, isBlank]),
      show Text.split (obj ++ '.' :: attr.text) " ".toList = [_] from split_of_not_mem (word.not_mem rfl)]
  · rfl

/-- A statement that is read is plain. -/
theorem plain_of_reads (h : stmt.WellFormed) (reads : Reads jre files gen stmt.text gen') : stmt.plain := by
  cases stmt with
  | imports file =>
    cases reads with
    | skip nothing => cases nothing
    | imports starts pieces is valid =>
      rw [split_imports h] at pieces
      cases pieces
      rw [h.tight.trim_eq] at valid
      exact decide_eq_true (count_dots h valid)
    | queue ends starts valid => cases starts
    | port ends starts valid => cases starts
    | assign ends comment other halves names assigns => cases other _ List.mem_cons_self
  | queue name size => rfl
  | port name queues => rfl
  | assign obj attr rhs =>
    obtain ⟨ho, h⟩ := h
    cases reads with
    | skip nothing =>
      rw [Stmt.startsWith_assign (by decide), not_comment ho, Stmt.text_assign] at nothing
      simp at nothing
    | imports starts pieces is valid =>
      have free : '"' ∉ (Stmt.assign obj attr rhs).text := by
        have word := (isWord_lhs ho attr).not_mem (c := '"') rfl
        have right := Rhs.not_mem_text h (c := '"') rfl (by decide) (by decide)
        rw [List.mem_append, not_or] at word
        simp only [Stmt.text_assign, List.mem_append, List.mem_cons, not_or] at word ⊢
        exact ⟨word.1, word.2.1, ⟨word.2.2, by decide⟩, right, by decide⟩
      rw [show split _ "\"".toList = [_] from split_of_not_mem free] at pieces
      cases pieces
    | queue ends starts valid =>
      rw [validateQueueDeclaration, validateDeclaration_assign ho] at valid
      cases valid
    | port ends starts valid =>
      rw [validatePortDeclaration, validateDeclaration_assign ho] at valid
      cases valid
    | assign ends comment other halves names assigns =>
      obtain ⟨halves', right, left⟩ := split_assign ho h attr
      cases halves'.symm.trans halves
      cases left.symm.trans names
      rw [right] at assigns
      rw [Stmt.plain, Bool.and_eq_true]
      refine ⟨List.all_eq_true.2 fun word mem => ?_, ?_⟩
      · have free : '.' ∉ word := by
          revert word
          decide
        have differs := other word mem
        rw [Stmt.startsWith_assign free] at differs
        simp [differs]
      · cases assigns with
        | queue found known valid => exact plain_of_valid h valid
        | port other found name known valid => exact plain_of_valid h valid

end Stmt

end OpenQueue.Gen
