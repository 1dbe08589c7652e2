import OpenQueue.Gen.Kept
import OpenQueue.Spec.Completeness

/-!
# An accepted line is a statement of the policy language

Every line that `parsePolicyFile` accepts records the statement that its tokens are,
exactly if the line passes `NothingIgnored`: a check of its text at the places that the
parser skips. Nothing of the rest of the line can be ignored.
-/

namespace OpenQueue.Gen

open Lib (Text Jre PutMap)
open Lib.Text

/-! ## The check -/

/-- The file name is closed by one quote at the end of the line, and has no dots at its end. -/
structure ImportKept (line : Text) : Prop where
  closed : '"' ∈ after '"' line
  ends : after '"' (after '"' line) = []
  dot : (upTo '"' (after '"' line)).trim.getLast? ≠ some '.'

/-- The name is a word, and nothing stands between the closing parenthesis and the semicolon. -/
structure DeclarationKept (line : Text) : Prop where
  name : isName (after ' ' (upTo '=' line).trim).trim
  ends : (after ')' (after '=' line)).trim = ";".toList

/-- The list has no comma at its end, and its items are words. -/
structure ListKept (line : Text) : Prop where
  comma : (upTo ')' (after '(' (after '=' line))).getLast? ≠ some ','
  names : ∀ item ∈ (upTo ')' (after '(' (after '=' line))).split ",".toList, isName item.trim

/-- The only semicolon is the last character, the object is a word, and no dots follow the
attribute. -/
structure AssignmentKept (number : Text → Option (BitVec 32)) (line : Text) : Prop where
  semicolon : ';' ∉ line.dropLast
  object : isName (upTo '.' (upTo '=' line).trim)
  dot : (upTo '=' line).trim.getLast? ≠ some '.'
  rhs : RhsKept number (trim (after '=' line).dropLast)

/-- Nothing stands where the parser does not look. -/
def NothingIgnored (number : Text → Option (BitVec 32)) (line : Text) : Prop :=
  if line.startsWith "import".toList then ImportKept line
  else if line.startsWith "Queue".toList then DeclarationKept line
  else if line.startsWith "Port".toList then DeclarationKept line ∧ ListKept line
  else AssignmentKept number line

/-! ## The first word -/

section Lines

variable {jre : Jre} {files : Text → Option Text} {number : Text → Option (BitVec 32)} {gen gen' : OQGen jre.Double}
  {line : Text} {stmt : Stmt}

/-- The word that a statement begins with. -/
def Stmt.word : Stmt → Text
  | .imports _ => "import".toList
  | .queue _ _ => "Queue".toList
  | .port _ _ => "Port".toList
  | .assign obj _ _ => obj

theorem Stmt.Written.first (h : stmt.InGrammar) (written : stmt.Written jre line) : ∃ ws, lex line = stmt.word :: ws := by
  cases stmt with
  | imports file =>
    have written : lex line = _ := written
    rw [lex_import] at written
    exact ⟨_, written⟩
  | queue name size =>
    obtain ⟨digits, -, written⟩ := written
    rw [lex_declaration (by decide) h] at written
    exact ⟨_, written⟩
  | port name queues =>
    have written : lex line = lex (declaration "Port".toList name _) := written
    rw [lex_declaration (by decide) h.1] at written
    exact ⟨_, written⟩
  | assign obj attr rhs =>
    have written : lex line = _ := written
    rw [lex_assign h.1] at written
    exact ⟨_, written⟩

/-- A keyword is not the object of an assignment. -/
theorem Stmt.InGrammar.ne_object {obj w : Text} {attr : AnyAttr} {rhs : Rhs} (h : (Stmt.assign obj attr rhs).InGrammar)
    (hw : w ∈ keywords) : w ≠ (Stmt.assign obj attr rhs).word := by
  rintro rfl
  exact h.2.1 hw

/-- The first word of a line says what the line states. -/
theorem Stmt.Written.startsWith (tight : Tight line) (h : stmt.InGrammar) (written : stmt.Written jre line) :
    line.startsWith stmt.word := by
  obtain ⟨ws, first⟩ := written.first h
  exact tight.startsWith_of_tokens first

/-! ## Imports -/

theorem importKept_iff {word fileName base : Text} {k dots : Nat} (quote : '"' ∉ word) (quote' : '"' ∉ fileName)
    (line_eq : line = word ++ '"' :: fileName ++ List.replicate k '"')
    (name_eq : fileName.trim = base ++ ".h".toList ++ List.replicate dots '.') :
    ImportKept line ↔ k = 1 ∧ dots = 0 := by
  have rest : after '"' line = fileName ++ List.replicate k '"' := by
    rw [line_eq, List.append_assoc, List.cons_append, after_append quote]
  have dot : fileName.trim.getLast? ≠ some '.' ↔ dots = 0 := by
    cases dots with
    | zero => simp [name_eq]
    | succ k =>
      refine iff_of_false (not_not.2 ?_) (by simp)
      rw [name_eq, List.replicate_succ', ← List.append_assoc, List.getLast?_concat]
  cases k with
  | zero =>
    refine iff_of_false (fun kept => quote' ?_) (by simp)
    have closed := kept.closed
    rwa [rest, List.replicate_zero, List.append_nil] at closed
  | succ k =>
    rw [List.replicate_succ] at rest
    have first : upTo '"' (after '"' line) = fileName := by rw [rest, upTo_append quote']
    have last : after '"' (after '"' line) = List.replicate k '"' := by rw [rest, after_append quote']
    constructor
    · intro kept
      have ends := kept.ends
      rw [last, List.replicate_eq_nil_iff] at ends
      exact ⟨by rw [ends], dot.1 (first ▸ kept.dot)⟩
    · rintro ⟨one, none⟩
      refine ⟨by simp [rest], ?_, by rw [first]; exact dot.2 none⟩
      rw [last, List.replicate_eq_nil_iff]
      omega

theorem import_iff {word fileName : Text} {routines : PutMap Text Routine}
    (pieces : line.split "\"".toList = [word, fileName]) (is : word.trim = "import".toList)
    (valid : processImport files gen.routines fileName.trim = .ok routines) :
    (∃ stmt : Stmt, stmt.InGrammar ∧ stmt.Written jre line ∧
      Records jre number files gen stmt { gen with routines := routines }) ↔ ImportKept line := by
  obtain ⟨quote, quote', -, k, line_eq⟩ := split_eq_pair_iff (c := '"').1 pieces
  obtain ⟨base, dots, name_eq⟩ := processImport_shape valid
  have words : lex word = ["import".toList] := by
    rw [← lex_trim, is]
    decide
  have tokens : lex line = ["import".toList] ++ ['"'] :: (lex fileName ++ List.replicate k ['"']) := by
    rw [line_eq, List.append_assoc, List.cons_append, lex_delim rfl, lex_replicate rfl, words]
  have inside : lex fileName = lex (base ++ ".h".toList) ++ List.replicate dots ['.'] := by
    rw [← lex_trim, name_eq, lex_replicate rfl]
  rw [importKept_iff quote quote' line_eq name_eq]
  constructor
  · rintro ⟨stmt, h, written, -⟩
    obtain ⟨ws, first⟩ := written.first h
    have word_eq := (List.cons.inj (tokens.symm.trans first)).1
    cases stmt with
    | queue name size => exact absurd (show "import".toList = "Queue".toList from word_eq) (by decide)
    | port name queues => exact absurd (show "import".toList = "Port".toList from word_eq) (by decide)
    | assign obj attr rhs => exact absurd word_eq (h.ne_object (by decide))
    | imports file =>
      have written : lex line = _ := written
      rw [lex_import, tokens] at written
      have written := (List.cons.inj (List.cons.inj written).2).2
      cases k with
      | zero =>
        rw [List.replicate_zero, List.append_nil] at written
        exact absurd ((mem_lex_iff rfl).1 (written ▸ by simp)) quote'
      | succ k =>
        rw [List.replicate_succ] at written
        obtain ⟨name, rest⟩ := append_sep_inj (fun mem => quote' ((mem_lex_iff rfl).1 mem))
          (fun mem => h.1 ((mem_lex_iff rfl).1 mem)) written
        refine ⟨by rw [(List.replicate_eq_nil_iff _).1 rest], ?_⟩
        -- the last token of a file name is its extension
        obtain ⟨base', rfl⟩ := h.2
        have ext : ∀ base : Text, lex (base ++ ".h".toList) = lex base ++ [['.'], ['h']] := fun base => lex_delim rfl base ['h']
        cases dots with
        | zero => rfl
        | succ dots =>
          have last := congrArg List.getLast? (inside.symm.trans name)
          rw [List.replicate_succ', ← List.append_assoc, List.getLast?_concat, ext] at last
          simp at last
  · rintro ⟨rfl, rfl⟩
    rw [List.replicate_zero, List.append_nil] at name_eq
    refine ⟨.imports fileName.trim, ⟨fun mem => quote' (mem_of_mem_trim mem), ?_⟩, ?_, .imports valid⟩
    · rw [name_eq]
      exact List.suffix_append base _
    · show lex line = lex (Stmt.imports fileName.trim).text
      rw [lex_import, tokens, lex_trim]
      rfl

/-! ## Declarations -/

section Declarations

variable {kind name args lhs n word tail : Text}

theorem DeclarationShape.lex_eq (shape : DeclarationShape kind line name args lhs n word tail) (hk : isName kind) :
    lex line = ([kind] ++ lex name) ++ ['='] :: ([kind] ++ ['('] :: (lex args ++ [')'] :: lex tail)) := by
  have left : lex lhs = [kind] ++ lex name := by
    rw [← lex_trim, shape.words, lex_space, lex_name hk, ← shape.name_eq, lex_trim]
  have right : lex word = [kind] := by rw [← lex_trim, shape.call, lex_name hk]
  rw [shape.line_eq, lex_delim rfl, lex_delim rfl, lex_delim rfl, left, right]

theorem DeclarationShape.args_eq (shape : DeclarationShape kind line name args lhs n word tail) :
    upTo ')' (after '(' (after '=' line)) = args := by
  rw [shape.line_eq, after_append shape.equals, after_append shape.opens, upTo_append shape.closes]

theorem DeclarationShape.kept_iff (shape : DeclarationShape kind line name args lhs n word tail) (hk : isName kind) :
    DeclarationKept line ↔ isName name ∧ tail.trim = ";".toList := by
  have space : ' ' ∉ kind := fun mem => by
    have plain := (isPlain_iff.1 ((isName_iff.1 hk).2 _ mem)).1
    exact absurd plain (by decide)
  have named : (after ' ' (upTo '=' line).trim).trim = name := by
    rw [shape.line_eq, upTo_append shape.equals, shape.words, after_append space, shape.name_eq]
  have free : ')' ∉ word ++ '(' :: args := by
    have early : ')' ∉ word := fun mem =>
      not_mem_name hk (c := ')') rfl (shape.call ▸ mem_trim_of_mem mem rfl)
    simp [early, shape.closes]
  have last : after ')' (after '=' line) = tail := by
    rw [shape.line_eq, after_append shape.equals, ← List.cons_append, ← List.append_assoc, after_append free]
  constructor
  · exact fun kept => ⟨named ▸ kept.name, last ▸ kept.ends⟩
  · exact fun kept => ⟨named.symm ▸ kept.1, last.symm ▸ kept.2⟩

/-- A declaration with the tokens of a declaration. -/
theorem DeclarationShape.match {name' args' : Text} (shape : DeclarationShape kind line name args lhs n word tail)
    (hk : isName kind) (tight : Tight name) (h : isName name')
    (same : lex line = lex (declaration kind name' args')) :
    isName name ∧ tail.trim = ";".toList ∧ lex args = lex args' := by
  rw [shape.lex_eq hk, lex_declaration hk h] at same
  have equals : ['='] ∉ [kind] ++ lex name := by
    have free : '=' ∉ name := fun mem => shape.equals <| mem_of_mem_trim <| by
      rw [shape.words, List.mem_append, List.mem_cons]
      exact .inr (.inr (mem_of_mem_trim (shape.name_eq.symm ▸ mem)))
    rw [List.mem_append, List.mem_singleton, not_or]
    refine ⟨?_, fun mem => free ((mem_lex_iff rfl).1 mem)⟩
    rintro rfl
    exact absurd hk (by decide)
  have equals' : ['='] ∉ [kind, name'] := by
    rw [List.mem_cons, List.mem_singleton, not_or]
    constructor
    · rintro rfl
      exact absurd hk (by decide)
    · rintro rfl
      exact absurd h (by decide)
  obtain ⟨left, right⟩ := append_sep_inj equals equals' same
  have single : lex name = [name'] := (List.cons.inj left).2
  cases tight.eq_of_tokens single
  have right := (List.cons.inj (List.cons.inj right).2).2
  obtain ⟨list, ends⟩ := append_sep_inj_right (fun mem => shape.closes' ((mem_lex_iff rfl).1 mem)) (by decide) right
  exact ⟨h, trim_eq_of_tokens ends, list⟩

/-- A declaration of which nothing is dropped. -/
theorem DeclarationShape.written (shape : DeclarationShape kind line name args lhs n word tail) (hk : isName kind)
    (hn : isName name) (ends : tail.trim = ";".toList) {args' : Text} (list : lex args = lex args') :
    lex line = lex (declaration kind name args') := by
  have last : lex tail = [[';']] := by
    rw [← lex_trim, ends]
    decide
  rw [shape.lex_eq hk, lex_declaration hk hn, lex_name hn, list, last]
  rfl

end Declarations

theorem queue_iff {queue : Queue jre.Double} (ends : line.getLast? = some ';')
    (valid : validateQueueDeclaration jre line = some queue) :
    (∃ stmt : Stmt, stmt.InGrammar ∧ stmt.Written jre line ∧
      Records jre number files gen stmt { gen with queues := gen.queues.put queue.name queue }) ↔
    DeclarationKept line := by
  obtain ⟨⟨name, args⟩, declared, valid⟩ := Option.bind_eq_some_iff.1 valid
  obtain ⟨size, read, valid⟩ := Option.bind_eq_some_iff.1 valid
  cases valid
  obtain ⟨lhs, n, word, tail, shape⟩ := validateDeclaration_shape ends declared
  have hk : isName "Queue".toList := by decide
  rw [shape.kept_iff hk]
  constructor
  · rintro ⟨stmt, h, written, -⟩
    obtain ⟨ws, first⟩ := written.first h
    have word_eq := (List.cons.inj ((shape.lex_eq hk).symm.trans first)).1
    cases stmt with
    | imports file => exact absurd (show "Queue".toList = "import".toList from word_eq) (by decide)
    | port name queues => exact absurd (show "Queue".toList = "Port".toList from word_eq) (by decide)
    | assign obj attr rhs => exact absurd word_eq (h.ne_object (by decide))
    | queue name' size' =>
      obtain ⟨digits, -, written⟩ := written
      obtain ⟨good, tail_eq, -⟩ := shape.match hk (validateDeclaration_name declared).1 h written
      exact ⟨good, tail_eq⟩
  · rintro ⟨hn, tail_eq⟩
    exact ⟨.queue name size, hn, ⟨args.trim, read, shape.written hk hn tail_eq (lex_trim args).symm⟩, .queue⟩

theorem port_iff {port : Port jre.Double} (ends : line.getLast? = some ';')
    (valid : validatePortDeclaration gen.queues line = some port) :
    (∃ stmt : Stmt, stmt.InGrammar ∧ stmt.Written jre line ∧
      Records jre number files gen stmt { gen with port := some port }) ↔ DeclarationKept line ∧ ListKept line := by
  obtain ⟨⟨name, args⟩, declared, valid⟩ := Option.bind_eq_some_iff.1 valid
  simp only at valid
  split at valid
  · next ok =>
    cases valid
    obtain ⟨lhs, n, word, tail, shape⟩ := validateDeclaration_shape ends declared
    have hk : isName "Port".toList := by decide
    rw [shape.kept_iff hk]
    constructor
    · rintro ⟨stmt, h, written, -⟩
      obtain ⟨ws, first⟩ := written.first h
      have word_eq := (List.cons.inj ((shape.lex_eq hk).symm.trans first)).1
      cases stmt with
      | imports file => exact absurd (show "Port".toList = "import".toList from word_eq) (by decide)
      | queue name size => exact absurd (show "Port".toList = "Queue".toList from word_eq) (by decide)
      | assign obj attr rhs => exact absurd word_eq (h.ne_object (by decide))
      | port name' queues =>
        have written : lex line = lex (declaration "Port".toList name' _) := written
        obtain ⟨good, tail_eq, list⟩ := shape.match hk (validateDeclaration_name declared).1 h.1 written
        rw [lex_list] at list
        have each : ∀ q ∈ queues, lex q ≠ [] ∧ ',' ∉ q := fun q mem =>
          ⟨by rw [lex_name (h.2.2 q mem)]; simp, not_mem_name (h.2.2 q mem) rfl⟩
        have comma := getLast?_ne_comma h.2.1 each list
        refine ⟨⟨good, tail_eq⟩, by rwa [shape.args_eq], ?_⟩
        rw [shape.args_eq]
        -- the items are the pieces between the commas, in the text and among the tokens
        have pieces : ((args.split ",".toList).map trim).map lex = queues.map lex := by
          rw [lex_items ok.1 comma] at list
          have clean := ((split_eq_iff (c := ',') ok.1).1 rfl).1
          have split := congrArg (List.splitOn [',']) list
          rwa [List.splitOn_intercalate _ _ (by simpa using ok.1), List.splitOn_intercalate _ _ (by simpa using h.2.1)]
            at split
          · intro w mem inside
            obtain ⟨q, listed, rfl⟩ := List.mem_map.1 mem
            exact (each q listed).2 ((mem_lex_iff rfl).1 inside)
          · intro w mem inside
            rw [List.map_map] at mem
            obtain ⟨token, listed, rfl⟩ := List.mem_map.1 mem
            exact clean token listed (mem_of_mem_trim ((mem_lex_iff rfl).1 inside))
        intro item listed
        obtain ⟨q, mem, same⟩ := List.mem_map.1
          (pieces ▸ List.mem_map_of_mem (List.mem_map_of_mem listed) : lex item.trim ∈ queues.map lex)
        rw [lex_name (h.2.2 q mem)] at same
        rw [(tight_trim item).eq_of_tokens same.symm]
        exact h.2.2 q mem
    · rintro ⟨⟨hn, tail_eq⟩, kept⟩
      have comma := kept.comma
      have names := kept.names
      rw [shape.args_eq] at comma names
      refine ⟨.port name ((args.split ",".toList).map trim), ⟨hn, by simpa using ok.1, List.forall_mem_map.2 names⟩,
        shape.written hk hn tail_eq ?_, .port⟩
      rw [lex_list]
      exact lex_items ok.1 comma
  · cases valid

/-! ## Assignments -/

/-- An assignment, with the dots that follow the attribute. -/
structure AssignmentShape (line lhs obj attr rest : Text) (dots : Nat) : Prop where
  line_eq : line = lhs ++ ' ' :: '=' :: ' ' :: (rest ++ [';'])
  lhs_eq : lhs.trim = obj ++ '.' :: attr ++ List.replicate dots '.'
  free : '.' ∉ obj
  free' : '.' ∉ attr
  some : attr ≠ []
  equals : '=' ∉ lhs

theorem assignment_shape {lhs rhs obj attr : Text} (ends : line.getLast? = some ';')
    (halves : line.split " = ".toList = [lhs, rhs]) (names : lhs.trim.split ".".toList = [obj, attr])
    (equals : '=' ∉ obj) (equals' : '=' ∉ attr) :
    ∃ rest dots, rhs = rest ++ [';'] ∧ AssignmentShape line lhs obj attr rest dots := by
  obtain ⟨some, k, join⟩ := split_eq_pair (show line.split (' ' :: ['=', ' ']) = [lhs, rhs] from halves)
  obtain ⟨free, free', some', dots, lhs_eq⟩ := split_eq_pair_iff (c := '.').1 names
  have whole : k = 0 := by
    cases k with
    | zero => rfl
    | succ k =>
      rw [join, List.replicate_succ', List.flatten_append, ← List.append_assoc, List.flatten_singleton,
        List.getLast?_append_of_ne_nil _ (by simp)] at ends
      exact absurd ends (by decide)
  subst whole
  rw [List.replicate_zero, List.flatten_nil, List.append_nil] at join
  rw [join, List.getLast?_append_of_ne_nil _ some] at ends
  obtain ⟨rest, rfl⟩ := List.getLast?_eq_some_iff.1 ends
  refine ⟨rest, dots, rfl, by rw [join]; simp, lhs_eq, free, free', some', fun mem => ?_⟩
  have mem := mem_trim_of_mem mem rfl
  rw [lhs_eq, List.mem_append, List.mem_append, List.mem_cons] at mem
  rcases mem with (mem | mem | mem) | mem
  · exact equals mem
  · exact absurd mem (by decide)
  · exact equals' mem
  · exact absurd (List.eq_of_mem_replicate mem) (by decide)

section Assignment

variable {lhs obj attr rest : Text} {dots : Nat}

theorem AssignmentShape.kept_iff (shape : AssignmentShape line lhs obj attr rest dots) :
    AssignmentKept number line ↔
      ';' ∉ lhs ++ ' ' :: '=' :: ' ' :: rest ∧ isName obj ∧ dots = 0 ∧ RhsKept number rest.trim := by
  have split : line = (lhs ++ [' ']) ++ '=' :: ((' ' :: rest) ++ [';']) := by simp [shape.line_eq]
  have equals : '=' ∉ lhs ++ [' '] := by simp [shape.equals]
  have front : line.dropLast = lhs ++ ' ' :: '=' :: ' ' :: rest := by
    have whole : line = (lhs ++ ' ' :: '=' :: ' ' :: rest) ++ [';'] := by simp [shape.line_eq]
    rw [whole, List.dropLast_concat]
  have left : trim (upTo '=' line) = lhs.trim := by
    rw [split, upTo_append equals]
    exact trim_append_blank (by simp [Blank, isBlank])
  have right : trim (after '=' line).dropLast = rest.trim := by
    rw [split, after_append equals, List.dropLast_concat]
    exact trim_blank_append (u := [' ']) (by simp [Blank, isBlank])
  have object : upTo '.' lhs.trim = obj := by
    rw [shape.lhs_eq, List.append_assoc, List.cons_append, upTo_append shape.free]
  have dot : lhs.trim.getLast? ≠ .some '.' ↔ dots = 0 := by
    cases dots with
    | zero =>
      refine iff_of_true (fun last => shape.free' ?_) rfl
      rw [shape.lhs_eq, List.replicate_zero, List.append_nil, List.getLast?_append_of_ne_nil _ (by simp),
        List.getLast?_cons_of_ne_nil shape.some] at last
      exact List.mem_of_getLast? last
    | succ k =>
      refine iff_of_false (not_not.2 ?_) (by simp)
      rw [shape.lhs_eq, List.replicate_succ', ← List.append_assoc, List.getLast?_concat]
  constructor
  · intro kept
    refine ⟨front ▸ kept.semicolon, ?_, dot.1 (left ▸ kept.dot), right ▸ kept.rhs⟩
    have named := kept.object
    rwa [left, object] at named
  · rintro ⟨semicolon, named, none, rhs⟩
    exact ⟨front ▸ semicolon, by rwa [left, object], left ▸ dot.2 none, right ▸ rhs⟩

theorem AssignmentShape.lex_eq (shape : AssignmentShape line lhs obj attr rest dots) (word : lex attr = [attr]) :
    lex line = lex obj ++ ['.'] :: ([attr] ++ (List.replicate dots ['.'] ++ ['='] :: (lex rest ++ [[';']]))) := by
  have split : line = (lhs ++ [' ']) ++ '=' :: ([] ++ ' ' :: (rest ++ ';' :: [])) := by simp [shape.line_eq]
  have left : lex lhs = lex obj ++ ['.'] :: ([attr] ++ List.replicate dots ['.']) := by
    rw [← lex_trim, shape.lhs_eq, List.append_assoc, List.cons_append, lex_delim rfl, lex_replicate rfl, word]
  rw [split, lex_delim rfl, lex_space, lex_space, lex_delim rfl, left]
  simp [show lex ([] : Text) = [] from rfl]

/-- The semicolons are dropped with the blanks, so a single one at the end is nothing more. -/
theorem trim_replace_semicolon (free : ';' ∉ rest) : ((rest ++ [';']).trim.replace ';' ' ').trim = rest.trim := by
  obtain ⟨u, v, hu, hv, split⟩ := trim_spec rest
  have blank : Blank [' '] := by simp [Blank, isBlank]
  have semicolon : Tight [';'] := tight_of_no_blank (by simp [isBlank])
  by_cases empty : rest.trim = []
  · have outer : trim (rest ++ [';']) = [';'] := by
      rw [split, empty, List.append_nil]
      exact semicolon.trim_after (hu.append hv)
    rw [outer, empty]
    decide
  · have outer : trim (rest ++ [';']) = rest.trim ++ v ++ [';'] := by
      have tight := (tight_trim rest).between semicolon empty (by simp) v
      conv_lhs => rw [split]
      rw [List.append_assoc u, List.append_assoc u]
      exact tight.trim_after hu
    have free' : ';' ∉ rest.trim ++ v := fun mem => free (by
      rw [split, List.append_assoc]
      exact List.mem_append_right u mem)
    rw [outer, replace_append, replace_of_not_mem free', List.append_assoc]
    exact (tight_trim rest).trim_append (hv.append blank)

/-- An assignment with the tokens of an assignment. -/
theorem AssignmentShape.match {obj' : Text} {attr' : AnyAttr} {rhs : Rhs}
    (shape : AssignmentShape line lhs obj attr rest dots) (word : lex attr = [attr]) (tight : Tight obj)
    (h : (Stmt.assign obj' attr' rhs).InGrammar) (same : lex line = lex (Stmt.assign obj' attr' rhs).text) :
    isName obj ∧ dots = 0 ∧ ';' ∉ lhs ++ ' ' :: '=' :: ' ' :: rest ∧ lex rest = lex rhs.text := by
  have dot : ['.'] ∉ [obj'] := by
    rw [List.mem_singleton]
    rintro rfl
    exact absurd h.1 (by decide)
  have tokens := shape.lex_eq word
  rw [lex_assign h.1, tokens] at same
  obtain ⟨first, next⟩ := append_sep_inj (fun mem => shape.free ((mem_lex_iff rfl).1 mem)) dot same
  cases tight.eq_of_tokens first
  obtain ⟨attr_eq, next⟩ := List.cons.inj next
  have none : dots = 0 := by
    cases dots with
    | zero => rfl
    | succ k => exact absurd (List.cons.inj next).1 (by decide)
  subst none
  have text : lex rest = lex rhs.text := List.append_cancel_right (List.cons.inj next).2
  refine ⟨h.1, rfl, fun mem => ?_, text⟩
  -- the tokens before the last one are those of the assignment without its semicolon
  have front : lex (lhs ++ ' ' :: '=' :: ' ' :: rest) ++ [[';']] = lex line := by
    have whole : line = (lhs ++ ' ' :: '=' :: ' ' :: rest) ++ ';' :: [] := by simp [shape.line_eq]
    rw [whole]
    exact (lex_delim (c := ';') rfl _ []).symm
  have all : lex (lhs ++ ' ' :: '=' :: ' ' :: rest) = [obj, ['.'], attr, ['=']] ++ lex rhs.text := by
    rw [tokens, first, text] at front
    refine List.append_cancel_right (front.trans ?_)
    simp
  have mem := (mem_lex_iff (c := ';') rfl).2 mem
  rw [all, List.mem_append] at mem
  rcases mem with mem | mem
  · have object : [';'] ≠ obj := by
      rintro rfl
      exact absurd h.1 (by decide)
    have field : [';'] ≠ attr := by
      rw [attr_eq]
      rcases attr' with a | a <;> cases a <;> decide
    simp [object, field] at mem
  · exact Rhs.semicolon_not_mem h.2.2 mem

end Assignment

/-- How an assignment is recorded. -/
theorem Assigns.target (number : Text → Option (BitVec 32)) (files : Text → Option Text) {obj attr rhs : Text}
    (assigns : Assigns jre gen obj attr rhs gen') (tidy : gen.Tidy) :
    (Tight obj ∧ '=' ∉ obj) ∧ ∃ (a : AnyAttr) (s : Statement jre.Double), attr = a.text ∧
      ReadsRhs jre gen.routines rhs a.type s ∧
      ∀ r : Rhs, r.statement jre number a.type = some s → Records jre number files gen (.assign obj a r) gen' := by
  cases assigns with
  | @queue queue a s found known valid =>
    exact ⟨tidy.queues _ _ found, .queue a, s, known, validateFunctionAssignment_shape valid,
      fun r stated => .queueAttr found stated⟩
  | @port port a s other found name known valid =>
    exact ⟨name ▸ tidy.port _ found, .port a, s, known, validateFunctionAssignment_shape valid,
      fun r stated => .portAttr other found name stated⟩

theorem Records.stated {obj : Text} {attr : AnyAttr} {rhs : Rhs}
    (records : Records jre number files gen (.assign obj attr rhs) gen') :
    ∃ type s, rhs.statement jre number type = some s := by
  cases records with
  | queueAttr found read => exact ⟨_, _, read⟩
  | portAttr other found name read => exact ⟨_, _, read⟩

theorem assign_line_iff (law : jre.PlainNumbers) (cast : ∀ t n, number t = some n → toInt? jre t = some n)
    (tidy : gen.Tidy) {lhs rhs obj attr : Text} (tight : Tight line) (ends : line.getLast? = some ';')
    (other : ∀ word ∈ keywords, line.startsWith word = false) (halves : line.split " = ".toList = [lhs, rhs])
    (names : lhs.trim.split ".".toList = [obj, attr])
    (assigns : Assigns jre gen obj attr (rhs.trim.replace ';' ' ').trim gen') :
    (∃ stmt : Stmt, stmt.InGrammar ∧ stmt.Written jre line ∧ Records jre number files gen stmt gen') ↔
    AssignmentKept number line := by
  obtain ⟨⟨tightObj, equals⟩, a, s, rfl, reads, records⟩ := assigns.target number files tidy
  have word : lex a.text = [a.text] := by rcases a with a | a <;> cases a <;> decide
  have equals' : '=' ∉ a.text := by rcases a with a | a <;> cases a <;> decide
  obtain ⟨rest, dots, rfl, shape⟩ := assignment_shape ends halves names equals equals'
  rw [shape.kept_iff]
  constructor
  · rintro ⟨stmt, h, written, recorded⟩
    have starts := written.startsWith tight h
    cases stmt with
    | imports file => cases starts.symm.trans (other _ (by simp [keywords, Stmt.word]))
    | queue name size => cases starts.symm.trans (other _ (by simp [keywords, Stmt.word]))
    | port name queues => cases starts.symm.trans (other _ (by simp [keywords, Stmt.word]))
    | assign obj' attr' rhs' =>
      obtain ⟨named, none, semicolon, text⟩ := shape.match word tightObj h written
      have free : ';' ∉ rest := fun mem => semicolon (by simp [mem])
      rw [trim_replace_semicolon free] at reads
      obtain ⟨type, s', stated⟩ := recorded.stated
      exact ⟨semicolon, named, none,
        rhsKept_of_lex law cast (tight_trim rest) reads tidy.routines h.2.2 stated ((lex_trim rest).trans text)⟩
  · rintro ⟨semicolon, named, rfl, kept⟩
    have free : ';' ∉ rest := fun mem => semicolon (by simp [mem])
    rw [trim_replace_semicolon free] at reads
    obtain ⟨r, good, stated, text⟩ := kept.lex_eq law cast reads
    have tokens := shape.lex_eq word
    rw [lex_name named, ← lex_trim rest, text] at tokens
    refine ⟨.assign obj a r, ⟨named, fun keyword => ?_, good⟩, ?_, records r stated⟩
    · cases (tight.startsWith_of_tokens tokens).symm.trans (other obj keyword)
    · show lex line = lex (Stmt.assign obj a r).text
      rw [tokens, lex_assign named]
      rfl

/-! ## Lines -/

theorem reads_iff (law : jre.PlainNumbers) (cast : ∀ t n, number t = some n → toInt? jre t = some n) (tidy : gen.Tidy)
    (tight : Tight line) (something : ¬ (line.startsWith "//".toList || line.isEmpty))
    (reads : Reads jre files gen line gen') :
    (∃ stmt : Stmt, stmt.InGrammar ∧ stmt.Written jre line ∧ Records jre number files gen stmt gen') ↔
    NothingIgnored number line := by
  rw [NothingIgnored]
  cases reads with
  | skip nothing => exact absurd nothing something
  | imports starts pieces is valid =>
    rw [if_pos starts]
    exact import_iff pieces is valid
  | queue ends starts valid =>
    obtain ⟨w, rfl⟩ := startsWith_iff.1 starts
    rw [if_neg (by simp [startsWith]), if_pos starts]
    exact queue_iff ends valid
  | port ends starts valid =>
    obtain ⟨w, rfl⟩ := startsWith_iff.1 starts
    rw [if_neg (by simp [startsWith]), if_neg (by simp [startsWith]), if_pos starts]
    exact port_iff ends valid
  | assign ends comment other halves names assigns =>
    have imports := other _ (List.mem_cons_self)
    have queue := other "Queue".toList (by simp)
    have port := other "Port".toList (by simp)
    rw [imports, queue, port, if_neg (by decide), if_neg (by decide), if_neg (by decide)]
    exact assign_line_iff law cast tidy tight ends other halves names assigns

/-- Every line that the parser accepts, neither blank nor a comment, in every state that
it can be in, records the statement that it is, exactly if nothing of it is ignored. -/
theorem line_read_iff (law : jre.PlainNumbers) (cast : ∀ t n, number t = some n → toInt? jre t = some n)
    {before : List Text} {lineNumber : Nat} (state : parseLines jre files {} 0 before = .ok gen)
    (something : ¬ (line.trim.startsWith "//".toList || line.trim.isEmpty))
    (parsed : parseLine jre files gen line lineNumber = .ok gen') :
    (∃ stmt : Stmt, stmt.InGrammar ∧ stmt.Written jre line.trim ∧ Records jre number files gen stmt gen') ↔
    NothingIgnored number line.trim :=
  reads_iff law cast (tidy_of_parseLines state) (tight_trim line) something (parseLine_iff.1 parsed)

end Lines

theorem decimalJre_plainNumbers : decimalJre.PlainNumbers where
  chars t d _ read c mem := by
    have decimal : Lib.isDecimal t := by
      by_contra other
      cases (if_neg other).symm.trans read
    rcases Lib.mem_isDecimal decimal mem with digit | rfl | rfl
    · exact .inl (by simp [Char.isAlphanum, digit])
    · exact .inr (.inr (.inr rfl))
    · exact .inr (.inl rfl)
  first t d _ read := by
    have decimal : Lib.isDecimal t := by
      by_contra other
      cases (if_neg other).symm.trans read
    obtain ⟨c, s, rfl⟩ := List.exists_cons_of_ne_nil (Lib.ne_nil_of_isDecimal decimal)
    refine ⟨c, s, rfl, ?_⟩
    rcases Lib.mem_isDecimal decimal List.mem_cons_self with digit | rfl | rfl
    · constructor <;> (rintro rfl; exact absurd digit (by decide))
    · decide
    · decide

/-- The lines up to one, and that line, are accepted. -/
theorem exists_parsed (files : Text → Option Text) (before : List Text) (line : Text)
    (run : (match parseLines decimalJre files {} 0 before with
      | .ok gen => match parseLine decimalJre files gen line (before.length + 1) with
        | .ok _ => true
        | .error _ => false
      | .error _ => false) = true) :
    ∃ gen gen', parseLines decimalJre files {} 0 before = .ok gen ∧
      parseLine decimalJre files gen line (before.length + 1) = .ok gen' := by
  split at run
  · next gen state =>
    split at run
    · next gen' parsed => exact ⟨gen, gen', state, parsed⟩
    · cases run
  · cases run

def thresholdLine : Text := "q1.congestion  =  inline \x7bQueue.len >= 100\x7d ;".toList

/-- A threshold is read as it is written. -/
theorem threshold_line_read :
    ∃ gen gen', parseLines decimalJre (fun _ => none) {} 0 ["Queue q1 = Queue(128);".toList] = .ok gen ∧
      parseLine decimalJre (fun _ => none) gen thresholdLine 2 = .ok gen' ∧
      ∃ stmt : Stmt, stmt.InGrammar ∧ stmt.Written decimalJre thresholdLine.trim ∧
        Records decimalJre Lib.decimalInt? (fun _ => none) gen stmt gen' := by
  obtain ⟨gen, gen', state, parsed⟩ := exists_parsed (fun _ => none) ["Queue q1 = Queue(128);".toList] thresholdLine
    (by decide +kernel)
  refine ⟨gen, gen', state, parsed, (line_read_iff decimalJre_plainNumbers decimalJre_readsDecimals.cast state
    (by decide) parsed).2 ?_⟩
  have operand : OperandKept Lib.decimalInt? "Queue.len".toList := ⟨by decide, by decide⟩
  have number : OperandKept Lib.decimalInt? "100".toList := by
    show (Lib.decimalInt? "100".toList).isSome
    decide
  have inline : InlineKept Lib.decimalInt? "inline \x7bQueue.len >= 100\x7d".toList :=
    ⟨by decide, by decide, operand, number⟩
  exact ⟨by decide, by decide, by decide, inline⟩

/-- A header with one routine. -/
def congActFile (name : Text) : Option Text :=
  if name = "routines.h".toList then some ("\n".toList.intercalate <| List.map String.toList [
    "// @oq_cong_act_func",
    "int cong_act(struct oq_queue* queue, struct sk_buff* skb, int argc, ...);"]) else none

def unclosedLine : Text := "q1.congAction = cong_act(0.85;".toList

/-- A call whose parameters are not closed is accepted, and the parameters are ignored. -/
theorem unclosed_call_accepted :
    ∃ gen gen', parseLines decimalJre congActFile {} 0
        ["import \"routines.h\"".toList, "Queue q1 = Queue(128);".toList] = .ok gen ∧
      parseLine decimalJre congActFile gen unclosedLine 3 = .ok gen' ∧
      ¬ ∃ stmt : Stmt, stmt.InGrammar ∧ stmt.Written decimalJre unclosedLine.trim ∧
        Records decimalJre Lib.decimalInt? congActFile gen stmt gen' := by
  obtain ⟨gen, gen', state, parsed⟩ := exists_parsed congActFile
    ["import \"routines.h\"".toList, "Queue q1 = Queue(128);".toList] unclosedLine (by decide +kernel)
  refine ⟨gen, gen', state, parsed, fun stated => ?_⟩
  have kept : AssignmentKept Lib.decimalInt? unclosedLine := (reads_iff decimalJre_plainNumbers
    decimalJre_readsDecimals.cast (tidy_of_parseLines state) (tight_trim unclosedLine) (by decide)
    (parseLine_iff.1 parsed)).1 stated
  have call : CallKept "cong_act(0.85".toList := kept.rhs
  exact absurd (call.closed (by decide)).1 (by decide)

end OpenQueue.Gen
