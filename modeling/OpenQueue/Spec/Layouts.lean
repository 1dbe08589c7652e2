import OpenQueue.Gen.Scope
import OpenQueue.Lib.CLexical
import OpenQueue.Lib.Lexer

/-!
# Layouts of a prototype

The signature validators split a prototype at single characters and look at the pieces.
What they accept is said as a way of writing the line: the words of the result type and
the name, the words of each parameter and its name have one space between them, the `*`
is part of the word before it, and spaces are free next to the parentheses and the
commas only. Of two layouts of one prototype a validator says the same exactly if both
are written so or neither is, and a tab before the name is on the same side of the space.
-/

namespace OpenQueue.Gen

open Lib (Text)
open Lib.Text

/-! ## The layout that is accepted -/

/-- `WORD ... WORD last`, with one space before each word but the first. -/
def Spaced (words : List Text) (last s : Text) : Prop :=
  ∃ ps : List Text, ps.map trim = words ∧ (∀ p ∈ ps ++ [last], ' ' ∉ p) ∧ last ≠ [] ∧
    s.trim = [' '].intercalate (ps ++ [last])

/-- Pointers to structs, `int argc` and `...`. Commas may follow. -/
structure LaidParams (structs : List Text) (params : Text) (ptrs : List Text) (argc dots : Text) : Prop where
  eq : ∃ commas, params = [','].intercalate (ptrs ++ [argc, dots]) ++ List.replicate commas ','
  clean : ∀ p ∈ ptrs ++ [argc, dots], ',' ∉ p
  pointers : List.Forall₂ (fun ptr struct => ∃ n, Spaced ["struct".toList, struct] n ptr) ptrs structs
  counter : ∃ n, Spaced ["int".toList] n argc
  ellipsis : dots.trim = "...".toList

/-- `RESULT name(PARAMS) tail`. More parentheses may follow. -/
structure PrototypeAt (sig : Signature) (name line head params tail : Text) : Prop where
  eq : ∃ closes opens, line = head ++ '(' :: (params ++ ')' :: tail ++ List.replicate closes ')') ++
    List.replicate opens '('
  opened : '(' ∉ head
  between : '(' ∉ params ∧ ')' ∉ params
  closed : '(' ∉ tail ∧ ')' ∉ tail ∧ tail ≠ []
  typeName : Spaced sig.result name head
  args : ∃ ptrs argc dots, LaidParams sig.structs params ptrs argc dots

/-- A prototype is written in the layout for its signature. -/
def LaidOut (sig : Signature) (name line : Text) : Prop := ∃ head params tail, PrototypeAt sig name line head params tail

theorem split_trim_iff {ps : List Text} {last s : Text} (nonempty : ps ≠ []) :
    s.trim.split [' '] = ps ++ [last] ↔
      (∀ p ∈ ps ++ [last], ' ' ∉ p) ∧ last ≠ [] ∧ s.trim = [' '].intercalate (ps ++ [last]) := by
  rw [split_eq_iff (by simp)]
  refine and_congr_right fun clean => ?_
  constructor
  · rintro ⟨k, join, ends⟩
    have spaces : Blank (List.replicate k ' ') := by
      intro c mem
      rw [List.eq_of_mem_replicate mem]
      decide
    have none := (join ▸ tight_trim s : Tight (_ ++ List.replicate k ' ')).eq_nil_of_blank_right spaces
    rw [none, List.append_nil] at join
    refine ⟨?_, join⟩
    rintro rfl
    have single := (ends List.getLast?_concat).1
    exact nonempty (List.append_eq_singleton_iff.1 single |>.elim (·.1) fun h => by simp at h)
  · rintro ⟨some, join⟩
    refine ⟨0, by simpa using join, fun empty => ?_⟩
    rw [List.getLast?_concat] at empty
    exact absurd (Option.some.inj empty) some

/-- A text is spaced so if these are its pieces. -/
theorem spaced_iff {words : List Text} {last s : Text} (some : words ≠ []) :
    Spaced words last s ↔ ∃ ps : List Text, ps.map trim = words ∧ s.trim.split [' '] = ps ++ [last] := by
  refine exists_congr fun ps => and_congr_right fun trims => (split_trim_iff ?_).symm
  rintro rfl
  exact some trims.symm

theorem isStructParam_iff_spaced {param struct : Text} :
    isStructParam param struct ↔ ∃ n, Spaced ["struct".toList, struct] n param := by
  rw [isStructParam_iff]
  simp only [spaced_iff (List.cons_ne_nil _ _)]
  constructor
  · rintro ⟨kind, name, last, pieces, is, points⟩
    exact ⟨last, [kind, name], by rw [List.map_cons, List.map_singleton, is, points], pieces⟩
  · rintro ⟨last, ps, words, pieces⟩
    obtain ⟨kind, rest, rfl, first, words⟩ := List.map_eq_cons_iff.1 words
    obtain ⟨name, rest, rfl, second, words⟩ := List.map_eq_cons_iff.1 words
    obtain rfl := List.map_eq_nil_iff.1 words
    exact ⟨kind, name, last, pieces, first, second⟩

theorem isArgc_iff_spaced {param : Text} : isArgc param ↔ ∃ n, Spaced ["int".toList] n param := by
  rw [isArgc_iff]
  simp only [spaced_iff (List.cons_ne_nil _ _)]
  constructor
  · rintro ⟨type, last, pieces, is⟩
    exact ⟨last, [type], by rw [List.map_singleton, is], pieces⟩
  · rintro ⟨last, ps, words, pieces⟩
    obtain ⟨type, rest, rfl, first, words⟩ := List.map_eq_cons_iff.1 words
    obtain rfl := List.map_eq_nil_iff.1 words
    exact ⟨type, last, pieces, first⟩

theorem areParams_iff_laid {structs : List Text} {params : Text} :
    areParams structs params ↔ ∃ ptrs argc dots, LaidParams structs params ptrs argc dots := by
  rw [areParams_iff]
  simp only [isStructParam_iff_spaced, isArgc_iff_spaced]
  refine exists_congr fun ptrs => exists_congr fun argc => exists_congr fun dots => ?_
  constructor
  · rintro ⟨pieces, pointers, counter, ellipsis⟩
    obtain ⟨clean, k, join, -⟩ := (split_eq_iff (by simp)).1 pieces
    exact ⟨⟨k, join⟩, clean, pointers, counter, ellipsis⟩
  · rintro ⟨⟨k, join⟩, clean, pointers, counter, ellipsis⟩
    refine ⟨(split_eq_iff (by simp)).2 ⟨clean, k, join, fun empty => ?_⟩, pointers, counter, ellipsis⟩
    have none : dots = [] := by simpa using empty
    rw [none] at ellipsis
    cases ellipsis

/-- What a validator accepts. -/
theorem validateFunction_iff_laidOut {sig : Signature} {line : Text} {r : Routine} (some : sig.result ≠ []) :
    validateFunction sig line = .some r ↔ r.type = sig.type ∧ LaidOut sig r.name line := by
  rw [validateFunction_iff]
  refine and_congr_right fun _ => ?_
  constructor
  · rintro ⟨typeName, rest, words, params, tail, halves, pieces, close, result, args⟩
    obtain ⟨opened, rest', -, opens, line⟩ := split_eq_pair_iff.1 halves
    obtain ⟨closed, tail', more, closes, rfl⟩ := split_eq_pair_iff.1 close
    simp only [List.mem_append, List.mem_cons, not_or] at rest'
    exact ⟨typeName, params, tail, ⟨⟨closes, opens, line⟩, opened, ⟨rest'.1.1, closed⟩, ⟨rest'.1.2.2, tail', more⟩,
      (spaced_iff some).2 ⟨words, result, pieces⟩, areParams_iff_laid.1 args⟩⟩
  · rintro ⟨head, params, tail, ⟨⟨closes, opens, join⟩, opened, between, closed, spaced, args⟩⟩
    obtain ⟨words, result, pieces⟩ := (spaced_iff some).1 spaced
    refine ⟨head, params ++ ')' :: tail ++ List.replicate closes ')', words, params, tail, ?_, pieces,
      split_eq_pair_iff.2 ⟨between.2, closed.2.1, closed.2.2, closes, rfl⟩, result, areParams_iff_laid.2 args⟩
    refine split_eq_pair_iff.2 ⟨opened, ?_, by simp, opens, join⟩
    simp only [List.mem_append, List.mem_cons, List.mem_replicate, not_or]
    exact ⟨⟨between.1, by decide, closed.1⟩, fun paren => absurd paren.2 (by decide)⟩

/-! ## Two layouts of one prototype -/

/-- Texts that differ in spaces only, as two layouts of the same tokens do. -/
def Respaced (u v : Text) : Prop := u.filter (· ≠ ' ') = v.filter (· ≠ ' ')

/-- What is after the blanks and a word. -/
theorem eq_after_word {a b w x y : Text} (ha : Blank a) (hb : Blank b) (tight : Tight w) (some : w ≠ [])
    (same : a ++ (w ++ x) = b ++ (w ++ y)) : x = y := by
  obtain ⟨c, w, rfl⟩ := List.exists_cons_of_ne_nil some
  have stops : ∀ z, (c :: w ++ z).dropWhile isBlank = c :: w ++ z := fun z =>
    List.dropWhile_cons_of_neg (by simp [tight.first c rfl])
  have texts := congrArg (List.dropWhile isBlank) same
  rw [dropWhile_blank ha, dropWhile_blank hb, stops, stops] at texts
  exact List.append_cancel_left texts

/-- Words that agree up to blanks have the same text after them, up to blanks. -/
theorem trim_eq_of_words {ps qs : List Text} {a b x y : Text} (ha : Blank a) (hb : Blank b)
    (words : ps.map trim = qs.map trim) (some : ∀ p ∈ ps, trim p ≠ [])
    (same : a ++ ps.flatten ++ x = b ++ qs.flatten ++ y) : trim x = trim y := by
  induction ps generalizing qs a b with
  | nil =>
    obtain rfl := List.map_eq_nil_iff.1 words.symm
    have texts := congrArg trim same
    rwa [List.flatten_nil, List.append_nil, List.append_nil, trim_blank_append ha, trim_blank_append hb] at texts
  | cons p ps ih =>
    obtain ⟨q, qs, rfl, first, rest⟩ := List.map_eq_cons_iff.1 words.symm
    rw [List.forall_mem_cons] at some
    obtain ⟨e, f, he, hf, first'⟩ := trim_spec p
    obtain ⟨e', f', he', hf', second'⟩ := trim_spec q
    rw [first] at second'
    refine ih hf hf' rest.symm some.2 (eq_after_word (ha.append he) (hb.append he') (tight_trim p) some.1 ?_)
    rw [List.flatten_cons, List.flatten_cons, first', second'] at same
    simpa only [List.append_assoc] using same

theorem filter_intercalate {ps : List Text} (clean : ∀ p ∈ ps, ' ' ∉ p) :
    ([' '].intercalate ps).filter (· ≠ ' ') = ps.flatten := by
  have kept : ∀ p ∈ ps, p.filter (· ≠ ' ') = p := fun p mem =>
    List.filter_eq_self.2 fun c inside => decide_eq_true fun space => clean p mem (space ▸ inside)
  cases ps with
  | nil => rfl
  | cons p ps =>
    rw [List.forall_mem_cons] at kept
    have rest : ∀ q ∈ ps, ([' '] ++ q).filter (· ≠ ' ') = q := kept.2
    rw [intercalate_cons, List.filter_append, kept.1, List.filter_flatMap, List.flatMap_congr rest, List.flatMap_id',
      List.flatten_cons]

/-- The names in two layouts are the same up to blanks. -/
theorem Spaced.trim_eq {words : List Text} {last last' s s' : Text} (some : ∀ w ∈ words, w ≠ [])
    (first : Spaced words last s) (second : Spaced words last' s') (same : Respaced s s') :
    trim last = trim last' := by
  obtain ⟨ps, trims, clean, -, join⟩ := first
  obtain ⟨qs, trims', clean', -, join'⟩ := second
  obtain ⟨a, b, ha, hb, whole⟩ := trim_spec s
  obtain ⟨a', b', ha', hb', whole'⟩ := trim_spec s'
  have blank : ∀ {t : Text}, Blank t → Blank (t.filter (· ≠ ' ')) := fun h c mem => h c (List.mem_of_mem_filter mem)
  unfold Respaced at same
  rw [whole, whole', join, join'] at same
  simp only [List.filter_append, filter_intercalate clean, filter_intercalate clean', List.flatten_append,
    List.flatten_singleton, List.append_assoc] at same
  simp only [← List.append_assoc (List.filter _ _) (List.flatten _)] at same
  have names := trim_eq_of_words (blank ha) (blank ha') (trims.trans trims'.symm)
    (fun p mem => some _ (trims ▸ List.mem_map_of_mem mem)) same
  rwa [trim_append_blank (blank hb), trim_append_blank (blank hb')] at names

/-- The last word is not followed by blanks. -/
theorem Spaced.eq_append {words : List Text} {last s : Text} (spaced : Spaced words last s) :
    last = last.takeWhile isBlank ++ trim last := by
  obtain ⟨ps, -, -, -, join⟩ := spaced
  obtain ⟨front, whole⟩ := exists_intercalate_concat [' '] ps last
  obtain ⟨a, b, ha, hb, split⟩ := trim_spec last
  have tight : Tight (front ++ (a ++ trim last) ++ b) := by
    have ends := tight_trim s
    rwa [join, whole, split, ← List.append_assoc] at ends
  rw [tight.eq_nil_of_blank_right hb, List.append_nil] at split
  have stops : (trim last).takeWhile isBlank = [] := by
    cases text : trim last with
    | nil => rfl
    | cons c t => exact List.takeWhile_cons_of_neg (by simp [(tight_trim last).first c (by rw [text]; rfl)])
  have blanks : (a ++ trim last).takeWhile isBlank = a := by
    rw [List.takeWhile_append_of_pos ha, stops, List.append_nil]
  rw [← split] at blanks
  rw [blanks]
  exact split

/-- So are the names of a prototype in two layouts. -/
theorem LaidOut.name_eq_iff {sig : Signature} {n n' u v : Text} (some : ∀ w ∈ sig.result, w ≠ []) (same : Respaced u v)
    (first : LaidOut sig n u) (second : LaidOut sig n' v) :
    n = n' ↔ n.takeWhile isBlank = n'.takeWhile isBlank := by
  obtain ⟨head, _, _, ⟨⟨_, _, rfl⟩, opened, -, -, spaced, -⟩⟩ := first
  obtain ⟨head', _, _, ⟨⟨_, _, rfl⟩, opened', -, -, spaced', -⟩⟩ := second
  have heads : Respaced head head' := by
    simp only [Respaced, List.filter_append, List.append_assoc, List.cons_append] at same
    rw [List.filter_cons_of_pos (by decide), List.filter_cons_of_pos (by decide)] at same
    have clean : ∀ {s : Text}, '(' ∉ s → '(' ∉ s.filter (· ≠ ' ') := fun free mem => free (List.mem_of_mem_filter mem)
    exact (append_sep_inj (clean opened) (clean opened') same).1
  refine ⟨fun names => by rw [names], fun blanks => ?_⟩
  rw [spaced.eq_append, spaced'.eq_append, blanks, spaced.trim_eq some spaced' heads]

theorem RoutineType.result_words {type : RoutineType} (defined : type ≠ .undefined) :
    type.signature.result ≠ [] ∧ ∀ w ∈ type.signature.result, w ≠ [] := by
  cases type with
  | undefined => exact absurd rfl defined
  | _ => decide

theorem RoutineType.laidOut_iff {type : RoutineType} (defined : type ≠ .undefined) {n line : Text} :
    LaidOut type.signature n line ↔ validateRoutine type line = some ⟨type, n⟩ := by
  rw [RoutineType.validateRoutine_eq defined, validateFunction_iff_laidOut (RoutineType.result_words defined).1]
  exact (and_iff_right rfl).symm

section Results

variable {type : RoutineType} {u v : Text}

/-- What is accepted in one layout is accepted in another that is laid out like it. -/
theorem validateRoutine_respaced (defined : type ≠ .undefined) (same : Respaced u v)
    (alike : (∃ n, LaidOut type.signature n u) → ∃ n, LaidOut type.signature n v)
    (blanks : ∀ n n', LaidOut type.signature n u → LaidOut type.signature n' v →
      n.takeWhile isBlank = n'.takeWhile isBlank)
    {r : Routine} (valid : validateRoutine type u = some r) : validateRoutine type v = some r := by
  obtain ⟨type', n⟩ := r
  obtain rfl : type' = type := validateRoutine_type valid
  have some := (RoutineType.result_words defined).2
  have first := (RoutineType.laidOut_iff defined).2 valid
  obtain ⟨n', second⟩ := alike ⟨n, first⟩
  rw [(first.name_eq_iff some same second).2 (blanks n n' first second)]
  exact (RoutineType.laidOut_iff defined).1 second

/-- A validator says the same of two layouts of a prototype exactly if both or neither
are laid out for it, with the same blanks between the space and the name. -/
theorem prototype_layouts_iff (defined : type ≠ .undefined) (same : Respaced u v) :
    validateRoutine type u = validateRoutine type v ↔
      ((∃ n, LaidOut type.signature n u) ↔ ∃ n, LaidOut type.signature n v) ∧
      ∀ n n', LaidOut type.signature n u → LaidOut type.signature n' v → n.takeWhile isBlank = n'.takeWhile isBlank := by
  constructor
  · intro verdict
    have alike : ∀ n, LaidOut type.signature n u ↔ LaidOut type.signature n v := fun n => by
      rw [RoutineType.laidOut_iff defined, RoutineType.laidOut_iff defined, verdict]
    refine ⟨exists_congr alike, fun n n' first second => ?_⟩
    have names := (RoutineType.laidOut_iff defined).1 ((alike n).1 first)
    rw [(RoutineType.laidOut_iff defined).1 second] at names
    cases names
    rfl
  · rintro ⟨alike, blanks⟩
    refine Option.ext fun r => ⟨?_, ?_⟩
    · exact validateRoutine_respaced defined same alike.1 blanks
    · exact validateRoutine_respaced defined same.symm alike.2 fun n n' first second => (blanks n' n second first).symm

/-- Spaces are free next to parentheses and commas. -/
theorem free_spaces_accepted :
    validateRoutine .schedulingPriority "int f(struct Qdisc* q, int argc, ...);".toList =
      validateRoutine .schedulingPriority " int f ( struct Qdisc* q ,int argc ,...) ;".toList := by
  have defined : RoutineType.schedulingPriority ≠ .undefined := by decide
  have same : Respaced "int f(struct Qdisc* q, int argc, ...);".toList
      " int f ( struct Qdisc* q ,int argc ,...) ;".toList := by
    unfold Respaced
    decide
  have tight : validateRoutine .schedulingPriority "int f(struct Qdisc* q, int argc, ...);".toList =
      some ⟨.schedulingPriority, "f".toList⟩ := by decide +kernel
  have wide : validateRoutine .schedulingPriority " int f ( struct Qdisc* q ,int argc ,...) ;".toList =
      some ⟨.schedulingPriority, "f".toList⟩ := by decide +kernel
  refine (prototype_layouts_iff defined same).2 ⟨iff_of_true ⟨_, (RoutineType.laidOut_iff defined).2 tight⟩
    ⟨_, (RoutineType.laidOut_iff defined).2 wide⟩, fun n n' first second => ?_⟩
  have name := tight.symm.trans ((RoutineType.laidOut_iff defined).1 first)
  have name' := wide.symm.trans ((RoutineType.laidOut_iff defined).1 second)
  cases name
  cases name'
  rfl

/-- The tokens of a line, with each sign on its own. -/
def signTokens (line : Text) : List Text := tokens (fun c => !Lib.isIdentChar c) line

/-- Two of the prototypes in the comments of the validators are refused, in which the `*`
is next to the name. -/
theorem documented_prototypes_refused :
    validateProcessingFunction "unsigned long my_pro_prio(struct sk_buff *skb, int argc, ...);".toList = none ∧
    validateProcessingFunction "unsigned long my_pro_prio(struct sk_buff* skb, int argc, ...);".toList =
      some ⟨.processingPriority, "my_pro_prio".toList⟩ ∧
    validateSchedulingFunction "int my_schd_prio(struct Qdisc *sch, int argc, ...);".toList = none ∧
    validateSchedulingFunction "int my_schd_prio(struct Qdisc* sch, int argc, ...);".toList =
      some ⟨.schedulingPriority, "my_schd_prio".toList⟩ ∧
    signTokens "unsigned long my_pro_prio(struct sk_buff *skb, int argc, ...);".toList =
      signTokens "unsigned long my_pro_prio(struct sk_buff* skb, int argc, ...);".toList ∧
    signTokens "int my_schd_prio(struct Qdisc *sch, int argc, ...);".toList =
      signTokens "int my_schd_prio(struct Qdisc* sch, int argc, ...);".toList := by
  decide +kernel

end Results

end OpenQueue.Gen
