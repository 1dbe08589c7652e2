import OpenQueue.Lib.Splitting

/-!
# Tokens

The tokens of a text are its delimiters and the words between them. Blanks end a word
and stand for nothing, so two texts with the same tokens differ in insignificant blanks
only.
-/

namespace Lib.Text

/-- A word that has been read, unless it is empty. -/
def flush (word : Text) : List Text := if word.isEmpty then [] else [word]

section Definition

variable (delim : Char → Bool)

/-- The tokens of a text that goes on with a word. -/
def tokensFrom : Text → Text → List Text
  | word, [] => flush word
  | word, c :: s =>
    if isBlank c then flush word ++ tokensFrom [] s
    else if delim c then flush word ++ [c] :: tokensFrom [] s
    else tokensFrom (word ++ [c]) s

/-- The tokens of a text. -/
def tokens (s : Text) : List Text := tokensFrom delim [] s

/-- Part of a word. -/
def isPlain (c : Char) : Bool := !isBlank c && !delim c

end Definition

variable {delim : Char → Bool} {d : Char} {s t u v w word : Text}

theorem isPlain_iff : isPlain delim d ↔ isBlank d = false ∧ delim d = false := by
  simp [isPlain]

/-! ## Concatenation -/

theorem tokensFrom_delim (hd : delim d) (hb : isBlank d = false) :
    tokensFrom delim word (u ++ d :: v) = tokensFrom delim word u ++ [d] :: tokens delim v := by
  induction u generalizing word with
  | nil => simp [tokensFrom, tokens, hd, hb]
  | cons c u ih =>
    rw [List.cons_append, tokensFrom, tokensFrom]
    split
    · rw [ih, List.append_assoc]
    · split
      · rw [ih, List.append_assoc, List.cons_append]
      · exact ih

/-- A delimiter is a token. -/
theorem tokens_delim (hd : delim d) (hb : isBlank d = false) (u v : Text) :
    tokens delim (u ++ d :: v) = tokens delim u ++ [d] :: tokens delim v := tokensFrom_delim hd hb

theorem tokensFrom_blank (hb : isBlank d) :
    tokensFrom delim word (u ++ d :: v) = tokensFrom delim word u ++ tokens delim v := by
  induction u generalizing word with
  | nil => simp [tokensFrom, tokens, hb]
  | cons c u ih =>
    rw [List.cons_append, tokensFrom, tokensFrom]
    split
    · rw [ih, List.append_assoc]
    · split
      · rw [ih, List.append_assoc, List.cons_append]
      · exact ih

/-- A blank ends a word. -/
theorem tokens_blank (hb : isBlank d) (u v : Text) :
    tokens delim (u ++ d :: v) = tokens delim u ++ tokens delim v := tokensFrom_blank hb

theorem tokensFrom_plain (plain : ∀ c ∈ u, isPlain delim c) :
    tokensFrom delim word u = flush (word ++ u) := by
  induction u generalizing word with
  | nil => rw [tokensFrom, List.append_nil]
  | cons c u ih =>
    rw [List.forall_mem_cons, isPlain_iff] at plain
    rw [tokensFrom, plain.1.1, plain.1.2, if_neg (by decide), if_neg (by decide), ih plain.2, List.append_assoc]
    rfl

theorem tokens_word (some : w ≠ []) (plain : ∀ c ∈ w, isPlain delim c) : tokens delim w = [w] := by
  rw [tokens, tokensFrom_plain plain, List.nil_append, flush, if_neg (by simpa using some)]

theorem tokens_blanks_append (hu : Blank u) : tokens delim (u ++ v) = tokens delim v := by
  induction u with
  | nil => rfl
  | cons c u ih =>
    rw [List.cons_append]
    exact (tokens_blank (hu c List.mem_cons_self) [] (u ++ v)).trans (ih fun d mem => hu d (List.mem_cons_of_mem c mem))

theorem tokens_append_blanks (hv : Blank v) : tokens delim (u ++ v) = tokens delim u := by
  cases v with
  | nil => rw [List.append_nil]
  | cons c v =>
    have rest : tokens delim (v ++ []) = tokens delim [] :=
      tokens_blanks_append fun d mem => hv d (List.mem_cons_of_mem c mem)
    rw [List.append_nil] at rest
    rw [tokens_blank (hv c List.mem_cons_self), rest]
    exact List.append_nil _

theorem tokens_of_blank (hu : Blank u) : tokens delim u = [] := tokens_append_blanks (u := []) hu

/-- `trim` removes insignificant blanks only. -/
theorem tokens_trim (s : Text) : tokens delim (trim s) = tokens delim s := by
  obtain ⟨u, v, hu, hv, split⟩ := trim_spec s
  conv_rhs => rw [split]
  rw [tokens_append_blanks hv, tokens_blanks_append hu]

/-- The tokens of a list. -/
theorem tokens_intercalate (hd : delim d) (hb : isBlank d = false) (hv : Blank v) (ps : List Text) :
    tokens delim ((d :: v).intercalate ps) = [[d]].intercalate (ps.map (tokens delim)) := by
  induction ps with
  | nil => rfl
  | cons p ps ih =>
    cases ps with
    | nil => simp
    | cons q qs =>
      rw [List.intercalate_cons_cons, List.append_assoc, List.cons_append, tokens_delim hd hb, tokens_blanks_append hv, ih]
      simp

/-- Delimiters at the end. -/
theorem tokens_replicate (hd : delim d) (hb : isBlank d = false) (u : Text) (k : Nat) :
    tokens delim (u ++ List.replicate k d) = tokens delim u ++ List.replicate k [d] := by
  induction k with
  | zero => simp
  | succ k ih =>
    rw [List.replicate_succ', List.replicate_succ', ← List.append_assoc, tokens_delim hd hb, ih, List.append_assoc]
    rfl

/-! ## The text of the tokens -/

theorem mem_of_mem_tokensFrom {c : Char} (mem : t ∈ tokensFrom delim word s) (inside : c ∈ t) : c ∈ word ∨ c ∈ s := by
  have flushed : ∀ {word : Text}, t ∈ flush word → c ∈ word := by
    intro word mem
    rw [flush] at mem
    split at mem
    · cases mem
    · rwa [← List.mem_singleton.1 mem]
  induction s generalizing word with
  | nil => exact .inl (flushed mem)
  | cons d s ih =>
    rw [tokensFrom] at mem
    rw [List.mem_cons]
    split at mem
    · rcases List.mem_append.1 mem with here | later
      · exact .inl (flushed here)
      · exact .inr (.inr ((ih later).resolve_left List.not_mem_nil))
    · split at mem
      · rcases List.mem_append.1 mem with here | later
        · exact .inl (flushed here)
        · rcases List.mem_cons.1 later with rfl | later
          · exact .inr (.inl (List.mem_singleton.1 inside))
          · exact .inr (.inr ((ih later).resolve_left List.not_mem_nil))
      · rcases ih mem with here | later
        · rcases List.mem_append.1 here with here | here
          · exact .inl here
          · exact .inr (.inl (List.mem_singleton.1 here))
        · exact .inr (.inr later)

theorem mem_of_mem_tokens {c : Char} (mem : t ∈ tokens delim s) (inside : c ∈ t) : c ∈ s :=
  (mem_of_mem_tokensFrom mem inside).resolve_left List.not_mem_nil

/-- A delimiter is among the tokens exactly if it is in the text. -/
theorem mem_tokens_iff (hd : delim d) (hb : isBlank d = false) : [d] ∈ tokens delim s ↔ d ∈ s := by
  constructor
  · exact fun mem => mem_of_mem_tokens mem (List.mem_singleton_self d)
  · intro mem
    obtain ⟨u, v, rfl⟩ := List.append_of_mem mem
    rw [tokens_delim hd hb]
    exact List.mem_append_right _ List.mem_cons_self

theorem flatten_tokensFrom (none : ∀ c ∈ s, isBlank c = false) : (tokensFrom delim word s).flatten = word ++ s := by
  have flushed : ∀ word : Text, (flush word).flatten = word := by
    intro word
    cases word with
    | nil => rfl
    | cons c word => exact List.append_nil _
  induction s generalizing word with
  | nil => rw [tokensFrom, flushed, List.append_nil]
  | cons c s ih =>
    rw [List.forall_mem_cons] at none
    rw [tokensFrom, none.1, if_neg (by decide)]
    split
    · rw [List.flatten_append, flushed, List.flatten_cons, ih none.2]
      rfl
    · rw [ih none.2, List.append_assoc]
      rfl

/-- Nothing is lost of a text without blanks. -/
theorem flatten_tokens (none : ∀ c ∈ s, isBlank c = false) : (tokens delim s).flatten = s := flatten_tokensFrom none

theorem flush_eq_nil (empty : flush word = []) : word = [] := by
  rw [flush] at empty
  split at empty
  · next none => exact List.isEmpty_iff.1 none
  · cases empty

theorem tokensFrom_eq_nil (empty : tokensFrom delim word s = []) : word = [] ∧ Blank s := by
  induction s generalizing word with
  | nil => exact ⟨flush_eq_nil empty, blank_nil⟩
  | cons c s ih =>
    rw [tokensFrom] at empty
    split at empty
    · next hb =>
      rw [List.append_eq_nil_iff] at empty
      refine ⟨flush_eq_nil empty.1, ?_⟩
      rw [Blank, List.forall_mem_cons]
      exact ⟨hb, (ih empty.2).2⟩
    · split at empty
      · simp at empty
      · exact absurd (ih empty).1 (by simp)

theorem tokens_eq_nil_iff : tokens delim s = [] ↔ Blank s :=
  ⟨fun empty => (tokensFrom_eq_nil empty).2, tokens_of_blank⟩

/-- The first token begins where the text does. -/
theorem tokens_cons (hb : isBlank d = false) (s : Text) : ∃ w ws, tokens delim (d :: s) = (d :: w) :: ws := by
  have going : ∀ (s : Text) {word : Text}, ∃ w ws, tokensFrom delim (d :: word) s = (d :: w) :: ws := by
    intro s
    induction s with
    | nil =>
      intro word
      exact ⟨word, [], rfl⟩
    | cons c s ih =>
      intro word
      rw [tokensFrom]
      split
      · exact ⟨word, _, rfl⟩
      · split
        · exact ⟨word, _, rfl⟩
        · exact ih
  by_cases hd : delim d
  · exact ⟨[], _, tokens_delim hd hb [] s⟩
  · rw [tokens, tokensFrom, hb, if_neg (by decide), if_neg hd]
    exact going s

theorem tokensFrom_eq_cons {ws : List Text} (found : tokensFrom delim word s = w :: ws) :
    ∃ u v, Blank u ∧ word ++ s = u ++ w ++ v ∧ (word ≠ [] → u = []) := by
  have flushed : ∀ {word : Text} {rest : List Text}, word ≠ [] → flush word ++ rest = w :: ws → word = w := by
    intro word rest some found
    rw [flush, if_neg (by simpa using some)] at found
    exact (List.cons.inj found).1
  induction s generalizing word with
  | nil =>
    rw [tokensFrom, flush] at found
    split at found
    · cases found
    · cases found
      exact ⟨[], [], blank_nil, rfl, fun _ => rfl⟩
  | cons c s ih =>
    rw [tokensFrom] at found
    by_cases empty : word = []
    · subst empty
      split at found
      · next hb =>
        obtain ⟨u, v, hu, split, -⟩ := ih found
        refine ⟨c :: u, v, List.forall_mem_cons.2 ⟨hb, hu⟩, ?_, fun some => absurd rfl some⟩
        rw [List.nil_append] at split ⊢
        rw [split]
        rfl
      · split at found
        · cases found
          exact ⟨[], s, blank_nil, rfl, fun _ => rfl⟩
        · obtain ⟨u, v, hu, split, first⟩ := ih found
          exact ⟨u, v, hu, split, fun some => absurd rfl some⟩
    · split at found
      · cases flushed empty found
        exact ⟨[], c :: s, blank_nil, rfl, fun _ => rfl⟩
      · split at found
        · cases flushed empty found
          exact ⟨[], c :: s, blank_nil, rfl, fun _ => rfl⟩
        · obtain ⟨u, v, hu, split, first⟩ := ih found
          refine ⟨u, v, hu, ?_, fun _ => first (by simp)⟩
          rw [← split, List.append_assoc]
          rfl

/-- A tight text starts with its first token. -/
theorem Tight.startsWith_of_tokens {ws : List Text} (tight : Tight s) (found : tokens delim s = w :: ws) :
    startsWith s w := by
  obtain ⟨u, v, hu, split, -⟩ := tokensFrom_eq_cons found
  rw [List.nil_append, List.append_assoc] at split
  rw [split] at tight ⊢
  cases tight.eq_nil_of_blank_left hu
  exact startsWith_iff.2 (List.prefix_append w v)

/-- A tight text with a single token is that token. -/
theorem Tight.eq_of_tokens (tight : Tight s) (single : tokens delim s = [t]) : s = t := by
  by_cases none : ∀ c ∈ s, isBlank c = false
  · have whole : (tokens delim s).flatten = s := flatten_tokens none
    rw [single] at whole
    simpa using whole.symm
  · push Not at none
    obtain ⟨b, here, hb⟩ := none
    have hb : isBlank b = true := by simpa using hb
    obtain ⟨u, v, rfl⟩ := List.append_of_mem here
    rw [tokens_blank hb] at single
    -- one of the two sides has no token, so the text has a blank at that end
    rcases List.append_eq_singleton_iff.1 single with ⟨left, -⟩ | ⟨-, right⟩
    · have blank := tokens_eq_nil_iff.1 left
      cases u with
      | nil => cases hb.symm.trans (tight.first b rfl)
      | cons c u => cases (blank c List.mem_cons_self).symm.trans (tight.first c rfl)
    · have blank := tokens_eq_nil_iff.1 right
      rcases List.eq_nil_or_concat v with rfl | ⟨v, c, rfl⟩
      · cases hb.symm.trans (tight.last b (by simp))
      · cases (blank c (by simp)).symm.trans (tight.last c (by simp [List.getLast?_cons]))

theorem trim_eq_of_tokens (single : tokens delim s = [t]) : trim s = t :=
  (tight_trim s).eq_of_tokens (by rw [tokens_trim, single])

end Lib.Text

namespace Lib

/-- What `Double.parseDouble` reads, without blanks around it: letters, digits, points and
signs, and the first of them is neither a `P` nor a `Q`. -/
structure Jre.PlainNumbers (jre : Jre) : Prop where
  chars : ∀ t d, Text.Tight t → jre.parseDouble t = some d → ∀ c ∈ t, c.isAlphanum ∨ c = '.' ∨ c = '+' ∨ c = '-'
  first : ∀ t d, Text.Tight t → jre.parseDouble t = some d → ∃ c s, t = c :: s ∧ c ≠ 'Q' ∧ c ≠ 'P'

end Lib
