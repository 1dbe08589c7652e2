import OpenQueue.Gen.Meaning
import OpenQueue.Gen.Scope
import OpenQueue.Kernel.Qdisc
import OpenQueue.Spec.Generated

/-!
# The index of a queue

`oq_enqueue` and `oq_dequeue` use what `qselc_func` and `schd_func` return as an index,
unchecked. A routine can be trusted to return one, but nothing checks an inline
expression: `Inline.bounded` says which ones never leave the queues of their policy.
-/

namespace OpenQueue.Gen

open Lib (Text Jre CInt Comparison)

/-! ## Which expressions are bounded -/

/-- `x OP k` for no `x` from 0 to `top`. -/
def failsUpTo (top k : Int) : Comparison → Bool
  | .eq => k < 0 ∨ top < k
  | .ne => false
  | .lt => k ≤ 0
  | .le => k < 0
  | .gt => top ≤ k
  | .ge => top < k

/-- `k OP' x` in place of `x OP k`. -/
def mirror : Comparison → Comparison
  | .eq => .eq
  | .ne => .ne
  | .lt => .gt
  | .le => .ge
  | .gt => .lt
  | .ge => .le

/-- The greatest value of a field. -/
def PacketAttr.top : PacketAttr → Int
  | .byte _ => 2 ^ 8 - 1
  | .short _ => 2 ^ 16 - 1
  | .word _ => 2 ^ 32 - 1

/-- A constant as it is compared with a field: with an address, as `unsigned int`. -/
def PacketAttr.against (c : BitVec 32) : PacketAttr → Int
  | .word _ => (CInt.constant c).besideUnsigned
  | _ => c.toInt

/-- A comparison that holds for no packet. -/
def neverHolds (op : Comparison) : Operand (BitVec 32) → Operand (BitVec 32) → Bool
  | .num c, .num d => !op.holds c.toInt d.toInt
  | .packet a, .num c => failsUpTo a.top (a.against c) op
  | .num c, .packet a => failsUpTo a.top (a.against c) (mirror op)
  | .packet a, .packet b => a = b ∧ (op = .ne ∨ op = .lt ∨ op = .gt)
  | _, _ => false

/-- The fields of a packet take more values than there are queues. -/
def Operand.bounded (n : Nat) : Operand (BitVec 32) → Bool
  | .queue _ => false
  | .packet _ => false
  | .num c => 0 ≤ c.toInt ∧ c.toInt < n

/-- An expression that is an index of `n` queues, which are at most 16, for every packet. -/
def Inline.bounded (n : Nat) : Inline (BitVec 32) → Bool
  | .operand o => o.bounded n
  | .compare op lhs rhs => 2 ≤ n || neverHolds op lhs rhs

/-! ## Fields -/

/-- A packet whose fields are loaded as given. -/
def Env.reading (f : PacketAttr → Nat) : Env where
  queue _ := 0
  header :=
    { byte g := BitVec.ofNat 8 (f (.byte g))
      short g := Lib.swap16 (BitVec.ofNat 16 (f (.short g)))
      word g := Lib.swap32 (BitVec.ofNat 32 (f (.word g))) }

theorem PacketAttr.read_le_top (env : Env) (a : PacketAttr) : a.read env ≤ a.top := by
  cases a with
  | byte f =>
    have small := (env.header.byte f).isLt
    rw [read_byte, top]
    omega
  | short f =>
    have small := (Lib.swap16 (env.header.short f)).isLt
    rw [read_short, top]
    omega
  | word f =>
    have small := (Lib.swap32 (env.header.word f)).isLt
    rw [read_word, top]
    omega

theorem PacketAttr.read_reading {f : PacketAttr → Nat} {a : PacketAttr} (small : f a ≤ a.top) :
    a.read (.reading f) = f a := by
  cases a with
  | byte g =>
    rw [top] at small
    rw [read_byte, Env.reading, BitVec.toNat_ofNat, Nat.mod_eq_of_lt (by omega)]
  | short g =>
    rw [top] at small
    rw [read_short, Env.reading, Lib.swap16_swap16, BitVec.toNat_ofNat, Nat.mod_eq_of_lt (by omega)]
  | word g =>
    rw [top] at small
    rw [read_word, Env.reading, Lib.swap32_swap32, BitVec.toNat_ofNat, Nat.mod_eq_of_lt (by omega)]

/-- Every value up to the greatest is loaded from some packet. -/
theorem PacketAttr.exists_read {a : PacketAttr} {x : Int} (low : 0 ≤ x) (high : x ≤ a.top) :
    ∃ env, a.read env = x := by
  refine ⟨.reading fun _ => x.toNat, ?_⟩
  rw [read_reading (by omega)]
  omega

/-! ## Comparisons -/

theorem compared_num_num (env : Env) (c d : BitVec 32) : compared env (.num c) (.num d) = (c.toInt, d.toInt) := by
  rw [compared_of_not_word rfl rfl, Operand.load, Operand.load, CInt.value_constant, CInt.value_constant]

theorem compared_packet_num (env : Env) (a : PacketAttr) (c : BitVec 32) :
    compared env (.packet a) (.num c) = (a.read env, a.against c) := by
  cases a with
  | byte f => exact (compared_of_not_word rfl rfl).trans (Prod.ext rfl (CInt.value_constant c))
  | short f => exact (compared_of_not_word rfl rfl).trans (Prod.ext rfl (CInt.value_constant c))
  | word f => exact compared_of_word rfl

theorem compared_packet_packet (env : Env) (a b : PacketAttr) :
    compared env (.packet a) (.packet b) = (a.read env, b.read env) := by
  rw [compared, CInt.converted_eq, PacketAttr.besideUnsigned_load, PacketAttr.besideUnsigned_load]
  exact ite_self _

/-- A comparison with a constant fails for all values of a field, or holds for one. -/
theorem failsUpTo_iff {top k : Int} (room : 0 < top) (op : Comparison) :
    failsUpTo top k op ↔ ∀ x, 0 ≤ x → x ≤ top → op.holds x k = false := by
  cases op <;> simp only [failsUpTo, Comparison.holds, decide_eq_true_eq, decide_eq_false_iff_not]
  · constructor
    · intro far x low high
      omega
    · intro all
      have here := all k
      omega
  · refine iff_of_false Bool.false_ne_true fun all => ?_
    have zero := all 0 (by omega) (by omega)
    have one := all 1 (by omega) (by omega)
    omega
  · constructor
    · intro far x low high
      omega
    · intro all
      have zero := all 0
      omega
  · constructor
    · intro far x low high
      omega
    · intro all
      have zero := all 0
      omega
  · constructor
    · intro far x low high
      omega
    · intro all
      have last := all top
      omega
  · constructor
    · intro far x low high
      omega
    · intro all
      have last := all top
      omega

theorem holds_mirror (op : Comparison) (x y : Int) : (mirror op).holds y x = op.holds x y := by
  cases op <;> simp only [mirror, Comparison.holds, eq_comm, ne_comm, gt_iff_lt, ge_iff_le]

theorem PacketAttr.top_pos (a : PacketAttr) : 0 < a.top := by
  rcases a with f | f | f <;> rw [top] <;> decide

/-- A field and a constant. -/
theorem failsUpTo_field_iff {a : PacketAttr} {c : BitVec 32} {op : Comparison} :
    failsUpTo a.top (a.against c) op ↔ ∀ env, op.holds (a.read env) (a.against c) = false := by
  rw [failsUpTo_iff a.top_pos]
  constructor
  · intro all env
    exact all _ (a.read_nonneg env) (a.read_le_top env)
  · intro all x low high
    obtain ⟨env, rfl⟩ := a.exists_read low high
    exact all env

/-- Two fields that are read as given. -/
theorem PacketAttr.exists_reads {a b : PacketAttr} (differ : a ≠ b) {x y : Nat} (hx : x ≤ 1) (hy : y ≤ 1) :
    ∃ env, a.read env = x ∧ b.read env = y := by
  have ha := a.top_pos
  have hb := b.top_pos
  refine ⟨.reading fun c => if c = a then x else y, ?_, ?_⟩
  · rw [read_reading] <;> rw [if_pos rfl]
    omega
  · rw [read_reading] <;> rw [if_neg (Ne.symm differ)]
    omega

theorem neverHolds_iff {op : Comparison} {o o' : Operand (BitVec 32)} (clean : .queue ∉ o.vars ++ o'.vars) :
    neverHolds op o o' ↔ ∀ env, op.holds (compared env o o').1 (compared env o o').2 = false := by
  cases o with
  | queue a => exact absurd (List.mem_append_left _ List.mem_cons_self) clean
  | num c =>
    cases o' with
    | queue a => exact absurd (List.mem_append_right _ List.mem_cons_self) clean
    | num d =>
      simp only [neverHolds, compared_num_num, Bool.not_eq_true']
      exact ⟨fun fails _ => fails, fun all => all (.reading fun _ => 0)⟩
    | packet a =>
      refine failsUpTo_field_iff.trans (forall_congr' fun env => ?_)
      rw [compared_swap, compared_packet_num, holds_mirror]
      rfl
  | packet a =>
    cases o' with
    | queue b => exact absurd (List.mem_append_right _ List.mem_cons_self) clean
    | num c =>
      refine failsUpTo_field_iff.trans (forall_congr' fun env => ?_)
      rw [compared_packet_num]
    | packet b =>
      simp only [neverHolds, compared_packet_packet, decide_eq_true_eq]
      by_cases same : a = b
      · subst same
        have some : Nonempty Env := ⟨.reading fun _ => 0⟩
        cases op <;> simp [Comparison.holds]
      · refine iff_of_false (fun h => same h.1) fun all => ?_
        obtain ⟨env, ha, hb⟩ := PacketAttr.exists_reads same (x := 0) (y := 0) (by decide) (by decide)
        obtain ⟨env', ha', hb'⟩ := PacketAttr.exists_reads same (x := 0) (y := 1) (by decide) (by decide)
        obtain ⟨env'', ha'', hb''⟩ := PacketAttr.exists_reads same (x := 1) (y := 0) (by decide) (by decide)
        have h := all env
        have h' := all env'
        have h'' := all env''
        rw [ha, hb] at h
        rw [ha', hb'] at h'
        rw [ha'', hb''] at h''
        cases op <;> simp [Comparison.holds] at h h' h''

/-! ## Expressions as indices -/

/-- An index of `n` queues. -/
def Below (n : Nat) (v : BitVec 32) : Prop := 0 ≤ v.toInt ∧ v.toInt < n

theorem Operand.bounded_iff {n : Nat} (fits : n ≤ tcqOqMaxQueue) {o : Operand (BitVec 32)} (clean : .queue ∉ o.vars) :
    o.bounded n ↔ ∀ env, Below n (o.load env).toInt32 := by
  cases o with
  | queue a => exact absurd List.mem_cons_self clean
  | packet a =>
    -- every field can be 255
    have last : ((Operand.packet a).load (.reading fun _ => 255)).toInt32.toInt = 255 := by
      rcases a with f | f | f <;>
        simp only [load, CInt.toInt32, Env.reading, Lib.swap16_swap16, Lib.swap32_swap32] <;> decide
    refine iff_of_false Bool.false_ne_true fun below => ?_
    have high := (below (.reading fun _ => 255)).2
    rw [last] at high
    have : n ≤ 16 := fits
    omega
  | num c =>
    simp only [load, CInt.toInt32_constant, bounded, decide_eq_true_eq]
    exact ⟨fun below _ => below, fun all => all (.reading fun _ => 0)⟩

theorem Inline.bounded_iff {n : Nat} (some : 0 < n) (fits : n ≤ tcqOqMaxQueue) {e : Inline (BitVec 32)}
    (clean : .queue ∉ e.vars) : e.bounded n ↔ ∀ env, Below n (e.cValue env).toInt32 := by
  cases e with
  | operand o => exact Operand.bounded_iff fits clean
  | compare op lhs rhs =>
    have value : ∀ env, (Inline.cValue env (.compare op lhs rhs)).toInt32 =
        if op.holds (compared env lhs rhs).1 (compared env lhs rhs).2 then 1 else 0 := fun _ => rfl
    have zero : Below n 0 := ⟨by decide, by simpa using some⟩
    have one : Below n 1 ↔ 2 ≤ n := by
      rw [Below, show (1 : BitVec 32).toInt = 1 from rfl]
      omega
    rw [bounded, Bool.or_eq_true, decide_eq_true_eq, neverHolds_iff clean, ← one]
    constructor
    · intro cond env
      rw [value]
      rcases cond with room | never
      · split
        · exact room
        · exact zero
      · rw [never env]
        exact zero
    · intro below
      by_contra other
      rw [not_or, not_forall] at other
      obtain ⟨room, env, holds⟩ := other
      have here := below env
      rw [value, if_pos (by simpa using holds)] at here
      exact room here

/-! ## What the two functions return -/

section Results

variable {jre : Jre} {files : Text → Option Text} {text : Text} {gen : OQGen jre.Double}

/-- A function whose body is `return STATEMENT;` returns `v`, in a module that compiles:
the variables of an inline expression are parameters of the function. `imported` is what
the imported routines return. -/
def Returns (env : Env) (imported : Text → Option (List jre.Double) → BitVec 32) :
    Statement jre.Double → BitVec 32 → Prop
  | .inline t type, v => ∃ e : Inline (BitVec 32), e.cText = t ∧ e.inScope type ∧ (e.cValue env).toInt32 = v
  | .routineCall name _ params, v => imported name params = v

/-- The number of queues, which `init_port` stores in `num_q`. -/
def OQGen.numQ (gen : OQGen jre.Double) : Nat := gen.queues.keys.length

/-- In a module that is compiled from the policy, `init_port` succeeds if it gets the memory
it asks for, and wherever it succeeds, indexing with `v` stays in the array and gives a
queue that it has set up. -/
def Initialised (gen : OQGen jre.Double) (v : BitVec 32) : Prop :=
  ∀ lit m, compile lit gen = some m →
    (∃ priv, m.initPort (fun _ => .ok) .zero = .ok (0, priv)) ∧
      ∀ trees priv, m.initPort trees .zero = .ok (0, priv) →
        ∃ slot, slot? v.toInt = some slot ∧ (priv.queues slot).ready

/-- A statement of the port. -/
def OQGen.Indexes (gen : OQGen jre.Double) (s : Statement jre.Double) : Prop :=
  gen.Assigned .queueSelector s ∨ gen.Assigned .schedulingPriority s

/-- As long as the imported routines that are used return indices, the functions for the
port return indices, for every packet. -/
def IndicesInRange (gen : OQGen jre.Double) : Prop :=
  ∀ imported, (∀ name type params, gen.Indexes (.routineCall name type params) → Below gen.numQ (imported name params)) →
    ∀ env s, gen.Indexes s → ∃ v, Returns env imported s v ∧ Below gen.numQ v ∧ Initialised gen v

/-- A statement that is a call, or an inline expression in scope that is an index of `n`
queues. -/
def Statement.bounded (n : Nat) : Statement jre.Double → Prop
  | .inline t type => ∃ e : Inline (BitVec 32), e.cText = t ∧ e.inScope type ∧ e.bounded n
  | .routineCall _ _ _ => True

theorem Accepts.numQ_pos (accepted : Accepts jre files text gen) : 0 < gen.numQ := by
  obtain ⟨port, here, defined, -⟩ := OQGen.isWellDefined_iff.1 accepted.wellDefined
  simp only [Port.isWellDefined, Bool.and_eq_true, Bool.not_eq_true', List.isEmpty_eq_false_iff] at defined
  obtain ⟨n, listed⟩ := List.exists_mem_of_ne_nil _ defined.2
  obtain ⟨q, found⟩ := accepted.wellFormed.declared port here n listed
  exact List.length_pos_of_mem (Lib.PutMap.mem_keys_iff.2 ⟨q, found⟩)

theorem Accepts.length_inits (accepted : Accepts jre files text gen) {lit : Text → Option Lib.CStr} {m : CModule}
    (compiled : compile lit gen = some m) : m.inits.length = gen.numQ := by
  obtain ⟨-, -, -, defined⟩ := OQGen.isWellDefined_iff.1 accepted.wellDefined
  obtain ⟨names, literals, h⟩ := compiled_of_compile defined compiled
  exact (h.length_inits literals).trans OQGen.length_values

/-- Some compiler makes a module of an accepted policy. -/
theorem Accepts.exists_compile (accepted : Accepts jre files text gen) : ∃ lit m, compile lit gen = some m := by
  obtain ⟨port, here, -, defined⟩ := OQGen.isWellDefined_iff.1 accepted.wellDefined
  have literals : Literals (fun _ => some ⟨[], nofun⟩) gen (gen.values.map fun _ => ⟨[], nofun⟩) :=
    ⟨⟨port, _, here, rfl⟩, List.forall₂_map_right_iff.2 (List.forall₂_same.2 fun _ _ => rfl)⟩
  obtain ⟨m, compiled, -⟩ := literals.compile defined
  exact ⟨_, m, compiled⟩

/-- An index of the queues, where they fit, is the index of a queue that has been set up. -/
theorem Accepts.initialised (accepted : Accepts jre files text gen) (fits : gen.numQ ≤ tcqOqMaxQueue) {v : BitVec 32}
    (below : Below gen.numQ v) : Initialised gen v := by
  intro lit m compiled
  have count := accepted.length_inits compiled
  refine ⟨⟨_, CModule.initPort_ok_iff.2 ⟨by omega, rfl, rfl⟩⟩, fun trees priv run => ?_⟩
  obtain ⟨-, rfl⟩ := CModule.initPort_zero run
  obtain ⟨low, high⟩ := below
  have inside : v.toInt.toNat < m.inits.length := by omega
  refine ⟨⟨v.toInt.toNat, by omega⟩, dif_pos ⟨low, by omega⟩, ?_⟩
  rw [CModule.started_slot (s := ⟨v.toInt.toNat, by omega⟩) (List.getElem?_eq_getElem inside)]
  rfl

theorem Accepts.fits_of_initialised (accepted : Accepts jre files text gen) {v : BitVec 32}
    (initialised : Initialised gen v) : gen.numQ ≤ tcqOqMaxQueue := by
  obtain ⟨lit, m, compiled⟩ := accepted.exists_compile
  obtain ⟨⟨priv, run⟩, -⟩ := initialised lit m compiled
  rw [← accepted.length_inits compiled]
  exact (CModule.initPort_ok_iff.1 run).1

/-- The port has a selector. -/
theorem Accepts.exists_indexes (accepted : Accepts jre files text gen) : ∃ s, gen.Indexes s := by
  obtain ⟨port, here, defined, -⟩ := OQGen.isWellDefined_iff.1 accepted.wellDefined
  simp only [Port.isWellDefined, Bool.and_eq_true, Option.isSome_iff_exists] at defined
  obtain ⟨⟨⟨s, select⟩, -⟩, -⟩ := defined
  exact ⟨s, .inl (.queueSelect here select)⟩

/-- The functions for the port have no queue as a parameter. -/
theorem Accepts.clean (accepted : Accepts jre files text gen) {t : Text} {type : RoutineType}
    (here : gen.Indexes (.inline t type)) {e : Inline (BitVec 32)} (inScope : e.inScope type) : .queue ∉ e.vars := by
  intro mem
  have visible := inScope _ mem
  rcases here with here | here
  · cases accepted.typed.statements _ _ here
    exact absurd visible (by decide)
  · cases accepted.typed.statements _ _ here
    exact absurd visible (by decide)

/-- The functions for the port return indices exactly if there are at most 16 queues and
their statements are calls, or bounded expressions over their parameters. -/
theorem indices_in_range_iff (accepted : Accepts jre files text gen) :
    IndicesInRange gen ↔ gen.numQ ≤ tcqOqMaxQueue ∧ ∀ s, gen.Indexes s → s.bounded gen.numQ := by
  have some := accepted.numQ_pos
  constructor
  · intro inRange
    have returned := inRange (fun _ _ => 0) (fun _ _ _ _ => ⟨by decide, by simpa using some⟩)
    have fits : gen.numQ ≤ tcqOqMaxQueue := by
      obtain ⟨s, here⟩ := accepted.exists_indexes
      obtain ⟨v, -, -, initialised⟩ := returned (.reading fun _ => 0) s here
      exact accepted.fits_of_initialised initialised
    refine ⟨fits, fun s here => ?_⟩
    cases s with
    | routineCall name type params => trivial
    | inline t type =>
      obtain ⟨-, ⟨e, rfl, inScope, -⟩, -⟩ := returned (.reading fun _ => 0) _ here
      refine ⟨e, rfl, inScope, (Inline.bounded_iff some fits (accepted.clean here inScope)).2 fun env => ?_⟩
      obtain ⟨v, ⟨e', same, -, rfl⟩, below, -⟩ := returned env _ here
      rwa [Inline.cText_inj.1 same] at below
  · rintro ⟨fits, bounded⟩ imported trusted env s here
    have bounded := bounded s here
    cases s with
    | routineCall name type params =>
      have below := trusted name type params here
      exact ⟨_, rfl, below, accepted.initialised fits below⟩
    | inline t type =>
      obtain ⟨e, text, inScope, bounded⟩ := bounded
      have below := (Inline.bounded_iff some fits (accepted.clean here inScope)).1 bounded env
      exact ⟨_, ⟨e, text, inScope, rfl⟩, below, accepted.initialised fits below⟩

/-- The expressions of a port that has two. -/
def portTexts (gen : OQGen jre.Double) : Option (Text × Text) :=
  match gen.port with
  | some { queueSelect := some (.inline t _), schedPrio := some (.inline t' _), .. } => some (t, t')
  | _ => none

theorem indexes_of_portTexts {t t' : Text} (texts : portTexts gen = some (t, t')) :
    (∃ type, gen.Indexes (.inline t type)) ∧
      ∀ s, gen.Indexes s → ∃ type, s = .inline t type ∨ s = .inline t' type := by
  unfold portTexts at texts
  split at texts
  · next here =>
    cases texts
    refine ⟨⟨_, .inl (.queueSelect here rfl)⟩, ?_⟩
    rintro s (assigned | assigned)
    · obtain ⟨port, found, is⟩ := OQGen.assigned_queueSelector assigned
      cases here.symm.trans found
      cases is
      exact ⟨_, .inl rfl⟩
    · obtain ⟨port, found, is⟩ := OQGen.assigned_schedulingPriority assigned
      cases here.symm.trans found
      cases is
      exact ⟨_, .inr rfl⟩
  · cases texts

/-- The port of `twoQueues` has the constant index 0. -/
theorem constant_index_in_range :
    ∃ gen, Accepts smallJre (fun _ => none) (twoQueues "b".toList "a".toList) gen ∧ IndicesInRange gen := by
  let zero : Inline (BitVec 32) := .operand (.num 0)
  obtain ⟨gen, accepted, seen⟩ := exists_accepted (twoQueues "b".toList "a".toList)
    (fun gen => gen.numQ = 2 ∧ portTexts gen = some (zero.cText, zero.cText)) (by decide +kernel)
  obtain ⟨two, texts⟩ := of_decide_eq_true seen
  refine ⟨gen, accepted, (indices_in_range_iff accepted).2 ⟨by rw [two]; decide, fun s here => ?_⟩⟩
  obtain ⟨type, rfl | rfl⟩ := (indexes_of_portTexts texts).2 s here <;>
    exact ⟨zero, rfl, nofun, by rw [two]; decide⟩

/-- A port over two queues that always selects the sixth. -/
def sixthOfTwo : Text := twoQueues "b".toList "a".toList ++ "port.queueSelect = inline\x7b5\x7d;\n".toList

/-- It is accepted, and what it returns is not the index of a queue. -/
theorem constant_index_out_of_range :
    ∃ gen, Accepts smallJre (fun _ => none) sixthOfTwo gen ∧ gen.numQ = 2 ∧
      (∃ s, gen.Indexes s ∧ ∀ env imported, Returns env imported s 5) ∧ ¬ IndicesInRange gen := by
  let zero : Inline (BitVec 32) := .operand (.num 0)
  let five : Inline (BitVec 32) := .operand (.num 5)
  obtain ⟨gen, accepted, seen⟩ := exists_accepted sixthOfTwo
    (fun gen => gen.numQ = 2 ∧ portTexts gen = some (five.cText, zero.cText)) (by decide +kernel)
  obtain ⟨two, texts⟩ := of_decide_eq_true seen
  obtain ⟨⟨type, here⟩, -⟩ := indexes_of_portTexts texts
  refine ⟨gen, accepted, two, ⟨_, here, fun env imported => ⟨five, rfl, nofun, rfl⟩⟩, fun inRange => ?_⟩
  have returned := inRange (fun _ _ => 0) (fun _ _ _ _ => ⟨by decide, by rw [two]; decide⟩) (.reading fun _ => 0) _ here
  obtain ⟨v, ⟨e, same, -, rfl⟩, below, -⟩ := returned
  rw [Inline.cText_inj.1 same, two] at below
  exact absurd below.2 (by decide)

end Results

end OpenQueue.Gen
