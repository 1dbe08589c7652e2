import OpenQueue.Kernel.Init
import OpenQueue.Kernel.Netlink
import OpenQueue.Spec.Policies
import Mathlib

/-!
# Finding a policy by its name

The loops over the registry are safe as long as `oq_policy_base` is not `NULL`; neither
of them checks. A name goes through two copies that stop at `TCQ_OQ_NAME_LEN` bytes, one
into zeroed memory and one into memory that holds anything, and is then compared as a
string without a bound: names up to 31 bytes come through, longer ones are cut off or
not found at all.
-/

namespace OpenQueue

namespace Registry

variable {φ ρ : Type}

/-! ## The lookup on lists -/

section Lookup

variable {r : Registry φ} {l : List (Policy φ)} {y : List Lib.Byte} {portName : NameBuf}

theorem lookup_of_base (base : r.base = none) (portName : NameBuf) : r.lookup portName = .error .nullDeref := by
  simp [lookup, run_bind, deref, base]

/-- The lookup finds the first policy with the name. -/
theorem Holds.lookup (holds : Holds r l) (some : l ≠ []) (str : Lib.cstr? portName.bytes = .some y) :
    r.lookup portName = .ok ((l.find? fun p => Lib.cstr? p.name.bytes = .some y).map Policy.initPortFn, r) := by
  obtain ⟨cells, C, repr⟩ := holds
  cases cells with
  | nil => exact absurd repr.policies.symm some
  | cons h cells =>
    have base : r.base = .some h := repr.base
    simp only [Registry.lookup, run_bind, deref, base, run_get, repr.findPolicy str]

theorem Holds.base_eq_none_iff (holds : Holds r l) : r.base = none ↔ l = [] := by
  obtain ⟨cells, C, repr⟩ := holds
  rw [repr.base, List.head?_eq_none_iff, ← repr.policies, List.map_eq_nil_iff]

end Lookup

/-! ## Traversals -/

section Traversals

variable [DecidableEq φ]

/-- The loop of `oq_init`, for every requested name, and the loop of
`oq_unregister_policy`, for every function, end without touching anything but live
containers. -/
structure TraversalsSafe (r : Registry φ) : Prop where
  lookup : ∀ portName name, Lib.cstr? portName.bytes = some name → ∃ initPortFn, r.lookup portName = .ok (initPortFn, r)
  unregister : ∀ initPortFn, ∃ r', oqUnregisterPolicy initPortFn r = .ok ((), r')

/-- In every state of the registry, the traversals are safe exactly if `oq_policy_base`
is not `NULL`. -/
theorem traversals_safe_iff {r r' : Registry φ} {ops : List (Op φ)} {outs : List Unit} (init : r.Initial)
    (run : Lib.run step r ops = .ok (outs, r')) : r'.TraversalsSafe ↔ r'.base ≠ none := by
  obtain ⟨l, holds⟩ := run_holds init run
  constructor
  · intro safe base
    obtain ⟨fn, ok⟩ := safe.lookup (.zero _) [] rfl
    rw [lookup_of_base base] at ok
    cases ok
  · intro base
    have some : l ≠ [] := fun empty => base (holds.base_eq_none_iff.2 empty)
    refine ⟨fun portName name str => ⟨_, holds.lookup some str⟩, fun fn => ?_⟩
    have agree := step_agree r' l (.unregister fn) holds
    cases l with
    | nil => exact absurd rfl some
    | cons p l =>
      obtain ⟨r'', ok, -⟩ := agree.of_ok_right
      exact ⟨r'', ok⟩

end Traversals

theorem twoPolicies_traversals_safe_iff :
    ∃ outs r, Lib.run step blank (twoPolicies 2) = .ok (outs, r) ∧ (r.TraversalsSafe ↔ r.base ≠ none) := by
  have ends : (match Lib.run step blank (twoPolicies 2) with
      | .ok _ => true
      | .error _ => false) = true := by
    decide +kernel
  split at ends
  · next r run => exact ⟨r.1, r.2, run, traversals_safe_iff ⟨rfl, rfl⟩ run⟩
  · cases ends

/-- The empty registry, in which a lookup dereferences `NULL`. -/
theorem empty_registry_unsafe : ¬ blank.TraversalsSafe := by
  intro safe
  obtain ⟨fn, ok⟩ := safe.lookup (.zero _) [] rfl
  rw [lookup_of_base rfl] at ok
  cases ok

end Registry

/-! ## The command line -/

/-- `policy n₁ … policy name`, the last of which counts. -/
def Asks (argv : List Lib.CStr) (name : Lib.CStr) : Prop :=
  ∃ earlier : List Lib.CStr, argv = (earlier.flatMap fun n => [policyArg, n]) ++ [policyArg, name]

/-- One copy over another into the same array. -/
theorem NameBuf.copy_copy (dst : NameBuf) (s t : Lib.CStr) : (dst.copy s).copy t = dst.copy t := by
  have drop : (dst.copy s).bytes.drop tcqOqNameLen = dst.bytes.drop tcqOqNameLen := by
    rw [NameBuf.copy, Lib.CharBuf.bytes_strncpy, List.drop_append_of_le_length (by simp), List.drop_eq_nil_of_le (by simp),
      List.nil_append]
  have bytes : ((dst.copy s).copy t).bytes = (dst.copy t).bytes := by
    rw [NameBuf.copy, Lib.CharBuf.bytes_strncpy, drop]
    rfl
  generalize (dst.copy s).copy t = a at bytes
  generalize dst.copy t = b at bytes
  cases a
  cases b
  cases bytes
  rfl

theorem parseArgs_asks (opt : TcOqQopt) (ok : Nat) (earlier : List Lib.CStr) (name : Lib.CStr) :
    parseArgs opt ok ((earlier.flatMap fun n => [policyArg, n]) ++ [policyArg, name]) =
      .done (some { opt with portName := opt.portName.copy name }) := by
  induction earlier generalizing opt ok with
  | nil => simp [parseArgs]
  | cons n earlier ih =>
    have pair : (List.flatMap (fun n => [policyArg, n]) (n :: earlier)) ++ [policyArg, name] =
        policyArg :: n :: (earlier.flatMap (fun n => [policyArg, n]) ++ [policyArg, name]) := rfl
    rw [pair, parseArgs, if_pos rfl, ih, NameBuf.copy_copy]

/-- The block that `tc` sends for a name. -/
def requestFor (name : Lib.CStr) : TcOqQopt := { TcOqQopt.zero with portName := TcOqQopt.zero.portName.copy name }

theorem openqueueParseOpt_asks {argv : List Lib.CStr} {name : Lib.CStr} (asks : Asks argv name) :
    openqueueParseOpt argv = .done (some (requestFor name)) := by
  obtain ⟨earlier, rfl⟩ := asks
  exact parseArgs_asks .zero 0 earlier name

/-- The kernel reads the name cut off at `TCQ_OQ_NAME_LEN`. -/
theorem cstr?_requestFor (name : Lib.CStr) :
    Lib.cstr? (requestFor name).attr.portName.bytes = some (name.chars.take tcqOqNameLen) := by
  obtain ⟨rest, bytes⟩ := Lib.CharBuf.zero_strncpy (n := tcqOqNameLen) name
  exact Lib.cstr?_eq_some_iff.2 ⟨fun nul => name.noNul (List.mem_of_mem_take nul), rest, bytes⟩

namespace Registry

variable {φ ρ : Type}

/-! ## Names of any length -/

/-- A call of `oq_register_policy`, and what the fresh memory holds in place of the
name. -/
structure Registration (φ : Type) where
  junk : NameBuf
  name : Lib.CStr
  initPortFn : φ

namespace Registration

def op (e : Registration φ) : Op φ := .register (some e.junk) e.name e.initPortFn

/-- What the container says. -/
def policy (e : Registration φ) : Policy φ := ⟨e.junk.copy e.name, e.initPortFn⟩

end Registration

/-- Registrations are stored in order. -/
theorem run_registrations [DecidableEq φ] (l : List (Policy φ)) (regs : List (Registration φ)) :
    ∃ outs, Lib.run listStep l (regs.map Registration.op) = .ok (outs, l ++ regs.map Registration.policy) := by
  induction regs generalizing l with
  | nil => exact ⟨[], by simp [Lib.run]⟩
  | cons e regs ih =>
    obtain ⟨outs, rest⟩ := ih (l ++ [e.policy])
    refine ⟨() :: outs, Lib.run_cons_eq_ok.2 ⟨(), l ++ [e.policy], outs, rfl, ?_, rfl⟩⟩
    rw [rest, List.map_cons, List.append_assoc]
    rfl

theorem holds_registrations [DecidableEq φ] {r r' : Registry φ} {regs : List (Registration φ)} {outs : List Unit}
    (init : r.Initial) (run : Lib.run step r (regs.map Registration.op) = .ok (outs, r')) :
    Holds r' (regs.map Registration.policy) := by
  have agree : Lib.Agree Holds (Lib.run step r (regs.map Registration.op)) _ :=
    Lib.run_agree step_agree ⟨[], 0, Repr.initial init⟩
  obtain ⟨outs', listed⟩ := run_registrations ([] : List (Policy φ)) regs
  rw [run, listed] at agree
  obtain ⟨l, same, holds⟩ := agree.of_ok
  cases same
  exact holds

/-- The function of the first policy registered under the full name. -/
def firstNamed (regs : List (Registration φ)) (name : Lib.CStr) : Option φ :=
  (regs.find? fun e => e.name = name).map Registration.initPortFn

/-- Whatever name is asked for on the command line, `oq_init` goes on with the first
policy registered under it, or with none, which is `-EINVAL`; and where two names make it
call one function, this has a registration under each. -/
structure SelectsByName (r : Registry φ) (regs : List (Registration φ)) : Prop where
  selects : ∀ argv name, Asks argv name → ∃ opt, openqueueParseOpt argv = .done (some opt) ∧
    ∀ {ρ : Type} (initPort : φ → ρ → Except Fault (Int × ρ)) created priv pools,
      OpenQueue.oqInit initPort (some opt.attr) created r priv pools =
        oqInitWith initPort created (firstNamed regs name) priv pools
  apart : ∀ name name' fn, name ≠ name' → r.requested (some (requestFor name).attr) = .ok (some fn) →
    r.requested (some (requestFor name').attr) = .ok (some fn) →
    ∃ e ∈ regs, ∃ e' ∈ regs, e.name = name ∧ e'.name = name' ∧ e.initPortFn = fn ∧ e'.initPortFn = fn

theorem firstNamed_eq_some {regs : List (Registration φ)} {name : Lib.CStr} {fn : φ}
    (found : firstNamed regs name = some fn) : ∃ e ∈ regs, e.name = name ∧ e.initPortFn = fn := by
  obtain ⟨e, first, rfl⟩ := Option.map_eq_some_iff.1 found
  exact ⟨e, List.mem_of_find?_eq_some first, by simpa using List.find?_some first, rfl⟩

/-- What `oq_init` goes on with when `tc` asks for a name. -/
theorem Holds.requested {r : Registry φ} {l : List (Policy φ)} (holds : Holds r l) (some : l ≠ []) (name : Lib.CStr) :
    r.requested (.some (requestFor name).attr) =
      .ok ((l.find? fun p => Lib.cstr? p.name.bytes = .some (name.chars.take tcqOqNameLen)).map Policy.initPortFn) := by
  simp only [Registry.requested, holds.lookup some (cstr?_requestFor name)]
  exact if_neg (Nat.lt_irrefl _)

/-- A short name is found by itself alone. -/
theorem cstr?_policy_iff {e : Registration φ} (short : e.name.chars.length < tcqOqNameLen) (name : Lib.CStr) :
    Lib.cstr? e.policy.name.bytes = some (name.chars.take tcqOqNameLen) ↔ e.name = name := by
  have stored : Lib.cstr? e.policy.name.bytes = some e.name.chars := Lib.CharBuf.cstr?_strncpy_iff.2 (.inl short)
  rw [stored, Option.some.injEq]
  constructor
  · intro same
    have whole : name.chars.take tcqOqNameLen = name.chars := by
      refine List.take_of_length_le (Nat.le_of_not_lt fun long => ?_)
      rw [same, List.length_take, Nat.min_eq_left (Nat.le_of_lt long)] at short
      exact Nat.lt_irrefl _ short
    exact Lib.CStr.ext (same.trans whole)
  · rintro rfl
    exact (List.take_of_length_le (Nat.le_of_lt short)).symm

theorem find_policy_eq_firstNamed {regs : List (Registration φ)}
    (short : ∀ e ∈ regs, e.name.chars.length < tcqOqNameLen) (name : Lib.CStr) :
    ((regs.map Registration.policy).find? fun p => Lib.cstr? p.name.bytes = some (name.chars.take tcqOqNameLen)).map
      Policy.initPortFn = firstNamed regs name := by
  rw [List.find?_map, Option.map_map, firstNamed]
  have same : regs.find? ((fun p : Policy φ => decide (Lib.cstr? p.name.bytes = some (name.chars.take tcqOqNameLen))) ∘
      Registration.policy) = regs.find? fun e => e.name = name := by
    induction regs with
    | nil => rfl
    | cons e regs ih =>
      rw [List.forall_mem_cons] at short
      rw [List.find?_cons, List.find?_cons, ih short.2]
      simp only [Function.comp_apply, cstr?_policy_iff short.1]
  rw [same]
  rfl

/-- Whether a policy is called shows in the result. -/
theorem isSome_eq_of_oqInitWith {found named : Option φ}
    (same : ∀ {ρ : Type} (initPort : φ → ρ → Except Fault (Int × ρ)) created priv pools,
      oqInitWith initPort created found priv pools = oqInitWith initPort created named priv pools) :
    found.isSome = named.isSome := by
  have codes := same (fun _ (_ : Unit) => .ok (0, ())) ⟨some 0, some 0, some 0, some 0⟩ () ⟨none, none, none, none⟩
  cases found <;> cases named
  · rfl
  · simp [oqInitWith, initPools, eInval] at codes
  · simp [oqInitWith, initPools, eInval] at codes
  · rfl

/-- A name that begins with `t` and is longer than all registered ones. -/
theorem exists_longer (regs : List (Registration φ)) (name : Lib.CStr) (long : tcqOqNameLen ≤ name.chars.length) :
    ∃ longer : Lib.CStr, longer.chars.take tcqOqNameLen = name.chars.take tcqOqNameLen ∧
      firstNamed regs longer = none := by
  have noNul : 0 ∉ name.chars ++ List.replicate ((regs.map fun e => e.name.chars.length).sum + 1) 97 := by
    rw [List.mem_append]
    rintro (nul | nul)
    · exact name.noNul nul
    · exact absurd (List.eq_of_mem_replicate nul) (by decide)
  refine ⟨⟨_, noNul⟩, List.take_append_of_le_length long, ?_⟩
  rw [firstNamed, Option.map_eq_none_iff, List.find?_eq_none]
  intro e he same
  have lengths := congrArg (fun s => s.chars.length) (of_decide_eq_true same)
  have below := List.le_sum_of_mem (List.mem_map.2 ⟨e, he, rfl⟩ : e.name.chars.length ∈ regs.map fun e => e.name.chars.length)
  simp only [List.length_append, List.length_replicate] at lengths
  omega

/-- Policies are selected by their names exactly if there is one, and every name is
shorter than `TCQ_OQ_NAME_LEN`. -/
theorem selects_by_name_iff [DecidableEq φ] {r r' : Registry φ} {regs : List (Registration φ)} {outs : List Unit}
    (init : r.Initial) (run : Lib.run step r (regs.map Registration.op) = .ok (outs, r')) :
    r'.SelectsByName regs ↔ regs ≠ [] ∧ ∀ e ∈ regs, e.name.chars.length < tcqOqNameLen := by
  have holds := holds_registrations init run
  constructor
  · intro selects
    have some : regs ≠ [] := by
      rintro rfl
      obtain ⟨opt, -, answer⟩ := selects.selects [policyArg, policyArg] policyArg ⟨[], rfl⟩
      have fault := answer (fun _ (_ : Unit) => .ok (0, ())) ⟨none, none, none, none⟩ () ⟨none, none, none, none⟩
      have short : ¬ opt.attr.nlaLen < sizeofTcOqQopt := Nat.lt_irrefl _
      simp only [OpenQueue.oqInit, Registry.requested, if_neg short, lookup_of_base (holds.base_eq_none_iff.2 rfl)]
        at fault
      cases fault
    refine ⟨some, fun e he => Nat.lt_of_not_le fun long => ?_⟩
    have shown : ∀ name : Lib.CStr, (((regs.map Registration.policy).find? fun p =>
        Lib.cstr? p.name.bytes = .some (name.chars.take tcqOqNameLen)).map Policy.initPortFn).isSome =
          (firstNamed regs name).isSome := by
      intro name
      obtain ⟨opt, parsed, answer⟩ := selects.selects [policyArg, name] name ⟨[], rfl⟩
      have sent : openqueueParseOpt [policyArg, name] = _ := openqueueParseOpt_asks ⟨[], rfl⟩
      rw [sent] at parsed
      cases parsed
      refine isSome_eq_of_oqInitWith fun initPort created priv pools => ?_
      rw [← answer initPort created priv pools, OpenQueue.oqInit, holds.requested (by simpa using some)]
    -- cut off, a longer name is the same: it must not be found, and the registered one must be
    obtain ⟨longer, cut, none⟩ := exists_longer regs e.name long
    have missing := shown longer
    rw [cut, shown e.name, none] at missing
    have found : (firstNamed regs e.name).isSome = true := by
      rw [firstNamed, Option.isSome_map, List.find?_isSome]
      exact ⟨e, he, by simp⟩
    rw [found] at missing
    cases missing
  · rintro ⟨some, short⟩
    refine ⟨fun argv name asks => ⟨_, openqueueParseOpt_asks asks, fun initPort created priv pools => ?_⟩, ?_⟩
    · rw [OpenQueue.oqInit, holds.requested (by simpa using some), find_policy_eq_firstNamed short]
    · intro name name' fn _ first second
      rw [holds.requested (by simpa using some), find_policy_eq_firstNamed short] at first second
      obtain ⟨e, he, named, calls⟩ := firstNamed_eq_some (Except.ok.inj first)
      obtain ⟨e', he', named', calls'⟩ := firstNamed_eq_some (Except.ok.inj second)
      exact ⟨e, he, e', he', named, named', calls, calls'⟩

/-- Policies `a` and `b`. -/
def namedAB : List (Registration Nat) :=
  [⟨.zero _, ⟨[97], noNul_a⟩, 1⟩, ⟨.zero _, ⟨[98], noNul_b⟩, 2⟩]

theorem namedAB_selected_iff :
    ∃ outs r, Lib.run step blank (namedAB.map Registration.op) = .ok (outs, r) ∧
      (r.SelectsByName namedAB ↔ namedAB ≠ [] ∧ ∀ e ∈ namedAB, e.name.chars.length < tcqOqNameLen) := by
  have ends : (match Lib.run step blank (namedAB.map Registration.op) with
      | .ok _ => true
      | .error _ => false) = true := by
    decide +kernel
  split at ends
  · next r run => exact ⟨r.1, r.2, run, selects_by_name_iff ⟨rfl, rfl⟩ run⟩
  · cases ends

/-- A policy with a name of 32 bytes, in memory that held no NUL. -/
def longNamed : List (Registration Nat) := [⟨⟨List.replicate 33 255, rfl⟩, ⟨List.replicate 32 97, by decide⟩, 1⟩]

/-- Asked for by its name, the policy is not found. -/
theorem long_name_not_selected :
    ∃ outs r, Lib.run step blank (longNamed.map Registration.op) = .ok (outs, r) ∧ ¬ r.SelectsByName longNamed := by
  have seen : (match Lib.run step blank (longNamed.map Registration.op) with
      | .ok r =>
        match OpenQueue.oqInit (fun _ (_ : Unit) => .ok (0, ()))
            (some (requestFor ⟨List.replicate 32 97, by decide⟩).attr) ⟨some 0, some 0, some 0, some 0⟩ r.2 ()
            ⟨none, none, none, none⟩ with
        | .ok (code, _) => code
        | .error _ => 0
      | .error _ => 0) = -22 := by
    decide +kernel
  split at seen
  · next r run =>
    refine ⟨r.1, r.2, run, fun selects => ?_⟩
    obtain ⟨opt, parsed, answer⟩ := selects.selects _ ⟨List.replicate 32 97, by decide⟩ ⟨[], rfl⟩
    rw [openqueueParseOpt_asks ⟨[], rfl⟩] at parsed
    cases parsed
    rw [answer] at seen
    exact absurd seen (by decide)
  · cases seen

end Registry

end OpenQueue
