import OpenQueue.Sim.Registry

/-!
# What the registry is for

A list of names with their `init_port` functions: registering appends, unregistering
deletes the first entry with the function and no other. The code keeps to it exactly as
long as each name fits, each `kmalloc` succeeds, and no policy is unregistered that is
the head of a longer list, or from an empty one.
-/

namespace OpenQueue

namespace Registry

variable {φ : Type}

/-- The list from `oq_policy_base` is `k`, in order, and `oq_init` finds each policy of
it: asked for its name, it calls the first function registered under it. -/
structure Shows (r : Registry φ) (k : List (Lib.CStr × φ)) : Prop where
  policies : r.policies.map (fun p => (Lib.cstr? p.name.bytes, p.initPortFn)) = k.map fun e => (some e.1.chars, e.2)
  found : ∀ e ∈ k, ∀ opt initPort pools, sizeofTcOqQopt ≤ opt.nlaLen →
    Lib.cstr? opt.portName.bytes = some e.1.chars →
    ∃ code, oqInit (some opt) initPort pools r = .ok ((code, (k.find? fun e' => e'.1 = e.1).map Prod.snd), r)

/-- The call keeps to the list: the new name ends inside its array, and the function
that goes is not that of the head, unless the head is alone. -/
def Safe (r : Registry φ) : Op φ → Prop
  | .register mem name _ => ∃ junk, mem = some junk ∧
    (name.chars.length < tcqOqNameLen ∨ name.chars.length = tcqOqNameLen ∧ junk.bytes[tcqOqNameLen]? = some 0)
  | .unregister fn => ∃ p rest, r.policies = p :: rest ∧ (p.initPortFn = fn → rest = [])

section Calls

variable [DecidableEq φ]

/-- One call, as meant. -/
def specStep (k : List (Lib.CStr × φ)) : Op φ → List (Lib.CStr × φ)
  | .register _ name fn => k ++ [(name, fn)]
  | .unregister fn => k.eraseP fun e => e.2 = fn

/-- The policies that should be there after some calls. -/
def registered (ops : List (Op φ)) : List (Lib.CStr × φ) := ops.foldl specStep []

theorem registered_snoc (ops : List (Op φ)) (op : Op φ) :
    registered (ops ++ [op]) = specStep (registered ops) op := by
  rw [registered, List.foldl_append]
  rfl

end Calls

/-! ## Stored policies and registered ones -/

/-- The stored names are the registered ones, each with its function. -/
def Matches (l : List (Policy φ)) (k : List (Lib.CStr × φ)) : Prop :=
  l.map (fun p => (Lib.cstr? p.name.bytes, p.initPortFn)) = k.map fun e => (some e.1.chars, e.2)

namespace Matches

variable {l : List (Policy φ)} {k : List (Lib.CStr × φ)}

theorem append_iff (h : Matches l k) {p : Policy φ} {e : Lib.CStr × φ} :
    Matches (l ++ [p]) (k ++ [e]) ↔ Lib.cstr? p.name.bytes = some e.1.chars ∧ p.initPortFn = e.2 := by
  unfold Matches at h ⊢
  rw [List.map_append, List.map_append, h, List.append_cancel_left_eq]
  simp

theorem eraseP [DecidableEq φ] (h : Matches l k) (fn : φ) :
    Matches (l.eraseP fun p => p.initPortFn = fn) (k.eraseP fun e => e.2 = fn) := by
  have both := congrArg (List.eraseP fun x => decide (x.2 = fn)) h
  rwa [List.eraseP_map, List.eraseP_map] at both

/-- The first policy with a name. -/
theorem find? (h : Matches l k) (name : Lib.CStr) :
    (l.find? fun p => Lib.cstr? p.name.bytes = some name.chars).map Policy.initPortFn =
      (k.find? fun e => e.1 = name).map Prod.snd := by
  have both := congrArg (fun m => (List.find? (fun x => decide (x.1 = some name.chars)) m).map Prod.snd) h
  simp only [List.find?_map, Option.map_map] at both
  have names : (fun e : Lib.CStr × φ => decide (e.1 = name)) =
      (fun x => decide (x.1 = some name.chars)) ∘ fun e : Lib.CStr × φ => (some e.1.chars, e.2) := by
    funext e
    simp [Lib.CStr.ext_iff]
  rw [names]
  exact both

theorem nil_iff : Matches ([] : List (Policy φ)) k ↔ k = [] := by
  rw [Matches, List.map_nil, eq_comm, List.map_eq_nil_iff]

theorem length_eq (h : Matches l k) : l.length = k.length := by
  have lengths := congrArg List.length h
  rwa [List.length_map, List.length_map] at lengths

/-- A call on lists keeps the match exactly if it is safe. -/
theorem step_iff [DecidableEq φ] {r : Registry φ} (h : Matches l k) (holds : r.policies = l) (op : Op φ) :
    (∃ l', listStep l op = .ok ((), l') ∧ Matches l' (specStep k op)) ↔ r.Safe op := by
  cases op with
  | register mem name fn =>
    cases mem with
    | none => simp [listStep, Safe]
    | some junk =>
      have fits : Lib.cstr? (junk.copy name).bytes = some name.chars ↔ _ := Lib.CharBuf.cstr?_strncpy_iff
      simp only [listStep, specStep, Safe, Except.ok.injEq, Prod.mk.injEq, true_and, exists_eq_left', Option.some.injEq,
        h.append_iff, fits, and_true]
  | unregister fn =>
    rw [Safe, holds]
    cases l with
    | nil =>
      obtain rfl := nil_iff.1 h
      simp [listStep]
    | cons p l =>
      cases k with
      | nil => cases h
      | cons e k =>
        have same : p.initPortFn = e.2 := by
          have first := (List.cons.inj h).1
          exact (Prod.mk.inj first).2
        have rest : Matches l k := (List.cons.inj h).2
        simp only [listStep, Except.ok.injEq, Prod.mk.injEq, true_and, exists_eq_left']
        by_cases head : p.initPortFn = fn
        · rw [if_pos head, specStep, List.eraseP_cons_of_pos (by simp [← same, head]), nil_iff,
            ← List.length_eq_zero_iff, ← rest.length_eq, List.length_eq_zero_iff]
          constructor
          · intro alone
            exact ⟨p, l, rfl, fun _ => alone⟩
          · rintro ⟨_, _, split, alone⟩
            obtain ⟨rfl, rfl⟩ := List.cons.inj split
            exact alone head
        · refine iff_of_true ?_ ⟨p, l, rfl, fun taken => absurd taken head⟩
          have gone := h.eraseP fn
          rw [List.eraseP_cons_of_neg (by simp [head])] at gone
          rw [if_neg head]
          exact gone

end Matches

/-! ## Runs -/

section Runs

variable [DecidableEq φ] {r q : Registry φ} {l : List (Policy φ)} {k : List (Lib.CStr × φ)} {ops : List (Op φ)}

omit [DecidableEq φ] in
theorem Holds.policies_eq (holds : Holds r l) : r.policies = l := by
  obtain ⟨cells, C, repr⟩ := holds
  exact repr.policies_eq

omit [DecidableEq φ] in
/-- A registry whose names match finds them. -/
theorem Holds.shows (holds : Holds r l) (h : Matches l k) : r.Shows k := by
  refine ⟨?_, ?_⟩
  · rw [holds.policies_eq]
    exact h
  · intro e he opt initPort pools whole str
    obtain ⟨cells, C, repr⟩ := holds
    have some : l ≠ [] := by
      rintro rfl
      rw [Matches.nil_iff.1 h] at he
      cases he
    obtain ⟨code, run⟩ := repr.oqInit some whole str initPort pools
    exact ⟨code, by rw [run, h.find?]⟩

omit [DecidableEq φ] in
theorem Holds.matches (holds : Holds r l) (h : r.Shows k) : Matches l k := by
  have policies := h.policies
  rwa [holds.policies_eq] at policies

/-- Every state of a run holds some list. -/
theorem run_holds {outs : List Unit} (init : r.Initial) (run : Lib.run step r ops = .ok (outs, q)) :
    ∃ l, Holds q l := by
  have agree : Lib.Agree Holds (Lib.run step r ops) _ := Lib.run_agree step_agree ⟨[], 0, Repr.initial init⟩
  rw [run] at agree
  obtain ⟨l, -, holds⟩ := agree.of_ok
  exact ⟨l, holds⟩

/-- The registry is the list, in every state of a run and for every lookup, exactly if
each call is safe in the state it meets. -/
theorem run_refines_list_iff (init : r.Initial) :
    (∀ done, done <+: ops → ∃ outs q, Lib.run step r done = .ok (outs, q) ∧ q.Shows (registered done)) ↔
      ∀ q op, Lib.Calls step r ops q op → q.Safe op := by
  constructor
  · rintro always q op ⟨done, outs, sub, run⟩
    obtain ⟨_, _, again, before⟩ := always done ((List.prefix_append done [op]).trans sub)
    rw [run] at again
    cases again
    obtain ⟨_, q', run', after⟩ := always (done ++ [op]) sub
    obtain ⟨_, _, _, again, last, -⟩ := Lib.run_snoc_eq_ok.1 run'
    rw [run] at again
    cases again
    obtain ⟨l, holds⟩ := run_holds init run
    have agree := step_agree q l op holds
    rw [last] at agree
    obtain ⟨l', next, holds'⟩ := agree.of_ok
    rw [registered_snoc] at after
    exact (Matches.step_iff (holds.matches before) holds.policies_eq op).1 ⟨l', next, holds'.matches after⟩
  · intro safe done sub
    have kept : ∃ outs q, Lib.run step r done = .ok (outs, q) ∧ ∃ l, Holds q l ∧ Matches l (registered done) := by
      refine Lib.run_ok (P := fun done _ q => ∃ l, Holds q l ∧ Matches l (registered done)) (A := Safe)
        (fun q op call => safe q op (call.mono sub)) ⟨[], ⟨[], 0, Repr.initial init⟩, rfl⟩ ?_
      rintro done outs q op run ⟨l, holds, h⟩ safe
      obtain ⟨l', run', h'⟩ := (h.step_iff holds.policies_eq op).2 safe
      have agree := step_agree q l op holds
      rw [run'] at agree
      obtain ⟨q', ok, holds'⟩ := agree.of_ok_right
      rw [← registered_snoc] at h'
      exact ⟨(), q', ok, l', holds', h'⟩
    obtain ⟨outs, q, run, l, holds, h⟩ := kept
    exact ⟨outs, q, run, holds.shows h⟩

end Runs

/-- No policy, over a memory of zeros. -/
def blank : Registry Nat where
  name _ := .zero _
  initPortFn _ := 0
  next _ := 0
  prev _ := 0
  conts := .empty
  base := none

theorem noNul_a : (0 : Lib.Byte) ∉ [97] := by decide

theorem noNul_b : (0 : Lib.Byte) ∉ [98] := by decide

/-- Two policies come and one of them goes. -/
def twoPolicies (leaves : Nat) : List (Op Nat) :=
  [.register (some (.zero _)) ⟨[97], noNul_a⟩ 1, .register (some (.zero _)) ⟨[98], noNul_b⟩ 2, .unregister leaves]

theorem twoPolicies_refine_iff :
    (∀ done, done <+: twoPolicies 2 →
      ∃ outs q, Lib.run step blank done = .ok (outs, q) ∧ q.Shows (registered done)) ↔
      ∀ q op, Lib.Calls step blank (twoPolicies 2) q op → q.Safe op :=
  run_refines_list_iff ⟨rfl, rfl⟩

/-- When the first of two policies goes, the second is lost. -/
theorem head_takes_all :
    ¬ ∀ done, done <+: twoPolicies 1 →
      ∃ outs q, Lib.run step blank done = .ok (outs, q) ∧ q.Shows (registered done) := by
  intro always
  obtain ⟨outs, q, run, shows⟩ := always (twoPolicies 1) List.prefix_rfl
  have seen : (match Lib.run step blank (twoPolicies 1) with
      | .ok r => r.2.policies.length
      | .error _ => 1) = 0 := by
    decide +kernel
  rw [run] at seen
  have lengths := congrArg List.length shows.policies
  rw [List.length_map, List.length_map] at lengths
  exact absurd (seen.symm.trans lengths) (by decide)

end Registry

end OpenQueue
