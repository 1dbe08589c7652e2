import OpenQueue.Kernel.Modules
import OpenQueue.Spec.Policies

/-!
# Policy modules that are gone

The exit function of a generated module does not unregister its policy, and nothing
counts the qdiscs that use its callbacks. So its `init_port` stays in the registry for
ever, and the pointers to policy code are all valid exactly as long as no module is
unloaded.
-/

namespace OpenQueue

variable {ι φ : Type}

/-! ## What `oq_init` finds -/

namespace Registry

variable {r : Registry φ} {cells : List Addr} {C : Multiset Addr} {l : List (Policy φ)}

/-- The loop of `oq_init` returns a function of the ring, whatever it is asked for. -/
theorem Repr.findPolicy_mem {portName : NameBuf} {fn : φ} {r' : Registry φ} (repr : Repr r cells C l) (rounds : Nat)
    {c : Addr} (inside : c ∈ cells) (run : Registry.findPolicy portName rounds c r = .ok (some fn, r')) :
    ∃ p ∈ l, p.initPortFn = fn := by
  induction rounds generalizing c with
  | zero => cases run
  | succ rounds ih =>
    have live := repr.live inside
    simp only [Registry.findPolicy, run_bind, getName, sameName, onContainer, live, if_true] at run
    cases cmp : Lib.strcmp (r.name c).bytes portName.bytes with
    | none =>
      rw [cmp] at run
      cases run
    | some d =>
      rw [cmp] at run
      by_cases same : d = 0
      · simp only [same, decide_true, if_true, run_bind, getInitPortFn, onContainer, live] at run
        cases run
        refine ⟨r.policy c, ?_, rfl⟩
        rw [← repr.policies]
        exact List.mem_map_of_mem inside
      · simp only [same, decide_false, Bool.false_eq_true, if_false, run_bind, getNext, onContainer, live, if_true,
          run_get] at run
        split at run
        · cases run
        · exact ih (repr.ring.links_mem inside).1 run

theorem Holds.requested_mem {opt : Option Opt} {fn : φ} (holds : Holds r l) (run : r.requested opt = .ok (some fn)) :
    ∃ p ∈ l, p.initPortFn = fn := by
  obtain ⟨cells, C, repr⟩ := holds
  cases opt with
  | none => cases run
  | some opt =>
    simp only [Registry.requested] at run
    split at run
    · cases run
    · split at run
      · cases run
      · next search =>
        cases run
        cases cells with
        | nil =>
          simp [Registry.lookup, run_bind, deref, repr.base] at search
        | cons h cells =>
          simp only [Registry.lookup, run_bind, deref, repr.base, List.head?_cons, run_get] at search
          exact repr.findPolicy_mem _ List.mem_cons_self search

end Registry

/-! ## Events -/

namespace Host

open Registry (Policy)

/-- What an event does, with the list of policies before and after it. -/
inductive Event [DecidableEq ι] (h : Host ι) (l : List (Policy Nat)) :
    HostOp ι → Host ι → List (Policy Nat) → Prop
  | loaded (junk : NameBuf) (name : Lib.CStr) (registry : Registry Nat) :
      Event h l (.load (some junk) name)
        { h with registry := registry, loaded := insert h.loads h.loaded, loads := h.loads + 1 }
        (l ++ [⟨junk.copy name, h.loads⟩])
  | unloaded {mod : Nat} : mod ∈ h.loaded → Event h l (.unload mod) { h with loaded := h.loaded.erase mod } l
  | absent {mod : Nat} : mod ∉ h.loaded → Event h l (.unload mod) h l
  | found {x : ι} {opt : Option Registry.Opt} {initPortFn : Option Nat} :
      (∀ mod, initPortFn = some mod → ∃ p ∈ l, p.initPortFn = mod) →
      Event h l (.lookup x opt) { h with calling := Function.update h.calling x initPortFn } l
  | proceeded {x : ι} {code : Int} {created pools : Pools} {callbacks : Option Nat} :
      (∀ mod, callbacks = some mod → mod ∈ h.loaded ∨ h.callbacks x = some mod) →
      Event h l (.proceed x code created)
        { h with
          calling := Function.update h.calling x none
          callbacks := Function.update h.callbacks x callbacks
          pools := pools } l
  | destroyed {x : ι} : Event h l (.destroy x)
        { h with
          calling := Function.update h.calling x none
          callbacks := Function.update h.callbacks x none } l

section

variable [DecidableEq ι] {h h' : Host ι} {op : HostOp ι} {status : Int} {l l' : List (Policy Nat)}

/-- The callbacks after `oq_init` are those of the module it called, or the old ones. -/
theorem callbacks_of_proceed {code : Int} {created pools pools' : Pools} {loaded : Finset Nat}
    {calling callbacks callbacks' : Option Nat}
    (run : oqInitWith (callInitPort loaded code) created calling callbacks pools = .ok (status, callbacks', pools'))
    {mod : Nat} (stored : callbacks' = some mod) : mod ∈ loaded ∨ callbacks = some mod := by
  cases calling with
  | none =>
    cases run
    exact .inr stored
  | some fn =>
    simp only [oqInitWith, callInitPort] at run
    by_cases there : fn ∈ loaded
    · simp only [if_pos there] at run
      by_cases good : code = 0
      · simp only [good, ne_eq, not_true_eq_false, if_false, if_true] at run
        cases run
        cases stored
        exact .inl there
      · simp only [ne_eq, good, not_false_eq_true, if_true, if_false] at run
        cases run
        exact .inr stored
    · rw [if_neg there] at run
      cases run

theorem Event.of_step (holds : Registry.Holds h.registry l) (run : h.step op = .ok (status, h')) :
    ∃ l', Event h l op h' l' ∧ Registry.Holds h'.registry l' := by
  cases op with
  | load mem name =>
    simp only [step, moduleInit] at run
    cases mem with
    | none => cases run
    | some junk =>
      obtain ⟨cells, C, repr⟩ := holds
      obtain ⟨registry, entered, after⟩ := repr.register junk name h.loads
      rw [entered] at run
      cases run
      exact ⟨_, .loaded junk name registry, _, C, after⟩
  | unload mod =>
    simp only [step, moduleExit, run_pure] at run
    by_cases there : mod ∈ h.loaded
    · rw [if_pos there] at run
      cases run
      exact ⟨l, .unloaded there, holds⟩
    · rw [if_neg there] at run
      cases run
      exact ⟨l, .absent there, holds⟩
  | lookup x opt =>
    simp only [step] at run
    split at run
    · cases run
    · next initPortFn found =>
      cases run
      refine ⟨l, .found fun mod same => ?_, holds⟩
      subst same
      exact holds.requested_mem found
  | proceed x code created =>
    simp only [step] at run
    split at run
    · cases run
    · next answer =>
      cases run
      exact ⟨l, .proceeded fun mod stored => callbacks_of_proceed answer stored, holds⟩
  | destroy x =>
    cases run
    exact ⟨l, .destroyed, holds⟩

end

/-! ## Dangling pointers -/

/-- Every `init_port` in the registry, every one that is about to be called and every
callback of a qdisc belongs to a loaded module. -/
structure NoDangling (h : Host ι) : Prop where
  registry : ∀ p ∈ h.registry.policies, p.initPortFn ∈ h.loaded
  calling : ∀ x mod, h.calling x = some mod → mod ∈ h.loaded
  callbacks : ∀ x mod, h.callbacks x = some mod → mod ∈ h.loaded

/-- A loaded module is unloaded. -/
def Unloads (h : Host ι) : HostOp ι → Prop
  | .unload mod => mod ∈ h.loaded
  | .load _ _ | .lookup _ _ | .proceed _ _ _ | .destroy _ => False

/-- The registry is a list, in which every loaded module has its entry. -/
def Entered (h : Host ι) : Prop :=
  ∃ l, Registry.Holds h.registry l ∧ ∀ mod ∈ h.loaded, ∃ p ∈ l, p.initPortFn = mod

variable [DecidableEq ι] {h h' : Host ι} {op : HostOp ι} {status : Int}

theorem step_entered (entered : h.Entered) (run : h.step op = .ok (status, h')) : h'.Entered := by
  obtain ⟨l, holds, all⟩ := entered
  obtain ⟨l', event, holds'⟩ := Event.of_step holds run
  refine ⟨l', holds', fun mod there => ?_⟩
  cases event with
  | loaded junk name registry =>
    rcases Finset.mem_insert.1 there with rfl | old
    · exact ⟨_, List.mem_append_right _ (List.mem_singleton_self _), rfl⟩
    · obtain ⟨p, hp, same⟩ := all mod old
      exact ⟨p, List.mem_append_left _ hp, same⟩
  | unloaded => exact all mod (Finset.mem_of_mem_erase there)
  | absent => exact all mod there
  | found => exact all mod there
  | proceeded => exact all mod there
  | destroyed => exact all mod there

/-- A function with one value changed. -/
theorem forall_update {f : ι → Option Nat} {x : ι} {v : Option Nat} {P : Nat → Prop}
    (old : ∀ y mod, f y = some mod → P mod) (new : ∀ mod, v = some mod → P mod) (y : ι) (mod : Nat)
    (stored : Function.update f x v y = some mod) : P mod := by
  by_cases same : y = x
  · rw [same, Function.update_self] at stored
    exact new mod stored
  · rw [Function.update_of_ne same] at stored
    exact old y mod stored

/-- An event that unloads nothing leaves no pointer dangling. -/
theorem step_noDangling (entered : h.Entered) (safe : h.NoDangling) (kept : ¬ h.Unloads op)
    (run : h.step op = .ok (status, h')) : h'.NoDangling := by
  obtain ⟨l, holds, -⟩ := entered
  obtain ⟨l', event, holds'⟩ := Event.of_step holds run
  have registry := safe.registry
  rw [holds.policies_eq] at registry
  have none : ∀ mod, (none : Option Nat) = some mod → mod ∈ h.loaded := nofun
  cases event with
  | loaded junk name r =>
    refine ⟨?_, fun x mod stored => Finset.mem_insert_of_mem (safe.calling x mod stored),
      fun x mod stored => Finset.mem_insert_of_mem (safe.callbacks x mod stored)⟩
    rw [holds'.policies_eq]
    intro p hp
    rcases List.mem_append.1 hp with old | new
    · exact Finset.mem_insert_of_mem (registry p old)
    · rw [List.mem_singleton.1 new]
      exact Finset.mem_insert_self _ _
  | unloaded there => exact absurd there kept
  | absent => exact safe
  | found answer =>
    refine ⟨safe.registry, forall_update safe.calling fun mod same => ?_, safe.callbacks⟩
    obtain ⟨p, hp, rfl⟩ := answer mod same
    exact registry p hp
  | @proceeded x _ _ _ _ answer =>
    refine ⟨safe.registry, forall_update safe.calling none, forall_update safe.callbacks fun mod same => ?_⟩
    rcases answer mod same with there | old
    · exact there
    · exact safe.callbacks x mod old
  | destroyed => exact ⟨safe.registry, forall_update safe.calling none, forall_update safe.callbacks none⟩

/-- A module that is unloaded leaves its `init_port` in the registry. -/
theorem step_unload_dangling {mod : Nat} (entered : h.Entered) (there : mod ∈ h.loaded) :
    ∃ h', h.step (.unload mod) = .ok (0, h') ∧ ¬ h'.NoDangling := by
  refine ⟨{ h with loaded := h.loaded.erase mod }, ?_, fun safe => ?_⟩
  · simp only [step, if_pos there, moduleExit, run_pure]
  · obtain ⟨l, holds, all⟩ := entered
    obtain ⟨p, hp, rfl⟩ := all mod there
    have registry := safe.registry p (by rw [holds.policies_eq]; exact hp)
    exact Finset.notMem_erase _ _ registry

omit [DecidableEq ι] in
theorem Initial.entered (init : h.Initial) : h.Entered := by
  refine ⟨[], ⟨[], 0, .initial init.registry⟩, ?_⟩
  rw [init.loaded]
  nofun

omit [DecidableEq ι] in
theorem Initial.noDangling (init : h.Initial) : h.NoDangling := by
  refine ⟨?_, fun x mod stored => ?_, fun x mod stored => ?_⟩
  · rw [(Registry.Repr.initial init.registry).policies_eq]
    nofun
  · cases (init.calling x).symm.trans stored
  · cases (init.callbacks x).symm.trans stored

theorem run_entered {h₀ : Host ι} {ops : List (HostOp ι)} {outs : List Int} (init : h₀.Initial)
    (run : Lib.run step h₀ ops = .ok (outs, h)) : h.Entered := by
  refine Lib.run_induction (P := fun _ _ h => h.Entered) init.entered ?_ run
  intro _ _ t _ _ t' _ entered step
  exact step_entered entered step

/-- All pointers to policy code are valid in every state of a run exactly if the run
unloads no module. -/
theorem run_no_dangling_iff {h₀ : Host ι} {ops : List (HostOp ι)} (init : h₀.Initial) :
    (∀ h, Lib.Visits step h₀ ops h → h.NoDangling) ↔ ∀ h op, Lib.Calls step h₀ ops h op → ¬ h.Unloads op := by
  constructor
  · rintro always h op ⟨done, outs, sub, run⟩ unloads
    cases op with
    | unload mod =>
      obtain ⟨h', step, dangling⟩ := step_unload_dangling (run_entered init run) unloads
      exact dangling (always h' (Lib.Calls.next ⟨done, outs, sub, run⟩ step))
    | load | lookup | proceed | destroy => exact unloads
  · rintro never h ⟨done, outs, sub, run⟩
    have both : h.Entered ∧ h.NoDangling := by
      refine Lib.run_invariant (P := fun _ _ h => h.Entered ∧ h.NoDangling) (A := fun h op => ¬ h.Unloads op) ?_
        ⟨init.entered, init.noDangling⟩ ?_ run
      · intro t op call
        exact never t op (call.mono sub)
      · intro _ _ t op _ t' _ inv kept step
        exact ⟨step_entered inv.1 step, step_noDangling inv.1 inv.2 kept step⟩
    exact both.2

end Host

/-- A machine with no policy loaded. -/
def noModules : Host Unit := ⟨Registry.blank, ∅, 0, fun _ => none, fun _ => none, ⟨none, none, none, none⟩⟩

theorem noModules_initial : noModules.Initial := ⟨⟨rfl, rfl⟩, rfl, fun _ => rfl, fun _ => rfl⟩

/-- `insmod` of a policy called `a`. -/
def loadOne : HostOp Unit := .load (some (.zero _)) ⟨[97], Registry.noNul_a⟩

theorem loadOne_no_dangling_iff :
    (∀ h, Lib.Visits Host.step noModules [loadOne] h → h.NoDangling) ↔
      ∀ h op, Lib.Calls Host.step noModules [loadOne] h op → ¬ h.Unloads op :=
  Host.run_no_dangling_iff noModules_initial

/-- `rmmod` after it: the registry still has its `init_port`. -/
theorem unloaded_policy_dangles :
    ¬ ∀ h, Lib.Visits Host.step noModules [loadOne, .unload 0] h → h.NoDangling := by
  intro always
  have seen : (match Lib.run Host.step noModules [loadOne, .unload 0] with
      | .ok r => (r.2.registry.policies.map Registry.Policy.initPortFn, decide (0 ∈ r.2.loaded))
      | .error _ => ([], true)) = ([0], false) := by
    decide +kernel
  split at seen
  · next r run =>
    rw [Prod.mk.injEq] at seen
    have entry : 0 ∈ r.2.registry.policies.map Registry.Policy.initPortFn := by
      rw [seen.1]
      exact List.mem_singleton_self 0
    obtain ⟨p, hp, zero⟩ := List.mem_map.1 entry
    have there := (always r.2 (Lib.Visits.of_run run)).registry p hp
    rw [zero] at there
    exact of_decide_eq_false seen.2 there
  · cases seen

end OpenQueue
