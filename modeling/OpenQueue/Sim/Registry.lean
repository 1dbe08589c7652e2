import OpenQueue.Kernel.Registry
import OpenQueue.Lib.Run

/-!
# The registry on lists

What the registry functions do to the list of policies, whatever the calls: a
registration appends, and an unregistration takes out the first container with its
function, but empties the list if this is the head. The memory holds the list as one
ring from `oq_policy_base`; containers that were cut off with a removed head stay
allocated and are never reached again.
-/

namespace OpenQueue

namespace Registry

variable {φ : Type}

/-- One call on the list of policies. -/
def listStep [DecidableEq φ] : List (Policy φ) → Op φ → Except Fault (Unit × List (Policy φ))
  | _, .register none _ _ => .error .nullDeref
  | l, .register (some junk) name fn => .ok ((), l ++ [⟨junk.copy name, fn⟩])
  | [], .unregister _ => .error .nullDeref
  | p :: l, .unregister fn =>
    .ok ((), if p.initPortFn = fn then [] else p :: l.eraseP fun p => p.initPortFn = fn)

/-- The memory holds the list `l` in `cells`; `C` was cut off. -/
structure Repr (r : Registry φ) (cells : List Addr) (C : Multiset Addr) (l : List (Policy φ)) : Prop where
  base : r.base = cells.head?
  ring : Lib.Cyclic r.next r.prev cells
  policies : cells.map r.policy = l
  conts : r.conts.Owns (cells + C)

/-- The memory holds the list, wherever its cells lie. -/
def Holds (r : Registry φ) (l : List (Policy φ)) : Prop := ∃ cells C, Repr r cells C l

/-! ## Execution -/

section Execution

variable {r : Registry φ} {c h : Addr} {rounds : Nat}

/-- A policy joins an empty list. -/
theorem oqRegisterPolicy_first (junk : NameBuf) (name : Lib.CStr) (fn : φ) (empty : r.base = none) :
    oqRegisterPolicy (some junk) name fn r = .ok (0,
      { name := Function.update r.name r.conts.brk (junk.copy name)
        initPortFn := Function.update r.initPortFn r.conts.brk fn
        next := Function.update r.next r.conts.brk r.conts.brk
        prev := Function.update r.prev r.conts.brk r.conts.brk
        conts := r.conts.alloc
        base := some r.conts.brk }) := by
  have live : r.conts.brk ∈ r.conts.alloc.live := Finset.mem_insert_self _ _
  simp [-bind_pure_comp, oqRegisterPolicy, run_bind, kmalloc, deref, getName, setName, setInitPortFn, setNext, setPrev, setBase,
    onContainer, live, empty]

/-- A policy joins a list with the head `h`. -/
theorem oqRegisterPolicy_append (junk : NameBuf) (name : Lib.CStr) (fn : φ) (base : r.base = some h)
    (head : h ∈ r.conts.live) (tail : r.prev h ∈ r.conts.live) :
    oqRegisterPolicy (some junk) name fn r = .ok (0,
      { name := Function.update r.name r.conts.brk (junk.copy name)
        initPortFn := Function.update r.initPortFn r.conts.brk fn
        next := Function.update (Function.update r.next (r.prev h) r.conts.brk) r.conts.brk h
        prev := Function.update (Function.update r.prev r.conts.brk (r.prev h)) h r.conts.brk
        conts := r.conts.alloc
        base := some h }) := by
  have live : r.conts.brk ∈ r.conts.alloc.live := Finset.mem_insert_self _ _
  have head' : h ∈ r.conts.alloc.live := Finset.mem_insert_of_mem head
  have tail' : r.prev h ∈ r.conts.alloc.live := Finset.mem_insert_of_mem tail
  simp [-bind_pure_comp, oqRegisterPolicy, run_bind, kmalloc, deref, getName, setName, setInitPortFn, getPrev, setNext, setPrev,
    onContainer, live, head', tail', base]

theorem removeContainer_eq (hc : c ∈ r.conts.live) (hn : r.next c ∈ r.conts.live) (hp : r.prev c ∈ r.conts.live) :
    removeContainer c r = .ok ((),
      { r with
        next := Function.update r.next (r.prev c) (r.next c)
        prev := Function.update r.prev (r.next c) (r.prev c)
        conts := r.conts.retire c
        base := if some c = r.base then none else r.base }) := by
  have same : Function.update r.prev (r.next c) (r.prev c) c = r.prev c := by
    by_cases alone : c = r.next c
    · rw [← alone, Function.update_self]
    · rw [Function.update_of_ne alone]
  by_cases head : some c = r.base
  · simp [removeContainer, run_bind, getNext, getPrev, setNext, setPrev, setBase, kfree, onContainer, hc, hn, hp,
      same, head]
  · simp [removeContainer, run_bind, getNext, getPrev, setNext, setPrev, kfree, onContainer, hc, hn, hp, same, head]

theorem unregisterFrom_succ [DecidableEq φ] {fn : φ} (base : r.base = some h) (hc : c ∈ r.conts.live) :
    unregisterFrom fn (rounds + 1) c r =
      if r.initPortFn c = fn then removeContainer c r
      else if r.next c = h then .ok ((), r)
      else unregisterFrom fn rounds (r.next c) r := by
  by_cases same : r.initPortFn c = fn
  · simp [unregisterFrom, run_bind, getInitPortFn, onContainer, hc, same]
  · simp only [unregisterFrom, run_bind, getInitPortFn, getNext, onContainer, hc, same, if_true, if_false, run_get, base,
      Option.some.injEq]
    split <;> rfl

theorem findPolicy_succ {portName : NameBuf} {y : List Lib.Byte} (str : Lib.cstr? portName.bytes = some y)
    (base : r.base = some h) (hc : c ∈ r.conts.live) :
    findPolicy portName (rounds + 1) c r =
      if Lib.cstr? (r.name c).bytes = some y then .ok (some (r.initPortFn c), r)
      else if r.next c = h then .ok (none, r)
      else findPolicy portName rounds (r.next c) r := by
  obtain ⟨d, cmp, equal⟩ := Lib.strcmp_spec ((r.name c).size.trans portName.size.symm) str
  by_cases same : d = 0
  · simp [-bind_pure_comp, findPolicy, run_bind, getName, getInitPortFn, sameName, onContainer, hc, cmp, same, equal.1 same]
  · have differ : ¬ Lib.cstr? (r.name c).bytes = some y := fun s => same (equal.2 s)
    simp only [findPolicy, run_bind, getName, getNext, sameName, onContainer, hc, cmp, same, differ, if_true, if_false,
      run_get, base, Option.some.injEq, decide_false, Bool.false_eq_true]
    split <;> rfl

end Execution

/-! ## The calls on a ring -/

namespace Repr

variable {r : Registry φ} {cells : List Addr} {C : Multiset Addr} {l : List (Policy φ)}

theorem live (repr : Repr r cells C l) {a : Addr} (h : a ∈ cells) : a ∈ r.conts.live :=
  repr.conts.mem_live (Multiset.mem_add.2 (.inl h))

theorem length_le (repr : Repr r cells C l) : cells.length ≤ r.conts.brk :=
  repr.conts.length_le repr.ring.nodup (fun _ h => Multiset.mem_add.2 (.inl h))

/-- What is read from memory is the list. -/
theorem policies_eq (repr : Repr r cells C l) : r.policies = l := by
  rw [Registry.policies, repr.base, ← repr.policies]
  cases cells with
  | nil => rfl
  | cons h cells =>
    have ring := repr.conts.ring_eq repr.ring (fun _ h => Multiset.mem_add.2 (.inl h))
    show (r.conts.ring r.next h).map r.policy = _
    rw [ring]

theorem initial (init : r.Initial) : Repr r [] 0 [] := by
  refine ⟨init.base, ⟨List.nodup_nil, List.isChain_nil⟩, rfl, ?_⟩
  exact Lib.Pool.owns_zero init.conts

/-- The new container and the old ones. -/
theorem policies_append {r' : Registry φ} {name : NameBuf} {fn : φ} (repr : Repr r cells C l)
    (names : r'.name = Function.update r.name r.conts.brk name)
    (fns : r'.initPortFn = Function.update r.initPortFn r.conts.brk fn) :
    (cells ++ [r.conts.brk]).map r'.policy = l ++ [⟨name, fn⟩] := by
  rw [List.map_append, ← repr.policies]
  congr 1
  · refine List.map_congr_left fun a ha => ?_
    have other : a ≠ r.conts.brk := by
      rintro rfl
      exact repr.conts.fresh (Multiset.mem_add.2 (.inl ha))
    rw [policy, policy, names, fns, Function.update_of_ne other, Function.update_of_ne other]
  · rw [List.map_singleton, policy, names, fns, Function.update_self, Function.update_self]

theorem register (repr : Repr r cells C l) (junk : NameBuf) (name : Lib.CStr) (fn : φ) :
    ∃ r', oqRegisterPolicy (some junk) name fn r = .ok (0, r') ∧
      Repr r' (cells ++ [r.conts.brk]) C (l ++ [⟨junk.copy name, fn⟩]) := by
  have fresh : r.conts.brk ∉ cells := fun h => repr.conts.fresh (Multiset.mem_add.2 (.inl h))
  have owns : r.conts.alloc.Owns ((cells ++ [r.conts.brk] : List Addr) + C) := by
    rw [Multiset.coe_eq_coe.2 (List.perm_append_singleton _ _), ← Multiset.cons_coe, Multiset.cons_add]
    exact repr.conts.alloc
  cases cells with
  | nil =>
    refine ⟨_, oqRegisterPolicy_first junk name fn repr.base, rfl, ?_, repr.policies_append rfl rfl, owns⟩
    exact .single (Function.update_self ..) (Function.update_self ..)
  | cons h cells =>
    have head : h ∈ h :: cells := List.mem_cons_self
    have tail : (h :: cells).getLast? = some (r.prev h) := by
      rw [List.getLast?_cons, repr.ring.prev_head, List.getLastD_eq_getLast?]
    have tailMem := (repr.ring.links_mem head).2
    refine ⟨_, oqRegisterPolicy_append junk name fn repr.base (repr.live head) (repr.live tailMem), rfl, ?_,
      repr.policies_append rfl rfl, owns⟩
    have notHead : h ≠ r.conts.brk := fun same => fresh (same ▸ head)
    have notTail : r.prev h ≠ r.conts.brk := fun same => fresh (same ▸ tailMem)
    refine repr.ring.push fresh tail ?_ (Function.update_self ..) ?_ (Function.update_self ..) ?_ ?_
    · simp only [Function.update_of_ne notTail, Function.update_self]
    · simp only [Function.update_of_ne notHead.symm, Function.update_self]
    · intro x hx other
      have old : x ≠ r.conts.brk := fun same => fresh (same ▸ hx)
      simp only [Function.update_of_ne old, Function.update_of_ne other]
    · intro x hx other
      have old : x ≠ r.conts.brk := fun same => fresh (same ▸ hx)
      simp only [Function.update_of_ne other, Function.update_of_ne old]

/-- The containers of the list, one of them apart. -/
theorem owns_split {front back : List Addr} {c : Addr} (repr : Repr r (front ++ c :: back) C l) :
    r.conts.Owns (c ::ₘ ((front ++ back : List Addr) + C)) := by
  have owns := repr.conts
  rw [← Multiset.cons_add, Multiset.cons_coe]
  rwa [Multiset.coe_eq_coe.2 List.perm_middle] at owns

/-- The head goes, and the rest of the list with it. -/
theorem removeHead {c : Addr} {back : List Addr} (repr : Repr r (c :: back) C l) :
    ∃ r', removeContainer c r = .ok ((), r') ∧ Repr r' [] (back + C) [] := by
  obtain ⟨next, prev⟩ := repr.ring.links_mem (List.mem_cons_self)
  refine ⟨_, removeContainer_eq (repr.live List.mem_cons_self) (repr.live next) (repr.live prev), ?_, ?_, rfl, ?_⟩
  · exact if_pos repr.base.symm
  · exact ⟨List.nodup_nil, List.isChain_nil⟩
  · have owns := repr.conts
    rw [← Multiset.cons_coe, Multiset.cons_add] at owns
    rw [Multiset.coe_nil, zero_add]
    exact owns.retire

/-- Another container goes. -/
theorem removeInner {h c : Addr} {front back : List Addr} (repr : Repr r (h :: front ++ c :: back) C l) :
    ∃ r', removeContainer c r = .ok ((), r') ∧ Repr r' (h :: front ++ back) C ((h :: front ++ back).map r.policy) := by
  have member : c ∈ h :: front ++ c :: back := List.mem_append_cons_self
  obtain ⟨next, prev⟩ := repr.ring.links_mem member
  have notHead : c ≠ h := by
    rintro rfl
    exact (List.nodup_cons.1 repr.ring.nodup).1 List.mem_append_cons_self
  refine ⟨_, removeContainer_eq (repr.live member) (repr.live next) (repr.live prev), ?_, ?_, rfl, ?_⟩
  · have other : ¬ some c = r.base := by
      rw [repr.base]
      exact fun same => notHead (Option.some.inj same)
    exact (if_neg other).trans repr.base
  · refine repr.ring.remove (by simp) (Function.update_self ..) (Function.update_self ..) ?_ ?_
    · intro x _ other
      exact Function.update_of_ne other ..
    · intro x _ other
      exact Function.update_of_ne other ..
  · exact repr.owns_split.retire

theorem unregister [DecidableEq φ] (repr : Repr r cells C l) (fn : φ) :
    Lib.Agree Holds (r.step (.unregister fn)) (listStep l (.unregister fn)) := by
  cases cells with
  | nil =>
    have empty : l = [] := repr.policies.symm
    subst empty
    have fault : r.step (.unregister fn) = .error .nullDeref := by
      simp [step, oqUnregisterPolicy, run_bind, deref, repr.base]
    rw [fault]
    exact .error _
  | cons h cells =>
    have loop : r.step (.unregister fn) =
        ((h :: cells).find? fun c => r.initPortFn c = fn).elim (.ok ((), r)) fun c => removeContainer c r := by
      rw [← repr.ring.loop_eq_find (F := fun n c => unregisterFrom fn n c r)
        (fun n c hc => unregisterFrom_succ repr.base (repr.live hc)) repr.length_le]
      simp [step, oqUnregisterPolicy, run_bind, deref, repr.base]
    have listed : l = r.policy h :: cells.map r.policy := repr.policies.symm
    rw [loop, listed, listStep]
    cases found : (h :: cells).find? fun c => r.initPortFn c = fn with
    | none =>
      have none := List.find?_eq_none.1 found
      have notHead : ¬ (r.policy h).initPortFn = fn := by simpa using none h List.mem_cons_self
      have same : (cells.map r.policy).eraseP (fun p => p.initPortFn = fn) = cells.map r.policy := by
        refine List.eraseP_of_forall_not fun p hp => ?_
        obtain ⟨a, ha, rfl⟩ := List.mem_map.1 hp
        exact none a (List.mem_cons_of_mem _ ha)
      rw [if_neg notHead, same, ← listed]
      exact .ok ⟨_, C, repr⟩
    | some c =>
      obtain ⟨hit, front, back, split, earlier⟩ := List.find?_eq_some_iff_append.1 found
      cases front with
      | nil =>
        obtain ⟨rfl, rfl⟩ := List.cons.inj split
        obtain ⟨r', run, after⟩ := repr.removeHead
        rw [Option.elim_some, run, if_pos (show (r.policy h).initPortFn = fn by simpa using hit)]
        exact .ok ⟨_, _, after⟩
      | cons f front =>
        rw [List.cons_append, List.cons.injEq] at split
        obtain ⟨rfl, rfl⟩ := split
        obtain ⟨r', run, after⟩ := repr.removeInner
        have notHead : ¬ (r.policy h).initPortFn = fn := by simpa using earlier h List.mem_cons_self
        have gone : ((front ++ c :: back).map r.policy).eraseP (fun p => p.initPortFn = fn) =
            (front ++ back).map r.policy := by
          rw [List.map_append, List.map_cons, List.eraseP_append_right, List.eraseP_cons_of_pos, List.map_append]
          · exact hit
          · intro p hp
            obtain ⟨a, ha, rfl⟩ := List.mem_map.1 hp
            have other : ¬ r.initPortFn a = fn := by simpa using earlier a (List.mem_cons_of_mem _ ha)
            exact fun same => other (of_decide_eq_true same)
        rw [Option.elim_some, run, if_neg notHead, gone]
        exact .ok ⟨_, _, after⟩

end Repr

/-- One call of a policy module. -/
theorem step_agree [DecidableEq φ] (r : Registry φ) (l : List (Policy φ)) (op : Op φ) (related : Holds r l) :
    Lib.Agree Holds (r.step op) (listStep l op) := by
  obtain ⟨cells, C, repr⟩ := related
  cases op with
  | register mem name fn =>
    cases mem with
    | none => exact .error _
    | some junk =>
      obtain ⟨r', run, after⟩ := repr.register junk name fn
      have ok : r.step (.register (some junk) name fn) = .ok ((), r') := by
        rw [step, run]
      rw [ok]
      exact .ok ⟨_, _, after⟩
  | unregister fn => exact repr.unregister fn

section Init

variable {r : Registry φ} {cells : List Addr} {C : Multiset Addr} {l : List (Policy φ)} {y : List Lib.Byte}

/-- The loop of `oq_init`, for a name that ends inside its array. -/
theorem Repr.findPolicy {portName : NameBuf} {h : Addr} (repr : Repr r (h :: cells) C l)
    (str : Lib.cstr? portName.bytes = some y) :
    Registry.findPolicy portName r.conts.brk h r =
      .ok ((l.find? fun p => Lib.cstr? p.name.bytes = some y).map Policy.initPortFn, r) := by
  rw [repr.ring.loop_eq_find (F := fun n c => Registry.findPolicy portName n c r)
    (fun n c hc => findPolicy_succ str repr.base (repr.live hc)) repr.length_le, ← repr.policies, List.find?_map,
    show ((fun p : Policy φ => decide (Lib.cstr? p.name.bytes = some y)) ∘ r.policy) =
      fun c => decide (Lib.cstr? (r.name c).bytes = some y) from rfl]
  cases (h :: cells).find? fun c => Lib.cstr? (r.name c).bytes = some y <;> rfl

/-- `oq_init` with a whole option block calls the first policy that has the name in it. -/
theorem Repr.oqInit {opt : Opt} (repr : Repr r cells C l) (some : l ≠ []) (whole : sizeofTcOqQopt ≤ opt.nlaLen)
    (str : Lib.cstr? opt.portName.bytes = .some y) (initPort : φ → Int) (pools : PoolsCreated) :
    ∃ code, Registry.oqInit (.some opt) initPort pools r =
      .ok ((code, (l.find? fun p => Lib.cstr? p.name.bytes = .some y).map Policy.initPortFn), r) := by
  cases cells with
  | nil => exact absurd repr.policies.symm some
  | cons h cells =>
    have search := repr.findPolicy str
    have base : r.base = .some h := repr.base
    cases found : (l.find? fun p => Lib.cstr? p.name.bytes = .some y).map Policy.initPortFn with
    | none =>
      rw [found] at search
      exact ⟨-eInval, by simp [Registry.oqInit, run_bind, deref, base, search, Nat.not_lt.2 whole]⟩
    | some fn =>
      rw [found] at search
      simp only [Registry.oqInit, run_bind, deref, base, search, Nat.not_lt.2 whole, if_false, run_get]
      split
      · exact ⟨_, rfl⟩
      · split
        · exact ⟨_, rfl⟩
        · split
          · exact ⟨_, rfl⟩
          · exact ⟨_, rfl⟩

end Init

end Registry

end OpenQueue
