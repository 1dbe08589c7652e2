import OpenQueue.Kernel.Locking
import OpenQueue.Sim.Registry

/-!
# The registry under the lock, on lists

A lookup compares the names of the list one by one. The memory falls into the containers
that belong to the list, or once did, and those that threads fill before they take the
lock; what a call does under the lock it does to the first part, where it is a call on
the list of policies.
-/

namespace OpenQueue

namespace Registry

variable {φ ι : Type}

/-! ## Calls on lists -/

/-- `strcmp(s, t) == 0`, which faults if the strings do not end. -/
def equalNames (s t : NameBuf) : Except Fault Bool :=
  (Lib.strcmp s.bytes t.bytes).elim (.error .overrun) fun c => .ok (c = 0)

/-- The search of `oq_init` on the list of policies. -/
def searchList (portName : NameBuf) : List (Policy φ) → Except Fault (Option φ)
  | [] => .ok none
  | p :: l => do
    if ← equalNames p.name portName then return some p.initPortFn else searchList portName l

/-- One call on the list of policies. -/
def listAccess [DecidableEq φ] (l : List (Policy φ)) : Access φ → Except Fault (Option φ × List (Policy φ))
  | .register mem name fn => (listStep l (.register mem name fn)).map fun a => (none, a.2)
  | .unregister fn => (listStep l (.unregister fn)).map fun a => (none, a.2)
  | .lookup portName =>
    if l = [] then .error .nullDeref else (searchList portName l).map fun fn => (fn, l)

/-- The faults of a call on a list: a list that is empty, or no memory for a container,
and a name that does not end. -/
def ListFault (e : Fault) : Prop := e = .nullDeref ∨ e = .overrun

theorem equalNames_fault {s t : NameBuf} {e : Fault} (h : equalNames s t = .error e) : ListFault e := by
  rw [equalNames] at h
  cases compared : Lib.strcmp s.bytes t.bytes with
  | none =>
    rw [compared] at h
    cases h
    exact .inr rfl
  | some c =>
    rw [compared] at h
    cases h

theorem searchList_fault {portName : NameBuf} {l : List (Policy φ)} {e : Fault} (h : searchList portName l = .error e) :
    ListFault e := by
  induction l with
  | nil => cases h
  | cons p l ih =>
    rw [searchList] at h
    cases compared : equalNames p.name portName with
    | error e' =>
      rw [compared] at h
      cases h
      exact equalNames_fault compared
    | ok same =>
      rw [compared] at h
      cases same with
      | true => cases h
      | false => exact ih h

/-- No call on a list uses a container that was freed, or never ends. -/
theorem listAccess_fault [DecidableEq φ] {l : List (Policy φ)} {k : Access φ} {e : Fault} (h : listAccess l k = .error e) :
    ListFault e := by
  cases k with
  | register mem name fn =>
    cases mem with
    | none =>
      cases h
      exact .inl rfl
    | some junk => cases h
  | unregister fn =>
    cases l with
    | nil =>
      cases h
      exact .inl rfl
    | cons p l => cases h
  | lookup portName =>
    rw [listAccess] at h
    split at h
    · cases h
      exact .inl rfl
    · cases result : searchList portName l with
      | error e' =>
        rw [result] at h
        cases h
        exact searchList_fault result
      | ok fn =>
        rw [result] at h
        cases h

section Search

variable {r : Registry φ} {cells : List Addr} {C : Multiset Addr} {l : List (Policy φ)} {h c : Addr}

/-- One round of the search, whether or not the names end. -/
theorem findPolicy_round {portName : NameBuf} {rounds : Nat} (base : r.base = some h) (hc : c ∈ r.conts.live) :
    findPolicy portName (rounds + 1) c r =
      equalNames (r.policy c).name portName >>= fun same =>
        if same then .ok (some (r.policy c).initPortFn, r)
        else if r.next c = h then .ok (none, r) else findPolicy portName rounds (r.next c) r := by
  simp only [equalNames, policy, bind, Except.bind]
  cases compared : Lib.strcmp (r.name c).bytes portName.bytes with
  | none => simp [findPolicy, run_bind, getName, sameName, onContainer, hc, compared]
  | some d =>
    by_cases same : d = 0
    · simp [-bind_pure_comp, findPolicy, run_bind, getName, getInitPortFn, sameName, onContainer, hc, compared, same]
    · by_cases last : r.next c = h
      · simp [findPolicy, run_bind, getName, getNext, sameName, onContainer, hc, compared, same, base, last]
      · simp [findPolicy, run_bind, getName, getNext, sameName, onContainer, hc, compared, same, base, last]

/-- The search finds in memory what it finds in the list. -/
theorem Repr.search {portName : NameBuf} {rounds : Nat} (repr : Repr r (h :: cells) C l) (enough : l.length ≤ rounds) :
    Registry.findPolicy portName rounds h r = (searchList portName l).map fun fn => (fn, r) := by
  have length : (h :: cells).length ≤ rounds := by
    rw [← repr.policies, List.length_map] at enough
    exact enough
  rw [repr.ring.loop_eq_foldr (F := fun n c => Registry.findPolicy portName n c r)
    (f := fun c rest => equalNames (r.policy c).name portName >>= fun same =>
      if same then .ok (some (r.policy c).initPortFn, r) else rest)
    (z := .ok (none, r)) (fun n c hc => findPolicy_round repr.base (repr.live hc)) length, ← repr.policies]
  generalize h :: cells = cells
  induction cells with
  | nil => rfl
  | cons c cells ih =>
    rw [List.foldr_cons, ih, List.map_cons, searchList]
    rcases equalNames (r.policy c).name portName with e | _ | _ <;> rfl

end Search

/-- A lookup in memory and one in the list. -/
theorem Repr.lookup {r : Registry φ} {cells : List Addr} {C : Multiset Addr} {l : List (Policy φ)} {rounds : Nat}
    [DecidableEq φ] (repr : Repr r cells C l) (enough : l.length ≤ rounds) (portName : NameBuf) :
    Lib.Agree (fun r' l' => r' = r ∧ l' = l)
      (r.base.elim (.error .nullDeref) fun head => Registry.findPolicy portName rounds head r)
      (listAccess l (.lookup portName)) := by
  rw [repr.base, listAccess]
  cases cells with
  | nil =>
    have empty : l = [] := repr.policies.symm
    rw [if_pos empty]
    exact .error _
  | cons h cells =>
    have listed : l ≠ [] := by
      rw [← repr.policies]
      exact List.cons_ne_nil _ _
    rw [if_neg listed]
    show Lib.Agree _ (Registry.findPolicy portName rounds h r) _
    rw [repr.search enough]
    rcases searchList portName l with e | fn
    · exact .error e
    · exact .ok ⟨rfl, rfl⟩

theorem Repr.policies_length {r : Registry φ} {cells : List Addr} {C : Multiset Addr} {l : List (Policy φ)}
    (repr : Repr r cells C l) : l.length ≤ r.conts.brk := by
  rw [← repr.policies, List.length_map]
  exact repr.length_le

/-- One call made alone. -/
theorem access_agree [DecidableEq φ] (r : Registry φ) (l : List (Policy φ)) (k : Access φ) (related : Holds r l) :
    Lib.Agree Holds (r.access k) (listAccess l k) := by
  cases k with
  | register mem name fn => exact (step_agree r l _ related).map fun _ => none
  | unregister fn => exact (step_agree r l _ related).map fun _ => none
  | lookup portName =>
    obtain ⟨cells, C, repr⟩ := related
    rw [access, lookup_eq]
    refine (repr.lookup repr.policies_length portName).mono ?_
    rintro r' l' ⟨rfl, rfl⟩
    exact ⟨cells, C, repr⟩

/-! ## What the threads own -/

/-- A container that a thread fills, and what it says. -/
abbrev Private (φ : Type) := Addr × Policy φ

/-- The memory `m` is that of the list, `v`, and the containers that the threads own. -/
structure Split (m : Registry φ) (P : ι → Option (Private φ)) (v : Registry φ) : Prop where
  next : m.next = v.next
  prev : m.prev = v.prev
  base : m.base = v.base
  policy : ∀ a ∈ v.conts.live, m.policy a = v.policy a
  live : ∀ a ∈ v.conts.live, a ∈ m.conts.live
  owned : ∀ t q, P t = some q → q.1 ∈ m.conts.live ∧ q.1 ∉ v.conts.live ∧ m.policy q.1 = q.2
  apart : ∀ t t' q q', P t = some q → P t' = some q' → q.1 = q'.1 → t = t'
  below : ∀ a ∈ m.conts.live, a < m.conts.brk
  brk : v.conts.brk ≤ m.conts.brk

/-- The part of the memory with these containers. -/
def only (m : Registry φ) (live : Finset Addr) : Registry φ := { m with conts := ⟨live, m.conts.brk⟩ }

namespace Split

variable {m m' v : Registry φ} {P : ι → Option (Private φ)} {t : ι} {c : Addr} {p : Policy φ}

/-- Before any call. -/
theorem start (init : m.Initial) : Split m (fun _ : ι => none) m where
  next := rfl
  prev := rfl
  base := rfl
  policy _ _ := rfl
  live _ h := h
  owned := nofun
  apart := nofun
  below := by
    rw [init.conts]
    exact fun a mem => absurd mem (Finset.notMem_empty a)
  brk := Nat.le_refl _

variable (split : Split m P v)
include split

theorem name {a : Addr} (mem : a ∈ v.conts.live) : m.name a = v.name a := congrArg Policy.name (split.policy a mem)

theorem initPortFn {a : Addr} (mem : a ∈ v.conts.live) : m.initPortFn a = v.initPortFn a :=
  congrArg Policy.initPortFn (split.policy a mem)

variable [DecidableEq ι]

/-- No two threads own one container, also after `t` has changed what it owns. -/
theorem apart_update {o : Option (Private φ)}
    (fresh : ∀ q, o = some q → ∀ t' q', t' ≠ t → P t' = some q' → q'.1 ≠ q.1) (t₁ t₂ : ι) (q₁ q₂ : Private φ)
    (h₁ : Function.update P t o t₁ = some q₁) (h₂ : Function.update P t o t₂ = some q₂) (same : q₁.1 = q₂.1) :
    t₁ = t₂ := by
  by_cases is₁ : t₁ = t
  · by_cases is₂ : t₂ = t
    · rw [is₁, is₂]
    · rw [is₁, Function.update_self] at h₁
      rw [Function.update_of_ne is₂] at h₂
      exact absurd same.symm (fresh q₁ h₁ t₂ q₂ is₂ h₂)
  · rw [Function.update_of_ne is₁] at h₁
    by_cases is₂ : t₂ = t
    · rw [is₂, Function.update_self] at h₂
      exact absurd same (fresh q₂ h₂ t₁ q₁ is₁ h₁)
    · rw [Function.update_of_ne is₂] at h₂
      exact split.apart t₁ t₂ q₁ q₂ h₁ h₂ same

/-- A thread gets a container. -/
theorem alloc (junk : NameBuf) :
    Split { m with name := Function.update m.name m.conts.brk junk, conts := m.conts.alloc }
      (Function.update P t (some (m.conts.brk, ⟨junk, m.initPortFn m.conts.brk⟩))) v := by
  have old : ∀ a ∈ m.conts.live, a ≠ m.conts.brk := fun a mem => (split.below a mem).ne
  have kept : ∀ a ∈ m.conts.live,
      (⟨Function.update m.name m.conts.brk junk a, m.initPortFn a⟩ : Policy φ) = m.policy a := by
    intro a mem
    rw [Function.update_of_ne (old a mem), Registry.policy]
  refine ⟨split.next, split.prev, split.base, ?_, ?_, ?_, ?_, ?_, split.brk.trans (Nat.le_succ _)⟩
  · intro a mem
    exact (kept a (split.live a mem)).trans (split.policy a mem)
  · intro a mem
    exact Finset.mem_insert_of_mem (split.live a mem)
  · refine (Function.forall_update_iff P fun _ o => ∀ q, o = some q → q.1 ∈ m.conts.alloc.live ∧ q.1 ∉ v.conts.live ∧
      (⟨Function.update m.name m.conts.brk junk q.1, m.initPortFn q.1⟩ : Policy φ) = q.2).2 ⟨?_, ?_⟩
    · intro q own
      cases own
      refine ⟨Finset.mem_insert_self .., fun mem => old _ (split.live _ mem) rfl, ?_⟩
      rw [Function.update_self]
    · intro t' other q own
      obtain ⟨live, hidden, contents⟩ := split.owned t' q own
      exact ⟨Finset.mem_insert_of_mem live, hidden, (kept _ live).trans contents⟩
  · apply split.apart_update
    intro q is t' q' other own
    cases is
    exact old _ (split.owned t' q' own).1
  · intro a mem
    rcases Finset.mem_insert.1 mem with rfl | mem
    · exact Nat.lt_succ_self _
    · exact (split.below a mem).trans (Nat.lt_succ_self _)

/-- A thread fills the container that it owns. -/
theorem fill (own : P t = some (c, p)) (next : m'.next = m.next) (prev : m'.prev = m.prev) (base : m'.base = m.base)
    (conts : m'.conts = m.conts) (others : ∀ a, a ≠ c → m'.policy a = m.policy a) :
    Split m' (Function.update P t (some (c, m'.policy c))) v := by
  obtain ⟨live, hidden, -⟩ := split.owned t _ own
  refine ⟨next.trans split.next, prev.trans split.prev, base.trans split.base, ?_, ?_, ?_, ?_, ?_, ?_⟩
  · intro a mem
    have other : a ≠ c := fun same => hidden (same ▸ mem)
    exact (others a other).trans (split.policy a mem)
  · rw [conts]
    exact split.live
  · rw [conts]
    refine (Function.forall_update_iff P fun _ o => ∀ q, o = some q → q.1 ∈ m.conts.live ∧ q.1 ∉ v.conts.live ∧
      m'.policy q.1 = q.2).2 ⟨?_, ?_⟩
    · intro q is
      cases is
      exact ⟨live, hidden, rfl⟩
    · intro t' other q own'
      obtain ⟨live', hidden', contents⟩ := split.owned t' q own'
      have apart : q.1 ≠ c := fun same => other (split.apart t' t q _ own' own same)
      exact ⟨live', hidden', (others _ apart).trans contents⟩
  · apply split.apart_update
    intro q is t' q' other own' same
    cases is
    exact other (split.apart t' t q' _ own' own same)
  · rw [conts]
    exact split.below
  · rw [conts]
    exact split.brk

/-- A thread gives its container away, if it has one. -/
theorem give {live : Finset Addr} (sub : ∀ a ∈ live, a ∈ v.conts.live ∨ ∃ p, P t = some (a, p)) :
    Split m (Function.update P t none) (m.only live) := by
  refine ⟨rfl, rfl, rfl, fun _ _ => rfl, ?_, ?_, ?_, split.below, Nat.le_refl _⟩
  · intro a mem
    rcases sub a mem with old | ⟨p, own⟩
    · exact split.live a old
    · exact (split.owned t _ own).1
  · refine (Function.forall_update_iff P fun _ o => ∀ q, o = some q → q.1 ∈ m.conts.live ∧ q.1 ∉ live ∧
      m.policy q.1 = q.2).2 ⟨nofun, ?_⟩
    intro t' other q own
    obtain ⟨here, hidden, contents⟩ := split.owned t' q own
    refine ⟨here, fun mem => ?_, contents⟩
    rcases sub _ mem with old | ⟨p, own'⟩
    · exact hidden old
    · exact other (split.apart t' t q _ own own' rfl)
  · apply split.apart_update
    exact nofun

end Split

/-! ## Actions on the memory of the list -/

/-- An action that neither reads nor writes memory. -/
def ByArgs {α : Type} (f : RegM φ α) : Prop := ∃ x : Except Fault α, ∀ r, f r = x.map fun a => (a, r)

theorem byArgs_deref (p : Option Addr) : ByArgs (φ := φ) (deref p) := by
  cases p with
  | none => exact ⟨.error .nullDeref, fun _ => rfl⟩
  | some a => exact ⟨.ok a, fun _ => rfl⟩

theorem byArgs_sameName (s t : NameBuf) : ByArgs (φ := φ) (sameName s t) := by
  refine ⟨equalNames s t, fun r => ?_⟩
  rw [sameName, equalNames]
  cases Lib.strcmp s.bytes t.bytes <;> rfl

theorem byArgs_diverges {α : Type} : ByArgs (fun _ => .error .diverges : RegM φ α) := ⟨.error .diverges, fun _ => rfl⟩

/-- The faults that an action has in the whole memory too: a container that is not of the
list may be one of a thread. -/
abbrev Seen (e : Fault) : Prop := e ≠ .deadCell

/-- An action that does in the whole memory what it does in that of the list. -/
abbrev Local {α : Type} (P : ι → Option (Private φ)) (f : RegM φ α) : Prop :=
  Lib.Prog.Follows (fun m v => Split m P v) Seen f

section Local

variable {α : Type} {P : ι → Option (Private φ)} {a b : Addr}

theorem local_onContainer {f : Registry φ → α × Registry φ}
    (same : ∀ m v, Split m P v → a ∈ v.conts.live → (f m).1 = (f v).1 ∧ Split (f m).2 P (f v).2) :
    Local P (onContainer a f) := by
  intro m v split
  by_cases mem : a ∈ v.conts.live
  · obtain ⟨value, split'⟩ := same m v split mem
    refine .inl ⟨_, _, _, if_pos mem, ?_, split'⟩
    rw [onContainer, if_pos (split.live a mem), ← value]
  · exact .inr ⟨_, if_neg mem, fun seen => absurd rfl seen⟩

theorem local_getName : Local P (getName a) :=
  local_onContainer fun _ _ split mem => ⟨split.name mem, split⟩

theorem local_getInitPortFn : Local P (getInitPortFn a) :=
  local_onContainer fun _ _ split mem => ⟨split.initPortFn mem, split⟩

theorem local_getNext : Local P (getNext a) :=
  local_onContainer fun _ _ split _ => ⟨congrFun split.next a, split⟩

theorem local_getPrev : Local P (getPrev a) :=
  local_onContainer fun _ _ split _ => ⟨congrFun split.prev a, split⟩

theorem local_setNext : Local P (setNext a b) :=
  local_onContainer fun _ _ split _ => ⟨rfl, { split with next := by rw [split.next] }⟩

theorem local_setPrev : Local P (setPrev a b) :=
  local_onContainer fun _ _ split _ => ⟨rfl, { split with prev := by rw [split.prev] }⟩

theorem local_kfree : Local P (kfree a) := by
  refine local_onContainer fun m v split mem => ⟨rfl, { split with
    policy := fun b here => split.policy b (Finset.mem_of_mem_erase here)
    live := fun b here => ?_
    owned := fun t q own => ?_
    below := fun b here => split.below b (Finset.mem_of_mem_erase here) }⟩
  · rw [Lib.Pool.retire, Finset.mem_erase] at here ⊢
    exact ⟨here.1, split.live b here.2⟩
  · obtain ⟨live, hidden, contents⟩ := split.owned t q own
    have other : q.1 ≠ a := fun same => hidden (same ▸ mem)
    exact ⟨Finset.mem_erase.2 ⟨other, live⟩, fun here => hidden (Finset.mem_of_mem_erase here), contents⟩

theorem local_getBase : Local (φ := φ) P getBase := by
  intro m v split
  exact .inl ⟨_, m, v, rfl, by rw [getBase, split.base], split⟩

theorem local_setBase {p : Option Addr} : Local P (setBase p) := by
  intro m v split
  exact .inl ⟨_, _, _, rfl, rfl, { split with base := rfl }⟩

theorem ByArgs.followed {f : RegM φ α} (byArgs : ByArgs f) : Local P f := by
  intro m v split
  obtain ⟨x, args⟩ := byArgs
  rw [args, args]
  cases x with
  | error e => exact .inr ⟨e, rfl, fun _ => rfl⟩
  | ok a => exact .inl ⟨a, m, v, rfl, rfl, split⟩

end Local

/-! ## Bodies on the memory of the list -/

/-- Code that does in the whole memory what it does in that of the list. -/
abbrev LocalP {α : Type} (P : ι → Option (Private φ)) (p : RegP φ α) : Prop :=
  p.Tracks (fun m v => Split m P v) Seen

section LocalP

variable {P : ι → Option (Private φ)} {α β : Type}

/-- An action, and then code that may depend on what it answers. -/
theorem localP_act {f : RegM φ α} {k : α → RegP φ β} (act : Local P f) (rest : ∀ a, LocalP P (k a)) :
    LocalP P (Lib.Prog.atomic f >>= k) := .bind (.atomic act) rest

theorem localP_link (container : Addr) : LocalP (φ := φ) P (link container) := by
  refine localP_act local_getBase fun base => ?_
  cases base with
  | none =>
    refine localP_act local_setNext fun _ => ?_
    refine localP_act local_setPrev fun _ => ?_
    exact .atomic local_setBase
  | some head =>
    refine localP_act local_getPrev fun tail => ?_
    refine localP_act local_setPrev fun _ => ?_
    refine localP_act local_setNext fun _ => ?_
    refine localP_act local_setPrev fun _ => ?_
    exact .atomic local_setNext

theorem localP_unlink (container : Addr) : LocalP (φ := φ) P (unlink container) := by
  refine localP_act local_getNext fun next => ?_
  refine localP_act local_getPrev fun prev => ?_
  refine localP_act local_setPrev fun _ => ?_
  refine localP_act local_getPrev fun prev => ?_
  refine localP_act local_getNext fun next => ?_
  refine localP_act local_setNext fun _ => ?_
  refine localP_act local_getBase fun base => ?_
  split
  · exact localP_act local_setBase fun _ => .atomic local_kfree
  · exact .atomic local_kfree

theorem localP_unlinkFrom [DecidableEq φ] (fn : φ) (rounds : Nat) (container : Addr) :
    LocalP P (unlinkFrom fn rounds container) := by
  induction rounds generalizing container with
  | zero => exact .atomic byArgs_diverges.followed
  | succ rounds ih =>
    refine localP_act local_getInitPortFn fun fn' => ?_
    split
    · exact localP_unlink container
    · refine localP_act local_getNext fun next => ?_
      refine localP_act local_getBase fun base => ?_
      split
      · trivial
      · exact ih next

theorem localP_searchFrom (portName : NameBuf) (rounds : Nat) (container : Addr) :
    LocalP (φ := φ) P (searchFrom portName rounds container) := by
  induction rounds generalizing container with
  | zero => exact .atomic byArgs_diverges.followed
  | succ rounds ih =>
    refine localP_act local_getName fun name => ?_
    refine localP_act (byArgs_sameName name portName).followed fun same => ?_
    split
    · exact localP_act local_getInitPortFn fun _ => trivial
    · refine localP_act local_getNext fun next => ?_
      refine localP_act local_getBase fun base => ?_
      split
      · trivial
      · exact ih next

/-- Under the lock, a call does in the whole memory what it does in that of the list. -/
theorem localP_body [DecidableEq φ] (k : Access φ) (m : Registry φ) (d : Option Addr) :
    LocalP P (locked.body k m d) := by
  cases k with
  | register mem name fn =>
    cases d with
    | none => trivial
    | some container => exact .bind (localP_link container) fun _ => trivial
  | unregister fn =>
    refine .bind ?_ fun _ => trivial
    refine localP_act local_getBase fun base => ?_
    exact localP_act (byArgs_deref base).followed fun head => localP_unlinkFrom fn _ head
  | lookup portName =>
    refine localP_act local_getBase fun base => ?_
    exact localP_act (byArgs_deref base).followed fun head => localP_searchFrom portName _ head

end LocalP

/-! ## A lookup changes nothing -/

section ReadOnly

variable {α β : Type} {a : Addr}

theorem keeps_onContainer {g : Registry φ → α} : Lib.Prog.Keeps (onContainer a fun r => (g r, r)) := by
  intro r x r' is
  rw [onContainer] at is
  split at is
  · cases is
    rfl
  · cases is

theorem keeps_getBase : Lib.Prog.Keeps (getBase (φ := φ)) := by
  intro r a r' is
  cases is
  rfl

theorem ByArgs.keeps {f : RegM φ α} (byArgs : ByArgs f) : Lib.Prog.Keeps f := by
  intro r a r' is
  obtain ⟨x, args⟩ := byArgs
  rw [args] at is
  cases x with
  | error e => cases is
  | ok a =>
    cases is
    rfl

theorem readOnly_act {f : RegM φ α} {k : α → RegP φ β} (act : Lib.Prog.Keeps f) (rest : ∀ a, (k a).ReadOnly) :
    (Lib.Prog.atomic f >>= k).ReadOnly := .bind (.atomic act) rest

theorem readOnly_searchFrom (portName : NameBuf) (rounds : Nat) (container : Addr) :
    (searchFrom (φ := φ) portName rounds container).ReadOnly := by
  induction rounds generalizing container with
  | zero => exact .atomic byArgs_diverges.keeps
  | succ rounds ih =>
    refine readOnly_act keeps_onContainer fun name => ?_
    refine readOnly_act (byArgs_sameName name portName).keeps fun same => ?_
    split
    · exact readOnly_act keeps_onContainer fun _ => trivial
    · refine readOnly_act keeps_onContainer fun next => ?_
      refine readOnly_act keeps_getBase fun base => ?_
      split
      · trivial
      · exact ih next

theorem readOnly_search (portName : NameBuf) (rounds : Nat) : (search (φ := φ) portName rounds).ReadOnly := by
  refine readOnly_act keeps_getBase fun base => ?_
  exact readOnly_act (byArgs_deref base).keeps fun head => readOnly_searchFrom portName rounds head

end ReadOnly

/-! ## The list in the two memories -/

section Parts

variable {m v r : Registry φ} {P : ι → Option (Private φ)} {cells : List Addr} {C : Multiset Addr} {l : List (Policy φ)}
  {c h : Addr}

/-- The list lies in the whole memory as it lies in its own. -/
theorem Split.holds (split : Split m P v)
    (holds : Holds v l) : Holds m l := by
  obtain ⟨cells, C, repr⟩ := holds
  have inside : ∀ a ∈ cells, a ∈ m.conts.live := fun a mem => split.live a (repr.live mem)
  have sub : (cells : Multiset Addr) ≤ m.conts.live.val :=
    (Multiset.le_iff_subset (Multiset.coe_nodup.2 repr.ring.nodup)).2 fun a mem => inside a mem
  refine ⟨cells, m.conts.live.val - cells, split.base.trans repr.base, ?_, ?_, ?_⟩
  · rw [split.next, split.prev]
    exact repr.ring
  · rw [← repr.policies]
    exact List.map_congr_left fun a mem => split.policy a (repr.live mem)
  · rw [add_tsub_cancel_of_le sub]
    exact ⟨m.conts.live.nodup, m.conts.live.val_toFinset.symm, split.below⟩

/-- The memory of the list, with the contents and the break of the whole memory. -/
theorem Repr.only (repr : Repr v cells C l) (split : Split m P v) : Repr (m.only v.conts.live) cells C l := by
  refine ⟨split.base.trans repr.base, ?_, ?_, repr.conts.nodup, repr.conts.live, ?_⟩
  · show Lib.Cyclic m.next m.prev cells
    rw [split.next, split.prev]
    exact repr.ring
  · rw [← repr.policies]
    exact List.map_congr_left fun a mem => split.policy a (repr.live mem)
  · intro a mem
    exact (repr.conts.below a mem).trans_le split.brk

/-- One more container that is not in the list. -/
theorem Repr.adopt (repr : Repr r cells C l) (fresh : c ∉ r.conts.live) (below : c < r.conts.brk) :
    Repr (r.only (insert c r.conts.live)) cells (c ::ₘ C) l := by
  refine ⟨repr.base, repr.ring, repr.policies, ?_, ?_, ?_⟩
  · rw [Multiset.add_cons, Multiset.nodup_cons]
    exact ⟨fun mem => fresh (repr.conts.mem_live mem), repr.conts.nodup⟩
  · rw [Multiset.add_cons, Multiset.toFinset_cons, ← repr.conts.live]
    rfl
  · intro a mem
    rw [Multiset.add_cons, Multiset.mem_cons] at mem
    rcases mem with rfl | mem
    · exact below
    · exact repr.conts.below a mem

/-- A container begins the list. -/
theorem run_link_first (empty : r.base = none) (hc : c ∈ r.conts.live) :
    (link c).run r = .ok ((), { r with
      next := Function.update r.next c c
      prev := Function.update r.prev c c
      base := some c }) := by
  simp [link, Lib.Prog.run_bind, Lib.Prog.run_atomic, run_bind, getBase, empty, beginWith, setNext, setPrev, setBase,
    onContainer, hc]

/-- A container joins the list with the head `h`. -/
theorem run_link_append (base : r.base = some h) (hc : c ∈ r.conts.live) (head : h ∈ r.conts.live)
    (tail : r.prev h ∈ r.conts.live) :
    (link c).run r = .ok ((), { r with
      next := Function.update (Function.update r.next (r.prev h) c) c h
      prev := Function.update (Function.update r.prev c (r.prev h)) h c }) := by
  simp [link, Lib.Prog.run_bind, Lib.Prog.run_atomic, run_bind, getBase, base, appendTo, getPrev, setNext, setPrev,
    onContainer, hc, head, tail]

/-- Under the lock, the container of the thread goes to the end of the list. -/
theorem Repr.link (repr : Repr r cells (c ::ₘ C) l) :
    ∃ r', (Registry.link c).run r = .ok ((), r') ∧ Repr r' (cells ++ [c]) C (l ++ [r.policy c]) := by
  have owned : c ∈ (cells : Multiset Addr) + c ::ₘ C := Multiset.mem_add.2 (.inr (Multiset.mem_cons_self c C))
  have fresh : c ∉ cells := fun mem => repr.conts.disjoint mem (Multiset.mem_cons_self c C)
  have policies : (cells ++ [c]).map r.policy = l ++ [r.policy c] := by
    rw [List.map_append, List.map_singleton, repr.policies]
  have owns : r.conts.Owns ((cells ++ [c] : List Addr) + C) := by
    rw [Multiset.coe_eq_coe.2 (List.perm_append_singleton _ _), ← Multiset.cons_coe, Multiset.cons_add,
      ← Multiset.add_cons]
    exact repr.conts
  have hc := repr.conts.mem_live owned
  cases cells with
  | nil =>
    refine ⟨_, run_link_first repr.base hc, rfl, ?_, policies, owns⟩
    exact .single (Function.update_self ..) (Function.update_self ..)
  | cons h cells =>
    have head : h ∈ h :: cells := List.mem_cons_self
    have tail := (repr.ring.links_mem head).2
    refine ⟨_, run_link_append repr.base hc (repr.live head) (repr.live tail), repr.base, ?_, policies, owns⟩
    exact repr.ring.push_update fresh

end Parts

/-! ## The calls do what they do on lists -/

/-- What a thread has when it takes the lock: a container with its policy, to register it. -/
def Ready : Access φ → Option (Private φ) → Option Addr → Prop
  | .register mem name fn, own, d => ∃ junk c, mem = some junk ∧ own = some (c, ⟨junk.copy name, fn⟩) ∧ d = some c
  | _, own, d => own = none ∧ d = none

section Implements

variable [DecidableEq φ] [DecidableEq ι]

section Own

variable {α : Type} {k : Access φ} {f : RegM φ α} {next : α → RegP φ (Option Addr)} {c : Addr} {p : Policy φ} {b : α}

/-- An action on the container that the thread owns. -/
theorem prepares_fill (p' : Policy φ) (after : Registry φ → Registry φ)
    (act : ∀ m, c ∈ m.conts.live → m.policy c = p → f m = .ok (b, after m))
    (links : ∀ m, (after m).next = m.next ∧ (after m).prev = m.prev ∧ (after m).base = m.base ∧ (after m).conts = m.conts)
    (others : ∀ m a, a ≠ c → (after m).policy a = m.policy a) (here : ∀ m, m.policy c = p → (after m).policy c = p')
    (rest : Lib.Prepares (ι := ι) Split Ready listAccess k (some (c, p')) (next b)) :
    Lib.Prepares (ι := ι) Split Ready listAccess k (some (c, p)) (.act f next) := by
  intro m P v t split own
  obtain ⟨live, -, contents⟩ := split.owned t _ own
  obtain ⟨next, prev, base, conts⟩ := links m
  rw [act m live contents]
  constructor
  · intro b' m' is
    cases is
    refine ⟨some (c, p'), ?_, rest⟩
    rw [← here m contents]
    exact split.fill own next prev base conts (others m)
  · intro e is
    cases is

/-- A look at it. -/
theorem prepares_look (act : ∀ m, c ∈ m.conts.live → m.policy c = p → f m = .ok (b, m))
    (rest : Lib.Prepares (ι := ι) Split Ready listAccess k (some (c, p)) (next b)) :
    Lib.Prepares (ι := ι) Split Ready listAccess k (some (c, p)) (.act f next) :=
  prepares_fill p id act (fun _ => ⟨rfl, rfl, rfl, rfl⟩) (fun _ _ _ => rfl) (fun _ h => h) rest

/-- The name is copied into the container, and the function after it. -/
theorem prepares_container (junk : NameBuf) (name : Lib.CStr) (fn old : φ) (c : Addr) :
    Lib.Prepares (ι := ι) Split Ready listAccess (.register (some junk) name fn) (some (c, ⟨junk, old⟩)) (do
      let container ← Lib.Prog.atomic (deref (some c))
      let old ← Lib.Prog.atomic (getName container)
      Lib.Prog.atomic (setName container (old.copy name))
      Lib.Prog.atomic (setInitPortFn container fn)
      return some container) := by
  apply prepares_look
  · exact fun _ _ _ => rfl
  apply prepares_look (b := junk)
  · intro m live contents
    have same : m.name c = junk := congrArg Policy.name contents
    rw [getName, onContainer, if_pos live, same]
  refine prepares_fill (b := ()) ⟨junk.copy name, old⟩ (fun m => { m with name := Function.update m.name c (junk.copy name) })
    ?_ (fun _ => ⟨rfl, rfl, rfl, rfl⟩) ?_ ?_ ?_
  · exact fun m live _ => if_pos live
  · intro m a other
    simp only [policy, Function.update_of_ne other]
  · intro m contents
    have same : m.initPortFn c = old := congrArg Policy.initPortFn contents
    simp only [policy, Function.update_self, same]
  refine prepares_fill (b := ()) ⟨junk.copy name, fn⟩ (fun m => { m with initPortFn := Function.update m.initPortFn c fn })
    ?_ (fun _ => ⟨rfl, rfl, rfl, rfl⟩) ?_ ?_ ?_
  · exact fun m live _ => if_pos live
  · intro m a other
    simp only [policy, Function.update_of_ne other]
  · intro m contents
    have same : m.name c = junk.copy name := congrArg Policy.name contents
    simp only [policy, Function.update_self, same]
  exact ⟨junk, c, rfl, rfl, rfl⟩

end Own

/-- What `oq_register_policy` does before it takes the lock. -/
theorem prepares_register (mem : Option NameBuf) (name : Lib.CStr) (fn : φ) :
    Lib.Prepares (ι := ι) Split Ready listAccess (.register mem name fn) none (newContainer mem name fn) := by
  cases mem with
  | none =>
    intro m P v t split own
    constructor
    · intro b m' is
      cases is
      refine ⟨none, ?_, ?_⟩
      · rw [← own, Function.update_eq_self]
        exact split
      · intro m P v t split own
        constructor
        · intro b m' is
          cases is
        · intro e is l
          cases is
          rfl
    · intro e is
      cases is
  | some junk =>
    intro m P v t split own
    constructor
    · intro b m' is
      cases is
      refine ⟨_, split.alloc junk, ?_⟩
      exact prepares_container junk name fn _ _
    · intro e is
      cases is

/-- Under the lock for writing, a call does to the memory of the list what it does to the
list. -/
theorem body_writes {k : Access φ} {m v : Registry φ} {P : ι → Option (Private φ)} {l : List (Policy φ)} {t : ι}
    {d : Option Addr} (mode : locked.mode k = .write) (split : Split m P v) (holds : Holds v l) (ready : Ready k (P t) d) :
    ∃ v', Split m (Function.update P t none) v' ∧ Lib.Agree Holds ((locked.body k m d).run v') (listAccess l k) := by
  obtain ⟨cells, C, repr⟩ := holds
  cases k with
  | register mem name fn =>
    obtain ⟨junk, c, rfl, own, rfl⟩ := ready
    obtain ⟨live, hidden, contents⟩ := split.owned t _ own
    have adopted : Repr (m.only (insert c v.conts.live)) cells (c ::ₘ C) l :=
      (repr.only split).adopt hidden (split.below c live)
    obtain ⟨r', run, after⟩ := adopted.link
    refine ⟨m.only (insert c v.conts.live), split.give ?_, ?_⟩
    · intro a mem
      rcases Finset.mem_insert.1 mem with rfl | mem
      · exact .inr ⟨_, own⟩
      · exact .inl mem
    · have joined : Lib.Agree Holds ((link c).run (m.only (insert c v.conts.live)))
          (listStep l (.register (some junk) name fn)) := by
        rw [run, listStep, ← show m.policy c = ⟨junk.copy name, fn⟩ from contents]
        exact .ok ⟨_, _, after⟩
      show Lib.Agree Holds ((link c >>= fun _ => pure none).run _) _
      rw [run_answer]
      exact joined.map fun _ => none
  | unregister fn =>
    have left := (repr.only split).unregister fn
    refine ⟨m.only v.conts.live, split.give fun a mem => .inl mem, ?_⟩
    show Lib.Agree Holds ((unlinkPolicy fn (m.only v.conts.live).conts.brk >>= fun _ => pure none).run _) _
    rw [run_answer, run_unlinkPolicy]
    exact left.map fun _ => none
  | lookup portName => cases mode

omit [DecidableEq ι] in
/-- A lookup finds in the memory of the list what it finds in the list. -/
theorem body_reads {k : Access φ} {m v : Registry φ} {P : ι → Option (Private φ)} {l : List (Policy φ)}
    {d : Option Addr} (mode : locked.mode k = .read) (split : Split m P v) (holds : Holds v l) :
    Lib.Agree (fun v' l' => v' = v ∧ l' = l) ((locked.body k m d).run v) (listAccess l k) := by
  obtain ⟨cells, C, repr⟩ := holds
  cases k with
  | register mem name fn => cases mode
  | unregister fn => cases mode
  | lookup portName =>
    show Lib.Agree _ ((search portName m.conts.brk).run v) _
    rw [run_search]
    exact repr.lookup (repr.policies_length.trans split.brk) portName

/-- The functions of the registry, under the lock, do what they do on the list of policies. -/
theorem locked_implements :
    (locked (φ := φ)).Implements (ι := ι) Split Ready Holds listAccess Seen where
  prepares k := by
    cases k with
    | register mem name fn => exact prepares_register mem name fn
    | unregister fn => exact ⟨rfl, rfl⟩
    | lookup portName => exact ⟨rfl, rfl⟩
  write mode split holds ready := body_writes mode split holds ready
  read mode split holds _ := body_reads mode split holds
  tracks k m d P := localP_body k m d
  readOnly k m d mode := by
    cases k with
    | register mem name fn => cases mode
    | unregister fn => cases mode
    | lookup portName => exact readOnly_search portName _
  faults l k e is := by
    rcases listAccess_fault is with rfl | rfl
    · exact nofun
    · exact nofun

end Implements

end Registry

end OpenQueue
