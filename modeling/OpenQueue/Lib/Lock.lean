import OpenQueue.Lib.Run

/-!
# Calls under a readers-writer lock

Calls that run at the same time, each made of atomic actions on one memory: some before it
takes the lock, the others while it has it, for reading or for writing. A thread that finds
the lock taken tries again. The memory is split into a public part and what single threads
own before they take the lock; a body is run as if only the public part were there.

If every body, run at once on the public part, does what an abstract call does, then so
does every interleaving: the calls that have returned have done what they do one after the
other, in the order in which they released the lock (`Interleaved.run`), and a fault is one
of the call that comes next (`Interleaved.fault`).
-/

namespace Lib

/-! ## Programs -/

/-- Atomic actions, one after the other. -/
inductive Prog (σ ε α : Type) : Type 1 where
  | done (a : α)
  | act {β : Type} (f : σ → Except ε (β × σ)) (next : β → Prog σ ε α)

namespace Prog

variable {σ ε α β : Type}

def bind : Prog σ ε α → (α → Prog σ ε β) → Prog σ ε β
  | .done a, k => k a
  | .act f next, k => .act f fun b => (next b).bind k

instance monad : Monad (Prog σ ε) where
  pure := .done
  bind := bind

/-- One action. -/
def atomic (f : StateT σ (Except ε) α) : Prog σ ε α := .act f .done

/-- All actions at once. -/
def run : Prog σ ε α → σ → Except ε (α × σ)
  | .done a, s => .ok (a, s)
  | .act f next, s =>
    match f s with
    | .error e => .error e
    | .ok (b, s') => (next b).run s'

theorem run_pure (a : α) : (pure a : Prog σ ε α).run = (pure a : StateT σ (Except ε) α) := rfl

theorem run_atomic (f : StateT σ (Except ε) α) : (atomic f).run = f := by
  funext s
  rw [atomic, run]
  cases f s <;> rfl

theorem run_bind (p : Prog σ ε α) (k : α → Prog σ ε β) :
    (p >>= k).run = ((p.run : StateT σ (Except ε) α) >>= fun a => (k a).run : StateT σ (Except ε) β) := by
  funext s
  change (p.bind k).run s = p.run s >>= fun r => (k r.1).run r.2
  induction p generalizing s with
  | done a => rfl
  | act f next ih =>
    rw [bind, run, run]
    cases f s with
    | error e => rfl
    | ok r => exact ih r.1 r.2

theorem run_ite (c : Prop) [Decidable c] (p q : Prog σ ε α) : (if c then p else q).run = if c then p.run else q.run := by
  split <;> rfl

/-- The action does not change the memory. -/
def Keeps (f : StateT σ (Except ε) α) : Prop := ∀ s a s', f s = .ok (a, s') → s' = s

/-- No action changes the memory. -/
def ReadOnly : Prog σ ε α → Prop
  | .done _ => True
  | .act f next => Keeps f ∧ ∀ b, (next b).ReadOnly

/-- What the action does in one memory it does in every related one, as far as faults in `F`
go. -/
def Follows (V : σ → σ → Prop) (F : ε → Prop) (f : StateT σ (Except ε) α) : Prop :=
  ∀ m v, V m v → (∃ a m' v', f v = .ok (a, v') ∧ f m = .ok (a, m') ∧ V m' v') ∨
    ∃ e, f v = .error e ∧ (F e → f m = .error e)

/-- Every action does in a related memory what it does in this one. -/
def Tracks (V : σ → σ → Prop) (F : ε → Prop) : Prog σ ε α → Prop
  | .done _ => True
  | .act f next => Follows V F f ∧ ∀ b, (next b).Tracks V F

variable {V : σ → σ → Prop} {F : ε → Prop} {f : StateT σ (Except ε) α} {p : Prog σ ε α} {k : α → Prog σ ε β}

theorem ReadOnly.atomic (h : Keeps f) : (atomic f).ReadOnly := ⟨h, fun _ => trivial⟩

theorem ReadOnly.bind (h : p.ReadOnly) (hk : ∀ a, (k a).ReadOnly) : (p >>= k).ReadOnly := by
  induction p with
  | done a => exact hk a
  | act f next ih => exact ⟨h.1, fun b => ih b (h.2 b)⟩

theorem Tracks.atomic (h : Follows V F f) : (atomic f).Tracks V F := ⟨h, fun _ => trivial⟩

theorem Tracks.bind (h : p.Tracks V F) (hk : ∀ a, (k a).Tracks V F) : (p >>= k).Tracks V F := by
  induction p with
  | done a => exact hk a
  | act f next ih => exact ⟨h.1, fun b => ih b (h.2 b)⟩

end Prog

/-! ## Threads -/

/-- How a call takes the lock. -/
inductive LockMode where
  | read
  | write
  deriving DecidableEq

/-- What a call does before it takes the lock, how it takes it, and what it does then. The
body may depend on the memory that it finds. -/
structure LockedCalls (σ ε κ δ α : Type) : Type 1 where
  before : κ → Prog σ ε δ
  mode : κ → LockMode
  body : κ → σ → δ → Prog σ ε α

/-- How far a thread has come. -/
inductive LockTask (σ ε δ α : Type) : Type 1 where
  | before (p : Prog σ ε δ)
  | inside (p : Prog σ ε α)
  | returned (a : α)

/-- The memory, the lock, and the threads. `order` lists the threads that have released the
lock; no thread reads it. -/
structure LockState (ι σ ε δ α : Type) : Type 1 where
  mem : σ
  writer : Option ι
  readers : Finset ι
  tasks : ι → LockTask σ ε δ α
  order : List ι

namespace LockState

variable {ι σ ε κ δ α : Type} [DecidableEq ι]

/-- Every thread is about to make its call. -/
def start (sys : LockedCalls σ ε κ δ α) (calls : ι → κ) (m : σ) : LockState ι σ ε δ α :=
  ⟨m, none, ∅, fun t => .before (sys.before (calls t)), []⟩

/-- Thread `t` goes on with `task`. -/
def goOn (s : LockState ι σ ε δ α) (t : ι) (m : σ) (task : LockTask σ ε δ α) : LockState ι σ ε δ α :=
  { s with mem := m, tasks := Function.update s.tasks t task }

/-- Take the lock if it can be had. -/
def acquire (s : LockState ι σ ε δ α) (t : ι) (body : Prog σ ε α) : LockMode → LockState ι σ ε δ α
  | .write =>
    if s.writer = none ∧ s.readers = ∅ then { s.goOn t s.mem (.inside body) with writer := some t } else s
  | .read =>
    if s.writer = none then { s.goOn t s.mem (.inside body) with readers := insert t s.readers } else s

/-- Release the lock. -/
def release (s : LockState ι σ ε δ α) (t : ι) (a : α) : LockState ι σ ε δ α :=
  { s.goOn t s.mem (.returned a) with
    writer := if s.writer = some t then none else s.writer
    readers := s.readers.erase t
    order := s.order ++ [t] }

/-- One action of thread `t`. -/
def step (sys : LockedCalls σ ε κ δ α) (calls : ι → κ) (s : LockState ι σ ε δ α) (t : ι) :
    Except ε (LockState ι σ ε δ α) :=
  match s.tasks t with
  | .before (.act f next) =>
    match f s.mem with
    | .error e => .error e
    | .ok (b, m) => .ok (s.goOn t m (.before (next b)))
  | .before (.done d) => .ok (s.acquire t (sys.body (calls t) s.mem d) (sys.mode (calls t)))
  | .inside (.act f next) =>
    match f s.mem with
    | .error e => .error e
    | .ok (b, m) => .ok (s.goOn t m (.inside (next b)))
  | .inside (.done a) => .ok (s.release t a)
  | .returned _ => .ok s

/-- The threads act in this order. -/
def run (sys : LockedCalls σ ε κ δ α) (calls : ι → κ) : LockState ι σ ε δ α → List ι → Except ε (LockState ι σ ε δ α)
  | s, [] => .ok s
  | s, t :: ts =>
    match step sys calls s t with
    | .error e => .error e
    | .ok s' => run sys calls s' ts

variable {sys : LockedCalls σ ε κ δ α} {calls : ι → κ} {s s' : LockState ι σ ε δ α} {t : ι} {ts : List ι}

/-- What an action of thread `t` can be. -/
inductive Acts (sys : LockedCalls σ ε κ δ α) (calls : ι → κ) (s : LockState ι σ ε δ α) (t : ι) :
    LockState ι σ ε δ α → Prop
  | before {β : Type} {f : σ → Except ε (β × σ)} {next : β → Prog σ ε δ} {b : β} {m : σ}
    (here : s.tasks t = .before (.act f next)) (result : f s.mem = .ok (b, m)) :
    Acts sys calls s t (s.goOn t m (.before (next b)))
  | acquire {d : δ} (here : s.tasks t = .before (.done d)) :
    Acts sys calls s t (s.acquire t (sys.body (calls t) s.mem d) (sys.mode (calls t)))
  | inside {β : Type} {f : σ → Except ε (β × σ)} {next : β → Prog σ ε α} {b : β} {m : σ}
    (here : s.tasks t = .inside (.act f next)) (result : f s.mem = .ok (b, m)) :
    Acts sys calls s t (s.goOn t m (.inside (next b)))
  | release {a : α} (here : s.tasks t = .inside (.done a)) : Acts sys calls s t (s.release t a)
  | idle {a : α} (here : s.tasks t = .returned a) : Acts sys calls s t s

theorem step_acts (h : s.step sys calls t = .ok s') : Acts sys calls s t s' := by
  rw [step] at h
  cases here : s.tasks t with
  | returned a =>
    rw [here] at h
    cases h
    exact .idle here
  | before p =>
    rw [here] at h
    cases p with
    | done d =>
      cases h
      exact .acquire here
    | act f next =>
      cases result : f s.mem with
      | error e => simp [result] at h
      | ok r =>
        simp only [result] at h
        cases h
        exact .before here result
  | inside p =>
    rw [here] at h
    cases p with
    | done a =>
      cases h
      exact .release here
    | act f next =>
      cases result : f s.mem with
      | error e => simp [result] at h
      | ok r =>
        simp only [result] at h
        cases h
        exact .inside here result

theorem run_cons_eq_ok : s.run sys calls (t :: ts) = .ok s' ↔ ∃ s₁, s.step sys calls t = .ok s₁ ∧ s₁.run sys calls ts = .ok s' := by
  rw [run]
  cases s.step sys calls t <;> simp

/-- The threads come to a state that satisfies `P`. -/
def ends (P : LockState ι σ ε δ α → Bool) : Except ε (LockState ι σ ε δ α) → Bool
  | .ok s => P s
  | .error _ => false

omit [DecidableEq ι] in
theorem exists_of_ends {P : LockState ι σ ε δ α → Bool} {r : Except ε (LockState ι σ ε δ α)} (h : ends P r = true) :
    ∃ s, r = .ok s ∧ P s = true := by
  cases r with
  | error e => cases h
  | ok s => exact ⟨s, rfl, h⟩

/-- Threads that have released the lock come before those that release it later. -/
theorem step_order (h : s.step sys calls t = .ok s') : s.order <+: s'.order := by
  cases step_acts h with
  | acquire here => cases sys.mode (calls t) <;> rw [acquire] <;> split <;> exact List.prefix_rfl
  | release here => exact List.prefix_append ..
  | _ => exact List.prefix_rfl

theorem run_order (h : s.run sys calls ts = .ok s') : s.order <+: s'.order := by
  induction ts generalizing s with
  | nil =>
    cases h
    exact List.prefix_rfl
  | cons t ts ih =>
    obtain ⟨s₁, first, rest⟩ := run_cons_eq_ok.1 h
    exact (step_order first).trans (ih rest)

end LockState

/-! ## What is to be shown of the calls -/

section Implements

variable {ι σ ε κ δ α ρ A : Type} [DecidableEq ι]

/-- What is left to do before the lock, for a thread that owns `o`: every action changes no
more than what the thread owns, and a fault is one that the abstract call has. -/
def Prepares (Split : σ → (ι → Option ρ) → σ → Prop) (Ready : κ → Option ρ → δ → Prop) (abs : A → κ → Except ε (α × A))
    (k : κ) : Option ρ → Prog σ ε δ → Prop
  | o, .done d => Ready k o d
  | o, .act f next => ∀ m P v t, Split m P v → P t = o →
    (∀ b m', f m = .ok (b, m') →
      ∃ o', Split m' (Function.update P t o') v ∧ Prepares Split Ready abs k o' (next b)) ∧
    ∀ e, f m = .error e → ∀ a, abs a k = .error e

/-- The calls do what `abs` does to what the public part of the memory represents. A thread
that takes the lock for writing gives away what it owns. -/
structure LockedCalls.Implements (sys : LockedCalls σ ε κ δ α) (Split : σ → (ι → Option ρ) → σ → Prop)
    (Ready : κ → Option ρ → δ → Prop) (Rep : σ → A → Prop) (abs : A → κ → Except ε (α × A)) (F : ε → Prop) : Prop where
  prepares : ∀ k, Prepares Split Ready abs k none (sys.before k)
  write : ∀ {k m P v a t d}, sys.mode k = .write → Split m P v → Rep v a → Ready k (P t) d →
    ∃ v', Split m (Function.update P t none) v' ∧ Agree Rep ((sys.body k m d).run v') (abs a k)
  read : ∀ {k m P v a t d}, sys.mode k = .read → Split m P v → Rep v a → Ready k (P t) d →
    Agree (fun v' a' => v' = v ∧ a' = a) ((sys.body k m d).run v) (abs a k)
  tracks : ∀ k m d P, (sys.body k m d).Tracks (fun m v => Split m P v) F
  readOnly : ∀ k m d, sys.mode k = .read → (sys.body k m d).ReadOnly
  faults : ∀ a k e, abs a k = .error e → F e

end Implements

/-! ## Interleavings -/

section Interleaved

variable {ι σ ε κ δ α ρ A : Type} [DecidableEq ι]

/-- How a thread stands to the public part `v` and to what it represents. -/
def ThreadOk (sys : LockedCalls σ ε κ δ α) (calls : ι → κ) (Split : σ → (ι → Option ρ) → σ → Prop)
    (Ready : κ → Option ρ → δ → Prop) (Rep : σ → A → Prop) (abs : A → κ → Except ε (α × A)) (F : ε → Prop)
    (writer : Option ι) (readers : Finset ι) (P : ι → Option ρ) (v : σ) (a : A) (t : ι) : LockTask σ ε δ α → Prop
  | .before p => Prepares Split Ready abs (calls t) (P t) p
  | .inside p => (∀ P, p.Tracks (fun m v => Split m P v) F) ∧
    (sys.mode (calls t) = .write → writer = some t ∧ Agree Rep (p.run v) (abs a (calls t))) ∧
    (sys.mode (calls t) = .read → t ∈ readers ∧ p.ReadOnly ∧
      Agree (fun v' a' => v' = v ∧ a' = a) (p.run v) (abs a (calls t)))
  | .returned _ => True

/-- What holds between two actions. The calls that have returned have taken `a₀` to `a`, and
the calls under way will do to `a` what they do to the public part `v`. -/
structure Interleaved (sys : LockedCalls σ ε κ δ α) (calls : ι → κ) (Split : σ → (ι → Option ρ) → σ → Prop)
    (Ready : κ → Option ρ → δ → Prop) (Rep : σ → A → Prop) (abs : A → κ → Except ε (α × A)) (F : ε → Prop) (a₀ : A)
    (s : LockState ι σ ε δ α) (P : ι → Option ρ) (v : σ) (a : A) (answers : List α) : Prop where
  split : Split s.mem P v
  serial : Lib.run abs a₀ (s.order.map calls) = .ok (answers, a)
  nodup : s.order.Nodup
  returned : ∀ t x, s.tasks t = .returned x ↔ (t, x) ∈ s.order.zip answers
  threads : ∀ t, ThreadOk sys calls Split Ready Rep abs F s.writer s.readers P v a t (s.tasks t)
  exclusive : s.writer ≠ none → s.readers = ∅
  idle : s.writer = none → Rep v a
  holds : ∀ t, s.writer = some t ∧ sys.mode (calls t) = .write ∨ t ∈ s.readers ∧ sys.mode (calls t) = .read ↔
    ∃ p, s.tasks t = .inside p

variable {sys : LockedCalls σ ε κ δ α} {calls : ι → κ} {Split : σ → (ι → Option ρ) → σ → Prop}
  {Ready : κ → Option ρ → δ → Prop} {Rep : σ → A → Prop} {abs : A → κ → Except ε (α × A)} {F : ε → Prop} {a₀ a a' : A}
  {s : LockState ι σ ε δ α} {P P' : ι → Option ρ} {v v' m : σ} {answers : List α} {t t' : ι} {writer writer' : Option ι}
  {readers readers' : Finset ι} {task : LockTask σ ε δ α}

theorem ThreadOk.frame (h : ThreadOk sys calls Split Ready Rep abs F writer readers P v a t task) (own : P' t = P t)
    (inside : ∀ p, task = .inside p → (writer = some t → writer' = some t) ∧ (t ∈ readers → t ∈ readers') ∧ v' = v ∧ a' = a) :
    ThreadOk sys calls Split Ready Rep abs F writer' readers' P' v' a' t task := by
  cases task with
  | before p =>
    rw [ThreadOk, own]
    exact h
  | returned x => trivial
  | inside p =>
    obtain ⟨writes, reads, rfl, rfl⟩ := inside p rfl
    obtain ⟨tracks, writing, reading⟩ := h
    exact ⟨tracks, fun mode => ⟨writes (writing mode).1, (writing mode).2⟩,
      fun mode => ⟨reads (reading mode).1, (reading mode).2⟩⟩

namespace Interleaved

theorem start (impl : sys.Implements Split Ready Rep abs F) (split : Split m (fun _ => none) v) (rep : Rep v a₀) :
    Interleaved sys calls Split Ready Rep abs F a₀ (.start sys calls m) (fun _ => none) v a₀ [] where
  split := split
  serial := rfl
  nodup := List.nodup_nil
  returned t x := ⟨nofun, nofun⟩
  threads t := impl.prepares (calls t)
  exclusive h := absurd rfl h
  idle _ := rep
  holds t := by simp [LockState.start]

variable (inv : Interleaved sys calls Split Ready Rep abs F a₀ s P v a answers)
include inv

theorem length_answers : answers.length = s.order.length := by
  rw [run_length inv.serial, List.length_map]

/-- The threads that are done are those that have released the lock. -/
theorem mem_order_iff : t ∈ s.order ↔ ∃ x, s.tasks t = .returned x := by
  simp only [inv.returned]
  constructor
  · intro mem
    obtain ⟨i, inside, rfl⟩ := List.getElem_of_mem mem
    have inside' : i < answers.length := inv.length_answers ▸ inside
    exact ⟨answers[i], List.mem_iff_getElem.2 ⟨i, by simp [inside, inside'], by simp⟩⟩
  · rintro ⟨x, mem⟩
    exact (List.of_mem_zip mem).1

/-- Only the writer is inside while there is one. -/
theorem not_inside (locked : s.writer = some t') (other : t ≠ t') (p : Prog σ ε α) : s.tasks t ≠ .inside p := by
  intro here
  rcases (inv.holds t).2 ⟨p, here⟩ with ⟨same, -⟩ | ⟨mem, -⟩
  · exact other (Option.some.inj (same.symm.trans locked))
  · have empty := inv.exclusive (by rw [locked]; exact Option.some_ne_none _)
    rw [empty] at mem
    exact absurd mem (Finset.notMem_empty t)

/-- The threads that have returned are the same if one goes on that has not. -/
theorem returned_goOn (m' : σ) (before : ∀ x, s.tasks t ≠ .returned x) (after : ∀ x, task ≠ .returned x) :
    ∀ t' x, (s.goOn t m' task).tasks t' = .returned x ↔ (t', x) ∈ s.order.zip answers := by
  refine (Function.forall_update_iff s.tasks fun t task => ∀ x, task = .returned x ↔ (t, x) ∈ s.order.zip answers).2
    ⟨fun x => ?_, fun t' _ => inv.returned t'⟩
  rw [← inv.returned]
  exact iff_of_false (after x) (before x)

/-- A thread goes on outside the lock, or inside it as before. -/
theorem goOn {m' : σ} (split : Split m' P' v') (others : ∀ t', t' ≠ t → P' t' = P t')
    (before : ∀ x, s.tasks t ≠ .returned x) (after : ∀ x, task ≠ .returned x)
    (inside : (∃ p, s.tasks t = .inside p) ↔ ∃ p, task = .inside p)
    (here : ThreadOk sys calls Split Ready Rep abs F s.writer s.readers P' v' a t task)
    (kept : v' = v ∨ s.writer = some t) :
    Interleaved sys calls Split Ready Rep abs F a₀ (s.goOn t m' task) P' v' a answers where
  split := split
  serial := inv.serial
  nodup := inv.nodup
  returned := inv.returned_goOn m' before after
  threads := by
    refine (Function.forall_update_iff s.tasks (ThreadOk sys calls Split Ready Rep abs F s.writer s.readers P' v' a)).2
      ⟨here, fun t' other => (inv.threads t').frame (others t' other) fun p is => ?_⟩
    refine ⟨id, id, ?_, rfl⟩
    rcases kept with same | writes
    · exact same
    · exact absurd is (inv.not_inside writes other p)
  exclusive := inv.exclusive
  idle free := by
    rcases kept with same | writes
    · rw [same]
      exact inv.idle free
    · exact absurd (writes.symm.trans free) (Option.some_ne_none t)
  holds := by
    exact (Function.forall_update_iff s.tasks fun t task => _ ↔ ∃ p, task = .inside p).2
      ⟨(inv.holds t).trans inside, fun t' _ => inv.holds t'⟩

/-- A thread takes the lock for writing. -/
theorem acquireWrite (impl : sys.Implements Split Ready Rep abs F) {d : δ} (here : s.tasks t = .before (.done d))
    (mode : sys.mode (calls t) = .write) (free : s.writer = none) (nobody : s.readers = ∅) :
    ∃ P' v', Interleaved sys calls Split Ready Rep abs F a₀
      { s.goOn t s.mem (.inside (sys.body (calls t) s.mem d)) with writer := some t } P' v' a answers := by
  have ready := inv.threads t
  rw [here] at ready
  obtain ⟨v', split, agree⟩ := impl.write mode inv.split (inv.idle free) ready
  have outside : ∀ t' p, s.tasks t' ≠ .inside p := by
    intro t' p is
    rcases (inv.holds t').2 ⟨p, is⟩ with ⟨writes, -⟩ | ⟨reads, -⟩
    · exact absurd (writes.symm.trans free) (Option.some_ne_none t')
    · rw [nobody] at reads
      exact absurd reads (Finset.notMem_empty t')
  refine ⟨_, v', split, inv.serial, inv.nodup, inv.returned_goOn s.mem ?_ nofun, ?_, fun _ => nobody, nofun, ?_⟩
  · rw [here]
    exact nofun
  · refine (Function.forall_update_iff s.tasks
      (ThreadOk sys calls Split Ready Rep abs F (some t) s.readers (Function.update P t none) v' a)).2
      ⟨?_, fun t' other => (inv.threads t').frame (Function.update_of_ne other ..) ?_⟩
    · refine ⟨impl.tracks _ _ _, fun _ => ⟨rfl, agree⟩, fun read => ?_⟩
      rw [mode] at read
      cases read
    · exact fun p is => absurd is (outside t' p)
  · refine (Function.forall_update_iff s.tasks fun t' task => some t = some t' ∧ _ ∨ t' ∈ s.readers ∧ _ ↔
      ∃ p, task = .inside p).2 ⟨?_, ?_⟩
    · exact iff_of_true (.inl ⟨rfl, mode⟩) ⟨_, rfl⟩
    · intro t' other
      refine iff_of_false ?_ fun is => outside t' _ is.choose_spec
      rintro (⟨same, -⟩ | ⟨reads, -⟩)
      · exact other (Option.some.inj same).symm
      · rw [nobody] at reads
        exact absurd reads (Finset.notMem_empty t')

/-- A thread takes the lock for reading. -/
theorem acquireRead (impl : sys.Implements Split Ready Rep abs F) {d : δ} (here : s.tasks t = .before (.done d))
    (mode : sys.mode (calls t) = .read) (free : s.writer = none) :
    Interleaved sys calls Split Ready Rep abs F a₀
      { s.goOn t s.mem (.inside (sys.body (calls t) s.mem d)) with readers := insert t s.readers } P v a answers := by
  have ready := inv.threads t
  rw [here] at ready
  refine ⟨inv.split, inv.serial, inv.nodup, inv.returned_goOn s.mem ?_ nofun, ?_, fun locked => absurd free locked,
    inv.idle, ?_⟩
  · rw [here]
    exact nofun
  · refine (Function.forall_update_iff s.tasks
      (ThreadOk sys calls Split Ready Rep abs F s.writer (insert t s.readers) P v a)).2
      ⟨?_, fun t' other => (inv.threads t').frame rfl fun p is => ⟨id, Finset.mem_insert_of_mem, rfl, rfl⟩⟩
    refine ⟨impl.tracks _ _ _, fun write => ?_, fun _ => ?_⟩
    · rw [mode] at write
      cases write
    · exact ⟨Finset.mem_insert_self .., impl.readOnly _ _ _ mode, impl.read mode inv.split (inv.idle free) ready⟩
  · refine (Function.forall_update_iff s.tasks fun t' task => s.writer = some t' ∧ _ ∨ t' ∈ insert t s.readers ∧ _ ↔
      ∃ p, task = .inside p).2 ⟨?_, ?_⟩
    · exact iff_of_true (.inr ⟨Finset.mem_insert_self .., mode⟩) ⟨_, rfl⟩
    · intro t' other
      rw [← inv.holds t', Finset.mem_insert]
      simp only [other, false_or]

/-- One more call has returned. -/
theorem serial_snoc {x : α} (answer : abs a (calls t) = .ok (x, a')) :
    Lib.run abs a₀ ((s.order ++ [t]).map calls) = .ok (answers ++ [x], a') := by
  rw [List.map_append, List.map_singleton]
  exact run_snoc_eq_ok.2 ⟨answers, a, x, inv.serial, answer, rfl⟩

theorem notMem_order (under : ∀ x, s.tasks t ≠ .returned x) : t ∉ s.order := by
  rw [inv.mem_order_iff]
  exact fun done => under _ done.choose_spec

/-- A thread releases the lock. -/
theorem release {x : α} (here : s.tasks t = .inside (.done x)) :
    ∃ a', Interleaved sys calls Split Ready Rep abs F a₀ (s.release t x) P v a' (answers ++ [x]) := by
  have under : ∀ y, s.tasks t ≠ .returned y := by
    rw [here]
    exact nofun
  have fresh := inv.notMem_order under
  have ok := inv.threads t
  rw [here] at ok
  obtain ⟨-, writing, reading⟩ := ok
  have order : ∀ t' y, (s.release t x).tasks t' = .returned y ↔ (t', y) ∈ (s.order ++ [t]).zip (answers ++ [x]) := by
    rw [List.zip_append inv.length_answers.symm]
    simp only [List.mem_append]
    refine (Function.forall_update_iff s.tasks fun t' task => ∀ y, task = .returned y ↔
      (t', y) ∈ s.order.zip answers ∨ (t', y) ∈ [t].zip [x]).2 ⟨?_, ?_⟩
    · intro y
      rw [← inv.returned]
      simp [under y, eq_comm]
    · intro t' other y
      rw [← inv.returned]
      simp [other]
  have nodup : (s.order ++ [t]).Nodup :=
    List.nodup_append.2 ⟨inv.nodup, List.nodup_singleton t, fun u mem u' last same =>
      fresh (List.mem_singleton.1 last ▸ same ▸ mem)⟩
  cases mode : sys.mode (calls t) with
  | write =>
    obtain ⟨writes, agree⟩ := writing mode
    obtain ⟨a', answer, rep⟩ := agree.of_ok
    have readers := inv.exclusive (by rw [writes]; exact Option.some_ne_none t)
    refine ⟨a', inv.split, inv.serial_snoc answer, nodup, order, ?_, ?_, fun _ => rep, ?_⟩
    · refine (Function.forall_update_iff s.tasks
        (ThreadOk sys calls Split Ready Rep abs F (s.release t x).writer (s.release t x).readers P v a')).2
        ⟨trivial, fun t' other => (inv.threads t').frame rfl ?_⟩
      exact fun p is => absurd is (inv.not_inside writes other p)
    · intro locked
      exact absurd (if_pos writes) locked
    · refine (Function.forall_update_iff s.tasks fun t' task => (s.release t x).writer = some t' ∧ _ ∨
        t' ∈ (s.release t x).readers ∧ _ ↔ ∃ p, task = .inside p).2 ⟨?_, ?_⟩
      · refine iff_of_false ?_ nofun
        rintro (⟨still, -⟩ | ⟨mem, -⟩)
        · cases (if_pos writes).symm.trans still
        · exact Finset.notMem_erase t _ mem
      · intro t' other
        refine iff_of_false ?_ fun is => inv.not_inside writes other _ is.choose_spec
        rintro (⟨still, -⟩ | ⟨mem, -⟩)
        · cases (if_pos writes).symm.trans still
        · have mem : t' ∈ s.readers := Finset.mem_of_mem_erase mem
          rw [readers] at mem
          exact absurd mem (Finset.notMem_empty t')
  | read =>
    obtain ⟨reads, -, agree⟩ := reading mode
    obtain ⟨a', answer, -, rfl⟩ := agree.of_ok
    have free : s.writer = none := by
      by_contra locked
      rw [inv.exclusive locked] at reads
      exact absurd reads (Finset.notMem_empty t)
    have stays : (s.release t x).writer = s.writer := by
      refine if_neg ?_
      rw [free]
      exact (Option.some_ne_none t).symm
    refine ⟨a', inv.split, inv.serial_snoc answer, nodup, order, ?_, ?_, ?_, ?_⟩
    · rw [stays]
      refine (Function.forall_update_iff s.tasks
        (ThreadOk sys calls Split Ready Rep abs F s.writer (s.readers.erase t) P v a')).2
        ⟨trivial, fun t' other => (inv.threads t').frame rfl ?_⟩
      exact fun p is => ⟨id, Finset.mem_erase_of_ne_of_mem other, rfl, rfl⟩
    · rw [stays]
      exact fun locked => absurd free locked
    · rw [stays]
      exact inv.idle
    · rw [stays]
      refine (Function.forall_update_iff s.tasks fun t' task => s.writer = some t' ∧ _ ∨ t' ∈ s.readers.erase t ∧ _ ↔
        ∃ p, task = .inside p).2 ⟨?_, ?_⟩
      · refine iff_of_false ?_ nofun
        rintro (⟨still, -⟩ | ⟨mem, -⟩)
        · cases free.symm.trans still
        · exact Finset.notMem_erase t _ mem
      · intro t' other
        rw [← inv.holds t']
        show _ ∨ t' ∈ s.readers.erase t ∧ _ ↔ _
        rw [Finset.mem_erase, and_iff_right other]

/-- An action under the lock does what it does to the public part, or the call faults. -/
theorem act (impl : sys.Implements Split Ready Rep abs F) {β : Type} {f : σ → Except ε (β × σ)} {next : β → Prog σ ε α}
    (here : s.tasks t = .inside (.act f next)) :
    (∃ b m' v', f s.mem = .ok (b, m') ∧
      Interleaved sys calls Split Ready Rep abs F a₀ (s.goOn t m' (.inside (next b))) P v' a answers) ∨
    ∃ e, f s.mem = .error e ∧ abs a (calls t) = .error e := by
  have ok := inv.threads t
  rw [here] at ok
  obtain ⟨tracks, writing, reading⟩ := ok
  have fault : ∀ e, f v = .error e → Prog.run (.act f next) v = .error e := by
    intro e failed
    rw [Prog.run, failed]
  rcases (tracks P).1 s.mem v inv.split with ⟨b, m', v', result, done, split⟩ | ⟨e, result, failed⟩
  case inr =>
    have abstract : abs a (calls t) = .error e := by
      cases mode : sys.mode (calls t) with
      | write =>
        have agree := (writing mode).2
        rw [fault e result] at agree
        exact agree.of_error
      | read =>
        have agree := (reading mode).2.2
        rw [fault e result] at agree
        exact agree.of_error
    exact .inr ⟨e, failed (impl.faults _ _ _ abstract), abstract⟩
  case inl =>
    have rest : Prog.run (.act f next) v = (next b).run v' := by rw [Prog.run, result]
    rw [rest] at writing reading
    have before : ∀ x, s.tasks t ≠ .returned x := by
      rw [here]
      exact nofun
    refine .inl ⟨b, m', v', done, inv.goOn split (fun _ _ => rfl) before nofun ?_ ?_ ?_⟩
    · exact iff_of_true ⟨_, here⟩ ⟨_, rfl⟩
    · refine ⟨fun P => (tracks P).2 b, writing, fun mode => ?_⟩
      obtain ⟨reads, readOnly, agree⟩ := reading mode
      rw [readOnly.1 v b v' result] at agree ⊢
      exact ⟨reads, readOnly.2 b, agree⟩
    · cases mode : sys.mode (calls t) with
      | write => exact .inr (writing mode).1
      | read => exact .inl ((reading mode).2.1.1 v b v' result)

/-- One action keeps the invariant, or it is the fault of the call that comes next. -/
theorem step (impl : sys.Implements Split Ready Rep abs F) (t : ι) :
    (∃ s', s.step sys calls t = .ok s' ∧ ∃ P' v' a' answers',
      Interleaved sys calls Split Ready Rep abs F a₀ s' P' v' a' answers') ∨
    ∃ e, s.step sys calls t = .error e ∧ t ∉ s.order ∧ abs a (calls t) = .error e := by
  cases here : s.tasks t with
  | returned x =>
    rw [LockState.step, here]
    exact .inl ⟨s, rfl, P, v, a, answers, inv⟩
  | before p =>
    have before : ∀ x, s.tasks t ≠ .returned x := by
      rw [here]
      exact nofun
    cases p with
    | act f next =>
      have prepares := inv.threads t
      rw [here] at prepares
      obtain ⟨goes, fails⟩ := prepares s.mem P v t inv.split rfl
      cases result : f s.mem with
      | error e =>
        refine .inr ⟨e, ?_, inv.notMem_order before, fails e result a⟩
        simp only [LockState.step, here, result]
      | ok r =>
        obtain ⟨b, m'⟩ := r
        obtain ⟨o', split, prepares⟩ := goes b m' result
        have goOn : s.step sys calls t = .ok (s.goOn t m' (.before (next b))) := by
          simp only [LockState.step, here, result]
        refine .inl ⟨_, goOn, _, v, a, answers,
          inv.goOn split (fun t' other => Function.update_of_ne other ..) before nofun ?_ ?_ (.inl rfl)⟩
        · rw [here]
          exact iff_of_false nofun nofun
        · show Prepares Split Ready abs (calls t) (Function.update P t o' t) (next b)
          rw [Function.update_self]
          exact prepares
    | done d =>
      rw [LockState.step, here]
      refine .inl ⟨_, rfl, ?_⟩
      cases mode : sys.mode (calls t) with
      | write =>
        rw [LockState.acquire]
        split
        · next free =>
          obtain ⟨P', v', inv'⟩ := inv.acquireWrite impl here mode free.1 free.2
          exact ⟨P', v', a, answers, inv'⟩
        · exact ⟨P, v, a, answers, inv⟩
      | read =>
        rw [LockState.acquire]
        split
        · next free => exact ⟨P, v, a, answers, inv.acquireRead impl here mode free⟩
        · exact ⟨P, v, a, answers, inv⟩
  | inside p =>
    cases p with
    | act f next =>
      rcases inv.act impl here with ⟨b, m', v', result, inv'⟩ | ⟨e, result, fault⟩
      · refine .inl ⟨_, ?_, P, v', a, answers, inv'⟩
        simp only [LockState.step, here, result]
      · refine .inr ⟨e, ?_, inv.notMem_order ?_, fault⟩
        · simp only [LockState.step, here, result]
        · rw [here]
          exact nofun
    | done x =>
      rw [LockState.step, here]
      obtain ⟨a', inv'⟩ := inv.release here
      exact .inl ⟨_, rfl, P, v, a', _, inv'⟩

/-- Every state that the threads reach together is that of calls made one after the other. -/
theorem run (impl : sys.Implements Split Ready Rep abs F) {ts : List ι} {s' : LockState ι σ ε δ α}
    (acts : s.run sys calls ts = .ok s') :
    ∃ P' v' a' answers', Interleaved sys calls Split Ready Rep abs F a₀ s' P' v' a' answers' := by
  induction ts generalizing s P v a answers with
  | nil =>
    cases acts
    exact ⟨P, v, a, answers, inv⟩
  | cons t ts ih =>
    obtain ⟨s₁, first, rest⟩ := LockState.run_cons_eq_ok.1 acts
    rcases inv.step impl t with ⟨s₂, first', P₂, v₂, a₂, answers₂, inv₂⟩ | ⟨e, failed, -⟩
    · cases first.symm.trans first'
      exact ih inv₂ rest
    · cases first.symm.trans failed

/-- A fault is the one that a call has after those that have returned. -/
theorem fault (impl : sys.Implements Split Ready Rep abs F) {ts : List ι} {e : ε} (acts : s.run sys calls ts = .error e) :
    ∃ order answers a t, Lib.run abs a₀ (order.map calls) = .ok (answers, a) ∧ (order ++ [t]).Nodup ∧
      abs a (calls t) = .error e := by
  induction ts generalizing s P v a answers with
  | nil => cases acts
  | cons t ts ih =>
    rw [LockState.run] at acts
    rcases inv.step impl t with ⟨s₁, first, P₁, v₁, a₁, answers₁, inv₁⟩ | ⟨e', first, fresh, failed⟩
    · rw [first] at acts
      exact ih inv₁ acts
    · rw [first] at acts
      cases acts
      refine ⟨s.order, answers, a, t, inv.serial, ?_, failed⟩
      exact List.nodup_append.2 ⟨inv.nodup, List.nodup_singleton t, fun u mem u' last same =>
        fresh (List.mem_singleton.1 last ▸ same ▸ mem)⟩

end Interleaved

end Interleaved

end Lib
