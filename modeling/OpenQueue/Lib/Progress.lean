import OpenQueue.Lib.Lock

/-!
# No call waits forever for the lock

Whatever the threads have done so far, each of them can still be brought to return, or a
call faults: the threads that have the lock only have to go on, since none of them takes
it twice. This holds of all calls, and needs nothing of what they do.
-/

namespace Lib

namespace LockState

variable {ι σ ε κ δ α : Type} [DecidableEq ι] {sys : LockedCalls σ ε κ δ α} {calls : ι → κ}
  {s s' : LockState ι σ ε δ α} {t : ι} {ts us : List ι} {Q R : LockState ι σ ε δ α → Prop}

theorem run_append (h : s.run sys calls ts = .ok s') : s.run sys calls (ts ++ us) = s'.run sys calls us := by
  induction ts generalizing s with
  | nil =>
    cases h
    rfl
  | cons t ts ih =>
    obtain ⟨s₁, first, rest⟩ := run_cons_eq_ok.1 h
    rw [List.cons_append, run, first]
    exact ih rest

/-! ## What can be reached -/

/-- Some order of actions leads to a state with `Q`, or to a fault. -/
inductive CanReach (sys : LockedCalls σ ε κ δ α) (calls : ι → κ) (Q : LockState ι σ ε δ α → Prop) :
    LockState ι σ ε δ α → Prop
  | here {s : LockState ι σ ε δ α} (h : Q s) : CanReach sys calls Q s
  | fault {s : LockState ι σ ε δ α} (t : ι) (e : ε) (h : s.step sys calls t = .error e) : CanReach sys calls Q s
  | step {s s' : LockState ι σ ε δ α} (t : ι) (h : s.step sys calls t = .ok s') (rest : CanReach sys calls Q s') :
    CanReach sys calls Q s

theorem CanReach.trans (first : CanReach sys calls Q s) (next : ∀ s', Q s' → CanReach sys calls R s') :
    CanReach sys calls R s := by
  induction first with
  | here h => exact next _ h
  | fault t e h => exact .fault t e h
  | step t h _ ih => exact .step t h ih

/-- The order of the actions. -/
theorem CanReach.exists_run (reach : CanReach sys calls Q s) :
    (∃ ts s', s.run sys calls ts = .ok s' ∧ Q s') ∨ ∃ ts e, s.run sys calls ts = .error e := by
  induction reach with
  | here h => exact .inl ⟨[], _, rfl, h⟩
  | fault t e h => exact .inr ⟨[t], e, by rw [run, h]⟩
  | step t h _ ih =>
    rcases ih with ⟨ts, s', acts, q⟩ | ⟨ts, e, acts⟩
    · exact .inl ⟨t :: ts, s', by rw [run, h]; exact acts, q⟩
    · exact .inr ⟨t :: ts, e, by rw [run, h]; exact acts⟩

/-! ## Who has the lock -/

/-- The threads that have the lock. -/
def holders (s : LockState ι σ ε δ α) : Finset ι := s.writer.toFinset ∪ s.readers

theorem free_iff : s.holders = ∅ ↔ s.writer = none ∧ s.readers = ∅ := by
  rw [holders, Finset.union_eq_empty]
  cases s.writer <;> simp

theorem holders_release (x : α) : (s.release t x).holders ⊆ s.holders.erase t := by
  intro t' mem
  simp only [holders, release, goOn, Finset.mem_union, Option.mem_toFinset, Option.mem_def, Finset.mem_erase] at mem ⊢
  rcases mem with writes | ⟨other, reads⟩
  · split at writes
    · cases writes
    · next another => exact ⟨fun same => another (same ▸ writes), .inl writes⟩
  · exact ⟨other, .inr reads⟩

theorem holders_acquire (body : Prog σ ε α) (mode : LockMode) :
    s.acquire t body mode = s ∨ (s.acquire t body mode).tasks = Function.update s.tasks t (.inside body) ∧
      (s.acquire t body mode).holders ⊆ insert t s.holders := by
  cases mode with
  | read =>
    rw [acquire]
    split
    · refine .inr ⟨rfl, fun t' mem => ?_⟩
      simp only [holders, goOn, Finset.mem_union, Finset.mem_insert] at mem ⊢
      tauto
    · exact .inl rfl
  | write =>
    rw [acquire]
    split
    · refine .inr ⟨rfl, fun t' mem => ?_⟩
      simp only [holders, goOn, Finset.mem_union, Option.mem_toFinset, Option.mem_def, Option.some.injEq,
        Finset.mem_insert] at mem ⊢
      tauto
    · exact .inl rfl

/-- The threads that have the lock are inside. -/
def Held (s : LockState ι σ ε δ α) : Prop := ∀ t ∈ s.holders, ∃ p, s.tasks t = .inside p

theorem held_start (m : σ) : (start sys calls m).Held := by
  intro t mem
  exact absurd mem (Finset.notMem_empty t)

theorem Held.notMem_holders (held : s.Held) {p : Prog σ ε δ} (here : s.tasks t = .before p) : t ∉ s.holders := by
  intro mem
  obtain ⟨q, is⟩ := held t mem
  cases here.symm.trans is

/-- One thread goes on. If it then has the lock, it is inside. -/
theorem Held.update (held : s.Held) {task : LockTask σ ε δ α} (tasks : s'.tasks = Function.update s.tasks t task)
    (others : ∀ t' ∈ s'.holders, t' ≠ t → t' ∈ s.holders) (here : t ∈ s'.holders → ∃ p, task = .inside p) : s'.Held := by
  intro t' mem
  rw [tasks]
  by_cases same : t' = t
  · rw [same, Function.update_self]
    exact here (same ▸ mem)
  · rw [Function.update_of_ne same]
    exact held t' (others t' mem same)

theorem Held.step (held : s.Held) (h : s.step sys calls t = .ok s') : s'.Held := by
  cases step_acts h with
  | before here _ => exact held.update rfl (fun _ mem _ => mem) fun mem => absurd mem (held.notMem_holders here)
  | acquire here =>
    rcases holders_acquire (s := s) (t := t) (sys.body (calls t) s.mem _) (sys.mode (calls t)) with same | ⟨tasks, sub⟩
    · rw [same]
      exact held
    · refine held.update tasks (fun t' mem other => ?_) fun _ => ⟨_, rfl⟩
      exact Finset.mem_of_mem_insert_of_ne (sub mem) other
  | inside _ _ => exact held.update rfl (fun _ mem _ => mem) fun _ => ⟨_, rfl⟩
  | release _ =>
    refine held.update rfl (fun t' mem _ => ?_) fun mem => ?_
    · exact Finset.mem_of_mem_erase (holders_release _ mem)
    · exact absurd (holders_release _ mem) (Finset.notMem_erase t _)
  | idle _ => exact held

theorem Held.run (held : s.Held) (h : s.run sys calls ts = .ok s') : s'.Held := by
  induction ts generalizing s with
  | nil =>
    cases h
    exact held
  | cons t ts ih =>
    obtain ⟨s₁, first, rest⟩ := run_cons_eq_ok.1 h
    exact ih (held.step first) rest

/-! ## One thread goes on -/

/-- The other threads stay where they are, and no more of them have the lock. -/
def Passes (s s' : LockState ι σ ε δ α) (t : ι) : Prop :=
  ∀ t', t' ≠ t → s'.tasks t' = s.tasks t' ∧ (t' ∈ s'.holders → t' ∈ s.holders)

theorem passes_goOn (m : σ) (task : LockTask σ ε δ α) : s.Passes (s.goOn t m task) t :=
  fun _ other => ⟨Function.update_of_ne other .., id⟩

theorem Passes.trans {s'' : LockState ι σ ε δ α} (first : s.Passes s' t) (next : s'.Passes s'' t) : s.Passes s'' t :=
  fun t' other => ⟨(next t' other).1.trans (first t' other).1, (first t' other).2 ∘ (next t' other).2⟩

/-- A thread that has the lock gives it back. -/
theorem canReach_leave {p : Prog σ ε α} (here : s.tasks t = .inside p) :
    CanReach sys calls (fun s' => (∃ x, s'.tasks t = .returned x) ∧ s.Passes s' t ∧ t ∉ s'.holders) s := by
  induction p generalizing s with
  | done x =>
    have acts : s.step sys calls t = .ok (s.release t x) := by rw [step, here]
    refine .step t acts (.here ⟨⟨x, Function.update_self ..⟩, ?_, ?_⟩)
    · exact fun t' other => ⟨Function.update_of_ne other .., fun mem => Finset.mem_of_mem_erase (holders_release x mem)⟩
    · exact fun mem => absurd (holders_release x mem) (Finset.notMem_erase t _)
  | act f next ih =>
    cases result : f s.mem with
    | error e =>
      apply CanReach.fault t e
      simp only [step, here, result]
    | ok r =>
      have acts : s.step sys calls t = .ok (s.goOn t r.2 (.inside (next r.1))) := by simp only [step, here, result]
      refine .step t acts ((ih r.1 (Function.update_self ..)).trans fun s' after => .here ?_)
      obtain ⟨returned, passes, out⟩ := after
      exact ⟨returned, (passes_goOn _ _).trans passes, out⟩

/-- A thread comes to the point where it takes the lock. -/
theorem canReach_arrive {p : Prog σ ε δ} (here : s.tasks t = .before p) :
    CanReach sys calls (fun s' => (∃ d, s'.tasks t = .before (.done d)) ∧ s'.holders = s.holders) s := by
  induction p generalizing s with
  | done d => exact .here ⟨⟨d, here⟩, rfl⟩
  | act f next ih =>
    cases result : f s.mem with
    | error e =>
      apply CanReach.fault t e
      simp only [step, here, result]
    | ok r =>
      have acts : s.step sys calls t = .ok (s.goOn t r.2 (.before (next r.1))) := by simp only [step, here, result]
      exact .step t acts ((ih r.1 (Function.update_self ..)).trans fun s' after => .here after)

/-- The lock is free, and a thread takes it. -/
theorem canReach_enter {d : δ} (here : s.tasks t = .before (.done d)) (free : s.holders = ∅) :
    CanReach sys calls (fun s' => ∃ p, s'.tasks t = .inside p) s := by
  obtain ⟨unlocked, nobody⟩ := free_iff.1 free
  have acts : s.step sys calls t = .ok (s.acquire t (sys.body (calls t) s.mem d) (sys.mode (calls t))) := by
    rw [step, here]
  refine .step t acts (.here ⟨sys.body (calls t) s.mem d, ?_⟩)
  cases sys.mode (calls t) with
  | read =>
    rw [acquire, if_pos unlocked]
    exact Function.update_self ..
  | write =>
    rw [acquire, if_pos ⟨unlocked, nobody⟩]
    exact Function.update_self ..

/-! ## Every thread returns -/

/-- The threads that have the lock give it back, one after the other; a thread that has not
stays where it is. -/
theorem canReach_free (held : s.Held) (outside : t ∉ s.holders) :
    CanReach sys calls (fun s' => s'.tasks t = s.tasks t ∧ s'.holders = ∅) s := by
  induction size : s.holders.card using Nat.strong_induction_on generalizing s with
  | _ n ih =>
    rcases Finset.eq_empty_or_nonempty s.holders with free | ⟨u, has⟩
    · exact .here ⟨rfl, free⟩
    · obtain ⟨p, inside⟩ := held u has
      refine (canReach_leave inside).trans fun s' after => ?_
      obtain ⟨-, passes, out⟩ := after
      have other : t ≠ u := fun same => outside (same ▸ has)
      have old : ∀ t' ∈ s'.holders, t' ≠ u ∧ t' ∈ s.holders := by
        intro t' mem
        have apart : t' ≠ u := fun same => out (same ▸ mem)
        exact ⟨apart, (passes t' apart).2 mem⟩
      have fewer : s'.holders.card < n := by
        rw [← size]
        refine Finset.card_lt_card ⟨fun t' mem => (old t' mem).2, fun sub => out (sub has)⟩
      have held' : s'.Held := by
        intro t' mem
        obtain ⟨apart, before⟩ := old t' mem
        rw [(passes t' apart).1]
        exact held t' before
      refine (ih _ fewer held' (fun mem => outside (old t mem).2) rfl).trans fun s'' freed => .here ?_
      exact ⟨freed.1.trans (passes t other).1, freed.2⟩

/-- Every thread can be brought to return, unless a call faults. -/
theorem canReach_returned (held : s.Held) (t : ι) : CanReach sys calls (fun s' => ∃ x, s'.tasks t = .returned x) s := by
  cases here : s.tasks t with
  | returned x => exact .here ⟨x, here⟩
  | inside p => exact (canReach_leave here).trans fun s' after => .here after.1
  | before p =>
    refine (canReach_free held (held.notMem_holders here)).trans fun s₁ ⟨same, free⟩ => ?_
    refine (canReach_arrive (same.trans here)).trans fun s₂ ⟨⟨d, arrived⟩, still⟩ => ?_
    refine (canReach_enter arrived (still.trans free)).trans fun s₃ ⟨q, inside⟩ => ?_
    exact (canReach_leave inside).trans fun s₄ after => .here after.1

end LockState

end Lib
