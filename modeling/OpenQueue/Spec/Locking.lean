import OpenQueue.Lib.Progress
import OpenQueue.Sim.Locking
import OpenQueue.Spec.Policies

/-!
# Policy modules and qdiscs at the same time

Modules register and unregister their policies while qdiscs look names up, each in a
thread of its own, and the accesses to memory are mixed in any way. Because of
`oq_policy_lock` the calls come out as if they were made one after the other, in the
order in which they released it; a thread that fills its container before it has the
lock disturbs nobody. No call uses a container that another one has freed, and none waits
forever.
-/

namespace OpenQueue

namespace Registry

variable {φ ι : Type} [DecidableEq φ] [DecidableEq ι] {r : Registry φ} {calls : ι → Access φ}

/-- The threads of a machine that has the registry `r`. -/
abbrev Threads (φ ι : Type) := Lib.LockState ι (Registry φ) Fault (Option Addr) (Option φ)

/-- What the threads have done so far is what their calls do one after the other. -/
structure Serial (r : Registry φ) (calls : ι → Access φ) (s : Threads φ ι) (answers : List (Option φ))
    (r' : Registry φ) : Prop where
  run : Lib.run access r (s.order.map calls) = .ok (answers, r')
  once : s.order.Nodup
  returned : ∀ t x, s.tasks t = .returned x ↔ (t, x) ∈ s.order.zip answers
  policies : s.writer = none → s.mem.policies = r'.policies

omit [DecidableEq ι] in
/-- Calls on the list and in memory, one after the other. -/
theorem run_access_agree (init : r.Initial) (ks : List (Access φ)) :
    Lib.Agree Holds (Lib.run access r ks) (Lib.run listAccess [] ks) :=
  Lib.run_agree access_agree ⟨[], 0, .initial init⟩

/-- The threads begin on an empty list. -/
theorem interleaved_start (init : r.Initial) (calls : ι → Access φ) :
    Lib.Interleaved locked calls Split Ready Holds listAccess Seen [] (.start locked calls r) (fun _ => none) r [] [] :=
  .start locked_implements (Split.start init) ⟨[], 0, .initial init⟩

/-- However the threads are mixed, their calls have done what they do one after the other,
in the order in which they released the lock, and later calls come later in it. -/
theorem threads_are_serial (init : r.Initial) (calls : ι → Access φ) {ts : List ι} {s : Threads φ ι}
    (acts : (Lib.LockState.start locked calls r).run locked calls ts = .ok s) :
    (∃ answers r', Serial r calls s answers r') ∧
      ∀ us s', s.run locked calls us = .ok s' → s.order <+: s'.order := by
  obtain ⟨P, v, l, answers, inv⟩ := (interleaved_start init calls).run locked_implements acts
  have agree := run_access_agree init (s.order.map calls)
  rw [inv.serial] at agree
  obtain ⟨r', run, ends⟩ := agree.of_ok_right
  refine ⟨⟨answers, r', run, inv.nodup, inv.returned, fun free => ?_⟩, fun us s' => Lib.LockState.run_order⟩
  obtain ⟨cells, C, repr⟩ := inv.split.holds (inv.idle free)
  obtain ⟨cells', C', repr'⟩ := ends
  rw [repr.policies_eq, repr'.policies_eq]

/-- A module registers a policy while a qdisc looks for one. -/
def racers : Bool → Access Nat
  | true => .register (some (.zero _)) ⟨[97], noNul_a⟩ 1
  | false => .lookup (NameBuf.copy (.zero _) ⟨[97], noNul_a⟩)

/-- The module has the lock before the qdisc tries to take it. -/
theorem racers_serial :
    ∃ s, (Lib.LockState.start locked racers blank).run locked racers
        (.replicate 6 true ++ (List.replicate 12 [false, true]).flatten) = .ok s ∧ s.order = [true, false] ∧
      ∃ answers r', Serial blank racers s answers r' := by
  obtain ⟨s, run, order⟩ := Lib.LockState.exists_of_ends
    (P := fun s : Threads Nat Bool => s.order = [true, false])
    (r := (Lib.LockState.start locked racers blank).run locked racers
      (.replicate 6 true ++ (List.replicate 12 [false, true]).flatten)) (by decide +kernel)
  exact ⟨s, run, of_decide_eq_true order, (threads_are_serial ⟨rfl, rfl⟩ racers run).1⟩

/-- Some of the calls, made one after the other, fault. -/
def SerialFault (r : Registry φ) (calls : ι → Access φ) (e : Fault) : Prop :=
  ∃ order : List ι, order.Nodup ∧ Lib.run access r (order.map calls) = .error e

omit [DecidableEq ι] in
/-- A call that faults on the list, after others, faults after them in memory. -/
theorem serialFault_of_list (init : r.Initial) {order : List ι} {t : ι} {answers : List (Option φ)} {l : List (Policy φ)}
    {e : Fault} (serial : Lib.run listAccess [] (order.map calls) = .ok (answers, l)) (once : (order ++ [t]).Nodup)
    (failed : listAccess l (calls t) = .error e) : SerialFault r calls e := by
  refine ⟨order ++ [t], once, ?_⟩
  have agree := run_access_agree init (order.map calls ++ [calls t])
  rw [Lib.run_snoc_of_error serial failed] at agree
  rw [List.map_append, List.map_singleton]
  exact agree.of_error_right

/-- A fault of the threads is one that their calls have one after the other, and never that
of a freed container or of a loop without end. -/
theorem threads_fault (init : r.Initial) (calls : ι → Access φ) {ts : List ι} {e : Fault}
    (acts : (Lib.LockState.start locked calls r).run locked calls ts = .error e) :
    SerialFault r calls e ∧ ListFault e := by
  obtain ⟨order, answers, l, t, serial, once, failed⟩ := (interleaved_start init calls).fault locked_implements acts
  exact ⟨serialFault_of_list init serial once failed, listAccess_fault failed⟩

/-- The qdisc looks at the empty list while the module fills its container. -/
theorem racers_fault :
    (Lib.LockState.start locked racers blank).run locked racers [true, false, true, false, false] = .error .nullDeref ∧
      SerialFault blank racers .nullDeref ∧ ListFault .nullDeref := by
  have run : (Lib.LockState.start locked racers blank).run locked racers [true, false, true, false, false] =
    .error .nullDeref := rfl
  exact ⟨run, threads_fault ⟨rfl, rfl⟩ racers run⟩

/-- Whatever has happened, the threads can go on until a call returns, unless they fault
on the way, as their calls do one after the other. -/
theorem threads_return (init : r.Initial) (calls : ι → Access φ) {ts : List ι} {s : Threads φ ι}
    (acts : (Lib.LockState.start locked calls r).run locked calls ts = .ok s) (t : ι) :
    (∃ us s' x, s.run locked calls us = .ok s' ∧ s'.tasks t = .returned x) ∨
      ∃ us e, s.run locked calls us = .error e ∧ SerialFault r calls e := by
  have held := (Lib.LockState.held_start r).run acts
  rcases (Lib.LockState.canReach_returned held t).exists_run with ⟨us, s', goes, x, returned⟩ | ⟨us, e, fails⟩
  · exact .inl ⟨us, s', x, goes, returned⟩
  · have whole := fails
    rw [← Lib.LockState.run_append acts] at whole
    obtain ⟨order, answers, l, u, serial, once, failed⟩ := (interleaved_start init calls).fault locked_implements whole
    exact .inr ⟨us, e, fails, serialFault_of_list init serial once failed⟩

/-- The module has the lock, and the qdisc waits for it. -/
theorem racers_return :
    ∃ s, (Lib.LockState.start locked racers blank).run locked racers (.replicate 6 true ++ [false]) = .ok s ∧
      ((∃ us s' x, s.run locked racers us = .ok s' ∧ s'.tasks false = .returned x) ∨
        ∃ us e, s.run locked racers us = .error e ∧ SerialFault blank racers e) := by
  obtain ⟨s, run, -⟩ := Lib.LockState.exists_of_ends (P := fun _ : Threads Nat Bool => true)
    (r := (Lib.LockState.start locked racers blank).run locked racers (.replicate 6 true ++ [false])) (by decide +kernel)
  exact ⟨s, run, threads_return ⟨rfl, rfl⟩ racers run false⟩

end Registry

end OpenQueue
