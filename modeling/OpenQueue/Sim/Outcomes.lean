import OpenQueue.Sim.Effects
import OpenQueue.Sim.Observe

/-!
# What a call leaves behind, whatever its insertions return

Reachable states in general: insertions may run out of memory and a packet may be
handed in twice, so the two trees of a queue need not hold the same packets. An
insertion is needed only where the bucket is new, and the packet that a tail drop or a
dequeue takes first may be missing in the other tree.
-/

namespace OpenQueue

variable {Ω π : Type}

/-- The result of one of the two insertions. -/
def Inserts.side (ins : Inserts) : Side → Bool
  | .admn => ins.admn
  | .proc => ins.proc

/-- The key of a packet in one of the two trees. -/
def Callbacks.key (cb : Callbacks Ω π) (ω : Ω) (queue : QueueInfo) (skb : SkBuff π) : Side → Key
  | .admn => cb.admnFn ω queue skb
  | .proc => cb.procFn ω queue skb

/-- The other tree. -/
def Side.other : Side → Side
  | .admn => .proc
  | .proc => .admn

/-- What `do_enqueue` writes into the container of one tree. -/
def Callbacks.item (cb : Callbacks Ω π) (ω : Ω) (queue : QueueInfo) (skb : SkBuff π) (t : Side) : Item π :=
  ⟨cb.key ω queue skb t, cb.key ω queue skb t.other, skb⟩

/-- The states of a port: any calls, of the qdisc or of the queue functions alone, from
an initialised port. -/
inductive Port.Reachable (cb : Callbacks Ω π) : Port π → Prop
  | initialised {p : Port π} : p.Initialised → Reachable cb p
  | step {p p' : Port π} {op : Op Ω π} {out : Out π} : Reachable cb p → p.step cb op = .ok (out, p') → Reachable cb p'
  | call {p p' : Port π} {c : Call Ω π} {out : Out π} : Reachable cb p → p.call cb c = .ok (out, p') → Reachable cb p'

theorem Port.Reachable.holds {cb : Callbacks Ω π} {p : Port π} (reach : Port.Reachable cb p) : ∃ s, Holds p s := by
  induction reach with
  | initialised init => exact ⟨_, _, _, _, PortRepr.initial init⟩
  | @step p p' op out _ run ih =>
    obtain ⟨s, holds⟩ := ih
    have agree := step_agree cb p s op holds
    rw [run] at agree
    obtain ⟨s', -, holds'⟩ := agree.of_ok
    exact ⟨s', holds'⟩
  | @call p p' c out _ run ih =>
    obtain ⟨s, holds⟩ := ih
    have agree := call_agree cb p s c holds
    rw [run] at agree
    obtain ⟨s', -, holds'⟩ := agree.of_ok
    exact ⟨s', holds'⟩

/-! ## Insertions -/

/-- Each of the two insertions of a `do_enqueue` succeeds, or is not needed. -/
def Port.Inserted (cb : Callbacks Ω π) (p : Port π) (i : QId) (ω : Ω) (ins : Inserts) (skb : SkBuff π) : Prop :=
  ∀ t, ins.side t = true ∨ p.bucket i t (cb.key ω (p.infos i) skb t) ≠ []

namespace Index

theorem hasKey_eq_true_iff {l : List (Item π)} {k : Key} : hasKey l k = true ↔ bucket l k ≠ [] := by
  rw [ne_eq, ← hasKey_eq_false_iff, Bool.not_eq_false]

/-- A tree with a node pool. -/
theorem add_ready (ins : Bool) (l : List (Item π)) (x : Item π) :
    add true ins l x = .ok (if ins = true ∨ bucket l x.key ≠ [] then l ++ [x] else l) := by
  unfold add
  cases has : hasKey l x.key with
  | true => simp [hasKey_eq_true_iff.1 has]
  | false => cases ins <;> simp [hasKey_eq_false_iff.1 has]

end Index

namespace ListQueue

variable {a a' : ListQueue π} {cb : Callbacks Ω π} {ω : Ω} {ins : Inserts} {skb : SkBuff π}

/-- `do_enqueue` adds to each list what its insertion lets it. -/
theorem side_doEnqueue (ready : a.ready = true) (h : a.doEnqueue cb ω ins skb = .ok a') (t : Side) :
    a'.side t = if ins.side t = true ∨ Index.bucket (a.side t) (cb.key ω a.toQueueInfo skb t) ≠ [] then
      a.side t ++ [cb.item ω a.toQueueInfo skb t] else a.side t := by
  obtain ⟨first, second, -⟩ := doEnqueue_ok h
  rw [ready, Index.add_ready] at first second
  cases t with
  | admn => exact (Except.ok.inj first).symm
  | proc => exact (Except.ok.inj second).symm

theorem doEnqueue_of_ready (ready : a.ready = true) (cb : Callbacks Ω π) (ω : Ω) (ins : Inserts) (skb : SkBuff π) :
    ∃ a', a.doEnqueue cb ω ins skb = .ok a' := by
  simp only [doEnqueue, ready, Index.add_ready]
  exact ⟨_, rfl⟩

end ListQueue

/-! ## Pairs -/

/-- The container that is taken first from tree `t`. -/
def Port.Top (p : Port π) (i : QId) (t : Side) (x : Item π) : Prop :=
  ∃ k, (p.bucket i t k).head? = some x ∧ ∀ k', k < k' → p.bucket i t k' = []

/-- Its packet is in tree `t'` too, under its `other_key`. -/
def Port.TopPaired (p : Port π) (i : QId) (t t' : Side) : Prop :=
  ∃ x, p.Top i t x ∧ ∃ y ∈ p.bucket i t' x.otherKey, y.skb.addr = x.skb.addr

/-- The same on lists. -/
def Index.Paired (l l' : List (Item π)) : Prop :=
  ∃ e rest, Index.takeMax l = some (e, rest) ∧ ∃ y ∈ Index.bucket l' e.otherKey, y.skb.addr = e.skb.addr

namespace PortRepr

variable {p : Port π} {g : QId → QLayout} {C L : Multiset Addr} {s : ListPort π}

theorem top_iff (repr : PortRepr p g C L s) (i : QId) (t : Side) (x : Item π) :
    p.Top i t x ↔ ∃ rest, Index.takeMax ((s.queues i).side t) = some (x, rest) := by
  simp only [Port.Top, repr.bucket]
  constructor
  · rintro ⟨k, first, greatest⟩
    exact Lib.takeMax_of_filter (f := Item.key) first greatest
  · rintro ⟨rest, taken⟩
    obtain ⟨e, best, same⟩ := Option.map_eq_some_iff.1 taken
    cases same
    obtain ⟨others, split⟩ := Lib.filter_argmax best
    refine ⟨x.key, ?_, ?_⟩
    · rw [Index.bucket, split]
      rfl
    · intro k' greater
      refine List.filter_eq_nil_iff.2 fun y hy => ?_
      have below := List.le_of_mem_argmax hy best
      simpa using (lt_of_le_of_lt below greater).ne

theorem topPaired_iff (repr : PortRepr p g C L s) (i : QId) (t t' : Side) :
    p.TopPaired i t t' ↔ Index.Paired ((s.queues i).side t) ((s.queues i).side t') := by
  simp only [Port.TopPaired, Index.Paired, repr.top_iff, repr.bucket, exists_and_right]

end PortRepr

namespace Index

variable {l l' rest : List (Item π)} {e : Item π}

theorem not_paired_of_none (none : takeMax l = none) : ¬ Paired l l' := by
  rintro ⟨e, rest, taken, -⟩
  rw [none] at taken
  cases taken

theorem paired_iff (top : takeMax l = some (e, rest)) :
    Paired l l' ↔ ∃ y ∈ bucket l' e.otherKey, y.skb.addr = e.skb.addr := by
  constructor
  · rintro ⟨e', rest, taken, other⟩
    rw [top] at taken
    cases taken
    exact other
  · intro other
    exact ⟨e, rest, top, other⟩

theorem not_paired_of_empty (top : takeMax l = some (e, rest)) (empty : bucket l' e.otherKey = []) :
    ¬ Paired l l' := by
  rw [paired_iff top, empty]
  rintro ⟨y, hy, -⟩
  cases hy

theorem not_paired_of_differ (top : takeMax l = some (e, rest))
    (differ : ∀ x ∈ bucket l' e.otherKey, x.skb.addr ≠ e.skb.addr) : ¬ Paired l l' := by
  rw [paired_iff top]
  rintro ⟨y, hy, same⟩
  exact differ y hy same

end Index

namespace ListQueue

variable (a : ListQueue π)

/-- A tail drop goes through and is counted exactly if it finds its packet in both trees;
otherwise `proc_q` and the counters stay. -/
theorem doDropTail_paired : Index.Paired a.admn a.proc ∧ a.doDropTail.1 = .dropped ∧
      a.doDropTail.2.2.toQueueInfo = { a.toQueueInfo with dropped := a.dropped + 1 } ∨
    ¬ Index.Paired a.admn a.proc ∧ a.doDropTail.2.2.proc = a.proc ∧
      a.doDropTail.2.2.toQueueInfo = a.toQueueInfo := by
  rcases a.doDropTail_cases with ⟨none, exit⟩ | ⟨e, admn, top, half⟩
  · rw [exit]
    exact .inr ⟨Index.not_paired_of_none none, rfl, rfl⟩
  · rcases half with ⟨empty, exit⟩ | ⟨-, differ, exit⟩ | ⟨hit, exit⟩ <;> rw [exit]
    · exact .inr ⟨Index.not_paired_of_empty top empty, rfl, rfl⟩
    · exact .inr ⟨Index.not_paired_of_differ top differ, rfl, rfl⟩
    · exact .inl ⟨(Index.paired_iff top).2 hit, rfl, rfl⟩

theorem ready_doDropTail : a.doDropTail.2.2.ready = a.ready := by
  rcases a.doDropTail_cases with ⟨-, exit⟩ | ⟨e, admn, -, ⟨-, exit⟩ | ⟨-, -, exit⟩ | ⟨-, exit⟩⟩ <;> rw [exit]

/-- A dequeue returns a packet exactly if it finds it in both trees. -/
theorem dequeueFrom_paired : Index.Paired a.proc a.admn ∧ (∃ skb, a.dequeueFrom.1 = .packet skb) ∨
    ¬ Index.Paired a.proc a.admn ∧ a.dequeueFrom.1.skb? = none := by
  rcases a.dequeueFrom_cases with ⟨none, exit⟩ | ⟨e, proc, top, half⟩
  · rw [exit]
    exact .inr ⟨Index.not_paired_of_none none, rfl⟩
  · rcases half with ⟨empty, exit⟩ | ⟨-, differ, exit⟩ | ⟨hit, exit⟩ <;> rw [exit]
    · exact .inr ⟨Index.not_paired_of_empty top empty, rfl⟩
    · exact .inr ⟨Index.not_paired_of_differ top differ, rfl⟩
    · exact .inl ⟨(Index.paired_iff top).2 hit, _, rfl⟩

end ListQueue

end OpenQueue
