import OpenQueue.Sim.Observe
import OpenQueue.Sim.Effects

/-!
# No reordering

A law on whole runs of the qdisc: of two packets of one queue that are both returned,
the one with the greater processing key comes first if both were held at some moment,
and the one that was enqueued first if the keys are equal. Only the processing list
matters: packets join it at the end and leave it in any way, but a dequeue takes the
first of the greatest key. A pointer may come back after it has left, as another packet,
but not while it is held; insertions that fail do no harm.
-/

namespace OpenQueue

variable {Ω π : Type}

/-- The call hands `skb` to `do_enqueue` on queue `i`, where `proc_fn` gives it the key
`k`: at once, or after `do_drop_tail`. -/
inductive Port.Enqueues (cb : Callbacks Ω π) (p : Port π) (i : QId) (skb : SkBuff π) (k : Key) : Call Ω π → Prop
  | free {ω ins} : slot? (cb.qSelect ω p.infos skb) = some i → cb.congFn ω (p.infos i) = false →
      k = cb.procFn ω (p.infos i) skb → Port.Enqueues cb p i skb k (.oqEnqueue ω ins skb)
  | afterDrop {ω ins exit p'} : Congested cb p.infos ω skb i →
      cb.congActFn ω (p.infos i) skb = oqConActDropTail → onQueue i doDropTail p = .ok (exit, p') →
      k = cb.procFn ω (p'.infos i) skb → Port.Enqueues cb p i skb k (.oqEnqueue ω ins skb)

/-- The `n`-th call enqueues `skb` in queue `i` with the processing key `k`. -/
def EnqueuedAt (cb : Callbacks Ω π) (p : Port π) (calls : List (Call Ω π)) (n : Nat) (i : QId) (skb : SkBuff π)
    (k : Key) : Prop :=
  ∃ c outs q, calls[n]? = some c ∧ Lib.run (Port.call cb) p (calls.take n) = .ok (outs, q) ∧ q.Enqueues cb i skb k c

/-! ## The same on lists -/

namespace ListPort

/-- `Port.Enqueues` on lists. -/
inductive Enqueues (cb : Callbacks Ω π) (s : ListPort π) (i : QId) (skb : SkBuff π) (k : Key) : Call Ω π → Prop
  | free {ω ins} : slot? (cb.qSelect ω s.infos skb) = some i → cb.congFn ω (s.infos i) = false →
      k = cb.procFn ω (s.infos i) skb → Enqueues cb s i skb k (.oqEnqueue ω ins skb)
  | afterDrop {ω ins} : Congested cb s.infos ω skb i → cb.congActFn ω (s.infos i) skb = oqConActDropTail →
      k = cb.procFn ω (s.queues i).doDropTail.2.2.toQueueInfo skb → Enqueues cb s i skb k (.oqEnqueue ω ins skb)

variable {cb : Callbacks Ω π} {s s' : ListPort π} {c : Call Ω π} {out : Out π} {i j : QId} {x y : SkBuff π} {k l : Key}

/-- A call enqueues one packet in one queue with one key. -/
theorem Enqueues.unique (h : Enqueues cb s i x k c) (h' : Enqueues cb s j y l c) : i = j ∧ x = y ∧ k = l := by
  cases h with
  | free slot free key =>
    cases h' with
    | free slot' free' key' =>
      obtain rfl := Option.some.inj (slot.symm.trans slot')
      exact ⟨rfl, rfl, key.trans key'.symm⟩
    | afterDrop congested tail key' =>
      obtain rfl := Option.some.inj (slot.symm.trans congested.slot)
      rw [congested.full] at free
      cases free
  | afterDrop congested tail key =>
    cases h' with
    | free slot' free' key' =>
      obtain rfl := Option.some.inj (slot'.symm.trans congested.slot)
      rw [congested.full] at free'
      cases free'
    | afterDrop congested' tail' key' =>
      obtain rfl := Option.some.inj (congested.slot.symm.trans congested'.slot)
      exact ⟨rfl, rfl, key.trans key'.symm⟩

/-- A container of the processing tree was there before, or is the packet of this call. -/
theorem Called.origin (way : Called cb s c out s') {e : Item π} (h : e ∈ (s'.queues j).proc) :
    e ∈ (s.queues j).proc ∨ Enqueues cb s j e.skb e.key c := by
  have other : ∀ {i : QId} {q : ListQueue π} {freed : List (SkBuff π)}, e ∈ ((s.set i q freed).queues j).proc →
      (i = j → e ∈ q.proc → e ∈ (s.queues i).proc ∨ Enqueues cb s i e.skb e.key c) →
      e ∈ (s.queues j).proc ∨ Enqueues cb s j e.skb e.key c := by
    intro i q freed member here
    by_cases same : i = j
    · subst same
      rw [set_queues] at member
      exact here rfl member
    · rw [set_other _ _ _ (Ne.symm same)] at member
      exact .inl member
  cases way with
  | @admitted i ω ins skb q slot free enq =>
    refine other h fun _ member => ?_
    obtain ⟨-, proc, -⟩ := ListQueue.doEnqueue_ok enq
    rcases Index.add_cases proc with added | ⟨same, -⟩
    · rw [added] at member
      rcases List.mem_append.1 member with member | new
      · exact .inl member
      · rw [List.mem_singleton.1 new]
        exact .inr (.free slot free rfl)
    · rw [same] at member
      exact .inl member
  | @tailDropped i ω ins skb exit freed q q' congested tail drop enq =>
    refine other h fun _ member => ?_
    have sub := ListQueue.doDropTail_sublist (s.queues i) .proc
    rw [drop] at sub
    obtain ⟨-, proc, -⟩ := ListQueue.doEnqueue_ok enq
    rcases Index.add_cases proc with added | ⟨same, -⟩
    · rw [added] at member
      rcases List.mem_append.1 member with member | new
      · exact .inl (sub.subset member)
      · rw [List.mem_singleton.1 new]
        exact .inr (.afterDrop congested tail (by rw [drop]))
    · rw [same] at member
      exact .inl (sub.subset member)
  | refused congested pkt => exact other h fun _ member => .inl member
  | ignored congested tail pkt => exact .inl h
  | @dequeued i ω exit q slot deq =>
    refine other h fun _ member => .inl ?_
    have sub := ListQueue.dequeueFrom_sublist (s.queues i) .proc
    rw [deq] at sub
    exact sub.subset member

/-- A packet that is returned was the first of the greatest key in its queue. -/
theorem Called.returns (way : Called cb s c (.dequeue (.packet x)) s') :
    ∃ j e, e.skb = x ∧ Index.takeMax (s.queues j).proc = some (e, (s'.queues j).proc) := by
  cases way with
  | @dequeued i ω exit q slot deq =>
    refine ⟨i, ?_⟩
    rcases (s.queues i).dequeueFrom_cases with ⟨-, exit⟩ | ⟨e, proc, top, ⟨-, exit⟩ | ⟨-, -, exit⟩ | ⟨-, exit⟩⟩
    · rw [deq] at exit
      cases exit
    · rw [deq] at exit
      cases exit
    · rw [deq] at exit
      cases exit
    · rw [deq] at exit
      cases exit
      refine ⟨e, rfl, ?_⟩
      rw [set_queues]
      exact top

end ListPort

/-! ## Which enqueue a packet comes from -/

/-- The `n`-th call is handed `x`. -/
def OffersAt (calls : List (Call Ω π)) (n : Nat) (x : SkBuff π) : Prop :=
  ∃ ω ins, calls[n]? = some (.oqEnqueue ω ins x)

/-- Call `m` comes before `n`, and the pointer `x` is not handed in again in between. -/
structure Since (calls : List (Call Ω π)) (m : Nat) (x : SkBuff π) (n : Nat) : Prop where
  before : m < n
  last : ∀ j y, m < j → j < n → OffersAt calls j y → y.addr ≠ x.addr

section Offers

variable {calls : List (Call Ω π)} {x : SkBuff π} {m n : Nat}

theorem mem_offered : x ∈ offered calls ↔ ∃ n, OffersAt calls n x := by
  rw [offered, List.mem_filterMap]
  simp only [List.mem_iff_getElem?, OffersAt]
  constructor
  · rintro ⟨c, ⟨n, here⟩, packet⟩
    cases c with
    | oqEnqueue ω ins skb =>
      cases packet
      exact ⟨n, ω, ins, here⟩
    | oqDequeue ω => cases packet
  · rintro ⟨n, ω, ins, here⟩
    exact ⟨_, ⟨n, here⟩, rfl⟩

/-- The calls from `m` up to `n`. -/
theorem mem_offered_window (h : x ∈ offered ((calls.take n).drop m)) : ∃ j, m ≤ j ∧ j < n ∧ OffersAt calls j x := by
  obtain ⟨j, ω, ins, here⟩ := mem_offered.1 h
  rw [List.getElem?_drop, List.getElem?_take] at here
  split at here
  · next below => exact ⟨m + j, Nat.le_add_right m j, below, ω, ins, here⟩
  · cases here

theorem ListPort.Enqueues.offersAt {cb : Callbacks Ω π} {s : ListPort π} {c : Call Ω π} {i : QId} {k : Key}
    (h : Enqueues cb s i x k c) (here : calls[n]? = some c) : OffersAt calls n x := by
  cases h with
  | free => exact ⟨_, _, here⟩
  | afterDrop => exact ⟨_, _, here⟩

end Offers

/-! ## The history of a run -/

/-- The states of a run on lists, by the number of calls made. No pointer is handed in
while it is in a queue. -/
structure History (cb : Callbacks Ω π) (calls : List (Call Ω π)) (outs : List (Out π)) (state : Nat → ListPort π) :
    Prop where
  empty : ∀ i, ((state 0).queues i).proc = []
  run : ∀ n, Lib.run (ListPort.call cb) (state 0) (calls.take n) = .ok (outs.take n, state n)
  fresh : ∀ n x, OffersAt calls n x → ∀ i, ∀ e ∈ ((state n).queues i).proc, e.skb.addr ≠ x.addr

/-- The `n`-th call enqueues `x` in queue `i` with key `k`. -/
def ListPort.EnqueuedAt (cb : Callbacks Ω π) (calls : List (Call Ω π)) (state : Nat → ListPort π) (n : Nat) (i : QId)
    (x : SkBuff π) (k : Key) : Prop :=
  ∃ c, calls[n]? = some c ∧ ListPort.Enqueues cb (state n) i x k c

namespace History

variable {cb : Callbacks Ω π} {calls : List (Call Ω π)} {outs : List (Out π)} {state : Nat → ListPort π}
  {i : QId} {x y : SkBuff π} {k l : Key} {m n a b : Nat}

/-- The step made by the `n`-th call. -/
theorem step {c : Call Ω π} (h : History cb calls outs state) (here : calls[n]? = some c) :
    ∃ out, outs[n]? = some out ∧ ListPort.Called cb (state n) c out (state (n + 1)) := by
  have run := h.run (n + 1)
  rw [List.take_add_one, here, Option.toList_some, List.take_add_one] at run
  obtain ⟨os, u, out, before, last, split⟩ := Lib.run_snoc_eq_ok.1 run
  rw [h.run n] at before
  cases before
  have one := List.append_cancel_left split
  cases found : outs[n]? with
  | none =>
    rw [found] at one
    cases one
  | some out' =>
    rw [found] at one
    cases one
    exact ⟨out, rfl, .of_call last⟩

theorem stay (h : History cb calls outs state) (ended : calls[n]? = none) : state (n + 1) = state n := by
  have run := h.run (n + 1)
  rw [List.take_add_one, ended, Option.toList_none, List.append_nil, h.run n] at run
  exact (Prod.mk.inj (Except.ok.inj run)).2.symm

/-- From `m` to `n`, a queue gets only packets handed in meanwhile. -/
theorem window (h : History cb calls outs state) (le : m ≤ n) (i : QId) :
    (((state n).queues i).proc.map Item.skb).Sublist
      (((state m).queues i).proc.map Item.skb ++ offered ((calls.take n).drop m)) := by
  obtain ⟨u, first, second⟩ := Lib.run_split (h.run n) m
  rw [List.take_take, Nat.min_eq_left le, h.run m] at first
  obtain rfl := (Prod.mk.inj (Except.ok.inj first)).2
  exact ListPort.run_offered second i .proc

/-- No pointer is in a queue twice. -/
theorem nodup (h : History cb calls outs state) (n : Nat) (i : QId) :
    (((state n).queues i).proc.map fun e => e.skb.addr).Nodup := by
  induction n with
  | zero => rw [h.empty]; exact List.nodup_nil
  | succ n ih =>
    have sub := (h.window (Nat.le_succ n) i).map SkBuff.addr
    rw [List.map_append, List.map_map, List.map_map] at sub
    refine List.Nodup.sublist sub (List.nodup_append.2 ⟨ih, ?_, ?_⟩)
    · have short : (offered ((calls.take (n + 1)).drop n)).length ≤ 1 := by
        refine Nat.le_trans (List.length_filterMap_le _ _) ?_
        rw [List.length_drop, List.length_take]
        omega
      match offered ((calls.take (n + 1)).drop n), short with
      | [], _ => exact List.nodup_nil
      | [x], _ => exact List.nodup_singleton x.addr
    · rintro a old b new rfl
      obtain ⟨e, member, rfl⟩ := List.mem_map.1 old
      obtain ⟨x, new, same⟩ := List.mem_map.1 new
      obtain ⟨j, le, lt, offers⟩ := mem_offered_window new
      obtain rfl : j = n := by omega
      exact h.fresh j x offers i e member same.symm

/-- Everything in a queue was enqueued there, under the key it sits under, and has been
there since. -/
theorem origin (h : History cb calls outs state) {e : Item π} (member : e ∈ ((state n).queues i).proc) :
    ∃ m, m < n ∧ ListPort.EnqueuedAt cb calls state m i e.skb e.key ∧
      ∀ j, m < j → j ≤ n → e ∈ ((state j).queues i).proc := by
  induction n with
  | zero =>
    rw [h.empty] at member
    cases member
  | succ n ih =>
    have earlier : e ∈ ((state n).queues i).proc → ∃ m, m < n + 1 ∧
        ListPort.EnqueuedAt cb calls state m i e.skb e.key ∧
        ∀ j, m < j → j ≤ n + 1 → e ∈ ((state j).queues i).proc := by
      intro old
      obtain ⟨m, lt, enq, stays⟩ := ih old
      refine ⟨m, Nat.lt_succ_of_lt lt, enq, fun j after le => ?_⟩
      rcases Nat.le_succ_iff.1 le with le | rfl
      · exact stays j after le
      · exact member
    cases here : calls[n]? with
    | none =>
      rw [h.stay here] at member
      exact earlier member
    | some c =>
      obtain ⟨out, -, way⟩ := h.step here
      rcases way.origin member with old | new
      · exact earlier old
      · refine ⟨n, Nat.lt_succ_self n, ⟨c, here, new⟩, fun j after le => ?_⟩
        obtain rfl : j = n + 1 := by omega
        exact member

theorem offersAt (enq : ListPort.EnqueuedAt cb calls state n i x k) : OffersAt calls n x := by
  obtain ⟨c, here, enq⟩ := enq
  exact enq.offersAt here

/-- The pointer handed in last by call `m`, found in some queue: it is the packet of
call `m`, under its key, and has been there since. -/
theorem found {j : QId} {e : Item π} (h : History cb calls outs state) (enq : ListPort.EnqueuedAt cb calls state m i x k)
    (since : Since calls m x n) (member : e ∈ ((state n).queues j).proc) (same : e.skb.addr = x.addr) :
    j = i ∧ e.skb = x ∧ e.key = k ∧ ∀ t, m < t → t ≤ n → e ∈ ((state t).queues i).proc := by
  obtain ⟨m', lt, enq', stays⟩ := h.origin member
  have le : ¬ m < m' := fun after => since.last m' e.skb after lt (offersAt enq') same
  have ge : ¬ m' < m := fun after => h.fresh m x (offersAt enq) j e (stays m after (Nat.le_of_lt since.before)) same
  obtain rfl : m' = m := by omega
  obtain ⟨c, here, enq⟩ := enq
  obtain ⟨c', here', enq'⟩ := enq'
  rw [here] at here'
  cases here'
  obtain ⟨rfl, packet, key⟩ := enq'.unique enq
  exact ⟨rfl, packet, key, stays⟩

/-- The moment a packet is returned: it is the first of the greatest key. -/
theorem returned_at (h : History cb calls outs state) (enq : ListPort.EnqueuedAt cb calls state m i x k)
    (since : Since calls m x a) (out : outs[a]? = some (.dequeue (.packet x))) :
    ∃ e front back, e.skb = x ∧ e.key = k ∧ ((state a).queues i).proc = front ++ e :: back ∧
      ((state (a + 1)).queues i).proc = front ++ back ∧ (∀ z ∈ front, z.key < k) ∧ ∀ z ∈ back, z.key ≤ k := by
  cases here : calls[a]? with
  | none =>
    have length := Lib.run_length (h.run (a + 1))
    have short := List.getElem?_eq_none_iff.1 here
    have long := (List.getElem?_eq_some_iff.1 out).1
    rw [List.length_take, List.length_take] at length
    omega
  | some c =>
    obtain ⟨out', found, way⟩ := h.step here
    rw [out] at found
    cases found
    obtain ⟨j, e, packet, top⟩ := way.returns
    obtain ⟨front, back, split, rest, less, greatest⟩ := Lib.takeMax_split top
    have member : e ∈ ((state a).queues j).proc := by rw [split]; exact List.mem_append_cons_self
    obtain ⟨rfl, -, rfl, -⟩ := h.found enq since member (congrArg SkBuff.addr packet)
    exact ⟨e, front, back, packet, rfl, split, rest, less, greatest⟩

/-- A packet is gone after it is returned. -/
theorem gone {e : Item π} (h : History cb calls outs state) (enq : ListPort.EnqueuedAt cb calls state m i x k)
    (since : Since calls m x a) (out : outs[a]? = some (.dequeue (.packet x))) (later : Since calls m x n)
    (member : e ∈ ((state n).queues i).proc) (same : e.skb.addr = x.addr) : n ≤ a := by
  obtain ⟨e', front, back, packet, -, split, rest, -⟩ := h.returned_at enq since out
  by_contra lt
  obtain ⟨-, -, -, stays⟩ := h.found enq later member same
  have still := stays (a + 1) (Nat.lt_succ_of_lt since.before) (by omega)
  have once := h.nodup a i
  rw [split, List.map_append, List.map_cons, List.nodup_middle] at once
  rw [rest] at still
  refine (List.nodup_cons.1 once).1 ?_
  rw [packet, ← same, ← List.map_append]
  exact List.mem_map.2 ⟨e, still, rfl⟩

/-- When `y` is taken while `x` waits, `x` has the smaller key, or came later. -/
theorem overtaken (h : History cb calls outs state) (hx : ListPort.EnqueuedAt cb calls state m i x k)
    (hy : ListPort.EnqueuedAt cb calls state n i y l) (sx : Since calls m x a) (sy : Since calls n y b)
    (rx : outs[a]? = some (.dequeue (.packet x))) (ry : outs[b]? = some (.dequeue (.packet y)))
    (differ : x.addr ≠ y.addr) (lt : b < a) (waits : m < b) : k ≤ l ∧ (k = l → n < m) := by
  obtain ⟨e, front, back, packet, -, split, -⟩ := h.returned_at hx sx rx
  obtain ⟨e', front', back', packet', -, split', -, less, greatest⟩ := h.returned_at hy sy ry
  have member : e ∈ ((state a).queues i).proc := by rw [split]; exact List.mem_append_cons_self
  obtain ⟨-, -, rfl, stays⟩ := h.found hx sx member (congrArg SkBuff.addr packet)
  have present := stays b waits (Nat.le_of_lt lt)
  rw [split'] at present
  rcases List.mem_append.1 present with front | present
  · exact ⟨(less e front).le, fun same => absurd same (less e front).ne⟩
  rcases List.mem_cons.1 present with rfl | behind
  · exact absurd (congrArg SkBuff.addr (packet.symm.trans packet')) differ
  refine ⟨greatest e behind, fun _ => ?_⟩
  -- `y` stands before `x` in the list; had it come later, it would stand after it
  by_contra later
  have order : [y, x].Sublist (((state n).queues i).proc.map Item.skb ++ offered ((calls.take b).drop n)) := by
    refine List.Sublist.trans ?_ (h.window (Nat.le_of_lt sy.before) i)
    rw [split', List.map_append, List.map_cons, packet']
    refine List.Sublist.trans ?_ (List.sublist_append_right _ _)
    exact List.Sublist.cons_cons y (List.singleton_sublist.2 (List.mem_map.2 ⟨e, behind, packet⟩))
  have notEarly : y ∉ ((state n).queues i).proc.map Item.skb := by
    intro old
    obtain ⟨w, member, rfl⟩ := List.mem_map.1 old
    exact h.fresh n w.skb (offersAt hy) i w member rfl
  have notLate : x ∉ offered ((calls.take b).drop n) := by
    intro new
    obtain ⟨j, le, lt', offers⟩ := mem_offered_window new
    have handed : m ≠ n := by
      rintro rfl
      obtain ⟨ω, ins, here⟩ := offersAt hx
      obtain ⟨ω', ins', here'⟩ := offersAt hy
      rw [here] at here'
      cases here'
      exact differ rfl
    exact sx.last j x (by omega) (by omega) offers rfl
  obtain ⟨u, v, pair, early, late⟩ := List.sublist_append_iff.1 order
  cases u with
  | nil =>
    rw [List.nil_append] at pair
    subst pair
    exact notLate (late.subset (by simp))
  | cons w u =>
    obtain ⟨rfl, -⟩ := List.cons.inj pair
    exact notEarly (early.subset (by simp))

end History

/-! ## Runs on memory -/

/-- No queue holds the pointer that is handed in. -/
def Port.Fresh (p : Port π) : Call Ω π → Prop
  | .oqEnqueue _ _ skb => ∀ i t, ∀ e ∈ p.items i t, e.skb.addr ≠ skb.addr
  | .oqDequeue _ => True

/-- The packet `x` that call `m` was handed is in queue `i` after `n` calls. -/
structure HeldAt (cb : Callbacks Ω π) (p : Port π) (calls : List (Call Ω π)) (m : Nat) (i : QId) (x : SkBuff π)
    (n : Nat) : Prop where
  since : Since calls m x n
  held : ∃ outs q, Lib.run (Port.call cb) p (calls.take n) = .ok (outs, q) ∧ x ∈ (q.items i .proc).map Item.skb

/-- The packet `x` that call `m` was handed is returned by call `a`. -/
structure ReturnedAt (calls : List (Call Ω π)) (outs : List (Out π)) (m : Nat) (x : SkBuff π) (a : Nat) : Prop where
  since : Since calls m x a
  out : outs[a]? = some (.dequeue (.packet x))

section Runs

variable {cb : Callbacks Ω π} {p q : Port π} {s : ListPort π} {calls : List (Call Ω π)} {outs : List (Out π)}
  {i : QId} {x y : SkBuff π} {k l : Key} {m n a b : Nat}

theorem Port.Enqueues.onLists {c : Call Ω π} (h : q.Enqueues cb i x k c) (related : Holds q s) :
    ListPort.Enqueues cb s i x k c := by
  obtain ⟨g, C, L, repr⟩ := related
  have infos := repr.infos
  cases h with
  | free slot free key =>
    rw [infos] at slot free key
    exact .free slot free key
  | @afterDrop ω ins exit p' congested tail drop key =>
    have agree := (FramedSim.onQueue doDropTail_sim i).sim q s ⟨g, C, L, repr⟩
    rw [drop] at agree
    obtain ⟨s', answer, g', C', L', repr'⟩ := agree.of_ok
    have after : s'.queues = Function.update s.queues i (s.queues i).doDropTail.2.2 :=
      congrArg ListPort.queues (Prod.mk.inj (Except.ok.inj answer)).2.symm
    rw [infos] at congested tail
    refine .afterDrop congested tail ?_
    rw [key, repr'.infos, ListPort.infos, after, Function.update_self]

/-- The run on lists behind a run on memory. -/
theorem exists_history (init : p.Initialised)
    (fresh : ∀ t c, Lib.Calls (Port.call cb) p calls t c → t.Fresh c)
    (run : Lib.run (Port.call cb) p calls = .ok (outs, q)) :
    ∃ state, History cb calls outs state ∧
      ∀ n os t, Lib.run (Port.call cb) p (calls.take n) = .ok (os, t) → Holds t (state n) := by
  have each : ∀ n, ∃ s t, Lib.run (Port.call cb) p (calls.take n) = .ok (outs.take n, t) ∧
      Lib.run (ListPort.call cb) (ListPort.initial p.infos) (calls.take n) = .ok (outs.take n, s) ∧ Holds t s := by
    intro n
    obtain ⟨t, first, -⟩ := Lib.run_split run n
    obtain ⟨s, onLists, related⟩ := run_calls init first
    exact ⟨s, t, first, onLists, related⟩
  choose state port ran onLists related using each
  have start : state 0 = ListPort.initial p.infos := (Lib.run_nil_eq_ok.1 (onLists 0)).2
  refine ⟨state, ⟨?_, ?_, ?_⟩, ?_⟩
  · intro i
    rw [start]
    rfl
  · rw [start]
    exact onLists
  · rintro n x ⟨ω, ins, here⟩ i e member
    have call : Lib.Calls (Port.call cb) p calls (port n) (.oqEnqueue ω ins x) := by
      refine ⟨calls.take n, _, ?_, ran n⟩
      rw [← Option.toList_some, ← here, ← List.take_add_one]
      exact List.take_prefix _ _
    obtain ⟨g, C, L, repr⟩ := related n
    exact fresh _ _ call i .proc e ((repr.items_perm i .proc).mem_iff.2 member)
  · intro n os t here
    rw [ran n] at here
    cases here
    exact related n

/-- No reordering. -/
theorem run_returns_in_order (init : p.Initialised)
    (fresh : ∀ t c, Lib.Calls (Port.call cb) p calls t c → t.Fresh c)
    (run : Lib.run (Port.call cb) p calls = .ok (outs, q))
    (hx : EnqueuedAt cb p calls m i x k) (hy : EnqueuedAt cb p calls n i y l)
    (rx : ReturnedAt calls outs m x a) (ry : ReturnedAt calls outs n y b) :
    (k = l → m < n → a < b) ∧ (l < k → (∃ t, HeldAt cb p calls m i x t ∧ HeldAt cb p calls n i y t) → a < b) := by
  obtain ⟨state, h, holds⟩ := exists_history init fresh run
  have onLists : ∀ {n x k}, EnqueuedAt cb p calls n i x k → ListPort.EnqueuedAt cb calls state n i x k := by
    rintro n x k ⟨c, os, t, here, ran, enq⟩
    exact ⟨c, here, enq.onLists (holds n os t ran)⟩
  replace hx := onLists hx
  replace hy := onLists hy
  by_cases same : x.addr = y.addr
  · -- one pointer twice: the second life begins after the first has ended
    constructor
    · intro _ lt
      by_contra late
      have := ry.since.before
      exact rx.since.last n y lt (by omega) (History.offersAt hy) same.symm
    · rintro less ⟨t, heldX, heldY⟩
      have notBefore : ¬ m < n := fun lt =>
        heldX.since.last n y lt heldY.since.before (History.offersAt hy) same.symm
      have notAfter : ¬ n < m := fun lt => heldY.since.last m x lt heldX.since.before (History.offersAt hx) same
      obtain rfl : m = n := by omega
      obtain ⟨c, here, hx⟩ := hx
      obtain ⟨c', here', hy⟩ := hy
      rw [here] at here'
      cases here'
      exact absurd (hx.unique hy).2.2 less.ne'
  · have apart : a ≠ b := by
      rintro rfl
      have packets := rx.out.symm.trans ry.out
      cases packets
      exact same rfl
    have early : m < b → ¬ a < b → k ≤ l ∧ (k = l → n < m) := fun waits late =>
      h.overtaken hx hy rx.since ry.since rx.out ry.out same (by omega) waits
    constructor
    · intro equal lt
      by_contra late
      have := (early (lt.trans ry.since.before) late).2 equal
      omega
    · rintro less ⟨t, heldX, heldY⟩
      by_contra late
      obtain ⟨os, u, ran, member⟩ := heldY.held
      obtain ⟨g, C, L, repr⟩ := holds t os u ran
      obtain ⟨e, member, packet⟩ := List.mem_map.1 member
      have still := h.gone hy ry.since ry.out heldY.since ((repr.items_perm i .proc).mem_iff.1 member)
        (congrArg SkBuff.addr packet)
      exact absurd (early (heldX.since.before.trans_le still) late).1 (not_le_of_gt less)

end Runs

/-- Two packets in and out again, the second with the greater key. -/
def inAndOut : List (Call Unit Unit) :=
  [.oqEnqueue () .ok ⟨7, ()⟩, .oqEnqueue () .ok ⟨8, ()⟩, .oqDequeue (), .oqDequeue ()]

/-- The routines of `routine/routines.c` with the address as the processing key. -/
def byAddress : Callbacks Unit Unit := .routines 256 2 (fun _ => 0) (fun skb => Fin.ofNat (2 ^ 64) skb.addr)

theorem inAndOut_fresh (q : Port Unit) (c : Call Unit Unit)
    (call : Lib.Calls (Port.call byAddress) (Port.blank ()) inAndOut q c) : q.Fresh c := by
  rcases Lib.calls_cons.1 call with ⟨rfl, rfl⟩ | ⟨o, p₁, step, call⟩
  · exact fun i t e he => by cases t <;> cases he
  rcases Lib.calls_cons.1 call with ⟨rfl, rfl⟩ | ⟨o, p₂, -, call⟩
  · have seen : ∀ i t, (match Port.call byAddress (Port.blank ()) (.oqEnqueue () .ok ⟨7, ()⟩) with
        | .ok r => (r.2.items i t).all fun e => e.skb.addr != 8
        | .error _ => false) = true := by
      intro i t
      revert i
      cases t <;> decide +kernel
    rw [step] at seen
    intro i t e he
    simpa using List.all_eq_true.1 (seen i t) e he
  rcases Lib.calls_cons.1 call with ⟨-, rfl⟩ | ⟨o, p₃, -, call⟩
  · trivial
  rcases Lib.calls_cons.1 call with ⟨-, rfl⟩ | ⟨o, p₄, -, call⟩
  · trivial
  exact absurd call Lib.calls_nil

/-- The packet of call 1 is returned before that of call 0, which is there all the time. -/
theorem inAndOut_in_order : ∃ outs q, Lib.run (Port.call byAddress) (Port.blank ()) inAndOut = .ok (outs, q) ∧
    ReturnedAt inAndOut outs 1 ⟨8, ()⟩ 2 ∧ ReturnedAt inAndOut outs 0 ⟨7, ()⟩ 3 ∧
    HeldAt byAddress (Port.blank ()) inAndOut 1 0 ⟨8, ()⟩ 2 ∧ HeldAt byAddress (Port.blank ()) inAndOut 0 0 ⟨7, ()⟩ 2 ∧
    2 < 3 := by
  obtain ⟨outs, q, run, answers⟩ := Lib.exists_of_ends
    (P := fun outs _ => outs = [.status 0, .status 0, .dequeue (.packet ⟨8, ()⟩), .dequeue (.packet ⟨7, ()⟩)])
    (r := Lib.run (Port.call byAddress) (Port.blank ()) inAndOut) (by decide +kernel)
  rw [decide_eq_true_eq] at answers
  obtain ⟨os, t, ran, free⟩ := Lib.exists_of_ends (P := fun _ q => byAddress.congFn () (q.infos 0) = false)
    (r := Lib.run (Port.call byAddress) (Port.blank ()) (inAndOut.take 1)) (by decide +kernel)
  obtain ⟨os', t', ran', held⟩ := Lib.exists_of_ends
    (P := fun _ q => (q.items 0 .proc).map Item.skb = [⟨7, ()⟩, ⟨8, ()⟩])
    (r := Lib.run (Port.call byAddress) (Port.blank ()) (inAndOut.take 2)) (by decide +kernel)
  rw [decide_eq_true_eq] at free held
  have since₇ : ∀ n, 0 < n → n ≤ 3 → Since inAndOut 0 ⟨7, ()⟩ n := by
    refine fun n pos le => ⟨pos, ?_⟩
    rintro j y after before ⟨ω, ins, here⟩
    obtain rfl | rfl : j = 1 ∨ j = 2 := by omega
    · cases here
      decide
    · cases here
  have since₈ : Since inAndOut 1 ⟨8, ()⟩ 2 := ⟨by decide, fun j y after before => by omega⟩
  have returned₈ : ReturnedAt inAndOut outs 1 ⟨8, ()⟩ 2 := ⟨since₈, by rw [answers]; rfl⟩
  have returned₇ : ReturnedAt inAndOut outs 0 ⟨7, ()⟩ 3 := ⟨since₇ 3 (by decide) le_rfl, by rw [answers]; rfl⟩
  have held₈ : HeldAt byAddress (Port.blank ()) inAndOut 1 0 ⟨8, ()⟩ 2 :=
    ⟨since₈, os', t', ran', by rw [held]; decide⟩
  have held₇ : HeldAt byAddress (Port.blank ()) inAndOut 0 0 ⟨7, ()⟩ 2 :=
    ⟨since₇ 2 (by decide) (by decide), os', t', ran', by rw [held]; decide⟩
  refine ⟨outs, q, run, returned₈, returned₇, held₈, held₇, ?_⟩
  have enqueued₈ : EnqueuedAt byAddress (Port.blank ()) inAndOut 1 0 ⟨8, ()⟩ 8 :=
    ⟨_, os, t, rfl, ran, .free rfl free rfl⟩
  have enqueued₇ : EnqueuedAt byAddress (Port.blank ()) inAndOut 0 0 ⟨7, ()⟩ 7 :=
    ⟨_, [], _, rfl, rfl, .free rfl (by decide) rfl⟩
  exact (run_returns_in_order (Port.blank_initialised ()) inAndOut_fresh run enqueued₈ enqueued₇ returned₈ returned₇).2
    (by decide) ⟨2, held₈, held₇⟩

end OpenQueue
