import OpenQueue.Sim.Port

/-!
# What one call can do

The effect of a call on the lists of a port, one constructor for each way through the
code. Every invariant below is proved from these and does not look at the functions
again.
-/

namespace OpenQueue

variable {Ω π : Type}

/-- The packet of a call meets the congested queue `i`. -/
structure Congested (cb : Callbacks Ω π) (infos : QId → QueueInfo) (ω : Ω) (skb : SkBuff π) (i : QId) : Prop where
  slot : slot? (cb.qSelect ω infos skb) = some i
  full : cb.congFn ω (infos i) = true

namespace ListPort

/-- The port with another queue in slot `i` and more packets freed. -/
def set (s : ListPort π) (i : QId) (q : ListQueue π) (freed : List (SkBuff π)) : ListPort π :=
  ⟨Function.update s.queues i q, s.freed ++ freed⟩

/-- The ways through one call of a queue function. -/
inductive Stepped (cb : Callbacks Ω π) (s : ListPort π) : Op Ω π → Out π → ListPort π → Prop
  | enqueued {i ω ins skb q} : (s.queues i).doEnqueue cb ω ins skb = .ok q →
      Stepped cb s (.doEnqueue i ω ins skb) (.status netXmitSuccess) (s.set i q [])
  | droppedTail {i exit freed q} : (s.queues i).doDropTail = (exit, freed, q) →
      Stepped cb s (.doDropTail i) (.dropTail exit) (s.set i q freed)
  | dequeued {i ω exit q} : slot? (cb.schedFn ω s.infos) = some i → (s.queues i).dequeueFrom = (exit, q) →
      Stepped cb s (.oqDequeue ω) (.dequeue exit) (s.set i q [])

/-- The ways through one call of the qdisc. -/
inductive Called (cb : Callbacks Ω π) (s : ListPort π) : Call Ω π → Out π → ListPort π → Prop
  | admitted {i ω ins skb q} : slot? (cb.qSelect ω s.infos skb) = some i → cb.congFn ω (s.infos i) = false →
      (s.queues i).doEnqueue cb ω ins skb = .ok q →
      Called cb s (.oqEnqueue ω ins skb) (.status netXmitSuccess) (s.set i q [])
  | tailDropped {i ω ins skb exit freed q q'} : Congested cb s.infos ω skb i →
      cb.congActFn ω (s.infos i) skb = oqConActDropTail → (s.queues i).doDropTail = (exit, freed, q) →
      q.doEnqueue cb ω ins skb = .ok q' → Called cb s (.oqEnqueue ω ins skb) (.status 0) (s.set i q' freed)
  | refused {i ω ins skb} : Congested cb s.infos ω skb i → cb.congActFn ω (s.infos i) skb = oqConActDropPkt →
      Called cb s (.oqEnqueue ω ins skb) (.status 0)
        (s.set i { s.queues i with dropped := (s.queues i).dropped + 1 } [skb])
  | ignored {i ω ins skb} : Congested cb s.infos ω skb i → cb.congActFn ω (s.infos i) skb ≠ oqConActDropTail →
      cb.congActFn ω (s.infos i) skb ≠ oqConActDropPkt → Called cb s (.oqEnqueue ω ins skb) (.status 0) s
  | dequeued {i ω exit q} : slot? (cb.schedFn ω s.infos) = some i → (s.queues i).dequeueFrom = (exit, q) →
      Called cb s (.oqDequeue ω) (.dequeue exit) (s.set i q [])

variable {cb : Callbacks Ω π} {s s' : ListPort π} {out : Out π} {ω : Ω} {i : QId}

theorem set_queues (s : ListPort π) (i : QId) (q : ListQueue π) (freed : List (SkBuff π)) :
    (s.set i q freed).queues i = q := by
  simp only [set, Function.update_self]

theorem set_other {j : QId} (s : ListPort π) {i : QId} (q : ListQueue π) (freed : List (SkBuff π)) (other : j ≠ i) :
    (s.set i q freed).queues j = s.queues j := by
  simp only [set, Function.update_of_ne other]

theorem set_set (s : ListPort π) (i : QId) (q q' : ListQueue π) (freed : List (SkBuff π)) :
    (s.set i q freed).set i q' [] = s.set i q' freed := by
  simp only [set, Function.update_idem, List.append_nil]

/-! ## The queue of a call -/

/-- The queue that a call picks on lists. -/
def selects (cb : Callbacks Ω π) (s : ListPort π) : Call Ω π → Option QId
  | .oqEnqueue ω _ skb => slot? (cb.qSelect ω s.infos skb)
  | .oqDequeue ω => slot? (cb.schedFn ω s.infos)

/-- Another queue stays as it is. -/
theorem Called.elsewhere (way : Called cb s c out s') (picks : s.selects cb c ≠ some i) :
    s'.queues i = s.queues i := by
  cases way with
  | admitted slot free enq => exact set_other _ _ _ fun same => picks (same ▸ slot)
  | tailDropped congested tail drop enq => exact set_other _ _ _ fun same => picks (same ▸ congested.slot)
  | refused congested pkt => exact set_other _ _ _ fun same => picks (same ▸ congested.slot)
  | ignored congested tail pkt => rfl
  | dequeued slot deq => exact set_other _ _ _ fun same => picks (same ▸ slot)

/-! ## Runs of the monad -/

theorem run_enqueue (ins : Inserts) (skb : SkBuff π) :
    onQueue i (doEnqueue cb ω ins skb) s = match (s.queues i).doEnqueue cb ω ins skb with
      | .error e => .error e
      | .ok q => .ok (netXmitSuccess, s.set i q []) := by
  unfold onQueue doEnqueue set
  cases (s.queues i).doEnqueue cb ω ins skb <;> rfl

theorem step_dequeue_eq : (do return .dequeue (← oqDequeue cb ω) : ListPortM π (Out π)) s =
    match slot? (cb.schedFn ω s.infos) with
      | none => .error .badIndex
      | some i => .ok (.dequeue (s.queues i).dequeueFrom.1, s.set i (s.queues i).dequeueFrom.2 []) := by
  show ((pick (cb.schedFn ω s.infos) s >>= fun r => onQueue r.1 dequeueFrom r.2) >>= _) = _
  unfold pick
  cases slot? (cb.schedFn ω s.infos) <;> rfl

theorem oqEnqueue_badIndex {ins : Inserts} {skb : SkBuff π} (slot : slot? (cb.qSelect ω s.infos skb) = none) :
    oqEnqueue cb ω ins skb s = .error .badIndex := by
  show (pick (cb.qSelect ω s.infos skb) s >>= _) = _
  rw [pick, slot]
  rfl

/-- The branch of an uncongested queue. -/
theorem oqEnqueue_free {ins : Inserts} {skb : SkBuff π} (slot : slot? (cb.qSelect ω s.infos skb) = some i)
    (free : cb.congFn ω (s.infos i) = false) : oqEnqueue cb ω ins skb s = onQueue i (doEnqueue cb ω ins skb) s := by
  show (pick (cb.qSelect ω s.infos skb) s >>= _) = _
  rw [pick, slot]
  show (if cb.congFn ω (s.infos i) = false then _ else _ : ListPortM π Int) s = _
  rw [if_pos free]

/-- The branch of a congested queue, one way for each action. -/
theorem oqEnqueue_full {ins : Inserts} {skb : SkBuff π} (congested : Congested cb s.infos ω skb i) :
    oqEnqueue cb ω ins skb s =
      if cb.congActFn ω (s.infos i) skb = oqConActDropTail then
        onQueue i (doEnqueue cb ω ins skb) (s.set i (s.queues i).doDropTail.2.2 (s.queues i).doDropTail.2.1) >>=
          fun r => .ok (0, r.2)
      else if cb.congActFn ω (s.infos i) skb = oqConActDropPkt then
        .ok (0, s.set i { s.queues i with dropped := (s.queues i).dropped + 1 } [skb])
      else .ok (0, s) := by
  show (pick (cb.qSelect ω s.infos skb) s >>= _) = _
  rw [pick, congested.slot]
  show (if cb.congFn ω (s.infos i) = false then _ else _ : ListPortM π Int) s = _
  rw [if_neg (by simp [congested.full])]
  split
  · rfl
  · split <;> rfl

/-- Only a queue without a node pool refuses a packet. -/
theorem doEnqueue_error {q : ListQueue π} {ins : Inserts} {skb : SkBuff π} {e : Fault}
    (h : q.doEnqueue cb ω ins skb = .error e) : e = .noNodePool := by
  have add : ∀ {ready ins : Bool} {l : List (Item π)} {x : Item π} {e : Fault},
      Index.add ready ins l x = .error e → e = .noNodePool := by
    intro ready ins l x e h
    unfold Index.add at h
    split at h
    · cases h
    · split at h <;> cases h
      rfl
  unfold ListQueue.doEnqueue at h
  cases first : Index.add q.ready ins.admn q.admn ⟨cb.admnFn ω q.toQueueInfo skb, cb.procFn ω q.toQueueInfo skb, skb⟩
    with
  | error e' =>
    simp only [first, bind, Except.bind, Except.error.injEq] at h
    exact h ▸ add first
  | ok admn =>
    cases second : Index.add q.ready ins.proc q.proc
        ⟨cb.procFn ω q.toQueueInfo skb, cb.admnFn ω q.toQueueInfo skb, skb⟩ with
    | error e' =>
      simp only [first, second, bind, Except.bind, Except.error.injEq] at h
      exact h ▸ add second
    | ok proc => simp [first, second, bind, Except.bind, pure, Except.pure] at h

/-- Every call of a queue function goes one of the ways, or has no node pool or no slot. -/
theorem stepped (cb : Callbacks Ω π) (s : ListPort π) (op : Op Ω π) :
    (∃ out s', s.step cb op = .ok (out, s') ∧ Stepped cb s op out s') ∨
    s.step cb op = .error .noNodePool ∨ s.step cb op = .error .badIndex := by
  cases op with
  | doEnqueue i ω ins skb =>
    have enter : s.step cb (.doEnqueue i ω ins skb) = (onQueue i (doEnqueue cb ω ins skb) s >>= fun r =>
      .ok (.status r.1, r.2)) := rfl
    rw [enter, run_enqueue]
    cases enq : (s.queues i).doEnqueue cb ω ins skb with
    | error e => exact .inr (.inl (by rw [doEnqueue_error enq]; rfl))
    | ok q => exact .inl ⟨_, _, rfl, .enqueued enq⟩
  | doDropTail i => exact .inl ⟨_, _, rfl, .droppedTail rfl⟩
  | oqDequeue ω =>
    rw [step, step_dequeue_eq]
    cases slot : slot? (cb.schedFn ω s.infos) with
    | none => exact .inr (.inr rfl)
    | some i => exact .inl ⟨_, _, rfl, .dequeued slot rfl⟩

/-- A call that succeeds went one of the ways. -/
theorem Stepped.of_step {op : Op Ω π} (h : s.step cb op = .ok (out, s')) : Stepped cb s op out s' := by
  rcases stepped cb s op with ⟨out', s₁, run, way⟩ | fault | fault
  · rw [h] at run
    cases run
    exact way
  · rw [h] at fault
    cases fault
  · rw [h] at fault
    cases fault

/-- The ways are what the qdisc does. -/
theorem Called.run {c : Call Ω π} (way : Called cb s c out s') : s.call cb c = .ok (out, s') := by
  have enter : ∀ ω ins skb, s.call cb (.oqEnqueue ω ins skb) =
      (oqEnqueue cb ω ins skb s >>= fun r => .ok (.status r.1, r.2)) := fun _ _ _ => rfl
  cases way with
  | admitted slot free enq =>
    rw [enter, oqEnqueue_free slot free, run_enqueue, enq]
    rfl
  | tailDropped congested tail drop enq =>
    rw [enter, oqEnqueue_full congested, if_pos tail, run_enqueue, set_queues, drop, enq]
    simp only [set_set]
    rfl
  | refused congested pkt =>
    rw [enter, oqEnqueue_full congested, if_neg (by rw [pkt]; decide), if_pos pkt]
    rfl
  | ignored congested tail pkt =>
    rw [enter, oqEnqueue_full congested, if_neg tail, if_neg pkt]
    rfl
  | dequeued slot deq =>
    rw [call, step_dequeue_eq, slot]
    simp only [deq]

/-- Every call of the qdisc goes one of the ways, or has no node pool or no slot. -/
theorem called (cb : Callbacks Ω π) (s : ListPort π) (c : Call Ω π) :
    (∃ out s', Called cb s c out s') ∨ s.call cb c = .error .noNodePool ∨ s.call cb c = .error .badIndex := by
  cases c with
  | oqEnqueue ω ins skb =>
    have enter : s.call cb (.oqEnqueue ω ins skb) =
      (oqEnqueue cb ω ins skb s >>= fun r => .ok (.status r.1, r.2)) := rfl
    cases slot : slot? (cb.qSelect ω s.infos skb) with
    | none => exact .inr (.inr (by rw [enter, oqEnqueue_badIndex slot]; rfl))
    | some i =>
      cases full : cb.congFn ω (s.infos i) with
      | false =>
        cases enq : (s.queues i).doEnqueue cb ω ins skb with
        | error e =>
          refine .inr (.inl ?_)
          rw [enter, oqEnqueue_free slot full, run_enqueue, enq, doEnqueue_error enq]
          rfl
        | ok q => exact .inl ⟨_, _, .admitted slot full enq⟩
      | true =>
        by_cases tail : cb.congActFn ω (s.infos i) skb = oqConActDropTail
        · cases enq : (s.queues i).doDropTail.2.2.doEnqueue cb ω ins skb with
          | error e =>
            refine .inr (.inl ?_)
            rw [enter, oqEnqueue_full ⟨slot, full⟩, if_pos tail, run_enqueue, set_queues, enq, doEnqueue_error enq]
            rfl
          | ok q => exact .inl ⟨_, _, .tailDropped ⟨slot, full⟩ tail rfl enq⟩
        · by_cases pkt : cb.congActFn ω (s.infos i) skb = oqConActDropPkt
          · exact .inl ⟨_, _, .refused ⟨slot, full⟩ pkt⟩
          · exact .inl ⟨_, _, .ignored ⟨slot, full⟩ tail pkt⟩
  | oqDequeue ω =>
    cases slot : slot? (cb.schedFn ω s.infos) with
    | none => exact .inr (.inr (by rw [call, step_dequeue_eq, slot]))
    | some i => exact .inl ⟨_, _, .dequeued slot rfl⟩

/-- A call that succeeds went one of the ways. -/
theorem Called.of_call {c : Call Ω π} (h : s.call cb c = .ok (out, s')) : Called cb s c out s' := by
  rcases called cb s c with ⟨out', s₁, way⟩ | fault | fault
  · have run := way.run
    rw [h] at run
    cases run
    exact way
  · rw [h] at fault
    cases fault
  · rw [h] at fault
    cases fault

/-! ## Arrival order -/

/-- A queue keeps its packets in order, and a new one comes last. -/
theorem doEnqueue_sublist {q q' : ListQueue π} {ins : Inserts} {skb : SkBuff π}
    (h : q.doEnqueue cb ω ins skb = .ok q') (t : Side) :
    ((q'.side t).map Item.skb).Sublist ((q.side t).map Item.skb ++ [skb]) := by
  have one : ∀ {ready ins : Bool} {l l' : List (Item π)} {x : Item π}, Index.add ready ins l x = .ok l' → x.skb = skb →
      (l'.map Item.skb).Sublist (l.map Item.skb ++ [skb]) := by
    rintro ready ins l l' x add rfl
    rcases Index.add_cases add with rfl | ⟨rfl, -⟩
    · rw [List.map_append]
      exact List.Sublist.refl _
    · exact List.sublist_append_left _ _
  obtain ⟨admn, proc, -⟩ := ListQueue.doEnqueue_ok h
  cases t with
  | admn => exact one admn rfl
  | proc => exact one proc rfl

/-- What replaces one queue may add to it; the others stay. -/
theorem set_sublist {j : QId} {q : ListQueue π} {freed l : List (SkBuff π)} {t : Side}
    (changed : i = j → ((q.side t).map Item.skb).Sublist (((s.queues i).side t).map Item.skb ++ l)) :
    ((((s.set i q freed).queues j).side t).map Item.skb).Sublist (((s.queues j).side t).map Item.skb ++ l) := by
  by_cases here : i = j
  · subst here
    rw [set_queues]
    exact changed rfl
  · rw [set_other _ _ _ (Ne.symm here)]
    exact List.sublist_append_left _ _

theorem Stepped.sublist {op : Op Ω π} (way : Stepped cb s op out s') (j : QId) (t : Side) :
    (((s'.queues j).side t).map Item.skb).Sublist (((s.queues j).side t).map Item.skb ++ arrivals j [op]) := by
  cases way with
  | @enqueued i ω ins skb q enq =>
    refine set_sublist ?_
    rintro rfl
    have one : arrivals i [Op.doEnqueue i ω ins skb] = [skb] := by simp [arrivals]
    rw [one]
    exact doEnqueue_sublist enq t
  | @droppedTail i exit freed q drop =>
    refine set_sublist fun _ => ?_
    have sub := ListQueue.doDropTail_sublist (s.queues i) t
    rw [drop] at sub
    exact (sub.map _).trans (List.sublist_append_left _ _)
  | @dequeued i ω exit q slot deq =>
    refine set_sublist fun _ => ?_
    have sub := ListQueue.dequeueFrom_sublist (s.queues i) t
    rw [deq] at sub
    exact (sub.map _).trans (List.sublist_append_left _ _)

theorem Called.sublist {c : Call Ω π} (way : Called cb s c out s') (j : QId) (t : Side) :
    (((s'.queues j).side t).map Item.skb).Sublist (((s.queues j).side t).map Item.skb ++ offered [c]) := by
  cases way with
  | admitted slot free enq => exact set_sublist fun _ => doEnqueue_sublist enq t
  | @tailDropped i ω ins skb exit freed q q' congested tail drop enq =>
    refine set_sublist fun _ => ?_
    have sub := ListQueue.doDropTail_sublist (s.queues i) t
    rw [drop] at sub
    exact (doEnqueue_sublist enq t).trans ((sub.map _).append (List.Sublist.refl _))
  | @refused i ω ins skb congested pkt =>
    refine set_sublist fun _ => List.Sublist.trans ?_ (List.sublist_append_left _ _)
    cases t <;> exact List.Sublist.refl _
  | ignored congested tail pkt => exact List.sublist_append_left _ _
  | @dequeued i ω exit q slot deq =>
    refine set_sublist fun _ => ?_
    have sub := ListQueue.dequeueFrom_sublist (s.queues i) t
    rw [deq] at sub
    exact (sub.map _).trans (List.sublist_append_left _ _)

/-- Over a run of queue functions the lists stay in the order of arrival. -/
theorem run_arrivals {ops : List (Op Ω π)} {outs : List (Out π)}
    (run : Lib.run (step cb) s ops = .ok (outs, s')) (j : QId) (t : Side) :
    (((s'.queues j).side t).map Item.skb).Sublist (((s.queues j).side t).map Item.skb ++ arrivals j ops) := by
  refine Lib.run_induction (P := fun ops _ s' =>
    (((s'.queues j).side t).map Item.skb).Sublist (((s.queues j).side t).map Item.skb ++ arrivals j ops)) ?_ ?_ run
  · exact List.sublist_append_left _ _
  · intro ops outs u op out u' _ before step
    rw [arrivals_append, ← List.append_assoc]
    exact ((Stepped.of_step step).sublist j t).trans (before.append (List.Sublist.refl _))

/-- Over a run of the qdisc as well. -/
theorem run_offered {calls : List (Call Ω π)} {outs : List (Out π)}
    (run : Lib.run (call cb) s calls = .ok (outs, s')) (j : QId) (t : Side) :
    (((s'.queues j).side t).map Item.skb).Sublist (((s.queues j).side t).map Item.skb ++ offered calls) := by
  refine Lib.run_induction (P := fun calls _ s' =>
    (((s'.queues j).side t).map Item.skb).Sublist (((s.queues j).side t).map Item.skb ++ offered calls)) ?_ ?_ run
  · exact List.sublist_append_left _ _
  · intro calls outs u c out u' _ before call
    rw [offered_append, ← List.append_assoc]
    exact ((Called.of_call call).sublist j t).trans (before.append (List.Sublist.refl _))

end ListPort

end OpenQueue
