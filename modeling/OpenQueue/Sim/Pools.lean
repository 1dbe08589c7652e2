import OpenQueue.Kernel.Qdisc
import OpenQueue.Lib.Moves

/-!
# What the code does to the pools

Whatever the lists look like, and whether or not they make sense: the queue functions
take cells only from beyond the break of a pool, and otherwise only give cells back.
-/

namespace OpenQueue

variable {Ω π β γ : Type}

/-- Both pools of a memory have moved on. -/
structure Mem.Evolves (m m' : Mem π) : Prop where
  conts : m.conts.Evolves m'.conts
  lists : m.lists.Evolves m'.lists

theorem Mem.Evolves.of_eq {m m' : Mem π} (conts : m'.conts = m.conts) (lists : m'.lists = m.lists) : m.Evolves m' :=
  ⟨conts ▸ .refl _, lists ▸ .refl _⟩

instance : Std.Refl (Mem.Evolves (π := π)) := ⟨fun _ => .of_eq rfl rfl⟩

instance : IsTrans (Mem π) Mem.Evolves :=
  ⟨fun _ _ _ first next => ⟨first.conts.trans next.conts, first.lists.trans next.lists⟩⟩

/-- Code that moves the pools on. -/
abbrev Evolving (x : M π β) : Prop := Lib.Moves Mem.Evolves x

section

theorem onContainer_evolving {a : Addr} {f : Mem π → β × Mem π} (step : ∀ m : Mem π, m.Evolves (f m).2) :
    Evolving (onContainer a f) := by
  intro m b m' run
  unfold onContainer at run
  split at run
  · have here := step m
    rwa [Except.ok.inj run] at here
  · cases run

theorem onContList_evolving {l : Addr} {f : Mem π → β × Mem π} (step : ∀ m : Mem π, m.Evolves (f m).2) :
    Evolving (onContList l f) := by
  intro m b m' run
  unfold onContList at run
  split at run
  · have here := step m
    rwa [Except.ok.inj run] at here
  · cases run

variable (a b l : Addr) (k : Key) (skb : SkBuff π)

theorem getOtherKey_evolving : Evolving (getOtherKey a : M π Key) := onContainer_evolving fun _ => .of_eq rfl rfl

theorem getSkb_evolving : Evolving (getSkb a : M π (SkBuff π)) := onContainer_evolving fun _ => .of_eq rfl rfl

theorem getNext_evolving : Evolving (getNext a : M π Addr) := onContainer_evolving fun _ => .of_eq rfl rfl

theorem getPrev_evolving : Evolving (getPrev a : M π Addr) := onContainer_evolving fun _ => .of_eq rfl rfl

theorem getHead_evolving : Evolving (getHead l : M π Addr) := onContList_evolving fun _ => .of_eq rfl rfl

theorem setOtherKey_evolving : Evolving (setOtherKey a k : M π Unit) := onContainer_evolving fun _ => .of_eq rfl rfl

theorem setSkb_evolving : Evolving (setSkb a skb) := onContainer_evolving fun _ => .of_eq rfl rfl

theorem setNext_evolving : Evolving (setNext a b : M π Unit) := onContainer_evolving fun _ => .of_eq rfl rfl

theorem setPrev_evolving : Evolving (setPrev a b : M π Unit) := onContainer_evolving fun _ => .of_eq rfl rfl

theorem setHead_evolving : Evolving (setHead l a : M π Unit) := onContList_evolving fun _ => .of_eq rfl rfl

theorem allocContainer_evolving : Evolving (allocContainer : M π Addr) := by
  rintro m b m' ⟨⟩
  exact ⟨.alloc _, .refl _⟩

theorem allocContList_evolving : Evolving (allocContList : M π Addr) := by
  rintro m b m' ⟨⟩
  exact ⟨.refl _, .alloc _⟩

theorem freeContainer_evolving : Evolving (freeContainer a : M π Unit) :=
  onContainer_evolving fun _ => ⟨.retire _ a, .refl _⟩

theorem freeContList_evolving : Evolving (freeContList l : M π Unit) :=
  onContList_evolving fun _ => ⟨.refl _, .retire _ l⟩

theorem kfreeSkb_evolving : Evolving (kfreeSkb skb) := by
  rintro m b m' ⟨⟩
  exact .of_eq rfl rfl

theorem btreeInsert_evolving (ready ins : Bool) (tree : BTree) : Evolving (btreeInsert ready ins tree k l : M π BTree) := by
  intro m t m' run
  unfold btreeInsert at run
  split at run
  · cases run
  · cases run
    exact .of_eq rfl rfl

end

/-! ## The queue functions -/

theorem linkTail_evolving (ready ins : Bool) (tree : BTree) (key otherKey : Key) (skb : SkBuff π) :
    Evolving (linkTail ready ins tree key otherKey skb) := by
  unfold linkTail
  split
  · refine .bind allocContainer_evolving fun c => ?_
    refine .bind (setNext_evolving c c) fun _ => .bind (setPrev_evolving c c) fun _ => ?_
    refine .bind allocContList_evolving fun l => .bind (setHead_evolving c l) fun _ => ?_
    refine .bind (btreeInsert_evolving l key ready ins tree) fun _ => ?_
    exact .bind (setOtherKey_evolving c otherKey) fun _ => .bind (setSkb_evolving c skb) fun _ => .pure _
  · next l _ =>
    refine .bind (getHead_evolving l) fun first => .bind (getPrev_evolving first) fun tail => ?_
    refine .bind allocContainer_evolving fun c => ?_
    refine .bind (setPrev_evolving c tail) fun _ => .bind (setNext_evolving tail c) fun _ => ?_
    refine .bind (setPrev_evolving first c) fun _ => .bind (setNext_evolving c first) fun _ => ?_
    exact .bind (setOtherKey_evolving c otherKey) fun _ => .bind (setSkb_evolving c skb) fun _ => .pure _

theorem doEnqueue_evolving (cb : Callbacks Ω π) (ω : Ω) (ins : Inserts) (skb : SkBuff π) (queue : OqQueue) :
    Evolving (doEnqueue cb ω ins skb queue) :=
  .bind (linkTail_evolving _ _ _ _ _ _) fun _ => .bind (linkTail_evolving _ _ _ _ _ _) fun _ => .pure _

theorem unlinkHead_evolving (tree : BTree) : Evolving (unlinkHead tree : M π (Option (Taken π))) := by
  unfold unlinkHead
  split
  · exact .pure _
  · next key l _ =>
    refine .bind (getHead_evolving l) fun c => .bind (getOtherKey_evolving c) fun _ => ?_
    refine .bind (getSkb_evolving c) fun _ => .bind (getNext_evolving c) fun next => ?_
    split
    · exact .bind (freeContList_evolving l) fun _ => .pure _
    · refine .bind (getNext_evolving c) fun first => .bind (getPrev_evolving c) fun tail => ?_
      refine .bind (setPrev_evolving first tail) fun _ => .bind (setNext_evolving tail first) fun _ => ?_
      exact .bind (setHead_evolving first l) fun _ => .pure _

theorem searchSkb_evolving (l : Addr) (skb : SkBuff π) (rounds : Nat) (c : Addr) :
    Evolving (searchSkb l skb rounds c) := by
  induction rounds generalizing c with
  | zero =>
    intro m b m' run
    cases run
  | succ rounds ih =>
    refine .bind (getSkb_evolving c) fun found => ?_
    split
    · exact .pure _
    · refine .bind (getNext_evolving c) fun next => .bind (getHead_evolving l) fun first => ?_
      split
      · exact .pure _
      · exact ih next

theorem unlinkSkb_evolving (tree : BTree) (key : Key) (skb : SkBuff π) : Evolving (unlinkSkb tree key skb) := by
  unfold unlinkSkb
  split
  · exact .pure _
  · next l _ =>
    refine .bind (getHead_evolving l) fun first => .bind .get fun m => ?_
    refine .bind (searchSkb_evolving l skb _ first) fun found => ?_
    split
    · exact .pure _
    · next c =>
      refine .bind (getNext_evolving c) fun next => ?_
      split
      · exact .bind (freeContList_evolving l) fun _ => .pure _
      · refine .bind (getNext_evolving c) fun next => .bind (getPrev_evolving c) fun prev => ?_
        refine .bind (setPrev_evolving next prev) fun _ => ?_
        refine .bind (getPrev_evolving c) fun prev => .bind (getNext_evolving c) fun next => ?_
        refine .bind (setNext_evolving prev next) fun _ => .bind (getHead_evolving l) fun first => ?_
        split
        · exact .bind (getNext_evolving c) fun next => .bind (setHead_evolving next l) fun _ => .pure _
        · exact .pure _

theorem doDropTail_evolving (queue : OqQueue) : Evolving (doDropTail queue : M π (DropExit × OqQueue)) := by
  refine .bind (unlinkHead_evolving _) fun taken => ?_
  split
  · exact .pure _
  · next admn =>
    refine .bind (unlinkSkb_evolving _ _ _) fun unlinked => ?_
    split
    · exact .pure _
    · exact .pure _
    · next c _ =>
      refine .bind (kfreeSkb_evolving _) fun _ => ?_
      exact .bind (freeContainer_evolving _) fun _ => .bind (freeContainer_evolving c) fun _ => .pure _

theorem dequeueFrom_evolving (queue : OqQueue) : Evolving (dequeueFrom queue : M π (DequeueExit π × OqQueue)) := by
  refine .bind (unlinkHead_evolving _) fun taken => ?_
  split
  · exact .pure _
  · next proc =>
    refine .bind (unlinkSkb_evolving _ _ _) fun unlinked => ?_
    split
    · exact .pure _
    · exact .pure _
    · next c _ => exact .bind (freeContainer_evolving _) fun _ => .bind (freeContainer_evolving c) fun _ => .pure _

theorem dropPkt_evolving (skb : SkBuff π) (queue : OqQueue) : Evolving (dropPkt skb queue) :=
  .bind (kfreeSkb_evolving skb) fun _ => .pure _

/-! ## Calls of the qdisc -/

/-- The pools have moved on, and no queue but `i` was written. -/
structure Port.Advances (i : QId) (p p' : Port π) : Prop where
  mem : p.mem.Evolves p'.mem
  other : ∀ j, j ≠ i → p'.queues j = p.queues j

section

variable {i : QId}

instance : Std.Refl (Port.Advances (π := π) i) := ⟨fun _ => ⟨refl _, fun _ _ => rfl⟩⟩

instance : IsTrans (Port π) (Port.Advances i) :=
  ⟨fun _ _ _ first next => ⟨IsTrans.trans _ _ _ first.mem next.mem,
    fun j other => (next.other j other).trans (first.other j other)⟩⟩

theorem onQueue_advances {f : OqQueue → M π (β × OqQueue)} (step : ∀ q, Evolving (f q)) (i : QId) :
    Lib.Moves (Port.Advances i) (onQueue i f) := by
  intro p b p' run
  unfold onQueue at run
  split at run
  · cases run
  · next here =>
    cases run
    exact ⟨step _ _ _ _ here, fun j other => Function.update_of_ne other _ _⟩

end

/-- The queue that a call picks. -/
def Port.selects (cb : Callbacks Ω π) (p : Port π) : Call Ω π → Option QId
  | .oqEnqueue ω _ skb => slot? (cb.qSelect ω p.infos skb)
  | .oqDequeue ω => slot? (cb.schedFn ω p.infos)

theorem pick_bind (q : Int) (f : QId → PortM π β) (p : Port π) :
    (pick q >>= f) p = match slot? q with
      | none => .error .badIndex
      | some i => f i p := by
  rw [run_bind, pick]
  cases slot? q <;> rfl

/-- A call that returns has picked a queue, and writes no other. -/
theorem Port.call_advances {cb : Callbacks Ω π} {p p' : Port π} {c : Call Ω π} {out : Out π}
    (run : p.call cb c = .ok (out, p')) : ∃ i, p.selects cb c = some i ∧ p.Advances i p' := by
  cases c with
  | oqEnqueue ω ins skb =>
    simp only [call, oqEnqueue, bind_assoc] at run
    rw [run_bind, run_get] at run
    simp only [pick_bind] at run
    cases slot : slot? (cb.qSelect ω p.infos skb) with
    | none =>
      rw [slot] at run
      cases run
    | some i =>
      rw [slot] at run
      refine ⟨i, slot, Lib.Moves.bind .get (fun p => ?_) p out p' run⟩
      have enqueue := onQueue_advances (doEnqueue_evolving cb ω ins skb) i
      refine .bind ?_ fun _ => .pure _
      split
      · exact enqueue
      · split
        · exact .bind (onQueue_advances doDropTail_evolving i) fun _ => .bind enqueue fun _ => .pure _
        · split
          · exact .bind (onQueue_advances (dropPkt_evolving skb) i) fun _ => .pure _
          · exact .pure _
  | oqDequeue ω =>
    simp only [call, oqDequeue, bind_assoc] at run
    rw [run_bind, run_get] at run
    simp only [pick_bind] at run
    cases slot : slot? (cb.schedFn ω p.infos) with
    | none =>
      rw [slot] at run
      cases run
    | some i =>
      rw [slot] at run
      exact ⟨i, slot, Lib.Moves.bind (onQueue_advances dequeueFrom_evolving i) (fun _ => .pure _) p out p' run⟩

end OpenQueue
