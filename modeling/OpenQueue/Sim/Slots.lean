import OpenQueue.Sim.Pools
import OpenQueue.Lib.Run

/-!
# Queues with a policy each

The callbacks of the qdisc are six functions for all queues of a port, which tell one queue
from another by its name. A policy is written queue by queue instead: `SlotPolicy` has the
functions of each slot, and `Port.callAt` answers a call with the functions of the slot it
picks. No call renames a queue, so callbacks that agree with a slot policy on the names in
the slots agree with it on whole runs, faults included.
-/

namespace OpenQueue

variable {Ω π β : Type}

/-- What is computed for one queue. -/
structure QueuePolicy (Ω π : Type) where
  cong : Ω → QueueInfo → Bool
  congAct : Ω → QueueInfo → SkBuff π → Int
  admn : Ω → QueueInfo → SkBuff π → Key
  proc : Ω → QueueInfo → SkBuff π → Key

/-- What is computed for each slot, and for the port. -/
structure SlotPolicy (Ω π : Type) where
  queue : QId → QueuePolicy Ω π
  qSelect : Ω → (QId → QueueInfo) → SkBuff π → Int
  schedFn : Ω → (QId → QueueInfo) → Int

/-- The functions of slot `i`, for any queue. -/
def SlotPolicy.callbacks (P : SlotPolicy Ω π) (i : QId) : Callbacks Ω π where
  congFn := (P.queue i).cong
  congActFn := (P.queue i).congAct
  admnFn := (P.queue i).admn
  procFn := (P.queue i).proc
  qSelect := P.qSelect
  schedFn := P.schedFn

/-- The number that the policy gives for a call. -/
def SlotPolicy.number (P : SlotPolicy Ω π) (infos : QId → QueueInfo) : Call Ω π → Int
  | .oqEnqueue ω _ skb => P.qSelect ω infos skb
  | .oqDequeue ω => P.schedFn ω infos

/-- A call of the qdisc, answered by the policy of the slot it picks. -/
def Port.callAt (P : SlotPolicy Ω π) (p : Port π) (c : Call Ω π) : Except Fault (Out π × Port π) :=
  match slot? (P.number p.infos c) with
  | none => .error .badIndex
  | some i => p.call (P.callbacks i) c

/-- On queues with the name of a slot the callbacks are the functions of that slot. -/
structure Callbacks.Follow (cb : Callbacks Ω π) (P : SlotPolicy Ω π) (name : QId → NameBuf) : Prop where
  cong : ∀ i ω queue, queue.name = name i → cb.congFn ω queue = (P.queue i).cong ω queue
  congAct : ∀ i ω queue skb, queue.name = name i → cb.congActFn ω queue skb = (P.queue i).congAct ω queue skb
  admn : ∀ i ω queue skb, queue.name = name i → cb.admnFn ω queue skb = (P.queue i).admn ω queue skb
  proc : ∀ i ω queue skb, queue.name = name i → cb.procFn ω queue skb = (P.queue i).proc ω queue skb
  qSelect : cb.qSelect = P.qSelect
  schedFn : cb.schedFn = P.schedFn

/-! ## Names stay -/

/-- The queue function does not rename its queue. -/
def KeepsName (f : OqQueue → M π (β × OqQueue)) : Prop := ∀ q, Lib.Returns (fun r : β × OqQueue => r.2.name = q.name) (f q)

theorem doEnqueue_keepsName (cb : Callbacks Ω π) (ω : Ω) (ins : Inserts) (skb : SkBuff π) :
    KeepsName (doEnqueue cb ω ins skb) :=
  fun _ => .bind fun _ => .bind fun _ => .pure rfl

theorem doDropTail_keepsName : KeepsName (doDropTail (π := π)) := by
  intro q
  refine .bind fun taken => ?_
  cases taken with
  | none => exact .pure rfl
  | some admn =>
    refine .bind fun unlinked => ?_
    cases unlinked with
    | noList => exact .pure rfl
    | noContainer => exact .pure rfl
    | taken c tree => exact .bind fun _ => .bind fun _ => .bind fun _ => .pure rfl

theorem dequeueFrom_keepsName : KeepsName (dequeueFrom (π := π)) := by
  intro q
  refine .bind fun taken => ?_
  cases taken with
  | none => exact .pure rfl
  | some proc =>
    refine .bind fun unlinked => ?_
    cases unlinked with
    | noList => exact .pure rfl
    | noContainer => exact .pure rfl
    | taken c tree => exact .bind fun _ => .bind fun _ => .pure rfl

theorem dropPkt_keepsName (skb : SkBuff π) : KeepsName (dropPkt skb) := fun _ => .bind fun _ => .pure rfl

/-- No queue has another name. -/
def Port.SameNames (p p' : Port π) : Prop := ∀ i, (p'.queues i).name = (p.queues i).name

instance Port.sameNames_refl : Std.Refl (Port.SameNames (π := π)) := ⟨fun _ _ => rfl⟩

instance Port.sameNames_trans : IsTrans (Port π) Port.SameNames :=
  ⟨fun _ _ _ first next i => (next i).trans (first i)⟩

theorem onQueue_sameNames {f : OqQueue → M π (β × OqQueue)} (keeps : KeepsName f) (i : QId) :
    Lib.Moves Port.SameNames (onQueue i f) := by
  intro p b p' run j
  unfold onQueue at run
  split at run
  · cases run
  · next here =>
    cases run
    by_cases same : j = i
    · subst same
      simp only [Function.update_self]
      exact keeps _ _ _ _ here
    · simp only [Function.update_of_ne same]

theorem pick_sameNames (q : Int) : Lib.Moves Port.SameNames (pick q : PortM π QId) := by
  intro p i p' run j
  unfold pick at run
  split at run
  · cases run
  · cases run
    rfl

/-- A call renames no queue. -/
theorem Port.call_sameNames {cb : Callbacks Ω π} {p p' : Port π} {c : Call Ω π} {out : Out π}
    (run : p.call cb c = .ok (out, p')) : p.SameNames p' := by
  cases c with
  | oqEnqueue ω ins skb =>
    refine Lib.Moves.bind (.bind .get fun q => .bind (pick_sameNames _) fun i => .bind .get fun q => ?_)
      (fun _ => .pure _) p out p' run
    have enqueue := onQueue_sameNames (doEnqueue_keepsName cb ω ins skb) i
    dsimp only
    split
    · exact enqueue
    · split
      · exact .bind (onQueue_sameNames doDropTail_keepsName i) fun _ => .bind enqueue fun _ => .pure _
      · split
        · exact .bind (onQueue_sameNames (dropPkt_keepsName skb) i) fun _ => .pure _
        · exact .pure _
  | oqDequeue ω =>
    exact Lib.Moves.bind (.bind .get fun q => .bind (pick_sameNames _) fun i => onQueue_sameNames dequeueFrom_keepsName i)
      (fun _ => .pure _) p out p' run

/-! ## One call -/

section Call

variable {cb cb' : Callbacks Ω π} {ω : Ω} {ins : Inserts} {skb : SkBuff π} {p : Port π} {i : QId}

theorem oqEnqueue_eq (slot : slot? (cb.qSelect ω p.infos skb) = some i) :
    oqEnqueue cb ω ins skb p =
      (if cb.congFn ω (p.infos i) = false then onQueue i (doEnqueue cb ω ins skb)
      else if cb.congActFn ω (p.infos i) skb = oqConActDropTail then do
        let _ ← onQueue i doDropTail
        let _ ← onQueue i (doEnqueue cb ω ins skb)
        return 0
      else if cb.congActFn ω (p.infos i) skb = oqConActDropPkt then do
        onQueue i (dropPkt skb)
        return 0
      else return 0 : PortM π Int) p := by
  rw [oqEnqueue, run_bind, run_get]
  simp only [pick_bind, slot]
  rw [run_bind, run_get]

theorem oqDequeue_eq (slot : slot? (cb.schedFn ω p.infos) = some i) :
    oqDequeue cb ω p = onQueue i dequeueFrom p := by
  rw [oqDequeue, run_bind, run_get]
  simp only [pick_bind, slot]

/-- An enqueue looks at the keys of its own queue only. -/
theorem onQueue_doEnqueue_congr
    (admn : cb.admnFn ω (p.infos i) skb = cb'.admnFn ω (p.infos i) skb)
    (proc : cb.procFn ω (p.infos i) skb = cb'.procFn ω (p.infos i) skb) :
    onQueue i (doEnqueue cb ω ins skb) p = onQueue i (doEnqueue cb' ω ins skb) p := by
  have same : doEnqueue cb ω ins skb (p.queues i) = doEnqueue cb' ω ins skb (p.queues i) := by
    change cb.admnFn ω (p.queues i).toQueueInfo skb = cb'.admnFn ω (p.queues i).toQueueInfo skb at admn
    change cb.procFn ω (p.queues i).toQueueInfo skb = cb'.procFn ω (p.queues i).toQueueInfo skb at proc
    rw [doEnqueue, doEnqueue, admn, proc]
  rw [onQueue, onQueue, same]

end Call

variable {cb : Callbacks Ω π} {P : SlotPolicy Ω π} {name : QId → NameBuf} {p : Port π}

/-- The call takes the same way with the callbacks and with the policy of its slot. -/
theorem Callbacks.Follow.call (follow : cb.Follow P name) (named : ∀ i, (p.queues i).name = name i) (c : Call Ω π) :
    p.call cb c = p.callAt P c := by
  unfold Port.callAt
  cases c with
  | oqEnqueue ω ins skb =>
    show (oqEnqueue cb ω ins skb p >>= fun r => (.ok (.status r.1, r.2) : Except Fault (Out π × Port π))) = _
    cases slot : slot? (P.number p.infos (.oqEnqueue ω ins skb)) with
    | none =>
      change slot? (P.qSelect ω p.infos skb) = none at slot
      rw [← follow.qSelect] at slot
      rw [oqEnqueue, run_bind, run_get]
      simp only [pick_bind, slot]
      rfl
    | some i =>
      change slot? (P.qSelect ω p.infos skb) = some i at slot
      have enqueue : ∀ q : Port π, (q.queues i).name = name i → onQueue i (doEnqueue cb ω ins skb) q =
          onQueue i (doEnqueue (P.callbacks i) ω ins skb) q := by
        intro q here
        exact onQueue_doEnqueue_congr (follow.admn i ω (q.infos i) skb here) (follow.proc i ω (q.infos i) skb here)
      have cond : cb.congFn ω (p.infos i) = (P.callbacks i).congFn ω (p.infos i) := follow.cong i ω _ (named i)
      have action : cb.congActFn ω (p.infos i) skb = (P.callbacks i).congActFn ω (p.infos i) skb :=
        follow.congAct i ω _ skb (named i)
      show _ = (oqEnqueue (P.callbacks i) ω ins skb p >>= fun r => (.ok (.status r.1, r.2) : Except Fault (Out π × Port π)))
      have slot₁ : slot? (cb.qSelect ω p.infos skb) = some i := by rw [follow.qSelect, slot]
      have slot₂ : slot? ((P.callbacks i).qSelect ω p.infos skb) = some i := slot
      rw [oqEnqueue_eq slot₁, oqEnqueue_eq slot₂, cond, action]
      congr 1
      split
      · exact enqueue p (named i)
      · split
        · -- the packet is added to the queue that the tail drop leaves, under its old name
          rw [run_bind, run_bind]
          cases drop : onQueue i doDropTail p with
          | error e => rfl
          | ok r =>
            have still := onQueue_sameNames doDropTail_keepsName i p r.1 r.2 drop i
            simp only
            rw [run_bind, run_bind, enqueue r.2 (still.trans (named i))]
        · rfl
  | oqDequeue ω =>
    show (oqDequeue cb ω p >>= fun r => (.ok (.dequeue r.1, r.2) : Except Fault (Out π × Port π))) = _
    cases slot : slot? (P.number p.infos (.oqDequeue ω)) with
    | none =>
      change slot? (P.schedFn ω p.infos) = none at slot
      rw [← follow.schedFn] at slot
      rw [oqDequeue, run_bind, run_get]
      simp only [pick_bind, slot]
      rfl
    | some i =>
      change slot? (P.schedFn ω p.infos) = some i at slot
      have slot₁ : slot? (cb.schedFn ω p.infos) = some i := by rw [follow.schedFn, slot]
      have slot₂ : slot? ((P.callbacks i).schedFn ω p.infos) = some i := slot
      show _ = (oqDequeue (P.callbacks i) ω p >>= fun r => (.ok (.dequeue r.1, r.2) : Except Fault (Out π × Port π)))
      rw [oqDequeue_eq slot₁, oqDequeue_eq slot₂]

/-- Callbacks and policy answer every sequence of calls alike. -/
theorem Callbacks.Follow.run (follow : cb.Follow P name) (named : ∀ i, (p.queues i).name = name i)
    (calls : List (Call Ω π)) : Lib.run (Port.call cb) p calls = Lib.run (Port.callAt P) p calls := by
  induction calls generalizing p with
  | nil => rfl
  | cons c calls ih =>
    rw [Lib.run, Lib.run, ← follow.call named c]
    cases step : p.call cb c with
    | error e => rfl
    | ok r =>
      obtain ⟨out, p'⟩ := r
      simp only
      rw [ih fun i => (Port.call_sameNames step i).trans (named i)]

end OpenQueue
