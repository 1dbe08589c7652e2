import OpenQueue.Sim.Queue
import OpenQueue.Lib.Run
import Mathlib

/-!
# The port on memory and on lists

All queues of a port share one memory. Seen from one queue, the cells of the others
are a frame, so what its functions do in memory is what they do on its two lists,
and the others do not notice. `PortRepr` is kept by every call, and calls on memory
and on lists answer alike, faults included.
-/

namespace OpenQueue

variable {Ω π β γ : Type}

/-- A port as lists, with the packets freed so far. -/
structure ListPort (π : Type) where
  queues : QId → ListQueue π
  freed : List (SkBuff π)

/-- Code that runs on a port of lists. -/
abbrev ListPortM (π : Type) := StateT (ListPort π) (Except Fault)

namespace ListPort

/-- What the callbacks see of the queues. -/
def infos (s : ListPort π) (i : QId) : QueueInfo := (s.queues i).toQueueInfo

/-- `&priv->queues[q]`. -/
def pick (q : Int) : ListPortM π QId := fun s =>
  match slot? q with
  | none => .error .badIndex
  | some i => .ok (i, s)

/-- Call a queue function, which says what it frees, on `&priv->queues[i]`. -/
def onQueue (i : QId) (f : ListQueue π → Except Fault (β × List (SkBuff π) × ListQueue π)) : ListPortM π β :=
  fun s =>
    match f (s.queues i) with
    | .error e => .error e
    | .ok (b, freed, q) => .ok (b, ⟨Function.update s.queues i q, s.freed ++ freed⟩)

/-- `do_enqueue` on a slot. -/
def doEnqueue (cb : Callbacks Ω π) (ω : Ω) (ins : Inserts) (skb : SkBuff π) (q : ListQueue π) :
    Except Fault (Int × List (SkBuff π) × ListQueue π) :=
  (q.doEnqueue cb ω ins skb).map fun q => (netXmitSuccess, [], q)

/-- `do_drop_tail` on a slot. -/
def doDropTail (q : ListQueue π) : Except Fault (DropExit × List (SkBuff π) × ListQueue π) :=
  .ok q.doDropTail

/-- Refuse a packet. -/
def dropPkt (skb : SkBuff π) (q : ListQueue π) : Except Fault (Unit × List (SkBuff π) × ListQueue π) :=
  .ok ((), [skb], { q with dropped := q.dropped + 1 })

/-- `oq_dequeue` on the picked slot. -/
def dequeueFrom (q : ListQueue π) : Except Fault (DequeueExit π × List (SkBuff π) × ListQueue π) :=
  .ok (q.dequeueFrom.1, [], q.dequeueFrom.2)

/-- `oq_enqueue`. -/
def oqEnqueue (cb : Callbacks Ω π) (ω : Ω) (ins : Inserts) (skb : SkBuff π) : ListPortM π Int := do
  let i ← pick (cb.qSelect ω (← get).infos skb)
  let queue := (← get).infos i
  if cb.congFn ω queue = false then
    onQueue i (doEnqueue cb ω ins skb)
  else
    let action := cb.congActFn ω queue skb
    if action = oqConActDropTail then
      let _ ← onQueue i doDropTail
      let _ ← onQueue i (doEnqueue cb ω ins skb)
    else if action = oqConActDropPkt then
      onQueue i (dropPkt skb)
    return 0

/-- `oq_dequeue`. -/
def oqDequeue (cb : Callbacks Ω π) (ω : Ω) : ListPortM π (DequeueExit π) := do
  let i ← pick (cb.schedFn ω (← get).infos)
  onQueue i dequeueFrom

/-- One call of a queue function. -/
def step (cb : Callbacks Ω π) (s : ListPort π) : Op Ω π → Except Fault (Out π × ListPort π)
  | .doEnqueue i ω ins skb => (do return .status (← onQueue i (doEnqueue cb ω ins skb)) : ListPortM π (Out π)) s
  | .doDropTail i => (do return .dropTail (← onQueue i doDropTail) : ListPortM π (Out π)) s
  | .oqDequeue ω => (do return .dequeue (← oqDequeue cb ω) : ListPortM π (Out π)) s

/-- One call of the qdisc. -/
def call (cb : Callbacks Ω π) (s : ListPort π) : Call Ω π → Except Fault (Out π × ListPort π)
  | .oqEnqueue ω ins skb => (do return .status (← oqEnqueue cb ω ins skb) : ListPortM π (Out π)) s
  | .oqDequeue ω => (do return .dequeue (← oqDequeue cb ω) : ListPortM π (Out π)) s

/-- Nothing is held. -/
def initial (infos : QId → QueueInfo) : ListPort π := ⟨fun i => ⟨infos i, [], []⟩, []⟩

end ListPort

/-! ## The memory of a port -/

/-- The containers of a queue. -/
def QLayout.cells (g : QLayout) : Multiset Addr := g.admn.cells + g.proc.cells

/-- The list heads of a queue. -/
def QLayout.heads (g : QLayout) : Multiset Addr := g.admn.heads + g.proc.heads

/-- A queue does not notice what happens outside its cells. -/
theorem QueueRepr.frame {m m' : Mem π} {q : OqQueue} {g : QLayout} {a : ListQueue π} {F G : Multiset Addr}
    (repr : QueueRepr m q g a) (f : Frame m m' F G) (hF : ∀ c ∈ g.cells, c ∈ F) (hG : ∀ c ∈ g.heads, c ∈ G) :
    QueueRepr m' q g a :=
  ⟨repr.info,
    repr.admn.frame f (fun c h => hF c (Multiset.mem_add.2 (.inl h))) fun c h => hG c (Multiset.mem_add.2 (.inl h)),
    repr.proc.frame f (fun c h => hF c (Multiset.mem_add.2 (.inr h))) fun c h => hG c (Multiset.mem_add.2 (.inr h))⟩

/-- The memory holds the lists of all queues, laid out by `g`; besides their cells only
the lost ones, `C` and `L`, are live. -/
structure PortRepr (p : Port π) (g : QId → QLayout) (C L : Multiset Addr) (s : ListPort π) : Prop where
  queues : ∀ i, QueueRepr p.mem (p.queues i) (g i) (s.queues i)
  conts : p.mem.conts.Owns (∑ i, (g i).cells + C)
  lists : p.mem.lists.Owns (∑ i, (g i).heads + L)
  freed : p.mem.freed = s.freed

section

variable {κ α : Type} [Fintype κ] [DecidableEq κ] {f : α → Multiset Addr} {g : κ → α} {i j : κ}

/-- The cells of all queues but one. -/
def rest (f : α → Multiset Addr) (g : κ → α) (i : κ) : Multiset Addr := ∑ j ∈ Finset.univ.erase i, f (g j)

theorem sum_eq_rest (f : α → Multiset Addr) (g : κ → α) (i : κ) : ∑ j, f (g j) = f (g i) + rest f g i :=
  (Finset.add_sum_erase _ (fun j => f (g j)) (Finset.mem_univ i)).symm

theorem rest_update (f : α → Multiset Addr) (g : κ → α) (i : κ) (x : α) :
    rest f (Function.update g i x) i = rest f g i := by
  refine Finset.sum_congr rfl (fun j hj => ?_)
  rw [Function.update_of_ne (Finset.ne_of_mem_erase hj)]

theorem mem_rest {a : Addr} (other : j ≠ i) (h : a ∈ f (g j)) : a ∈ rest f g i :=
  Multiset.mem_sum.2 ⟨j, Finset.mem_erase.2 ⟨other, Finset.mem_univ j⟩, h⟩

end

namespace PortRepr

variable {p : Port π} {g : QId → QLayout} {C L : Multiset Addr} {s : ListPort π}

theorem infos (repr : PortRepr p g C L s) : p.infos = s.infos :=
  funext fun i => (repr.queues i).info

/-- The cells seen from one queue. -/
theorem focus (repr : PortRepr p g C L s) (i : QId) :
    QOwned p.mem (g i) (rest QLayout.cells g i + C) (rest QLayout.heads g i + L) := by
  have conts := repr.conts
  have lists := repr.lists
  rw [sum_eq_rest _ g i, QLayout.cells] at conts
  rw [sum_eq_rest _ g i, QLayout.heads] at lists
  refine ⟨?_, ?_⟩
  · simpa only [add_assoc] using conts
  · simpa only [add_assoc] using lists

/-- One queue changes and the others are framed. -/
theorem update {i : QId} {m' : Mem π} {q' : OqQueue} {g' : QLayout} {a' : ListQueue π} {C' L' : Multiset Addr}
    {freed : List (SkBuff π)} (repr : PortRepr p g C L s) (after : QueueRepr m' q' g' a')
    (own : QOwned m' g' (C' + (rest QLayout.cells g i + C)) (L' + (rest QLayout.heads g i + L)))
    (frame : Frame p.mem m' (rest QLayout.cells g i + C) (rest QLayout.heads g i + L))
    (log : m'.freed = p.mem.freed ++ freed) :
    PortRepr ⟨m', Function.update p.queues i q'⟩ (Function.update g i g') (C' + C) (L' + L)
      ⟨Function.update s.queues i a', s.freed ++ freed⟩ := by
  refine ⟨?_, ?_, ?_, ?_⟩
  · intro j
    by_cases same : j = i
    · subst same
      simpa only [Function.update_self] using after
    · simp only [Function.update_of_ne same]
      exact (repr.queues j).frame frame (fun a h => Multiset.mem_add.2 (.inl (mem_rest same h)))
        fun a h => Multiset.mem_add.2 (.inl (mem_rest same h))
  · rw [sum_eq_rest _ _ i, rest_update, Function.update_self, QLayout.cells]
    have conts := own.conts
    rwa [add_left_comm C', ← add_assoc, ← add_assoc] at conts
  · rw [sum_eq_rest _ _ i, rest_update, Function.update_self, QLayout.heads]
    have lists := own.lists
    rwa [add_left_comm L', ← add_assoc, ← add_assoc] at lists
  · show m'.freed = s.freed ++ freed
    rw [log, repr.freed]

end PortRepr

/-! ## Calls on memory and on lists -/

/-- A queue function on memory answers, frees and faults as its model on lists. -/
def QueueSim (f : OqQueue → M π (β × OqQueue))
    (f' : ListQueue π → Except Fault (β × List (SkBuff π) × ListQueue π)) : Prop :=
  ∀ m q g a F G, QueueRepr m q g a → QOwned m g F G →
    (∀ e, f' a = .error e → f q m = .error e) ∧
    ∀ b freed a', f' a = .ok (b, freed, a') →
      ∃ q' m' g' C L, f q m = .ok ((b, q'), m') ∧ QueueRepr m' q' g' a' ∧ QOwned m' g' (C + F) (L + G) ∧
        Frame m m' F G ∧ m'.freed = m.freed ++ freed

theorem doEnqueue_sim (cb : Callbacks Ω π) (ω : Ω) (ins : Inserts) (skb : SkBuff π) :
    QueueSim (doEnqueue cb ω ins skb) (ListPort.doEnqueue cb ω ins skb) := by
  intro m q g a F G repr own
  cases h : a.doEnqueue cb ω ins skb with
  | error e =>
    refine ⟨fun e' fault => ?_, fun b freed a' ok => ?_⟩
    · simp only [ListPort.doEnqueue, h, Except.map, Except.error.injEq] at fault
      exact fault ▸ doEnqueue_fault repr own h
    · simp [ListPort.doEnqueue, h, Except.map] at ok
  | ok a₁ =>
    refine ⟨fun e' fault => ?_, fun b freed a' ok => ?_⟩
    · simp [ListPort.doEnqueue, h, Except.map] at fault
    · simp only [ListPort.doEnqueue, h, Except.map, Except.ok.injEq, Prod.mk.injEq] at ok
      obtain ⟨rfl, rfl, rfl⟩ := ok
      obtain ⟨q', m', g', C, L, run, after, own', frame, log, -⟩ := doEnqueue_spec repr own h
      exact ⟨q', m', g', C, L, run, after, own', frame, by rw [log, List.append_nil]⟩

theorem doDropTail_sim : QueueSim doDropTail (@ListPort.doDropTail π) := by
  intro m q g a F G repr own
  refine ⟨nofun, fun b freed a' ok => ?_⟩
  have answer : a.doDropTail = (b, freed, a') := Except.ok.inj ok
  have spec := doDropTail_spec repr own
  rw [answer] at spec
  obtain ⟨q', m', g', C, run, after, own', frame, log, -⟩ := spec
  exact ⟨q', m', g', C, 0, run, after, by rwa [zero_add], frame, log⟩

theorem dequeueFrom_sim : QueueSim dequeueFrom (@ListPort.dequeueFrom π) := by
  intro m q g a F G repr own
  refine ⟨nofun, fun b freed a' ok => ?_⟩
  cases ok
  obtain ⟨q', m', g', C, run, after, own', frame, log, -⟩ := dequeueFrom_spec repr own
  exact ⟨q', m', g', C, 0, run, after, by rwa [zero_add], frame, by rw [log, List.append_nil]⟩

theorem dropPkt_sim (skb : SkBuff π) : QueueSim (dropPkt skb) (ListPort.dropPkt skb) := by
  intro m q g a F G repr own
  refine ⟨nofun, fun b freed a' ok => ?_⟩
  cases ok
  have after : QueueRepr { m with freed := m.freed ++ [skb] } q g a :=
    repr.frame (F := g.cells) (G := g.heads) (Frame.of_eq rfl rfl rfl rfl rfl) (fun _ h => h) (fun _ h => h)
  refine ⟨{ q with dropped := q.dropped + 1 }, { m with freed := m.freed ++ [skb] }, g, 0, 0, rfl,
    ⟨?_, after.admn, after.proc⟩, ?_, Frame.of_eq rfl rfl rfl rfl rfl, rfl⟩
  · simp only [← repr.info]
  · rw [zero_add, zero_add]
    exact ⟨own.conts, own.lists⟩

/-- The memory holds the lists, wherever its cells lie. -/
def Holds (p : Port π) (s : ListPort π) : Prop := ∃ g C L, PortRepr p g C L s

/-- Code on memory and code on lists answer alike and keep the relation. -/
def Sim (x : PortM π β) (y : ListPortM π β) : Prop := ∀ p s, Holds p s → Lib.Agree Holds (x p) (y s)

/-- What is there after a call, seen from the cells `C` and `L` that are not the port's:
they are as before, and the port may have lost some of its own. -/
def HoldsBeside (m : Mem π) (C L : Multiset Addr) (p : Port π) (s : ListPort π) : Prop :=
  ∃ g C' L', PortRepr p g (C' + C) (L' + L) s ∧ Frame m p.mem C L

/-- The same, and nobody else notices. -/
def FramedSim (x : PortM π β) (y : ListPortM π β) : Prop :=
  ∀ p g C L s, PortRepr p g C L s → Lib.Agree (HoldsBeside p.mem C L) (x p) (y s)

theorem PortRepr.holdsBeside {p : Port π} {g : QId → QLayout} {C L : Multiset Addr} {s : ListPort π}
    (repr : PortRepr p g C L s) : HoldsBeside p.mem C L p s :=
  ⟨g, 0, 0, by rwa [zero_add, zero_add], Frame.of_eq rfl rfl rfl rfl rfl⟩

/-- What holds beside what was held beside some cells. -/
theorem HoldsBeside.trans {m : Mem π} {C L C' L' : Multiset Addr} {p p' : Port π} {s' : ListPort π}
    (frame : Frame m p.mem C L) (after : HoldsBeside p.mem (C' + C) (L' + L) p' s') : HoldsBeside m C L p' s' := by
  obtain ⟨g, C'', L'', repr, frame'⟩ := after
  refine ⟨g, C'' + C', L'' + L', ?_, frame.trans frame'.right⟩
  rwa [add_assoc, add_assoc]

namespace FramedSim

variable {x : PortM π β} {y : ListPortM π β}

theorem sim (framed : FramedSim x y) : Sim x y := by
  rintro p s ⟨g, C, L, repr⟩
  refine (framed p g C L s repr).mono ?_
  rintro p' s' ⟨g', C', L', repr', -⟩
  exact ⟨_, _, _, repr'⟩

theorem pure (b : β) : FramedSim (pure b : PortM π β) (pure b) := fun _ _ _ _ _ repr => .ok repr.holdsBeside

theorem bind {f : β → PortM π γ} {f' : β → ListPortM π γ} (first : FramedSim x y) (next : ∀ b, FramedSim (f b) (f' b)) :
    FramedSim (x >>= f) (y >>= f') := by
  intro p g C L s repr
  have agree := first p g C L s repr
  show Lib.Agree (HoldsBeside p.mem C L) (x p >>= fun r => f r.1 r.2) (y s >>= fun r => f' r.1 r.2)
  generalize x p = r at agree
  generalize y s = r' at agree
  cases agree with
  | error e => exact .error e
  | @ok b p' s' after =>
    obtain ⟨g', C', L', repr', frame⟩ := after
    exact (next b p' g' _ _ s' repr').mono fun _ _ last => HoldsBeside.trans frame last

/-- What the callbacks see is the same. -/
theorem infos {f : Port π → PortM π β} {f' : ListPort π → ListPortM π β}
    (next : ∀ p s, p.infos = s.infos → FramedSim (f p) (f' s)) : FramedSim (get >>= f) (get >>= f') := by
  intro p g C L s repr
  exact next p s repr.infos p g C L s repr

theorem pick (q : Int) : FramedSim (pick q) (@ListPort.pick π q) := by
  intro p g C L s repr
  unfold OpenQueue.pick ListPort.pick
  cases slot? q with
  | none => exact .error _
  | some i => exact .ok repr.holdsBeside

theorem onQueue {f : OqQueue → M π (β × OqQueue)}
    {f' : ListQueue π → Except Fault (β × List (SkBuff π) × ListQueue π)} (sim : QueueSim f f') (i : QId) :
    FramedSim (onQueue i f) (ListPort.onQueue i f') := by
  intro p g C L s repr
  obtain ⟨fault, ok⟩ := sim _ _ _ _ _ _ (repr.queues i) (repr.focus i)
  unfold OpenQueue.onQueue ListPort.onQueue
  cases answer : f' (s.queues i) with
  | error e =>
    rw [fault e answer]
    exact .error e
  | ok r =>
    obtain ⟨b, freed, a'⟩ := r
    obtain ⟨q', m', g', C', L', run, after, own, frame, log⟩ := ok b freed a' answer
    rw [run]
    exact .ok ⟨_, C', L', repr.update after own frame log, frame.right⟩

end FramedSim

theorem oqEnqueue_framed (cb : Callbacks Ω π) (ω : Ω) (ins : Inserts) (skb : SkBuff π) :
    FramedSim (oqEnqueue cb ω ins skb) (ListPort.oqEnqueue cb ω ins skb) := by
  refine FramedSim.infos fun p s same => ?_
  rw [same]
  refine FramedSim.bind (FramedSim.pick _) fun i => FramedSim.infos fun p s same => ?_
  rw [same]
  dsimp only
  split
  · exact FramedSim.onQueue (doEnqueue_sim cb ω ins skb) i
  · split
    · exact FramedSim.bind (FramedSim.onQueue doDropTail_sim i) fun _ =>
        FramedSim.bind (FramedSim.onQueue (doEnqueue_sim cb ω ins skb) i) fun _ => FramedSim.pure _
    · split
      · exact FramedSim.bind (FramedSim.onQueue (dropPkt_sim skb) i) fun _ => FramedSim.pure _
      · exact FramedSim.pure _

theorem oqDequeue_framed (cb : Callbacks Ω π) (ω : Ω) : FramedSim (oqDequeue cb ω) (ListPort.oqDequeue cb ω) := by
  refine FramedSim.infos fun p s same => ?_
  rw [same]
  exact FramedSim.bind (FramedSim.pick _) fun i => FramedSim.onQueue dequeueFrom_sim i

/-- One call of a queue function. -/
theorem step_agree (cb : Callbacks Ω π) (p : Port π) (s : ListPort π) (op : Op Ω π) (related : Holds p s) :
    Lib.Agree Holds (p.step cb op) (s.step cb op) := by
  cases op with
  | doEnqueue i ω ins skb =>
    exact (FramedSim.bind (FramedSim.onQueue (doEnqueue_sim cb ω ins skb) i) fun _ => FramedSim.pure _).sim p s related
  | doDropTail i => exact (FramedSim.bind (FramedSim.onQueue doDropTail_sim i) fun _ => FramedSim.pure _).sim p s related
  | oqDequeue ω => exact (FramedSim.bind (oqDequeue_framed cb ω) fun _ => FramedSim.pure _).sim p s related

/-- One call of the qdisc, beside cells that are not the port's. -/
theorem call_framed (cb : Callbacks Ω π) {p : Port π} {g : QId → QLayout} {C L : Multiset Addr} {s : ListPort π}
    (repr : PortRepr p g C L s) (c : Call Ω π) :
    Lib.Agree (HoldsBeside p.mem C L) (p.call cb c) (s.call cb c) := by
  cases c with
  | oqEnqueue ω ins skb =>
    exact FramedSim.bind (oqEnqueue_framed cb ω ins skb) (fun _ => FramedSim.pure _) p g C L s repr
  | oqDequeue ω => exact FramedSim.bind (oqDequeue_framed cb ω) (fun _ => FramedSim.pure _) p g C L s repr

/-- One call of the qdisc. -/
theorem call_agree (cb : Callbacks Ω π) (p : Port π) (s : ListPort π) (c : Call Ω π) (related : Holds p s) :
    Lib.Agree Holds (p.call cb c) (s.call cb c) := by
  obtain ⟨g, C, L, repr⟩ := related
  refine (call_framed cb repr c).mono ?_
  rintro p' s' ⟨g', C', L', repr', -⟩
  exact ⟨_, _, _, repr'⟩

theorem TreeRepr.empty (m : Mem π) : TreeRepr m .empty .empty ([] : List (Item π)) :=
  ⟨rfl, fun k b h => by simp at h, fun k => rfl⟩

/-- A port that holds nothing. -/
theorem PortRepr.initial {p : Port π} (init : p.Initialised) :
    PortRepr p (fun _ => ⟨.empty, .empty⟩) 0 0 (ListPort.initial p.infos) := by
  refine ⟨fun i => ⟨rfl, ?_, ?_⟩, ?_, ?_, init.freed⟩
  · rw [init.admnQ i]
    exact .empty _
  · rw [init.procQ i]
    exact .empty _
  · have none : ∑ i : QId, QLayout.cells ⟨.empty, .empty⟩ = 0 := Finset.sum_eq_zero (fun _ _ => rfl)
    rw [none]
    exact Lib.Pool.owns_zero init.conts
  · have none : ∑ i : QId, QLayout.heads ⟨.empty, .empty⟩ = 0 := Finset.sum_eq_zero (fun _ _ => rfl)
    rw [none]
    exact Lib.Pool.owns_zero init.lists

section Runs

variable {cb : Callbacks Ω π} {p q : Port π} {outs : List (Out π)}

/-- A run of queue functions on memory is one on lists. -/
theorem run_steps {ops : List (Op Ω π)} (init : p.Initialised) (run : Lib.run (Port.step cb) p ops = .ok (outs, q)) :
    ∃ s, Lib.run (ListPort.step cb) (ListPort.initial p.infos) ops = .ok (outs, s) ∧ Holds q s := by
  have agree : Lib.Agree Holds (Lib.run (Port.step cb) p ops) _ :=
    Lib.run_agree (step_agree cb) ⟨_, _, _, PortRepr.initial init⟩
  rw [run] at agree
  exact agree.of_ok

/-- A run of the qdisc on memory is one on lists. -/
theorem run_calls {calls : List (Call Ω π)} (init : p.Initialised)
    (run : Lib.run (Port.call cb) p calls = .ok (outs, q)) :
    ∃ s, Lib.run (ListPort.call cb) (ListPort.initial p.infos) calls = .ok (outs, s) ∧ Holds q s := by
  have agree : Lib.Agree Holds (Lib.run (Port.call cb) p calls) _ :=
    Lib.run_agree (call_agree cb) ⟨_, _, _, PortRepr.initial init⟩
  rw [run] at agree
  exact agree.of_ok

end Runs

end OpenQueue
