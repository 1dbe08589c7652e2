import OpenQueue.Sim.Blocks

/-!
# The queue functions on memory and on lists

One queue is two trees in the same memory. Each queue function runs one block on
the first tree with the second as a frame, then one on the second; what is left is
again two trees apart from everything else. The containers `C` that a function takes
out of both rings without freeing them are none when both halves succeed.
-/

namespace OpenQueue

variable {Ω π : Type}

/-- Where the two trees of a queue lie. -/
structure QLayout where
  admn : Layout
  proc : Layout

/-- The memory holds the queue `q` with the lists of `a`. -/
structure QueueRepr (m : Mem π) (q : OqQueue) (g : QLayout) (a : ListQueue π) : Prop where
  info : q.toQueueInfo = a.toQueueInfo
  admn : TreeRepr m q.admnQ g.admn a.admn
  proc : TreeRepr m q.procQ g.proc a.proc

/-- The live cells are those of the two trees and the frames. -/
def QOwned (m : Mem π) (g : QLayout) (F G : Multiset Addr) : Prop :=
  Owned m g.admn (g.proc.cells + F) (g.proc.heads + G)

variable {m m' : Mem π} {q : OqQueue} {g g' : QLayout} {a a' : ListQueue π} {F G : Multiset Addr}

/-- The same cells seen from the other tree. -/
theorem Owned.swap {s t : Layout} {C L : Multiset Addr}
    (own : Owned m s (C + (t.cells + F)) (L + (t.heads + G))) :
    Owned m t (s.cells + (C + F)) (s.heads + (L + G)) := by
  refine ⟨?_, ?_⟩
  · have same : t.cells + (s.cells + (C + F)) = s.cells + (C + (t.cells + F)) := by abel
    rw [same]
    exact own.conts
  · have same : t.heads + (s.heads + (L + G)) = s.heads + (L + (t.heads + G)) := by abel
    rw [same]
    exact own.lists

theorem QOwned.symm (own : QOwned m g F G) : Owned m g.proc (g.admn.cells + F) (g.admn.heads + G) := by
  unfold QOwned at own
  have swapped := Owned.swap (s := g.admn) (t := g.proc) (C := 0) (L := 0) (F := F) (G := G)
    (by simpa only [zero_add] using own)
  simpa only [zero_add] using swapped

theorem Frame.left {s : Multiset Addr} {t : Multiset Addr} (f : Frame m m' (s + F) (t + G)) : Frame m m' s t :=
  f.mono (fun _ h => Multiset.mem_add.2 (.inl h)) (fun _ h => Multiset.mem_add.2 (.inl h))

theorem Frame.right {s : Multiset Addr} {t : Multiset Addr} (f : Frame m m' (s + F) (t + G)) : Frame m m' F G :=
  f.mono (fun _ h => Multiset.mem_add.2 (.inr h)) (fun _ h => Multiset.mem_add.2 (.inr h))

/-- Two containers out of their rings are freed, and the rest stays. -/
theorem free_two {s : Layout} {t : Layout} {c c' : Addr}
    (own : Owned m t (c' ::ₘ (s.cells + ({c} + F))) (s.heads + G)) :
    freeContainer c m = .ok ((), { m with conts := m.conts.retire c }) ∧
      freeContainer c' { m with conts := m.conts.retire c } =
        .ok ((), { m with conts := (m.conts.retire c).retire c' }) ∧
      Owned { m with conts := (m.conts.retire c).retire c' } s (t.cells + F) (t.heads + G) := by
  have cells : t.cells + c' ::ₘ (s.cells + ({c} + F)) = c ::ₘ c' ::ₘ (s.cells + (t.cells + F)) := by
    rw [← Multiset.singleton_add c, ← Multiset.singleton_add c', ← Multiset.singleton_add c']
    abel
  have conts := own.conts
  rw [cells] at conts
  have lists := own.lists
  rw [add_left_comm] at lists
  exact ⟨run_onContainer (conts.mem_live (Multiset.mem_cons_self _ _)),
    run_onContainer (conts.retire.mem_live (Multiset.mem_cons_self _ _)), ⟨conts.retire.retire, lists⟩⟩

/-! ## `do_enqueue` -/

section Enqueue

variable {cb : Callbacks Ω π} {ω : Ω} {ins : Inserts} {skb : SkBuff π}

/-- What an enqueue does to the two lists. -/
theorem ListQueue.doEnqueue_ok (h : a.doEnqueue cb ω ins skb = .ok a') :
    Index.add a.ready ins.admn a.admn ⟨cb.admnFn ω a.toQueueInfo skb, cb.procFn ω a.toQueueInfo skb, skb⟩ =
        .ok a'.admn ∧
      Index.add a.ready ins.proc a.proc ⟨cb.procFn ω a.toQueueInfo skb, cb.admnFn ω a.toQueueInfo skb, skb⟩ =
        .ok a'.proc ∧
      a'.toQueueInfo = { a.toQueueInfo with len := a.len + 1, total := a.total + 1 } := by
  unfold ListQueue.doEnqueue at h
  cases first : Index.add a.ready ins.admn a.admn
      ⟨cb.admnFn ω a.toQueueInfo skb, cb.procFn ω a.toQueueInfo skb, skb⟩ with
  | error e => simp [first, bind, Except.bind] at h
  | ok admn =>
    cases second : Index.add a.ready ins.proc a.proc
        ⟨cb.procFn ω a.toQueueInfo skb, cb.admnFn ω a.toQueueInfo skb, skb⟩ with
    | error e => simp [first, second, bind, Except.bind] at h
    | ok proc =>
      simp only [first, second, bind, Except.bind, pure, Except.pure, Except.ok.injEq] at h
      subst h
      exact ⟨rfl, rfl, rfl⟩

/-- A list either gets the packet at its end or stays. -/
theorem Index.add_cases {ready ins : Bool} {l l' : List (Item π)} {x : Item π} (h : Index.add ready ins l x = .ok l') :
    l' = l ++ [x] ∨ l' = l ∧ ins = false := by
  unfold Index.add at h
  split at h
  · exact .inl (Except.ok.inj h).symm
  · split at h
    · cases h
    · cases ins with
      | true => exact .inl (Except.ok.inj h).symm
      | false => exact .inr ⟨(Except.ok.inj h).symm, rfl⟩

/-- The specification of `do_enqueue`. Both rings get a new last cell unless an
insertion has no memory. -/
theorem doEnqueue_spec (repr : QueueRepr m q g a) (own : QOwned m g F G)
    (h : a.doEnqueue cb ω ins skb = .ok a') :
    ∃ q' m' g' C L, doEnqueue cb ω ins skb q m = .ok ((netXmitSuccess, q'), m') ∧
      QueueRepr m' q' g' a' ∧ QOwned m' g' (C + F) (L + G) ∧ Frame m m' F G ∧ m'.freed = m.freed ∧
      (ins = .ok → C = 0 ∧ L = 0 ∧
        (∃ c, Pushed g.admn.cellsAt g'.admn.cellsAt (cb.admnFn ω a.toQueueInfo skb) c) ∧
        (∃ c, Pushed g.proc.cellsAt g'.proc.cellsAt (cb.procFn ω a.toQueueInfo skb) c)) := by
  obtain ⟨first, second, info⟩ := ListQueue.doEnqueue_ok h
  obtain ⟨admnQ, m₁, admn, C₁, L₁, run₁, after₁, own₁, frame₁, freed₁, how₁⟩ := linkTail_spec repr.admn own first
  obtain ⟨procQ, m₂, proc, C₂, L₂, run₂, after₂, own₂, frame₂, freed₂, how₂⟩ :=
    linkTail_spec (repr.proc.frame frame₁.left (fun _ h => h) (fun _ h => h)) own₁.swap second
  refine ⟨{ q with admnQ := admnQ, procQ := procQ, len := q.len + 1, total := q.total + 1 }, m₂,
    ⟨admn, proc⟩, C₂ + C₁, L₂ + L₁, ?_, ⟨?_, ?_, after₂⟩, ?_, ?_, freed₂.trans freed₁, ?_⟩
  · simp only [doEnqueue, repr.info, run_bind, run₁, run₂, run_pure]
  · rw [info]
    simp only [← repr.info]
  · exact after₁.frame frame₂.left (fun _ h => h) (fun _ h => h)
  · have swapped := own₂.swap
    rwa [← add_assoc C₂ C₁ F, ← add_assoc L₂ L₁ G] at swapped
  · exact frame₁.right.trans frame₂.right.right
  · rintro rfl
    rcases how₁ with ⟨-, pushed₁, rfl, rfl⟩ | ⟨-, -, bad⟩
    · rcases how₂ with ⟨-, pushed₂, rfl, rfl⟩ | ⟨-, -, bad⟩
      · exact ⟨rfl, rfl, ⟨_, pushed₁⟩, ⟨_, pushed₂⟩⟩
      · cases bad
    · cases bad

/-- `do_enqueue` faults where the lists do. -/
theorem doEnqueue_fault {e : Fault} (repr : QueueRepr m q g a) (own : QOwned m g F G)
    (h : a.doEnqueue cb ω ins skb = .error e) : doEnqueue cb ω ins skb q m = .error e := by
  unfold ListQueue.doEnqueue at h
  cases first : Index.add a.ready ins.admn a.admn
      ⟨cb.admnFn ω a.toQueueInfo skb, cb.procFn ω a.toQueueInfo skb, skb⟩ with
  | error e' =>
    simp only [first, bind, Except.bind, Except.error.injEq] at h
    subst h
    have run := linkTail_fault repr.admn first
    simp only [doEnqueue, repr.info, run_bind, run]
  | ok admn =>
    obtain ⟨admnQ, m₁, admn, C₁, L₁, run₁, after₁, own₁, frame₁, -⟩ := linkTail_spec repr.admn own first
    cases second : Index.add a.ready ins.proc a.proc
        ⟨cb.procFn ω a.toQueueInfo skb, cb.admnFn ω a.toQueueInfo skb, skb⟩ with
    | error e' =>
      simp only [first, second, bind, Except.bind, Except.error.injEq] at h
      subst h
      have run := linkTail_fault (repr.proc.frame frame₁.left (fun _ h => h) (fun _ h => h)) second
      simp only [doEnqueue, repr.info, run_bind, run₁, run]
    | ok proc => simp [first, second, bind, Except.bind, pure, Except.pure] at h

end Enqueue

/-! ## `do_drop_tail` and `oq_dequeue`

Both take the first container of one tree (`s`) and then search the other (`t`). -/

section TwoHalves

variable {treeS treeT : BTree} {s t : Layout} {ls lt ls' : List (Item π)}

/-- After the first half: the taken container `c` is in nobody's ring. -/
theorem first_half {e : Item π} (reprS : TreeRepr m treeS s ls) (reprT : TreeRepr m treeT t lt)
    (own : Owned m s (t.cells + F) (t.heads + G)) (top : Index.takeMax ls = some (e, ls')) :
    ∃ c tree' m₁ s' back, unlinkHead treeS m = .ok (some ⟨c, e.otherKey, e.skb, tree'⟩, m₁) ∧
      TreeRepr m₁ tree' s' ls' ∧ TreeRepr m₁ treeT t lt ∧
      Owned m₁ t (s'.cells + ({c} + F)) (s'.heads + G) ∧ Frame m m₁ (t.cells + F) (t.heads + G) ∧
      m₁.freed = m.freed ∧ Removed s.cellsAt s'.cellsAt e.key [] c back ∧ m.skb c = e.skb := by
  obtain ⟨c, tree', m₁, s', back, run, after, own₁, frame, freed, removed, skb⟩ := unlinkHead_spec reprS own top
  refine ⟨c, tree', m₁, s', back, run, after, ?_, ?_, frame, freed, removed, skb⟩
  · exact reprT.frame frame.left (fun _ h => h) (fun _ h => h)
  · have swapped := Owned.swap (s := s') (t := t) (C := {c}) (L := 0) (F := F) (G := G)
      (by simpa only [zero_add, Multiset.singleton_add] using own₁)
    simpa only [zero_add] using swapped

/-- What two trees lose when both halves succeed: one the first cell of a ring, and
the other the first cell with the same packet. -/
def TookBoth (m : Mem π) (r r' w w' : Key → List Addr) : Prop :=
  ∃ k c back k' front c' back', Removed r r' k [] c back ∧ Removed w w' k' front c' back' ∧
    (m.skb c').addr = (m.skb c).addr ∧ ∀ x ∈ front, (m.skb x).addr ≠ (m.skb c).addr

/-- After both halves: the two containers are freed. -/
theorem second_half {m₁ : Mem π} {key : Key} {skb : SkBuff π} {c : Addr} (reprS : TreeRepr m₁ treeS s ls)
    (reprT : TreeRepr m₁ treeT t lt) (own : Owned m₁ t (s.cells + ({c} + F)) (s.heads + G))
    (hit : ∃ x ∈ Index.bucket lt key, x.skb.addr = skb.addr) :
    ∃ c' tree' m₂ t' front back, unlinkSkb treeT key skb m₁ = .ok (.taken c' tree', m₂) ∧
      TreeRepr m₂ treeS s ls ∧ TreeRepr m₂ tree' t' (lt.eraseP (Index.isAt key skb)) ∧
      Owned m₂ t' (c' ::ₘ (s.cells + ({c} + F))) (s.heads + G) ∧ Frame m₁ m₂ F G ∧ m₂.freed = m₁.freed ∧
      Removed t.cellsAt t'.cellsAt key front c' back ∧ (m₁.skb c').addr = skb.addr ∧ ∀ x ∈ front, (m₁.skb x).addr ≠ skb.addr := by
  obtain ⟨c', tree', m₂, t', front, back, run, after, own₂, frame, freed, removed, matched, earlier⟩ :=
    unlinkSkb_spec reprT own hit
  exact ⟨c', tree', m₂, t', front, back, run, reprS.frame frame.left (fun _ h => h) (fun _ h => h), after, own₂,
    frame.right.mono (fun _ h => Multiset.mem_add.2 (.inr h)) (fun _ h => h), freed, removed, matched, earlier⟩

/-- The two halves together, read in the memory before them. -/
theorem TookBoth.of_halves {m₁ : Mem π} {s' t' : Layout} {e : Item π} {key : Key} {c c' : Addr}
    {back front back' : List Addr} (frame : Frame m m₁ (t.cells + F) (t.heads + G))
    (first : Removed s.cellsAt s'.cellsAt e.key [] c back) (skb : m.skb c = e.skb) (second : Removed t.cellsAt t'.cellsAt key front c' back')
    (matched : (m₁.skb c').addr = e.skb.addr) (earlier : ∀ x ∈ front, (m₁.skb x).addr ≠ e.skb.addr) :
    TookBoth m s.cellsAt s'.cellsAt t.cellsAt t'.cellsAt := by
  have old : ∀ x ∈ front ++ c' :: back', m₁.skb x = m.skb x := by
    intro x hx
    rw [← second.1] at hx
    exact frame.left.skb x (Layout.mem_cells_of_cellsAt hx)
  refine ⟨e.key, c, back, key, front, c', back', first, second, ?_, ?_⟩
  · rw [skb, ← old c' (by simp)]
    exact matched
  · intro x hx
    rw [skb, ← old x (by simp [hx])]
    exact earlier x hx

end TwoHalves

/-- The specification of `do_drop_tail`. -/
theorem doDropTail_spec (repr : QueueRepr m q g a) (own : QOwned m g F G) :
    ∃ q' m' g' C, doDropTail q m = .ok ((a.doDropTail.1, q'), m') ∧
      QueueRepr m' q' g' a.doDropTail.2.2 ∧ QOwned m' g' (C + F) G ∧ Frame m m' F G ∧
      m'.freed = m.freed ++ a.doDropTail.2.1 ∧
      (a.doDropTail.1 = .noPacket → q' = q ∧ m' = m ∧ g' = g ∧ C = 0) ∧
      (a.doDropTail.1 = .dropped → C = 0 ∧ TookBoth m g.admn.cellsAt g'.admn.cellsAt g.proc.cellsAt g'.proc.cellsAt) := by
  rcases a.doDropTail_cases with ⟨none, exit⟩ | ⟨e, admn, top, half⟩
  · have run := unlinkHead_none repr.admn none
    rw [exit]
    refine ⟨q, m, g, 0, ?_, repr, by rwa [zero_add], Frame.of_eq rfl rfl rfl rfl rfl, by simp,
      fun _ => ⟨rfl, rfl, rfl, rfl⟩, nofun⟩
    simp only [doDropTail, run_bind, run, run_pure]
  · obtain ⟨c, admnQ, m₁, s', back, run₁, reprS, reprT, own₁, frame₁, freed₁, removed₁, skb⟩ :=
      first_half repr.admn repr.proc own top
    rcases half with ⟨empty, exit⟩ | ⟨some, none, exit⟩ | ⟨hit, exit⟩
    · have run₂ := unlinkSkb_noList e.skb reprT empty
      rw [exit]
      refine ⟨{ q with admnQ := admnQ }, m₁, ⟨s', g.proc⟩, {c}, ?_, ⟨repr.info, reprS, reprT⟩,
        QOwned.symm (g := ⟨g.proc, s'⟩) own₁, frame₁.right, by simp [freed₁], nofun, nofun⟩
      simp only [doDropTail, run_bind, run₁, run₂, run_pure]
    · have run₂ := unlinkSkb_noContainer reprT own₁ some none
      rw [exit]
      refine ⟨{ q with admnQ := admnQ }, m₁, ⟨s', g.proc⟩, {c}, ?_, ⟨repr.info, reprS, reprT⟩,
        QOwned.symm (g := ⟨g.proc, s'⟩) own₁, frame₁.right, by simp [freed₁], nofun, nofun⟩
      simp only [doDropTail, run_bind, run₁, run₂, run_pure]
    · obtain ⟨c', procQ, m₂, t', front, back', run₂, reprS₂, reprT₂, own₂, frame₂, freed₂, removed₂, matched,
        earlier⟩ := second_half reprS reprT own₁ hit
      rw [exit]
      obtain ⟨free₁, free₂, own₃⟩ := free_two (m := { m₂ with freed := m₂.freed ++ [e.skb] }) (s := s') (t := t')
        (c := c) (F := F) ⟨own₂.conts, own₂.lists⟩
      refine ⟨{ q with admnQ := admnQ, procQ := procQ, dropped := q.dropped + 1 },
        { m₂ with freed := m₂.freed ++ [e.skb], conts := (m₂.conts.retire c).retire c' }, ⟨s', t'⟩, 0, ?_,
        ⟨?_, ?_, ?_⟩, ?_, ?_, ?_, nofun, fun _ => ⟨rfl, ?_⟩⟩
      · simp only [doDropTail, run_bind, run₁, run₂, kfreeSkb, free₁, free₂, run_pure]
      · simp only [← repr.info]
      · exact reprS₂.frame (F := s'.cells) (G := s'.heads) (Frame.of_eq rfl rfl rfl rfl rfl) (fun _ h => h) (fun _ h => h)
      · exact reprT₂.frame (F := t'.cells) (G := t'.heads) (Frame.of_eq rfl rfl rfl rfl rfl) (fun _ h => h) (fun _ h => h)
      · rw [zero_add]
        exact own₃
      · exact (frame₁.right.trans frame₂).trans (Frame.of_eq rfl rfl rfl rfl rfl)
      · simp only [freed₂, freed₁]
      · exact TookBoth.of_halves frame₁ removed₁ skb removed₂ matched earlier

/-- The specification of `oq_dequeue` on the picked queue. -/
theorem dequeueFrom_spec (repr : QueueRepr m q g a) (own : QOwned m g F G) :
    ∃ q' m' g' C, dequeueFrom q m = .ok ((a.dequeueFrom.1, q'), m') ∧
      QueueRepr m' q' g' a.dequeueFrom.2 ∧ QOwned m' g' (C + F) G ∧ Frame m m' F G ∧ m'.freed = m.freed ∧
      (a.dequeueFrom.1 = .noPacket → q' = q ∧ m' = m ∧ g' = g ∧ C = 0) ∧
      (∀ skb, a.dequeueFrom.1 = .packet skb → C = 0 ∧ TookBoth m g.proc.cellsAt g'.proc.cellsAt g.admn.cellsAt g'.admn.cellsAt) := by
  rcases a.dequeueFrom_cases with ⟨none, exit⟩ | ⟨e, proc, top, half⟩
  · have run := unlinkHead_none repr.proc none
    rw [exit]
    refine ⟨q, m, g, 0, ?_, repr, by rwa [zero_add], Frame.of_eq rfl rfl rfl rfl rfl, rfl,
      fun _ => ⟨rfl, rfl, rfl, rfl⟩, nofun⟩
    simp only [dequeueFrom, run_bind, run, run_pure]
  · obtain ⟨c, procQ, m₁, s', back, run₁, reprS, reprT, own₁, frame₁, freed₁, removed₁, skb⟩ :=
      first_half repr.proc repr.admn own.symm top
    rcases half with ⟨empty, exit⟩ | ⟨some, none, exit⟩ | ⟨hit, exit⟩
    · have run₂ := unlinkSkb_noList e.skb reprT empty
      rw [exit]
      refine ⟨{ q with procQ := procQ }, m₁, ⟨g.admn, s'⟩, {c}, ?_, ⟨repr.info, reprT, reprS⟩, own₁, frame₁.right,
        freed₁, nofun, nofun⟩
      simp only [dequeueFrom, run_bind, run₁, run₂, run_pure]
    · have run₂ := unlinkSkb_noContainer reprT own₁ some none
      rw [exit]
      refine ⟨{ q with procQ := procQ }, m₁, ⟨g.admn, s'⟩, {c}, ?_, ⟨repr.info, reprT, reprS⟩, own₁, frame₁.right,
        freed₁, nofun, nofun⟩
      simp only [dequeueFrom, run_bind, run₁, run₂, run_pure]
    · obtain ⟨c', admnQ, m₂, t', front, back', run₂, reprS₂, reprT₂, own₂, frame₂, freed₂, removed₂, matched,
        earlier⟩ := second_half reprS reprT own₁ hit
      rw [exit]
      obtain ⟨free₁, free₂, own₃⟩ := free_two own₂
      refine ⟨{ q with admnQ := admnQ, procQ := procQ, len := q.len - 1 },
        { m₂ with conts := (m₂.conts.retire c).retire c' }, ⟨t', s'⟩, 0, ?_,
        ⟨?_, ?_, ?_⟩, ?_, ?_, ?_, nofun, fun _ _ => ⟨rfl, ?_⟩⟩
      · simp only [dequeueFrom, run_bind, run₁, run₂, free₁, free₂, run_pure]
      · simp only [← repr.info]
      · exact reprT₂.frame (F := t'.cells) (G := t'.heads) (Frame.of_eq rfl rfl rfl rfl rfl) (fun _ h => h) (fun _ h => h)
      · exact reprS₂.frame (F := s'.cells) (G := s'.heads) (Frame.of_eq rfl rfl rfl rfl rfl) (fun _ h => h) (fun _ h => h)
      · rw [zero_add]
        exact QOwned.symm (g := ⟨s', t'⟩) own₃
      · exact (frame₁.right.trans frame₂).trans (Frame.of_eq rfl rfl rfl rfl rfl)
      · exact freed₂.trans freed₁
      · exact TookBoth.of_halves frame₁ removed₁ skb removed₂ matched earlier

end OpenQueue
