import OpenQueue.Sim.Outcomes

/-!
# What the status of an enqueue says

`do_enqueue` ignores the results of its two insertions and always returns
`NET_XMIT_SUCCESS`, and `oq_enqueue` returns 0 whatever the congestion action did. So
the status is right exactly where the packet gets into both trees.
-/

namespace OpenQueue

variable {Ω π : Type}

namespace PortRepr

variable {p : Port π} {g : QId → QLayout} {C L : Multiset Addr} {s : ListPort π}

theorem inserted_iff (repr : PortRepr p g C L s) (cb : Callbacks Ω π) (i : QId) (ω : Ω) (ins : Inserts)
    (skb : SkBuff π) :
    p.Inserted cb i ω ins skb ↔
      ∀ t, ins.side t = true ∨ Index.bucket ((s.queues i).side t) (cb.key ω (s.queues i).toQueueInfo skb t) ≠ [] := by
  simp only [Port.Inserted, repr.bucket, repr.infos, ListPort.infos]

end PortRepr

/-! ## `do_enqueue` when an insertion fails -/

/-- A container as its partner in the other tree has it. -/
def Item.swap (x : Item π) : Item π := ⟨x.otherKey, x.key, x.skb⟩

namespace Port

/-- Both trees of a queue hold the same packets, each under the keys the other says. -/
def Mirrored (p : Port π) (i : QId) : Prop := ((p.items i .admn).map Item.swap).Perm (p.items i .proc)

/-- The packet is in both trees of queue `i`, beside what was there, and is counted. -/
structure Gained (cb : Callbacks Ω π) (p p' : Port π) (i : QId) (ω : Ω) (skb : SkBuff π) : Prop where
  items : ∀ t, (p'.items i t).Perm (cb.item ω (p.infos i) skb t :: p.items i t)
  len : (p'.queues i).len = (p.queues i).len + 1
  total : (p'.queues i).total = (p.queues i).total + 1

/-- Trees and counters of queue `i` are as before. -/
structure Unchanged (p p' : Port π) (i : QId) : Prop where
  buckets : ∀ t k, p'.bucket i t k = p.bucket i t k
  len : (p'.queues i).len = (p.queues i).len
  total : (p'.queues i).total = (p.queues i).total

/-- `do_enqueue` succeeds and has the packet in both trees, or fails and changes nothing,
and the trees still mirror each other. -/
def EnqueuesAtomically (cb : Callbacks Ω π) (p : Port π) (i : QId) (ω : Ω) (ins : Inserts) (skb : SkBuff π) : Prop :=
  ∃ code p', p.step cb (.doEnqueue i ω ins skb) = .ok (.status code, p') ∧
    (code = netXmitSuccess ∧ p.Gained cb p' i ω skb ∨ code ≠ netXmitSuccess ∧ p.Unchanged p' i) ∧
    (p.Mirrored i → p'.Mirrored i)

end Port

/-- What both trees gain they mirror. -/
theorem Port.Gained.mirrored {cb : Callbacks Ω π} {p p' : Port π} {i : QId} {ω : Ω} {skb : SkBuff π}
    (gained : p.Gained cb p' i ω skb) (mirrored : p.Mirrored i) : p'.Mirrored i := by
  have new := (gained.items .admn).map Item.swap
  rw [List.map_cons] at new
  exact new.trans ((mirrored.cons _).trans (gained.items .proc).symm)

/-- An enqueue on memory and on lists. -/
theorem PortRepr.doEnqueue {p : Port π} {g : QId → QLayout} {C L : Multiset Addr} {s : ListPort π} {i : QId}
    (repr : PortRepr p g C L s) (ready : (p.queues i).ready = true) (cb : Callbacks Ω π) (ω : Ω) (ins : Inserts)
    (skb : SkBuff π) :
    ∃ a p', (s.queues i).doEnqueue cb ω ins skb = .ok a ∧
      p.step cb (.doEnqueue i ω ins skb) = .ok (.status netXmitSuccess, p') ∧ Holds p' (s.set i a []) := by
  have info : (p.queues i).toQueueInfo = (s.queues i).toQueueInfo := congrFun repr.infos i
  have ready' : (s.queues i).ready = true := (congrArg QueueInfo.ready info).symm.trans ready
  obtain ⟨a, enq⟩ := ListQueue.doEnqueue_of_ready ready' cb ω ins skb
  have step : s.step cb (.doEnqueue i ω ins skb) = .ok (.status netXmitSuccess, s.set i a []) := by
    show (ListPort.onQueue i (ListPort.doEnqueue cb ω ins skb) s >>= _) = _
    rw [ListPort.run_enqueue, enq]
    rfl
  have agree := step_agree cb p s (.doEnqueue i ω ins skb) ⟨g, C, L, repr⟩
  rw [step] at agree
  obtain ⟨p', run, holds⟩ := agree.of_ok_right
  exact ⟨a, p', enq, run, holds⟩

/-- In every reachable state, `do_enqueue` is atomic exactly if each of its insertions
succeeds or is not needed. -/
theorem doEnqueue_atomic_iff (cb : Callbacks Ω π) {p : Port π} (reach : Port.Reachable cb p) {i : QId}
    (ready : (p.queues i).ready = true) (ω : Ω) (ins : Inserts) (skb : SkBuff π) :
    p.EnqueuesAtomically cb i ω ins skb ↔ p.Inserted cb i ω ins skb := by
  obtain ⟨s, g, C, L, repr⟩ := reach.holds
  have info : (p.queues i).toQueueInfo = (s.queues i).toQueueInfo := congrFun repr.infos i
  have ready' : (s.queues i).ready = true := (congrArg QueueInfo.ready info).symm.trans ready
  obtain ⟨a, p', enq, run, g', C', L', repr'⟩ := repr.doEnqueue ready cb ω ins skb
  have info' : (p'.queues i).toQueueInfo = ((s.set i a []).queues i).toQueueInfo := congrFun repr'.infos i
  rw [ListPort.set_queues, (ListQueue.doEnqueue_ok enq).2.2, ← info] at info'
  have after : ∀ t, (p'.items i t).Perm (a.side t) := by
    intro t
    have perm := repr'.items_perm i t
    rwa [ListPort.set_queues] at perm
  rw [repr.inserted_iff]
  constructor
  · rintro ⟨code, p'', run', outcome, -⟩ t
    rw [run] at run'
    cases run'
    rcases outcome with ⟨-, gained⟩ | ⟨failed, -⟩
    · by_contra refused
      have same := ListQueue.side_doEnqueue ready' enq t
      rw [if_neg refused] at same
      have grown := (gained.items t).length_eq
      rw [(after t).length_eq, same, List.length_cons, (repr.items_perm i t).length_eq] at grown
      omega
    · exact absurd rfl failed
  · intro inserted
    have gained : p.Gained cb p' i ω skb := by
      refine ⟨fun t => ?_, congrArg QueueInfo.len info', congrArg QueueInfo.total info'⟩
      have grown := ListQueue.side_doEnqueue ready' enq t
      rw [if_pos (inserted t)] at grown
      have items := after t
      rw [grown, ← info] at items
      exact items.trans ((List.perm_append_singleton _ _).trans ((repr.items_perm i t).symm.cons _))
    exact ⟨_, p', run, .inl ⟨rfl, gained⟩, gained.mirrored⟩

theorem blank_doEnqueue_atomic_iff :
    (Port.blank ()).EnqueuesAtomically (.routines 256 2 (fun _ => 0) (fun _ => 1) : Callbacks Unit Unit) 0 () .ok
        ⟨7, ()⟩ ↔
      (Port.blank ()).Inserted (.routines 256 2 (fun _ => 0) (fun _ => 1) : Callbacks Unit Unit) 0 () .ok ⟨7, ()⟩ :=
  doEnqueue_atomic_iff _ (.initialised (Port.blank_initialised ())) rfl () .ok ⟨7, ()⟩

/-- The status that is returned, and what `admn_q` of the first queue holds then. -/
def statusAndItems (r : Except Fault (Out Unit × Port Unit)) : Option (Int × List (Item Unit)) :=
  match r with
  | .ok (.status code, p) => some (code, p.items 0 .admn)
  | _ => none

/-- The insertion into `admn_q` runs out of memory: `do_enqueue` reports success, and
the packet is in `proc_q` alone. -/
theorem failed_insert_not_atomic :
    ¬ (Port.blank ()).EnqueuesAtomically (.routines 256 2 (fun _ => 0) (fun _ => 1) : Callbacks Unit Unit) 0 ()
      ⟨false, true⟩ ⟨7, ()⟩ := by
  rintro ⟨code, p', run, outcome, -⟩
  have seen : statusAndItems ((Port.blank ()).step (.routines 256 2 (fun _ => 0) (fun _ => 1) : Callbacks Unit Unit)
      (.doEnqueue 0 () ⟨false, true⟩ ⟨7, ()⟩)) = some (0, []) := by
    decide +kernel
  rw [run] at seen
  simp only [statusAndItems, Option.some.injEq, Prod.mk.injEq] at seen
  rcases outcome with ⟨-, gained⟩ | ⟨failed, -⟩
  · have grown := (gained.items .admn).length_eq
    rw [seen.2] at grown
    cases grown
  · exact failed seen.1

/-! ## The status of `oq_enqueue` -/

namespace Port

/-- The packet is in both trees of the queue. -/
def HoldsSkb (p : Port π) (i : QId) (skb : SkBuff π) : Prop := ∀ t, ∃ x ∈ p.items i t, x.skb.addr = skb.addr

/-- `oq_enqueue`, which sends its packet to queue `i`, reports success exactly if the
queue then holds the packet. -/
def StatusTrue (cb : Callbacks Ω π) (p : Port π) (i : QId) (ω : Ω) (ins : Inserts) (skb : SkBuff π) : Prop :=
  ∃ code p', p.call cb (.oqEnqueue ω ins skb) = .ok (.status code, p') ∧ (code = netXmitSuccess ↔ p'.HoldsSkb i skb)

/-- The bucket of `k` in tree `t` is one that a tail drop takes a container out of. -/
def Shortened (p : Port π) (i : QId) (k : Key) : Side → Prop
  | .admn => ∃ x, p.Top i .admn x ∧ x.key = k
  | .proc => ∃ x, p.Top i .admn x ∧ x.otherKey = k ∧ ∃ y ∈ p.bucket i .proc k, y.skb.addr = x.skb.addr

/-- After a tail drop, which has made the counters those of `queue`, the insertions of
`do_enqueue` succeed or are not needed: the bucket has a container that is not taken. -/
def InsertedAfterDrop (cb : Callbacks Ω π) (p : Port π) (i : QId) (ω : Ω) (ins : Inserts) (skb : SkBuff π)
    (queue : QueueInfo) : Prop :=
  ∀ t, ins.side t = true ∨ p.bucket i t (cb.key ω queue skb t) ≠ [] ∧
    (p.Shortened i (cb.key ω queue skb t) t → 2 ≤ (p.bucket i t (cb.key ω queue skb t)).length)

/-- The queue is free or drops its tail, and the insertions succeed or are not needed. -/
def Takes (cb : Callbacks Ω π) (p : Port π) (i : QId) (ω : Ω) (ins : Inserts) (skb : SkBuff π) : Prop :=
  cb.congFn ω (p.infos i) = false ∧ p.Inserted cb i ω ins skb ∨
  cb.congFn ω (p.infos i) = true ∧ cb.congActFn ω (p.infos i) skb = oqConActDropTail ∧
    (p.TopPaired i .admn .proc ∧
        p.InsertedAfterDrop cb i ω ins skb { p.infos i with dropped := (p.infos i).dropped + 1 } ∨
      ¬ p.TopPaired i .admn .proc ∧ p.InsertedAfterDrop cb i ω ins skb (p.infos i))

end Port

/-! ### What a tail drop leaves of a bucket -/

/-- A bucket after one container was taken out of the list. -/
theorem Index.bucket_ne_nil_iff {l rest : List (Item π)} {e : Item π} (perm : l.Perm (e :: rest)) (k : Key) :
    bucket rest k ≠ [] ↔ bucket l k ≠ [] ∧ (e.key = k → 2 ≤ (bucket l k).length) := by
  have sizes : (bucket l k).length = (bucket (e :: rest) k).length := (perm.filter _).length_eq
  simp only [← List.length_pos_iff, sizes]
  by_cases here : e.key = k
  · have one : bucket (e :: rest) k = e :: bucket rest k := List.filter_cons_of_pos (by simpa using here)
    rw [one, List.length_cons]
    constructor
    · intro some
      exact ⟨Nat.succ_pos _, fun _ => Nat.succ_le_succ some⟩
    · rintro ⟨-, two⟩
      exact Nat.le_of_succ_le_succ (two here)
  · simp [bucket, here]

theorem Index.takeMax_perm {l rest : List (Item π)} {e : Item π} (h : takeMax l = some (e, rest)) :
    l.Perm (e :: rest) := by
  obtain ⟨front, back, rfl, rfl, -⟩ := Lib.takeMax_split h
  exact List.perm_middle

namespace ListQueue

/-- `Port.Shortened` on lists. -/
def Shortened (a : ListQueue π) (k : Key) : Side → Prop
  | .admn => ∃ e, (∃ rest, Index.takeMax a.admn = some (e, rest)) ∧ e.key = k
  | .proc => ∃ e, (∃ rest, Index.takeMax a.admn = some (e, rest)) ∧ e.otherKey = k ∧
    ∃ y ∈ Index.bucket a.proc k, y.skb.addr = e.skb.addr

theorem not_shortened_proc {a : ListQueue π} (alone : ¬ Index.Paired a.admn a.proc) (k : Key) :
    ¬ a.Shortened k .proc := by
  rintro ⟨e, ⟨rest, top⟩, rfl, hit⟩
  exact alone ⟨e, rest, top, hit⟩

theorem bucket_doDropTail_iff (a : ListQueue π) (k : Key) (t : Side) :
    Index.bucket (a.doDropTail.2.2.side t) k ≠ [] ↔
      Index.bucket (a.side t) k ≠ [] ∧ (a.Shortened k t → 2 ≤ (Index.bucket (a.side t) k).length) := by
  cases t with
  | admn =>
    have taken : ∀ {e : Item π} {rest}, Index.takeMax a.admn = some (e, rest) →
        (a.Shortened k .admn ↔ e.key = k) := by
      intro e rest top
      simp [Shortened, top]
    rcases a.doDropTail_cases with ⟨none, exit⟩ | ⟨e, admn, top, ⟨-, exit⟩ | ⟨-, -, exit⟩ | ⟨-, exit⟩⟩
    · rw [exit]
      simp [Shortened, none]
    all_goals
      rw [exit, taken top]
      exact Index.bucket_ne_nil_iff (Index.takeMax_perm top) k
  | proc =>
    rcases a.doDropTail_paired with ⟨paired, -, -⟩ | ⟨alone, same, -⟩
    · rcases a.doDropTail_cases with ⟨none, -⟩ | ⟨e, admn, top, ⟨empty, -⟩ | ⟨-, differ, -⟩ | ⟨hit, exit⟩⟩
      · exact absurd paired (Index.not_paired_of_none none)
      · exact absurd paired (Index.not_paired_of_empty top empty)
      · exact absurd paired (Index.not_paired_of_differ top differ)
      · rw [exit]
        have shortened : a.Shortened k .proc ↔ e.otherKey = k := by
          constructor
          · rintro ⟨e', ⟨rest, top'⟩, key, -⟩
            rw [top] at top'
            cases top'
            exact key
          · rintro rfl
            exact ⟨e, ⟨admn, top⟩, rfl, hit⟩
        obtain ⟨y, hy, same⟩ := hit
        have inside : y ∈ a.proc ∧ y.key = e.otherKey := by simpa [Index.bucket] using hy
        have found : Index.isAt e.otherKey e.skb y = true := by simp [Index.isAt, inside.2, same]
        obtain ⟨x, front, back, -, hx, split, erased⟩ := List.exists_of_eraseP inside.1 found
        have key : x.key = e.otherKey := (by simpa [Index.isAt] using hx : _ ∧ _).1
        have perm : a.proc.Perm (x :: a.proc.eraseP (Index.isAt e.otherKey e.skb)) := by
          rw [erased, split]
          exact List.perm_middle
        rw [shortened, ← key]
        rw [← key] at perm
        exact Index.bucket_ne_nil_iff perm k
    · rw [show a.doDropTail.2.2.side .proc = a.proc from same]
      exact ⟨fun some => ⟨some, fun cut => absurd cut (not_shortened_proc alone k)⟩, And.left⟩

end ListQueue

/-- A new packet is in the lists after an enqueue exactly if they let it in. -/
theorem ListQueue.holds_doEnqueue_iff {a a' : ListQueue π} {cb : Callbacks Ω π} {ω : Ω} {ins : Inserts}
    {skb : SkBuff π} (ready : a.ready = true) (enq : a.doEnqueue cb ω ins skb = .ok a') (t : Side)
    (fresh : ∀ x ∈ a.side t, x.skb.addr ≠ skb.addr) :
    (∃ x ∈ a'.side t, x.skb.addr = skb.addr) ↔
      ins.side t = true ∨ Index.bucket (a.side t) (cb.key ω a.toQueueInfo skb t) ≠ [] := by
  rw [side_doEnqueue ready enq t]
  split
  · next fits => exact iff_of_true ⟨_, List.mem_append_right _ (List.mem_singleton_self _), rfl⟩ fits
  · next refused =>
    refine iff_of_false ?_ refused
    rintro ⟨x, hx, same⟩
    exact fresh x hx same

theorem Holds.holdsSkb_iff {p : Port π} {s : ListPort π} (holds : Holds p s) (i : QId) (skb : SkBuff π) :
    p.HoldsSkb i skb ↔ ∀ t, ∃ x ∈ (s.queues i).side t, x.skb.addr = skb.addr := by
  obtain ⟨g, C, L, repr⟩ := holds
  simp only [Port.HoldsSkb, (repr.items_perm i _).mem_iff]

theorem PortRepr.shortened_iff {p : Port π} {g : QId → QLayout} {C L : Multiset Addr} {s : ListPort π}
    (repr : PortRepr p g C L s) (i : QId) (k : Key) (t : Side) :
    p.Shortened i k t ↔ (s.queues i).Shortened k t := by
  cases t <;> simp only [Port.Shortened, ListQueue.Shortened, repr.top_iff, repr.bucket, ListQueue.side]

section Status

variable {cb : Callbacks Ω π} {p : Port π} {g : QId → QLayout} {C L : Multiset Addr} {s : ListPort π} {i : QId} {ω : Ω}
  {ins : Inserts} {skb : SkBuff π}

/-- The way of the lists is the way of the port, and its status is 0. -/
theorem PortRepr.statusTrue_iff (repr : PortRepr p g C L s) {code : Int} {s' : ListPort π} (zero : code = 0)
    (way : ListPort.Called cb s (.oqEnqueue ω ins skb) (.status code) s') :
    p.StatusTrue cb i ω ins skb ↔ ∀ t, ∃ x ∈ (s'.queues i).side t, x.skb.addr = skb.addr := by
  have agree := call_agree cb p s (.oqEnqueue ω ins skb) ⟨g, C, L, repr⟩
  rw [way.run] at agree
  obtain ⟨p', run, holds⟩ := agree.of_ok_right
  rw [← holds.holdsSkb_iff]
  constructor
  · rintro ⟨code', p'', run', told⟩
    rw [run] at run'
    cases run'
    exact told.1 zero
  · intro held
    exact ⟨code, p', run, iff_of_true zero held⟩

/-- A packet that stays outside is not held. -/
theorem not_held_of_fresh {a : ListQueue π} (fresh : ∀ t, ∀ x ∈ a.side t, x.skb.addr ≠ skb.addr) :
    ¬ ∀ t, ∃ x ∈ a.side t, x.skb.addr = skb.addr := by
  intro held
  obtain ⟨x, hx, same⟩ := held .admn
  exact fresh .admn x hx same

/-- The branch of a congested queue that drops its tail. -/
theorem PortRepr.statusTrue_of_tail (repr : PortRepr p g C L s) (congested : Congested cb s.infos ω skb i)
    (tail : cb.congActFn ω (s.infos i) skb = oqConActDropTail) (ready : (s.queues i).ready = true)
    (fresh : ∀ t, ∀ x ∈ (s.queues i).side t, x.skb.addr ≠ skb.addr) :
    p.StatusTrue cb i ω ins skb ↔
      p.TopPaired i .admn .proc ∧
          p.InsertedAfterDrop cb i ω ins skb { s.infos i with dropped := (s.infos i).dropped + 1 } ∨
        ¬ p.TopPaired i .admn .proc ∧ p.InsertedAfterDrop cb i ω ins skb (s.infos i) := by
  rcases drop : (s.queues i).doDropTail with ⟨exit, freed, q⟩
  have ready' : q.ready = true := by
    have same := (s.queues i).ready_doDropTail
    rw [drop] at same
    exact same.trans ready
  obtain ⟨q', enq⟩ := ListQueue.doEnqueue_of_ready ready' cb ω ins skb
  have fresh' : ∀ t, ∀ x ∈ q.side t, x.skb.addr ≠ skb.addr := by
    intro t x hx
    have sub := (s.queues i).doDropTail_sublist t
    rw [drop] at sub
    exact fresh t x (sub.subset hx)
  rw [repr.statusTrue_iff rfl (.tailDropped congested tail drop enq)]
  simp only [ListPort.set_queues]
  have inside : (∀ t, ∃ x ∈ q'.side t, x.skb.addr = skb.addr) ↔
      ∀ t, ins.side t = true ∨ Index.bucket (q.side t) (cb.key ω q.toQueueInfo skb t) ≠ [] :=
    forall_congr' fun t => ListQueue.holds_doEnqueue_iff ready' enq t (fresh' t)
  rw [inside, repr.topPaired_iff]
  have counters : ∀ queue : QueueInfo, p.InsertedAfterDrop cb i ω ins skb queue ↔
      ∀ t, ins.side t = true ∨ Index.bucket (q.side t) (cb.key ω queue skb t) ≠ [] := by
    intro queue
    have left := (s.queues i).bucket_doDropTail_iff
    rw [drop] at left
    simp only [Port.InsertedAfterDrop, repr.shortened_iff, repr.bucket, left]
  simp only [counters]
  have exits := (s.queues i).doDropTail_paired
  rw [drop] at exits
  rcases exits with ⟨paired, -, info⟩ | ⟨alone, -, info⟩
  · rw [info]
    exact ⟨fun fits => .inl ⟨paired, fits⟩, fun fits => (fits.resolve_right fun other => other.1 paired).2⟩
  · rw [info]
    exact ⟨fun fits => .inr ⟨alone, fits⟩, fun fits => (fits.resolve_left fun other => alone other.1).2⟩

end Status

/-- In every reachable state, the status that `oq_enqueue` returns for a packet new to
its queue tells the truth exactly if the packet is taken in. -/
theorem status_true_iff (cb : Callbacks Ω π) {p : Port π} (reach : Port.Reachable cb p) {i : QId} {ω : Ω}
    {skb : SkBuff π} (slot : slot? (cb.qSelect ω p.infos skb) = some i) (ready : (p.queues i).ready = true)
    (fresh : ∀ t, ∀ x ∈ p.items i t, x.skb.addr ≠ skb.addr) (ins : Inserts) :
    p.StatusTrue cb i ω ins skb ↔ p.Takes cb i ω ins skb := by
  obtain ⟨s, g, C, L, repr⟩ := reach.holds
  have info : (p.queues i).toQueueInfo = (s.queues i).toQueueInfo := congrFun repr.infos i
  have ready' : (s.queues i).ready = true := (congrArg QueueInfo.ready info).symm.trans ready
  have fresh' : ∀ t, ∀ x ∈ (s.queues i).side t, x.skb.addr ≠ skb.addr :=
    fun t x hx => fresh t x ((repr.items_perm i t).mem_iff.2 hx)
  rw [repr.infos] at slot
  simp only [Port.Takes, repr.infos]
  cases full : cb.congFn ω (s.infos i) with
  | false =>
    obtain ⟨a, enq⟩ := ListQueue.doEnqueue_of_ready ready' cb ω ins skb
    rw [repr.statusTrue_iff rfl (.admitted slot full enq), repr.inserted_iff]
    simp only [ListPort.set_queues, true_and, Bool.false_eq_true, false_and, or_false]
    exact forall_congr' fun t => ListQueue.holds_doEnqueue_iff ready' enq t (fresh' t)
  | true =>
    simp only [Bool.true_eq_false, false_and, false_or, true_and]
    by_cases tail : cb.congActFn ω (s.infos i) skb = oqConActDropTail
    · rw [repr.statusTrue_of_tail ⟨slot, full⟩ tail ready' fresh']
      exact ⟨fun fits => ⟨tail, fits⟩, And.right⟩
    · refine iff_of_false ?_ fun fits => tail fits.1
      by_cases pkt : cb.congActFn ω (s.infos i) skb = oqConActDropPkt
      · rw [repr.statusTrue_iff rfl (.refused ⟨slot, full⟩ pkt)]
        simp only [ListPort.set_queues]
        refine not_held_of_fresh fun t => ?_
        cases t with
        | admn => exact fresh' .admn
        | proc => exact fresh' .proc
      · rw [repr.statusTrue_iff rfl (.ignored ⟨slot, full⟩ tail pkt)]
        exact not_held_of_fresh fresh'

theorem blank_status_true_iff :
    (Port.blank ()).StatusTrue (.routines 256 2 (fun _ => 0) (fun _ => 1) : Callbacks Unit Unit) 0 () .ok ⟨7, ()⟩ ↔
      (Port.blank ()).Takes (.routines 256 2 (fun _ => 0) (fun _ => 1) : Callbacks Unit Unit) 0 () .ok ⟨7, ()⟩ :=
  status_true_iff _ (.initialised (Port.blank_initialised ())) rfl rfl (fun t x hx => by cases t <;> cases hx) .ok

/-- A queue that is full at zero refuses its first packet and reports success. -/
theorem refused_packet_reported_as_sent :
    ¬ (Port.blank ()).StatusTrue (.routines 0 oqConActDropPkt (fun _ => 0) (fun _ => 1) : Callbacks Unit Unit) 0 () .ok
      ⟨7, ()⟩ := by
  rintro ⟨code, p', run, told⟩
  have seen : statusAndItems ((Port.blank ()).call
      (.routines 0 oqConActDropPkt (fun _ => 0) (fun _ => 1) : Callbacks Unit Unit)
      (.oqEnqueue () .ok ⟨7, ()⟩)) = some (0, []) := by
    decide +kernel
  rw [run] at seen
  simp only [statusAndItems, Option.some.injEq, Prod.mk.injEq] at seen
  obtain ⟨x, hx, -⟩ := told.1 seen.1 .admn
  rw [seen.2] at hx
  cases hx

end OpenQueue
