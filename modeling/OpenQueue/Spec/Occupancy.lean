import OpenQueue.Sim.Outcomes
import OpenQueue.Spec.Accounting

/-!
# A threshold that the counter cannot jump over

A queue that is congested from `len >= n` on holds at most `n` packets in `admn_q`:
`len` is never less than the number of packets in either tree, so packets are admitted
only below the threshold, and above it a tail drop makes room in `admn_q` first. It
makes room in `proc_q` only if it finds its packet there, which an insertion that ran
out of memory can prevent.
-/

namespace OpenQueue

variable {Ω π : Type}

/-- The queues called `name` are congested from `len >= n` on, and then drop the tail or
the packet. -/
structure Callbacks.AtLeast (cb : Callbacks Ω π) (name : NameBuf) (n : Nat) : Prop where
  condition : ∀ ω queue, queue.name = name → cb.congFn ω queue = decide ((n : Int) ≤ queue.len.toInt)
  action : ∀ ω queue skb, queue.name = name →
    cb.congActFn ω queue skb = oqConActDropTail ∨ cb.congActFn ω queue skb = oqConActDropPkt

/-- The call adds to `proc_q`, which holds `n` packets, after a tail drop that takes
nothing out of it. -/
def Port.Overfills (cb : Callbacks Ω π) (i : QId) (n : Nat) (p : Port π) : Call Ω π → Prop
  | .oqEnqueue ω ins skb => slot? (cb.qSelect ω p.infos skb) = some i ∧
    cb.congActFn ω (p.infos i) skb = oqConActDropTail ∧ (p.items i .proc).length = n ∧ ¬ p.TopPaired i .admn .proc ∧
    (ins.proc = true ∨ p.bucket i .proc (cb.procFn ω (p.infos i) skb) ≠ [])
  | .oqDequeue _ => False

/-- The same on lists. -/
def ListPort.Overfills (cb : Callbacks Ω π) (i : QId) (n : Nat) (s : ListPort π) : Call Ω π → Prop
  | .oqEnqueue ω ins skb => slot? (cb.qSelect ω s.infos skb) = some i ∧
    cb.congActFn ω (s.infos i) skb = oqConActDropTail ∧ (s.queues i).proc.length = n ∧
    ¬ Index.Paired (s.queues i).admn (s.queues i).proc ∧
    (ins.proc = true ∨ Index.bucket (s.queues i).proc (cb.procFn ω (s.infos i) skb) ≠ [])
  | .oqDequeue _ => False

theorem PortRepr.overfills_iff {p : Port π} {g : QId → QLayout} {C L : Multiset Addr} {s : ListPort π}
    (repr : PortRepr p g C L s) (cb : Callbacks Ω π) (i : QId) (n : Nat) (c : Call Ω π) :
    p.Overfills cb i n c ↔ s.Overfills cb i n c := by
  cases c with
  | oqEnqueue ω ins skb =>
    simp only [Port.Overfills, ListPort.Overfills, repr.infos, repr.topPaired_iff, repr.bucket,
      (repr.items_perm i .proc).length_eq, ListQueue.side]
  | oqDequeue ω => exact Iff.rfl

/-! ## One call -/

/-- A queue called `name` whose `len` is `n`, at least the number of packets in either
tree. -/
structure ListQueue.Within (a : ListQueue π) (name : NameBuf) (n : Nat) : Prop where
  name : a.name = name
  len : a.len.toInt = n
  side : ∀ t, (a.side t).length ≤ n
  held : a.ReadyIfHeld

namespace ListPort

variable {cb : Callbacks Ω π} {s s' : ListPort π} {c : Call Ω π} {out : Out π} {i : QId} {name : NameBuf} {k n : Nat}

/-- A tree of `n` packets makes the queue congested. -/
theorem congFn_of_full {t : Side} (threshold : cb.AtLeast name n) (h : (s.queues i).Within name k)
    (full : ((s.queues i).side t).length = n) (ω : Ω) : cb.congFn ω (s.infos i) = true := by
  have len : (s.infos i).len.toInt = k := h.len
  have reached := h.side t
  rw [threshold.condition ω (s.infos i) h.name, decide_eq_true_eq]
  omega

/-- After a tail drop that takes nothing out of `proc_q`, the insertion finds it as it was. -/
theorem fails_proc_iff {ω : Ω} {ins : Inserts} {skb : SkBuff π} (congested : Congested cb s.infos ω skb i)
    (tail : cb.congActFn ω (s.infos i) skb = oqConActDropTail) (ready : (s.queues i).ready = true)
    (alone : ¬ Index.Paired (s.queues i).admn (s.queues i).proc) :
    s.fails cb i .proc (.oqEnqueue ω ins skb) = false ↔
      ins.proc = true ∨ Index.bucket (s.queues i).proc (cb.procFn ω (s.infos i) skb) ≠ [] := by
  rcases (s.queues i).doDropTail_paired with ⟨paired, -⟩ | ⟨-, same, info⟩
  · exact absurd paired alone
  · rw [fails_of_tail congested tail, ListQueue.refuses, ListQueue.ready_doDropTail, ready, info,
      show (s.queues i).doDropTail.2.2.side .proc = (s.queues i).proc from same]
    simp [or_iff_not_imp_left, Inserts.side, Callbacks.key, infos]

/-- A full tree that grows is `proc_q`, and the call overfills it. -/
theorem Called.overfills {ω : Ω} {ins : Inserts} {skb : SkBuff π} {t : Side}
    (way : Called cb s (.oqEnqueue ω ins skb) out s') (threshold : cb.AtLeast name n) (positive : 1 ≤ n)
    (h : (s.queues i).Within name k) (slot : slot? (cb.qSelect ω s.infos skb) = some i)
    (full : ((s.queues i).side t).length = n)
    (grows : ((s.queues i).side t).length < ((s'.queues i).side t).length) :
    s.Overfills cb i n (.oqEnqueue ω ins skb) := by
  have congested := congFn_of_full threshold h full ω
  have ready : (s.queues i).ready = true := by
    refine h.held t fun empty => ?_
    rw [empty, List.length_nil] at full
    omega
  rw [way.grows_iff slot] at grows
  obtain ⟨inserted, dropped⟩ := grows
  obtain ⟨tail, spared⟩ := dropped congested
  simp only [tailDropsFrom, slot, congested, tail, decide_true, Bool.true_and] at spared
  cases t with
  | admn =>
    rw [ListQueue.takes_admn, Bool.not_eq_false', List.isEmpty_iff] at spared
    simp only [ListQueue.side, spared, List.length_nil] at full
    omega
  | proc =>
    rw [← Bool.not_eq_true, ListQueue.takes_proc_iff] at spared
    exact ⟨slot, tail, full, spared, (fails_proc_iff ⟨slot, congested⟩ tail ready spared).1 inserted⟩

/-- A queue that is congested from `n` on and holds at most `n` packets still does so
after a call that does not overfill it. -/
theorem Called.bounded (way : Called cb s c out s') (threshold : cb.AtLeast name n) (positive : 1 ≤ n)
    (h : (s.queues i).Within name k) (bounded : ∀ t, ((s.queues i).side t).length ≤ n)
    (safe : ¬ s.Overfills cb i n c) (t : Side) : ((s'.queues i).side t).length ≤ n := by
  by_contra exceeds
  obtain ⟨ω, ins, skb, rfl, slot, full⟩ := way.exceeds (bounded t) (Nat.lt_of_not_le exceeds)
  exact safe (way.overfills (t := t) threshold positive h slot full (by omega))

/-- A call that overfills the queue goes through, and leaves one packet too many. -/
theorem Overfills.called (overfills : s.Overfills cb i n c) (threshold : cb.AtLeast name n) (positive : 1 ≤ n)
    (h : (s.queues i).Within name k) :
    ∃ out s', Called cb s c out s' ∧ n < ((s'.queues i).side .proc).length := by
  cases c with
  | oqDequeue ω => exact absurd overfills id
  | oqEnqueue ω ins skb =>
    obtain ⟨slot, tail, full, alone, fits⟩ := overfills
    have ready : (s.queues i).ready = true := by
      refine h.held .proc fun empty => ?_
      rw [show (s.queues i).proc = [] from empty, List.length_nil] at full
      omega
    have congested := congFn_of_full threshold h (t := .proc) full ω
    obtain ⟨out, s', way⟩ := called_of_ready slot ready ins
    refine ⟨out, s', way, ?_⟩
    rw [← full]
    refine (way.grows_iff (t := .proc) slot).2 ⟨?_, fun _ => ⟨tail, ?_⟩⟩
    · exact (fails_proc_iff ⟨slot, congested⟩ tail ready alone).2 fits
    · rw [← ListQueue.takes_proc_iff, Bool.not_eq_true] at alone
      simp [tailDropsFrom, alone]

end ListPort

/-! ## Runs -/

/-- Every state of a run is within its counter. -/
theorem run_within {cb : Callbacks Ω π} {p q : Port π} {calls : List (Call Ω π)} {outs : List (Out π)}
    (init : p.Initialised) (run : Lib.run (Port.call cb) p calls = .ok (outs, q))
    (few : (offered calls).length < 2 ^ 31) (i : QId) :
    ∃ s k, Holds q s ∧ (s.queues i).Within (p.queues i).name k := by
  obtain ⟨s, holds, counted⟩ := run_counted init run
  obtain ⟨held, name, len, bound⟩ := counted i
  have toInt : ∀ t, (q.queues i).len.toInt = ((q.items i t).length + p.surplus cb i t calls : Nat) := by
    intro t
    rw [len t]
    exact (toInt_ofNat_eq_iff _ 0).2 ⟨(bound t).trans_lt few, rfl⟩
  refine ⟨s, (q.items i .admn).length + p.surplus cb i .admn calls, holds, ?_, ?_, fun t => ?_, held⟩
  · exact (congrArg QueueInfo.name (holds.queue i)).symm.trans name
  · rw [← congrArg QueueInfo.len (holds.queue i)]
    exact toInt .admn
  · rw [← holds.length_items]
    have both := (toInt t).symm.trans (toInt .admn)
    omega

theorem Holds.overfills_iff {q : Port π} {s : ListPort π} (holds : Holds q s) (cb : Callbacks Ω π) (i : QId) (n : Nat)
    (c : Call Ω π) : q.Overfills cb i n c ↔ s.Overfills cb i n c := by
  obtain ⟨g, C, L, repr⟩ := holds
  exact repr.overfills_iff cb i n c

/-- A queue that is congested from `n` on never holds more than `n` packets in either
tree, and its `len` is never negative, exactly if no call overfills it. -/
theorem run_within_monotone_threshold_iff (cb : Callbacks Ω π) {p : Port π} {calls : List (Call Ω π)}
    (init : p.Initialised) (few : (offered calls).length < 2 ^ 31) {i : QId} {n : Nat} (positive : 1 ≤ n)
    (threshold : cb.AtLeast (p.queues i).name n) :
    (∀ q, Lib.Visits (Port.call cb) p calls q → (∀ t, (q.items i t).length ≤ n) ∧ 0 ≤ (q.queues i).len.toInt) ↔
      ∀ q c, Lib.Calls (Port.call cb) p calls q c → ¬ q.Overfills cb i n c := by
  have short : ∀ {done : List (Call Ω π)}, done <+: calls → (offered done).length < 2 ^ 31 :=
    fun sub => ((sub.sublist.filterMap _).length_le).trans_lt few
  constructor
  · rintro always q c ⟨done, outs, sub, run⟩ overfills
    have before := (List.prefix_append done [c]).trans sub
    obtain ⟨s, k, holds, within⟩ := run_within init run (short before) i
    have overfills' := (holds.overfills_iff cb i n c).1 overfills
    obtain ⟨out, s', way, long⟩ := overfills'.called threshold positive within
    have agree := call_agree cb q s c holds
    rw [way.run] at agree
    obtain ⟨q', step, holds'⟩ := agree.of_ok_right
    have last := (always q' (Lib.Calls.next ⟨done, outs, sub, run⟩ step)).1 .proc
    rw [holds'.length_items] at last
    omega
  · rintro safe q ⟨done, outs, sub, run⟩
    have bounded : ∀ t, (q.items i t).length ≤ n := by
      refine Lib.run_invariant (P := fun done _ q => done <+: calls → ∀ t, (q.items i t).length ≤ n)
        (fun q c call => safe q c (call.mono sub)) ?_ ?_ run sub
      · intro _ t
        have holds : Holds p (ListPort.initial p.infos) := ⟨_, _, _, PortRepr.initial init⟩
        rw [holds.length_items]
        cases t <;> exact Nat.zero_le n
      · intro done outs q c out q' run before safe step sub t
        have earlier := (List.prefix_append done [c]).trans sub
        obtain ⟨s, k, holds, within⟩ := run_within init run (short earlier) i
        have agree := call_agree cb q s c holds
        rw [step] at agree
        obtain ⟨s', run', holds'⟩ := agree.of_ok
        rw [holds'.length_items]
        refine (ListPort.Called.of_call run').bounded threshold positive within ?_ ?_ t
        · intro t
          rw [← holds.length_items]
          exact before earlier t
        · rwa [← holds.overfills_iff]
    refine ⟨bounded, ?_⟩
    obtain ⟨s, k, holds, within⟩ := run_within init run (short sub) i
    rw [congrArg QueueInfo.len (holds.queue i), within.len]
    exact Int.natCast_nonneg k

/-- Calls that keep their part of the contract overfill nothing: a queue that holds a
packet holds its tail in both trees. -/
theorem not_overfills_of_admitted {cb : Callbacks Ω π} {p : Port π} {calls : List (Call Ω π)} (init : p.Initialised)
    (admitted : ∀ q c, Lib.Calls (Port.call cb) p calls q c → q.Admits cb c) {i : QId} {n : Nat} (positive : 1 ≤ n)
    (q : Port π) (c : Call Ω π) (call : Lib.Calls (Port.call cb) p calls q c) : ¬ q.Overfills cb i n c := by
  obtain ⟨done, outs, sub, run⟩ := call
  obtain ⟨s, f⟩ := Follows.run init
    (fun q c call => admitted q c (call.mono ((List.prefix_append done _).trans sub))) run
  rw [f.holds.overfills_iff]
  intro overfills
  cases c with
  | oqDequeue ω => exact overfills
  | oqEnqueue ω ins skb =>
    obtain ⟨-, -, full, alone, -⟩ := overfills
    rcases drop : (s.queues i).dropTail with ⟨_ | skb, q'⟩
    · have empty := (SpecQueue.dropTail_eq_none_iff.1 drop).2
      have none : (s.lists.queues i).proc = [] := by
        show (s.queues i).held.map _ = []
        rw [empty]
        rfl
      rw [none, List.length_nil] at full
      omega
    · have answer := SpecQueue.lists_dropTail (f.distinct i)
      rw [drop] at answer
      rw [← ListQueue.takes_proc_iff, show (s.lists.queues i).doDropTail = _ from answer] at alone
      exact alone rfl

/-- A queue that is full from `n` on, with one action and one key for all packets. -/
def Callbacks.fullFrom (n : Nat) (action : Int) : Callbacks Ω π :=
  { Callbacks.routines n action (fun _ => 0) (fun _ => 0) with congFn := fun _ queue => (n : Int) ≤ queue.len.toInt }

theorem fullFrom_atLeast (n : Nat) (name : NameBuf) :
    (Callbacks.fullFrom n oqConActDropTail : Callbacks Ω π).AtLeast name n :=
  ⟨fun _ _ _ => rfl, fun _ _ _ _ => .inl rfl⟩

theorem twoCalls_within_monotone_threshold_iff :
    (∀ q, Lib.Visits (Port.call (.fullFrom 1 oqConActDropTail)) (Port.blank ()) twoCalls q →
      (∀ t, (q.items 0 t).length ≤ 1) ∧ 0 ≤ (q.queues 0).len.toInt) ↔
      ∀ q c, Lib.Calls (Port.call (.fullFrom 1 oqConActDropTail)) (Port.blank ()) twoCalls q c →
        ¬ q.Overfills (.fullFrom 1 oqConActDropTail) 0 1 c :=
  run_within_monotone_threshold_iff _ (Port.blank_initialised ()) (by decide) (by decide) (fullFrom_atLeast 1 _)

/-- The insertion of the first packet into `admn_q` runs out of memory. The second meets
a congested queue, the tail drop finds `admn_q` empty, and `proc_q` holds two packets
under a threshold of one. -/
theorem failed_insert_breaks_threshold :
    ¬ ∀ q, Lib.Visits (Port.call (.fullFrom 1 oqConActDropTail)) (Port.blank ())
      [.oqEnqueue () ⟨false, true⟩ ⟨7, ()⟩, .oqEnqueue () .ok ⟨8, ()⟩] q →
      (∀ t, (q.items 0 t).length ≤ 1) ∧ 0 ≤ (q.queues 0).len.toInt := by
  intro always
  have seen : (match Lib.run (Port.call (.fullFrom 1 oqConActDropTail)) (Port.blank ())
      [.oqEnqueue () ⟨false, true⟩ ⟨7, ()⟩, .oqEnqueue () .ok ⟨8, ()⟩] with
      | .ok r => (r.2.items 0 .proc).length
      | .error _ => 0) = 2 := by
    decide +kernel
  split at seen
  · next r run =>
    have last := (always r.2 (Lib.Visits.of_run run)).1 .proc
    rw [seen] at last
    exact absurd last (by decide)
  · cases seen

end OpenQueue
