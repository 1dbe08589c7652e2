import OpenQueue.Sim.Outcomes

/-!
# What `len` counts and a tree does not hold

`do_enqueue` counts its packet whether or not its insertions succeed, `do_drop_tail` takes
packets out and leaves `len` alone, and a dequeue that does not find its packet in `admn_q`
has taken it out of `proc_q` already. In these three ways `len` gains on a tree. There is no
other way, and no tree ever gains on `len`.
-/

namespace OpenQueue

variable {Ω π : Type}

/-- A tail drop that ends so has taken a packet out of tree `t`. -/
def DropExit.takes : DropExit → Side → Bool
  | .noPacket, _ => false
  | .noProcList, t | .noProcContainer, t => t = .admn
  | .dropped, _ => true

/-- A dequeue that ends so has taken a packet out of `proc_q` alone. -/
def DequeueExit.strands : DequeueExit π → Bool
  | .noAdmnList | .noAdmnContainer => true
  | .noPacket | .packet _ => false

namespace Port

/-- `do_drop_tail` on queue `i`: how it ends and what it leaves. -/
def dropTail (p : Port π) (i : QId) : DropExit × Port π := (onQueue i doDropTail p).toOption.getD (.noPacket, p)

/-- The port that `do_enqueue` finds where `oq_enqueue` runs it on queue `i`. -/
def meets (cb : Callbacks Ω π) (i : QId) (p : Port π) (ω : Ω) (skb : SkBuff π) : Option (Port π) :=
  if slot? (cb.qSelect ω p.infos skb) = some i then
    if cb.congFn ω (p.infos i) = false then some p
    else if cb.congActFn ω (p.infos i) skb = oqConActDropTail then some (p.dropTail i).2
    else none
  else none

/-- The call needs an insertion into tree `t` of queue `i`, and the insertion fails. -/
def fails (cb : Callbacks Ω π) (i : QId) (t : Side) (p : Port π) : Call Ω π → Bool
  | .oqEnqueue ω ins skb => (p.meets cb i ω skb).any fun q =>
    (q.queues i).ready && !ins.side t && (q.bucket i t (cb.key ω (q.infos i) skb t)).isEmpty
  | .oqDequeue _ => false

/-- The call makes `do_drop_tail` take a packet out of tree `t` of queue `i`. -/
def tailDropsFrom (cb : Callbacks Ω π) (i : QId) (t : Side) (p : Port π) : Call Ω π → Bool
  | .oqEnqueue ω _ skb => slot? (cb.qSelect ω p.infos skb) = some i && cb.congFn ω (p.infos i) &&
    cb.congActFn ω (p.infos i) skb = oqConActDropTail && (p.dropTail i).1.takes t
  | .oqDequeue _ => false

/-- The call makes `oq_dequeue` take a packet out of tree `t` of queue `i` and not find it in
the other one. It looks at `proc_q` first. -/
def strands (cb : Callbacks Ω π) (i : QId) (t : Side) (p : Port π) : Call Ω π → Bool
  | .oqEnqueue .. => false
  | .oqDequeue ω => t = .proc && slot? (cb.schedFn ω p.infos) = some i &&
    ((onQueue i dequeueFrom p).toOption.any fun r => r.1.strands)

/-- How much `len` of queue `i` gains on tree `t` in the call. -/
def gain (cb : Callbacks Ω π) (i : QId) (t : Side) (p : Port π) (c : Call Ω π) : Nat :=
  (p.tailDropsFrom cb i t c).toNat + (p.fails cb i t c).toNat + (p.strands cb i t c).toNat

end Port

/-! ## The same on lists -/

/-- The insertion into list `t` is needed and fails. -/
def ListQueue.refuses (a : ListQueue π) (cb : Callbacks Ω π) (ω : Ω) (ins : Inserts) (skb : SkBuff π) (t : Side) :
    Bool :=
  a.ready && !ins.side t && (Index.bucket (a.side t) (cb.key ω a.toQueueInfo skb t)).isEmpty

namespace ListPort

/-- The queue that `do_enqueue` finds where `oq_enqueue` runs it on queue `i`. -/
def meets (cb : Callbacks Ω π) (i : QId) (s : ListPort π) (ω : Ω) (skb : SkBuff π) : Option (ListQueue π) :=
  if slot? (cb.qSelect ω s.infos skb) = some i then
    if cb.congFn ω (s.infos i) = false then some (s.queues i)
    else if cb.congActFn ω (s.infos i) skb = oqConActDropTail then some (s.queues i).doDropTail.2.2
    else none
  else none

def fails (cb : Callbacks Ω π) (i : QId) (t : Side) (s : ListPort π) : Call Ω π → Bool
  | .oqEnqueue ω ins skb => (s.meets cb i ω skb).any fun a => a.refuses cb ω ins skb t
  | .oqDequeue _ => false

def tailDropsFrom (cb : Callbacks Ω π) (i : QId) (t : Side) (s : ListPort π) : Call Ω π → Bool
  | .oqEnqueue ω _ skb => slot? (cb.qSelect ω s.infos skb) = some i && cb.congFn ω (s.infos i) &&
    cb.congActFn ω (s.infos i) skb = oqConActDropTail && (s.queues i).doDropTail.1.takes t
  | .oqDequeue _ => false

def strands (cb : Callbacks Ω π) (i : QId) (t : Side) (s : ListPort π) : Call Ω π → Bool
  | .oqEnqueue .. => false
  | .oqDequeue ω => t = .proc && slot? (cb.schedFn ω s.infos) = some i && (s.queues i).dequeueFrom.1.strands

def gain (cb : Callbacks Ω π) (i : QId) (t : Side) (s : ListPort π) (c : Call Ω π) : Nat :=
  (s.tailDropsFrom cb i t c).toNat + (s.fails cb i t c).toNat + (s.strands cb i t c).toNat

end ListPort

namespace Holds

variable {p : Port π} {s : ListPort π}

theorem infos (holds : Holds p s) : p.infos = s.infos := by
  obtain ⟨g, C, L, repr⟩ := holds
  exact repr.infos

theorem queue (holds : Holds p s) (i : QId) : (p.queues i).toQueueInfo = (s.queues i).toQueueInfo :=
  congrFun holds.infos i

theorem bucket (holds : Holds p s) (i : QId) (t : Side) (k : Key) :
    p.bucket i t k = Index.bucket ((s.queues i).side t) k := by
  obtain ⟨g, C, L, repr⟩ := holds
  exact repr.bucket i t k

theorem length_items (holds : Holds p s) (i : QId) (t : Side) :
    (p.items i t).length = ((s.queues i).side t).length := by
  obtain ⟨g, C, L, repr⟩ := holds
  exact (repr.items_perm i t).length_eq

theorem dropTail (holds : Holds p s) (i : QId) :
    (p.dropTail i).1 = (s.queues i).doDropTail.1 ∧
      Holds (p.dropTail i).2 (s.set i (s.queues i).doDropTail.2.2 (s.queues i).doDropTail.2.1) := by
  have agree := (FramedSim.onQueue doDropTail_sim i).sim p s holds
  have answer : ListPort.onQueue i ListPort.doDropTail s =
      .ok ((s.queues i).doDropTail.1, s.set i (s.queues i).doDropTail.2.2 (s.queues i).doDropTail.2.1) := rfl
  rw [answer] at agree
  obtain ⟨p', run, holds'⟩ := agree.of_ok_right
  rw [Port.dropTail, run]
  exact ⟨rfl, holds'⟩

theorem meets (holds : Holds p s) (cb : Callbacks Ω π) (i : QId) (ω : Ω) (skb : SkBuff π) :
    p.meets cb i ω skb = none ∧ s.meets cb i ω skb = none ∨
      ∃ q u, p.meets cb i ω skb = some q ∧ s.meets cb i ω skb = some (u.queues i) ∧ Holds q u := by
  unfold Port.meets ListPort.meets
  rw [holds.infos]
  split_ifs
  · exact .inr ⟨p, s, rfl, rfl, holds⟩
  · exact .inr ⟨_, _, rfl, by rw [ListPort.set_queues], (holds.dropTail i).2⟩
  · exact .inl ⟨rfl, rfl⟩
  · exact .inl ⟨rfl, rfl⟩

theorem fails (holds : Holds p s) (cb : Callbacks Ω π) (i : QId) (t : Side) (c : Call Ω π) :
    p.fails cb i t c = s.fails cb i t c := by
  cases c with
  | oqDequeue ω => rfl
  | oqEnqueue ω ins skb =>
    simp only [Port.fails, ListPort.fails]
    rcases holds.meets cb i ω skb with ⟨none, none'⟩ | ⟨q, u, found, found', inner⟩
    · rw [none, none']
      rfl
    · simp only [found, found', Option.any_some, ListQueue.refuses, inner.bucket, Port.infos, inner.queue i]

theorem tailDropsFrom (holds : Holds p s) (cb : Callbacks Ω π) (i : QId) (t : Side) (c : Call Ω π) :
    p.tailDropsFrom cb i t c = s.tailDropsFrom cb i t c := by
  cases c with
  | oqDequeue ω => rfl
  | oqEnqueue ω ins skb => simp only [Port.tailDropsFrom, ListPort.tailDropsFrom, holds.infos, (holds.dropTail i).1]

theorem strands (holds : Holds p s) (cb : Callbacks Ω π) (i : QId) (t : Side) (c : Call Ω π) :
    p.strands cb i t c = s.strands cb i t c := by
  cases c with
  | oqEnqueue ω ins skb => rfl
  | oqDequeue ω =>
    have agree := (FramedSim.onQueue dequeueFrom_sim i).sim p s holds
    have answer : ListPort.onQueue i ListPort.dequeueFrom s =
        .ok ((s.queues i).dequeueFrom.1, s.set i (s.queues i).dequeueFrom.2 []) := rfl
    rw [answer] at agree
    obtain ⟨p', run, -⟩ := agree.of_ok_right
    rw [Port.strands, ListPort.strands, run, holds.infos]
    rfl

theorem gain (holds : Holds p s) (cb : Callbacks Ω π) (i : QId) (t : Side) (c : Call Ω π) :
    p.gain cb i t c = s.gain cb i t c := by
  rw [Port.gain, ListPort.gain, holds.tailDropsFrom, holds.fails, holds.strands]

end Holds

/-! ## Lengths -/

namespace Index

variable {l l' : List (Item π)} {e : Item π}

theorem length_add {ready ins : Bool} {x : Item π} (h : add ready ins l x = .ok l') :
    l'.length + (ready && !ins && (bucket l x.key).isEmpty).toNat = l.length + 1 := by
  unfold add at h
  split at h
  · next has =>
    cases h
    simp [hasKey_eq_true_iff.1 has]
  · next hasNot =>
    rw [Bool.not_eq_true, hasKey_eq_false_iff] at hasNot
    cases ready with
    | false => cases h
    | true =>
      cases h
      cases ins <;> simp [hasNot]

theorem add_of_fits {ready ins : Bool} (x : Item π) (fits : (ready && !ins && (bucket l x.key).isEmpty) = false) :
    add ready ins l x = add ready true l x := by
  unfold add
  cases has : hasKey l x.key with
  | true => rfl
  | false =>
    rw [hasKey_eq_false_iff.1 has] at fits
    cases ready <;> cases ins <;> first | rfl | cases fits

theorem length_takeMax (h : takeMax l = some (e, l')) : l'.length + 1 = l.length := by
  obtain ⟨front, back, rfl, rfl, -⟩ := Lib.takeMax_split h
  simp
  omega

theorem length_eraseP_isAt {key : Key} {skb : SkBuff π} (hit : ∃ x ∈ bucket l key, x.skb.addr = skb.addr) :
    (l.eraseP (isAt key skb)).length + 1 = l.length := by
  obtain ⟨x, hx, same⟩ := hit
  obtain ⟨member, here⟩ := List.mem_filter.1 hx
  have found : isAt key skb x = true := by
    simp only [decide_eq_true_eq] at here
    simp [isAt, here, same]
  have positive := List.length_pos_of_mem member
  rw [List.length_eraseP_of_mem member found]
  omega

end Index

namespace ListQueue

variable {a a' : ListQueue π} {cb : Callbacks Ω π} {ω : Ω} {ins : Inserts} {skb : SkBuff π}

/-- A list grows unless its insertion fails. -/
theorem length_doEnqueue (enq : a.doEnqueue cb ω ins skb = .ok a') (t : Side) :
    (a'.side t).length + (a.refuses cb ω ins skb t).toNat = (a.side t).length + 1 := by
  obtain ⟨first, second, -⟩ := doEnqueue_ok enq
  cases t with
  | admn => exact Index.length_add first
  | proc => exact Index.length_add second

/-- A tail drop shortens the lists that it takes a packet out of. -/
theorem length_doDropTail (a : ListQueue π) (t : Side) :
    (a.doDropTail.2.2.side t).length + (a.doDropTail.1.takes t).toNat = (a.side t).length := by
  rcases a.doDropTail_cases with ⟨-, exit⟩ | ⟨e, admn, top, half⟩
  · rw [exit]
    rfl
  · have shorter := Index.length_takeMax top
    rcases half with ⟨-, exit⟩ | ⟨-, -, exit⟩ | ⟨hit, exit⟩ <;> rw [exit] <;> cases t
    · exact shorter
    · rfl
    · exact shorter
    · rfl
    · exact shorter
    · exact Index.length_eraseP_isAt hit

/-- A tail drop takes a packet out of `admn_q` unless it is empty. -/
theorem takes_admn (a : ListQueue π) : a.doDropTail.1.takes .admn = !a.admn.isEmpty := by
  rcases a.doDropTail_cases with ⟨none, exit⟩ | ⟨e, admn, top, half⟩
  · rw [exit, Lib.takeMax_eq_none_iff.1 none]
    rfl
  · have some : a.admn.isEmpty = false := by
      have shorter := Index.length_takeMax top
      rw [List.isEmpty_eq_false_iff, ← List.length_pos_iff]
      omega
    rw [some]
    rcases half with ⟨-, exit⟩ | ⟨-, -, exit⟩ | ⟨-, exit⟩ <;> rw [exit] <;> rfl

/-- It takes one out of `proc_q` if it finds its packet there. -/
theorem takes_proc_iff (a : ListQueue π) : a.doDropTail.1.takes .proc = true ↔ Index.Paired a.admn a.proc := by
  rcases a.doDropTail_paired with ⟨paired, exit, -⟩ | ⟨alone, same, -⟩
  · rw [exit]
    exact iff_of_true rfl paired
  · refine iff_of_false (fun takes => ?_) alone
    have shorter := a.length_doDropTail .proc
    simp only [side, takes, same, Bool.toNat_true] at shorter
    omega

theorem len_doDropTail (a : ListQueue π) : a.doDropTail.2.2.len = a.len := by
  rcases a.doDropTail_cases with ⟨-, exit⟩ | ⟨e, admn, -, ⟨-, exit⟩ | ⟨-, -, exit⟩ | ⟨-, exit⟩⟩ <;> rw [exit]

theorem ready_of_refuses {t : Side} (h : a.refuses cb ω ins skb t = true) : a.ready = true := by
  simp only [refuses, Bool.and_eq_true] at h
  exact h.1.1

/-- An insertion that is not needed may fail. -/
theorem doEnqueue_of_fits (fits : ∀ t, a.refuses cb ω ins skb t = false) :
    a.doEnqueue cb ω ins skb = a.doEnqueue cb ω .ok skb := by
  have admn := Index.add_of_fits (cb.item ω a.toQueueInfo skb .admn) (fits .admn)
  have proc := Index.add_of_fits (cb.item ω a.toQueueInfo skb .proc) (fits .proc)
  simp only [Callbacks.item, Callbacks.key, Side.other, Inserts.side, side] at admn proc
  simp only [doEnqueue, admn, proc]
  rfl

/-- A queue that holds something is initialised. -/
def ReadyIfHeld (a : ListQueue π) : Prop := ∀ t, a.side t ≠ [] → a.ready = true

namespace ReadyIfHeld

theorem ready (h : a.ReadyIfHeld) (enq : a.doEnqueue cb ω ins skb = .ok a') : a.ready = true := by
  obtain ⟨first, -⟩ := doEnqueue_ok enq
  by_cases empty : a.admn = []
  · cases notReady : a.ready with
    | true => rfl
    | false => simp [Index.add, Index.hasKey, empty, notReady] at first
  · exact h .admn empty

theorem enqueue (h : a.ReadyIfHeld) (enq : a.doEnqueue cb ω ins skb = .ok a') : a'.ReadyIfHeld := by
  intro _ _
  exact (congrArg QueueInfo.ready (doEnqueue_ok enq).2.2).trans (h.ready enq)

theorem sublist (h : a.ReadyIfHeld) (sub : ∀ t, (a'.side t).Sublist (a.side t)) (same : a'.ready = a.ready) :
    a'.ReadyIfHeld := by
  intro t some
  rw [same]
  refine h t fun empty => some ?_
  have shorter := sub t
  rw [empty] at shorter
  exact List.sublist_nil.1 shorter

theorem dropTail (h : a.ReadyIfHeld) : a.doDropTail.2.2.ReadyIfHeld :=
  h.sublist a.doDropTail_sublist a.ready_doDropTail

theorem dequeue (h : a.ReadyIfHeld) : a.dequeueFrom.2.ReadyIfHeld := by
  refine h.sublist a.dequeueFrom_sublist ?_
  rcases a.dequeueFrom_cases with ⟨-, exit⟩ | ⟨e, proc, -, ⟨-, exit⟩ | ⟨-, -, exit⟩ | ⟨-, exit⟩⟩ <;> rw [exit]

end ReadyIfHeld

end ListQueue

/-! ## What a call does to `len` and to one tree -/

/-- `len` and the number of packets of a tree before and after a call that is handed `m`
packets and in which `len` gains `k` on the tree. -/
inductive Change (m : Nat) (len : BitVec 32) (n k : Nat) : BitVec 32 → Nat → Prop
  | more {n' : Nat} : m = 1 → n' + k = n + 1 → Change m len n k (len + 1) n'
  | same {n' : Nat} : n' + k = n → Change m len n k len n'
  | less {n' : Nat} : k = 0 → n' + 1 = n → Change m len n k (len - 1) n'

namespace Change

variable {len len' : BitVec 32} {m n n' k d : Nat}

theorem counted (change : Change m len n k len' n') (before : len = BitVec.ofNat 32 (n + d)) :
    len' = BitVec.ofNat 32 (n' + (d + k)) := by
  subst before
  cases change <;> refine BitVec.eq_of_toNat_eq ?_ <;> simp <;> omega

theorem le (change : Change m len n k len' n') : n' + k ≤ n + m := by
  cases change <;> omega

end Change

/-- The ways of a dequeue. -/
theorem ListQueue.change_dequeueFrom (a : ListQueue π) (t : Side) (m : Nat) :
    Change m a.len (a.side t).length (t = .proc && a.dequeueFrom.1.strands).toNat a.dequeueFrom.2.len
      (a.dequeueFrom.2.side t).length := by
  rcases a.dequeueFrom_cases with ⟨-, exit⟩ | ⟨e, proc, top, half⟩
  · rw [exit]
    exact .same (by simp [DequeueExit.strands])
  · have shorter := Index.length_takeMax top
    rcases half with ⟨-, exit⟩ | ⟨-, -, exit⟩ | ⟨hit, exit⟩ <;> rw [exit] <;> cases t
    · exact .same rfl
    · exact .same shorter
    · exact .same rfl
    · exact .same shorter
    · exact .less rfl (Index.length_eraseP_isAt hit)
    · exact .less rfl shorter

namespace ListPort

variable {cb : Callbacks Ω π} {s s' : ListPort π} {c : Call Ω π} {out : Out π} {i j : QId} {t : Side} {ω : Ω}
  {ins : Inserts} {skb : SkBuff π}

theorem fails_of_free (slot : slot? (cb.qSelect ω s.infos skb) = some i) (free : cb.congFn ω (s.infos i) = false) :
    s.fails cb i t (.oqEnqueue ω ins skb) = (s.queues i).refuses cb ω ins skb t := by
  simp [fails, meets, slot, free]

theorem fails_of_tail (congested : Congested cb s.infos ω skb i)
    (tail : cb.congActFn ω (s.infos i) skb = oqConActDropTail) :
    s.fails cb i t (.oqEnqueue ω ins skb) = (s.queues i).doDropTail.2.2.refuses cb ω ins skb t := by
  simp [fails, meets, congested.slot, congested.full, tail]

/-- An insertion that fails is made at once, or after a tail drop. -/
theorem fails_cases (h : s.fails cb i t c = true) :
    ∃ ω ins skb, c = .oqEnqueue ω ins skb ∧ slot? (cb.qSelect ω s.infos skb) = some i ∧
      (cb.congFn ω (s.infos i) = false ∧ (s.queues i).refuses cb ω ins skb t = true ∨
        cb.congFn ω (s.infos i) = true ∧ cb.congActFn ω (s.infos i) skb = oqConActDropTail ∧
          (s.queues i).doDropTail.2.2.refuses cb ω ins skb t = true) := by
  cases c with
  | oqDequeue ω => cases h
  | oqEnqueue ω ins skb =>
    by_cases slot : slot? (cb.qSelect ω s.infos skb) = some i
    · refine ⟨ω, ins, skb, rfl, slot, ?_⟩
      cases full : cb.congFn ω (s.infos i) with
      | false => exact .inl ⟨rfl, fails_of_free slot full ▸ h⟩
      | true =>
        by_cases tail : cb.congActFn ω (s.infos i) skb = oqConActDropTail
        · exact .inr ⟨rfl, tail, fails_of_tail ⟨slot, full⟩ tail ▸ h⟩
        · simp [fails, meets, full, tail] at h
    · simp [fails, meets, slot] at h

theorem gain_of_slot (slot : slot? (cb.qSelect ω s.infos skb) = some j) (other : i ≠ j) :
    s.gain cb i t (.oqEnqueue ω ins skb) = 0 := by
  simp [gain, tailDropsFrom, fails, meets, strands, slot, other.symm]

theorem gain_of_free (slot : slot? (cb.qSelect ω s.infos skb) = some i) (free : cb.congFn ω (s.infos i) = false) :
    s.gain cb i t (.oqEnqueue ω ins skb) = ((s.queues i).refuses cb ω ins skb t).toNat := by
  simp [gain, tailDropsFrom, strands, free, fails_of_free slot free]

theorem gain_of_tail (congested : Congested cb s.infos ω skb i)
    (tail : cb.congActFn ω (s.infos i) skb = oqConActDropTail) :
    s.gain cb i t (.oqEnqueue ω ins skb) =
      ((s.queues i).doDropTail.1.takes t).toNat + ((s.queues i).doDropTail.2.2.refuses cb ω ins skb t).toNat := by
  simp [gain, tailDropsFrom, strands, congested.slot, congested.full, tail, fails_of_tail congested tail]

theorem gain_of_other_action (congested : Congested cb s.infos ω skb j)
    (tail : cb.congActFn ω (s.infos j) skb ≠ oqConActDropTail) : s.gain cb i t (.oqEnqueue ω ins skb) = 0 := by
  by_cases here : i = j
  · subst here
    simp [gain, tailDropsFrom, fails, meets, strands, congested.full, tail]
  · exact gain_of_slot congested.slot here

theorem gain_of_dequeue (slot : slot? (cb.schedFn ω s.infos) = some i) :
    s.gain cb i t (.oqDequeue ω) = (t = .proc && (s.queues i).dequeueFrom.1.strands).toNat := by
  simp [gain, tailDropsFrom, fails, strands, slot]

/-- The change of one queue in one call. -/
theorem Called.change (way : Called cb s c out s') (i : QId) (t : Side) :
    Change (offered [c]).length (s.queues i).len ((s.queues i).side t).length (s.gain cb i t c) (s'.queues i).len
      ((s'.queues i).side t).length := by
  cases way with
  | @admitted j ω ins skb q slot free enq =>
    by_cases here : i = j
    · subst here
      rw [set_queues, gain_of_free slot free, congrArg QueueInfo.len (ListQueue.doEnqueue_ok enq).2.2]
      exact .more rfl (ListQueue.length_doEnqueue enq t)
    · rw [set_other _ _ _ here, gain_of_slot slot here]
      exact .same rfl
  | @tailDropped j ω ins skb exit freed q q' congested tail drop enq =>
    by_cases here : i = j
    · subst here
      obtain rfl : (s.queues i).doDropTail.2.2 = q := by rw [drop]
      have shorter := (s.queues i).length_doDropTail t
      have longer := ListQueue.length_doEnqueue enq t
      rw [set_queues, gain_of_tail congested tail, congrArg QueueInfo.len (ListQueue.doEnqueue_ok enq).2.2]
      simp only [ListQueue.len_doDropTail]
      exact .more rfl (by omega)
    · rw [set_other _ _ _ here, gain_of_slot congested.slot here]
      exact .same rfl
  | @refused j ω ins skb congested pkt =>
    rw [gain_of_other_action congested (by rw [pkt]; decide)]
    by_cases here : i = j
    · subst here
      rw [set_queues]
      cases t <;> exact .same rfl
    · rw [set_other _ _ _ here]
      exact .same rfl
  | ignored congested tail pkt =>
    rw [gain_of_other_action congested tail]
    exact .same rfl
  | @dequeued j ω exit q slot deq =>
    by_cases here : i = j
    · subst here
      have change := (s.queues i).change_dequeueFrom t (offered [Call.oqDequeue (π := π) ω]).length
      rw [set_queues, gain_of_dequeue slot]
      rw [deq] at change ⊢
      exact change
    · have none : s.gain cb i t (.oqDequeue ω) = 0 := by
        simp [gain, tailDropsFrom, fails, strands, slot, Ne.symm here]
      rw [set_other _ _ _ here, none]
      exact .same rfl

/-- A tree gets longer exactly if its insertion does not fail and the queue is free or drops
its tail without taking a packet out of this tree. -/
theorem Called.grows_iff (way : Called cb s (.oqEnqueue ω ins skb) out s')
    (slot : slot? (cb.qSelect ω s.infos skb) = some i) :
    ((s.queues i).side t).length < ((s'.queues i).side t).length ↔
      s.fails cb i t (.oqEnqueue ω ins skb) = false ∧ (cb.congFn ω (s.infos i) = true →
        cb.congActFn ω (s.infos i) skb = oqConActDropTail ∧ s.tailDropsFrom cb i t (.oqEnqueue ω ins skb) = false) := by
  cases way with
  | @admitted j _ _ _ q slot' free enq =>
    obtain rfl := Option.some.inj (slot.symm.trans slot')
    have longer := ListQueue.length_doEnqueue enq t
    rw [set_queues, fails_of_free slot free, free]
    cases fails : (s.queues i).refuses cb ω ins skb t <;> simp [fails] at longer ⊢ <;> omega
  | @tailDropped j _ _ _ exit freed q q' congested tail drop enq =>
    obtain rfl := Option.some.inj (slot.symm.trans congested.slot)
    obtain rfl : (s.queues i).doDropTail.2.2 = q := by rw [drop]
    have shorter := (s.queues i).length_doDropTail t
    have longer := ListQueue.length_doEnqueue enq t
    rw [set_queues, fails_of_tail congested tail]
    simp only [tailDropsFrom, slot, congested.full, tail, decide_true, Bool.true_and, true_and, forall_const]
    cases fails : (s.queues i).doDropTail.2.2.refuses cb ω ins skb t <;>
      cases takes : (s.queues i).doDropTail.1.takes t <;> simp [fails, takes] at shorter longer ⊢ <;> omega
  | @refused j _ _ _ congested pkt =>
    obtain rfl := Option.some.inj (slot.symm.trans congested.slot)
    rw [set_queues]
    refine iff_of_false ?_ fun grows => ?_
    · cases t <;> exact lt_irrefl _
    · have tail := (grows.2 congested.full).1
      rw [pkt] at tail
      cases tail
  | ignored congested tail pkt =>
    obtain rfl := Option.some.inj (slot.symm.trans congested.slot)
    exact iff_of_false (lt_irrefl _) fun grows => tail (grows.2 congested.full).1

/-- A tree of at most `n` packets that holds more after a call held `n`, and the call sent it
another. -/
theorem Called.exceeds {c : Call Ω π} {n : Nat} (way : Called cb s c out s')
    (before : ((s.queues i).side t).length ≤ n) (exceeds : n < ((s'.queues i).side t).length) :
    ∃ ω ins skb, c = .oqEnqueue ω ins skb ∧ slot? (cb.qSelect ω s.infos skb) = some i ∧
      ((s.queues i).side t).length = n := by
  have change := (way.change i t).le
  cases c with
  | oqDequeue ω =>
    have none : (offered [Call.oqDequeue (π := π) ω]).length = 0 := rfl
    omega
  | oqEnqueue ω ins skb =>
    have one : (offered [Call.oqEnqueue ω ins skb]).length = 1 := rfl
    refine ⟨ω, ins, skb, rfl, ?_, by omega⟩
    by_contra elsewhere
    rw [way.elsewhere elsewhere] at exceeds
    omega

/-- A packet that is sent to an initialised queue goes one of the ways. -/
theorem called_of_ready (slot : slot? (cb.qSelect ω s.infos skb) = some i) (ready : (s.queues i).ready = true)
    (ins : Inserts) : ∃ out s', Called cb s (.oqEnqueue ω ins skb) out s' := by
  cases full : cb.congFn ω (s.infos i) with
  | false =>
    obtain ⟨q, enq⟩ := ListQueue.doEnqueue_of_ready ready cb ω ins skb
    exact ⟨_, _, .admitted slot full enq⟩
  | true =>
    by_cases tail : cb.congActFn ω (s.infos i) skb = oqConActDropTail
    · obtain ⟨q, enq⟩ := ListQueue.doEnqueue_of_ready ((s.queues i).ready_doDropTail.trans ready) cb ω ins skb
      exact ⟨_, _, .tailDropped ⟨slot, full⟩ tail rfl enq⟩
    · by_cases pkt : cb.congActFn ω (s.infos i) skb = oqConActDropPkt
      · exact ⟨_, _, .refused ⟨slot, full⟩ pkt⟩
      · exact ⟨_, _, .ignored ⟨slot, full⟩ tail pkt⟩

/-- A call in which an insertion fails, or a tail is dropped, goes through. -/
theorem called_of_loss (held : (s.queues i).ReadyIfHeld)
    (loss : s.tailDropsFrom cb i .admn c = true ∨ s.fails cb i t c = true) : ∃ out s', Called cb s c out s' := by
  rcases loss with drops | fails
  · cases c with
    | oqDequeue ω => cases drops
    | oqEnqueue ω ins skb =>
      simp only [tailDropsFrom, Bool.and_eq_true, decide_eq_true_eq] at drops
      obtain ⟨⟨⟨slot, -⟩, -⟩, takes⟩ := drops
      refine called_of_ready slot (held .admn fun empty => ?_) ins
      have shorter := (s.queues i).length_doDropTail .admn
      rw [takes, empty] at shorter
      cases shorter
  · obtain ⟨ω, ins, skb, rfl, slot, here⟩ := fails_cases fails
    refine called_of_ready slot ?_ ins
    rcases here with ⟨-, refuses⟩ | ⟨-, -, refuses⟩
    · exact ListQueue.ready_of_refuses refuses
    · exact (s.queues i).ready_doDropTail.symm.trans (ListQueue.ready_of_refuses refuses)

/-- A property of all queues survives if the new queue has it. -/
theorem set_forall {P : ListQueue π → Prop} {q : ListQueue π} {freed : List (SkBuff π)} (all : ∀ j, P (s.queues j))
    (new : P q) (j : QId) : P ((s.set i q freed).queues j) := by
  by_cases same : j = i
  · subst same
    rwa [set_queues]
  · rw [set_other _ _ _ same]
    exact all j

theorem Called.readyIfHeld (way : Called cb s c out s') (all : ∀ i, (s.queues i).ReadyIfHeld) :
    ∀ i, (s'.queues i).ReadyIfHeld := by
  cases way with
  | admitted slot free enq => exact set_forall all ((all _).enqueue enq)
  | @tailDropped i ω ins skb exit freed q q' congested tail drop enq =>
    have dropped := (all i).dropTail
    rw [drop] at dropped
    exact set_forall all (dropped.enqueue enq)
  | @refused i ω ins skb congested pkt =>
    refine set_forall all fun t some => all i t ?_
    cases t <;> exact some
  | ignored congested tail pkt => exact all
  | @dequeued i ω exit q slot deq =>
    have dequeued := (all i).dequeue
    rw [deq] at dequeued
    exact set_forall all dequeued

end ListPort

end OpenQueue
