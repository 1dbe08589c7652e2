import OpenQueue.Sim.Port
import Mathlib

/-!
# What a queue is for

A queue holds packets in the order they arrived, each with the two keys it was given
then. An enqueue adds the packet at the end; a tail drop takes out the greatest
admission key and a dequeue the greatest processing key, the earliest arrival among
equals. The counters are kept as the code keeps them, since a key may depend on them.

As long as no packet is handed in while its queue holds it, and insertions get their
memory, the two lists of a queue are this one list read twice.
-/

namespace OpenQueue

variable {Ω π : Type}

/-- A packet with the keys of its arrival. -/
structure Held (π : Type) where
  skb : SkBuff π
  admnKey : Key
  procKey : Key
  deriving DecidableEq

/-- A queue in arrival order. -/
structure SpecQueue (π : Type) extends QueueInfo where
  held : List (Held π)

namespace SpecQueue

/-- The packet goes to the end. -/
def enqueue (cb : Callbacks Ω π) (ω : Ω) (skb : SkBuff π) (q : SpecQueue π) : SpecQueue π :=
  { q with
    held := q.held ++ [⟨skb, cb.admnFn ω q.toQueueInfo skb, cb.procFn ω q.toQueueInfo skb⟩]
    len := q.len + 1
    total := q.total + 1 }

/-- The greatest admission key goes. -/
def dropTail (q : SpecQueue π) : Option (SkBuff π) × SpecQueue π :=
  match Lib.takeMax Held.admnKey q.held with
  | none => (none, q)
  | some (x, held) => (some x.skb, { q with held := held, dropped := q.dropped + 1 })

/-- The greatest processing key goes. -/
def dequeue (q : SpecQueue π) : Option (SkBuff π) × SpecQueue π :=
  match Lib.takeMax Held.procKey q.held with
  | none => (none, q)
  | some (x, held) => (some x.skb, { q with held := held, len := q.len - 1 })

end SpecQueue

/-- All queues of a port, and the packets dropped so far. -/
structure SpecPort (π : Type) where
  queues : QId → SpecQueue π
  dropped : List (SkBuff π)

namespace SpecPort

/-- What the callbacks see of the queues. -/
def infos (s : SpecPort π) (i : QId) : QueueInfo := (s.queues i).toQueueInfo

/-- Nothing is held. -/
def initial (infos : QId → QueueInfo) : SpecPort π := ⟨fun i => ⟨infos i, []⟩, []⟩

/-- One call, answered in the words of the code. -/
def step (cb : Callbacks Ω π) (s : SpecPort π) : Op Ω π → Except Fault (Out π × SpecPort π)
  | .doEnqueue i ω _ skb =>
    .ok (.status netXmitSuccess, { s with queues := Function.update s.queues i ((s.queues i).enqueue cb ω skb) })
  | .doDropTail i =>
    match (s.queues i).dropTail with
    | (none, q) => .ok (.dropTail .noPacket, { s with queues := Function.update s.queues i q })
    | (some skb, q) => .ok (.dropTail .dropped, ⟨Function.update s.queues i q, s.dropped ++ [skb]⟩)
  | .oqDequeue ω =>
    match slot? (cb.schedFn ω s.infos) with
    | none => .error .badIndex
    | some i =>
      match (s.queues i).dequeue with
      | (none, q) => .ok (.dequeue .noPacket, { s with queues := Function.update s.queues i q })
      | (some skb, q) => .ok (.dequeue (.packet skb), { s with queues := Function.update s.queues i q })

end SpecPort

namespace SpecQueue

/-- The ways a tail drop can go. -/
theorem dropTail_cases {q q' : SpecQueue π} {skb? : Option (SkBuff π)} (h : q.dropTail = (skb?, q')) :
    q.held = [] ∧ skb? = none ∧ q' = q ∨
    ∃ x front back, skb? = some x.skb ∧ q.held = front ++ x :: back ∧
      q' = { q with held := front ++ back, dropped := q.dropped + 1 } := by
  unfold dropTail at h
  cases top : Lib.takeMax Held.admnKey q.held with
  | none =>
    rw [top] at h
    cases h
    exact .inl ⟨Lib.takeMax_eq_none_iff.1 top, rfl, rfl⟩
  | some taken =>
    obtain ⟨x, rest⟩ := taken
    rw [top] at h
    cases h
    obtain ⟨front, back, split, rfl, -⟩ := Lib.takeMax_split top
    exact .inr ⟨x, front, back, rfl, split, rfl⟩

/-- The ways a dequeue can go. -/
theorem dequeue_cases {q q' : SpecQueue π} {skb? : Option (SkBuff π)} (h : q.dequeue = (skb?, q')) :
    q.held = [] ∧ skb? = none ∧ q' = q ∨
    ∃ x front back, skb? = some x.skb ∧ q.held = front ++ x :: back ∧
      q' = { q with held := front ++ back, len := q.len - 1 } := by
  unfold dequeue at h
  cases top : Lib.takeMax Held.procKey q.held with
  | none =>
    rw [top] at h
    cases h
    exact .inl ⟨Lib.takeMax_eq_none_iff.1 top, rfl, rfl⟩
  | some taken =>
    obtain ⟨x, rest⟩ := taken
    rw [top] at h
    cases h
    obtain ⟨front, back, split, rfl, -⟩ := Lib.takeMax_split top
    exact .inr ⟨x, front, back, rfl, split, rfl⟩

/-- Only an empty queue drops nothing. -/
theorem dropTail_eq_none_iff {q q' : SpecQueue π} : q.dropTail = (none, q') ↔ q' = q ∧ q.held = [] := by
  constructor
  · intro h
    rcases dropTail_cases h with ⟨empty, -, same⟩ | ⟨x, front, back, none, -⟩
    · exact ⟨same, empty⟩
    · cases none
  · rintro ⟨rfl, empty⟩
    simp [dropTail, empty, Lib.takeMax]

/-- Only an empty queue returns nothing. -/
theorem dequeue_eq_none_iff {q q' : SpecQueue π} : q.dequeue = (none, q') ↔ q' = q ∧ q.held = [] := by
  constructor
  · intro h
    rcases dequeue_cases h with ⟨empty, -, same⟩ | ⟨x, front, back, none, -⟩
    · exact ⟨same, empty⟩
    · cases none
  · rintro ⟨rfl, empty⟩
    simp [dequeue, empty, Lib.takeMax]

theorem dropTail_sublist {q q' : SpecQueue π} {skb? : Option (SkBuff π)} (h : q.dropTail = (skb?, q')) :
    q'.held.Sublist q.held := by
  rcases dropTail_cases h with ⟨-, -, rfl⟩ | ⟨x, front, back, -, split, rfl⟩
  · exact List.Sublist.refl _
  · rw [split]
    exact (List.Sublist.refl front).append (List.sublist_cons_self x back)

theorem dequeue_sublist {q q' : SpecQueue π} {skb? : Option (SkBuff π)} (h : q.dequeue = (skb?, q')) :
    q'.held.Sublist q.held := by
  rcases dequeue_cases h with ⟨-, -, rfl⟩ | ⟨x, front, back, -, split, rfl⟩
  · exact List.Sublist.refl _
  · rw [split]
    exact (List.Sublist.refl front).append (List.sublist_cons_self x back)

end SpecQueue

/-! ## One list read twice -/

/-- The container in the admission tree. -/
def Held.admnItem (x : Held π) : Item π := ⟨x.admnKey, x.procKey, x.skb⟩

/-- The container in the processing tree. -/
def Held.procItem (x : Held π) : Item π := ⟨x.procKey, x.admnKey, x.skb⟩

namespace SpecQueue

/-- The two lists of the queue. -/
def lists (q : SpecQueue π) : ListQueue π :=
  ⟨q.toQueueInfo, q.held.map Held.admnItem, q.held.map Held.procItem⟩

/-- No packet is held twice. -/
def Distinct (q : SpecQueue π) : Prop := (q.held.map fun x => x.skb.addr).Nodup

variable {q : SpecQueue π}

theorem lists_enqueue (cb : Callbacks Ω π) (ω : Ω) (skb : SkBuff π) (ready : q.ready = true) :
    q.lists.doEnqueue cb ω .ok skb = .ok (q.enqueue cb ω skb).lists := by
  have add : ∀ l (x : Item π), Index.add q.ready true l x = .ok (l ++ [x]) := by
    intro l x
    simp [Index.add, ready]
  simp only [ListQueue.doEnqueue, lists, Inserts.ok, add, enqueue, List.map_append]
  rfl

/-- Both lists lose the packet that one of them gives up. -/
theorem take_both {key : Held π → Key} {x : Held π} {l rest : List (Held π)} (item item' : Held π → Item π)
    (hkey : ∀ y, (item y).key = key y) (hskb : ∀ y, (item' y).skb = y.skb)
    (distinct : (l.map fun y => y.skb.addr).Nodup) (top : Lib.takeMax key l = some (x, rest)) :
    Index.takeMax (l.map item) = some (item x, rest.map item) ∧
      Index.takeSkb (l.map item') (item' x).key x.skb = .taken (rest.map item') := by
  refine ⟨?_, ?_⟩
  · rw [Index.takeMax, Lib.takeMax_map, show Item.key ∘ item = key from funext hkey, top]
    rfl
  · obtain ⟨front, back, rfl, rfl, -⟩ := Lib.takeMax_split top
    have hit : ∃ y ∈ Index.bucket ((front ++ x :: back).map item') (item' x).key, y.skb.addr = x.skb.addr :=
      ⟨item' x, by simp [Index.bucket], by rw [hskb]⟩
    have earlier : ∀ y ∈ front.map item', ¬ Index.isAt (item' x).key x.skb y = true := by
      intro y hy at'
      obtain ⟨z, hz, rfl⟩ := List.mem_map.1 hy
      simp only [Index.isAt, hskb, Bool.and_eq_true, decide_eq_true_eq] at at'
      rw [List.map_append, List.map_cons] at distinct
      have apart := (List.nodup_append.1 distinct).2.2
      exact apart _ (List.mem_map.2 ⟨z, hz, rfl⟩) _ List.mem_cons_self at'.2
    rcases Index.takeSkb_cases ((front ++ x :: back).map item') (item' x).key x.skb with
      ⟨empty, -⟩ | ⟨-, none, -⟩ | ⟨-, took⟩
    · obtain ⟨y, hy, -⟩ := hit
      rw [empty] at hy
      cases hy
    · obtain ⟨y, hy, same⟩ := hit
      exact absurd same (none y hy)
    · rw [took, List.map_append, List.map_cons, List.eraseP_append_right _ earlier,
        List.eraseP_cons_of_pos (by simp [Index.isAt, hskb]), List.map_append]

/-- A tail drop of a queue without doubles. -/
theorem lists_dropTail (distinct : q.Distinct) :
    q.lists.doDropTail = match q.dropTail with
      | (none, q') => (.noPacket, [], q'.lists)
      | (some skb, q') => (.dropped, [skb], q'.lists) := by
  unfold dropTail ListQueue.doDropTail
  cases top : Lib.takeMax Held.admnKey q.held with
  | none =>
    obtain none := Lib.takeMax_eq_none_iff.1 top
    simp [lists, none, Index.takeMax, Lib.takeMax]
  | some taken =>
    obtain ⟨x, held⟩ := taken
    obtain ⟨first, second⟩ := take_both Held.admnItem Held.procItem (fun _ => rfl) (fun _ => rfl) distinct top
    simp only [lists, first]
    rw [show x.admnItem.otherKey = x.procItem.key from rfl, show x.admnItem.skb = x.skb from rfl, second]

/-- A dequeue of a queue without doubles. -/
theorem lists_dequeue (distinct : q.Distinct) :
    q.lists.dequeueFrom = match q.dequeue with
      | (none, q') => (.noPacket, q'.lists)
      | (some skb, q') => (.packet skb, q'.lists) := by
  unfold dequeue ListQueue.dequeueFrom
  cases top : Lib.takeMax Held.procKey q.held with
  | none =>
    obtain none := Lib.takeMax_eq_none_iff.1 top
    simp [lists, none, Index.takeMax, Lib.takeMax]
  | some taken =>
    obtain ⟨x, held⟩ := taken
    obtain ⟨first, second⟩ := take_both Held.procItem Held.admnItem (fun _ => rfl) (fun _ => rfl) distinct top
    simp only [lists, first]
    rw [show x.procItem.otherKey = x.admnItem.key from rfl, show x.procItem.skb = x.skb from rfl, second]

/-! ### The queue stays without doubles -/

theorem Distinct.enqueue {cb : Callbacks Ω π} {ω : Ω} {skb : SkBuff π} (distinct : q.Distinct)
    (fresh : ∀ x ∈ q.held, x.skb.addr ≠ skb.addr) : (q.enqueue cb ω skb).Distinct := by
  simp only [Distinct, SpecQueue.enqueue, List.map_append, List.map_cons, List.map_nil]
  refine List.Nodup.append distinct (List.nodup_singleton _) ?_
  intro a ha same
  obtain ⟨x, hx, rfl⟩ := List.mem_map.1 ha
  exact fresh x hx (List.mem_singleton.1 same)

theorem Distinct.sublist {q' : SpecQueue π} (distinct : q.Distinct) (sub : q'.held.Sublist q.held) : q'.Distinct :=
  List.Nodup.sublist (sub.map _) distinct

end SpecQueue

end OpenQueue
