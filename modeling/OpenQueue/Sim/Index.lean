import OpenQueue.Kernel.Qdisc
import OpenQueue.Lib.Arrival

/-!
# The queue functions on two lists in arrival order

One tree with its rings is, without the pointers, the list of its packets in
arrival order, each with its key and with the key of its other container. The queue
functions on two such lists keep every outcome of the C code, the ones that leave
the two lists different included: a packet handed in twice, an insertion without
memory, a second half that does not find what the first half took.
-/

namespace OpenQueue

variable {Ω π : Type}

/-- A container of one tree: the key it sits under, `other_key` and `skb`. -/
structure Item (π : Type) where
  key : Key
  otherKey : Key
  skb : SkBuff π
  deriving DecidableEq

namespace Index

/-- Some container sits under `key`. -/
def hasKey (l : List (Item π)) (key : Key) : Bool := l.any (fun x => x.key = key)

/-- The container of a packet under a key. -/
def isAt (key : Key) (skb : SkBuff π) (x : Item π) : Bool := x.key = key && x.skb.addr = skb.addr

/-- `linkTail` on the list. A bucket that exists needs no insertion. -/
def add (ready ins : Bool) (l : List (Item π)) (x : Item π) : Except Fault (List (Item π)) :=
  if hasKey l x.key then .ok (l ++ [x])
  else if ready = false then .error .noNodePool
  else .ok (if ins then l ++ [x] else l)

/-- `unlinkHead` on the list: the greatest key, the earliest arrival among equals. -/
def takeMax (l : List (Item π)) : Option (Item π × List (Item π)) := Lib.takeMax Item.key l

/-- The outcomes of `unlinkSkb` on the list. -/
inductive Found (π : Type) where
  | noList
  | noContainer
  | taken (rest : List (Item π))

/-- `unlinkSkb` on the list. -/
def takeSkb (l : List (Item π)) (key : Key) (skb : SkBuff π) : Found π :=
  if hasKey l key = false then .noList
  else if l.any (isAt key skb) = false then .noContainer
  else .taken (l.eraseP (isAt key skb))

end Index

/-- A queue as two lists. -/
structure ListQueue (π : Type) extends QueueInfo where
  admn : List (Item π)
  proc : List (Item π)

namespace ListQueue

def side (q : ListQueue π) : Side → List (Item π)
  | .admn => q.admn
  | .proc => q.proc

/-- `do_enqueue`. -/
def doEnqueue (cb : Callbacks Ω π) (ω : Ω) (ins : Inserts) (skb : SkBuff π) (q : ListQueue π) :
    Except Fault (ListQueue π) := do
  let admnKey := cb.admnFn ω q.toQueueInfo skb
  let procKey := cb.procFn ω q.toQueueInfo skb
  let admn ← Index.add q.ready ins.admn q.admn ⟨admnKey, procKey, skb⟩
  let proc ← Index.add q.ready ins.proc q.proc ⟨procKey, admnKey, skb⟩
  return { q with admn := admn, proc := proc, len := q.len + 1, total := q.total + 1 }

/-- `do_drop_tail`: the exit, the packets freed and the queue. -/
def doDropTail (q : ListQueue π) : DropExit × List (SkBuff π) × ListQueue π :=
  match Index.takeMax q.admn with
  | none => (.noPacket, [], q)
  | some (x, admn) =>
    match Index.takeSkb q.proc x.otherKey x.skb with
    | .noList => (.noProcList, [], { q with admn := admn })
    | .noContainer => (.noProcContainer, [], { q with admn := admn })
    | .taken proc => (.dropped, [x.skb], { q with admn := admn, proc := proc, dropped := q.dropped + 1 })

/-- `oq_dequeue` on the picked queue. -/
def dequeueFrom (q : ListQueue π) : DequeueExit π × ListQueue π :=
  match Index.takeMax q.proc with
  | none => (.noPacket, q)
  | some (x, proc) =>
    match Index.takeSkb q.admn x.otherKey x.skb with
    | .noList => (.noAdmnList, { q with proc := proc })
    | .noContainer => (.noAdmnContainer, { q with proc := proc })
    | .taken admn => (.packet x.skb, { q with admn := admn, proc := proc, len := q.len - 1 })

end ListQueue

/-! ## Buckets of the changed lists -/

namespace Index

variable {l : List (Item π)} {k : Key} {x : Item π}

/-- The containers under one key, in arrival order. -/
def bucket (l : List (Item π)) (k : Key) : List (Item π) := l.filter (fun x => x.key = k)

theorem hasKey_eq_false_iff : hasKey l k = false ↔ bucket l k = [] := by
  simp [hasKey, bucket, List.filter_eq_nil_iff]

theorem bucket_append (l : List (Item π)) (x : Item π) (k : Key) :
    bucket (l ++ [x]) k = bucket l k ++ if x.key = k then [x] else [] := by
  unfold bucket
  rw [List.filter_append]
  by_cases h : x.key = k <;> simp [h]

theorem bucket_takeSkb_same (l : List (Item π)) (key : Key) (skb : SkBuff π) :
    bucket (l.eraseP (isAt key skb)) key = (bucket l key).eraseP (fun x => x.skb.addr = skb.addr) :=
  Lib.filter_eraseP_same (fun x : Item π => decide (x.skb.addr = skb.addr)) (fun x => decide (x.key = key)) l

theorem bucket_takeSkb_other (l : List (Item π)) {key : Key} (skb : SkBuff π) (other : k ≠ key) :
    bucket (l.eraseP (isAt key skb)) k = bucket l k := by
  apply Lib.filter_eraseP_other
  intro x hx
  simp only [isAt, Bool.and_eq_true, decide_eq_true_eq] at hx
  simp [hx.1, other.symm]

/-- The outcome of `takeSkb` is decided by the bucket. -/
theorem takeSkb_cases (l : List (Item π)) (key : Key) (skb : SkBuff π) :
    bucket l key = [] ∧ takeSkb l key skb = .noList ∨
    bucket l key ≠ [] ∧ (∀ x ∈ bucket l key, x.skb.addr ≠ skb.addr) ∧ takeSkb l key skb = .noContainer ∨
    (∃ x ∈ bucket l key, x.skb.addr = skb.addr) ∧ takeSkb l key skb = .taken (l.eraseP (isAt key skb)) := by
  unfold takeSkb
  cases has : hasKey l key with
  | false => exact .inl ⟨hasKey_eq_false_iff.1 has, by simp⟩
  | true =>
    have some : bucket l key ≠ [] := by
      rw [ne_eq, ← hasKey_eq_false_iff, has]
      simp
    cases hit : l.any (isAt key skb) with
    | false =>
      refine .inr (.inl ⟨some, ?_, by simp⟩)
      intro x hx same
      have member := List.mem_filter.1 hx
      rw [List.any_eq_false] at hit
      exact hit x member.1 (by simpa [isAt, same] using member.2)
    | true =>
      refine .inr (.inr ⟨?_, by simp⟩)
      obtain ⟨x, hx, at'⟩ := List.any_eq_true.1 hit
      simp only [isAt, Bool.and_eq_true, decide_eq_true_eq] at at'
      exact ⟨x, List.mem_filter.2 ⟨hx, by simp [at'.1]⟩, at'.2⟩

theorem bucket_takeMax_other (l : List (Item π)) {e : Item π} (other : k ≠ e.key) :
    bucket (l.eraseP (fun x => x.key = e.key)) k = bucket l k := by
  apply Lib.filter_eraseP_other
  intro x hx
  simp only [decide_eq_true_eq] at hx
  simp [hx, other.symm]

end Index

/-! ## What one call can do -/

namespace ListQueue

/-- The four exits of `do_drop_tail`. -/
theorem doDropTail_cases (a : ListQueue π) :
    Index.takeMax a.admn = none ∧ a.doDropTail = (.noPacket, [], a) ∨
    ∃ e admn, Index.takeMax a.admn = some (e, admn) ∧
      (Index.bucket a.proc e.otherKey = [] ∧ a.doDropTail = (.noProcList, [], { a with admn := admn }) ∨
      Index.bucket a.proc e.otherKey ≠ [] ∧ (∀ x ∈ Index.bucket a.proc e.otherKey, x.skb.addr ≠ e.skb.addr) ∧
        a.doDropTail = (.noProcContainer, [], { a with admn := admn }) ∨
      (∃ x ∈ Index.bucket a.proc e.otherKey, x.skb.addr = e.skb.addr) ∧
        a.doDropTail = (.dropped, [e.skb], { a with
          admn := admn, proc := a.proc.eraseP (Index.isAt e.otherKey e.skb), dropped := a.dropped + 1 })) := by
  unfold doDropTail
  cases top : Index.takeMax a.admn with
  | none => exact .inl ⟨rfl, rfl⟩
  | some taken =>
    obtain ⟨e, admn⟩ := taken
    refine .inr ⟨e, admn, rfl, ?_⟩
    rcases Index.takeSkb_cases a.proc e.otherKey e.skb with ⟨empty, miss⟩ | ⟨some, none, miss⟩ | ⟨hit, took⟩
    · exact .inl ⟨empty, by simp only [miss]⟩
    · exact .inr (.inl ⟨some, none, by simp only [miss]⟩)
    · exact .inr (.inr ⟨hit, by simp only [took]⟩)

/-- The four exits of `oq_dequeue`. -/
theorem dequeueFrom_cases (a : ListQueue π) :
    Index.takeMax a.proc = none ∧ a.dequeueFrom = (.noPacket, a) ∨
    ∃ e proc, Index.takeMax a.proc = some (e, proc) ∧
      (Index.bucket a.admn e.otherKey = [] ∧ a.dequeueFrom = (.noAdmnList, { a with proc := proc }) ∨
      Index.bucket a.admn e.otherKey ≠ [] ∧ (∀ x ∈ Index.bucket a.admn e.otherKey, x.skb.addr ≠ e.skb.addr) ∧
        a.dequeueFrom = (.noAdmnContainer, { a with proc := proc }) ∨
      (∃ x ∈ Index.bucket a.admn e.otherKey, x.skb.addr = e.skb.addr) ∧
        a.dequeueFrom = (.packet e.skb, { a with
          admn := a.admn.eraseP (Index.isAt e.otherKey e.skb), proc := proc, len := a.len - 1 })) := by
  unfold dequeueFrom
  cases top : Index.takeMax a.proc with
  | none => exact .inl ⟨rfl, rfl⟩
  | some taken =>
    obtain ⟨e, proc⟩ := taken
    refine .inr ⟨e, proc, rfl, ?_⟩
    rcases Index.takeSkb_cases a.admn e.otherKey e.skb with ⟨empty, miss⟩ | ⟨some, none, miss⟩ | ⟨hit, took⟩
    · exact .inl ⟨empty, by simp only [miss]⟩
    · exact .inr (.inl ⟨some, none, by simp only [miss]⟩)
    · exact .inr (.inr ⟨hit, by simp only [took]⟩)

/-- A tail drop only takes items out. -/
theorem doDropTail_sublist (a : ListQueue π) (t : Side) : (a.doDropTail.2.2.side t).Sublist (a.side t) := by
  rcases a.doDropTail_cases with ⟨-, exit⟩ | ⟨e, admn, top, half⟩
  · rw [exit]
  · have first : admn.Sublist a.admn := by
      obtain ⟨front, back, split, rfl, -⟩ := Lib.takeMax_split top
      rw [split]
      exact (List.Sublist.refl front).append (List.sublist_cons_self e back)
    rcases half with ⟨-, exit⟩ | ⟨-, -, exit⟩ | ⟨-, exit⟩ <;> rw [exit] <;> cases t
    · exact first
    · exact List.Sublist.refl _
    · exact first
    · exact List.Sublist.refl _
    · exact first
    · exact List.eraseP_sublist

/-- A dequeue only takes items out. -/
theorem dequeueFrom_sublist (a : ListQueue π) (t : Side) : (a.dequeueFrom.2.side t).Sublist (a.side t) := by
  rcases a.dequeueFrom_cases with ⟨-, exit⟩ | ⟨e, proc, top, half⟩
  · rw [exit]
  · have first : proc.Sublist a.proc := by
      obtain ⟨front, back, split, rfl, -⟩ := Lib.takeMax_split top
      rw [split]
      exact (List.Sublist.refl front).append (List.sublist_cons_self e back)
    rcases half with ⟨-, exit⟩ | ⟨-, -, exit⟩ | ⟨-, exit⟩ <;> rw [exit] <;> cases t
    · exact List.Sublist.refl _
    · exact first
    · exact List.Sublist.refl _
    · exact first
    · exact List.eraseP_sublist
    · exact first

end ListQueue

end OpenQueue
