import OpenQueue.Kernel.Netlink
import OpenQueue.Lib.CLayout

/-!
# `TCA_OPTIONS` as bytes

The two headers declare `struct tc_oq_qopt` separately. The kernel fills the bytes of
one and `tc` takes the bytes it is given for the other. Here `oq_dump` stores into
memory at the offsets that the kernel's header gives, `openqueue_print_opt` reads at
the offsets of the header of `tc`, and the fields that are seen in memory afterwards are
the ones that the model over structs computes from those seen before.
-/

namespace OpenQueue

open Lib (Bytes CType Text)

/-! ## The headers -/

/-- The members of `struct tc_oq_q` and `struct tc_oq_qopt`, as a header declares them. -/
structure Header where
  tcOqQ : List CType
  tcOqQopt : List CType

/-- `include/qdisc/sch_openqueue.h`. -/
def schOpenqueueH : Header :=
  let queue := [CType.char.array (tcqOqNameLen + 1), .int, .int, .int, .int]
  ⟨queue, [CType.char.array (tcqOqNameLen + 1), (CType.struct queue).array tcqOqMaxQueue, .int]⟩

/-- `iproute2/include/linux/q_openqueue.h`, which defines its own constants. -/
def qOpenqueueH : Header :=
  let nameLen := 32
  let maxQueue := 16
  let queue := [CType.char.array (nameLen + 1), .int, .int, .int, .int]
  ⟨queue, [CType.char.array (nameLen + 1), (CType.struct queue).array maxQueue, .int]⟩

/-- Where the members are: of `struct tc_oq_qopt` first, then of a queue in it. -/
structure OptLayout where
  portName : Nat
  queues : Nat
  numQ : Nat
  size : Nat
  name : Nat
  maxLen : Nat
  len : Nat
  dropped : Nat
  total : Nat
  stride : Nat
  deriving DecidableEq

def Header.layout (h : Header) : OptLayout :=
  let opt := CType.offsets h.tcOqQopt
  let queue := CType.offsets h.tcOqQ
  { portName := opt.getD 0 0, queues := opt.getD 1 0, numQ := opt.getD 2 0, size := (CType.struct h.tcOqQopt).size
    name := queue.getD 0 0, maxLen := queue.getD 1 0, len := queue.getD 2 0, dropped := queue.getD 3 0
    total := queue.getD 4 0, stride := (CType.struct h.tcOqQ).size }

/-- The start of `queues[i]`. -/
def OptLayout.queue (l : OptLayout) (i : Nat) : Nat := l.queues + i * l.stride

/-! ## Storing and reading -/

/-- The bytes that `strncpy(_, src, TCQ_OQ_NAME_LEN)` stores. -/
def NameBuf.copied (src : NameBuf) : List Lib.Byte :=
  (src.bytes.takeWhile (· ≠ 0) ++ List.replicate tcqOqNameLen 0).take tcqOqNameLen

/-- Lines 389-393, in their order. -/
def storeQueue (l : OptLayout) (i : Nat) (queue : OqQueue) (m : Bytes) : Bytes :=
  let m := m.write (l.queue i + l.maxLen) (Bytes.ofInt queue.maxLen)
  let m := m.write (l.queue i + l.len) (Bytes.ofInt queue.len)
  let m := m.write (l.queue i + l.dropped) (Bytes.ofInt queue.dropped)
  let m := m.write (l.queue i + l.total) (Bytes.ofInt queue.total)
  m.write (l.queue i + l.name) queue.name.copied

/-- The copy loop, with `rounds` still to go from queue `i` on. -/
def storeQueues (l : OptLayout) (priv : Gen.OqPriv) : Nat → Nat → Bytes → Except Fault Bytes
  | 0, _, m => .ok m
  | rounds + 1, i, m =>
    if inside : i < tcqOqMaxQueue then
      storeQueues l priv rounds (i + 1) (storeQueue l i (priv.queues ⟨i, inside⟩) m)
    else .error .badIndex

/-- The bytes of `TCA_OPTIONS`: `sizeof(opt)` of them, of a local variable that held `stack`. -/
def oqDumpBytes (priv : Gen.OqPriv) (stack : Bytes) : Except Fault (List Lib.Byte) :=
  let l := schOpenqueueH.layout
  match storeQueues l priv priv.numQ.toInt.toNat 0 (stack.write l.portName priv.portName.copied) with
  | .error e => .error e
  | .ok m => .ok ((m.write l.numQ (Bytes.ofInt priv.numQ)).chars 0 l.size)

/-- A name in memory. -/
def nameAt (m : Bytes) (off : Nat) : NameBuf := ⟨m.chars off (tcqOqNameLen + 1), Bytes.length_chars⟩

/-- A `struct tc_oq_q` in memory. -/
def queueAt (l : OptLayout) (m : Bytes) (i : Nat) : TcOqQ where
  name := nameAt m (l.queue i + l.name)
  maxLen := m.int (l.queue i + l.maxLen)
  len := m.int (l.queue i + l.len)
  dropped := m.int (l.queue i + l.dropped)
  total := m.int (l.queue i + l.total)

/-- A `struct tc_oq_qopt` in memory. -/
def optAt (l : OptLayout) (m : Bytes) : TcOqQopt where
  portName := nameAt m l.portName
  queues q := queueAt l m q
  numQ := m.int l.numQ

/-- `openqueue_print_opt` on the bytes of an attribute. -/
def printAttr (attr : List Lib.Byte) : Except Fault (Int × Text) :=
  openqueuePrintOpt attr.length (optAt qOpenqueueH.layout fun i => attr.getD i 0)

/-! ## The layout -/

/-- The padding is after each name. -/
def tcOqLayout : OptLayout where
  portName := 0
  queues := 36
  numQ := 868
  size := 872
  name := 0
  maxLen := 36
  len := 40
  dropped := 44
  total := 48
  stride := 52

theorem layout_schOpenqueueH : schOpenqueueH.layout = tcOqLayout := by decide

/-- Both sides have the members in the same places. -/
theorem layout_qOpenqueueH : qOpenqueueH.layout = tcOqLayout := by decide

theorem size_tcOqLayout : tcOqLayout.size = Registry.sizeofTcOqQopt := by decide

theorem queue_tcOqLayout (i : Nat) : tcOqLayout.queue i = 36 + i * 52 := rfl

theorem NameBuf.length_copied (src : NameBuf) : src.copied.length = 32 := by
  simp [NameBuf.copied, tcqOqNameLen]

/-! ## What is stored -/

section

variable {m m' : Bytes} {off : Nat}

theorem nameAt_congr (same : ∀ i, off ≤ i → i < off + 33 → m i = m' i) : nameAt m off = nameAt m' off := by
  unfold nameAt
  congr 1
  exact Bytes.chars_congr same

theorem nameAt_write (src : NameBuf) : nameAt (m.write off src.copied) off = (nameAt m off).copyBuf src := by
  have bytes : (m.write off src.copied).chars off 33 = src.copied ++ (m.chars off 33).drop src.copied.length :=
    Bytes.chars_write (by rw [src.length_copied]; omega)
  rw [src.length_copied] at bytes
  unfold nameAt NameBuf.copyBuf
  congr 1

theorem queueAt_congr {i : Nat} (same : ∀ k, tcOqLayout.queue i ≤ k → k < tcOqLayout.queue (i + 1) → m k = m' k) :
    queueAt tcOqLayout m i = queueAt tcOqLayout m' i := by
  simp only [queue_tcOqLayout] at same
  have int : ∀ off, 36 ≤ off → off ≤ 48 → m.int (36 + i * 52 + off) = m'.int (36 + i * 52 + off) := fun off _ _ =>
    Bytes.int_congr fun k _ _ => same k (by omega) (by omega)
  have name : nameAt m (36 + i * 52 + 0) = nameAt m' (36 + i * 52 + 0) :=
    nameAt_congr fun k _ _ => same k (by omega) (by omega)
  unfold queueAt
  simp only [queue_tcOqLayout]
  simp only [tcOqLayout]
  rw [name, int 36 (by omega) (by omega), int 40 (by omega) (by omega), int 44 (by omega) (by omega),
    int 48 (by omega) (by omega)]

/-- Only the bytes of the struct are looked at. -/
theorem optAt_congr (same : ∀ k < 872, m k = m' k) : optAt tcOqLayout m = optAt tcOqLayout m' := by
  have queues : ∀ q : QId, queueAt tcOqLayout m q = queueAt tcOqLayout m' q := by
    intro q
    refine queueAt_congr fun k _ stop => same k ?_
    have last : (q : Nat) < 16 := q.isLt
    rw [queue_tcOqLayout] at stop
    omega
  have name : nameAt m 0 = nameAt m' 0 := nameAt_congr fun k _ _ => same k (by omega)
  have numQ : m.int 868 = m'.int 868 := Bytes.int_congr fun k _ _ => same k (by omega)
  unfold optAt
  simp only [queues]
  simp only [tcOqLayout]
  rw [name, numQ]

/-- What `storeQueue` writes: not the last byte of the name, and not the padding. -/
def InQueue (i k : Nat) : Prop :=
  tcOqLayout.queue i ≤ k ∧ k < tcOqLayout.queue i + 32 ∨
    tcOqLayout.queue i + tcOqLayout.maxLen ≤ k ∧ k < tcOqLayout.queue (i + 1)

theorem overwrites_storeQueue (i : Nat) (queue : OqQueue) :
    Lib.Overwrites (InQueue i) (storeQueue tcOqLayout i queue) := by
  have stores := (Lib.Overwrites.write (tcOqLayout.queue i + tcOqLayout.name) queue.name.copied).comp
    ((Lib.Overwrites.write (tcOqLayout.queue i + tcOqLayout.total) (Bytes.ofInt queue.total)).comp
    ((Lib.Overwrites.write (tcOqLayout.queue i + tcOqLayout.dropped) (Bytes.ofInt queue.dropped)).comp
    ((Lib.Overwrites.write (tcOqLayout.queue i + tcOqLayout.len) (Bytes.ofInt queue.len)).comp
    (Lib.Overwrites.write (tcOqLayout.queue i + tcOqLayout.maxLen) (Bytes.ofInt queue.maxLen)))))
  refine stores.mono fun k => ?_
  unfold InQueue
  simp only [NameBuf.length_copied, Bytes.length_ofInt, queue_tcOqLayout]
  simp only [tcOqLayout]
  omega

theorem queueAt_storeQueue (i : Nat) (queue : OqQueue) (m : Bytes) :
    queueAt tcOqLayout (storeQueue tcOqLayout i queue m) i = dumpQueue queue (queueAt tcOqLayout m i) := by
  have later : ∀ {m off bs off'}, off' + 4 ≤ off → (Bytes.write m off bs).int off' = m.int off' := by
    intro m off bs off' outside
    exact Bytes.int_congr fun k _ _ => Bytes.write_outside (by omega)
  have named : ∀ {m off off'}, off + 32 ≤ off' → (Bytes.write m off queue.name.copied).int off' = m.int off' := by
    intro m off off' outside
    exact Bytes.int_congr fun k _ _ => Bytes.write_outside (by rw [NameBuf.length_copied]; omega)
  have name : ∀ {m off x}, tcOqLayout.queue i + 33 ≤ off →
      nameAt (Bytes.write m off (Bytes.ofInt x)) (tcOqLayout.queue i) = nameAt m (tcOqLayout.queue i) := by
    intro m off x outside
    exact nameAt_congr fun k _ _ => Bytes.write_outside (by omega)
  unfold queueAt storeQueue dumpQueue
  dsimp only
  simp only [tcOqLayout, Nat.add_zero] at name ⊢
  rw [nameAt_write, name (by omega), name (by omega), name (by omega), name (by omega)]
  congr 1
  · rw [named (by omega), later (by omega), later (by omega), later (by omega), Bytes.int_write]
  · rw [named (by omega), later (by omega), later (by omega), Bytes.int_write]
  · rw [named (by omega), later (by omega), Bytes.int_write]
  · rw [named (by omega), Bytes.int_write]

/-- A round of the loop, seen as fields. -/
theorem optAt_storeQueue (slot : QId) (queue : OqQueue) (m : Bytes) :
    optAt tcOqLayout (storeQueue tcOqLayout slot queue m) =
      { optAt tcOqLayout m with
        queues := Function.update (optAt tcOqLayout m).queues slot
          (dumpQueue queue ((optAt tcOqLayout m).queues slot)) } := by
  have kept := (overwrites_storeQueue slot queue).outside m
  unfold InQueue at kept
  simp only [queue_tcOqLayout] at kept
  simp only [tcOqLayout] at kept
  have last : (slot : Nat) < 16 := slot.isLt
  unfold optAt
  rw [TcOqQopt.mk.injEq]
  refine ⟨?_, ?_, ?_⟩
  · exact nameAt_congr fun k _ stop => kept k (by simp only [tcOqLayout] at stop; omega)
  · funext q
    by_cases here : q = slot
    · subst here
      rw [Function.update_self]
      exact queueAt_storeQueue q queue m
    · rw [Function.update_of_ne here]
      have differ : (q : Nat) ≠ slot := fun same => here (Fin.ext same)
      refine queueAt_congr fun k start stop => kept k ?_
      rw [queue_tcOqLayout] at start stop
      omega
  · exact Bytes.int_congr fun k start _ => kept k (by simp only [tcOqLayout] at start; omega)

/-- The loop stores what the loop over structs computes. -/
theorem optAt_storeQueues (priv : Gen.OqPriv) (rounds i : Nat) (m : Bytes) :
    (storeQueues tcOqLayout priv rounds i m).map (optAt tcOqLayout) =
      dumpQueues priv rounds i (optAt tcOqLayout m) := by
  induction rounds generalizing i m with
  | zero => rfl
  | succ rounds ih =>
    unfold storeQueues dumpQueues
    split
    · next inside => rw [ih, optAt_storeQueue ⟨i, inside⟩]
    · rfl

theorem optAt_write_portName (src : NameBuf) (m : Bytes) :
    optAt tcOqLayout (m.write tcOqLayout.portName src.copied) =
      { optAt tcOqLayout m with portName := (optAt tcOqLayout m).portName.copyBuf src } := by
  have kept : ∀ k, 36 ≤ k → m.write tcOqLayout.portName src.copied k = m k := by
    intro k start
    refine Bytes.write_outside (.inr ?_)
    simp only [NameBuf.length_copied, tcOqLayout]
    omega
  unfold optAt
  rw [TcOqQopt.mk.injEq]
  refine ⟨?_, ?_, ?_⟩
  · exact nameAt_write src
  · funext q
    exact queueAt_congr fun k start _ => kept k (by rw [queue_tcOqLayout] at start; omega)
  · exact Bytes.int_congr fun k start _ => kept k (by simp only [tcOqLayout] at start; omega)

theorem optAt_write_numQ (x : BitVec 32) (m : Bytes) :
    optAt tcOqLayout (m.write tcOqLayout.numQ (Bytes.ofInt x)) = { optAt tcOqLayout m with numQ := x } := by
  have kept : ∀ k < 868, m.write tcOqLayout.numQ (Bytes.ofInt x) k = m k := fun k stop =>
    Bytes.write_outside (.inl stop)
  unfold optAt
  rw [TcOqQopt.mk.injEq]
  refine ⟨?_, ?_, ?_⟩
  · exact nameAt_congr fun k _ stop => kept k (by simp only [tcOqLayout] at stop; omega)
  · funext q
    have last : (q : Nat) < 16 := q.isLt
    exact queueAt_congr fun k _ stop => kept k (by rw [queue_tcOqLayout] at stop; omega)
  · exact Bytes.int_write m _ x

/-- The attribute holds, for `tc`, the struct that `oq_dump` fills. -/
theorem oqDumpBytes_refines (priv : Gen.OqPriv) (stack : Bytes) :
    (oqDumpBytes priv stack).map (fun attr => optAt qOpenqueueH.layout fun i => attr.getD i 0) =
      oqDump priv (optAt tcOqLayout stack) := by
  have sent : ∀ m : Bytes, optAt tcOqLayout (fun i => (m.chars 0 872).getD i 0) = optAt tcOqLayout m := by
    intro m
    refine optAt_congr fun k small => ?_
    rw [List.getD_eq_getElem?_getD, Bytes.getElem?_chars small, Nat.zero_add]
    rfl
  have loop := optAt_storeQueues priv priv.numQ.toInt.toNat 0 (stack.write tcOqLayout.portName priv.portName.copied)
  rw [optAt_write_portName] at loop
  unfold oqDumpBytes oqDump
  rw [layout_schOpenqueueH, layout_qOpenqueueH, ← loop]
  dsimp only
  cases storeQueues tcOqLayout priv priv.numQ.toInt.toNat 0 (stack.write tcOqLayout.portName priv.portName.copied) with
  | error e => rfl
  | ok m =>
    refine congrArg Except.ok ((sent _).trans ?_)
    exact optAt_write_numQ priv.numQ m

end

end OpenQueue
