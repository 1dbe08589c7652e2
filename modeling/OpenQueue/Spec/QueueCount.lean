import OpenQueue.Kernel.Netlink
import OpenQueue.Lib.Moves
import OpenQueue.Spec.Generated

/-!
# The number of queues

Three loops run over the queues of a port, in the generated `init_port`, in `oq_dump` and
in `openqueue_print_opt`, and none looks at the size of the array it indexes. All three
stay inside exactly for the policies that declare at most `TCQ_OQ_MAX_QUEUE` queues, and
the generator accepts others too.
-/

namespace OpenQueue

/-! ## The two loops that read `num_q` -/

/-- `num_q` is no more than there are slots. -/
def Gen.OqPriv.Bounded (priv : Gen.OqPriv) : Prop := priv.numQ.toNat ≤ tcqOqMaxQueue

theorem Gen.OqPriv.Bounded.rounds {priv : Gen.OqPriv} (bounded : priv.Bounded) :
    priv.numQ.toInt.toNat ≤ tcqOqMaxQueue := by
  have small : 2 * priv.numQ.toNat < 2 ^ 32 :=
    Nat.lt_of_le_of_lt (Nat.mul_le_mul_left 2 bounded) (by decide)
  rw [BitVec.toInt_eq_toNat_of_lt small]
  exact bounded

theorem oqDump_bounded {priv : Gen.OqPriv} (bounded : priv.Bounded) (stack : TcOqQopt) :
    ∃ opt, oqDump priv stack = .ok opt ∧ opt.numQ = priv.numQ := by
  have rounds := bounded.rounds
  exact ⟨_, oqDump_eq (by omega) stack, rfl⟩

/-- No index was outside an array. -/
abbrev Inside {α : Type} : Except Fault α → Prop := Lib.ErrorsIn (· ≠ .badIndex)

theorem percentS_inside (name : NameBuf) : Inside (percentS name) := by
  unfold percentS
  split
  · nofun
  · trivial

theorem printQueue_inside (queue : TcOqQ) : Inside (printQueue queue) := by
  unfold printQueue
  split
  · next e failed => exact (percentS_inside queue.name).of_error failed
  · trivial

theorem printQueues_inside (qopt : TcOqQopt) {rounds i : Nat} (inside : i + rounds ≤ tcqOqMaxQueue) :
    Inside (printQueues qopt rounds i) := by
  induction rounds generalizing i with
  | zero => trivial
  | succ rounds ih =>
    have here : i < tcqOqMaxQueue := by omega
    rw [printQueues, dif_pos here]
    split
    · next e failed => exact (printQueue_inside (qopt.queues ⟨i, here⟩)).of_error failed
    · split
      · next e failed => exact (ih (by omega)).of_error failed
      · trivial

theorem openqueuePrintOpt_inside {qopt : TcOqQopt} (rounds : qopt.numQ.toInt.toNat ≤ tcqOqMaxQueue) (payload : Nat) :
    Inside (openqueuePrintOpt payload qopt) := by
  unfold openqueuePrintOpt
  split
  · trivial
  · split
    · next e failed => exact (percentS_inside qopt.portName).of_error failed
    · split
      · next e failed => exact (printQueues_inside qopt (by omega)).of_error failed
      · trivial

namespace Gen

open Lib (Text Jre)

/-! ## `init_port` -/

/-- However `btree_init` fares, `init_port` stays inside the array and leaves `num_q`
bounded, and so do the loops of `oq_dump`, whatever is on its stack, and
`openqueue_print_opt`, on what that dump brings. -/
def CModule.StaysInside (m : CModule) : Prop :=
  ∀ trees priv, priv.Bounded → ∃ code priv', m.initPort trees priv = .ok (code, priv') ∧ priv'.Bounded ∧
    ∀ stack, ∃ opt, oqDump priv' stack = .ok opt ∧ ∀ payload, openqueuePrintOpt payload opt ≠ .error .badIndex

theorem CModule.initPort_bounded {m : CModule} (trees : Nat → Trees) {priv : OqPriv} (bounded : priv.Bounded)
    (calls : m.inits.length ≤ tcqOqMaxQueue) (count : m.noQueues ≤ tcqOqMaxQueue) :
    ∃ code priv', m.initPort trees priv = .ok (code, priv') ∧ priv'.Bounded := by
  rcases initQueues_cases trees priv (i := 0) ((Nat.zero_add _).trans_le calls) with ⟨j, left, -, run, kept⟩ | run
  · refine ⟨_, left, by rw [initPort, run], ?_⟩
    rwa [OqPriv.Bounded, kept]
  · refine ⟨_, _, by rw [initPort, run], ?_⟩
    show (BitVec.ofNat 32 m.noQueues).toNat ≤ tcqOqMaxQueue
    rw [BitVec.toNat_ofNat]
    exact (Nat.mod_le _ _).trans count

variable {jre : Jre} {files : Text → Option Text} {text : Text} {lit : Text → Option Lib.CStr}
  {gen : OQGen jre.Double} {m : CModule}

/-- The module of an accepted policy stays inside the arrays exactly if the policy
declares at most `TCQ_OQ_MAX_QUEUE` queues. -/
theorem queue_count_inside_iff (accepted : Accepts jre files text gen) (compiled : compile lit gen = some m) :
    m.StaysInside ↔ gen.queues.keys.length ≤ tcqOqMaxQueue := by
  obtain ⟨-, -, -, defined⟩ := OQGen.isWellDefined_iff.1 accepted.wellDefined
  obtain ⟨names, literals, h⟩ := compiled_of_compile defined compiled
  have count : m.noQueues = gen.queues.keys.length := h.noQueues.trans OQGen.length_values
  have calls : m.inits.length = gen.queues.keys.length := (h.length_inits literals).trans OQGen.length_values
  constructor
  · intro inside
    obtain ⟨code, priv, run, -⟩ := inside (fun _ => .ok) .zero (Nat.zero_le _)
    exact calls ▸ (CModule.initPort_ok_iff.1 run).1
  · intro few trees priv bounded
    obtain ⟨code, priv', run, bounded'⟩ := CModule.initPort_bounded trees bounded (calls ▸ few) (count ▸ few)
    refine ⟨code, priv', run, bounded', fun stack => ?_⟩
    obtain ⟨opt, dump, numQ⟩ := oqDump_bounded bounded' stack
    refine ⟨opt, dump, fun payload failed => (openqueuePrintOpt_inside ?_ payload).of_error failed rfl⟩
    rw [numQ]
    exact bounded'.rounds

theorem two_queues_inside_iff : ∃ gen m, Accepts smallJre (fun _ => none) (twoQueues "b".toList "a".toList) gen ∧
    compile plainLit gen = some m ∧ (m.StaysInside ↔ gen.queues.keys.length ≤ tcqOqMaxQueue) := by
  obtain ⟨gen, accepted, seen⟩ := exists_accepted (twoQueues "b".toList "a".toList)
    (fun gen => (compile plainLit gen).isSome) (by decide +kernel)
  obtain ⟨m, compiled⟩ := Option.isSome_iff_exists.1 seen
  exact ⟨gen, m, accepted, compiled, queue_count_inside_iff accepted compiled⟩

/-- A port over the queues with these names, which all count their length. -/
def portOver (names : List Text) : Text :=
  (names.flatMap fun n => "Queue ".toList ++ n ++ " = Queue(4);\n".toList) ++ "Port port = Port(".toList ++
    ", ".toList.intercalate names ++
    ");\nport.queueSelect = inline\x7b0\x7d;\nport.schedPrio = inline\x7b0\x7d;\n".toList ++
    names.flatMap fun n => assignments n "len".toList

/-- The letters from `a` to `q`. -/
def seventeen : List Text := (List.range 17).map fun i => [Char.ofNat (97 + i)]

/-- A policy with seventeen queues is accepted, and its `init_port` writes the last one
outside the array. -/
theorem seventeenth_queue_outside : ∃ gen m, Accepts smallJre (fun _ => none) (portOver seventeen) gen ∧
    compile plainLit gen = some m ∧ m.initPort (fun _ => .ok) .zero = .error .badIndex ∧ ¬ m.StaysInside := by
  obtain ⟨gen, accepted, seen⟩ := exists_accepted (portOver seventeen)
    (fun gen => match compile plainLit gen with
      | some m => m.inits.length = 17
      | none => false) (by decide +kernel)
  split at seen
  · next m compiled =>
    have outside : tcqOqMaxQueue < 0 + m.inits.length := by
      rw [of_decide_eq_true seen]
      decide
    have overrun := initQueues_overflow .zero (Nat.zero_le _) outside
    have fault : m.initPort (fun _ => .ok) .zero = .error .badIndex := by rw [CModule.initPort, overrun]
    refine ⟨gen, m, accepted, compiled, fault, fun inside => ?_⟩
    obtain ⟨code, priv, run, -⟩ := inside (fun _ => .ok) .zero (Nat.zero_le _)
    cases fault.symm.trans run
  · cases seen

end Gen

end OpenQueue
