import OpenQueue.Gen.Module
import OpenQueue.Kernel.Registry

/-!
# The option block between `tc` and the kernel

`struct tc_oq_qopt` is declared once for the kernel and once for `tc`. `tc` zeroes one
and puts the requested name into it (`openqueue_parse_opt`); `oq_dump` fills one on its
stack, which holds whatever was there, and `openqueue_print_opt` prints it. Both loops
go up to `num_q` and do not look at the size of the array.
-/

namespace OpenQueue

open Lib (Text)

/-- `struct tc_oq_q`. -/
structure TcOqQ where
  name : NameBuf
  maxLen : BitVec 32
  len : BitVec 32
  dropped : BitVec 32
  total : BitVec 32

/-- `struct tc_oq_qopt`. -/
structure TcOqQopt where
  portName : NameBuf
  queues : QId → TcOqQ
  numQ : BitVec 32

/-- `memset(&opt, 0, sizeof(opt))`. -/
def TcOqQopt.zero : TcOqQopt where
  portName := .zero _
  queues _ := ⟨.zero _, 0, 0, 0, 0⟩
  numQ := 0

/-! ## `openqueue_parse_opt` -/

/-- `"policy"`. -/
def policyArg : Lib.CStr := ⟨[112, 111, 108, 105, 99, 121], by decide⟩

/-- `"help"`. -/
def helpArg : Lib.CStr := ⟨[104, 101, 108, 112], by decide⟩

/-- How the parsing of a command line ends. -/
inductive Parsed where
  /-- `NEXT_ARG` finds nothing, and `tc` exits -/
  | incompleteCommand
  /-- the usage is printed and -1 returned, for `help` -/
  | explained
  /-- so it is for any other word, after a message that quotes it -/
  | unknownParameter (arg : Lib.CStr)
  /-- 0 is returned, with the block if `addattr_l` is called -/
  | done (opt : Option TcOqQopt)

/-- The loop over `argv`. Of several policies the last one counts. -/
def parseArgs (opt : TcOqQopt) (ok : Nat) : List Lib.CStr → Parsed
  | [] => .done (if ok ≠ 0 then some opt else none)
  | arg :: argv =>
    if arg = policyArg then
      match argv with
      | [] => .incompleteCommand
      | name :: argv => parseArgs { opt with portName := opt.portName.copy name } (ok + 1) argv
    else if arg = helpArg then .explained
    else .unknownParameter arg

/-- Parse the options of `tc qdisc … openqueue`. The block has 872 bytes, and the
message, which holds 52 before it, stays within the 1024 that `addattr_l` allows. -/
def openqueueParseOpt (argv : List Lib.CStr) : Parsed := parseArgs .zero 0 argv

/-- The attribute that `oq_init` is given. -/
def TcOqQopt.attr (opt : TcOqQopt) : Registry.Opt := ⟨Registry.sizeofTcOqQopt, opt.portName⟩

/-! ## `oq_dump` -/

/-- `strncpy(dst, src, TCQ_OQ_NAME_LEN)` from an array, which is not read past its end. -/
def NameBuf.copyBuf (dst src : NameBuf) : NameBuf where
  bytes := (src.bytes.takeWhile (· ≠ 0) ++ List.replicate tcqOqNameLen 0).take tcqOqNameLen ++
    dst.bytes.drop tcqOqNameLen
  size := by simp [dst.size, tcqOqNameLen]

/-- Lines 389-393: one queue. -/
def dumpQueue (queue : OqQueue) (old : TcOqQ) : TcOqQ where
  name := old.name.copyBuf queue.name
  maxLen := queue.maxLen
  len := queue.len
  dropped := queue.dropped
  total := queue.total

/-- The copy loop, with `rounds` still to go from queue `i` on. -/
def dumpQueues (priv : Gen.OqPriv) : Nat → Nat → TcOqQopt → Except Fault TcOqQopt
  | 0, _, opt => .ok opt
  | rounds + 1, i, opt =>
    if inside : i < tcqOqMaxQueue then
      let slot : QId := ⟨i, inside⟩
      dumpQueues priv rounds (i + 1)
        { opt with queues := Function.update opt.queues slot (dumpQueue (priv.queues slot) (opt.queues slot)) }
    else .error .badIndex

/-- What `oq_dump` hands to `nla_put`, from a local variable that held `stack`. -/
def oqDump (priv : Gen.OqPriv) (stack : TcOqQopt) : Except Fault TcOqQopt :=
  match dumpQueues priv priv.numQ.toInt.toNat 0 { stack with portName := stack.portName.copyBuf priv.portName } with
  | .error e => .error e
  | .ok opt => .ok { opt with numQ := priv.numQ }

/-- The loop fills the queues it goes through. -/
theorem dumpQueues_eq (priv : Gen.OqPriv) {rounds i : Nat} (inside : i + rounds ≤ tcqOqMaxQueue) (opt : TcOqQopt) :
    dumpQueues priv rounds i opt =
      .ok { opt with
        queues := fun q => if i ≤ q.val ∧ q.val < i + rounds then dumpQueue (priv.queues q) (opt.queues q)
          else opt.queues q } := by
  induction rounds generalizing i opt with
  | zero =>
    have none : ∀ q : QId, ¬ (i ≤ q.val ∧ q.val < i + 0) := by omega
    simp only [dumpQueues, none, if_false]
  | succ rounds ih =>
    have here : i < tcqOqMaxQueue := by omega
    rw [dumpQueues, dif_pos here, ih (by omega)]
    refine congrArg Except.ok ?_
    rw [TcOqQopt.mk.injEq]
    refine ⟨rfl, funext fun q => ?_, rfl⟩
    dsimp only
    by_cases first : q = ⟨i, here⟩
    · subst first
      rw [if_neg (by simp), if_pos (by simp), Function.update_self]
    · have differ : q.val ≠ i := fun same => first (Fin.ext same)
      rw [Function.update_of_ne first]
      have same : (i + 1 ≤ q.val ∧ q.val < i + 1 + rounds) ↔ (i ≤ q.val ∧ q.val < i + (rounds + 1)) := by omega
      simp only [same]

/-- `oq_dump` with at most as many queues as the array has. -/
theorem oqDump_eq {priv : Gen.OqPriv} (few : priv.numQ.toInt ≤ tcqOqMaxQueue) (stack : TcOqQopt) :
    oqDump priv stack =
      .ok { portName := stack.portName.copyBuf priv.portName
            queues := fun q => if (q.val : Int) < priv.numQ.toInt then dumpQueue (priv.queues q) (stack.queues q)
              else stack.queues q
            numQ := priv.numQ } := by
  rw [oqDump, dumpQueues_eq priv (by omega)]
  have round : ∀ q : QId, (0 ≤ q.val ∧ q.val < 0 + priv.numQ.toInt.toNat) ↔ (q.val : Int) < priv.numQ.toInt := by omega
  simp only [round]

/-! ## `openqueue_print_opt` -/

/-- `%s`. -/
def percentS (name : NameBuf) : Except Fault Text :=
  match Lib.cstr? name.bytes with
  | none => .error .overrun
  | some s => .ok (s.map fun c => Char.ofNat c.toNat)

/-- `%d`. -/
def percentD (x : BitVec 32) : Text := (toString x.toInt).toList

/-- The line of one queue. -/
def printQueue (queue : TcOqQ) : Except Fault Text :=
  match percentS queue.name with
  | .error e => .error e
  | .ok name => .ok ("Queue: ".toList ++ name ++ ", Max: ".toList ++ percentD queue.maxLen ++ ", Curr: ".toList ++
      percentD queue.len ++ ", Dropped: ".toList ++ percentD queue.dropped ++ ", Total: ".toList ++
      percentD queue.total ++ "\n".toList)

/-- The print loop, with `rounds` still to go from queue `i` on. -/
def printQueues (qopt : TcOqQopt) : Nat → Nat → Except Fault Text
  | 0, _ => .ok []
  | rounds + 1, i =>
    if inside : i < tcqOqMaxQueue then
      match printQueue (qopt.queues ⟨i, inside⟩) with
      | .error e => .error e
      | .ok line =>
        match printQueues qopt rounds (i + 1) with
        | .error e => .error e
        | .ok lines => .ok (line ++ lines)
    else .error .badIndex

/-- Print the attribute, of `payload` bytes, that a dump brought: the result and what is
printed. -/
def openqueuePrintOpt (payload : Nat) (qopt : TcOqQopt) : Except Fault (Int × Text) :=
  if payload < Registry.sizeofTcOqQopt then .ok (-1, [])
  else match percentS qopt.portName with
    | .error e => .error e
    | .ok name =>
      match printQueues qopt qopt.numQ.toInt.toNat 0 with
      | .error e => .error e
      | .ok lines => .ok (0, "\nPort: ".toList ++ name ++ "\n".toList ++ lines)

end OpenQueue
