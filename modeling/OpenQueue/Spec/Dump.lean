import OpenQueue.Kernel.Attribute

/-!
# What a dump brings to `tc`

`oq_dump` does not clear its `struct tc_oq_qopt`, and the bound of its `strncpy` is one
less than the size of the arrays. What of the stack goes out is said byte by byte: two
dumps of one qdisc differ exactly where the stacks do, in the last byte of a name, in
the padding after it and in the queues that are not used. For the same reason a name
that takes all the 32 bytes has no end of its own when `tc` prints it.
-/

namespace OpenQueue

open Lib (Bytes Text)

variable {priv : Gen.OqPriv}

/-! ## Disclosure -/

/-- The bytes that are not stored, with `numQ` queues in use. -/
def LeftOver (numQ : Int) (k : Nat) : Prop :=
  tcOqLayout.portName + tcqOqNameLen ≤ k ∧ k < tcOqLayout.queues ∨
    ∃ q : QId, tcOqLayout.queue q + tcOqLayout.name + tcqOqNameLen ≤ k ∧ k < tcOqLayout.queue q + tcOqLayout.maxLen ∨
      numQ ≤ q.val ∧ tcOqLayout.queue q ≤ k ∧ k < tcOqLayout.queue (q + 1)

/-- The loop stores into the queues that it goes through. -/
theorem overwrites_storeQueues (priv : Gen.OqPriv) {rounds i : Nat} (inside : i + rounds ≤ tcqOqMaxQueue) :
    ∃ f, (∀ m, storeQueues tcOqLayout priv rounds i m = .ok (f m)) ∧
      Lib.Overwrites (fun k => ∃ q, i ≤ q ∧ q < i + rounds ∧ InQueue q k) f := by
  induction rounds generalizing i with
  | zero =>
    refine ⟨fun m => m, fun _ => rfl, Lib.Overwrites.nothing.mono fun k => ?_⟩
    exact iff_of_false id fun ⟨q, start, stop, _⟩ => by omega
  | succ rounds ih =>
    have here : i < tcqOqMaxQueue := by omega
    obtain ⟨f, run, stores⟩ := ih (i := i + 1) (by omega)
    refine ⟨fun m => f (storeQueue tcOqLayout i (priv.queues ⟨i, here⟩) m), fun m => ?_, ?_⟩
    · rw [storeQueues, dif_pos here, run]
    · refine (stores.comp (overwrites_storeQueue i (priv.queues ⟨i, here⟩))).mono fun k => ?_
      constructor
      · rintro (first | ⟨q, start, stop, later⟩)
        · exact ⟨i, by omega, by omega, first⟩
        · exact ⟨q, by omega, by omega, later⟩
      · rintro ⟨q, start, stop, stored⟩
        rcases Nat.eq_or_lt_of_le start with rfl | later
        · exact .inl stored
        · exact .inr ⟨q, by omega, by omega, stored⟩

theorem leftOver_iff (numQ : Int) (k : Nat) :
    LeftOver numQ k ↔ 32 ≤ k ∧ k < 36 ∨
      ∃ q < 16, 68 + q * 52 ≤ k ∧ k < 72 + q * 52 ∨ numQ ≤ q ∧ 36 + q * 52 ≤ k ∧ k < 88 + q * 52 := by
  unfold LeftOver
  simp only [queue_tcOqLayout]
  simp only [tcOqLayout, tcqOqNameLen]
  refine or_congr (by omega) ⟨?_, ?_⟩
  · rintro ⟨q, left⟩
    exact ⟨q, q.isLt, by omega⟩
  · rintro ⟨q, small, left⟩
    refine ⟨⟨q, small⟩, ?_⟩
    dsimp only
    omega

theorem LeftOver.lt {numQ : Int} {k : Nat} (left : LeftOver numQ k) : k < 872 := by
  rcases (leftOver_iff numQ k).1 left with port | ⟨q, small, queue⟩ <;> omega

/-- Every byte of the struct is stored or left over. -/
theorem stored_iff {numQ : Int} (few : numQ ≤ tcqOqMaxQueue) (k : Nat) :
    (k < 32 ∨ (∃ q, q < numQ.toNat ∧ InQueue q k) ∨ 868 ≤ k ∧ k < 872) ↔ k < 872 ∧ ¬ LeftOver numQ k := by
  have most : numQ ≤ 16 := few
  rw [leftOver_iff]
  simp only [InQueue, queue_tcOqLayout]
  simp only [tcOqLayout]
  constructor
  · rintro (port | ⟨q, used, queue⟩ | count)
    · refine ⟨by omega, ?_⟩
      rintro (_ | ⟨q, small, left⟩) <;> omega
    · refine ⟨by omega, ?_⟩
      rintro (_ | ⟨q', small, left⟩) <;> omega
    · refine ⟨by omega, ?_⟩
      rintro (_ | ⟨q, small, left⟩) <;> omega
  · rintro ⟨inside, stored⟩
    rw [not_or, not_exists] at stored
    obtain ⟨port, queues⟩ := stored
    -- the queue that the byte is in, if it is in one
    have queue := queues ((k - 36) / 52)
    rcases Nat.lt_or_ge k 36 with early | late
    · exact .inl (by omega)
    rcases Nat.lt_or_ge k 868 with inQueue | count
    · exact .inr (.inl ⟨(k - 36) / 52, by omega, by omega⟩)
    · exact .inr (.inr ⟨count, inside⟩)

theorem overwrites_oqDump (few : priv.numQ.toInt ≤ tcqOqMaxQueue) :
    ∃ f, (∀ stack, oqDumpBytes priv stack = .ok (Bytes.chars (f stack) 0 872)) ∧
      Lib.Overwrites (fun k => k < 872 ∧ ¬ LeftOver priv.numQ.toInt k) f := by
  obtain ⟨f, run, stores⟩ := overwrites_storeQueues priv (by omega : 0 + priv.numQ.toInt.toNat ≤ tcqOqMaxQueue)
  refine ⟨fun stack => (f (stack.write tcOqLayout.portName priv.portName.copied)).write tcOqLayout.numQ
    (Bytes.ofInt priv.numQ), fun stack => ?_, ?_⟩
  · unfold oqDumpBytes
    rw [layout_schOpenqueueH]
    simp only [run]
    rfl
  · have all := (Lib.Overwrites.write tcOqLayout.numQ (Bytes.ofInt priv.numQ)).comp
      (stores.comp (Lib.Overwrites.write tcOqLayout.portName priv.portName.copied))
    refine all.mono fun k => ?_
    rw [← stored_iff few, NameBuf.length_copied, Bytes.length_ofInt]
    simp only [tcOqLayout, Nat.zero_le, true_and, Nat.zero_add, or_assoc, Nat.reduceAdd]

/-- Two dumps of one qdisc are the same exactly if the stacks agree on what is left over. -/
theorem dump_discloses_iff (few : priv.numQ.toInt ≤ tcqOqMaxQueue) (stack stack' : Bytes) :
    ∃ attr attr', oqDumpBytes priv stack = .ok attr ∧ oqDumpBytes priv stack' = .ok attr' ∧
      (attr = attr' ↔ ∀ k, LeftOver priv.numQ.toInt k → stack k = stack' k) := by
  obtain ⟨f, run, stores⟩ := overwrites_oqDump few
  refine ⟨_, _, run stack, run stack', (stores.chars_eq_iff stack stack' 872).trans ⟨?_, ?_⟩⟩
  · intro same k left
    exact same k left.lt fun stored => stored.2 left
  · intro same k inside notStored
    exact same k (by_contra fun stored => notStored ⟨inside, stored⟩)

/-- A port with one queue, which is named like the port. -/
def onePort (name : NameBuf) : Gen.OqPriv where
  queues q := { Gen.OqPriv.zero.queues q with name := name, maxLen := 4, len := 2, dropped := 1, total := 3 }
  nodePools _ := ⟨none, none⟩
  numQ := 1
  portName := name
  callbacks := none

/-- A name of `n` letters. -/
def letters (n : Nat) : NameBuf := NameBuf.copy (.zero _) ⟨List.replicate n 97, by simp⟩

/-- Stacks may differ where the first queue is stored. -/
theorem same_dump_of_stored : ∃ attr, oqDumpBytes (onePort (letters 3)) (fun _ => 7) = .ok attr ∧
    oqDumpBytes (onePort (letters 3)) (fun k => if k = 40 then 9 else 7) = .ok attr := by
  have few : (onePort (letters 3)).numQ.toInt ≤ tcqOqMaxQueue := by decide
  obtain ⟨attr, attr', run, run', same⟩ := dump_discloses_iff few (fun _ => 7) (fun k => if k = 40 then 9 else 7)
  refine ⟨attr, run, run'.trans (congrArg Except.ok (same.2 fun k left => ?_).symm)⟩
  have other : k ≠ 40 := by
    rintro rfl
    rcases (leftOver_iff _ _).1 left with port | ⟨q, small, queue | ⟨unused, queue⟩⟩
    · omega
    · omega
    · have used : (onePort (letters 3)).numQ.toInt = 1 := by decide
      omega
  rw [if_neg other]

/-- The stack is seen in the dump of a qdisc, in the byte after the longest port name. -/
theorem stack_disclosed : ∃ attr attr', oqDumpBytes (onePort (letters 3)) (fun _ => 0) = .ok attr ∧
    oqDumpBytes (onePort (letters 3)) (fun k => if k = 32 then 115 else 0) = .ok attr' ∧
    attr[32]? = some 0 ∧ attr'[32]? = some 115 ∧ attr ≠ attr' := by
  have seen : (match oqDumpBytes (onePort (letters 3)) (fun _ => 0),
      oqDumpBytes (onePort (letters 3)) (fun k => if k = 32 then 115 else 0) with
    | .ok attr, .ok attr' => attr[32]? == some 0 && attr'[32]? == some 115
    | _, _ => false) = true := by decide +kernel
  split at seen
  · next attr attr' run run' =>
    rw [Bool.and_eq_true, beq_iff_eq, beq_iff_eq] at seen
    refine ⟨attr, attr', run, run', seen.1, seen.2, fun same => ?_⟩
    rw [same, seen.2] at seen
    exact absurd seen.1 (by decide)
  · cases seen

/-! ## Printing -/

/-- The characters before the first NUL. -/
def NameBuf.chars (name : NameBuf) : List Lib.Byte := name.bytes.takeWhile (· ≠ 0)

/-- The line that is to be printed for a queue. -/
def queueLine (queue : OqQueue) : Text :=
  "Queue: ".toList ++ queue.name.chars.map (fun c => Char.ofNat c.toNat) ++ ", Max: ".toList ++ percentD queue.maxLen ++
    ", Curr: ".toList ++ percentD queue.len ++ ", Dropped: ".toList ++ percentD queue.dropped ++ ", Total: ".toList ++
    percentD queue.total ++ "\n".toList

/-- What is to be printed for a qdisc. -/
def statistics (priv : Gen.OqPriv) : Text :=
  "\nPort: ".toList ++ priv.portName.chars.map (fun c => Char.ofNat c.toNat) ++ "\n".toList ++
    ((List.finRange tcqOqMaxQueue).take priv.numQ.toInt.toNat).flatMap fun q => queueLine (priv.queues q)

/-- The string of a name, or the byte that was in its last place before, ends it. -/
def Ends (name : NameBuf) (last : Lib.Byte) : Prop := name.chars.length < tcqOqNameLen ∨ last = 0

/-- A name is copied over `m` and printed. -/
theorem percentS_copyBuf_iff {src : NameBuf} (terminated : 0 ∈ src.bytes) (m : Bytes) (off : Nat) {text : Text} :
    percentS ((nameAt m off).copyBuf src) = .ok text ↔
      Ends src (m (off + tcqOqNameLen)) ∧ text = src.chars.map fun c => Char.ofNat c.toNat := by
  obtain ⟨noNul, rest, whole⟩ := Lib.cstr?_eq_some_iff.1 (Lib.cstr?_of_mem terminated)
  have most : src.chars.length ≤ tcqOqNameLen := by
    have size := congrArg List.length whole
    rw [src.size, List.length_append, List.length_cons] at size
    unfold NameBuf.chars
    omega
  have last : (nameAt m off).bytes[tcqOqNameLen]? = some (m (off + tcqOqNameLen)) := Bytes.getElem?_chars (by decide)
  have copied : (nameAt m off).copyBuf src = NameBuf.copy (nameAt m off) ⟨src.chars, noNul⟩ := rfl
  rw [percentS, copied, NameBuf.copy]
  by_cases ends : Ends src (m (off + tcqOqNameLen))
  · rw [Lib.CharBuf.cstr?_strncpy_iff.2, Except.ok.injEq]
    · exact ⟨fun same => ⟨ends, same.symm⟩, fun printed => printed.2.symm⟩
    · rcases Nat.lt_or_eq_of_le most with short | full
      · exact .inl short
      · exact .inr ⟨full, last.trans (congrArg some (ends.resolve_left (by omega)))⟩
  · refine iff_of_false ?_ fun printed => ends printed.1
    rw [Ends, not_or] at ends
    rw [Lib.CharBuf.cstr?_strncpy_eq_none (Nat.le_antisymm most (Nat.le_of_not_lt ends.1))]
    · nofun
    · rw [last]
      exact fun nul => ends.2 (Option.some.inj nul)

theorem printQueue_iff {queue : TcOqQ} {line : Text} :
    printQueue queue = .ok line ↔ ∃ name, percentS queue.name = .ok name ∧
      line = "Queue: ".toList ++ name ++ ", Max: ".toList ++ percentD queue.maxLen ++ ", Curr: ".toList ++
        percentD queue.len ++ ", Dropped: ".toList ++ percentD queue.dropped ++ ", Total: ".toList ++
        percentD queue.total ++ "\n".toList := by
  unfold printQueue
  cases percentS queue.name with
  | error e => exact iff_of_false nofun nofun
  | ok name =>
    rw [Except.ok.injEq]
    exact ⟨fun same => ⟨name, rfl, same.symm⟩, fun ⟨_, rfl, same⟩ => same.symm⟩

/-- The loop prints a line for each queue that it goes through, in their order. -/
theorem printQueues_ok {qopt : TcOqQopt} {line : QId → Text} {rounds i : Nat} (inside : i + rounds ≤ tcqOqMaxQueue)
    (lines : ∀ q : QId, i ≤ q.val → q.val < i + rounds → printQueue (qopt.queues q) = .ok (line q)) :
    printQueues qopt rounds i = .ok ((((List.finRange tcqOqMaxQueue).drop i).take rounds).flatMap line) := by
  induction rounds generalizing i with
  | zero => rfl
  | succ rounds ih =>
    have here : i < tcqOqMaxQueue := by omega
    have slot : i < (List.finRange tcqOqMaxQueue).length := by rwa [List.length_finRange]
    have first := lines ⟨i, here⟩ (Nat.le_refl i) (by dsimp only; omega)
    have rest := ih (i := i + 1) (by omega) fun q start stop => lines q (by omega) (by omega)
    rw [printQueues, dif_pos here, first, rest, List.drop_eq_getElem_cons slot, List.take_succ_cons, List.flatMap_cons,
      List.getElem_finRange]
    rfl

/-- It gets to its end if every line can be printed. -/
theorem printQueue_of_printQueues {qopt : TcOqQopt} {rounds i : Nat} {lines : Text}
    (printed : printQueues qopt rounds i = .ok lines) {q : QId} (start : i ≤ q.val) (stop : q.val < i + rounds) :
    ∃ line, printQueue (qopt.queues q) = .ok line := by
  induction rounds generalizing i lines with
  | zero => omega
  | succ rounds ih =>
    unfold printQueues at printed
    split at printed
    · next here =>
      split at printed
      · cases printed
      · next line first =>
        split at printed
        · cases printed
        · next rest others =>
          rcases Nat.eq_or_lt_of_le start with rfl | later
          · exact ⟨line, first⟩
          · exact ih others later (by omega)
    · cases printed

theorem openqueuePrintOpt_iff {qopt : TcOqQopt} {text : Text} :
    openqueuePrintOpt Registry.sizeofTcOqQopt qopt = .ok (0, text) ↔
      ∃ name lines, percentS qopt.portName = .ok name ∧ printQueues qopt qopt.numQ.toInt.toNat 0 = .ok lines ∧
        text = "\nPort: ".toList ++ name ++ "\n".toList ++ lines := by
  rw [openqueuePrintOpt, if_neg (Nat.lt_irrefl _)]
  cases percentS qopt.portName with
  | error e => exact iff_of_false nofun nofun
  | ok name =>
    cases printQueues qopt qopt.numQ.toInt.toNat 0 with
    | error e => exact iff_of_false nofun nofun
    | ok lines =>
      simp only [Except.ok.injEq, Prod.mk.injEq, true_and]
      exact ⟨fun same => ⟨name, lines, rfl, rfl, same.symm⟩, fun ⟨_, _, rfl, rfl, same⟩ => same.symm⟩

/-- What `tc` prints from is the struct of the kernel. -/
theorem printAttr_oqDump (few : priv.numQ.toInt ≤ tcqOqMaxQueue) (stack : Bytes) :
    ∃ attr opt, oqDumpBytes priv stack = .ok attr ∧ oqDump priv (optAt tcOqLayout stack) = .ok opt ∧
      printAttr attr = openqueuePrintOpt Registry.sizeofTcOqQopt opt := by
  obtain ⟨f, run, -⟩ := overwrites_oqDump few
  have dumped := oqDumpBytes_refines priv stack
  rw [run stack] at dumped
  refine ⟨_, _, run stack, dumped.symm, ?_⟩
  rw [printAttr, Bytes.length_chars]
  exact congrArg (openqueuePrintOpt · _) size_tcOqLayout

/-- `tc` prints what the qdisc holds exactly if no name needs an end that the stack does
not happen to have. -/
theorem statistics_printed_iff (few : priv.numQ.toInt ≤ tcqOqMaxQueue) (port : 0 ∈ priv.portName.bytes)
    (names : ∀ q : QId, (q.val : Int) < priv.numQ.toInt → 0 ∈ (priv.queues q).name.bytes) (stack : Bytes) :
    ∃ attr, oqDumpBytes priv stack = .ok attr ∧ (printAttr attr = .ok (0, statistics priv) ↔
      Ends priv.portName (stack (tcOqLayout.portName + tcqOqNameLen)) ∧
      ∀ q : QId, (q.val : Int) < priv.numQ.toInt →
        Ends (priv.queues q).name (stack (tcOqLayout.queue q + tcOqLayout.name + tcqOqNameLen))) := by
  obtain ⟨attr, opt, run, dumped, printed⟩ := printAttr_oqDump few stack
  rw [oqDump_eq few] at dumped
  cases dumped
  refine ⟨attr, run, ?_⟩
  rw [printed, openqueuePrintOpt_iff]
  dsimp only
  constructor
  · rintro ⟨name, lines, portName, queues, -⟩
    refine ⟨((percentS_copyBuf_iff port stack _).1 portName).1, fun q used => ?_⟩
    obtain ⟨line, queue⟩ := printQueue_of_printQueues queues (Nat.zero_le q.val) (by omega)
    obtain ⟨name, queueName, -⟩ := printQueue_iff.1 queue
    dsimp only at queueName
    rw [if_pos used] at queueName
    exact ((percentS_copyBuf_iff (names q used) stack _).1 queueName).1
  · rintro ⟨portEnds, queuesEnd⟩
    have lines : ∀ q : QId, (q.val : Int) < priv.numQ.toInt →
        printQueue (dumpQueue (priv.queues q) ((optAt tcOqLayout stack).queues q)) = .ok (queueLine (priv.queues q)) :=
      fun q used => printQueue_iff.2
        ⟨_, (percentS_copyBuf_iff (names q used) stack _).2 ⟨queuesEnd q used, rfl⟩, rfl⟩
    refine ⟨_, _, (percentS_copyBuf_iff port stack _).2 ⟨portEnds, rfl⟩,
      printQueues_ok (by omega) fun q _ stop => ?_, rfl⟩
    have used : (q.val : Int) < priv.numQ.toInt := by omega
    dsimp only
    rw [if_pos used]
    exact lines q used

theorem short_names_printed : ∃ attr, oqDumpBytes (onePort (letters 31)) (fun _ => 7) = .ok attr ∧
    printAttr attr = .ok (0, statistics (onePort (letters 31))) := by
  have few : (onePort (letters 31)).numQ.toInt ≤ tcqOqMaxQueue := by decide
  have terminated : 0 ∈ (letters 31).bytes := by decide
  have short : (letters 31).chars.length < tcqOqNameLen := by decide
  obtain ⟨attr, run, printed⟩ := statistics_printed_iff few terminated (fun _ _ => terminated) fun _ => 7
  exact ⟨attr, run, printed.2 ⟨.inl short, fun _ _ => .inl short⟩⟩

/-- Names of 32 letters are names that a policy may give. -/
theorem long_name_not_ended : 0 ∈ (letters 32).bytes ∧ (letters 32).chars.length = tcqOqNameLen ∧
    ∃ attr, oqDumpBytes (onePort (letters 32)) (fun _ => 7) = .ok attr ∧ printAttr attr = .error .overrun ∧
      printAttr attr ≠ .ok (0, statistics (onePort (letters 32))) := by
  have seen : (match oqDumpBytes (onePort (letters 32)) (fun _ => 7) with
    | .ok attr => match printAttr attr with
      | .error .overrun => true
      | _ => false
    | _ => false) = true := by decide +kernel
  refine ⟨by decide, by decide, ?_⟩
  split at seen
  · next attr run =>
    split at seen
    · next fault => exact ⟨attr, run, fault, by rw [fault]; nofun⟩
    · cases seen
  · cases seen

end OpenQueue
