import OpenQueue.Gen.Dispatch
import Mathlib

/-!
# Generated modules and their policies

Two things a policy author relies on. The functions of a module, called on a queue that
`init_port` has set up, should evaluate the statements assigned to that queue and no
others. And the slots should follow the list in the declaration of the port, since this
is all that gives an index returned by a selector a meaning. Both are stated for every
compiler of literals and every order of iteration, with the policies for which they hold.
-/

namespace OpenQueue.Gen

open Lib (Text Jre)

/-! ## Policies with two queues -/

section Samples

/-- The value of an ASCII digit. -/
def digit? (c : Char) : Option Nat := if c.isDigit then some (c.toNat - 48) else none

/-- `String.hashCode`. -/
def hashCode (s : Text) : BitVec 32 := s.foldl (fun h c => 31 * h + BitVec.ofNat 32 c.toNat) 0

/-- The bucket of a key, in a `HashMap` of sixteen. -/
def bucket (s : Text) : Nat := ((hashCode s ^^^ hashCode s >>> 16) &&& 15).toNat

/-- A library that knows natural numbers, and iterates a small map by its buckets. -/
def smallJre : Jre where
  digit := digit?
  Double := Nat
  parseDouble s := if s.isEmpty then none else (s.mapM digit?).map fun ds => ds.foldl (fun n d => 10 * n + d) 0
  intValue := BitVec.ofNat 32
  doubleText n := (toString n).toList ++ ".0".toList
  isUpperCase := Char.isUpper
  toLowerCase := Char.toLower
  iterate := List.insertionSort fun s t => bucket s ≤ bucket t
  iterate_perm := List.perm_insertionSort _

/-- The literals of plain names. -/
def plainLit (s : Text) : Option Lib.CStr :=
  let chars := s.map fun c => BitVec.ofNat 8 c.toNat
  if plain : 0 ∉ chars ∧ s.all (fun c => c.isAlphanum || c = '_') then some ⟨chars, plain.1⟩ else none

/-- All four attributes of a queue are one of its counters. -/
def assignments (name counter : Text) : Text :=
  ["congestion".toList, "congAction".toList, "admPrio".toList, "procPrio".toList].flatMap fun attr =>
    name ++ ".".toList ++ attr ++ " = inline\x7bQueue.".toList ++ counter ++ "\x7d;\n".toList

/-- A port over two queues. -/
def twoQueues (p q : Text) : Text :=
  "Queue ".toList ++ p ++ " = Queue(4);\nQueue ".toList ++ q ++ " = Queue(8);\nPort port = Port(".toList ++ p ++
    ", ".toList ++ q ++ ");\nport.queueSelect = inline\x7b0\x7d;\nport.schedPrio = inline\x7b0\x7d;\n".toList ++
    assignments p "len".toList ++ assignments q "total".toList

/-- A policy is accepted and passes a check. -/
theorem exists_accepted_with (files : Text → Option Text) (text : Text) (check : OQGen smallJre.Double → Bool)
    (run : (match parsePolicyFile smallJre files text with
      | .ok gen => decide (gen.isWellDefined = .ok ()) && check gen
      | .error _ => false) = true) :
    ∃ gen, Accepts smallJre files text gen ∧ check gen := by
  split at run
  · next gen parsed =>
    rw [Bool.and_eq_true, decide_eq_true_eq] at run
    exact ⟨gen, ⟨parsed, run.1⟩, run.2⟩
  · cases run

/-- A policy that imports nothing is accepted and passes a check. -/
theorem exists_accepted (text : Text) (check : OQGen smallJre.Double → Bool)
    (run : (match parsePolicyFile smallJre (fun _ => none) text with
      | .ok gen => decide (gen.isWellDefined = .ok ()) && check gen
      | .error _ => false) = true) :
    ∃ gen, Accepts smallJre (fun _ => none) text gen ∧ check gen :=
  exists_accepted_with (fun _ => none) text check run

end Samples

section Results

variable {jre : Jre} {files : Text → Option Text} {text : Text} {lit : Text → Option Lib.CStr}
  {gen : OQGen jre.Double} {names : List Lib.CStr} {m : CModule}

/-! ## Dispatch by name -/

/-- The functions of a module, called on a queue with this name, evaluate the statements
of `q` and no others. -/
def EvaluatesOnly (m : CModule) (name : NameBuf) (q : Queue jre.Double) : Prop :=
  ∀ a, ∃ s b, q.statement a = some s ∧ m.evaluated a name = .ok [b] ∧ b.queue = q.name ∧
    b.statement = s.getStatement jre

/-- Slot `i` carries the name of a declared queue, and is served by its statements. -/
def Serves (lit : Text → Option Lib.CStr) (gen : OQGen jre.Double) (m : CModule) (priv : OqPriv) (i : Nat) : Prop :=
  ∃ (slot : QId) (q : Queue jre.Double) (l : Lib.CStr), slot.val = i ∧ gen.values[i]? = some q ∧
    gen.queues.get q.name = some q ∧ lit q.name = some l ∧ (priv.queues slot).name = stored l ∧
    EvaluatesOnly m (priv.queues slot).name q

/-- However `btree_init` fares, after `init_port` on zeroed memory every slot below
`num_q` is served by the statements of its own queue. -/
def DispatchFaithful (lit : Text → Option Lib.CStr) (gen : OQGen jre.Double) : Prop :=
  ∃ m, compile lit gen = some m ∧ ∀ trees, ∃ code priv, m.initPort trees .zero = .ok (code, priv) ∧
    ∀ i < priv.numQ.toNat, Serves lit gen m priv i

theorem evaluated_stored (a : Attr) (l : Lib.CStr) :
    m.evaluated a (stored l) = .ok ((m.func a).filter fun b => cut l = cut b.literal) :=
  taken_stored l (m.func a)

/-- As many branches are taken as there are names with the same beginning. -/
theorem Compiled.length_filter (h : Compiled gen names m) (literals : Literals lit gen names) (a : Attr)
    (l : Lib.CStr) :
    ((m.func a).filter fun b => cut l = cut b.literal).length = (names.filter fun n => cut l = cut n).length := by
  rw [← h.map_literal literals a, List.filter_map, List.length_map]
  rfl

/-- A queue is served by its own statements exactly if no other name begins alike. -/
theorem Compiled.evaluatesOnly_iff (h : Compiled gen names m) (literals : Literals lit gen names)
    (defined : ∀ q ∈ gen.values, q.isWellDefined) {i : Nat} {q : Queue jre.Double} {l : Lib.CStr}
    (queue : gen.values[i]? = some q) (name : names[i]? = some l) :
    EvaluatesOnly m (stored l) q ↔ (names.filter fun n => cut l = cut n).length = 1 := by
  constructor
  · intro only
    obtain ⟨s, b, -, one, -⟩ := only .congestion
    rw [evaluated_stored] at one
    rw [← h.length_filter literals .congestion, Except.ok.inj one, List.length_singleton]
  · intro single a
    obtain ⟨s, here⟩ := Queue.isWellDefined_iff.1 (defined q (List.mem_of_getElem? queue)) a
    have branch : (⟨l, q.name, q.code a⟩ : CBranch) ∈ m.func a := by
      apply List.mem_of_getElem? (i := i)
      rw [h.func, List.getElem?_zipWith, name, queue]
    have taken : (⟨l, q.name, q.code a⟩ : CBranch) ∈ (m.func a).filter fun b => cut l = cut b.literal :=
      List.mem_filter.2 ⟨branch, decide_eq_true rfl⟩
    rw [← h.length_filter literals a] at single
    obtain ⟨b, one⟩ := List.length_eq_one_iff.1 single
    rw [one, List.mem_singleton] at taken
    subst taken
    exact ⟨s, _, here, by rw [evaluated_stored, one], rfl, by rw [Queue.code, here]; rfl⟩

theorem Compiled.toNat_numQ {trees : Nat → Trees} (h : Compiled gen names m) (small : gen.values.length ≤ tcqOqMaxQueue) :
    (m.started trees).numQ.toNat = gen.values.length := by
  show (BitVec.ofNat 32 m.noQueues).toNat = _
  rw [BitVec.toNat_ofNat, h.noQueues, Nat.mod_eq_of_lt (Nat.lt_of_le_of_lt small (by decide))]

/-- The slot of a queue after `init_port`. -/
theorem Compiled.started_queue (h : Compiled gen names m) (trees : Nat → Trees) {s : QId} {q : Queue jre.Double}
    {l : Lib.CStr}
    (queue : gen.values[s.val]? = some q) (name : names[s.val]? = some l) :
    (m.started trees).queues s = CInit.slot ⟨l, q.size⟩ (OqPriv.zero.queues s) := by
  apply CModule.started_slot
  rw [h.inits, List.getElem?_zipWith, name, queue]

/-- A module serves every queue by its own statements exactly if the compiler can read
the names, there are no more queues than slots, and no two names agree in their first
`TCQ_OQ_NAME_LEN` bytes. -/
theorem dispatch_faithful_iff (accepted : Accepts jre files text gen) :
    DispatchFaithful lit gen ↔
      ∃ names, Literals lit gen names ∧ names.length ≤ tcqOqMaxQueue ∧ (names.map cut).Nodup := by
  obtain ⟨-, -, -, defined⟩ := OQGen.isWellDefined_iff.1 accepted.wellDefined
  constructor
  · rintro ⟨m, compiled, served⟩
    obtain ⟨names, literals, h⟩ := compiled_of_compile defined compiled
    obtain ⟨code, priv, run, served⟩ := served fun _ => .ok
    obtain ⟨small, -, rfl⟩ := CModule.initPort_ok_iff.1 run
    rw [h.length_inits literals] at small
    rw [h.toNat_numQ small] at served
    refine ⟨names, literals, literals.length_eq ▸ small, Lib.nodup_map_iff.2 ?_⟩
    intro l mem
    obtain ⟨i, inside, rfl⟩ := List.getElem_of_mem mem
    obtain ⟨slot, q, l, rfl, queue, -, literal, name, only⟩ := served i (literals.length_eq ▸ inside)
    obtain ⟨l', here, literal'⟩ := literals.get queue
    cases literal.symm.trans literal'
    rw [name] at only
    rw [(List.getElem?_eq_some_iff.1 here).2]
    exact (h.evaluatesOnly_iff literals defined queue here).1 only
  · rintro ⟨names, literals, small, distinct⟩
    obtain ⟨m, compiled, h⟩ := literals.compile defined
    rw [literals.length_eq] at small
    refine ⟨m, compiled, ?_⟩
    intro trees
    rcases CModule.initPort_cases trees (by rwa [h.length_inits literals]) with ⟨-, priv, -, run, none⟩ | run
    · refine ⟨_, priv, run, ?_⟩
      intro i below
      rw [none] at below
      exact absurd below (Nat.not_lt_zero i)
    · refine ⟨_, _, run, ?_⟩
      intro i below
      rw [h.toNat_numQ small] at below
      have queue : gen.values[i]? = some gen.values[i] := List.getElem?_eq_getElem below
      obtain ⟨l, here, literal⟩ := literals.get queue
      have slot := h.started_queue trees (s := ⟨i, by omega⟩) queue here
      have declared := accepted.wellFormed.get_name (List.getElem_mem below)
      refine ⟨⟨i, by omega⟩, gen.values[i], l, rfl, queue, declared, literal, by rw [slot]; rfl, ?_⟩
      have single := Lib.nodup_map_iff.1 distinct l (List.mem_of_getElem? here)
      rw [slot]
      exact (h.evaluatesOnly_iff literals defined queue here).2 single

/-- Names of one letter are told apart. -/
theorem short_names_dispatch :
    ∃ gen, Accepts smallJre (fun _ => none) (twoQueues "b".toList "a".toList) gen ∧ DispatchFaithful plainLit gen := by
  let names : List Lib.CStr := [⟨[97], by decide⟩, ⟨[98], by decide⟩]
  obtain ⟨gen, accepted, seen⟩ := exists_accepted (twoQueues "b".toList "a".toList)
    (fun gen => (gen.port.bind fun port => plainLit port.name).isSome ∧
      gen.values.mapM (fun q => plainLit q.name) = some names) (by decide +kernel)
  obtain ⟨readable, literals⟩ := of_decide_eq_true seen
  obtain ⟨l, readable⟩ := Option.isSome_iff_exists.1 readable
  obtain ⟨port, here, name⟩ := Option.bind_eq_some_iff.1 readable
  have literals : Literals plainLit gen names := ⟨⟨port, l, here, name⟩, Lib.mapM_eq_some_iff.1 literals⟩
  exact ⟨gen, accepted, (dispatch_faithful_iff accepted).2 ⟨names, literals, by decide, by decide⟩⟩

/-- A name that is one byte too long. -/
def longName (last : Char) : Text := List.replicate tcqOqNameLen 'q' ++ [last]

/-- Both branches are taken for the congestion of the first queue. -/
def takesBoth (gen : OQGen smallJre.Double) : Bool :=
  match compile plainLit gen with
  | none => false
  | some m => match m.initPort (fun _ => .ok) .zero with
    | .error _ => false
    | .ok (code, priv) => match m.evaluated .congestion (priv.queues 0).name with
      | .error _ => false
      | .ok bs => code = 0 ∧ 0 < priv.numQ.toNat ∧ bs.map (fun b => (b.queue, b.statement)) =
          [(longName 'b', "queue->total".toList), (longName 'a', "queue->len".toList)]

/-- Two names that differ in their last byte only are one name to the module: on the first
slot the statements of both queues are evaluated, and the other queue's gives the result. -/
theorem long_names_collide :
    ∃ gen m priv bs, Accepts smallJre (fun _ => none) (twoQueues (longName 'a') (longName 'b')) gen ∧
      compile plainLit gen = some m ∧ m.initPort (fun _ => .ok) .zero = .ok (0, priv) ∧
      m.evaluated .congestion (priv.queues 0).name = .ok bs ∧
      bs.map (fun b => (b.queue, b.statement)) =
        [(longName 'b', "queue->total".toList), (longName 'a', "queue->len".toList)] ∧
      ¬ DispatchFaithful plainLit gen := by
  obtain ⟨gen, accepted, seen⟩ := exists_accepted (twoQueues (longName 'a') (longName 'b'))
    takesBoth (by decide +kernel)
  unfold takesBoth at seen
  split at seen
  · cases seen
  · next m compiled =>
    split at seen
    · cases seen
    · next code priv run =>
      split at seen
      · cases seen
      · next bs evaluated =>
        obtain ⟨rfl, some, both⟩ := of_decide_eq_true seen
        refine ⟨gen, m, priv, bs, accepted, compiled, run, evaluated, both, ?_⟩
        rintro ⟨m', compiled', served⟩
        cases compiled.symm.trans compiled'
        obtain ⟨_, _, run', served⟩ := served fun _ => .ok
        cases run.symm.trans run'
        obtain ⟨slot, q, l, first, -, -, -, -, only⟩ := served 0 some
        obtain ⟨s, b, -, one, -⟩ := only .congestion
        cases (Fin.ext first : slot = 0)
        cases evaluated.symm.trans one
        exact absurd (congrArg List.length both) (by simp)

/-! ## Slots and the port's list -/

/-- The slots are those that the port lists. -/
structure SetUp (lit : Text → Option Lib.CStr) (gen : OQGen jre.Double) (port : Port jre.Double) (priv : OqPriv) :
    Prop where
  count : priv.numQ.toNat = port.queues.length
  slot : ∀ i n q, port.queues[i]? = some n → gen.queues.get n = some q → ∃ (s : QId) (l : Lib.CStr), s.val = i ∧
    lit n = some l ∧ Lib.cstr? (priv.queues s).name.bytes = some l.chars ∧ (priv.queues s).maxLen = q.size ∧
    (priv.queues s).ready
  rest : ∀ s : QId, port.queues.length ≤ s.val → priv.queues s = OqPriv.zero.queues s

/-- With all the memory it asks for, `init_port` sets up what the port lists. -/
def FollowsPort (lit : Text → Option Lib.CStr) (gen : OQGen jre.Double) (port : Port jre.Double) : Prop :=
  ∃ m priv, compile lit gen = some m ∧ m.initPort (fun _ => .ok) .zero = .ok (0, priv) ∧ SetUp lit gen port priv

/-- A queue that cannot be told from the one declared as `n` by its slot. -/
def Stands (lit : Text → Option Lib.CStr) (gen : OQGen jre.Double) (q : Queue jre.Double) (n : Text) : Prop :=
  ∃ l l' q', lit q.name = some l ∧ lit n = some l' ∧ gen.queues.get n = some q' ∧ cut l = l'.chars ∧ q.size = q'.size

/-- The slots follow a port whose list is the order of iteration, if its names fit. -/
theorem OQGen.WellFormed.stands {port : Port jre.Double} (h : gen.WellFormed)
    (order : jre.iterate gen.queues.keys = port.queues)
    (fits : ∀ n ∈ port.queues, ∃ l, lit n = some l ∧ l.chars.length ≤ tcqOqNameLen) :
    List.Forall₂ (Stands lit gen) gen.values port.queues := by
  have values := OQGen.map_some_values gen
  rw [order] at values
  have lengths := congrArg List.length values
  rw [List.length_map, List.length_map] at lengths
  refine List.forall₂_iff_get.2 ⟨lengths, ?_⟩
  intro i inside inside'
  have found := congrArg (·[i]?) values
  simp only [List.getElem?_map, List.getElem?_eq_getElem inside, List.getElem?_eq_getElem inside', Option.map_some,
    Option.some.injEq] at found
  have name := h.named _ _ found.symm
  obtain ⟨l, literal, short⟩ := fits _ (List.getElem_mem inside')
  refine ⟨l, l, gen.values[i], ?_, literal, found.symm, List.take_of_length_le short, rfl⟩
  exact (congrArg lit name).trans literal

/-- The slots follow the port exactly if the order in which the map of queues is iterated
is the port's list, up to queues whose slots are equal. -/
theorem follows_port_iff {port : Port jre.Double} (accepted : Accepts jre files text gen)
    (here : gen.port = some port) :
    FollowsPort lit gen port ↔
      (∃ l, lit port.name = some l) ∧ port.queues.length ≤ tcqOqMaxQueue ∧
        List.Forall₂ (Stands lit gen) gen.values port.queues := by
  obtain ⟨-, -, -, defined⟩ := OQGen.isWellDefined_iff.1 accepted.wellDefined
  constructor
  · rintro ⟨m, priv, compiled, run, setUp⟩
    obtain ⟨names, literals, h⟩ := compiled_of_compile defined compiled
    obtain ⟨small, -, rfl⟩ := CModule.initPort_ok_iff.1 run
    rw [h.length_inits literals] at small
    have count := setUp.count
    rw [h.toNat_numQ small] at count
    obtain ⟨port', l, here', name⟩ := literals.port
    cases here.symm.trans here'
    refine ⟨⟨l, name⟩, count ▸ small, List.forall₂_iff_get.2 ⟨count, ?_⟩⟩
    intro i inside inside'
    have queue : gen.values[i]? = some gen.values[i] := List.getElem?_eq_getElem inside
    obtain ⟨l, position, literal⟩ := literals.get queue
    obtain ⟨q', found⟩ := accepted.wellFormed.declared port here _ (List.getElem_mem inside')
    obtain ⟨s, l', rfl, literal', bytes, size, -⟩ := setUp.slot i _ q' (List.getElem?_eq_getElem inside') found
    have slot := h.started_queue (fun _ => .ok) queue position
    rw [slot] at bytes size
    exact ⟨l, l', q', literal, literal', found, Option.some.inj ((cstr?_stored l).symm.trans bytes), size⟩
  · rintro ⟨⟨l, name⟩, small, stands⟩
    obtain ⟨count, each⟩ := List.forall₂_iff_get.1 stands
    have readable : ∀ q ∈ gen.values, ∃ l, lit q.name = some l := by
      intro q mem
      obtain ⟨i, inside, rfl⟩ := List.getElem_of_mem mem
      obtain ⟨l, -, -, literal, -⟩ := each i inside (count ▸ inside)
      exact ⟨l, literal⟩
    obtain ⟨names, queues⟩ := Lib.exists_forall₂ readable
    have literals : Literals lit gen names := ⟨⟨port, l, here, name⟩, queues⟩
    obtain ⟨m, compiled, h⟩ := literals.compile defined
    have inits := h.length_inits literals
    refine ⟨m, m.started fun _ => .ok, compiled, CModule.initPort_ok_iff.2 ⟨by omega, rfl, rfl⟩, ?_⟩
    refine ⟨(h.toNat_numQ (by omega)).trans count, ?_, fun s beyond => CModule.started_rest (by omega)⟩
    intro i n q listed found
    obtain ⟨inside, rfl⟩ := List.getElem?_eq_some_iff.1 listed
    have inside' : i < gen.values.length := by omega
    obtain ⟨l, l', q', literal, literal', found', same, size⟩ := each i inside' inside
    cases found.symm.trans found'
    have queue : gen.values[i]? = some gen.values[i] := List.getElem?_eq_getElem inside'
    obtain ⟨l'', position, literal''⟩ := literals.get queue
    cases (show lit gen.values[i].name = some l from literal).symm.trans literal''
    have slot := h.started_queue (fun _ => .ok) (s := ⟨i, by omega⟩) queue position
    refine ⟨⟨i, by omega⟩, l', rfl, literal', ?_⟩
    rw [slot, ← same]
    exact ⟨cstr?_stored l, size, rfl⟩

/-- Two queues that are listed in the order of their buckets. -/
theorem sorted_port_followed :
    ∃ gen port, Accepts smallJre (fun _ => none) (twoQueues "a".toList "b".toList) gen ∧ gen.port = some port ∧
      port.queues = ["a".toList, "b".toList] ∧ FollowsPort plainLit gen port := by
  obtain ⟨gen, accepted, seen⟩ := exists_accepted (twoQueues "a".toList "b".toList)
    (fun gen => match gen.port with
      | none => false
      | some port => port.queues = ["a".toList, "b".toList] ∧ smallJre.iterate gen.queues.keys = port.queues ∧
          (plainLit port.name).isSome) (by decide +kernel)
  split at seen
  · cases seen
  · next port here =>
    obtain ⟨queues, order, readable⟩ := of_decide_eq_true seen
    refine ⟨gen, port, accepted, here, queues, (follows_port_iff accepted here).2 ?_⟩
    refine ⟨Option.isSome_iff_exists.1 readable, by rw [queues]; decide, accepted.wellFormed.stands order ?_⟩
    rw [queues]
    intro n listed
    rcases List.mem_pair.1 listed with rfl | rfl
    · exact ⟨⟨[97], by decide⟩, by decide +kernel, by decide⟩
    · exact ⟨⟨[98], by decide⟩, by decide +kernel, by decide⟩

/-- The port lists `b` first, and the first queue is called `a`. -/
def startsWithA (gen : OQGen smallJre.Double) : Bool :=
  match gen.port, compile plainLit gen with
  | some port, some m => match m.initPort (fun _ => .ok) .zero with
    | .error _ => false
    | .ok (code, priv) => port.queues = ["b".toList, "a".toList] ∧ code = 0 ∧
        Lib.cstr? (priv.queues 0).name.bytes = some [97] ∧ (gen.queues.get "b".toList).isSome
  | _, _ => false

/-- Two queues that are listed in the other order: the first slot gets the second. -/
theorem port_order_ignored :
    ∃ gen port m priv, Accepts smallJre (fun _ => none) (twoQueues "b".toList "a".toList) gen ∧
      gen.port = some port ∧ port.queues = ["b".toList, "a".toList] ∧ compile plainLit gen = some m ∧
      m.initPort (fun _ => .ok) .zero = .ok (0, priv) ∧ Lib.cstr? (priv.queues 0).name.bytes = some [97] ∧
      ¬ FollowsPort plainLit gen port := by
  obtain ⟨gen, accepted, seen⟩ := exists_accepted (twoQueues "b".toList "a".toList)
    startsWithA (by decide +kernel)
  unfold startsWithA at seen
  split at seen
  · next port m here compiled =>
    split at seen
    · cases seen
    · next code priv run =>
      obtain ⟨queues, rfl, name, declared⟩ := of_decide_eq_true seen
      refine ⟨gen, port, m, priv, accepted, here, queues, compiled, run, name, ?_⟩
      rintro ⟨m', priv', compiled', run', setUp⟩
      cases compiled.symm.trans compiled'
      cases run.symm.trans run'
      obtain ⟨q, found⟩ := Option.isSome_iff_exists.1 declared
      obtain ⟨s, l, first, literal, bytes, -⟩ := setUp.slot 0 "b".toList q (by rw [queues]; rfl) found
      cases (Fin.ext first : s = 0)
      have other : plainLit "b".toList = some ⟨[98], by decide⟩ := by decide +kernel
      cases literal.symm.trans other
      cases name.symm.trans bytes
  · cases seen

end Results

end OpenQueue.Gen
