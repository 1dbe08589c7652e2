import OpenQueue.Gen.Files
import OpenQueue.Lib.CLexical
import OpenQueue.Spec.Generated

/-!
# Module names

`getModuleName` writes a capital letter as an underscore and the small letter. So the names
that are written alike are those that have a capital letter where the other has an
underscore and the small one, and of two policies whose ports have such names, the one
generated last takes the files of the other.
-/

namespace OpenQueue.Gen

open Lib (Text Jre)

/-! ## Names that are written alike -/

/-- Letters, digits and underscores. -/
def isPlainName (name : Text) : Prop := ∀ c ∈ name, Lib.isIdentChar c

instance : DecidablePred isPlainName := fun name => List.decidableBAll _ name

/-- The same names, up to a capital letter in one for an underscore and the small letter in
the other. -/
inductive Alike : Text → Text → Prop where
  | nil : Alike [] []
  | same (c : Char) {n m : Text} (rest : Alike n m) : Alike (c :: n) (c :: m)
  | left {c : Char} (capital : c.isUpper) {n m : Text} (rest : Alike n m) : Alike (c :: n) ('_' :: c.toLower :: m)
  | right {c : Char} (capital : c.isUpper) {n m : Text} (rest : Alike n m) : Alike ('_' :: c.toLower :: n) (c :: m)

/-- How `getModuleName` writes a letter. -/
def written (c : Char) : Text := if c.isUpper then ['_', c.toLower] else [c]

section Letters

variable {c d : Char} {n m : Text}

theorem toLower_not_upper (capital : c.isUpper) : c.toLower.isUpper = false := by
  rw [Bool.eq_false_iff]
  intro again
  have first := Lib.toNat_toLower capital
  have second := Lib.toNat_toLower again
  omega

theorem toLower_ne_underscore (capital : c.isUpper) : c.toLower ≠ '_' := by
  intro same
  have lower := Lib.toNat_toLower capital
  have underscore : '_'.toNat = 95 := rfl
  rw [same] at lower
  omega

theorem toLower_injective (capital : c.isUpper) (capital' : d.isUpper) (same : c.toLower = d.toLower) : c = d := by
  have first := Lib.toNat_toLower capital
  have second := Lib.toNat_toLower capital'
  rw [same] at first
  have numbers : c.toNat = d.toNat := by omega
  exact Char.toNat_inj.1 numbers

theorem written_capital (capital : c.isUpper) : written c = ['_', c.toLower] := if_pos capital

theorem written_other (other : c.isUpper = false) : written c = [c] := if_neg (by rw [other]; decide)

theorem written_lower (capital : c.isUpper) : written c.toLower = [c.toLower] := written_other (toLower_not_upper capital)

theorem Alike.written_eq (alike : Alike n m) : n.flatMap written = m.flatMap written := by
  induction alike with
  | nil => rfl
  | same c rest ih => rw [List.flatMap_cons, List.flatMap_cons, ih]
  | left capital rest ih =>
    rw [List.flatMap_cons, List.flatMap_cons, List.flatMap_cons, ih, written_capital capital, written_lower capital]
    rfl
  | right capital rest ih =>
    rw [List.flatMap_cons, List.flatMap_cons, List.flatMap_cons, ih, written_capital capital, written_lower capital]
    rfl

/-- What goes on with a small letter begins with it. -/
theorem exists_of_written_lower (capital : c.isUpper) {s : Text} (same : c.toLower :: s = m.flatMap written) :
    ∃ m', m = c.toLower :: m' ∧ s = m'.flatMap written := by
  cases m with
  | nil => cases same
  | cons e m =>
    rw [List.flatMap_cons] at same
    cases upper : e.isUpper with
    | true =>
      rw [written_capital upper] at same
      exact absurd (List.cons.inj same).1 (toLower_ne_underscore capital)
    | false =>
      rw [written_other upper] at same
      obtain ⟨rfl, rest⟩ := List.cons.inj same
      exact ⟨m, rfl, rest⟩

theorem written_ne_nil (c : Char) : written c ≠ [] := by
  unfold written
  split <;> simp

theorem alike_of_written_eq (same : n.flatMap written = m.flatMap written) : Alike n m := by
  induction len : n.length using Nat.strongRecOn generalizing n m with
  | ind k ih =>
    cases n with
    | nil =>
      cases m with
      | nil => exact .nil
      | cons d m =>
        rw [List.flatMap_cons] at same
        exact absurd (List.append_eq_nil_iff.1 same.symm).1 (written_ne_nil d)
    | cons c n =>
      rw [List.length_cons] at len
      cases m with
      | nil =>
        rw [List.flatMap_cons] at same
        exact absurd (List.append_eq_nil_iff.1 same).1 (written_ne_nil c)
      | cons d m =>
        rw [List.flatMap_cons, List.flatMap_cons] at same
        cases capital : c.isUpper with
        | true =>
          cases capital' : d.isUpper with
          | true =>
            rw [written_capital capital, written_capital capital'] at same
            obtain ⟨letter, rest⟩ := List.cons.inj (List.cons.inj same).2
            cases toLower_injective capital capital' letter
            exact .same c (ih n.length (by omega) rest rfl)
          | false =>
            rw [written_capital capital, written_other capital'] at same
            obtain ⟨rfl, rest⟩ := List.cons.inj same
            obtain ⟨m, rfl, tail⟩ := exists_of_written_lower capital rest
            exact .left capital (ih n.length (by omega) tail rfl)
        | false =>
          cases capital' : d.isUpper with
          | true =>
            rw [written_other capital, written_capital capital'] at same
            obtain ⟨rfl, rest⟩ := List.cons.inj same
            obtain ⟨n, rfl, tail⟩ := exists_of_written_lower capital' rest.symm
            rw [List.length_cons] at len
            exact .right capital' (ih n.length (by omega) tail.symm rfl)
          | false =>
            rw [written_other capital, written_other capital'] at same
            obtain ⟨rfl, rest⟩ := List.cons.inj same
            exact .same c (ih n.length (by omega) rest rfl)

end Letters

section Names

variable {jre : Jre} (law : jre.AsciiCase) {n m : Text}

include law

theorem getModuleName_eq (plain : isPlainName n) : OQGen.getModuleName jre n = "oqp_".toList ++ n.flatMap written := by
  rw [OQGen.getModuleName]
  congr 1
  refine List.flatMap_congr fun c mem => ?_
  rw [law.upper c (plain c mem), written]
  split
  · next capital => rw [law.lower c capital]
  · rfl

/-- Two names have one module name exactly if they are alike. -/
theorem getModuleName_eq_iff (plain : isPlainName n) (plain' : isPlainName m) :
    OQGen.getModuleName jre n = OQGen.getModuleName jre m ↔ Alike n m := by
  rw [getModuleName_eq law plain, getModuleName_eq law plain', List.append_cancel_left_eq]
  exact ⟨alike_of_written_eq, Alike.written_eq⟩

theorem getModuleName_no_slash (plain : isPlainName n) : '/' ∉ OQGen.getModuleName jre n := by
  rw [getModuleName_eq law plain, List.mem_append, not_or, List.mem_flatMap]
  refine ⟨by decide, ?_⟩
  rintro ⟨c, mem, inside⟩
  unfold written at inside
  split at inside
  · next capital =>
    have lower := Lib.toNat_toLower capital
    have slash : '/'.toNat = 47 := rfl
    simp only [List.mem_cons, List.not_mem_nil, or_false] at inside
    rcases inside with other | same
    · cases other
    · rw [← same] at lower
      omega
  · rw [List.mem_singleton] at inside
    have ident := plain c mem
    rw [← inside] at ident
    exact absurd ident (by decide)

end Names

/-! ## Files -/

section Paths

variable {modName modName' : Text}

/-- The files of a module. -/
def modulePaths (modName : Text) : List Text := [makefilePath modName, modulePath modName]

theorem exists_of_mem_modulePaths {path : Text} (mem : path ∈ modulePaths modName) :
    ∃ file, path = "policy/".toList ++ (modName ++ '/' :: file) := by
  rw [modulePaths, List.mem_cons, List.mem_singleton] at mem
  rcases mem with rfl | rfl
  · exact ⟨"Makefile".toList, List.append_assoc ..⟩
  · have slash : "/mod_".toList = '/' :: "mod_".toList := by decide
    refine ⟨"mod_".toList ++ (modName ++ ".c".toList), ?_⟩
    have dir : policyDir modName = "policy/".toList ++ modName := rfl
    simp only [modulePath, dir, slash, List.append_assoc, List.cons_append]

/-- They share no file. -/
theorem modulePaths_apart (free : '/' ∉ modName) (free' : '/' ∉ modName') (differ : modName ≠ modName') {path : Text}
    (mem : path ∈ modulePaths modName) : path ∉ modulePaths modName' := by
  intro mem'
  obtain ⟨file, rfl⟩ := exists_of_mem_modulePaths mem
  obtain ⟨file', same⟩ := exists_of_mem_modulePaths mem'
  exact differ (Lib.Text.append_sep_inj free free' (List.append_cancel_left same)).1

theorem makefilePath_ne_modulePath (modName : Text) : makefilePath modName ≠ modulePath modName := by
  intro same
  rw [makefilePath, modulePath, List.append_assoc, List.append_assoc] at same
  have files : "/Makefile".toList = "/mod_".toList ++ (modName ++ ".c".toList) := List.append_cancel_left same
  cases files

end Paths

section Batch

variable {jre : Jre} {files : Text → Option Text} {text : Text} {gen : OQGen jre.Double} {disk : Disk}

/-- The name of the port. -/
def OQGen.portName (gen : OQGen jre.Double) : Text := (gen.port.map Port.name).getD []

/-- The name of the module. -/
def OQGen.modName (gen : OQGen jre.Double) : Text := OQGen.getModuleName jre gen.portName

theorem OQGen.portName_eq {port : Port jre.Double} (here : gen.port = some port) : gen.portName = port.name := by
  unfold portName
  rw [here]
  rfl

theorem OQGen.modName_eq {port : Port jre.Double} (here : gen.port = some port) :
    gen.modName = OQGen.getModuleName jre port.name :=
  congrArg (OQGen.getModuleName jre) (portName_eq here)

/-- The files of a policy are those generated for it. -/
structure HasModule (disk : Disk) (gen : OQGen jre.Double) : Prop where
  makefile : disk (makefilePath gen.modName) = some (makefile gen.modName)
  source : ∃ code, gen.generateModule = some code ∧ disk (modulePath gen.modName) = some code

/-- The header of a source names the port. -/
theorem generateModule_starts {code : Text} (generated : gen.generateModule = some code) :
    ∃ rest, code = "/*\n * mod_".toList ++ (gen.modName ++ (".c    OpenQueue policy ".toList ++
      (gen.portName ++ '\n' :: rest))) := by
  obtain ⟨port, here, generated⟩ := Option.bind_eq_some_iff.1 generated
  simp only [Option.bind_eq_bind, Option.pure_def, Option.bind_eq_some_iff, Option.some.injEq] at generated
  obtain ⟨cong, -, act, -, admn, -, proc, -, qselc, -, schd, -, rfl⟩ := generated
  have line : "\n */\n\n".toList = '\n' :: " */\n\n".toList := by decide
  rw [OQGen.modName_eq here, OQGen.portName_eq here]
  delta OQGen.generateHeader
  simp only [line, List.append_assoc, List.cons_append]
  exact ⟨_, rfl⟩

/-- OQGen on an accepted policy writes the two files of its module and no others. -/
theorem runOQGen_accepted (accepted : Accepts jre files text gen) (disk : Disk) :
    HasModule (runOQGen jre files disk text) gen ∧
      ∀ path, path ∉ modulePaths gen.modName → runOQGen jre files disk text path = disk path := by
  obtain ⟨port, code, here, generated⟩ := OQGen.exists_generateModule accepted.wellDefined
  have name := OQGen.modName_eq here
  have run : runOQGen jre files disk text =
      Function.update (initModule gen.modName disk) (modulePath gen.modName) (some code) := by
    simp only [runOQGen, accepted.parsed, accepted.wellDefined, OQGen.writeModule, here, generated, name]
  rw [run, initModule]
  refine ⟨⟨?_, code, generated, Function.update_self ..⟩, fun path other => ?_⟩
  · rw [Function.update_of_ne (makefilePath_ne_modulePath _), Function.update_self]
  · rw [modulePaths, List.mem_cons, List.mem_singleton, not_or] at other
    rw [Function.update_of_ne other.2, Function.update_of_ne other.1]

theorem HasModule.frame {disk' : Disk} (has : HasModule disk gen)
    (kept : ∀ path ∈ modulePaths gen.modName, disk' path = disk path) : HasModule disk' gen := by
  obtain ⟨code, generated, source⟩ := has.source
  refine ⟨?_, code, generated, ?_⟩
  · rw [kept _ List.mem_cons_self]
    exact has.makefile
  · rw [kept _ (List.mem_cons_of_mem _ (List.mem_singleton_self _))]
    exact source

section Runs

variable {texts : List Text} {gens : List (OQGen jre.Double)}

/-- The runs of OQGen on accepted policies write no other files. -/
theorem foldl_runOQGen_other (accepted : List.Forall₂ (Accepts jre files) texts gens) (disk : Disk) {path : Text}
    (other : ∀ gen ∈ gens, path ∉ modulePaths gen.modName) : texts.foldl (runOQGen jre files) disk path = disk path := by
  induction accepted generalizing disk with
  | nil => rfl
  | @cons text gen texts gens first rest ih =>
    rw [List.forall_mem_cons] at other
    rw [List.foldl_cons, ih _ other.2]
    exact (runOQGen_accepted first disk).2 path other.1

/-- Of modules with different names, all are there at the end. -/
theorem foldl_runOQGen_hasModule (accepted : List.Forall₂ (Accepts jre files) texts gens) (disk : Disk)
    (free : ∀ gen ∈ gens, '/' ∉ gen.modName) (apart : gens.Pairwise fun g g' => g.modName ≠ g'.modName) :
    ∀ gen ∈ gens, HasModule (texts.foldl (runOQGen jre files) disk) gen := by
  induction accepted generalizing disk with
  | nil => exact nofun
  | @cons text gen texts gens first rest ih =>
    rw [List.forall_mem_cons] at free ⊢
    rw [List.pairwise_cons] at apart
    rw [List.foldl_cons]
    refine ⟨(runOQGen_accepted first disk).1.frame fun path mem => ?_, ih _ free.2 apart.2⟩
    refine foldl_runOQGen_other rest _ fun gen' mem' => ?_
    exact modulePaths_apart free.1 (free.2 gen' mem') (apart.1 gen' mem') mem

/-- Two policies with one source name one port. -/
theorem portName_eq_of_source {gen' : OQGen jre.Double} (same : gen.modName = gen'.modName)
    (line : '\n' ∉ gen.portName) (line' : '\n' ∉ gen'.portName) (has : HasModule disk gen) (has' : HasModule disk gen') :
    gen.portName = gen'.portName := by
  obtain ⟨code, generated, source⟩ := has.source
  obtain ⟨code', generated', source'⟩ := has'.source
  rw [same, source'] at source
  obtain ⟨rest, starts⟩ := generateModule_starts generated
  obtain ⟨rest', starts'⟩ := generateModule_starts generated'
  cases source
  rw [starts, same, List.append_cancel_left_eq, List.append_cancel_left_eq, List.append_cancel_left_eq] at starts'
  exact (Lib.Text.append_sep_inj line line' starts').1

end Runs

/-- Different names of letters, digits and underscores have different module names exactly
if they are not alike. And all policies of a batch with different port names find their own
files in the end exactly if no two of the names are alike. -/
theorem module_names_apart_iff (law : jre.AsciiCase) :
    (∀ n m, isPlainName n → isPlainName m → n ≠ m →
      (OQGen.getModuleName jre n ≠ OQGen.getModuleName jre m ↔ ¬ Alike n m)) ∧
    ∀ texts (gens : List (OQGen jre.Double)), List.Forall₂ (Accepts jre files) texts gens →
      (∀ gen ∈ gens, isPlainName gen.portName) → (gens.map OQGen.portName).Nodup →
      ((∀ gen ∈ gens, HasModule (generateAll jre files texts) gen) ↔
        gens.Pairwise fun g g' => ¬ Alike g.portName g'.portName) := by
  refine ⟨fun n m plain plain' _ => not_congr (getModuleName_eq_iff law plain plain'), ?_⟩
  intro texts gens accepted plain names
  have names : gens.Pairwise fun g g' => g.portName ≠ g'.portName := List.pairwise_map.1 names
  constructor
  · intro has
    refine names.imp_of_mem fun {g g'} mem mem' differ alike => differ ?_
    have lines : ∀ gen ∈ gens, '\n' ∉ gen.portName := by
      intro gen mem inside
      exact absurd (plain gen mem _ inside) (by decide)
    have same : g.modName = g'.modName := (getModuleName_eq_iff law (plain g mem) (plain g' mem')).2 alike
    exact portName_eq_of_source same (lines g mem) (lines g' mem') (has g mem) (has g' mem')
  · intro apart
    refine foldl_runOQGen_hasModule accepted _ (fun gen mem => getModuleName_no_slash law (plain gen mem)) ?_
    refine apart.imp_of_mem fun {g g'} mem mem' unlike same => unlike ?_
    exact (getModuleName_eq_iff law (plain g mem) (plain g' mem')).1 same

end Batch

/-- A policy with one queue. -/
def oneQueue (port : Text) : Text :=
  "Queue q = Queue(4);\nPort ".toList ++ port ++ " = Port(q);\n".toList ++ port ++
    ".queueSelect = inline\x7b0\x7d;\n".toList ++ port ++ ".schedPrio = inline\x7b0\x7d;\n".toList ++
    assignments "q".toList "len".toList

instance (n m : Text) : Decidable (Alike n m) :=
  decidable_of_iff (n.flatMap written = m.flatMap written) ⟨alike_of_written_eq, Alike.written_eq⟩

theorem smallJre_asciiCase : smallJre.AsciiCase where
  upper _ _ := rfl
  lower _ _ := rfl

theorem two_ports_kept : ∃ g g', List.Forall₂ (Accepts smallJre fun _ => none)
      [oneQueue "portA".toList, oneQueue "portB".toList] [g, g'] ∧
    ∀ gen ∈ [g, g'], HasModule (generateAll smallJre (fun _ => none) [oneQueue "portA".toList, oneQueue "portB".toList]) gen := by
  obtain ⟨g, accepted, name⟩ := exists_accepted (oneQueue "portA".toList) (fun gen => gen.portName = "portA".toList)
    (by decide +kernel)
  obtain ⟨g', accepted', name'⟩ := exists_accepted (oneQueue "portB".toList) (fun gen => gen.portName = "portB".toList)
    (by decide +kernel)
  have name := of_decide_eq_true name
  have name' := of_decide_eq_true name'
  have both := List.Forall₂.cons accepted (.cons accepted' .nil)
  refine ⟨g, g', both, ((module_names_apart_iff smallJre_asciiCase).2 _ [g, g'] both ?_ ?_).2 ?_⟩
  · rw [List.forall_mem_cons, List.forall_mem_singleton, name, name']
    decide
  · simp only [List.map_cons, List.map_nil, name, name']
    decide
  · simp only [List.pairwise_pair, name, name']
    decide

/-- The policy of `myPort` is lost when that of `my_port` is generated after it. -/
theorem module_overwritten : ∃ g g', List.Forall₂ (Accepts smallJre fun _ => none)
      [oneQueue "myPort".toList, oneQueue "my_port".toList] [g, g'] ∧ g.portName ≠ g'.portName ∧
    g.modName = g'.modName ∧
    ¬ HasModule (generateAll smallJre (fun _ => none) [oneQueue "myPort".toList, oneQueue "my_port".toList]) g := by
  obtain ⟨g, accepted, name⟩ := exists_accepted (oneQueue "myPort".toList) (fun gen => gen.portName = "myPort".toList)
    (by decide +kernel)
  obtain ⟨g', accepted', name'⟩ := exists_accepted (oneQueue "my_port".toList)
    (fun gen => gen.portName = "my_port".toList) (by decide +kernel)
  have name := of_decide_eq_true name
  have name' := of_decide_eq_true name'
  have differ : g.portName ≠ g'.portName := by
    rw [name, name']
    decide
  have same : g.modName = g'.modName := by
    show OQGen.getModuleName smallJre g.portName = OQGen.getModuleName smallJre g'.portName
    rw [name, name']
    decide
  refine ⟨g, g', .cons accepted (.cons accepted' .nil), differ, same, fun has => differ ?_⟩
  have has' := (runOQGen_accepted accepted' (runOQGen smallJre (fun _ => none) (fun _ => none) (oneQueue "myPort".toList))).1
  exact portName_eq_of_source same (by rw [name]; decide) (by rw [name']; decide) has has'

end OpenQueue.Gen
