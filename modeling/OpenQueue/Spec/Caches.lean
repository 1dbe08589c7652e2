import OpenQueue.Spec.Isolation

/-!
# From which cache a cell comes, and to which it goes

A cell is allocated from the cache that the global names, and given back to the cache
that it names then. As long as every `oq_init` that creates new caches finds the queues
empty, apart from those that its own `init_port` empties, the two are the same. A run
with two instances in which they are not is at the end.
-/

namespace OpenQueue

variable {ι Ω π : Type}

/-! ## The cells of one pool -/

section Stamps

variable {old new : Lib.Pool} {S S' C C' : Multiset Addr} {cache : Option Addr} {origin : Addr → Option Addr}

/-- What the instances hold after a call is from the cache of the call, or was from it
before. -/
theorem stamp_of_mem (own : old.Owns (S + C)) (own' : new.Owns (S' + (C' + C))) (evolves : old.Evolves new)
    (stamped : ∀ a ∈ S, origin a = cache) (a : Addr) (ha : a ∈ S') : stamp old new cache origin a = cache := by
  have member : a ∈ S' + (C' + C) := Multiset.mem_add.2 (.inl ha)
  unfold stamp
  split
  · rfl
  · next outside =>
    have below : a < new.brk := own'.below a member
    rcases evolves.live a (own'.mem_live member) with live | fresh
    · rw [own.live, Multiset.mem_toFinset, Multiset.mem_add] at live
      rcases live with held | lost
      · exact stamped a held
      · exact absurd (Multiset.mem_add.2 (.inr lost)) (own'.disjoint ha)
    · exact absurd ⟨fresh, below⟩ outside

/-- A cell that a call gives back was held. -/
theorem origin_of_freed (own : old.Owns (S + C)) (own' : new.Owns (S' + (C' + C)))
    (stamped : ∀ a ∈ S, origin a = cache) (a : Addr) (live : a ∈ old.live) (freed : a ∉ new.live) :
    origin a = cache := by
  rw [own.live, Multiset.mem_toFinset, Multiset.mem_add] at live
  rcases live with held | lost
  · exact stamped a held
  · exact absurd (own'.mem_live (Multiset.mem_add.2 (.inr (Multiset.mem_add.2 (.inr lost))))) freed

end Stamps

/-- A tree in which nothing is found has no cells. -/
theorem PortRepr.side_of_items_nil {p : Port π} {g : QId → QLayout} {C L : Multiset Addr} {s : ListPort π} {i : QId}
    {t : Side} (repr : PortRepr p g C L s) (none : p.items i t = []) : (g i).side t = .empty := by
  have empty : (s.queues i).side t = [] := by
    have perm := repr.items_perm i t
    rw [none] at perm
    exact perm.nil_eq.symm
  refine Lib.OrdMap.ext fun k => ?_
  rw [Lib.OrdMap.lookup_empty, (repr.side i t).lookup_eq_none_iff, empty]
  rfl

namespace System

/-- Each cell that is live before the step and not after it goes to the cache it came
from. -/
def GivesBack (s s' : System ι Ω π) : Prop :=
  (∀ a ∈ s.mem.conts.live, a ∉ s'.mem.conts.live → s.contCache a = s.pools.containerCache) ∧
    ∀ a ∈ s.mem.lists.live, a ∉ s'.mem.lists.live → s.listCache a = s.pools.contListCache

/-- If `oq_init` gets to creating caches, nothing is held in the queues that its
`init_port` leaves alone: those of the other instances, and those of its own instance
from the number of queues of the policy on. -/
def Quiet (s : System ι Ω π) : SysOp ι Ω π → Prop
  | .init x opt r trees _ => ∀ fn d, r.requested opt = .ok (some fn) → fn.initPort trees (s.qdiscs x) = .ok (0, d) →
    ∀ y j, (y = x → fn.code.inits.length ≤ j.val) → ∀ t, (s.port y).items j t = []
  | .call _ _ | .reset _ => True

variable [Fintype ι] [DecidableEq ι]

/-- Everything held comes from the caches that the globals name. -/
structure Stamped (s : System ι Ω π) (g : ι → QId → QLayout) : Prop where
  conts : ∀ a ∈ ∑ x, total QLayout.cells (g x), s.contCache a = s.pools.containerCache
  lists : ∀ a ∈ ∑ x, total QLayout.heads (g x), s.listCache a = s.pools.contListCache

variable {s s' : System ι Ω π} {x : ι} {g : ι → QId → QLayout} {C L : Multiset Addr} {a : ι → QId → ListQueue π}

/-- The memory of all instances holds lists, whose cells come from the current caches. -/
def HoldsStamped (s : System ι Ω π) : Prop := ∃ g C L a, SystemRepr s g C L a ∧ s.Stamped g

theorem call_stamped {c : Call Ω π} {out : Out π} (holds : s.HoldsStamped) (run : s.call x c = .ok (out, s')) :
    s'.HoldsStamped ∧ s.GivesBack s' := by
  obtain ⟨g, C, L, a, repr, stamped⟩ := holds
  obtain ⟨cb, g', C', L', b, stored, -, after⟩ := call_repr repr run
  obtain ⟨cb', p, stored', answer, -, rfl⟩ := call_cases run
  obtain ⟨i, -, advances⟩ := Port.call_advances answer
  refine ⟨⟨_, _, _, _, after, ?_, ?_⟩, ?_, ?_⟩
  · exact stamp_of_mem repr.conts after.conts advances.mem.conts stamped.conts
  · exact stamp_of_mem repr.lists after.lists advances.mem.lists stamped.lists
  · exact origin_of_freed repr.conts after.conts stamped.conts
  · exact origin_of_freed repr.lists after.lists stamped.lists

/-! ## `oq_init` -/

omit [DecidableEq ι] in
/-- The cells of all instances, one by one. -/
theorem mem_total_iff {f : QLayout → Multiset Addr} {c : Addr} :
    c ∈ ∑ y, total f (g y) ↔ ∃ y i, c ∈ f (g y i) := by
  simp only [total, Multiset.mem_sum, Finset.mem_univ, true_and]

theorem mem_total_of_emptied {F : Layout → Multiset Addr} (none : F .empty = 0) {g' : QId → QLayout}
    (emptied : ∀ i t, (g' i).side t = (g x i).side t ∨ (g' i).side t = .empty) {c : Addr}
    (h : c ∈ ∑ y, total (fun l => F l.admn + F l.proc) (Function.update g x g' y)) :
    c ∈ ∑ y, total (fun l => F l.admn + F l.proc) (g y) := by
  obtain ⟨y, i, inside⟩ := mem_total_iff.1 h
  refine mem_total_iff.2 ⟨y, i, ?_⟩
  by_cases same : y = x
  · subst same
    rw [Function.update_self] at inside
    exact Multiset.mem_of_le (QLayout.le_of_emptied (emptied i) none) inside
  · rwa [Function.update_of_ne same] at inside

omit [DecidableEq ι] in
theorem not_mem_total {F : Layout → Multiset Addr} (none : F .empty = 0)
    (empty : ∀ y i t, (g y i).side t = .empty) (c : Addr) :
    c ∉ ∑ y, total (fun l => F l.admn + F l.proc) (g y) := by
  intro h
  obtain ⟨y, i, inside⟩ := mem_total_iff.1 h
  have zero : F (g y i).admn + F (g y i).proc = 0 := by
    rw [show (g y i).admn = .empty from empty y i .admn, show (g y i).proc = .empty from empty y i .proc, none]
    rfl
  rw [zero] at inside
  exact Multiset.notMem_zero _ inside

omit [Fintype ι] in
/-- If nothing is held outside the queues that `init_port` empties, then nothing after it. -/
theorem items_after_init {trees : Nat → Gen.Trees} {fn : PolicyModule Ω π} {d : Qdisc Ω π}
    (port : fn.initPort trees (s.qdiscs x) = .ok (0, d)) (pools : Pools)
    (quiet : ∀ y j, (y = x → fn.code.inits.length ≤ j.val) → ∀ t, (s.port y).items j t = []) (y : ι) (j : QId)
    (t : Side) :
    (({ s with qdiscs := Function.update s.qdiscs x d, pools := pools } : System ι Ω π).port y).items j t = [] := by
  by_cases same : y = x
  · subst same
    simp only [System.port, Function.update_self]
    rcases PolicyModule.initPort_zero_cases port j with ⟨-, fresh, -⟩ | ⟨beyond, kept⟩
    · exact Port.items_of_tree_empty (fresh t)
    · rw [Port.items_congr kept]
      exact quiet y j (fun _ => beyond) t
  · simp only [System.port, Function.update_of_ne same]
    exact quiet y j (fun eq => absurd eq same) t

theorem init_stamped {opt : Option Registry.Opt} {r : Registry (PolicyModule Ω π)} {trees : Nat → Gen.Trees}
    {created : Pools} {code : Int} (holds : s.HoldsStamped) (quiet : s.Quiet (.init x opt r trees created))
    (run : s.init x opt r trees created = .ok (code, s')) : s'.HoldsStamped := by
  obtain ⟨g, C, L, a, repr, stamped⟩ := holds
  obtain ⟨g', a', C', L', after, emptied⟩ := init_repr repr run
  rcases init_cases run with ⟨-, -, rfl⟩ | ⟨fn, d, c, found, port, ⟨-, -, rfl⟩ | ⟨rfl, -, rfl⟩⟩
  · exact ⟨g, C, L, a, repr, stamped⟩
  · refine ⟨_, _, _, _, after, fun c h => ?_, fun c h => ?_⟩
    · exact stamped.conts c (mem_total_of_emptied (F := Layout.cells) rfl emptied h)
    · exact stamped.lists c (mem_total_of_emptied (F := Layout.heads) rfl emptied h)
  · have empty : ∀ y i t, (Function.update g x g' y i).side t = .empty := by
      intro y i t
      exact (after.port y).side_of_items_nil (items_after_init port _ (quiet fn d found port) y i t)
    refine ⟨_, _, _, _, after, fun c h => ?_, fun c h => ?_⟩
    · exact absurd h (not_mem_total (F := Layout.cells) rfl empty c)
    · exact absurd h (not_mem_total (F := Layout.heads) rfl empty c)

/-! ## Runs -/

theorem step_stamped {op : SysOp ι Ω π} {out : SysOut π} (holds : s.HoldsStamped) (quiet : s.Quiet op)
    (run : s.step op = .ok (out, s')) : s'.HoldsStamped ∧ s.GivesBack s' := by
  cases op with
  | init x opt r trees created =>
    obtain ⟨code, -, answer⟩ := step_init_eq_ok.1 run
    refine ⟨init_stamped holds quiet answer, ?_⟩
    have mem : s'.mem = s.mem := by
      rcases init_cases answer with ⟨-, -, rfl⟩ | ⟨fn, d, c, -, -, ⟨-, -, rfl⟩ | ⟨-, -, rfl⟩⟩ <;> rfl
    unfold GivesBack
    rw [mem]
    exact ⟨fun _ live gone => absurd live gone, fun _ live gone => absurd live gone⟩
  | call x c =>
    obtain ⟨o, -, answer⟩ := step_call_eq_ok.1 run
    exact call_stamped holds answer
  | reset x =>
    cases run
    obtain ⟨g, C, L, a, repr, stamped⟩ := holds
    exact ⟨⟨g, C, L, a, repr.reset x, stamped.conts, stamped.lists⟩,
      fun _ live gone => absurd live gone, fun _ live gone => absurd live gone⟩

omit [DecidableEq ι] in
theorem Initial.holdsStamped (init : s.Initial) : s.HoldsStamped := by
  refine ⟨_, _, _, _, init.repr, fun c h => ?_, fun c h => ?_⟩
  · exact absurd h (not_mem_total (F := Layout.cells) rfl (fun _ _ t => by cases t <;> rfl) c)
  · exact absurd h (not_mem_total (F := Layout.heads) rfl (fun _ _ t => by cases t <;> rfl) c)

/-- In every run whose `oq_init` calls find the queues empty, every cell goes back to the
cache it came from. -/
theorem run_gives_back {s₀ : System ι Ω π} {ops : List (SysOp ι Ω π)} (init : s₀.Initial)
    (quiet : ∀ s op, Lib.Calls step s₀ ops s op → s.Quiet op) {op : SysOp ι Ω π} {out : SysOut π}
    (met : Lib.Calls step s₀ ops s op) (run : s.step op = .ok (out, s')) : s.GivesBack s' := by
  obtain ⟨done, outs, sub, before⟩ := met
  have holds : s.HoldsStamped := by
    refine Lib.run_invariant (P := fun _ _ s => s.HoldsStamped) (A := Quiet) ?_ init.holdsStamped ?_ before
    · intro t op call
      exact quiet t op (call.mono ((List.prefix_append done _).trans sub))
    · intro _ _ t op _ t' _ holds quiet step
      exact (step_stamped holds quiet step).1
  exact (step_stamped holds (quiet s op ⟨done, outs, sub, before⟩) run).2

end System

/-- One instance is initialised, takes a packet and returns it. -/
def serveOne : List (SysOp Bool Unit Unit) :=
  [setUp false 0, .call false (.oqEnqueue () .ok ⟨7, ()⟩), .call false (.oqDequeue ())]

theorem serveOne_gives_back : ∃ s s' : System Bool Unit Unit, ∃ out,
    Lib.Calls System.step twoInstances serveOne s (.call false (.oqDequeue ())) ∧
      s.step (.call false (.oqDequeue ())) = .ok (out, s') ∧ 0 ∈ s.mem.conts.live ∧ 0 ∉ s'.mem.conts.live ∧
      s.GivesBack s' := by
  have seen : (match Lib.run System.step twoInstances (serveOne.take 2) with
      | .ok r =>
        match r.2.step (.call false (.oqDequeue ())) with
        | .ok r' => decide (0 ∈ r.2.mem.conts.live ∧ 0 ∉ r'.2.mem.conts.live)
        | .error _ => false
      | .error _ => false) = true := by
    decide +kernel
  have quiet : ∀ s op, Lib.Calls System.step twoInstances serveOne s op → s.Quiet op := by
    intro s op call
    rcases Lib.calls_cons.1 call with ⟨rfl, rfl⟩ | ⟨o₁, s₁, -, call⟩
    · intro fn d _ _ y j _ t
      cases t <;> rfl
    rcases Lib.calls_cons.1 call with ⟨rfl, rfl⟩ | ⟨o₂, s₂, -, call⟩
    · trivial
    rcases Lib.calls_cons.1 call with ⟨rfl, rfl⟩ | ⟨o₃, s₃, -, call⟩
    · trivial
    exact absurd call Lib.calls_nil
  split at seen
  · next r run =>
    split at seen
    · next r' step =>
      obtain ⟨live, freed⟩ := of_decide_eq_true seen
      have met : Lib.Calls System.step twoInstances serveOne r.2 (.call false (.oqDequeue ())) :=
        ⟨_, r.1, List.prefix_rfl, run⟩
      exact ⟨r.2, r'.2, r'.1, met, step, live, freed, System.run_gives_back twoInstances_initial quiet met step⟩
    · cases seen
  · cases seen

/-- The second instance is initialised while the first holds a packet. -/
def initBetween : List (SysOp Bool Unit Unit) :=
  [setUp false 0, .call false (.oqEnqueue () .ok ⟨7, ()⟩), setUp true 4, .call false (.oqDequeue ())]

/-- The containers of the packet come from the first cache and go to the second. -/
theorem second_init_misplaces_cells : ¬ ∀ s op, Lib.Calls System.step twoInstances initBetween s op →
    ∀ out s', s.step op = .ok (out, s') → s.GivesBack s' := by
  intro always
  have seen : (match Lib.run System.step twoInstances (initBetween.take 3) with
      | .ok r =>
        match r.2.step (.call false (.oqDequeue ())) with
        | .ok r' => decide (0 ∈ r.2.mem.conts.live ∧ 0 ∉ r'.2.mem.conts.live ∧
            r.2.contCache 0 ≠ r.2.pools.containerCache)
        | .error _ => false
      | .error _ => false) = true := by
    decide +kernel
  split at seen
  · next r run =>
    split at seen
    · next r' step =>
      obtain ⟨live, freed, elsewhere⟩ := of_decide_eq_true seen
      have met : Lib.Calls System.step twoInstances initBetween r.2 (.call false (.oqDequeue ())) :=
        ⟨_, r.1, List.prefix_rfl, run⟩
      exact elsewhere ((always _ _ met _ _ step).1 0 live freed)
    · cases seen
  · cases seen

end OpenQueue
