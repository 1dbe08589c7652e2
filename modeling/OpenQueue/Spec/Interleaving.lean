import OpenQueue.Sim.Effects
import OpenQueue.Sim.Observe
import OpenQueue.Sim.Pools
import OpenQueue.Spec.Order

/-!
# One queue's part of a run

Where the policy sends a packet and serves a queue without looking at the queues, each
queue goes its own way: what it answers, and what it holds in the end, depends on the
calls for this queue and their order, and not on how they are mixed with the calls for
other queues.
-/

namespace OpenQueue

variable {Ω π : Type}

/-- The policy picks a queue by the call alone. -/
def Callbacks.Routes (cb : Callbacks Ω π) (route : Call Ω π → Option QId) : Prop :=
  ∀ (p : Port π) (c : Call Ω π), p.selects cb c = route c

namespace ListPort

variable {cb : Callbacks Ω π} {s s' a : ListPort π} {c : Call Ω π} {out : Out π} {i : QId}

/-- What a call answers, and the queue it leaves, are a matter of the queue it picks. -/
theorem Called.transfer (way : Called cb s c out s') (picks : s.selects cb c = some i)
    (picks' : a.selects cb c = some i) (same : s.queues i = a.queues i) :
    ∃ a', Called cb a c out a' ∧ s'.queues i = a'.queues i := by
  have info : s.infos i = a.infos i := congrArg ListQueue.toQueueInfo same
  cases way with
  | admitted slot free enq =>
    obtain rfl := Option.some.inj (slot.symm.trans picks)
    rw [info] at free
    rw [same] at enq
    exact ⟨_, .admitted picks' free enq, by rw [set_queues, set_queues]⟩
  | tailDropped congested tail drop enq =>
    obtain rfl := Option.some.inj (congested.slot.symm.trans picks)
    rw [same] at drop
    rw [info] at tail
    exact ⟨_, .tailDropped ⟨picks', info ▸ congested.full⟩ tail drop enq, by rw [set_queues, set_queues]⟩
  | refused congested pkt =>
    obtain rfl := Option.some.inj (congested.slot.symm.trans picks)
    rw [info] at pkt
    exact ⟨_, .refused ⟨picks', info ▸ congested.full⟩ pkt, by rw [set_queues, set_queues, same]⟩
  | ignored congested tail pkt =>
    obtain rfl := Option.some.inj (congested.slot.symm.trans picks)
    rw [info] at tail pkt
    exact ⟨_, .ignored ⟨picks', info ▸ congested.full⟩ tail pkt, same⟩
  | dequeued slot deq =>
    obtain rfl := Option.some.inj (slot.symm.trans picks)
    rw [same] at deq
    exact ⟨_, .dequeued picks' deq, by rw [set_queues, set_queues]⟩

end ListPort

/-- Two ports hold the same in queue `i`. -/
def SameAt (i : QId) (p q : Port π) : Prop := ∃ s a : ListPort π, Holds p s ∧ Holds q a ∧ s.queues i = a.queues i

section

variable {cb : Callbacks Ω π} {p p' q : Port π} {s : ListPort π} {c : Call Ω π} {out : Out π} {i : QId}

theorem Holds.selects (holds : Holds p s) (cb : Callbacks Ω π) (c : Call Ω π) : p.selects cb c = s.selects cb c := by
  obtain ⟨g, C, L, repr⟩ := holds
  cases c with
  | oqEnqueue ω ins skb => rw [Port.selects, ListPort.selects, repr.infos]
  | oqDequeue ω => rw [Port.selects, ListPort.selects, repr.infos]

/-- A call for queue `i` is answered alike. -/
theorem SameAt.call (same : SameAt i p q) (picks : p.selects cb c = some i) (picks' : q.selects cb c = some i)
    (run : p.call cb c = .ok (out, p')) : ∃ q', q.call cb c = .ok (out, q') ∧ SameAt i p' q' := by
  obtain ⟨s, a, holds, holds', equal⟩ := same
  have agree := call_agree cb p s c holds
  rw [run] at agree
  obtain ⟨s', run', after⟩ := agree.of_ok
  rw [holds.selects] at picks
  rw [holds'.selects] at picks'
  obtain ⟨a', way, equal'⟩ := (ListPort.Called.of_call run').transfer picks picks' equal
  have agree' := call_agree cb q a c holds'
  rw [way.run] at agree'
  obtain ⟨q', answer, after'⟩ := agree'.of_ok_right
  exact ⟨q', answer, s', a', after, after', equal'⟩

/-- A call for another queue changes nothing. -/
theorem SameAt.skip (same : SameAt i p q) (picks : p.selects cb c ≠ some i) (run : p.call cb c = .ok (out, p')) :
    SameAt i p' q := by
  obtain ⟨s, a, holds, holds', equal⟩ := same
  have agree := call_agree cb p s c holds
  rw [run] at agree
  obtain ⟨s', run', after⟩ := agree.of_ok
  rw [holds.selects] at picks
  exact ⟨s', a, after, holds', ((ListPort.Called.of_call run').elsewhere picks).trans equal⟩

theorem SameAt.infos (same : SameAt i p q) : p.infos i = q.infos i := by
  obtain ⟨s, a, ⟨g, C, L, repr⟩, ⟨g', C', L', repr'⟩, equal⟩ := same
  rw [repr.infos, repr'.infos, ListPort.infos, ListPort.infos, equal]

theorem SameAt.bucket (same : SameAt i p q) (t : Side) (k : Key) : p.bucket i t k = q.bucket i t k := by
  obtain ⟨s, a, ⟨g, C, L, repr⟩, ⟨g', C', L', repr'⟩, equal⟩ := same
  rw [repr.bucket, repr'.bucket, equal]

end

/-- The calls for queue `i`, made alone, get the answers they get in any mixture with calls
for other queues, and leave the same counters and the same packets under every key. -/
theorem run_projects (cb : Callbacks Ω π) {route : Call Ω π → Option QId} (routes : cb.Routes route) {p q : Port π}
    {calls : List (Call Ω π)} {outs : List (Out π)} (init : p.Initialised)
    (run : Lib.run (Port.call cb) p calls = .ok (outs, q)) (i : QId) :
    ∃ q', Lib.run (Port.call cb) p (calls.filter fun c => route c = some i) =
        .ok (((calls.zip outs).filter fun co => route co.1 = some i).map Prod.snd, q') ∧
      q.infos i = q'.infos i ∧ ∀ t k, q.bucket i t k = q'.bucket i t k := by
  have start : SameAt i p p :=
    ⟨_, _, ⟨_, _, _, PortRepr.initial init⟩, ⟨_, _, _, PortRepr.initial init⟩, rfl⟩
  have kept : ∀ a b c o a', decide (route c = some i) = true → SameAt i a b → a.call cb c = .ok (o, a') →
      ∃ b', b.call cb c = .ok (o, b') ∧ SameAt i a' b' := by
    intro a b c o a' mine same step
    rw [decide_eq_true_eq] at mine
    exact same.call ((routes a c).trans mine) ((routes b c).trans mine) step
  have skipped : ∀ a b c o a', decide (route c = some i) = false → SameAt i a b → a.call cb c = .ok (o, a') →
      SameAt i a' b := by
    intro a b c o a' other same step
    rw [decide_eq_false_iff_not] at other
    refine same.skip ?_ step
    rwa [routes a c]
  obtain ⟨q', run', same⟩ := Lib.run_filter kept skipped start run
  exact ⟨q', run', same.infos, same.bucket⟩

/-- Packets go to the first two queues by the parity of their address, and the scheduler is
told which of the two to serve. -/
def byParity : Callbacks Bool Unit :=
  { Callbacks.routines 256 2 (fun _ => 0) (fun skb => Fin.ofNat (2 ^ 64) skb.addr) with
    qSelect := fun _ _ skb => ((skb.addr % 2 : Nat) : Int)
    schedFn := fun ω _ => if ω then 1 else 0 }

/-- Where these callbacks send a call. -/
def parityRoute : Call Bool Unit → Option QId
  | .oqEnqueue _ _ skb => slot? ((skb.addr % 2 : Nat) : Int)
  | .oqDequeue ω => slot? (if ω then 1 else 0)

theorem byParity_routes : byParity.Routes parityRoute := by
  intro p c
  cases c <;> rfl

/-- Three packets and two dequeues, of which two packets and one dequeue are for queue 1. -/
def mixedCalls : List (Call Bool Unit) :=
  [.oqEnqueue true .ok ⟨7, ()⟩, .oqEnqueue true .ok ⟨8, ()⟩, .oqDequeue false, .oqEnqueue true .ok ⟨9, ()⟩,
    .oqDequeue true]

theorem mixedCalls_projected : ∃ q q',
    Lib.run (Port.call byParity) (Port.blank ()) mixedCalls =
      .ok ([.status 0, .status 0, .dequeue (.packet ⟨8, ()⟩), .status 0, .dequeue (.packet ⟨9, ()⟩)], q) ∧
    Lib.run (Port.call byParity) (Port.blank ())
        [.oqEnqueue true .ok ⟨7, ()⟩, .oqEnqueue true .ok ⟨9, ()⟩, .oqDequeue true] =
      .ok ([.status 0, .status 0, .dequeue (.packet ⟨9, ()⟩)], q') ∧
    q.infos 1 = q'.infos 1 ∧ ∀ t k, q.bucket 1 t k = q'.bucket 1 t k := by
  obtain ⟨outs, q, run, seen⟩ := Lib.exists_of_ends (P := fun outs _ =>
      outs = [.status 0, .status 0, .dequeue (.packet ⟨8, ()⟩), .status 0, .dequeue (.packet ⟨9, ()⟩)])
    (r := Lib.run (Port.call byParity) (Port.blank ()) mixedCalls) (by decide +kernel)
  obtain rfl := of_decide_eq_true seen
  obtain ⟨q', run', same⟩ := run_projects byParity byParity_routes (Port.blank_initialised ()) run 1
  exact ⟨q, q', run, run', same⟩

end OpenQueue
