import OpenQueue.Lib.Cyclic
import Mathlib

/-!
# A cell pool with exact accounting

A pool hands out addresses that were never used before and retires them again. An
address is live between the two; a retired one is never handed out a second time,
so a client that stays on live cells never reads, writes or retires a retired one.
`Owns` states which cells are live as a multiset, to be split between the owners
with `+`: allocation conses a cell onto it, retiring takes one off. A ring of live
cells is read back from its first cell by following `next`.
-/

namespace Lib

/-- The cells handed out and not retired, and the first address never handed out. -/
structure Pool where
  live : Finset Nat
  brk : Nat
  deriving DecidableEq

namespace Pool

/-- Nothing handed out yet. -/
def empty : Pool := ⟨∅, 0⟩

/-- Hand out a fresh cell, the one at `brk`. -/
def alloc (p : Pool) : Pool := ⟨insert p.brk p.live, p.brk + 1⟩

/-- Retire a cell. -/
def retire (p : Pool) (a : Nat) : Pool := ⟨p.live.erase a, p.brk⟩

/-- The live cells are exactly `s`, each counted once. -/
structure Owns (p : Pool) (s : Multiset Nat) : Prop where
  nodup : s.Nodup
  live : p.live = s.toFinset
  below : ∀ a ∈ s, a < p.brk

variable {p : Pool} {s t : Multiset Nat} {a : Nat}

theorem owns_zero (none : p.live = ∅) : p.Owns 0 :=
  ⟨Multiset.nodup_zero, by simp [none], by simp⟩

namespace Owns

theorem mem_live (own : p.Owns s) (h : a ∈ s) : a ∈ p.live := by
  rw [own.live]
  exact Multiset.mem_toFinset.2 h

theorem fresh (own : p.Owns s) : p.brk ∉ s :=
  fun h => Nat.lt_irrefl _ (own.below _ h)

theorem alloc (own : p.Owns s) : p.alloc.Owns (p.brk ::ₘ s) := by
  refine ⟨Multiset.nodup_cons.2 ⟨own.fresh, own.nodup⟩, ?_, ?_⟩
  · simp [Pool.alloc, own.live]
  · intro a ha
    rcases Multiset.mem_cons.1 ha with rfl | ha
    · exact Nat.lt_succ_self _
    · exact (own.below a ha).trans (Nat.lt_succ_self _)

theorem retire (own : p.Owns (a ::ₘ s)) : (p.retire a).Owns s := by
  obtain ⟨gone, nodup⟩ := Multiset.nodup_cons.1 own.nodup
  refine ⟨nodup, ?_, fun b hb => own.below b (Multiset.mem_cons_of_mem hb)⟩
  ext b
  simp only [Pool.retire, own.live, Finset.mem_erase, Multiset.mem_toFinset, Multiset.mem_cons]
  constructor
  · rintro ⟨other, rfl | hb⟩
    · exact absurd rfl other
    · exact hb
  · intro hb
    exact ⟨fun same => gone (same ▸ hb), .inr hb⟩

theorem card_live (own : p.Owns s) : p.live.card = s.card := by
  rw [own.live, Multiset.toFinset_card_of_nodup own.nodup]

/-- Two owners never share a cell. -/
theorem disjoint (own : p.Owns (s + t)) (hs : a ∈ s) : a ∉ t := by
  have split := Multiset.nodup_add.1 own.nodup
  exact Multiset.disjoint_left.1 split.2.2 hs

/-- No list of distinct live cells is longer than the memory handed out. -/
theorem length_le {l : List Nat} (own : p.Owns s) (nodup : l.Nodup) (inside : ∀ a ∈ l, a ∈ s) :
    l.length ≤ p.brk := by
  have sub : l.toFinset ⊆ Finset.range p.brk := by
    intro a ha
    exact Finset.mem_range.2 (own.below a (inside a (List.mem_toFinset.1 ha)))
  have card := Finset.card_le_card sub
  rwa [List.toFinset_card_of_nodup nodup, Finset.card_range] at card

end Owns

/-! ## Later states of a pool -/

/-- Cells are retired, and new ones come from beyond the break. -/
structure Evolves (p p' : Pool) : Prop where
  brk : p.brk ≤ p'.brk
  live : ∀ a ∈ p'.live, a ∈ p.live ∨ p.brk ≤ a

namespace Evolves

variable {p' p'' : Pool}

theorem refl (p : Pool) : p.Evolves p := ⟨Nat.le_refl _, fun _ h => .inl h⟩

theorem trans (first : p.Evolves p') (next : p'.Evolves p'') : p.Evolves p'' := by
  refine ⟨first.brk.trans next.brk, fun a ha => ?_⟩
  rcases next.live a ha with old | new
  · exact first.live a old
  · exact .inr (first.brk.trans new)

theorem alloc (p : Pool) : p.Evolves p.alloc := by
  refine ⟨Nat.le_succ _, fun a ha => ?_⟩
  rcases Finset.mem_insert.1 ha with rfl | old
  · exact .inr (Nat.le_refl _)
  · exact .inl old

theorem retire (p : Pool) (a : Nat) : p.Evolves (p.retire a) :=
  ⟨Nat.le_refl _, fun _ h => .inl (Finset.mem_of_mem_erase h)⟩

end Evolves

/-! ## Reading a ring -/

/-- Follow `next` over live cells until `first` comes back. -/
def walk (p : Pool) (next : Nat → Nat) (first : Nat) : Nat → Nat → List Nat
  | 0, _ => []
  | rounds + 1, a =>
    if a ∈ p.live then
      a :: if next a = first then [] else p.walk next first rounds (next a)
    else []

/-- The cells from `first` on; there are no more than were ever handed out. -/
def ring (p : Pool) (next : Nat → Nat) (first : Nat) : List Nat := p.walk next first p.brk first

theorem Owns.ring_eq {next prev : Nat → Nat} {h : Nat} {l : List Nat} (own : p.Owns s)
    (ring : Cyclic next prev (h :: l)) (inside : ∀ a ∈ h :: l, a ∈ s) : p.ring next h = h :: l := by
  have read := ring.loop_eq_foldr (F := p.walk next h) (f := List.cons) (z := [])
    (fun n c hc => if_pos (own.mem_live (inside c hc))) (own.length_le ring.nodup inside)
  rw [List.foldr_cons_nil] at read
  exact read

end Pool

end Lib
