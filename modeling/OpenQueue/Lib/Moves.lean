import Mathlib

/-!
# What code does, whatever it computes

`Moves R x` says that `x` takes every state to one that is `R`-related, if it returns at
all, `Returns P x` that it returns a result in `P`, and `ErrorsIn P x` that it fails with
errors in `P` only. All are kept by sequencing, the first for a preorder, so a fact about
a whole program comes from its primitives, without following what they compute.
-/

namespace Lib

variable {σ ε α β : Type}

/-- Where the code returns, its two states are related. -/
def Moves (R : σ → σ → Prop) (x : StateT σ (Except ε) α) : Prop := ∀ s a s', x s = .ok (a, s') → R s s'

namespace Moves

variable {R : σ → σ → Prop}

theorem pure [Std.Refl R] (a : α) : Moves R (pure a : StateT σ (Except ε) α) := by
  rintro s a s' ⟨⟩
  exact refl s

theorem get [Std.Refl R] : Moves R (get : StateT σ (Except ε) σ) := by
  rintro s a s' ⟨⟩
  exact refl s

theorem bind [IsTrans σ R] {x : StateT σ (Except ε) α} {f : α → StateT σ (Except ε) β} (first : Moves R x)
    (next : ∀ a, Moves R (f a)) : Moves R (x >>= f) := by
  intro s b s'' run
  change (x s >>= fun r => f r.1 r.2) = _ at run
  cases here : x s with
  | error e =>
    rw [here] at run
    cases run
  | ok r =>
    rw [here] at run
    exact IsTrans.trans _ _ _ (first s r.1 r.2 here) (next r.1 r.2 b s'' run)

end Moves

/-- Where the code returns, the result is one of `P`. -/
def Returns (P : α → Prop) (x : StateT σ (Except ε) α) : Prop := ∀ s a s', x s = .ok (a, s') → P a

namespace Returns

theorem pure {P : α → Prop} {a : α} (here : P a) : Returns P (pure a : StateT σ (Except ε) α) := by
  rintro s a s' ⟨⟩
  exact here

theorem bind {P : β → Prop} {x : StateT σ (Except ε) α} {f : α → StateT σ (Except ε) β} (next : ∀ a, Returns P (f a)) :
    Returns P (x >>= f) := by
  intro s b s'' run
  change (x s >>= fun r => f r.1 r.2) = _ at run
  cases here : x s with
  | error e =>
    rw [here] at run
    cases run
  | ok r =>
    rw [here] at run
    exact next r.1 r.2 b s'' run

end Returns

/-- Where the code fails, the error is one of `P`. -/
def ErrorsIn (P : ε → Prop) : Except ε α → Prop
  | .ok _ => True
  | .error e => P e

namespace ErrorsIn

variable {P : ε → Prop} {x : Except ε α}

theorem bind_iff {f : α → Except ε β} :
    ErrorsIn P (x >>= f) ↔ ErrorsIn P x ∧ ∀ a, x = .ok a → ErrorsIn P (f a) := by
  cases x with
  | error e => exact ⟨fun fails => ⟨fails, nofun⟩, And.left⟩
  | ok a =>
    refine ⟨fun fails => ⟨trivial, ?_⟩, fun fails => fails.2 a rfl⟩
    rintro _ ⟨⟩
    exact fails

theorem of_error {e : ε} (fails : ErrorsIn P x) (failed : x = .error e) : P e := by
  rw [failed] at fails
  exact fails

end ErrorsIn

end Lib
