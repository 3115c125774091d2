import Mathlib.Algebra.BigOperators.Group.Finset.Piecewise
import Mathlib.Data.Fintype.BigOperators
import Mathlib.Tactic.Abel

/-!
# Tokens

Finitely many holders, each with at most one token. What they hold together is a multiset, so that
a token that is handed on is one equation.

Results:
1. `held_take`, `held_give`: what one holder takes or gives away.
2. `card_held`: as many tokens are held as holders have one.
3. `holder_unique`: without repetition each token has one holder.
-/

namespace Tokens

variable {Holder Token : Type} [Fintype Holder]

/-- All tokens that are held. -/
def held (f : Holder → Option Token) : Multiset Token := ∑ h, ↑(f h).toList

variable {f : Holder → Option Token} {h : Holder} {a : Token}

@[simp] theorem held_none : held (fun _ : Holder => (none : Option Token)) = 0 := by
  simp [held]

theorem mem_held : a ∈ held f ↔ ∃ h, f h = some a := by
  simp [held, Multiset.mem_sum]

theorem card_held : (held f).card = (Finset.univ.filter fun h => (f h).isSome).card := by
  rw [held, Multiset.card_sum, Finset.card_filter]
  refine Finset.sum_congr rfl ?_
  intro h _
  cases f h <;> rfl

section Update

variable [DecidableEq Holder]

theorem held_update (o : Option Token) :
    held (Function.update f h o) + ↑(f h).toList = held f + ↑o.toList := by
  have hrest := Finset.add_sum_erase Finset.univ (fun i => (↑(f i).toList : Multiset Token))
    (Finset.mem_univ h)
  have hnew := Finset.add_sum_erase Finset.univ
    (fun i => (↑(Function.update f h o i).toList : Multiset Token)) (Finset.mem_univ h)
  have hsame : ∑ i ∈ Finset.univ.erase h, (↑(Function.update f h o i).toList : Multiset Token) =
      ∑ i ∈ Finset.univ.erase h, ↑(f i).toList :=
    Finset.sum_congr rfl fun i hi => by
      rw [Function.update_of_ne (Finset.ne_of_mem_erase hi)]
  rw [hsame] at hnew
  simp only [Function.update_self] at hnew
  rw [held, held, ← hnew, ← hrest]
  abel

/-- A holder without a token takes one. -/
theorem held_take (hf : f h = none) : held (Function.update f h (some a)) = a ::ₘ held f := by
  have hupdate := held_update (f := f) (h := h) (some a)
  rw [hf] at hupdate
  simpa [add_comm] using hupdate

/-- A holder gives its token away. -/
theorem held_give (hf : f h = some a) : held f = a ::ₘ held (Function.update f h none) := by
  have hupdate := held_update (f := f) (h := h) none
  rw [hf] at hupdate
  simpa [add_comm] using hupdate.symm

theorem held_same (o : Option Token) (hf : f h = o) : held (Function.update f h o) = held f := by
  rw [← hf, Function.update_eq_self]

end Update

/-- No two holders have the same token. -/
theorem holder_unique (hnodup : (held f).Nodup) {h' : Holder} (hf : f h = some a)
    (hf' : f h' = some a) : h = h' := by
  classical
  by_contra hne
  rw [held_give hf] at hnodup
  refine (Multiset.nodup_cons.mp hnodup).1 (mem_held.mpr ⟨h', ?_⟩)
  rw [Function.update_of_ne (Ne.symm hne)]
  exact hf'

end Tokens
