import Mathlib.Logic.Function.Basic

/-!
# Mutexes

A mutex has at most one owner. Each thread is at a place, and the place says whether the thread
holds the mutex and what it carries. A step of a thread updates its place.

Results:
1. `Owned.acquire`, `Owned.release`, `Owned.keep`: the owner is the one thread that holds the mutex.
2. `share_same`, `share_owner`: what the owner carries, when a thread takes a step.
-/

namespace Mutex

variable {Thread Place α : Type} {owner : Option Thread} {place : Thread → Place}
  {holds : Place → Bool} {carried : Place → List α} {a b : Thread} {p : Place}

/-- The threads that hold the mutex are its owner. -/
def Owned (owner : Option Thread) (place : Thread → Place) (holds : Place → Bool) : Prop :=
  ∀ a, holds (place a) = true ↔ owner = some a

/-- What the owner carries. -/
def share (owner : Option Thread) (place : Thread → Place) (carried : Place → List α) : List α :=
  owner.elim [] fun a => carried (place a)

theorem share_none : share none place carried = [] := rfl

theorem share_some : share (some a) place carried = carried (place a) := rfl

namespace Owned

theorem unique (h : Owned owner place holds) (ha : holds (place a) = true)
    (hb : holds (place b) = true) : a = b :=
  Option.some.inj (((h a).mp ha).symm.trans ((h b).mp hb))

theorem of_free (h : Owned owner place holds) (hfree : owner = none) (a : Thread) :
    holds (place a) = false := by
  refine Bool.eq_false_iff.mpr ?_
  intro ha
  rw [(h a).mp ha] at hfree
  cases hfree

theorem share_eq (h : Owned owner place holds) (ha : holds (place a) = true) :
    share owner place carried = carried (place a) := by
  rw [(h a).mp ha, share_some]

variable [DecidableEq Thread]

theorem acquire (h : Owned owner place holds) (hfree : owner = none) (hp : holds p = true) :
    Owned (some a) (Function.update place a p) holds := by
  intro b
  by_cases hb : b = a
  · subst hb
    simp [hp]
  · rw [Function.update_of_ne hb, h.of_free hfree b, Option.some_inj]
    simp [Ne.symm hb]

theorem release (h : Owned owner place holds) (ha : holds (place a) = true)
    (hp : holds p = false) : Owned none (Function.update place a p) holds := by
  intro b
  by_cases hb : b = a
  · subst hb
    simp [hp]
  · rw [Function.update_of_ne hb]
    simp only [reduceCtorEq, iff_false]
    exact fun hholds => hb (h.unique hholds ha)

theorem keep (h : Owned owner place holds) (hp : holds p = holds (place a)) :
    Owned owner (Function.update place a p) holds := by
  intro b
  by_cases hb : b = a
  · subst hb
    rw [Function.update_self, hp]
    exact h b
  · rw [Function.update_of_ne hb]
    exact h b

end Owned

variable [DecidableEq Thread]

theorem share_owner : share (some a) (Function.update place a p) carried = carried p := by
  rw [share_some, Function.update_self]

/-- A thread takes a step that does not change what it carries. -/
theorem share_same (hp : carried p = carried (place a)) :
    share owner (Function.update place a p) carried = share owner place carried := by
  cases owner with
  | none => rfl
  | some b =>
    rw [share_some, share_some]
    by_cases hb : b = a
    · subst hb
      rw [Function.update_self, hp]
    · rw [Function.update_of_ne hb]

end Mutex
