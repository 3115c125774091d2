import Mathlib.Computability.RegularExpressions

/-!
# Regular expressions of character classes

What text formats use of a regex library: a character of a class, and one or more of them.

Results:
1. `charClass_rmatch_iff`: one character of the class.
2. `oneOrMore_rmatch_iff`: a text, not empty, of characters of the class.
-/

namespace RegularExpression

variable {α : Type} [DecidableEq α] {chars x : List α}

/-- `[...]` -/
def charClass (chars : List α) : RegularExpression α := (chars.map char).sum

/-- `P+` -/
def oneOrMore (P : RegularExpression α) : RegularExpression α := P * P.star

theorem charClass_rmatch_iff : (charClass chars).rmatch x ↔ ∃ c ∈ chars, x = [c] := by
  unfold charClass
  induction chars with
  | nil => simp [zero_rmatch]
  | cons d chars ih =>
    rw [List.map_cons, List.sum_cons, add_rmatch_iff, ih, char_rmatch_iff]
    simp only [List.mem_cons, exists_eq_or_imp]

/-- The characters of the text are in the class, in any number and order. -/
theorem oneOrMore_rmatch_iff : (oneOrMore (charClass chars)).rmatch x ↔
    x ≠ [] ∧ ∀ c ∈ x, c ∈ chars := by
  have hstar : ∀ y, (charClass chars).star.rmatch y ↔ ∀ c ∈ y, c ∈ chars := by
    intro y
    rw [star_rmatch_iff]
    constructor
    · rintro ⟨pieces, rfl, hpieces⟩ c hc
      obtain ⟨piece, hpiece, hc⟩ := List.mem_flatten.mp hc
      obtain ⟨d, hd, rfl⟩ := charClass_rmatch_iff.mp (hpieces piece hpiece).2
      rwa [List.mem_singleton.mp hc]
    · intro hy
      refine ⟨y.map fun c => [c], (List.flatMap_singleton' y).symm, fun piece hpiece => ?_⟩
      obtain ⟨c, hc, rfl⟩ := List.mem_map.mp hpiece
      exact ⟨List.cons_ne_nil c [], charClass_rmatch_iff.mpr ⟨c, hy c hc, rfl⟩⟩
  rw [oneOrMore, mul_rmatch_iff]
  constructor
  · rintro ⟨a, b, rfl, ha, hb⟩
    obtain ⟨c, hc, rfl⟩ := charClass_rmatch_iff.mp ha
    exact ⟨List.cons_ne_nil _ _, List.forall_mem_cons.mpr ⟨hc, (hstar b).mp hb⟩⟩
  · rintro ⟨hne, hx⟩
    obtain ⟨c, y, rfl⟩ := List.exists_cons_of_ne_nil hne
    obtain ⟨hc, hy⟩ := List.forall_mem_cons.mp hx
    exact ⟨[c], y, rfl, charClass_rmatch_iff.mpr ⟨c, hc, rfl⟩, (hstar y).mpr hy⟩

end RegularExpression
