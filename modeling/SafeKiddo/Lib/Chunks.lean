import Mathlib.Data.List.Infix

/-!
# Chunks

A stream comes in chunks, cut anywhere. They are put behind a buffer until the buffer has what is
looked for.

Results:
1. `readUntil_isSome`: it is found when the whole stream has it.
2. `readUntil_eq_some`: what is read is the beginning of the stream, and the rest is left.
-/

namespace Chunks

variable {α : Type}

/-- The buffer, and the chunks that are left; `none` is the end of the stream. -/
def readUntil (found : List α → Bool) (buf : List α) :
    List (List α) → Option (List α × List (List α))
  | [] => if found buf then some (buf, []) else none
  | chunk :: chunks =>
    if found buf then some (buf, chunk :: chunks) else readUntil found (buf ++ chunk) chunks

variable {found : List α → Bool} {buf buf' : List α} {chunks chunks' : List (List α)}

theorem readUntil_isSome (h : found (buf ++ chunks.flatten) = true) :
    (readUntil found buf chunks).isSome := by
  induction chunks generalizing buf with
  | nil =>
    rw [List.flatten_nil, List.append_nil] at h
    rw [readUntil, if_pos h]
    rfl
  | cons chunk chunks ih =>
    rw [readUntil]
    split
    · rfl
    · rw [List.flatten_cons, ← List.append_assoc] at h
      exact ih h

theorem readUntil_eq_some (h : readUntil found buf chunks = some (buf', chunks')) :
    found buf' = true ∧ buf <+: buf' ∧ buf' ++ chunks'.flatten = buf ++ chunks.flatten := by
  induction chunks generalizing buf with
  | nil =>
    rw [readUntil] at h
    split at h
    · next hfound =>
      cases h
      exact ⟨hfound, List.prefix_refl _, rfl⟩
    · cases h
  | cons chunk chunks ih =>
    rw [readUntil] at h
    split at h
    · next hfound =>
      cases h
      exact ⟨hfound, List.prefix_refl _, rfl⟩
    · obtain ⟨hfound, hpre, heq⟩ := ih h
      refine ⟨hfound, (List.prefix_append buf chunk).trans hpre, ?_⟩
      rw [heq, List.flatten_cons, List.append_assoc]

end Chunks
