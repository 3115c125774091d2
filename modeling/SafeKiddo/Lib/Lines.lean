import Mathlib.Data.List.Chain
import Mathlib.Data.List.Infix

/-!
# Lines

Pieces with a mark before each of them and after the last one.

Results:
1. `mem_iff_infix`: what stands between two marks is one of the pieces.
2. `ended_inj`: lines that all end in one way can be told from their text.
3. `preceded_ended`: what stands before a mark, when each line ends in one way.
-/

namespace Lines

variable {α : Type} {mark : α} {line piece : List α} {pieces : List (List α)}

def marked (mark : α) (pieces : List (List α)) : List α :=
  pieces.flatMap (mark :: ·) ++ [mark]

theorem marked_cons : marked mark (piece :: pieces) = mark :: piece ++ marked mark pieces := by
  simp [marked]

theorem exists_marked_eq_cons (mark : α) (pieces : List (List α)) :
    ∃ rest, marked mark pieces = mark :: rest := by
  cases pieces with
  | nil => exact ⟨[], rfl⟩
  | cons piece pieces => exact ⟨piece ++ marked mark pieces, marked_cons⟩

/-- Texts up to the first mark are the same. -/
theorem eq_of_cut {a b s t : List α} (ha : mark ∉ a) (hb : mark ∉ b)
    (h : a ++ mark :: s <+: b ++ mark :: t) : a = b := by
  induction a generalizing b with
  | nil =>
    cases b with
    | nil => rfl
    | cons y b =>
      have hy : mark = y := (List.cons_prefix_cons.mp h).1
      exact absurd (hy ▸ List.mem_cons_self) hb
  | cons x a ih =>
    cases b with
    | nil =>
      have hx : x = mark := (List.cons_prefix_cons.mp h).1
      exact absurd (hx ▸ List.mem_cons_self) ha
    | cons y b =>
      obtain ⟨rfl, hrest⟩ := List.cons_prefix_cons.mp h
      rw [ih (fun hm => ha (List.mem_cons_of_mem _ hm)) (fun hm => hb (List.mem_cons_of_mem _ hm))
        hrest]

/-- What begins with a mark begins behind a text without marks. -/
theorem infix_of_infix_append {a s t : List α} (ha : mark ∉ a) (h : mark :: s <:+: a ++ t) :
    mark :: s <:+: t := by
  induction a with
  | nil => exact h
  | cons x a ih =>
    rcases List.infix_cons_iff.mp h with hpre | hinf
    · have hx : mark = x := (List.cons_prefix_cons.mp hpre).1
      exact absurd (hx ▸ List.mem_cons_self) ha
    · exact ih (fun hm => ha (List.mem_cons_of_mem _ hm)) hinf

theorem mem_iff_infix (hpieces : ∀ p ∈ pieces, mark ∉ p) (hline : mark ∉ line) :
    line ∈ pieces ↔ mark :: line ++ [mark] <:+: marked mark pieces := by
  constructor
  · intro h
    obtain ⟨front, back, rfl⟩ := List.append_of_mem h
    obtain ⟨rest, hrest⟩ := exists_marked_eq_cons mark back
    refine ⟨front.flatMap (mark :: ·), rest, ?_⟩
    have hback : back.flatMap (mark :: ·) ++ [mark] = mark :: rest := hrest
    simp [marked, List.flatMap_append, hback]
  · intro h
    induction pieces with
    | nil =>
      have hlength := h.length_le
      simp [marked] at hlength
    | cons piece pieces ih =>
      obtain ⟨hpiece, hrest⟩ := List.forall_mem_cons.mp hpieces
      rw [marked_cons] at h
      rcases List.infix_cons_iff.mp h with hpre | hinf
      · obtain ⟨rest, hmarked⟩ := exists_marked_eq_cons mark pieces
        have hsame := (List.cons_prefix_cons.mp hpre).2
        rw [hmarked] at hsame
        rw [eq_of_cut hline hpiece hsame]
        exact List.mem_cons_self
      · exact List.mem_cons_of_mem _ (ih hrest (infix_of_infix_append hpiece hinf))

/-! ## 2. Before the marks -/

/-- Only `before` stands before a mark. -/
def Preceded (before mark : α) (text : List α) : Prop :=
  text.IsChain fun a b => b = mark → a = before

theorem preceded_of_notMem (before : α) (h : mark ∉ line) : Preceded before mark line := by
  refine List.Pairwise.isChain (List.pairwise_of_forall_mem_list ?_)
  intro _ _ _ hb hmark
  exact absurd (hmark ▸ hb) h

section Ended

variable {before : α} {lines : List (List α)} {rest : List α}

/-- Each line ends with `before` and the mark. -/
def ended (before mark : α) (lines : List (List α)) : List α :=
  lines.flatMap (· ++ [before, mark])

theorem ended_cons : ended before mark (line :: lines) ++ rest =
    line ++ before :: mark :: (ended before mark lines ++ rest) := by
  simp [ended]

/-- The lines can be told from the text, when an empty one follows them. -/
theorem ended_inj {lines' : List (List α)} (hlines : ∀ l ∈ lines, before ∉ l)
    (hlines' : ∀ l ∈ lines', before ∉ l)
    (h : ended before mark lines ++ [before, mark] = ended before mark lines' ++ [before, mark]) :
    lines = lines' := by
  have hlonger : ∀ (l : List α) ls,
      [before, mark] ≠ ended before mark (l :: ls) ++ [before, mark] := by
    intro l ls heq
    have hlength := congrArg List.length heq
    simp only [ended_cons, List.length_append, List.length_cons, List.length_nil] at hlength
    omega
  induction lines generalizing lines' with
  | nil =>
    cases lines' with
    | nil => rfl
    | cons l' ls' => exact absurd h (hlonger l' ls')
  | cons l ls ih =>
    cases lines' with
    | nil => exact absurd h.symm (hlonger l ls)
    | cons l' ls' =>
      obtain ⟨hl, hls⟩ := List.forall_mem_cons.mp hlines
      obtain ⟨hl', hls'⟩ := List.forall_mem_cons.mp hlines'
      rw [ended_cons, ended_cons] at h
      obtain rfl := eq_of_cut hl hl' ⟨[], (List.append_nil _).trans h⟩
      have hrest := List.append_cancel_left h
      rw [ih hls hls' (List.tail_eq_of_cons_eq (List.tail_eq_of_cons_eq hrest))]

theorem head_ended (hbefore : before ≠ mark) (hlines : ∀ l ∈ lines, mark ∉ l)
    (hrest : mark ∉ rest) : ∀ y ∈ (ended before mark lines ++ rest).head?, y ≠ mark := by
  intro y hy
  cases lines with
  | nil =>
    rintro rfl
    exact hrest (List.mem_of_head? hy)
  | cons l lines =>
    rw [ended_cons] at hy
    cases l with
    | nil => exact Option.some.inj hy ▸ hbefore
    | cons x l =>
      rintro rfl
      exact hlines _ List.mem_cons_self (Option.some.inj hy ▸ List.mem_cons_self)

theorem preceded_ended (hbefore : before ≠ mark) (hlines : ∀ l ∈ lines, mark ∉ l)
    (hrest : mark ∉ rest) : Preceded before mark (ended before mark lines ++ rest) := by
  induction lines with
  | nil => exact preceded_of_notMem before hrest
  | cons l lines ih =>
    obtain ⟨hl, hothers⟩ := List.forall_mem_cons.mp hlines
    have htail : Preceded before mark (before :: mark :: (ended before mark lines ++ rest)) := by
      refine List.isChain_cons_cons.mpr ⟨fun _ => rfl, List.isChain_cons.mpr ⟨?_, ih hothers⟩⟩
      intro y hy hmark
      exact absurd hmark (head_ended hbefore hothers hrest y hy)
    rw [ended_cons]
    refine List.IsChain.append (preceded_of_notMem before hl) htail ?_
    intro x _ y hy hmark
    exact absurd (Option.some.inj hy ▸ hmark) hbefore

end Ended

/-- Nothing else stands before a mark anywhere in the text. -/
theorem Preceded.of_infix {before a : α} {text : List α} (h : Preceded before mark text)
    (hpair : [a, mark] <:+: text) : a = before := by
  have hchain := List.IsChain.infix h hpair
  exact (List.isChain_cons_cons.mp hchain).1 rfl

end Lines
