import Mathlib.Logic.Basic

/-!
# Machines

A machine that takes labelled steps. Several threads are one machine: a label says which thread
takes which step, and a run is one interleaving.

Results:
1. `run_invariant`: what each step keeps, each run keeps.
2. `run_relation`: what relates the ends of each step relates the ends of each run.
3. `Reachable.map`, `Reachable.map_on`: a part of a machine that makes the steps of another machine
   stays reachable there.
4. `visits_iff_steps`: a run stays in good states exactly when each of its steps meets a condition.
5. `run_history`: what a step keeps of the labels taken so far and the state, holds at the end of
   each run.
6. `run_view`: runs that agree on the steps that a view depends on end in the same view.
7. `countP_le_of_rank`: a rank that no step raises and some steps lower bounds how many of these
   there are in a run.
-/

/-- `step s l` is the state after the step `l`, if it can be taken in `s`. -/
structure Machine (State Label : Type) where
  init : State
  step : State → Label → Option State

namespace Machine

variable {S L S' L' : Type} {m : Machine S L} {m' : Machine S' L'}

def run (m : Machine S L) : S → List L → Option S
  | s, [] => some s
  | s, l :: ls => (m.step s l).bind fun s' => m.run s' ls

def Reachable (m : Machine S L) (s : S) : Prop := ∃ ls, m.run m.init ls = some s

/-- The same machine, where only the labels with `p` are taken. -/
def restrict (m : Machine S L) (p : L → Bool) : Machine S L where
  init := m.init
  step s l := if p l then m.step s l else none

theorem run_append (s : S) (ls ls' : List L) :
    m.run s (ls ++ ls') = (m.run s ls).bind fun s' => m.run s' ls' := by
  induction ls generalizing s with
  | nil => rfl
  | cons l ls ih =>
    rw [List.cons_append, run, run, Option.bind_assoc]
    exact congrArg _ (funext fun s' => ih s')

theorem Reachable.trans {s t : S} {ls : List L} (h : m.Reachable s) (hrun : m.run s ls = some t) :
    m.Reachable t := by
  obtain ⟨ls₀, h₀⟩ := h
  exact ⟨ls₀ ++ ls, by rw [run_append, h₀, Option.bind_some, hrun]⟩

theorem Reachable.step {s t : S} {l : L} (h : m.Reachable s) (hs : m.step s l = some t) :
    m.Reachable t :=
  @Reachable.trans S L m s t [l] h (by rw [run, hs, Option.bind_some, run])

/-- A property that each step keeps. -/
def Keeps (m : Machine S L) (inv : S → Prop) : Prop :=
  ∀ s l s', inv s → m.step s l = some s' → inv s'

/-- The condition `p` on the labels may be used in each step. -/
theorem run_invariant_on {inv : S → Prop} {p : L → Prop}
    (hstep : ∀ s l s', p l → inv s → m.step s l = some s' → inv s') {s t : S} {ls : List L}
    (hls : ∀ l ∈ ls, p l) (hs : inv s) (h : m.run s ls = some t) : inv t := by
  induction ls generalizing s with
  | nil => cases h; exact hs
  | cons l ls ih =>
    obtain ⟨s', hs', hrun⟩ := Option.bind_eq_some_iff.mp h
    obtain ⟨hl, hrest⟩ := List.forall_mem_cons.mp hls
    exact ih hrest (hstep s l s' hl hs hs') hrun

theorem run_invariant {inv : S → Prop} (hstep : m.Keeps inv) {s t : S} {ls : List L} (hs : inv s)
    (h : m.run s ls = some t) : inv t :=
  run_invariant_on (p := fun _ => True) (fun s l s' _ => hstep s l s') (fun _ _ => trivial) hs h

theorem Reachable.invariant {inv : S → Prop} (hstep : m.Keeps inv) (hinit : inv m.init) {s : S}
    (h : m.Reachable s) : inv s := by
  obtain ⟨ls, hrun⟩ := h
  exact run_invariant hstep hinit hrun

theorem countP_le_of_rank {inv : S → Prop} {p : L → Bool} {rank : S → Nat}
    (hstep : ∀ s l s', inv s → m.step s l = some s' →
      inv s' ∧ rank s' ≤ rank s ∧ (p l = true → rank s' < rank s)) {s t : S} {ls : List L}
    (hs : inv s) (h : m.run s ls = some t) : ls.countP p + rank t ≤ rank s := by
  induction ls generalizing s with
  | nil =>
    cases h
    exact Nat.le_of_eq (Nat.zero_add _)
  | cons l ls ih =>
    obtain ⟨s', hs', hrun⟩ := Option.bind_eq_some_iff.mp h
    obtain ⟨hinv, hle, hlt⟩ := hstep s l s' hs hs'
    have hrest : ls.countP p + rank t ≤ rank s' := ih hinv hrun
    rw [List.countP_cons]
    split
    · next hl =>
      have hlower := hlt hl
      omega
    · omega

theorem run_relation {r : S → S → Prop} (hrefl : ∀ s, r s s)
    (htrans : ∀ s s' s'', r s s' → r s' s'' → r s s'')
    (hstep : ∀ s l s', m.step s l = some s' → r s s') {s t : S} {ls : List L}
    (h : m.run s ls = some t) : r s t := by
  induction ls generalizing s with
  | nil => cases h; exact hrefl _
  | cons l ls ih =>
    obtain ⟨s', hs', hrun⟩ := Option.bind_eq_some_iff.mp h
    exact htrans _ _ _ (hstep s l s' hs') (ih hrun)

/-- The labels taken so far may be spoken of, and not only the state. -/
theorem run_history {inv : List L → S → Prop}
    (hstep : ∀ ls s l s', inv ls s → m.step s l = some s' → inv (ls ++ [l]) s') {before : List L}
    {s t : S} {ls : List L} (hs : inv before s) (h : m.run s ls = some t) :
    inv (before ++ ls) t := by
  induction ls generalizing before s with
  | nil =>
    cases h
    rwa [List.append_nil]
  | cons l ls ih =>
    obtain ⟨s', hs', hrun⟩ := Option.bind_eq_some_iff.mp h
    rw [List.append_cons]
    exact ih (hstep before s l s' hs hs') hrun

section View

variable {V : Type} {view : S → V} {sees : L → Bool}

theorem run_unseen (hskip : ∀ s l s', sees l = false → m.step s l = some s' → view s' = view s)
    {ls : List L} (hls : ls.filter sees = []) {s s' : S} (h : m.run s ls = some s') :
    view s' = view s := by
  induction ls generalizing s with
  | nil =>
    cases h
    rfl
  | cons l ls ih =>
    obtain ⟨s₁, hs₁, hrun⟩ := Option.bind_eq_some_iff.mp h
    rw [List.filter_eq_nil_iff] at hls
    have hl : sees l = false := Bool.eq_false_iff.mpr (hls l List.mem_cons_self)
    have hrest : ls.filter sees = [] :=
      List.filter_eq_nil_iff.mpr fun x hx => hls x (List.mem_cons_of_mem _ hx)
    exact (ih hrest hrun).trans (hskip s l s₁ hl hs₁)

/-- Two runs that agree on the steps that are seen end in the same view. -/
theorem run_view (hsame : ∀ s t l s' t', sees l = true → view s = view t →
      m.step s l = some s' → m.step t l = some t' → view s' = view t')
    (hskip : ∀ s l s', sees l = false → m.step s l = some s' → view s' = view s)
    {ls ls' : List L} (hagree : ls.filter sees = ls'.filter sees) {s t s' t' : S}
    (hview : view s = view t) (h : m.run s ls = some s') (h' : m.run t ls' = some t') :
    view s' = view t' := by
  induction ls generalizing ls' s t with
  | nil =>
    cases h
    exact hview.trans (run_unseen hskip hagree.symm h').symm
  | cons l ls ih =>
    obtain ⟨s₁, hs₁, hrun⟩ := Option.bind_eq_some_iff.mp h
    cases hl : sees l with
    | false =>
      rw [List.filter_cons_of_neg (Bool.eq_false_iff.mp hl)] at hagree
      exact ih hagree ((hskip s l s₁ hl hs₁).trans hview) hrun h'
    | true =>
      -- The other run takes this step after some that are not seen.
      rw [List.filter_cons_of_pos hl] at hagree
      obtain ⟨before, after, rfl, hbefore, -, hafter⟩ := List.filter_eq_cons_iff.mp hagree.symm
      rw [run_append] at h'
      obtain ⟨t₁, ht₁, hrun'⟩ := Option.bind_eq_some_iff.mp h'
      obtain ⟨t₂, ht₂, hrun'⟩ := Option.bind_eq_some_iff.mp hrun'
      have hunseen := run_unseen hskip (List.filter_eq_nil_iff.mpr hbefore) ht₁
      exact ih hafter.symm (hsame s t₁ l s₁ t₂ hl (hview.trans hunseen.symm) hs₁ ht₂) hrun hrun'

end View

/-- Each step of `m` is, for the part `f`, a run of `m'`. -/
def MapsTo (m : Machine S L) (m' : Machine S' L') (f : S → S') : Prop :=
  ∀ s l s', m.step s l = some s' → ∃ ls, m'.run (f s) ls = some (f s')

theorem run_map {f : S → S'} (hf : m.MapsTo m' f) {s t : S} {ls : List L}
    (h : m.run s ls = some t) : ∃ ls', m'.run (f s) ls' = some (f t) := by
  induction ls generalizing s with
  | nil => cases h; exact ⟨[], rfl⟩
  | cons l ls ih =>
    obtain ⟨s', hs', hrun⟩ := Option.bind_eq_some_iff.mp h
    obtain ⟨ls₁, h₁⟩ := hf s l s' hs'
    obtain ⟨ls₂, h₂⟩ := ih hrun
    exact ⟨ls₁ ++ ls₂, by rw [run_append, h₁, Option.bind_some, h₂]⟩

theorem Reachable.map {f : S → S'} (hf : m.MapsTo m' f) (hinit : f m.init = m'.init) {s : S}
    (h : m.Reachable s) : m'.Reachable (f s) := by
  obtain ⟨ls, hrun⟩ := h
  obtain ⟨ls', h'⟩ := run_map hf hrun
  exact ⟨ls', by rw [← hinit, h']⟩

/-- The same, where each step is only looked at in states that have an invariant. -/
theorem Reachable.map_on {inv : S → Prop} {f : S → S'} (hkeeps : m.Keeps inv) (hinv : inv m.init)
    (hf : ∀ s l s', inv s → m.step s l = some s' → ∃ ls, m'.run (f s) ls = some (f s'))
    (hinit : f m.init = m'.init) {s : S} (h : m.Reachable s) : m'.Reachable (f s) := by
  have hstep : m.Keeps fun s => inv s ∧ m'.Reachable (f s) := by
    rintro s l s' ⟨hs, hreach⟩ hl
    obtain ⟨ls, hls⟩ := hf s l s' hs hl
    exact ⟨hkeeps s l s' hs hl, hreach.trans hls⟩
  have hstart : m'.Reachable (f m.init) := ⟨[], congrArg some hinit.symm⟩
  exact (h.invariant hstep ⟨hinv, hstart⟩).2

theorem restrict_step {p : L → Bool} {s t : S} {l : L} (h : (m.restrict p).step s l = some t) :
    p l = true ∧ m.step s l = some t := by
  unfold restrict at h
  simp only at h
  split at h
  · next hp => exact ⟨hp, h⟩
  · cases h

/-- Every state of the run has the property, its start included. -/
def Visits (m : Machine S L) (p : S → Prop) : S → List L → Prop
  | s, [] => p s
  | s, l :: ls => p s ∧ ∀ s', m.step s l = some s' → m.Visits p s' ls

/-- Every step of the run meets the condition in the state where it is taken. -/
def Steps (m : Machine S L) (cond : S → L → Prop) : S → List L → Prop
  | _, [] => True
  | s, l :: ls => ∀ s', m.step s l = some s' → cond s l ∧ m.Steps cond s' ls

theorem Visits.start {p : S → Prop} {s : S} {ls : List L} (h : m.Visits p s ls) : p s := by
  cases ls with
  | nil => exact h
  | cons l ls => exact h.1

/-- What the steps that meet a condition keep, a run of such steps keeps. -/
theorem visits_of_steps {inv : S → Prop} {cond : S → L → Prop}
    (hstep : ∀ s l s', inv s → cond s l → m.step s l = some s' → inv s') {s : S} {ls : List L}
    (hinv : inv s) (h : m.Steps cond s ls) : m.Visits inv s ls := by
  induction ls generalizing s with
  | nil => exact hinv
  | cons l ls ih =>
    refine ⟨hinv, ?_⟩
    intro s' hs'
    obtain ⟨hcond, hrest⟩ := h s' hs'
    exact ih (hstep s l s' hinv hcond hs') hrest

theorem Visits.final {p : S → Prop} {s t : S} {ls : List L} (h : m.Visits p s ls)
    (hrun : m.run s ls = some t) : p t := by
  induction ls generalizing s with
  | nil => cases hrun; exact h
  | cons l ls ih =>
    obtain ⟨s', hs', hrun⟩ := Option.bind_eq_some_iff.mp hrun
    exact ih (h.2 s' hs') hrun

theorem Visits.imp {p q : S → Prop} (hpq : ∀ s, p s → q s) {s : S} {ls : List L}
    (h : m.Visits p s ls) : m.Visits q s ls := by
  induction ls generalizing s with
  | nil => exact hpq s h
  | cons l ls ih => exact ⟨hpq s h.1, fun s' hs' => ih (h.2 s' hs')⟩

theorem visits_iff_steps {inv good : S → Prop} {cond : S → L → Prop} (hkeeps : m.Keeps inv)
    (hstep : ∀ s l s', inv s → good s → m.step s l = some s' → (good s' ↔ cond s l))
    {s : S} {ls : List L} (hinv : inv s) (hgood : good s) :
    m.Visits good s ls ↔ m.Steps cond s ls := by
  induction ls generalizing s with
  | nil => exact ⟨fun _ => trivial, fun _ => hgood⟩
  | cons l ls ih =>
    constructor
    · rintro ⟨-, hvisits⟩ s' hs'
      have hgood' := (hvisits s' hs').start
      exact ⟨(hstep s l s' hinv hgood hs').mp hgood',
        (ih (hkeeps s l s' hinv hs') hgood').mp (hvisits s' hs')⟩
    · intro hsteps
      refine ⟨hgood, ?_⟩
      intro s' hs'
      obtain ⟨hcond, hrest⟩ := hsteps s' hs'
      exact (ih (hkeeps s l s' hinv hs') ((hstep s l s' hinv hgood hs').mpr hcond)).mpr hrest

/-- What a history has in a place it keeps when it grows. -/
theorem getElem?_of_prefix {α : Type} {l l' : List α} (h : l <+: l') {k : Nat} {a : α}
    (hk : l[k]? = some a) : l'[k]? = some a := by
  obtain ⟨rest, rfl⟩ := h
  rw [List.getElem?_append_left (List.getElem?_eq_some_iff.mp hk).1, hk]

end Machine
