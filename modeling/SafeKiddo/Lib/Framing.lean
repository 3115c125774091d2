import Mathlib.Data.List.Infix

/-!
# Framing

A stream is cut into messages. A message ends as soon as what has come in since the last one has
the property `ends`.

Results:
1. `flatten_messages`: nothing is lost.
2. `messages_append`: after whole messages the rest is framed alone.
3. `messages_of_prefix`: a part of one message has no message.
4. `foldl_of_not_ends`: a stretch in which no message ends.
-/

namespace Framing

variable {α : Type} (ends : List α → Bool)

/-- The messages so far, and what has come in since the last of them. -/
structure State (α : Type) where
  messages : List (List α)
  pending : List α

def feed (s : State α) (x : α) : State α :=
  if ends (s.pending ++ [x]) then ⟨s.messages ++ [s.pending ++ [x]], []⟩
  else ⟨s.messages, s.pending ++ [x]⟩

def frame (stream : List α) : State α := stream.foldl (feed ends) ⟨[], []⟩

def messages (stream : List α) : List (List α) := (frame ends stream).messages

/-- The stream ends with a message. -/
def Whole (stream : List α) : Prop := (frame ends stream).pending = []

def IsMessage (text : List α) : Prop := frame ends text = ⟨[text], []⟩

variable {ends} {a b text stream pending : List α}

theorem whole_nil : Whole ends [] := rfl

theorem feed_of_not_ends {ms : List (List α)} {x : α} (h : ends (pending ++ [x]) = false) :
    feed ends ⟨ms, pending⟩ x = ⟨ms, pending ++ [x]⟩ := by
  rw [feed, h]
  rfl

theorem feed_of_ends {ms : List (List α)} {x : α} (h : ends (pending ++ [x]) = true) :
    feed ends ⟨ms, pending⟩ x = ⟨ms ++ [pending ++ [x]], []⟩ := by
  rw [feed, h]
  rfl

/-- The messages so far have no influence on the next ones. -/
theorem foldl_feed (ms : List (List α)) (pending stream : List α) :
    stream.foldl (feed ends) ⟨ms, pending⟩ =
      ⟨ms ++ (stream.foldl (feed ends) ⟨[], pending⟩).messages,
        (stream.foldl (feed ends) ⟨[], pending⟩).pending⟩ := by
  induction stream generalizing ms pending with
  | nil => simp
  | cons x stream ih =>
    rw [List.foldl_cons, List.foldl_cons]
    cases h : ends (pending ++ [x]) with
    | false =>
      rw [feed_of_not_ends h, feed_of_not_ends h]
      exact ih ms (pending ++ [x])
    | true =>
      rw [feed_of_ends h, feed_of_ends h, ih, ih ([] ++ [pending ++ [x]])]
      simp

theorem frame_append_of_whole (ha : Whole ends a) :
    frame ends (a ++ b) = ⟨messages ends a ++ messages ends b, (frame ends b).pending⟩ := by
  have hframe : frame ends a = ⟨messages ends a, []⟩ := by
    rw [messages, ← ha]
  rw [frame, List.foldl_append, show a.foldl (feed ends) ⟨[], []⟩ = _ from hframe, foldl_feed]
  rfl

theorem messages_append (ha : Whole ends a) :
    messages ends (a ++ b) = messages ends a ++ messages ends b := by
  rw [messages, frame_append_of_whole ha]

theorem Whole.append (ha : Whole ends a) (hb : Whole ends b) : Whole ends (a ++ b) := by
  rw [Whole, frame_append_of_whole ha]
  exact hb

theorem IsMessage.whole (h : IsMessage ends text) : Whole ends text := by
  rw [Whole, h]

theorem IsMessage.messages_eq (h : IsMessage ends text) : messages ends text = [text] := by
  rw [messages, h]

theorem foldl_flatten (s : State α) (stream : List α) :
    (stream.foldl (feed ends) s).messages.flatten ++ (stream.foldl (feed ends) s).pending =
      s.messages.flatten ++ s.pending ++ stream := by
  induction stream generalizing s with
  | nil => simp
  | cons x stream ih =>
    rw [List.foldl_cons, ih, feed]
    split <;> simp

theorem flatten_messages (stream : List α) :
    (messages ends stream).flatten ++ (frame ends stream).pending = stream :=
  foldl_flatten ⟨[], []⟩ stream

theorem messages_prefix (a b : List α) : messages ends a <+: messages ends (a ++ b) := by
  rw [messages, messages, frame, frame, List.foldl_append]
  generalize a.foldl (feed ends) ⟨[], []⟩ = s
  rw [foldl_feed]
  exact List.prefix_append _ _

theorem messages_of_prefix (h : IsMessage ends (a ++ b)) (hb : b ≠ []) : messages ends a = [] := by
  have hpre : messages ends a <+: messages ends (a ++ b) := messages_prefix a b
  rw [h.messages_eq] at hpre
  by_contra hne
  obtain ⟨m, ms, hms⟩ := List.exists_cons_of_ne_nil hne
  have hm : m = a ++ b := by
    rw [hms] at hpre
    exact (List.cons_prefix_cons.mp hpre).1
  -- The message would be longer than the part of it.
  have hflatten : (messages ends a).flatten ++ (frame ends a).pending = a := flatten_messages a
  have hlength := congrArg List.length hflatten
  rw [hms, hm, List.flatten_cons, List.length_append, List.length_append, List.length_append]
    at hlength
  have hpos := List.length_pos_iff.mpr hb
  omega

/-- As long as there is no message, none can end. -/
theorem not_ends_of_messages (h : messages ends stream = []) {p : List α} (hne : p ≠ [])
    (hp : p <+: stream) : ends p = false := by
  have hnil : ∀ {q : List α}, q <+: stream → messages ends q = [] := by
    rintro q ⟨rest, rfl⟩
    exact List.prefix_nil.mp (h ▸ messages_prefix q rest)
  obtain ⟨q, x, rfl⟩ : ∃ q x, p = q ++ [x] := ⟨_, _, (List.dropLast_concat_getLast hne).symm⟩
  have hq : frame ends q = ⟨[], q⟩ := by
    have hflatten : (messages ends q).flatten ++ (frame ends q).pending = q := flatten_messages q
    have hnone := hnil ((List.prefix_append q [x]).trans hp)
    rw [hnone, List.flatten_nil, List.nil_append] at hflatten
    exact congrArg₂ State.mk hnone hflatten
  cases hends : ends (q ++ [x]) with
  | false => rfl
  | true =>
    have hone := hnil hp
    rw [messages, frame, List.foldl_append, List.foldl_cons, List.foldl_nil,
      show q.foldl (feed ends) ⟨[], []⟩ = _ from hq, feed_of_ends hends] at hone
    cases hone

/-- No message ends in `stream`. -/
theorem foldl_of_not_ends {ms : List (List α)}
    (h : ∀ p, p ≠ [] → p <+: stream → ends (pending ++ p) = false) :
    stream.foldl (feed ends) ⟨ms, pending⟩ = ⟨ms, pending ++ stream⟩ := by
  induction stream generalizing pending with
  | nil => simp
  | cons x stream ih =>
    have hx := h [x] (List.cons_ne_nil _ _) (List.cons_prefix_cons.mpr ⟨rfl, List.nil_prefix⟩)
    rw [List.foldl_cons, feed_of_not_ends hx, ih, List.append_assoc, List.singleton_append]
    intro p hp hpre
    rw [List.append_assoc]
    exact h ([x] ++ p) (List.cons_ne_nil _ _) (List.cons_prefix_cons.mpr ⟨rfl, hpre⟩)

end Framing
