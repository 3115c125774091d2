import Mathlib.Data.List.Perm.Subperm
import Mathlib.Logic.Function.Basic
import SafeKiddo.Lib.Machine

/-!
# Connections in lockstep

A service receives requests and answers each of them once at most, in any order. Connections send
requests to it over a network that keeps no order and may lose messages. A connection sends its next
request when it has got the response to its last one. The service also has requests that come from
no connection.

Results:
1. `ConnOk`: what holds of one connection between any two steps, with a lemma for each step.
2. `keeps_inv`: the step lemma.
3. `own_answers`, `got_answer`: what a connection gets are the answers to its requests, in order.
4. `idle`: nothing of a connection that has got all its responses is on its way.
-/

/-- What a service has received, and what it has answered. -/
structure Service (Q R : Type) where
  received : List Q
  answered : List (Q × R)

namespace Lockstep

/-! ## 1. The machine -/

/-- The history of the connections, the messages on their way, and the service. -/
structure State (C M Q R : Type) where
  sent : C → List M
  got : C → List R
  toService : List (C × M)
  service : Service Q R
  toClients : List (C × R)

inductive Label (C M Q R : Type)
  | send (c : C) (m : M)
  /-- The message at `i` reaches the service. -/
  | receive (i : Nat) (q : Q)
  /-- A request of no connection. -/
  | other (q : Q)
  | answer (q : Q) (r : R)
  | loseRequest (i : Nat)
  | loseResponse (i : Nat)
  | reorderRequests (toService : List (C × M))
  | reorderResponses (toClients : List (C × R))
  /-- The response at `i` reaches its connection. -/
  | get (i : Nat)

section Machine

variable {C M Q R : Type} [DecidableEq C] [DecidableEq M] [DecidableEq Q] [DecidableEq R]

def State.new : State C M Q R where
  sent _ := []
  got _ := []
  toService := []
  service := ⟨[], []⟩
  toClients := []

/-- The response goes to the connection of its request. -/
def responseTo (client : Q → Option (C × M)) (q : Q) (r : R) : List (C × R) :=
  ((client q).map fun cm => (cm.1, r)).toList

/-- `client q` is the connection of a request, with what was sent on it. -/
def step (client : Q → Option (C × M)) (s : State C M Q R) :
    Label C M Q R → Option (State C M Q R)
  | .send c m =>
    if (s.sent c).length = (s.got c).length then
      some { s with
        sent := Function.update s.sent c (s.sent c ++ [m])
        toService := s.toService ++ [(c, m)] }
    else none
  | .receive i q =>
    match s.toService[i]? with
    | some cm =>
      if client q = some cm then
        some { s with
          toService := s.toService.eraseIdx i
          service := { s.service with received := s.service.received ++ [q] } }
      else none
    | none => none
  | .other q =>
    if (client q).isNone then
      some { s with service := { s.service with received := s.service.received ++ [q] } }
    else none
  | .answer q r =>
    if (q :: s.service.answered.map Prod.fst).Subperm s.service.received then
      some { s with
        service := { s.service with answered := s.service.answered ++ [(q, r)] }
        toClients := s.toClients ++ responseTo client q r }
    else none
  | .loseRequest i => some { s with toService := s.toService.eraseIdx i }
  | .loseResponse i => some { s with toClients := s.toClients.eraseIdx i }
  | .reorderRequests toService =>
    if s.toService.Perm toService then some { s with toService } else none
  | .reorderResponses toClients =>
    if s.toClients.Perm toClients then some { s with toClients } else none
  | .get i =>
    match s.toClients[i]? with
    | some (c, r) =>
      some { s with
        got := Function.update s.got c (s.got c ++ [r])
        toClients := s.toClients.eraseIdx i }
    | none => none

def machine (client : Q → Option (C × M)) : Machine (State C M Q R) (Label C M Q R) :=
  ⟨State.new, step client⟩

end Machine

/-! ## 2. One connection -/

/-- A connection: what was sent and got, what the service has received from it and answered, and
what is on its way. -/
structure ConnOk {M R : Type} (sent : List M) (got : List R) (requests : List M)
    (answers : List (M × R)) (waiting : List M) (coming : List R) : Prop where
  one : sent.length ≤ got.length + 1
  requests_le : requests ++ waiting <+: sent
  answers_le : answers.map Prod.fst <+: requests
  got_le : got ++ coming <+: answers.map Prod.snd

namespace ConnOk

variable {M R : Type} {sent waiting waiting' requests : List M} {got coming coming' : List R}
  {answers : List (M × R)} {m : M} {r : R}

theorem new : ConnOk ([] : List M) ([] : List R) [] [] [] [] :=
  ⟨Nat.zero_le _, List.prefix_rfl, List.prefix_rfl, List.prefix_rfl⟩

/-- There is one request at most behind what was got. -/
theorem lengths (h : ConnOk sent got requests answers waiting coming) :
    got.length + coming.length ≤ answers.length ∧ answers.length ≤ requests.length ∧
      requests.length + waiting.length ≤ sent.length ∧ sent.length ≤ got.length + 1 := by
  have hgot := h.got_le.length_le
  have hanswers := h.answers_le.length_le
  have hrequests := h.requests_le.length_le
  rw [List.length_append, List.length_map] at hgot
  rw [List.length_map] at hanswers
  rw [List.length_append] at hrequests
  exact ⟨hgot, hanswers, hrequests, h.one⟩

theorem prefix_of_eq {α : Type} {l l' : List α} (h : l = l') : l <+: l' := h ▸ List.prefix_rfl

/-- All that was sent has been answered. -/
theorem send (h : ConnOk sent got requests answers waiting coming)
    (hlength : sent.length = got.length) (m : M) :
    ConnOk (sent ++ [m]) got requests answers (waiting ++ [m]) coming := by
  have hlengths := h.lengths
  have hall : requests ++ waiting = sent := by
    refine h.requests_le.eq_of_length ?_
    rw [List.length_append]
    omega
  refine ⟨?_, ?_, h.answers_le, h.got_le⟩
  · exact Nat.le_of_eq (by rw [List.length_append, List.length_singleton, hlength])
  · exact prefix_of_eq (by rw [← List.append_assoc, hall])

theorem eq_singleton_of_perm {α : Type} {l l' : List α} {a : α} (h : l.Perm (a :: l'))
    (hlength : l.length ≤ 1) : l = [a] ∧ l' = [] := by
  have hl' : l' = [] := by
    have hperm := h.length_eq
    rw [List.length_cons] at hperm
    exact List.eq_nil_of_length_eq_zero (by omega)
  subst hl'
  exact ⟨List.perm_singleton.mp h, rfl⟩

theorem prefix_of_sublist {α : Type} {l l' : List α} (h : l'.Sublist l)
    (hlength : l.length ≤ 1) : l' <+: l := by
  match l, l', h with
  | [], _, h => exact prefix_of_eq (List.sublist_nil.mp h)
  | _ :: [], [], _ => exact List.nil_prefix
  | _ :: [], _ :: _, h => exact (h.eq_of_length_le (Nat.le_add_left 1 _)) ▸ List.prefix_rfl
  | _ :: _ :: _, _, _ => exact absurd hlength (by simp)

theorem receive (h : ConnOk sent got requests answers waiting coming)
    (hwaiting : waiting.Perm (m :: waiting')) :
    ConnOk sent got (requests ++ [m]) answers waiting' coming := by
  have hlengths := h.lengths
  obtain ⟨rfl, rfl⟩ := eq_singleton_of_perm hwaiting (by omega)
  refine ⟨h.one, ?_, h.answers_le.trans (List.prefix_append _ _), h.got_le⟩
  rw [List.append_nil]
  exact h.requests_le

theorem loseRequest (h : ConnOk sent got requests answers waiting coming)
    (hwaiting : waiting'.Sublist waiting) :
    ConnOk sent got requests answers waiting' coming := by
  have hlengths := h.lengths
  have hpre : waiting' <+: waiting := prefix_of_sublist hwaiting (by omega)
  exact ⟨h.one, ((List.prefix_append_right_inj requests).mpr hpre).trans h.requests_le,
    h.answers_le, h.got_le⟩

/-- Only the last request can be answered, when all before it have been got. -/
theorem answer (h : ConnOk sent got requests answers waiting coming)
    (hfits : (m :: answers.map Prod.fst).Subperm requests) (r : R) :
    ConnOk sent got requests (answers ++ [(m, r)]) waiting (coming ++ [r]) := by
  have hlengths := h.lengths
  have hlength := hfits.length_le
  rw [List.length_cons, List.length_map] at hlength
  have hall : got ++ coming = answers.map Prod.snd := by
    refine h.got_le.eq_of_length ?_
    rw [List.length_append, List.length_map]
    omega
  refine ⟨h.one, h.requests_le, ?_, ?_⟩
  · obtain ⟨rest, hrest⟩ := h.answers_le
    have hone : rest.length = 1 := by
      have hsum := congrArg List.length hrest
      rw [List.length_append, List.length_map] at hsum
      omega
    obtain ⟨m', rfl⟩ := List.length_eq_one_iff.mp hone
    -- What is left of the requests is the one that is answered.
    have hperm : (m :: answers.map Prod.fst).Perm requests :=
      hfits.perm_of_length_le (Nat.le_of_eq (by
        rw [← hrest, List.length_append, List.length_singleton, List.length_cons]))
    rw [← hrest] at hperm
    have hswap := hperm.trans (List.perm_append_singleton m' (answers.map Prod.fst))
    have heq : [m].Perm [m'] := (List.perm_append_right_iff (answers.map Prod.fst)).mp hswap
    exact prefix_of_eq
      (by rw [List.map_append, ← hrest, List.singleton_perm_singleton.mp heq]; rfl)
  · exact prefix_of_eq (by rw [← List.append_assoc, hall, List.map_append]; rfl)

theorem get (h : ConnOk sent got requests answers waiting coming)
    (hcoming : coming.Perm (r :: coming')) :
    ConnOk sent (got ++ [r]) requests answers waiting coming' := by
  have hlengths := h.lengths
  obtain ⟨rfl, rfl⟩ := eq_singleton_of_perm hcoming (by omega)
  refine ⟨?_, h.requests_le, h.answers_le, ?_⟩
  · rw [List.length_append]
    exact Nat.le_succ_of_le h.one
  · rw [List.append_nil]
    exact h.got_le

theorem loseResponse (h : ConnOk sent got requests answers waiting coming)
    (hcoming : coming'.Sublist coming) :
    ConnOk sent got requests answers waiting coming' := by
  have hlengths := h.lengths
  have hpre : coming' <+: coming := prefix_of_sublist hcoming (by omega)
  exact ⟨h.one, h.requests_le, h.answers_le,
    ((List.prefix_append_right_inj got).mpr hpre).trans h.got_le⟩

theorem eq_of_perm {α : Type} {l l' : List α} (h : l.Perm l') (hlength : l.length ≤ 1) :
    l = l' := by
  match l, h with
  | [], h => exact h.nil_eq
  | [a], h => exact List.singleton_perm.mp h
  | _ :: _ :: _, _ => exact absurd hlength (by simp)

theorem reorder (h : ConnOk sent got requests answers waiting coming)
    (hwaiting : waiting.Perm waiting') (hcoming : coming.Perm coming') :
    ConnOk sent got requests answers waiting' coming' := by
  have hlengths := h.lengths
  rw [← eq_of_perm hwaiting (by omega), ← eq_of_perm hcoming (by omega)]
  exact h

end ConnOk

/-! ## 3. All connections -/

section Inv

variable {C M Q R : Type} [DecidableEq C] {client : Q → Option (C × M)} {s s' : State C M Q R}
  {c c' : C}

/-- What belongs to the connection. -/
def onConn {α : Type} (c : C) (x : C × α) : Option α := if x.1 = c then some x.2 else none

theorem onConn_self {α : Type} (c : C) (a : α) : onConn c (c, a) = some a := if_pos rfl

theorem onConn_of_ne {α : Type} (h : c' ≠ c) (a : α) : onConn c (c', a) = none := if_neg h

def sentBy (client : Q → Option (C × M)) (c : C) (q : Q) : Option M := (client q).bind (onConn c)

/-- The requests of the connection that the service has received. -/
def requestsOf (client : Q → Option (C × M)) (service : Service Q R) (c : C) : List M :=
  service.received.filterMap (sentBy client c)

/-- The answers of the service to the connection, each with its request. -/
def answersTo (client : Q → Option (C × M)) (service : Service Q R) (c : C) : List (M × R) :=
  service.answered.filterMap fun a => (sentBy client c a.1).map fun m => (m, a.2)

structure Inv (client : Q → Option (C × M)) (s : State C M Q R) : Prop where
  fits : (s.service.answered.map Prod.fst).Subperm s.service.received
  conn : ∀ c, ConnOk (s.sent c) (s.got c) (requestsOf client s.service c)
    (answersTo client s.service c) (s.toService.filterMap (onConn c))
    (s.toClients.filterMap (onConn c))

theorem fst_answersTo (client : Q → Option (C × M)) (service : Service Q R) (c : C) :
    (answersTo client service c).map Prod.fst =
      (service.answered.map Prod.fst).filterMap (sentBy client c) := by
  rw [answersTo, List.map_filterMap, List.filterMap_map]
  refine congrArg (fun f => service.answered.filterMap f) (funext fun a => ?_)
  cases h : sentBy client c a.1 with
  | none => simp [h]
  | some m => simp [h]

theorem requestsOf_append (client : Q → Option (C × M)) (service : Service Q R) (c : C) (q : Q) :
    requestsOf client { service with received := service.received ++ [q] } c =
      requestsOf client service c ++ (sentBy client c q).toList := by
  rw [requestsOf, requestsOf, List.filterMap_append]
  cases h : sentBy client c q with
  | none => simp [h]
  | some m => simp [h]

theorem answersTo_append (client : Q → Option (C × M)) (service : Service Q R) (c : C) (q : Q)
    (r : R) :
    answersTo client { service with answered := service.answered ++ [(q, r)] } c =
      answersTo client service c ++ ((sentBy client c q).map fun m => (m, r)).toList := by
  rw [answersTo, answersTo, List.filterMap_append]
  cases h : sentBy client c q with
  | none => simp [h]
  | some m => simp [h]

/-- Of the requests that fit, those of a connection fit. -/
theorem fits_own {service : Service Q R} {c : C} {q : Q} {m : M}
    (hfits : (q :: service.answered.map Prod.fst).Subperm service.received)
    (hq : sentBy client c q = some m) :
    (m :: (answersTo client service c).map Prod.fst).Subperm (requestsOf client service c) := by
  obtain ⟨l, hperm, hsub⟩ := hfits
  have hperm' := hperm.filterMap (sentBy client c)
  rw [List.filterMap_cons_some hq, ← fst_answersTo] at hperm'
  exact ⟨_, hperm', hsub.filterMap _⟩

/-- The message at `i` leaves the network. -/
theorem filterMap_eraseIdx {α : Type} {l : List (C × α)} {i : Nat} {x : C × α}
    (h : l[i]? = some x) (c : C) : (l.filterMap (onConn c)).Perm
      ((onConn c x).toList ++ (l.eraseIdx i).filterMap (onConn c)) := by
  obtain ⟨hi, rfl⟩ := List.getElem?_eq_some_iff.mp h
  have hperm := (List.getElem_cons_eraseIdx_perm hi).symm.filterMap (onConn c)
  refine hperm.trans (List.Perm.of_eq ?_)
  cases hx : onConn c l[i] with
  | none => exact List.filterMap_cons_none hx
  | some a => exact List.filterMap_cons_some hx

theorem toList_sentBy {q : Q} {m : M} (h : client q = some (c', m)) (c : C) :
    sentBy client c q = onConn c (c', m) := by
  rw [sentBy, h, Option.bind_some]

theorem inv_new : Inv client (State.new : State C M Q R) :=
  ⟨List.Subperm.refl _, fun _ => ConnOk.new⟩

theorem send_inv (h : Inv client s) (c : C) (m : M)
    (hlength : (s.sent c).length = (s.got c).length) :
    Inv client { s with
      sent := Function.update s.sent c (s.sent c ++ [m])
      toService := s.toService ++ [(c, m)] } := by
  refine ⟨h.fits, fun c' => ?_⟩
  have hconn := h.conn c'
  simp only [List.filterMap_append, List.filterMap_cons, List.filterMap_nil]
  by_cases hc : c = c'
  · subst hc
    rw [Function.update_self, onConn_self]
    exact hconn.send hlength m
  · rw [Function.update_of_ne (Ne.symm hc), onConn_of_ne hc]
    simpa using hconn

theorem receive_inv (h : Inv client s) {i : Nat} {q : Q} {cm : C × M}
    (hi : s.toService[i]? = some cm) (hq : client q = some cm) :
    Inv client { s with
      toService := s.toService.eraseIdx i
      service := { s.service with received := s.service.received ++ [q] } } := by
  obtain ⟨c, m⟩ := cm
  refine ⟨h.fits.trans (List.sublist_append_left _ _).subperm, fun c' => ?_⟩
  have hconn := h.conn c'
  have hperm := filterMap_eraseIdx hi c'
  have hanswers : answersTo client
      { s.service with received := s.service.received ++ [q] } c' =
      answersTo client s.service c' := rfl
  rw [requestsOf_append, hanswers, toList_sentBy hq]
  by_cases hc : c = c'
  · subst hc
    rw [onConn_self] at hperm ⊢
    exact hconn.receive hperm
  · rw [onConn_of_ne hc] at hperm ⊢
    rw [Option.toList_none, List.append_nil]
    exact hconn.loseRequest ((List.eraseIdx_sublist _ _).filterMap _)

theorem other_inv (h : Inv client s) {q : Q} (hq : client q = none) :
    Inv client
      { s with service := { s.service with received := s.service.received ++ [q] } } := by
  refine ⟨h.fits.trans (List.sublist_append_left _ _).subperm, fun c' => ?_⟩
  have hnone : sentBy client c' q = none := by rw [sentBy, hq, Option.bind_none]
  have hanswers : answersTo client
      { s.service with received := s.service.received ++ [q] } c' =
      answersTo client s.service c' := rfl
  rw [requestsOf_append, hanswers, hnone, Option.toList_none, List.append_nil]
  exact h.conn c'

theorem answer_inv (h : Inv client s) {q : Q}
    (hfits : (q :: s.service.answered.map Prod.fst).Subperm s.service.received) (r : R) :
    Inv client { s with
      service := { s.service with answered := s.service.answered ++ [(q, r)] }
      toClients := s.toClients ++ responseTo client q r } := by
  refine ⟨?_, fun c' => ?_⟩
  · rw [List.map_append]
    exact ((List.perm_append_singleton q _).subperm).trans hfits
  have hconn := h.conn c'
  have hrequests : requestsOf client
      { s.service with answered := s.service.answered ++ [(q, r)] } c' =
      requestsOf client s.service c' := rfl
  rw [answersTo_append, hrequests, List.filterMap_append, responseTo]
  cases hq : client q with
  | none => simpa [sentBy, hq] using hconn
  | some cm =>
    obtain ⟨c, m⟩ := cm
    rw [toList_sentBy hq]
    by_cases hc : c = c'
    · subst hc
      have hsent : sentBy client c q = some m := by rw [toList_sentBy hq, onConn_self]
      simpa [onConn_self] using hconn.answer (fits_own hfits hsent) r
    · simpa [onConn_of_ne hc] using hconn

theorem get_inv (h : Inv client s) {i : Nat} {c : C} {r : R} (hi : s.toClients[i]? = some (c, r)) :
    Inv client { s with
      got := Function.update s.got c (s.got c ++ [r])
      toClients := s.toClients.eraseIdx i } := by
  refine ⟨h.fits, fun c' => ?_⟩
  have hconn := h.conn c'
  have hperm := filterMap_eraseIdx hi c'
  by_cases hc : c = c'
  · subst hc
    rw [onConn_self] at hperm
    simp only [Function.update_self]
    exact hconn.get hperm
  · simp only [Function.update_of_ne (Ne.symm hc)]
    exact hconn.loseResponse ((List.eraseIdx_sublist _ _).filterMap _)

variable [DecidableEq M] [DecidableEq Q] [DecidableEq R]

/-- The step lemma. -/
theorem keeps_inv (client : Q → Option (C × M)) :
    (machine client : Machine (State C M Q R) _).Keeps (Inv client) := by
  intro s l s' h hs
  cases l with
  | send c m =>
    simp only [machine, step] at hs
    split at hs
    · next hlength =>
      cases hs
      exact send_inv h c m hlength
    · cases hs
  | receive i q =>
    simp only [machine, step] at hs
    split at hs
    · next cm hi =>
      split at hs
      · next hq =>
        cases hs
        exact receive_inv h hi hq
      · cases hs
    · cases hs
  | other q =>
    simp only [machine, step] at hs
    split at hs
    · next hq =>
      cases hs
      exact other_inv h (Option.isNone_iff_eq_none.mp hq)
    · cases hs
  | answer q r =>
    simp only [machine, step] at hs
    split at hs
    · next hfits =>
      cases hs
      exact answer_inv h hfits r
    · cases hs
  | loseRequest i =>
    cases hs
    exact ⟨h.fits, fun c => (h.conn c).loseRequest ((List.eraseIdx_sublist _ _).filterMap _)⟩
  | loseResponse i =>
    cases hs
    exact ⟨h.fits, fun c => (h.conn c).loseResponse ((List.eraseIdx_sublist _ _).filterMap _)⟩
  | reorderRequests toService =>
    simp only [machine, step] at hs
    split at hs
    · next hperm =>
      cases hs
      exact ⟨h.fits, fun c => (h.conn c).reorder (hperm.filterMap _) (.refl _)⟩
    · cases hs
  | reorderResponses toClients =>
    simp only [machine, step] at hs
    split at hs
    · next hperm =>
      cases hs
      exact ⟨h.fits, fun c => (h.conn c).reorder (.refl _) (hperm.filterMap _)⟩
    · cases hs
  | get i =>
    simp only [machine, step] at hs
    split at hs
    · next c r hi =>
      cases hs
      exact get_inv h hi
    · cases hs

theorem reachable_inv (h : (machine client : Machine (State C M Q R) _).Reachable s) :
    Inv client s :=
  h.invariant (keeps_inv client) inv_new

/-! ## 4. Own answers -/

/-- The requests that were answered are the first of those that were sent, what was got are the
first of the answers to them, and one request at most is open. -/
theorem own_answers (h : (machine client : Machine (State C M Q R) _).Reachable s) (c : C) :
    (answersTo client s.service c).map Prod.fst <+: s.sent c ∧
      s.got c <+: (answersTo client s.service c).map Prod.snd ∧
      (s.sent c).length ≤ (s.got c).length + 1 := by
  have hconn := (reachable_inv h).conn c
  exact ⟨hconn.answers_le.trans ((List.prefix_append _ _).trans hconn.requests_le),
    (List.prefix_append _ _).trans hconn.got_le, hconn.one⟩

/-- The answers of the service to the connection, each with its request as it was received. -/
def servedTo (client : Q → Option (C × M)) (service : Service Q R) (c : C) : List (Q × R) :=
  service.answered.filter fun a => (sentBy client c a.1).isSome

theorem getElem?_filterMap {α β : Type} {f : α → Option β} {l : List α} {k : Nat} {b : β}
    (h : (l.filterMap f)[k]? = some b) :
    ∃ a, (l.filter fun a => (f a).isSome)[k]? = some a ∧ f a = some b := by
  induction l generalizing k with
  | nil => cases h
  | cons a l ih =>
    cases hfa : f a with
    | none =>
      rw [List.filterMap_cons_none hfa] at h
      rw [List.filter_cons_of_neg (by simp [hfa])]
      exact ih h
    | some b' =>
      rw [List.filterMap_cons_some hfa] at h
      rw [List.filter_cons_of_pos (by simp [hfa])]
      cases k with
      | zero => exact ⟨a, rfl, hfa.trans h⟩
      | succ k => exact ih h

/-- What a connection gets in a place is the answer to what it has sent in that place. -/
theorem got_answer (h : (machine client : Machine (State C M Q R) _).Reachable s) {k : Nat} {r : R}
    (hr : (s.got c)[k]? = some r) :
    ∃ q m, (servedTo client s.service c)[k]? = some (q, r) ∧ client q = some (c, m) ∧
      (s.sent c)[k]? = some m := by
  obtain ⟨hsent, hgot, -⟩ := own_answers h c
  have hsnd := Machine.getElem?_of_prefix hgot hr
  rw [List.getElem?_map, Option.map_eq_some_iff] at hsnd
  obtain ⟨⟨m, r'⟩, hanswer, rfl⟩ := hsnd
  have hfst : ((answersTo client s.service c).map Prod.fst)[k]? = some m := by
    rw [List.getElem?_map, hanswer]
    rfl
  obtain ⟨⟨q, r'⟩, hserved, hown⟩ := getElem?_filterMap hanswer
  obtain ⟨m', hsentBy, heq⟩ := Option.map_eq_some_iff.mp hown
  cases heq
  refine ⟨q, m, ?_, ?_, Machine.getElem?_of_prefix hsent hfst⟩
  · simp only [Option.isSome_map] at hserved
    exact hserved
  · obtain ⟨⟨c', m'⟩, hclient, hc⟩ := Option.bind_eq_some_iff.mp hsentBy
    unfold onConn at hc
    split at hc
    · next hcc =>
      cases hc
      exact hcc ▸ hclient
    · cases hc

/-- A connection that has got as many responses as it has sent requests has got their answers, and
nothing of it is on its way. -/
theorem idle (h : (machine client : Machine (State C M Q R) _).Reachable s)
    (hlength : (s.sent c).length = (s.got c).length) :
    (answersTo client s.service c).map Prod.fst = s.sent c ∧
      (answersTo client s.service c).map Prod.snd = s.got c ∧
      requestsOf client s.service c = s.sent c ∧
      s.toService.filterMap (onConn c) = [] ∧ s.toClients.filterMap (onConn c) = [] := by
  have hconn := (reachable_inv h).conn c
  have hlengths := hconn.lengths
  obtain ⟨hanswers, hgot, -⟩ := own_answers h c
  refine ⟨hanswers.eq_of_length ?_, (hgot.eq_of_length ?_).symm,
    ((List.prefix_append _ _).trans hconn.requests_le).eq_of_length ?_,
    List.eq_nil_of_length_eq_zero ?_, List.eq_nil_of_length_eq_zero ?_⟩
  · rw [List.length_map]
    omega
  · rw [List.length_map]
    omega
  · omega
  · omega
  · omega

/-- No request of such a connection is with the service. -/
theorem idle_unanswered (h : (machine client : Machine (State C M Q R) _).Reachable s)
    (hlength : (s.sent c).length = (s.got c).length) {q : Q} {m : M}
    (hfits : (q :: s.service.answered.map Prod.fst).Subperm s.service.received) :
    client q ≠ some (c, m) := by
  intro hq
  have hsent : sentBy client c q = some m := by rw [toList_sentBy hq, onConn_self]
  obtain ⟨hanswers, -, hrequests, -⟩ := idle h hlength
  have hle := (fits_own hfits hsent).length_le
  rw [List.length_cons, hanswers, hrequests] at hle
  exact Nat.not_succ_le_self _ hle

end Inv

/-! ## 5. Runs -/

section Runs

variable {C M Q R : Type} [DecidableEq C] [DecidableEq M] [DecidableEq Q] [DecidableEq R]
  {client : Q → Option (C × M)} {s : State C M Q R}

theorem exists_getElem?_of_perm {α : Type} {l l' : List α} {a : α} (h : l.Perm (a :: l')) :
    ∃ i, l[i]? = some a ∧ (l.eraseIdx i).Perm l' := by
  obtain ⟨i, hi, hget⟩ := List.getElem_of_mem (h.mem_iff.mpr List.mem_cons_self)
  have hperm := List.getElem_cons_eraseIdx_perm hi
  rw [hget] at hperm
  exact ⟨i, List.getElem?_eq_some_iff.mpr ⟨hi, hget⟩, (hperm.trans h).cons_inv⟩

/-- A message reaches the service, whatever the order in the network. -/
theorem run_receive {q : Q} {cm : C × M} {rest : List (C × M)}
    (hperm : s.toService.Perm (cm :: rest)) (hq : client q = some cm) :
    ∃ ls, (machine client).run s ls = some { s with
      toService := rest
      service := { s.service with received := s.service.received ++ [q] } } := by
  obtain ⟨i, hi, hrest⟩ := exists_getElem?_of_perm hperm
  refine ⟨[.receive i q, .reorderRequests rest], ?_⟩
  simp [Machine.run, machine, step, hi, hq, hrest]

theorem run_get {c : C} {r : R} {rest : List (C × R)} (hperm : s.toClients.Perm ((c, r) :: rest)) :
    ∃ ls, (machine client).run s ls = some { s with
      got := Function.update s.got c (s.got c ++ [r])
      toClients := rest } := by
  obtain ⟨i, hi, hrest⟩ := exists_getElem?_of_perm hperm
  refine ⟨[.get i, .reorderResponses rest], ?_⟩
  simp [Machine.run, machine, step, hi, hrest]

theorem run_loseRequest {cm : C × M} {rest : List (C × M)}
    (hperm : s.toService.Perm (cm :: rest)) :
    ∃ ls, (machine client).run s ls = some { s with toService := rest } := by
  obtain ⟨i, -, hrest⟩ := exists_getElem?_of_perm hperm
  refine ⟨[.loseRequest i, .reorderRequests rest], ?_⟩
  simp [Machine.run, machine, step, hrest]

theorem run_loseResponse {cr : C × R} {rest : List (C × R)}
    (hperm : s.toClients.Perm (cr :: rest)) :
    ∃ ls, (machine client).run s ls = some { s with toClients := rest } := by
  obtain ⟨i, -, hrest⟩ := exists_getElem?_of_perm hperm
  refine ⟨[.loseResponse i, .reorderResponses rest], ?_⟩
  simp [Machine.run, machine, step, hrest]

theorem run_reorderRequests {toService : List (C × M)} (hperm : s.toService.Perm toService) :
    ∃ ls, (machine client).run s ls = some { s with toService } :=
  ⟨[.reorderRequests toService], by simp [Machine.run, machine, step, hperm]⟩

theorem run_reorderResponses {toClients : List (C × R)} (hperm : s.toClients.Perm toClients) :
    ∃ ls, (machine client).run s ls = some { s with toClients } :=
  ⟨[.reorderResponses toClients], by simp [Machine.run, machine, step, hperm]⟩

theorem run_send {c : C} {m : M} {toService : List (C × M)}
    (hlength : (s.sent c).length = (s.got c).length)
    (hperm : (s.toService ++ [(c, m)]).Perm toService) :
    ∃ ls, (machine client).run s ls = some { s with
      sent := Function.update s.sent c (s.sent c ++ [m])
      toService } := by
  refine ⟨[.send c m, .reorderRequests toService], ?_⟩
  simp [Machine.run, machine, step, hlength, hperm]

theorem run_other {q : Q} {toService : List (C × M)} (hq : client q = none)
    (hperm : s.toService.Perm toService) :
    ∃ ls, (machine client).run s ls = some { s with
      toService
      service := { s.service with received := s.service.received ++ [q] } } := by
  refine ⟨[.other q, .reorderRequests toService], ?_⟩
  simp [Machine.run, machine, step, hq, hperm]

theorem run_answer (client : Q → Option (C × M)) {q : Q} (r : R)
    (hfits : (q :: s.service.answered.map Prod.fst).Subperm s.service.received) :
    ∃ ls, (machine client).run s ls = some { s with
      service := { s.service with answered := s.service.answered ++ [(q, r)] }
      toClients := s.toClients ++ responseTo client q r } := by
  refine ⟨[.answer q r], ?_⟩
  simp only [Machine.run, machine, step, if_pos hfits, Option.bind_some]

end Runs

end Lockstep
