import SafeKiddo.Lib.Lockstep
import SafeKiddo.LoadBalancing

/-!
# The backend as a service

The load balancer and its workers, as a client sees them: requests go in, and answers come out. What
is in between is a queue and any number of workers.

Results:
1. `holding_fits`: a worker answers a request that was received and has not been answered.
2. `balanceWorker_view`, `balanceClient_view`: what an iteration takes in and gives out.
3. `replies_step`: what the clients were sent, with what is on its way, are the replies of the
   workers to the requests that they were given.
-/

namespace SafeKiddo

open ByteString

namespace LoadBalancing

deriving instance DecidableEq for ClientRequest

/-! ## 1. The service -/

/-- The request of a reply that was sent to the clients, and the response in it. -/
def Served.answer? (e : Served) : Option (ClientRequest × Bytes) :=
  match e.request, e.reply with
  | some r, [_, _, _, response] => some (r, response)
  | _, _ => none

def service (s : State) : Service ClientRequest Bytes where
  received := s.handed.map (·.2)
  answered := s.served.filterMap Served.answer?

section Service

variable {s t : State} {w : Bytes} {r : ClientRequest}

theorem fst_answer? {e : Served}
    (h : ∃ r response, e.request = some r ∧ e.reply = r.reply response) :
    e.answer?.map Prod.fst = e.request := by
  obtain ⟨r, response, hrequest, hreply⟩ := h
  simp [Served.answer?, hrequest, hreply, ClientRequest.reply]

theorem fst_answered (h : Inv s) :
    (service s).answered.map Prod.fst = s.served.filterMap (·.request) := by
  rw [service, List.map_filterMap]
  exact List.filterMap_congr fun e he => fst_answer? (h.addressed e he)

/-- The requests of a worker among all. -/
theorem count_handed (handed : List (Bytes × ClientRequest)) (w : Bytes)
    (x : Option ClientRequest) :
    (handed.map fun p => (p.1, some p.2)).count (w, x) =
      ((handedTo handed w).map some).count x := by
  induction handed with
  | nil => rfl
  | cons p handed ih =>
    obtain ⟨w', r⟩ := p
    by_cases hw : w' = w
    · simp [handedTo, hw, List.count_cons, ih]
    · simp [handedTo, hw, ih]

theorem count_served (served : List Served) (w : Bytes) (x : Option ClientRequest) :
    (served.map fun e => (e.worker, e.request)).count (w, x) = (servedBy served w).count x := by
  induction served with
  | nil => rfl
  | cons e served ih =>
    by_cases hw : e.worker = w
    · simp [servedBy, hw, List.count_cons, ih]
    · simp [servedBy, hw, ih]

/-- What a worker holds was handed to it once more than it was served. -/
theorem holding_fits (h : Inv s) (hw : s.holding w = [r]) :
    (r :: (service s).answered.map Prod.fst).Subperm (service s).received := by
  have hpairs : ((w, some r) :: s.served.map fun e => (e.worker, e.request)).Subperm
      (s.handed.map fun p => (p.1, some p.2)) := by
    rw [List.subperm_ext_iff]
    rintro ⟨w', x⟩ -
    rw [List.count_cons, count_served, count_handed, h.ledger w', List.count_append]
    by_cases heq : (w, some r) = (w', x)
    · cases heq
      simp [hw]
    · simp [heq]
  obtain ⟨l, hperm, hsub⟩ := hpairs
  refine ⟨l.filterMap Prod.snd, ?_, ?_⟩
  · rw [fst_answered h]
    simpa [Function.comp_def] using hperm.filterMap Prod.snd
  · simpa [service, Function.comp_def] using hsub.filterMap Prod.snd

theorem holding_of_mem (h : Inv s) (hr : r ∈ s.holding w) : s.holding w = [r] := by
  by_cases hw : w ∈ s.announced
  · by_cases hqueue : w ∈ s.workerQueue
    · rw [(h.idle w hqueue).1] at hr
      cases hr
    · obtain ⟨r', hr'⟩ := h.holds hw hqueue
      rw [hr'] at hr ⊢
      rw [List.mem_singleton.mp hr]
  · rw [h.unannounced w hw] at hr
    cases hr

/-! ## 2. Iterations -/

/-- What the part for the workers socket takes in and gives out. -/
theorem balanceWorker_view (h : Inv s) {i : Nat} (ht : balanceWorker i s = some t) :
    t.fromClients = s.fromClients ∧ t.handed = s.handed ∧ t.workers = s.workers ∧
      t.fromWorkers = s.fromWorkers.eraseIdx i ∧
      ((t.served = s.served ∧ t.holding = s.holding ∧
          ∃ w, s.fromWorkers[i]? = some (readyMessage w)) ∨
        ∃ w r response, s.fromWorkers[i]? = some (w :: [] :: r.reply response) ∧
          s.holding w = [r] ∧ t.holding = Function.update s.holding w [] ∧
          t.served = s.served ++ [⟨w, some r, r.reply response⟩]) := by
  unfold balanceWorker at ht
  split at ht
  · cases ht
  · next m hi =>
    have hmem : m ∈ s.fromWorkers := List.mem_of_getElem? hi
    rcases h.ups m hmem with ⟨w, rfl, -⟩ | ⟨w, r, response, rfl, hw, hr⟩
    · rw [recvFromWorker_ready] at ht
      cases ht
      exact ⟨rfl, rfl, rfl, rfl, .inl ⟨rfl, rfl, w, hi⟩⟩
    · rw [recvFromWorker_reply hr] at ht
      simp only [hw, List.tail_cons, List.head?_cons] at ht
      cases ht
      exact ⟨rfl, rfl, rfl, rfl, .inr ⟨w, r, response, hi, hw, rfl, rfl⟩⟩

/-- What the part for the clients socket takes in. The worker that it goes to has sent nothing. -/
theorem balanceClient_view (h : Inv s) (hqueue : s.workerQueue ≠ []) {j : Nat}
    (ht : balanceClient j s = some t) :
    ∃ w r, s.fromClients[j]? = some r.frames ∧ heads w s.fromWorkers = 0 ∧
      t.fromClients = s.fromClients.eraseIdx j ∧ t.handed = s.handed ++ [(w, r)] ∧
      t.workers = s.workers ∧ t.fromWorkers = s.fromWorkers ∧ t.served = s.served ∧
      t.holding = Function.update s.holding w (s.holding w ++ [r]) := by
  unfold balanceClient at ht
  split at ht
  · cases ht
  · next m hj =>
    obtain ⟨r, rfl, -⟩ := h.clients m (List.mem_of_getElem? hj)
    obtain ⟨w, queue, hcons⟩ := List.exists_cons_of_ne_nil hqueue
    rw [recvFromClient_frames, hcons] at ht
    cases ht
    have hplace := h.place w
    have hle := LoadBalancingLemmas.started_le (s.workers w)
    rw [hcons, List.count_cons_self] at hplace
    exact ⟨w, r, hj, by omega, rfl, rfl, rfl, rfl, rfl, rfl⟩

/-- An iteration is one of its two parts, or both. -/
theorem iteration_cases {workerEvent clientEvent : Option Nat} (h : Inv s)
    (ht : iteration workerEvent clientEvent s = some t) :
    (∃ i, balanceWorker i s = some t) ∨
      (∃ j, s.workerQueue ≠ [] ∧ balanceClient j s = some t) ∨
      ∃ i j s', balanceWorker i s = some s' ∧ Inv s' ∧ s'.workerQueue ≠ [] ∧
        balanceClient j s' = some t := by
  unfold iteration at ht
  split at ht
  · cases ht
  · next hpoll =>
    split at ht
    · cases ht
    · exact .inl ⟨_, ht⟩
    · refine .inr (.inl ⟨_, fun hnil => hpoll ⟨rfl, ?_⟩, ht⟩)
      rw [hnil]
      rfl
    · obtain ⟨s', hs', ht⟩ := Option.bind_eq_some_iff.mp ht
      obtain ⟨h', hqueue⟩ := balanceWorker_inv h hs'
      exact .inr (.inr ⟨_, _, s', hs', h', hqueue, ht⟩)

/-! ## 3. The replies of the workers -/

/-- A reply on its way, with the request that its worker holds. -/
def flying (holding : Bytes → List ClientRequest) : Message → Option (ClientRequest × Bytes)
  | [w, _, _, _, _, response] => (holding w).head?.map fun r => (r, response)
  | _ => none

/-- What the workers have replied: what was sent to the clients, and what is on its way. -/
def replies (s : State) : List (ClientRequest × Bytes) :=
  (service s).answered ++ s.fromWorkers.filterMap (flying s.holding)

/-- What the step adds to the replies. -/
def newReplies (s : State) : Label → List (ClientRequest × Bytes)
  | .workerReply w response =>
    match s.workers w with
    | .serving r => [(r, response)]
    | _ => []
  | _ => []

/-- A message of another worker is not concerned. -/
theorem flying_update (holding : Bytes → List ClientRequest) (rs : List ClientRequest)
    {m : Message} (hm : m.head? ≠ some w) :
    flying (Function.update holding w rs) m = flying holding m := by
  unfold flying
  split
  · next w' _ _ _ _ response =>
    have hne : w' ≠ w := fun he => hm (congrArg some he)
    rw [Function.update_of_ne hne]
  · rfl

theorem flying_reply {holding : Bytes → List ClientRequest} (hw : holding w = [r])
    (response : Bytes) : flying holding (w :: [] :: r.reply response) = some (r, response) := by
  simp [flying, ClientRequest.reply, hw]

theorem heads_le (h : Inv s) (w : Bytes) : heads w s.fromWorkers ≤ 1 := by
  have hplace := h.place w
  have hle := LoadBalancingLemmas.started_le (s.workers w)
  omega

/-- The worker whose message is taken has no other one on its way. -/
theorem head_ne_of_eraseIdx (h : Inv s) {i : Nat} {m : Message} (hi : s.fromWorkers[i]? = some m)
    (hm : m.head? = some w) : ∀ m' ∈ s.fromWorkers.eraseIdx i, m'.head? ≠ some w := by
  have hone := heads_le h w
  rw [heads, (perm_eraseIdx hi).countP_eq, List.countP_cons, hm] at hone
  simpa using hone

theorem balanceWorker_replies (hinv : Inv s) {i : Nat} (ht : balanceWorker i s = some t) :
    (replies t).Perm (replies s) := by
  obtain ⟨-, -, -, hfrom, hview⟩ := balanceWorker_view hinv ht
  rcases hview with ⟨hserved, hholding, w, hi⟩ | ⟨w, r, response, hi, hw, hholding, hserved⟩
  · have hperm := (perm_eraseIdx hi).filterMap (flying s.holding)
    rw [List.filterMap_cons_none (by rfl)] at hperm
    rw [replies, replies, service, service, hserved, hholding, hfrom]
    exact hperm.symm.append_left _
  · -- The reply leaves the way and has been sent.
    have hperm := (perm_eraseIdx hi).filterMap (flying s.holding)
    rw [List.filterMap_cons_some (flying_reply hw response)] at hperm
    have hothers : (s.fromWorkers.eraseIdx i).filterMap (flying t.holding) =
        (s.fromWorkers.eraseIdx i).filterMap (flying s.holding) :=
      List.filterMap_congr fun m hm => by
        rw [hholding, flying_update _ _ (head_ne_of_eraseIdx hinv hi rfl m hm)]
    have hanswered : (service t).answered = (service s).answered ++ [(r, response)] := by
      rw [service, service, hserved, List.filterMap_append]
      rfl
    rw [replies, replies, hanswered, hfrom, hothers, List.append_assoc]
    exact hperm.symm.append_left _

theorem balanceClient_replies (hinv : Inv s) (hqueue : s.workerQueue ≠ []) {j : Nat}
    (ht : balanceClient j s = some t) : replies t = replies s := by
  obtain ⟨w, r, -, hnone, -, -, -, hfrom, hserved, hholding⟩ := balanceClient_view hinv hqueue ht
  have hothers : s.fromWorkers.filterMap (flying t.holding) =
      s.fromWorkers.filterMap (flying s.holding) :=
    List.filterMap_congr fun m hm => by
      rw [hholding, flying_update _ _ (LoadBalancingLemmas.heads_eq_zero.mp hnone m hm)]
  rw [replies, replies, service, service, hserved, hfrom, hothers]

/-- The step lemma. -/
theorem replies_step {l : Label} (hinv : Inv s) (ht : step s l = some t) :
    (replies t).Perm (replies s ++ newReplies s l) := by
  cases l with
  | workerReady w =>
    show (replies t).Perm (replies s ++ [])
    simp only [step] at ht
    split at ht
    · cases ht
      rw [replies, List.filterMap_append]
      exact List.Perm.of_eq (List.append_assoc _ _ _).symm
    · cases ht
  | clientRequest r =>
    show (replies t).Perm (replies s ++ [])
    simp only [step] at ht
    split at ht
    · cases ht
      rw [List.append_nil]
      exact List.Perm.refl _
    · cases ht
  | workerRecv i =>
    show (replies t).Perm (replies s ++ [])
    rw [List.append_nil]
    simp only [step, arrive] at ht
    split at ht
    · split at ht
      · split at ht <;> cases ht <;> exact List.Perm.refl _
      · cases ht
    · cases ht
  | workerReply w response =>
    simp only [step] at ht
    split at ht
    · next r hw =>
      cases ht
      rw [newReplies, hw, replies, replies, List.filterMap_append, List.append_assoc,
        List.filterMap_cons_some (flying_reply (hinv.serving w r hw).1 response)]
      exact List.Perm.refl _
    · cases ht
  | balance workerEvent clientEvent =>
    show (replies t).Perm (replies s ++ [])
    rw [List.append_nil]
    rcases iteration_cases hinv ht with ⟨i, hi⟩ | ⟨j, hqueue, hj⟩ |
      ⟨i, j, s', hi, hinv', hqueue, hj⟩
    · exact balanceWorker_replies hinv hi
    · rw [balanceClient_replies hinv hqueue hj]
    · rw [balanceClient_replies hinv' hqueue hj]
      exact balanceWorker_replies hinv hi

end Service

end LoadBalancing

end SafeKiddo
