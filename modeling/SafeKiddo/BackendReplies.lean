import SafeKiddo.BackendCalls

/-!
# Replies of the backend

The sockets of httpd are connections in lockstep with the backend, so a socket gets the replies to
its own requests, in order. What a call of `backendQuery` returns follows from the place of its
request.

Results:
1. `refines`: the machine of the calls refines connections in lockstep.
2. `own_reply`: what a call of `backendQuery` gets is what a worker has computed, in a round of the
   run, for the request that this call has sent.
3. `clean_sockets`: nothing of a free socket is on its way or with a worker.
-/

namespace SafeKiddo

open ByteString

namespace BackendCalls

open SocketPool (Socket)
open LoadBalancing (ClientRequest Message)

/-! ## 1. Connections in lockstep -/

section Lockstep

variable {Id : Type} [Fintype Id] [DecidableEq Id] {params : Params} {s s' : State Id}

/-- A request that has reached the backend, with its socket. -/
def arrived (addresses : Addresses) (m : Message) : Option (Socket × Bytes) :=
  (LoadBalancing.recvFromClient m).bind (clientOf addresses)

/-- The sockets are the connections and the balancer with its workers is the service. -/
def connections (addresses : Addresses) (s : State Id) :
    Lockstep.State Socket Bytes ClientRequest Bytes where
  sent := s.sent
  got := s.got
  toService := s.toBackend ++ s.balancer.fromClients.filterMap (arrived addresses)
  service := LoadBalancing.service s.balancer
  toClients := s.toClients.filterMap (responseAt addresses)

/-- A run of the connections. -/
def Connects (addresses : Addresses) (s s' : State Id) : Prop :=
  ∃ ls, (Lockstep.machine (clientOf addresses)).run (connections addresses s) ls =
    some (connections addresses s')

omit [Fintype Id] [DecidableEq Id] in
theorem Connects.of_eq {addresses : Addresses}
    (h : connections addresses s' = connections addresses s) : Connects addresses s s' :=
  ⟨[], congrArg some h.symm⟩

omit [Fintype Id] [DecidableEq Id] in
theorem Connects.trans {addresses : Addresses} {s'' : State Id} (h : Connects addresses s s')
    (h' : Connects addresses s' s'') : Connects addresses s s'' := by
  obtain ⟨ls, hls⟩ := h
  obtain ⟨ls', hls'⟩ := h'
  exact ⟨ls ++ ls', by rw [Machine.run_append, hls, Option.bind_some, hls']⟩

theorem arrived_frames (addresses : Addresses) (r : ClientRequest) :
    arrived addresses r.frames = clientOf addresses r := by
  rw [arrived, LoadBalancing.recvFromClient_frames, Option.bind_some]

/-- A reply goes to the socket of its request. -/
theorem responseAt_reply (addresses : Addresses) (r : ClientRequest) (zmqResponse : Bytes) :
    [r.reply zmqResponse].filterMap (responseAt addresses) =
      Lockstep.responseTo (clientOf addresses) r zmqResponse := by
  rw [Lockstep.responseTo, clientOf]
  by_cases hours : addresses.ours r.clientAddress1
  · cases hx : addresses.socketAt r.clientAddress2 with
    | none => simp [responseAt, ClientRequest.reply, hours, hx]
    | some x => simp [responseAt, ClientRequest.reply, hours, hx]
  · simp [responseAt, ClientRequest.reply, hours]

theorem filterMap_eraseIdx_none {α β : Type} {f : α → Option β} {l : List α} {i : Nat}
    (h : l[i]?.bind f = none) : ((l.eraseIdx i).filterMap f).Perm (l.filterMap f) := by
  cases ha : l[i]? with
  | none => rw [List.eraseIdx_of_length_le (List.getElem?_eq_none_iff.mp ha)]
  | some a =>
    have hperm := (LoadBalancing.perm_eraseIdx ha).filterMap f
    rw [ha, Option.bind_some] at h
    rw [List.filterMap_cons_none h] at hperm
    exact hperm.symm

theorem filterMap_eraseIdx_some {α β : Type} {f : α → Option β} {l : List α} {i : Nat} {b : β}
    (h : l[i]?.bind f = some b) : (l.filterMap f).Perm (b :: (l.eraseIdx i).filterMap f) := by
  obtain ⟨a, ha, hb⟩ := Option.bind_eq_some_iff.mp h
  have hperm := (LoadBalancing.perm_eraseIdx ha).filterMap f
  rwa [List.filterMap_cons_some hb] at hperm

omit [Fintype Id] in
/-- A request is sent. -/
theorem send_connects (protobuf : Protobuf) (t : Id) {x : Socket}
    (hlength : (s.sent x).length = (s.got x).length) (addresses : Addresses) :
    Connects addresses s (s.send protobuf t x) := by
  refine Lockstep.run_send (s := connections addresses s) hlength ?_
  simp only [connections, State.send, List.append_assoc]
  exact List.perm_append_comm.append_left _

omit [Fintype Id] [DecidableEq Id] in
/-- A worker's message: nothing new, or an answer. -/
theorem balanceWorker_connects (hinv : LoadBalancing.Inv s.balancer) {i : Nat}
    {balancer : LoadBalancing.State} (h : LoadBalancing.balanceWorker i s.balancer = some balancer)
    (addresses : Addresses) :
    Connects addresses s
      { s with balancer, toClients := s.toClients ++ sentToClients s.balancer balancer } := by
  obtain ⟨hclients, hhanded, -, -, hserved⟩ := LoadBalancing.balanceWorker_view hinv h
  rcases hserved with ⟨hserved, -⟩ | ⟨w, r, zmqResponse, -, hw, -, hserved⟩
  · refine .of_eq ?_
    simp only [connections, LoadBalancing.service, sentToClients, hclients, hhanded, hserved,
      List.drop_length, List.map_nil, List.append_nil]
  · have hnew : sentToClients s.balancer balancer = [r.reply zmqResponse] := by
      rw [sentToClients, hserved, List.drop_left]
      rfl
    have hservice : LoadBalancing.service balancer =
        { LoadBalancing.service s.balancer with
          answered := (LoadBalancing.service s.balancer).answered ++ [(r, zmqResponse)] } := by
      simp only [LoadBalancing.service, hhanded, hserved, List.filterMap_append]
      rfl
    obtain ⟨ls, hls⟩ := Lockstep.run_answer (s := connections addresses s)
      (clientOf addresses) zmqResponse (LoadBalancing.holding_fits hinv hw)
    refine ⟨ls, hls.trans (congrArg some ?_)⟩
    simp only [connections, hnew, List.filterMap_append, responseAt_reply, hclients, hservice]

omit [Fintype Id] [DecidableEq Id] in
/-- A client's message is received. -/
theorem balanceClient_connects (hinv : LoadBalancing.Inv s.balancer)
    (hqueue : s.balancer.workerQueue ≠ []) {j : Nat} {balancer : LoadBalancing.State}
    (h : LoadBalancing.balanceClient j s.balancer = some balancer) (addresses : Addresses) :
    Connects addresses s { s with balancer } := by
  obtain ⟨w, r, hj, -, hclients, hhanded, -, -, hserved, -⟩ :=
    LoadBalancing.balanceClient_view hinv hqueue h
  have hservice : LoadBalancing.service balancer =
      { LoadBalancing.service s.balancer with
        received := (LoadBalancing.service s.balancer).received ++ [r] } := by
    simp only [LoadBalancing.service, hhanded, hserved, List.map_append]
    rfl
  have hmessage : s.balancer.fromClients[j]?.bind (arrived addresses) = clientOf addresses r := by
    rw [hj, Option.bind_some, arrived_frames]
  cases hr : clientOf addresses r with
  | none =>
    have hperm := (filterMap_eraseIdx_none (hmessage.trans hr)).symm.append_left s.toBackend
    obtain ⟨ls, hls⟩ := Lockstep.run_other (s := connections addresses s) hr hperm
    refine ⟨ls, hls.trans (congrArg some ?_)⟩
    simp only [connections, hclients, hservice]
  | some xm =>
    have hperm := ((filterMap_eraseIdx_some (hmessage.trans hr)).append_left s.toBackend).trans
      List.perm_middle
    obtain ⟨ls, hls⟩ := Lockstep.run_receive (s := connections addresses s) hperm hr
    refine ⟨ls, hls.trans (congrArg some ?_)⟩
    simp only [connections, hclients, hservice]

omit [Fintype Id] [DecidableEq Id] in
theorem iteration_connects (hinv : LoadBalancing.Inv s.balancer)
    {workerEvent clientEvent : Option Nat} {balancer : LoadBalancing.State}
    (h : LoadBalancing.iteration workerEvent clientEvent s.balancer = some balancer)
    (addresses : Addresses) :
    Connects addresses s
      { s with balancer, toClients := s.toClients ++ sentToClients s.balancer balancer } := by
  rcases LoadBalancing.iteration_cases hinv h with ⟨i, hi⟩ | ⟨j, hqueue, hj⟩ |
    ⟨i, j, between, hi, hinv', hqueue, hj⟩
  · exact balanceWorker_connects hinv hi addresses
  · obtain ⟨-, -, -, -, -, -, -, -, hserved, -⟩ :=
      LoadBalancing.balanceClient_view hinv hqueue hj
    rw [sentToClients, hserved, List.drop_length, List.map_nil, List.append_nil]
    exact balanceClient_connects hinv hqueue hj addresses
  · obtain ⟨-, -, -, -, -, -, -, -, hserved, -⟩ :=
      LoadBalancing.balanceClient_view hinv' hqueue hj
    have hfirst := balanceWorker_connects hinv hi addresses
    rw [sentToClients, hserved]
    exact hfirst.trans (balanceClient_connects (s := { s with
      balancer := between, toClients := s.toClients ++ sentToClients s.balancer between })
      hinv' hqueue hj addresses)

omit [Fintype Id] [DecidableEq Id] in
/-- A request comes to the backend from a socket or from elsewhere. -/
theorem clientRequest_connects {r : ClientRequest} {balancer : LoadBalancing.State}
    (h : LoadBalancing.step s.balancer (.clientRequest r) = some balancer)
    {addresses : Addresses} {toBackend : List (Socket × Bytes)}
    (hperm : s.toBackend.Perm (toBackend ++ (clientOf addresses r).toList)) :
    Connects addresses s { s with toBackend, balancer } := by
  simp only [LoadBalancing.step] at h
  split at h
  · cases h
    have hnew : [r.frames].filterMap (arrived addresses) = (clientOf addresses r).toList := by
      cases hr : clientOf addresses r with
      | none => rw [List.filterMap_cons_none ((arrived_frames addresses r).trans hr)]; rfl
      | some xm => rw [List.filterMap_cons_some ((arrived_frames addresses r).trans hr)]; rfl
    refine Lockstep.run_reorderRequests (s := connections addresses s) ?_
    simp only [connections, List.filterMap_append, hnew]
    refine (hperm.append_right _).trans ?_
    rw [List.append_assoc]
    exact List.perm_append_comm.append_left _
  · cases h

omit [Fintype Id] [DecidableEq Id] in
/-- A worker that starts, receives or replies is not seen. -/
theorem worker_connects {balancer : LoadBalancing.State}
    (hclients : balancer.fromClients = s.balancer.fromClients)
    (hhanded : balancer.handed = s.balancer.handed)
    (hserved : balancer.served = s.balancer.served) (addresses : Addresses) :
    Connects addresses s { s with balancer } := by
  refine .of_eq ?_
  simp only [connections, LoadBalancing.service, hclients, hhanded, hserved]

omit [Fintype Id] in
theorem afterGetSocket_connects {pool : SocketPool.State Id} {t : Id}
    (h : SocketsOk params.protobuf pool s.request s.sent s.got)
    (hgets : GetsSocket pool (s.pool.threads t).place) (addresses : Addresses) :
    Connects addresses s (afterGetSocket params.protobuf t s) := by
  rcases afterGetSocket_cases params.protobuf hgets with ⟨x, hx, hafter⟩ | ⟨-, hafter | hafter⟩
  · rw [hafter]
    rw [hx] at hgets
    exact send_connects params.protobuf t (h.taken hgets) addresses
  · rw [hafter]
    exact .of_eq rfl
  · rw [hafter]
    exact .of_eq rfl

theorem step_connects {l : Label Id} (h : Inv params s) (hs : step params s l = some s') :
    Connects params.addresses s s' := by
  cases l with
  | enter t rq ok =>
    obtain ⟨pool, hpool, rfl⟩ := Option.map_eq_some_iff.mp hs
    cases SocketPool.stepped_of_step hpool with
    | getSocket ht =>
      obtain ⟨-, hgets⟩ := @getSocket_moves Id _ params.maxSockets s.pool t ok
      have hask := h.sockets.ask (t := t) (fun x hx => by cases ht.symm.trans hx)
        (fun u hu => Function.update_of_ne hu rq s.request)
      exact afterGetSocket_connects (s := { s with
        pool := SocketPool.getSocket params.maxSockets ok t s.pool
        request := Function.update s.request t rq }) hask hgets params.addresses
  | wake t notified =>
    obtain ⟨pool, hpool, rfl⟩ := Option.map_eq_some_iff.mp hs
    cases SocketPool.stepped_of_step hpool with
    | wake ht hwake =>
      exact afterGetSocket_connects (s := { s with pool }) h.sockets (wake_moves hwake).2
        params.addresses
  | reply t i =>
    simp only [step] at hs
    split at hs
    · next x y zmqResponse hx hmsg =>
      split at hs
      · next hxy =>
        subst hxy
        obtain ⟨pool, hpool, rfl⟩ := Option.map_eq_some_iff.mp hs
        exact Lockstep.run_get (s := connections params.addresses s)
          (filterMap_eraseIdx_some hmsg)
      · cases hs
    · cases hs
  | timeout t =>
    obtain ⟨pool, hpool, rfl⟩ := Option.map_eq_some_iff.mp hs
    exact .of_eq rfl
  | returnSocket t notified =>
    obtain ⟨pool, hpool, rfl⟩ := Option.map_eq_some_iff.mp hs
    exact .of_eq rfl
  | destroySocket t =>
    obtain ⟨pool, hpool, rfl⟩ := Option.map_eq_some_iff.mp hs
    exact .of_eq rfl
  | close t =>
    obtain ⟨pool, hpool, rfl⟩ := Option.map_eq_some_iff.mp hs
    exact .of_eq rfl
  | forward i clientAddress1 =>
    simp only [step] at hs
    split at hs
    · next x requestMsg hi =>
      split at hs
      · next hours =>
        obtain ⟨balancer, hbalancer, rfl⟩ := Option.map_eq_some_iff.mp hs
        refine clientRequest_connects hbalancer ?_
        rw [clientOf, if_pos hours, params.addresses.socketAt_address]
        exact (LoadBalancing.perm_eraseIdx hi).trans (List.perm_append_singleton _ _).symm
      · cases hs
    · cases hs
  | foreign rq =>
    simp only [step] at hs
    split at hs
    · cases hs
    · next hours =>
      obtain ⟨balancer, hbalancer, rfl⟩ := Option.map_eq_some_iff.mp hs
      refine clientRequest_connects hbalancer ?_
      rw [clientOf, if_neg hours, Option.toList_none, List.append_nil]
  | loseRequest i =>
    cases hs
    cases hi : s.toBackend[i]? with
    | none =>
      refine .of_eq ?_
      simp only [connections, List.eraseIdx_of_length_le (List.getElem?_eq_none_iff.mp hi)]
    | some xm =>
      exact Lockstep.run_loseRequest (s := connections params.addresses s)
        ((LoadBalancing.perm_eraseIdx hi).append_right _)
  | loseResponse i =>
    cases hs
    cases hi : s.toClients[i]?.bind (responseAt params.addresses) with
    | none =>
      exact Lockstep.run_reorderResponses (s := connections params.addresses s)
        (filterMap_eraseIdx_none hi).symm
    | some xr =>
      exact Lockstep.run_loseResponse (s := connections params.addresses s)
        (filterMap_eraseIdx_some hi)
  | workerReady w =>
    obtain ⟨balancer, hbalancer, rfl⟩ := Option.map_eq_some_iff.mp hs
    simp only [LoadBalancing.step] at hbalancer
    split at hbalancer
    · cases hbalancer
      exact worker_connects rfl rfl rfl params.addresses
    · cases hbalancer
  | workerRecv i =>
    obtain ⟨balancer, hbalancer, rfl⟩ := Option.map_eq_some_iff.mp hs
    simp only [LoadBalancing.step, LoadBalancing.arrive] at hbalancer
    split at hbalancer
    · split at hbalancer
      · split at hbalancer
        · cases hbalancer
          exact worker_connects rfl rfl rfl params.addresses
        · cases hbalancer
          exact worker_connects rfl rfl rfl params.addresses
      · cases hbalancer
    · cases hbalancer
  | workerReply w rq env conn webroot =>
    simp only [step] at hs
    split at hs
    · split at hs
      · obtain ⟨balancer, hbalancer, rfl⟩ := Option.map_eq_some_iff.mp hs
        simp only [LoadBalancing.step] at hbalancer
        split at hbalancer
        · cases hbalancer
          exact worker_connects rfl rfl rfl params.addresses
        · cases hbalancer
      · cases hs
    · cases hs
  | balance workerEvent clientEvent =>
    obtain ⟨balancer, hbalancer, rfl⟩ := Option.map_eq_some_iff.mp hs
    exact iteration_connects h.balancer hbalancer params.addresses

/-- The sockets are connections in lockstep with the backend. -/
theorem refines (h : (machine Id params).Reachable s) :
    (Lockstep.machine (clientOf params.addresses)).Reachable (connections params.addresses s) :=
  h.map_on (keeps_inv Id params) (inv_new params) (fun _ _ _ hinv hs => step_connects hinv hs) rfl

end Lockstep

/-! ## 2. Replies -/

section Replies

open SocketPool (Place)

variable {Id : Type} [Fintype Id] [DecidableEq Id] {params : Params} {s s' : State Id} {t : Id}

/-- What `backendQuery` returns of the place of its request. -/
inductive Returns (protobuf : Protobuf) (got : Socket → List Bytes) :
    Option (Socket × Nat) → Reply → Prop
  | noSocket : Returns protobuf got none .noSocket
  | timeout (p : Socket × Nat) : Returns protobuf got (some p) .timeout
  | got {x : Socket} {k : Nat} {zmqResponse : Bytes} (h : (got x)[k]? = some zmqResponse) :
      Returns protobuf got (some (x, k)) (parseZmqResponse protobuf zmqResponse)

structure ResultsOk (protobuf : Protobuf) (s : State Id) : Prop where
  results : ∀ t, done (s.pool.threads t).place → Returns protobuf s.got (s.sentOn t) (s.result t)
  calls : ∀ c ∈ s.calls, Returns protobuf s.got c.sentOn c.reply

theorem Stays.done {place place' : Place} (h : Stays place place')
    (hdone : BackendCalls.done place') : BackendCalls.done place := by
  rcases h with h | ⟨-, h⟩
  · exact h ▸ hdone
  · rw [h] at hdone
    cases hdone

theorem Returns.mono {protobuf : Protobuf} {got got' : Socket → List Bytes}
    {sentOn : Option (Socket × Nat)} {reply : Reply} (h : Returns protobuf got sentOn reply)
    (hgot : ∀ x, got x <+: got' x) : Returns protobuf got' sentOn reply := by
  cases h with
  | noSocket => exact .noSocket
  | timeout p => exact .timeout p
  | got h => exact .got (Machine.getElem?_of_prefix (hgot _) h)

omit [Fintype Id] [DecidableEq Id] in
/-- A step of a thread changes what this thread has sent and its result only. -/
theorem results_of_moves {pool : SocketPool.State Id} {sentOn : Id → Option (Socket × Nat)}
    {result : Id → Reply} {protobuf : Protobuf} (h : ResultsOk protobuf s)
    (hm : Moves t s.pool pool)
    (hothers : ∀ u, u ≠ t → sentOn u = s.sentOn u ∧ result u = s.result u)
    (ht : done (pool.threads t).place → Returns protobuf s.got (sentOn t) (result t)) :
    ∀ u, done (pool.threads u).place → Returns protobuf s.got (sentOn u) (result u) := by
  intro u hu
  rcases eq_or_ne u t with rfl | hne
  · exact ht hu
  · obtain ⟨hsentOn, hresult⟩ := hothers u hne
    rw [hsentOn, hresult]
    exact h.results u ((hm.others u hne).done hu)

omit [Fintype Id] [DecidableEq Id] in
theorem not_done_of_gets {pool : SocketPool.State Id} {place : Place}
    (h : GetsSocket pool place) : ¬ done place := by
  cases place with
  | answered x => exact h.elim
  | timedOut x => exact h.elim
  | closing x => exact h.elim
  | _ => exact Bool.false_ne_true

omit [Fintype Id] in
/-- The thread returns with a result of its place. -/
theorem ResultsOk.leave {pool : SocketPool.State Id} {request : Id → Request} {protobuf : Protobuf}
    (h : ResultsOk protobuf s) (hm : Moves t s.pool pool) (hdone : ¬ done (pool.threads t).place)
    {reply : Reply} (hreply : Returns protobuf s.got (s.sentOn t) reply) :
    ResultsOk protobuf (({ s with pool, request } : State Id).leave t reply) := by
  refine ⟨results_of_moves (s := s) h hm (fun u hu => ⟨Function.update_of_ne hu _ _, rfl⟩)
    fun hd => absurd hd hdone, fun c hc => ?_⟩
  rcases List.mem_append.mp hc with hc | hc
  · exact h.calls c hc
  · rw [List.mem_singleton.mp hc]
    exact hreply

/-- The step lemma for the results. -/
theorem keeps_results (hinv : Inv params s) (h : ResultsOk params.protobuf s) {l : Label Id}
    (hs : step params s l = some s') : ResultsOk params.protobuf s' := by
  cases effect_of_step hs with
  | @gets t request _ pool hpool hbefore hrequest hm hgets =>
    have hdone := not_done_of_gets hgets
    rcases afterGetSocket_cases (s := { s with pool, request }) params.protobuf hgets with
      ⟨x, -, hafter⟩ | ⟨-, hafter | hafter⟩
    · rw [hafter]
      exact ⟨results_of_moves (s := s) h hm (fun u hu => ⟨Function.update_of_ne hu _ _, rfl⟩)
        fun hd => absurd hd hdone, h.calls⟩
    · have hnone : s.sentOn t = none := Option.not_isSome_iff_eq_none.mp
        (by rw [hinv.places.placed, hbefore]; exact Bool.false_ne_true)
      rw [hafter]
      exact h.leave hm hdone (hnone ▸ .noSocket)
    · rw [hafter]
      exact ⟨results_of_moves (s := s) h hm (fun _ _ => ⟨rfl, rfl⟩) fun hd => absurd hd hdone,
        h.calls⟩
  | @replies t x _ pool toClients zmqResponse hpool hbefore hm hafter =>
    have hgot : ∀ y, s.got y <+: Function.update s.got x (s.got x ++ [zmqResponse]) y := by
      intro y
      rcases eq_or_ne y x with rfl | hne
      · rw [Function.update_self]
        exact List.prefix_append _ _
      · rw [Function.update_of_ne hne]
    refine ⟨fun u hu => ?_, fun c hc => (h.calls c hc).mono hgot⟩
    rcases eq_or_ne u t with rfl | hne
    · -- The place of the request is the place of this reply.
      simp only [Function.update_self, hinv.places.polling u x hbefore]
      exact .got (by rw [Function.update_self, List.getElem?_concat_length])
    · simp only [Function.update_of_ne hne]
      exact (h.results u ((hm.others u hne).done hu)).mono hgot
  | @timesOut t x _ pool hpool hbefore hm hafter =>
    refine ⟨results_of_moves (s := s) h hm (fun u hu => ⟨rfl, Function.update_of_ne hu _ _⟩)
      fun _ => ?_, h.calls⟩
    simp only [Function.update_self, hinv.places.polling t x hbefore]
    exact .timeout _
  | @destroys t x _ pool hpool hbefore hm hafter =>
    exact ⟨results_of_moves (s := s) h hm (fun _ _ => ⟨rfl, rfl⟩)
      fun _ => h.results t (by rw [hbefore]; rfl), h.calls⟩
  | @leaves t _ pool hpool hbefore hm hafter =>
    exact h.leave hm (by rw [hafter]; exact Bool.false_ne_true) (h.results t hbefore)
  | balances | computes | loses => exact ⟨h.results, h.calls⟩

theorem reachable_results (hreach : (machine Id params).Reachable s) :
    Inv params s ∧ ResultsOk params.protobuf s := by
  have hstep : (machine Id params).Keeps fun s => Inv params s ∧ ResultsOk params.protobuf s := by
    rintro s l s' ⟨hinv, h⟩ hs
    exact ⟨keeps_inv Id params s l s' hinv hs, keeps_results hinv h hs⟩
  exact hreach.invariant hstep
    ⟨inv_new params, fun _ h => absurd h Bool.false_ne_true, fun _ h => by cases h⟩

/-- What the backend has sent in reply to the requests of a socket, in order. -/
def repliesTo (addresses : Addresses) (s : State Id) (x : Socket) : List (ClientRequest × Bytes) :=
  Lockstep.servedTo (clientOf addresses) (LoadBalancing.service s.balancer) x

/-- The reply of the backend to the request at the place is what a worker has computed for this
request, in a round of the run. -/
def Computed (params : Params) (s : State Id) (request : Request) (x : Socket) (k : Nat)
    (rs : Response) : Prop :=
  ∃ w ∈ s.rounds,
    (repliesTo params.addresses s x)[k]? =
      some (w.clientRequest, params.protobuf.serializeResponse rs) ∧
    clientOf params.addresses w.clientRequest =
      some (x, params.protobuf.serializeRequest request) ∧
    w.request = request ∧ handleRequest w.env w.conn w.webroot w.request = some w.round ∧
    w.round.response = rs

/-- What a call gets is no socket, no reply in time to the request that it has sent, or what a
worker has computed for this request. -/
def OwnReply (params : Params) (s : State Id) (c : Call) : Prop :=
  match c.reply with
  | .noSocket => c.sentOn = none
  | .timeout => ∃ x k, c.sentOn = some (x, k) ∧
      (s.sent x)[k]? = some (params.protobuf.serializeRequest c.request)
  | .malformed => False
  | .response rs => ∃ x k, c.sentOn = some (x, k) ∧
      (s.sent x)[k]? = some (params.protobuf.serializeRequest c.request) ∧
      Computed params s c.request x k rs

omit [DecidableEq Id] in
/-- What the backend has sent was computed in a round. -/
theorem Inv.answered (h : Inv params s) :
    (LoadBalancing.service s.balancer).answered.Subperm
      (s.rounds.map (WorkerRound.answer params.protobuf)) :=
  (List.sublist_append_left _ _).subperm.trans h.replies.subperm

/-- What a socket gets in the place of a request was computed for the request. -/
theorem got_computed (hdocumented : params.protobuf.Documented)
    (hreach : (machine Id params).Reachable s) {request : Request} {x : Socket} {k : Nat}
    (hsent : (s.sent x)[k]? = some (params.protobuf.serializeRequest request))
    {zmqResponse : Bytes} (hgot : (s.got x)[k]? = some zmqResponse) :
    ∃ rs, parseZmqResponse params.protobuf zmqResponse = .response rs ∧
      Computed params s request x k rs := by
  have hinv := (reachable_results hreach).1
  obtain ⟨q, m, hserved, hclient, hm⟩ := Lockstep.got_answer (refines hreach) hgot
  obtain rfl : m = params.protobuf.serializeRequest request := by
    have hm : (s.sent x)[k]? = some m := hm
    exact Option.some.inj (hm.symm.trans hsent)
  -- The entry of the backend's history is the answer of a round.
  have hmem : (q, zmqResponse) ∈ (LoadBalancing.service s.balancer).answered :=
    (List.mem_filter.mp (List.mem_of_getElem? hserved)).1
  obtain ⟨w, hw, hanswer⟩ := List.mem_map.mp (hinv.answered.subset hmem)
  obtain ⟨rfl, rfl⟩ := Prod.mk.inj hanswer
  obtain ⟨hread, hround⟩ := hinv.sound w hw
  have hmsg : w.clientRequest.requestMsg = params.protobuf.serializeRequest request := by
    unfold clientOf at hclient
    split at hclient
    · obtain ⟨y, -, hy⟩ := Option.map_eq_some_iff.mp hclient
      exact congrArg Prod.snd hy
    · cases hclient
  have hrequest : request = w.request := hread request (by rw [hmsg, hdocumented.request])
  exact ⟨w.round.response, by rw [parseZmqResponse, hdocumented.response],
    w, hw, hserved, hclient, hrequest.symm, hround, rfl⟩

theorem ownReply_of_mem (hdocumented : params.protobuf.Documented)
    (hreach : (machine Id params).Reachable s) {c : Call} (hc : c ∈ s.calls) :
    OwnReply params s c := by
  obtain ⟨hinv, hresults⟩ := reachable_results hreach
  obtain ⟨request, sentOn, reply⟩ := c
  have hsent := hinv.sent.returned _ hc
  cases hresults.calls _ hc with
  | noSocket => rfl
  | timeout p => exact ⟨p.1, p.2, rfl, hsent p.1 p.2 rfl⟩
  | @got x k zmqResponse hgot =>
    obtain ⟨rs, hparse, hcomputed⟩ := got_computed hdocumented hreach (hsent x k rfl) hgot
    have hown : OwnReply params s ⟨request, some (x, k), .response rs⟩ :=
      ⟨x, k, rfl, hsent x k rfl, hcomputed⟩
    rw [← hparse] at hown
    exact hown

/-- What a call of `backendQuery` gets is computed for the request that it has sent: the places of
the requests are apart, and what the backend has sent was computed in as many rounds. -/
theorem own_reply (Id : Type) [Fintype Id] [DecidableEq Id] (params : Params)
    (hdocumented : params.protobuf.Documented) (s : State Id)
    (hreach : (machine Id params).Reachable s) :
    (∀ c ∈ s.calls, OwnReply params s c) ∧ (s.calls.filterMap (·.sentOn)).Nodup ∧
      (LoadBalancing.service s.balancer).answered.Subperm
        (s.rounds.map (WorkerRound.answer params.protobuf)) := by
  have hinv := (reachable_results hreach).1
  exact ⟨fun c hc => ownReply_of_mem hdocumented hreach hc, hinv.sent.nodup, hinv.answered⟩

/-- Sockets with texts of different lengths for addresses. -/
def twoParams : Params where
  protobuf := safekiddoProto
  addresses :=
    { address := fun x => List.replicate x (chr 's')
      socketAt := fun address => some address.length
      socketAt_address := fun x => by rw [List.length_replicate]
      ours := fun address => address = bytes "h" }
  maxSockets := 2

def olaRequest : Request := ⟨bytes "onet.pl/", bytes "ola", .intentionalRequest⟩

def alaRequest : Request := ⟨bytes "onet.pl/", bytes "ala", .intentionalRequest⟩

/-- Two calls whose requests overtake each other on the way, and whose replies do so too. -/
def twoCalls : List (Label Bool) :=
  [.workerReady (bytes "w1"), .workerReady (bytes "w2"), .balance (some 0) none,
    .balance (some 0) none, .enter false olaRequest true, .enter true alaRequest true,
    .forward 1 (bytes "h"), .forward 0 (bytes "h"), .balance none (some 0), .balance none (some 0),
    .workerRecv 1, .workerRecv 0,
    .workerReply (bytes "w1") alaRequest midnightClock smallDatabase ⟨fun _ => [], fun _ => []⟩,
    .workerReply (bytes "w2") olaRequest midnightClock smallDatabase ⟨fun _ => [], fun _ => []⟩,
    .balance (some 0) none, .balance (some 0) none, .reply false 1, .reply true 0,
    .returnSocket false none, .returnSocket true none]

def twoReplies : List Call :=
  [⟨olaRequest, some (0, 0), .response ⟨.resUrlBlockedCustom, some (7, bytes "school"),
      some (27, bytes "other")⟩⟩,
    ⟨alaRequest, some (1, 0), .response { result := .resOk }⟩]

theorem own_reply_two : ∃ s, (machine Bool twoParams).run State.new twoCalls = some s ∧
    s.calls = twoReplies ∧ s.rounds.map (·.request) = [alaRequest, olaRequest] ∧
    ((∀ c ∈ s.calls, OwnReply twoParams s c) ∧ (s.calls.filterMap (·.sentOn)).Nodup ∧
      (LoadBalancing.service s.balancer).answered.Subperm
        (s.rounds.map (WorkerRound.answer twoParams.protobuf))) := by
  have hrun : ((machine Bool twoParams).run State.new twoCalls).map
      (fun s => (s.calls, s.rounds.map (·.request))) =
        some (twoReplies, [alaRequest, olaRequest]) := by
    decide +kernel
  obtain ⟨s, hs, hcalls⟩ := Option.map_eq_some_iff.mp hrun
  obtain ⟨hcalls, hrounds⟩ := Prod.mk.inj hcalls
  exact ⟨s, hs, hcalls, hrounds,
    own_reply Bool twoParams safekiddoProto_documented s ⟨twoCalls, hs⟩⟩

end Replies

/-! ## 3. Free sockets -/

/-- Nothing of the socket is on its way or with a worker, and each of its requests was given to a
worker once. -/
structure Clean {Id : Type} (addresses : Addresses) (s : State Id) (x : Socket) : Prop where
  toBackend : ∀ requestMsg, (x, requestMsg) ∉ s.toBackend
  fromClients : ∀ m ∈ s.balancer.fromClients, ∀ requestMsg,
    arrived addresses m ≠ some (x, requestMsg)
  holding : ∀ w, ∀ r ∈ s.balancer.holding w, ∀ requestMsg,
    clientOf addresses r ≠ some (x, requestMsg)
  toClients : ∀ m ∈ s.toClients, ∀ zmqResponse, responseAt addresses m ≠ some (x, zmqResponse)
  handed : s.balancer.handed.filterMap
    (fun p => (clientOf addresses p.2).bind (Lockstep.onConn x)) = s.sent x

theorem clean_sockets (Id : Type) [Fintype Id] [DecidableEq Id] (params : Params) (s : State Id)
    (hreach : (machine Id params).Reachable s) :
    ∀ x ∈ s.pool.socketList, Clean params.addresses s x := by
  intro x hx
  have hinv := hreach.invariant (keeps_inv Id params) (inv_new params)
  have hlength := hinv.sockets.free x hx
  obtain ⟨-, -, hrequests, hwaiting, hcoming⟩ := Lockstep.idle (refines hreach) hlength
  rw [List.filterMap_eq_nil_iff] at hwaiting hcoming
  refine ⟨fun requestMsg hmem => ?_, fun m hm requestMsg harrived => ?_,
    fun w r hr requestMsg hclient => ?_, fun m hm zmqResponse hresponse => ?_, ?_⟩
  · have hnone := hwaiting _ (List.mem_append_left _ hmem)
    rw [Lockstep.onConn_self] at hnone
    cases hnone
  · have hnone := hwaiting _ (List.mem_append_right _ (List.mem_filterMap.mpr ⟨m, hm, harrived⟩))
    rw [Lockstep.onConn_self] at hnone
    cases hnone
  · have hfits := LoadBalancing.holding_fits hinv.balancer
      (LoadBalancing.holding_of_mem hinv.balancer hr)
    exact Lockstep.idle_unanswered (refines hreach) hlength hfits hclient
  · have hnone := hcoming _ (List.mem_filterMap.mpr ⟨m, hm, hresponse⟩)
    rw [Lockstep.onConn_self] at hnone
    cases hnone
  · refine Eq.trans ?_ hrequests
    simp only [Lockstep.requestsOf, connections, LoadBalancing.service, List.filterMap_map]
    rfl

theorem clean_sockets_two : ∃ s, (machine Bool twoParams).run State.new twoCalls = some s ∧
    s.pool.socketList = [1, 0] ∧ ∀ x ∈ s.pool.socketList, Clean twoParams.addresses s x := by
  have hrun : ((machine Bool twoParams).run State.new twoCalls).map (·.pool.socketList) =
      some [1, 0] := by
    decide +kernel
  obtain ⟨s, hs, hlist⟩ := Option.map_eq_some_iff.mp hrun
  exact ⟨s, hs, hlist, clean_sockets Bool twoParams s ⟨twoCalls, hs⟩⟩

end BackendCalls

end SafeKiddo
