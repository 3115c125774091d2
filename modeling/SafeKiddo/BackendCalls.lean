import SafeKiddo.BackendService
import SafeKiddo.Httpd
import SafeKiddo.MessageFormat
import SafeKiddo.SocketPool

/-!
# Calls of the backend

All threads in `backendQuery` of `httpd.cc`, the socket pool, the proxy between its sockets and the
backend, and the load balancer with its workers, as one machine. A worker answers by a round of
`workerFunction`, with the clock, the database and webroot of that moment. The network may lose
messages and keeps no order. The backend may have other clients.

Results:
1. `effect_of_step`: the kinds of steps.
2. `Inv`: each request has a place of its own on a socket, and each reply of the backend was
   computed in a round; `keeps_inv` is its step lemma.
-/

namespace SafeKiddo

open ByteString

namespace BackendCalls

open SocketPool (Socket)
open LoadBalancing (ClientRequest Message)

/-! ## 1. State -/

/-- The addresses that ROUTER sockets give. No address is given twice. -/
structure Addresses where
  address : Socket → Bytes
  socketAt : Bytes → Option Socket
  socketAt_address : ∀ x, socketAt (address x) = some x
  /-- The addresses of the dealer of httpd at the backend. -/
  ours : Bytes → Bool

structure Params where
  protobuf : Protobuf
  addresses : Addresses
  maxSockets : Nat

deriving instance DecidableEq for Reply

/-- A call of `backendQuery` that has returned: its argument, the socket on which the request was
sent with the number of the requests sent before it, and the result. -/
structure Call where
  request : Request
  sentOn : Option (Socket × Nat)
  reply : Reply
  deriving DecidableEq

/-- A round of a worker: the request that it was given, what it has read of it, the clock, the
database and webroot of that moment, and what it has computed. -/
structure WorkerRound where
  worker : Bytes
  clientRequest : ClientRequest
  request : Request
  env : TimeEnv
  conn : DBConnection
  webroot : Webroot
  round : Round

/-- The pool with its threads, the sockets, the messages on their way, and the backend. The history
is what the calls have returned, what was sent and got on the sockets, and the rounds whose reply
was sent. -/
structure State (Id : Type) where
  pool : SocketPool.State Id
  /-- The argument of the call, where it was sent, and its `result`. -/
  request : Id → Request
  sentOn : Id → Option (Socket × Nat)
  result : Id → Reply
  calls : List Call
  sent : Socket → List Bytes
  got : Socket → List Bytes
  toBackend : List (Socket × Bytes)
  balancer : LoadBalancing.State
  rounds : List WorkerRound
  toClients : List Message

inductive Label (Id : Type)
  | enter (t : Id) (request : Request) (zmqSocketOk : Bool)
  | wake (t : Id) (notified : Option Id)
  /-- The message at `i` on the way to the clients arrives at the socket of the thread. -/
  | reply (t : Id) (i : Nat)
  | timeout (t : Id)
  | returnSocket (t : Id) (notified : Option Id)
  | destroySocket (t : Id)
  | close (t : Id)
  /-- `zmq_proxy` and the connection to the backend carry the message at `i`. -/
  | forward (i : Nat) (clientAddress1 : Bytes)
  /-- Another client of the backend sends a request. -/
  | foreign (request : ClientRequest)
  | loseRequest (i : Nat)
  | loseResponse (i : Nat)
  | workerReady (worker : Bytes)
  | workerRecv (i : Nat)
  /-- The worker has read `request`, and handles it. -/
  | workerReply (worker : Bytes) (request : Request) (env : TimeEnv) (conn : DBConnection)
      (webroot : Webroot)
  | balance (workerEvent clientEvent : Option Nat)

section Code

variable {Id : Type} [Fintype Id] [DecidableEq Id]

def State.new : State Id where
  pool := SocketPool.State.new
  request _ := ⟨[], [], .nonIntentionalRequest⟩
  sentOn _ := none
  result _ := .noSocket
  calls := []
  sent _ := []
  got _ := []
  toBackend := []
  balancer := LoadBalancing.State.new
  rounds := []
  toClients := []

/-! ## 2. The code -/

/-- `zmq_msg_send` of the request. -/
def State.send (protobuf : Protobuf) (s : State Id) (t : Id) (x : Socket) : State Id :=
  let zmqRequest := protobuf.serializeRequest (s.request t)
  { s with
    sentOn := Function.update s.sentOn t (some (x, (s.sent x).length))
    sent := Function.update s.sent x (s.sent x ++ [zmqRequest])
    toBackend := s.toBackend ++ [(x, zmqRequest)] }

/-- The call of the thread, with a result. -/
def State.call (s : State Id) (t : Id) (reply : Reply) : Call := ⟨s.request t, s.sentOn t, reply⟩

/-- `backendQuery` returns. -/
def State.leave (s : State Id) (t : Id) (reply : Reply) : State Id :=
  { s with calls := s.calls ++ [s.call t reply], sentOn := Function.update s.sentOn t none }

/-- `getSocket` has returned, or its thread waits. -/
def afterGetSocket (protobuf : Protobuf) (t : Id) (s : State Id) : State Id :=
  match (s.pool.threads t).place with
  | .polling x => s.send protobuf t x
  | .outside => s.leave t .noSocket
  | _ => s

def parseZmqResponse (protobuf : Protobuf) (zmqResponse : Bytes) : Reply :=
  match protobuf.parseResponse zmqResponse with
  | some rs => .response rs
  | none => .malformed

/-- A message that does not parse is read in part. -/
def ReadAs (protobuf : Protobuf) (requestMsg : Bytes) (request : Request) : Prop :=
  ∀ rq, protobuf.parseRequest requestMsg = some rq → rq = request

instance (protobuf : Protobuf) (requestMsg : Bytes) (request : Request) :
    Decidable (ReadAs protobuf requestMsg request) :=
  decidable_of_iff (∀ rq ∈ protobuf.parseRequest requestMsg, rq = request) Iff.rfl

/-- The socket of a request, with what was sent on it. -/
def clientOf (addresses : Addresses) (r : ClientRequest) : Option (Socket × Bytes) :=
  if addresses.ours r.clientAddress1 then
    (addresses.socketAt r.clientAddress2).map fun x => (x, r.requestMsg)
  else none

/-- The socket that a message of the balancer goes to, and what arrives there. -/
def responseAt (addresses : Addresses) : Message → Option (Socket × Bytes)
  | [clientAddress1, clientAddress2, [], zmqResponse] =>
    if addresses.ours clientAddress1 then
      (addresses.socketAt clientAddress2).map fun x => (x, zmqResponse)
    else none
  | _ => none

/-- What the balancer has sent to the clients between two states. -/
def sentToClients (balancer balancer' : LoadBalancing.State) : List Message :=
  (balancer'.served.drop balancer.served.length).map (·.reply)

/-! ## 3. The machine -/

def step (params : Params) (s : State Id) : Label Id → Option (State Id)
  | .enter t request zmqSocketOk =>
    (SocketPool.step params.maxSockets s.pool (.getSocket t zmqSocketOk)).map fun pool =>
      afterGetSocket params.protobuf t
        { s with pool, request := Function.update s.request t request }
  | .wake t notified =>
    (SocketPool.step params.maxSockets s.pool (.wake t notified)).map fun pool =>
      afterGetSocket params.protobuf t { s with pool }
  | .reply t i =>
    match (s.pool.threads t).place, s.toClients[i]?.bind (responseAt params.addresses) with
    | .polling x, some (y, zmqResponse) =>
      if x = y then
        (SocketPool.step params.maxSockets s.pool
          (.reply t (params.protobuf.parseResponse zmqResponse).isSome)).map fun pool =>
          { s with
            pool
            result := Function.update s.result t (parseZmqResponse params.protobuf zmqResponse)
            got := Function.update s.got x (s.got x ++ [zmqResponse])
            toClients := s.toClients.eraseIdx i }
      else none
    | _, _ => none
  | .timeout t =>
    (SocketPool.step params.maxSockets s.pool (.timeout t)).map fun pool =>
      { s with pool, result := Function.update s.result t .timeout }
  | .returnSocket t notified =>
    (SocketPool.step params.maxSockets s.pool (.returnSocket t notified)).map fun pool =>
      { s with pool }.leave t (s.result t)
  | .destroySocket t =>
    (SocketPool.step params.maxSockets s.pool (.destroySocket t)).map fun pool => { s with pool }
  | .close t =>
    (SocketPool.step params.maxSockets s.pool (.close t)).map fun pool =>
      { s with pool }.leave t (s.result t)
  | .forward i clientAddress1 =>
    match s.toBackend[i]? with
    | some (x, requestMsg) =>
      if params.addresses.ours clientAddress1 then
        (LoadBalancing.step s.balancer
          (.clientRequest ⟨clientAddress1, params.addresses.address x, requestMsg⟩)).map
          fun balancer => { s with toBackend := s.toBackend.eraseIdx i, balancer }
      else none
    | none => none
  | .foreign request =>
    if params.addresses.ours request.clientAddress1 then none
    else
      (LoadBalancing.step s.balancer (.clientRequest request)).map fun balancer =>
        { s with balancer }
  | .loseRequest i => some { s with toBackend := s.toBackend.eraseIdx i }
  | .loseResponse i => some { s with toClients := s.toClients.eraseIdx i }
  | .workerReady worker =>
    (LoadBalancing.step s.balancer (.workerReady worker)).map fun balancer => { s with balancer }
  | .workerRecv i =>
    (LoadBalancing.step s.balancer (.workerRecv i)).map fun balancer => { s with balancer }
  | .workerReply worker request env conn webroot =>
    match s.balancer.workers worker, handleRequest env conn webroot request with
    | .serving r, some round =>
      if ReadAs params.protobuf r.requestMsg request then
        (LoadBalancing.step s.balancer
          (.workerReply worker (params.protobuf.serializeResponse round.response))).map
          fun balancer =>
            { s with
              balancer
              rounds := s.rounds ++ [⟨worker, r, request, env, conn, webroot, round⟩] }
      else none
    | _, _ => none
  | .balance workerEvent clientEvent =>
    (LoadBalancing.step s.balancer (.balance workerEvent clientEvent)).map fun balancer =>
      { s with balancer, toClients := s.toClients ++ sentToClients s.balancer balancer }

def machine (Id : Type) [Fintype Id] [DecidableEq Id] (params : Params) :
    Machine (State Id) (Label Id) := ⟨State.new, step params⟩

end Code

/-! ## 4. Steps of the pool -/

section Pool

open SocketPool (Place Stepped stepped_of_step)

variable {Id : Type} [Fintype Id] [DecidableEq Id] {maxSockets : Nat}
  {s s' : SocketPool.State Id} {t : Id} {x : Socket}

/-- A thread that is not the one of the step stays where it is, or is notified. -/
def Stays (place place' : Place) : Prop :=
  place' = place ∨ (place = .waiting false ∧ place' = .waiting true)

/-- What a step of a thread leaves alone. -/
structure Moves (t : Id) (s s' : SocketPool.State Id) : Prop where
  free : ∀ x ∈ s'.socketList, x ∈ s.socketList ∨ (s.threads t).place = .answered x
  created : s.created ≤ s'.created
  others : ∀ u, u ≠ t → Stays (s.threads u).place (s'.threads u).place

omit [Fintype Id] in
theorem Moves.of_setThread {thread : SocketPool.Thread}
    (hfree : ∀ x ∈ s'.socketList, x ∈ s.socketList ∨ (s.threads t).place = .answered x)
    (hcreated : s.created ≤ s'.created)
    (hthreads : s'.threads = Function.update s.threads t thread) : Moves t s s' := by
  refine ⟨hfree, hcreated, fun u hu => .inl ?_⟩
  rw [hthreads, Function.update_of_ne hu]

theorem notifyOne_moves {notified : Option Id} (h : SocketPool.notifyOne notified s = some s') :
    s'.socketList = s.socketList ∧ s'.created = s.created ∧
      ∀ u, Stays (s.threads u).place (s'.threads u).place := by
  unfold SocketPool.notifyOne at h
  split at h
  · next v =>
    split at h
    · next hv =>
      cases h
      refine ⟨rfl, rfl, fun u => ?_⟩
      rcases eq_or_ne u v with rfl | hne
      · exact .inr ⟨hv, by simp [SocketPool.State.setThread]⟩
      · exact .inl (by simp [SocketPool.State.setThread, Function.update_of_ne hne])
    · cases h
  · split at h
    · cases h
      exact ⟨rfl, rfl, fun _ => .inl rfl⟩
    · cases h

theorem Moves.notify {s₁ : SocketPool.State Id} (h : Moves t s s₁) {notified : Option Id}
    (hs : SocketPool.notifyOne notified s₁ = some s') (ht : (s₁.threads t).place ≠ .waiting false) :
    Moves t s s' ∧ (s'.threads t).place = (s₁.threads t).place := by
  obtain ⟨hlist, hcreated, hstays⟩ := notifyOne_moves hs
  refine ⟨⟨hlist ▸ h.free, hcreated ▸ h.created, fun u hu => ?_⟩, ?_⟩
  · rcases hstays u with hu' | ⟨hfalse, htrue⟩
    · rw [Stays, hu']
      exact h.others u hu
    · rcases h.others u hu with hsame | ⟨-, htrue'⟩
      · exact .inr ⟨hsame ▸ hfalse, htrue⟩
      · cases hfalse.symm.trans htrue'
  · rcases hstays t with ht' | ⟨hfalse, -⟩
    · exact ht'
    · exact absurd hfalse ht

/-- Where `getSocket` leaves its thread. -/
def GetsSocket (s : SocketPool.State Id) : Place → Prop
  | .polling x => x ∈ s.socketList ∨ x = s.created
  | .outside => True
  | .waiting _ => True
  | _ => False

omit [Fintype Id] in
theorem getSocket_moves (ok : Bool) :
    Moves t s (SocketPool.getSocket maxSockets ok t s) ∧
      GetsSocket s ((SocketPool.getSocket maxSockets ok t s).threads t).place := by
  have hself : ∀ thread : SocketPool.Thread,
      ((s.setThread t thread).threads t).place = thread.place :=
    fun thread => by simp [SocketPool.State.setThread]
  unfold SocketPool.getSocket
  split
  · next hlist =>
    split
    · refine ⟨.of_setThread (fun x hx => .inl hx) (Nat.le_succ _) rfl, ?_⟩
      rw [SocketPool.State.take, hself]
      exact .inr rfl
    · split
      · refine ⟨.of_setThread (fun x hx => .inl hx) (Nat.le_refl _) rfl, ?_⟩
        rw [SocketPool.State.leave, hself]
        trivial
      · refine ⟨.of_setThread (fun x hx => .inl hx) (Nat.le_refl _) rfl, ?_⟩
        rw [hself]
        trivial
  · next x rest hlist =>
    refine ⟨.of_setThread (fun y hy => .inl ?_) (Nat.le_refl _) rfl, ?_⟩
    · rw [hlist]
      exact List.mem_cons_of_mem _ hy
    · rw [SocketPool.State.take, hself]
      exact .inl (hlist ▸ List.mem_cons_self)

omit [Fintype Id] in
theorem take_moves {rest : List Socket} (hlist : s.socketList = x :: rest) :
    Moves t s { s.take t x with socketList := rest } ∧
      (({ s.take t x with socketList := rest } : SocketPool.State Id).threads t).place =
        .polling x := by
  refine ⟨.of_setThread (fun y hy => .inl ?_) (Nat.le_refl _) rfl, ?_⟩
  · rw [hlist]
    exact List.mem_cons_of_mem _ hy
  · simp [SocketPool.State.take, SocketPool.State.setThread]

theorem wake_moves {notified : Option Id} (hs : SocketPool.wake t notified s = some s') :
    Moves t s s' ∧ GetsSocket s (s'.threads t).place := by
  unfold SocketPool.wake at hs
  split at hs
  · cases hs
    refine ⟨.of_setThread (fun x hx => .inl hx) (Nat.le_refl _) rfl, ?_⟩
    simp [SocketPool.State.setThread, GetsSocket]
  · next x hlist =>
    cases hs
    obtain ⟨hmoves, hplace⟩ := take_moves (t := t) hlist
    refine ⟨hmoves, ?_⟩
    rw [hplace]
    exact .inl (hlist ▸ List.mem_cons_self)
  · next x rest _ hlist =>
    obtain ⟨hmoves, hplace⟩ := take_moves (t := t) hlist
    obtain ⟨hmoves', hplace'⟩ := hmoves.notify hs (fun hp => by cases hplace.symm.trans hp)
    refine ⟨hmoves', ?_⟩
    rw [hplace', hplace]
    exact .inl (hlist ▸ List.mem_cons_self)

theorem returnSocket_moves {notified : Option Id} (ht : (s.threads t).place = .answered x)
    (hs : SocketPool.returnSocket t x notified s = some s') :
    Moves t s s' ∧ (s'.threads t).place = .outside := by
  have hmoves : ∀ call, Moves t s { s.leave t call with socketList := x :: s.socketList } := by
    intro call
    refine .of_setThread (fun y hy => ?_) (Nat.le_refl _) rfl
    rcases List.mem_cons.mp hy with rfl | hy
    · exact .inr ht
    · exact .inl hy
  have hplace : ∀ call, (({ s.leave t call with socketList := x :: s.socketList } :
      SocketPool.State Id).threads t).place = .outside := fun call => by
    simp [SocketPool.State.leave, SocketPool.State.setThread]
  unfold SocketPool.returnSocket at hs
  simp only at hs
  split at hs
  · obtain ⟨hmoves', hplace'⟩ := (hmoves _).notify hs (fun hp => by cases (hplace _).symm.trans hp)
    exact ⟨hmoves', hplace'.trans (hplace _)⟩
  · cases hs
    exact ⟨hmoves _, hplace _⟩

omit [Fintype Id] in
theorem destroySocket_moves (ht : (s.threads t).place = .timedOut x) :
    Moves t s (SocketPool.destroySocket t x s) ∧
      (((SocketPool.destroySocket t x s).threads t).place = .closing x ∨
        ((SocketPool.destroySocket t x s).threads t).place = .timedOut x) := by
  unfold SocketPool.destroySocket
  split
  · exact ⟨.of_setThread (fun y hy => .inl hy) (Nat.le_refl _) rfl,
      .inl (by simp [SocketPool.State.setThread])⟩
  · exact ⟨⟨fun y hy => .inl hy, Nat.le_refl _, fun _ _ => .inl rfl⟩, .inr ht⟩

end Pool

/-! ## 5. What a step does -/

section Effects

open SocketPool (Place stepped_of_step)

/-- The thread has sent its request and has not returned. -/
def hasSent : Place → Bool
  | .outside => false
  | .waiting _ => false
  | _ => true

/-- The thread has its result. -/
def done : Place → Bool
  | .answered _ => true
  | .timedOut _ => true
  | .closing _ => true
  | _ => false

variable {Id : Type} [Fintype Id] [DecidableEq Id] {params : Params} {s s' : State Id}

/-- The kinds of steps. -/
inductive Effect (params : Params) (s : State Id) : State Id → Prop
  | gets {t : Id} {request : Id → Request} {l : SocketPool.Label Id} {pool : SocketPool.State Id}
      (hpool : SocketPool.step params.maxSockets s.pool l = some pool)
      (hbefore : hasSent (s.pool.threads t).place = false)
      (hrequest : ∀ u, u ≠ t → request u = s.request u) (hmoves : Moves t s.pool pool)
      (hgets : GetsSocket s.pool (pool.threads t).place) :
      Effect params s (afterGetSocket params.protobuf t { s with pool, request })
  | replies {t : Id} {x : Socket} {l : SocketPool.Label Id} {pool : SocketPool.State Id}
      {toClients : List Message} (zmqResponse : Bytes)
      (hpool : SocketPool.step params.maxSockets s.pool l = some pool)
      (hbefore : (s.pool.threads t).place = .polling x) (hmoves : Moves t s.pool pool)
      (hafter : (pool.threads t).place = .answered x) :
      Effect params s
        { s with
          pool
          result := Function.update s.result t (parseZmqResponse params.protobuf zmqResponse)
          got := Function.update s.got x (s.got x ++ [zmqResponse])
          toClients }
  | timesOut {t : Id} {x : Socket} {l : SocketPool.Label Id} {pool : SocketPool.State Id}
      (hpool : SocketPool.step params.maxSockets s.pool l = some pool)
      (hbefore : (s.pool.threads t).place = .polling x) (hmoves : Moves t s.pool pool)
      (hafter : (pool.threads t).place = .timedOut x) :
      Effect params s { s with pool, result := Function.update s.result t .timeout }
  | destroys {t : Id} {x : Socket} {l : SocketPool.Label Id} {pool : SocketPool.State Id}
      (hpool : SocketPool.step params.maxSockets s.pool l = some pool)
      (hbefore : (s.pool.threads t).place = .timedOut x) (hmoves : Moves t s.pool pool)
      (hafter : (pool.threads t).place = .closing x ∨ (pool.threads t).place = .timedOut x) :
      Effect params s { s with pool }
  | leaves {t : Id} {l : SocketPool.Label Id} {pool : SocketPool.State Id}
      (hpool : SocketPool.step params.maxSockets s.pool l = some pool)
      (hbefore : done (s.pool.threads t).place = true) (hmoves : Moves t s.pool pool)
      (hafter : (pool.threads t).place = .outside) :
      Effect params s (({ s with pool } : State Id).leave t (s.result t))
  | balances {l : LoadBalancing.Label} {balancer : LoadBalancing.State}
      {toBackend : List (Socket × Bytes)} {toClients : List Message}
      (hbalancer : LoadBalancing.step s.balancer l = some balancer)
      (hl : LoadBalancing.newReplies s.balancer l = []) :
      Effect params s { s with balancer, toBackend, toClients }
  | computes {w : WorkerRound} {balancer : LoadBalancing.State}
      (hserving : s.balancer.workers w.worker = .serving w.clientRequest)
      (hread : ReadAs params.protobuf w.clientRequest.requestMsg w.request)
      (hround : handleRequest w.env w.conn w.webroot w.request = some w.round)
      (hbalancer : LoadBalancing.step s.balancer
        (.workerReply w.worker (params.protobuf.serializeResponse w.round.response)) =
          some balancer) :
      Effect params s { s with balancer, rounds := s.rounds ++ [w] }
  | loses {toBackend : List (Socket × Bytes)} {toClients : List Message} :
      Effect params s { s with toBackend, toClients }

theorem effect_of_step {l : Label Id} (hs : step params s l = some s') : Effect params s s' := by
  cases l with
  | enter t rq ok =>
    obtain ⟨pool, hpool, rfl⟩ := Option.map_eq_some_iff.mp hs
    cases stepped_of_step hpool with
    | getSocket ht =>
      obtain ⟨hmoves, hgets⟩ := @getSocket_moves Id _ params.maxSockets s.pool t ok
      exact .gets hpool (by rw [ht]; rfl) (fun u hu => Function.update_of_ne hu _ _) hmoves hgets
  | wake t notified =>
    obtain ⟨pool, hpool, rfl⟩ := Option.map_eq_some_iff.mp hs
    cases stepped_of_step hpool with
    | wake ht hwake =>
      obtain ⟨hmoves, hgets⟩ := wake_moves hwake
      exact .gets hpool (by rw [ht]; rfl) (fun _ _ => rfl) hmoves hgets
  | reply t i =>
    simp only [step] at hs
    split at hs
    · next x y zmqResponse hx hmsg =>
      split at hs
      · obtain ⟨pool, hpool, rfl⟩ := Option.map_eq_some_iff.mp hs
        cases stepped_of_step hpool with
        | reply ht =>
          cases hx.symm.trans ht
          exact .replies zmqResponse hpool ht
            (.of_setThread (fun y hy => .inl hy) (Nat.le_refl _) rfl)
            (by simp [SocketPool.State.setThread])
      · cases hs
    · cases hs
  | timeout t =>
    obtain ⟨pool, hpool, rfl⟩ := Option.map_eq_some_iff.mp hs
    cases stepped_of_step hpool with
    | timeout ht =>
      exact .timesOut hpool ht (.of_setThread (fun y hy => .inl hy) (Nat.le_refl _) rfl)
        (by simp [SocketPool.State.setThread])
  | returnSocket t notified =>
    obtain ⟨pool, hpool, rfl⟩ := Option.map_eq_some_iff.mp hs
    cases stepped_of_step hpool with
    | returnSocket ht hreturn =>
      obtain ⟨hmoves, hplace⟩ := returnSocket_moves ht hreturn
      exact .leaves hpool (by rw [ht]; rfl) hmoves hplace
  | destroySocket t =>
    obtain ⟨pool, hpool, rfl⟩ := Option.map_eq_some_iff.mp hs
    cases stepped_of_step hpool with
    | destroySocket ht =>
      obtain ⟨hmoves, hplace⟩ := destroySocket_moves ht
      exact .destroys hpool ht hmoves hplace
  | close t =>
    obtain ⟨pool, hpool, rfl⟩ := Option.map_eq_some_iff.mp hs
    cases stepped_of_step hpool with
    | close ht =>
      exact .leaves hpool (by rw [ht]; rfl)
        (.of_setThread (fun y hy => .inl hy) (Nat.le_refl _) rfl)
        (by simp [SocketPool.State.leave, SocketPool.State.setThread])
  | forward i clientAddress1 =>
    simp only [step] at hs
    split at hs
    · split at hs
      · obtain ⟨balancer, hbalancer, rfl⟩ := Option.map_eq_some_iff.mp hs
        exact .balances hbalancer rfl
      · cases hs
    · cases hs
  | foreign rq =>
    simp only [step] at hs
    split at hs
    · cases hs
    · obtain ⟨balancer, hbalancer, rfl⟩ := Option.map_eq_some_iff.mp hs
      exact .balances hbalancer rfl
  | loseRequest i =>
    cases hs
    exact .loses
  | loseResponse i =>
    cases hs
    exact .loses
  | workerReply w rq env conn webroot =>
    simp only [step] at hs
    split at hs
    · next r round hserving hround =>
      split at hs
      · next hread =>
        obtain ⟨balancer, hbalancer, rfl⟩ := Option.map_eq_some_iff.mp hs
        exact .computes (w := ⟨w, r, rq, env, conn, webroot, round⟩) hserving hread hround hbalancer
      · cases hs
    · cases hs
  | _ =>
    obtain ⟨balancer, hbalancer, rfl⟩ := Option.map_eq_some_iff.mp hs
    exact .balances hbalancer rfl

end Effects

/-! ## 6. The invariant -/

section Invariant

open SocketPool (Place)

variable {Id : Type} [Fintype Id] [DecidableEq Id]

/-- A free socket has got the replies to all its requests, and a thread that polls waits for the
reply to its own request. -/
structure SocketsOk (protobuf : Protobuf) (pool : SocketPool.State Id) (request : Id → Request)
    (sent got : Socket → List Bytes) : Prop where
  free : ∀ x ∈ pool.socketList, (sent x).length = (got x).length
  fresh : ∀ x, pool.created ≤ x → sent x = [] ∧ got x = []
  polling : ∀ t x, (pool.threads t).place = .polling x →
    ∃ before, sent x = before ++ [protobuf.serializeRequest (request t)] ∧
      before.length = (got x).length
  answered : ∀ t x, (pool.threads t).place = .answered x → (sent x).length = (got x).length

/-- The threads that have sent a request remember where, and the reply to it is the next one. -/
structure PlacesOk (pool : SocketPool.State Id) (sentOn : Id → Option (Socket × Nat))
    (got : Socket → List Bytes) : Prop where
  placed : ∀ t, (sentOn t).isSome = hasSent (pool.threads t).place
  polling : ∀ t x, (pool.threads t).place = .polling x → sentOn t = some (x, (got x).length)

/-- Each call has sent its own request in its own place. -/
structure SentOk (protobuf : Protobuf) (request : Id → Request)
    (sentOn : Id → Option (Socket × Nat)) (calls : List Call) (sent : Socket → List Bytes) :
    Prop where
  running : ∀ t x k, sentOn t = some (x, k) →
    (sent x)[k]? = some (protobuf.serializeRequest (request t))
  returned : ∀ c ∈ calls, ∀ x k, c.sentOn = some (x, k) →
    (sent x)[k]? = some (protobuf.serializeRequest c.request)
  apart : ∀ t u p, sentOn t = some p → sentOn u = some p → t = u
  unreturned : ∀ t p, sentOn t = some p → p ∉ calls.filterMap (·.sentOn)
  nodup : (calls.filterMap (·.sentOn)).Nodup

/-- The request of a round and the reply that was sent. -/
def WorkerRound.answer (protobuf : Protobuf) (w : WorkerRound) : ClientRequest × Bytes :=
  (w.clientRequest, protobuf.serializeResponse w.round.response)

/-- A worker has computed the round from what it has read of its request. -/
structure WorkerRound.Sound (protobuf : Protobuf) (w : WorkerRound) : Prop where
  read : ReadAs protobuf w.clientRequest.requestMsg w.request
  computed : handleRequest w.env w.conn w.webroot w.request = some w.round

structure Inv (params : Params) (s : State Id) : Prop where
  pool : SocketPool.Inv params.maxSockets s.pool
  sockets : SocketsOk params.protobuf s.pool s.request s.sent s.got
  places : PlacesOk s.pool s.sentOn s.got
  sent : SentOk params.protobuf s.request s.sentOn s.calls s.sent
  balancer : LoadBalancing.Inv s.balancer
  sound : ∀ w ∈ s.rounds, w.Sound params.protobuf
  replies : (LoadBalancing.replies s.balancer).Perm
    (s.rounds.map (WorkerRound.answer params.protobuf))

omit [DecidableEq Id] in
theorem inv_new (params : Params) : Inv params (State.new : State Id) where
  pool := SocketPool.inv_new _
  sockets := ⟨nofun, fun _ _ => ⟨rfl, rfl⟩, nofun, nofun⟩
  places := ⟨fun _ => rfl, nofun⟩
  sent :=
    { running := fun _ _ _ h => by cases h
      returned := fun _ h => by cases h
      apart := fun _ _ _ h => by cases h
      unreturned := fun _ _ h => by cases h
      nodup := List.nodup_nil }
  balancer := LoadBalancing.inv_new
  sound := fun _ h => by cases h
  replies := List.Perm.refl []

section Sockets

variable {protobuf : Protobuf} {maxSockets : Nat} {pool pool' : SocketPool.State Id}
  {request : Id → Request} {sent got : Socket → List Bytes} {t : Id} {x : Socket}

omit [Fintype Id] [DecidableEq Id] in
theorem Stays.polling {place place' : Place} (h : Stays place place') (hp : place' = .polling x) :
    place = .polling x := by
  rcases h with h | ⟨-, h⟩
  · exact h ▸ hp
  · cases h.symm.trans hp

omit [Fintype Id] [DecidableEq Id] in
theorem Stays.answered {place place' : Place} (h : Stays place place')
    (hp : place' = .answered x) : place = .answered x := by
  rcases h with h | ⟨-, h⟩
  · exact h ▸ hp
  · cases h.symm.trans hp

omit [Fintype Id] [DecidableEq Id] in
/-- A free socket, or a new one. -/
theorem SocketsOk.taken (h : SocketsOk protobuf pool request sent got)
    (hx : x ∈ pool.socketList ∨ x = pool.created) : (sent x).length = (got x).length := by
  rcases hx with hx | rfl
  · exact h.free x hx
  · obtain ⟨hsent, hgot⟩ := h.fresh _ (Nat.le_refl _)
    rw [hsent, hgot]

omit [Fintype Id] [DecidableEq Id] in
/-- The thread has no socket that it uses, before or after. -/
theorem SocketsOk.idle (h : SocketsOk protobuf pool request sent got) (hm : Moves t pool pool')
    (hp : ∀ x, (pool'.threads t).place ≠ .polling x)
    (ha : ∀ x, (pool'.threads t).place ≠ .answered x) :
    SocketsOk protobuf pool' request sent got := by
  refine ⟨fun x hx => ?_, fun x hx => h.fresh x (hm.created.trans hx), fun u x hu => ?_,
    fun u x hu => ?_⟩
  · exact (hm.free x hx).elim (h.free x) (h.answered t x)
  · have hne : u ≠ t := by
      rintro rfl
      exact hp x hu
    exact h.polling u x ((hm.others u hne).polling hu)
  · have hne : u ≠ t := by
      rintro rfl
      exact ha x hu
    exact h.answered u x ((hm.others u hne).answered hu)

omit [Fintype Id] [DecidableEq Id] in
theorem SocketsOk.ask (h : SocketsOk protobuf pool request sent got)
    (hp : ∀ x, (pool.threads t).place ≠ .polling x) {request' : Id → Request}
    (hrequest : ∀ u, u ≠ t → request' u = request u) :
    SocketsOk protobuf pool request' sent got := by
  refine ⟨h.free, h.fresh, fun u x hu => ?_, h.answered⟩
  have hne : u ≠ t := by
    rintro rfl
    exact hp x hu
  rw [hrequest u hne]
  exact h.polling u x hu

omit [DecidableEq Id] in
/-- A socket of the thread is no other's. -/
theorem owned_alone (hinv : SocketPool.Inv maxSockets pool)
    (hx : (pool.threads t).place.socket? = some x) :
    x ∉ pool.socketList ∧ x < pool.created ∧
      ∀ u, u ≠ t → ∀ place, (pool.threads u).place = place → place.socket? ≠ some x := by
  obtain ⟨hlist, halone⟩ := hinv.alone hx
  refine ⟨hlist, hinv.created x (SocketPool.mem_owned.mpr (.inr ⟨t, hx⟩)), ?_⟩
  rintro u hu place rfl
  exact halone u hu

omit [DecidableEq Id] in
/-- The thread takes a socket and sends its request. -/
theorem SocketsOk.send (h : SocketsOk protobuf pool request sent got) (hm : Moves t pool pool')
    (hinv : SocketPool.Inv maxSockets pool') (ht : ∀ x, (pool.threads t).place ≠ .answered x)
    (hx : (pool'.threads t).place = .polling x) (hfree : x ∈ pool.socketList ∨ x = pool.created) :
    SocketsOk protobuf pool' request
      (Function.update sent x (sent x ++ [protobuf.serializeRequest (request t)])) got := by
  obtain ⟨hlist, hcreated, halone⟩ := owned_alone hinv (congrArg Place.socket? hx)
  refine ⟨fun y hy => ?_, fun y hy => ?_, fun u y hu => ?_, fun u y hu => ?_⟩
  · have hne : y ≠ x := by
      rintro rfl
      exact hlist hy
    rw [Function.update_of_ne hne]
    exact (hm.free y hy).elim (h.free y) fun ha => absurd ha (ht y)
  · have hne : y ≠ x := (hcreated.trans_le hy).ne'
    rw [Function.update_of_ne hne]
    exact h.fresh y (hm.created.trans hy)
  · rcases eq_or_ne u t with rfl | hne
    · cases hx.symm.trans hu
      exact ⟨sent x, Function.update_self _ _ _, h.taken hfree⟩
    · have hxy : y ≠ x := by
        rintro rfl
        exact halone u hne _ hu rfl
      rw [Function.update_of_ne hxy]
      exact h.polling u y ((hm.others u hne).polling hu)
  · have hne : u ≠ t := by
      rintro rfl
      cases hx.symm.trans hu
    have hxy : y ≠ x := by
      rintro rfl
      exact halone u hne _ hu rfl
    rw [Function.update_of_ne hxy]
    exact h.answered u y ((hm.others u hne).answered hu)

omit [DecidableEq Id] in
/-- The thread gets a reply. -/
theorem SocketsOk.reply (h : SocketsOk protobuf pool request sent got) (hm : Moves t pool pool')
    (hinv : SocketPool.Inv maxSockets pool') (ht : (pool.threads t).place = .polling x)
    (hx : (pool'.threads t).place = .answered x) (zmqResponse : Bytes) :
    SocketsOk protobuf pool' request sent
      (Function.update got x (got x ++ [zmqResponse])) := by
  obtain ⟨hlist, hcreated, halone⟩ := owned_alone hinv (congrArg Place.socket? hx)
  obtain ⟨before, hsent, hlength⟩ := h.polling t x ht
  refine ⟨fun y hy => ?_, fun y hy => ?_, fun u y hu => ?_, fun u y hu => ?_⟩
  · have hne : y ≠ x := by
      rintro rfl
      exact hlist hy
    rw [Function.update_of_ne hne]
    exact (hm.free y hy).elim (h.free y) fun ha => by cases ht.symm.trans ha
  · have hne : y ≠ x := (hcreated.trans_le hy).ne'
    rw [Function.update_of_ne hne]
    exact h.fresh y (hm.created.trans hy)
  · have hne : u ≠ t := by
      rintro rfl
      cases hx.symm.trans hu
    have hxy : y ≠ x := by
      rintro rfl
      exact halone u hne _ hu rfl
    rw [Function.update_of_ne hxy]
    exact h.polling u y ((hm.others u hne).polling hu)
  · rcases eq_or_ne u t with rfl | hne
    · cases hx.symm.trans hu
      rw [Function.update_self, hsent, List.length_append, List.length_append, hlength]
      rfl
    · have hxy : y ≠ x := by
        rintro rfl
        exact halone u hne _ hu rfl
      rw [Function.update_of_ne hxy]
      exact h.answered u y ((hm.others u hne).answered hu)

end Sockets

section Places

variable {protobuf : Protobuf} {pool pool' : SocketPool.State Id} {request : Id → Request}
  {sentOn : Id → Option (Socket × Nat)} {calls : List Call}
  {sent got : Socket → List Bytes} {t : Id} {x : Socket}

theorem Stays.hasSent {place place' : Place} (h : Stays place place') :
    BackendCalls.hasSent place' = BackendCalls.hasSent place := by
  rcases h with rfl | ⟨rfl, rfl⟩
  · rfl
  · rfl

omit [Fintype Id] [DecidableEq Id] in
/-- A step of a thread changes what this thread remembers only. -/
theorem PlacesOk.moves (h : PlacesOk pool sentOn got) (sentOn' : Id → Option (Socket × Nat))
    (hm : Moves t pool pool') (hothers : ∀ u, u ≠ t → sentOn' u = sentOn u)
    (hplaced : (sentOn' t).isSome = hasSent (pool'.threads t).place)
    (hpolling : ∀ x, (pool'.threads t).place = .polling x → sentOn' t = some (x, (got x).length)) :
    PlacesOk pool' sentOn' got := by
  refine ⟨fun u => ?_, fun u x hu => ?_⟩
  · rcases eq_or_ne u t with rfl | hne
    · exact hplaced
    · rw [hothers u hne, h.placed, (hm.others u hne).hasSent]
  · rcases eq_or_ne u t with rfl | hne
    · exact hpolling x hu
    · rw [hothers u hne]
      exact h.polling u x ((hm.others u hne).polling hu)

omit [Fintype Id] [DecidableEq Id] in
/-- The thread remembers what it did, and does not wait for a reply. -/
theorem PlacesOk.keep (h : PlacesOk pool sentOn got) (hm : Moves t pool pool')
    (hsent : hasSent (pool'.threads t).place = hasSent (pool.threads t).place)
    (hp : ∀ x, (pool'.threads t).place ≠ .polling x) : PlacesOk pool' sentOn got :=
  h.moves sentOn hm (fun _ _ => rfl) (by rw [h.placed, hsent]) fun x hx => absurd hx (hp x)

omit [Fintype Id] [DecidableEq Id] in
/-- No thread waits for the reply that was got. -/
theorem PlacesOk.get (h : PlacesOk pool sentOn got)
    (hx : ∀ u, (pool.threads u).place ≠ .polling x) (replies : List Bytes) :
    PlacesOk pool sentOn (Function.update got x replies) := by
  refine ⟨h.placed, fun u y hu => ?_⟩
  have hne : y ≠ x := by
    rintro rfl
    exact hx u hu
  rw [Function.update_of_ne hne]
  exact h.polling u y hu

omit [Fintype Id] [DecidableEq Id] in
theorem SentOk.ask (h : SentOk protobuf request sentOn calls sent) (ht : sentOn t = none)
    {request' : Id → Request} (hrequest : ∀ u, u ≠ t → request' u = request u) :
    SentOk protobuf request' sentOn calls sent := by
  refine ⟨fun u x k hu => ?_, h.returned, h.apart, h.unreturned, h.nodup⟩
  have hne : u ≠ t := by
    rintro rfl
    cases ht.symm.trans hu
  rw [hrequest u hne]
  exact h.running u x k hu

/-- A place that is in use is before the next one. -/
theorem place_ne {l : List Bytes} {k : Nat} {m : Bytes} (h : l[k]? = some m) : k ≠ l.length := by
  rintro rfl
  rw [List.getElem?_eq_none (Nat.le_refl _)] at h
  cases h

omit [Fintype Id] in
/-- The thread sends its request in a new place. -/
theorem SentOk.send (h : SentOk protobuf request sentOn calls sent) (t : Id) (x : Socket) :
    SentOk protobuf request (Function.update sentOn t (some (x, (sent x).length))) calls
      (Function.update sent x (sent x ++ [protobuf.serializeRequest (request t)])) := by
  have hkeeps : ∀ (y : Socket) (k : Nat) (m : Bytes), (sent y)[k]? = some m →
      (Function.update sent x (sent x ++ [protobuf.serializeRequest (request t)]) y)[k]? =
        some m := by
    intro y k m hm
    rcases eq_or_ne y x with rfl | hne
    · rw [Function.update_self]
      exact Machine.getElem?_of_prefix (List.prefix_append _ _) hm
    · rwa [Function.update_of_ne hne]
  have hnew : ∀ u, sentOn u ≠ some (x, (sent x).length) := fun u hu =>
    place_ne (h.running u _ _ hu) rfl
  refine ⟨fun u y k hu => ?_, fun c hc y k hk => hkeeps y k _ (h.returned c hc y k hk),
    fun u v p hu hv => ?_, fun u p hu hp => ?_, h.nodup⟩
  · rcases eq_or_ne u t with rfl | hne
    · rw [Function.update_self] at hu
      cases hu
      rw [Function.update_self, List.getElem?_concat_length]
    · rw [Function.update_of_ne hne] at hu
      exact hkeeps y k _ (h.running u y k hu)
  · rcases eq_or_ne u t with rfl | hu'
    · rcases eq_or_ne v u with rfl | hv'
      · rfl
      · rw [Function.update_self] at hu
        rw [Function.update_of_ne hv'] at hv
        exact absurd (hv.trans hu.symm) (hnew v)
    · rw [Function.update_of_ne hu'] at hu
      rcases eq_or_ne v t with rfl | hv'
      · rw [Function.update_self] at hv
        exact absurd (hu.trans hv.symm) (hnew u)
      · rw [Function.update_of_ne hv'] at hv
        exact h.apart u v p hu hv
  · rcases eq_or_ne u t with rfl | hne
    · rw [Function.update_self] at hu
      cases hu
      obtain ⟨c, hc, hk⟩ := List.mem_filterMap.mp hp
      exact place_ne (h.returned c hc _ _ hk) rfl
    · rw [Function.update_of_ne hne] at hu
      exact h.unreturned u p hu hp

omit [Fintype Id] in
/-- The call of the thread returns. -/
theorem SentOk.leave (h : SentOk protobuf request sentOn calls sent) (t : Id) (reply : Reply) :
    SentOk protobuf request (Function.update sentOn t none)
      (calls ++ [⟨request t, sentOn t, reply⟩]) sent := by
  have hold : ∀ {u p}, Function.update sentOn t none u = some p → u ≠ t ∧ sentOn u = some p := by
    intro u p hu
    rcases eq_or_ne u t with rfl | hne
    · rw [Function.update_self] at hu
      cases hu
    · exact ⟨hne, by rwa [Function.update_of_ne hne] at hu⟩
  have hplaces : (calls ++ [(⟨request t, sentOn t, reply⟩ : Call)]).filterMap (·.sentOn) =
      calls.filterMap (·.sentOn) ++ (sentOn t).toList := by
    rw [List.filterMap_append]
    cases hst : sentOn t <;> simp
  refine ⟨fun u x k hu => h.running u x k (hold hu).2, fun c hc x k hk => ?_,
    fun u v p hu hv => h.apart u v p (hold hu).2 (hold hv).2, fun u p hu hp => ?_, ?_⟩
  · rcases List.mem_append.mp hc with hc | hc
    · exact h.returned c hc x k hk
    · obtain rfl := List.mem_singleton.mp hc
      exact h.running t x k hk
  · obtain ⟨hne, hu⟩ := hold hu
    rw [hplaces, List.mem_append, Option.mem_toList] at hp
    rcases hp with hp | hp
    · exact h.unreturned u p hu hp
    · exact hne (h.apart u t p hu hp)
  · rw [hplaces]
    cases hst : sentOn t with
    | none => simpa using h.nodup
    | some p =>
      refine h.nodup.append (List.nodup_singleton p) ?_
      rw [Option.toList_some, List.disjoint_singleton]
      exact h.unreturned t p hst

end Places

section Steps

variable {params : Params} {s s' : State Id} {t : Id}

omit [Fintype Id] in
/-- The thread sends its request, or returns without a socket, or waits. -/
theorem afterGetSocket_cases {pool : SocketPool.State Id} (protobuf : Protobuf)
    (hgets : GetsSocket pool (s.pool.threads t).place) :
    (∃ x, (s.pool.threads t).place = .polling x ∧
        afterGetSocket protobuf t s = s.send protobuf t x) ∨
      (hasSent (s.pool.threads t).place = false ∧
        (afterGetSocket protobuf t s = s.leave t .noSocket ∨ afterGetSocket protobuf t s = s)) := by
  unfold afterGetSocket
  cases hplace : (s.pool.threads t).place with
  | polling x => exact .inl ⟨x, rfl, rfl⟩
  | outside => exact .inr ⟨rfl, .inl rfl⟩
  | waiting b => exact .inr ⟨rfl, .inr rfl⟩
  | answered x | timedOut x | closing x =>
    rw [hplace] at hgets
    exact hgets.elim

/-- `getSocket` has given a socket to the thread, or none. -/
theorem afterGetSocket_inv {pool : SocketPool.State Id} {request : Id → Request}
    (h : Inv params s) (hbefore : hasSent (s.pool.threads t).place = false)
    (hrequest : ∀ u, u ≠ t → request u = s.request u) (hm : Moves t s.pool pool)
    (hgets : GetsSocket s.pool (pool.threads t).place)
    (hpool : SocketPool.Inv params.maxSockets pool) :
    Inv params (afterGetSocket params.protobuf t { s with pool, request }) := by
  have hnone : s.sentOn t = none :=
    Option.not_isSome_iff_eq_none.mp (by rw [h.places.placed, hbefore]; exact Bool.false_ne_true)
  have hplace : ∀ {place}, hasSent place = true → (s.pool.threads t).place ≠ place := by
    rintro place hplace rfl
    exact Bool.false_ne_true (hbefore.symm.trans hplace)
  have hsockets := h.sockets.ask (t := t) (fun x => hplace rfl) hrequest
  have hsent := h.sent.ask hnone hrequest
  rcases afterGetSocket_cases (s := { s with pool, request }) params.protobuf hgets with
    ⟨x, hx, hafter⟩ | ⟨hno, hafter | hafter⟩
  · -- The request is sent in the place that the next reply is for.
    have hx : (pool.threads t).place = .polling x := hx
    rw [hx] at hgets
    have hlength : (s.sent x).length = (s.got x).length := hsockets.taken hgets
    have hplaces := h.places.moves (t := t)
      (Function.update s.sentOn t (some (x, (s.sent x).length))) hm
      (fun u hu => Function.update_of_ne hu _ _) (by rw [Function.update_self, hx]; rfl)
      (fun y hy => by
        cases hx.symm.trans hy
        rw [Function.update_self, hlength])
    rw [hafter]
    exact ⟨hpool, hsockets.send hm hpool (fun y => hplace rfl) hx hgets, hplaces, hsent.send t x,
      h.balancer, h.sound, h.replies⟩
  · have hidle := hsockets.idle hm (fun y hy => by cases (congrArg hasSent hy).symm.trans hno)
      fun y hy => by cases (congrArg hasSent hy).symm.trans hno
    have hplaces := h.places.moves (Function.update s.sentOn t none) hm
      (fun u hu => Function.update_of_ne hu _ _) (by rw [Function.update_self]; exact hno.symm)
      (fun y hy => by cases (congrArg hasSent hy).symm.trans hno)
    rw [hafter]
    exact ⟨hpool, hidle, hplaces, hsent.leave t .noSocket, h.balancer, h.sound, h.replies⟩
  · have hidle := hsockets.idle hm (fun y hy => by cases (congrArg hasSent hy).symm.trans hno)
      fun y hy => by cases (congrArg hasSent hy).symm.trans hno
    have hplaces := h.places.moves s.sentOn hm (fun _ _ => rfl)
      (by rw [hnone]; exact hno.symm)
      (fun y hy => by cases (congrArg hasSent hy).symm.trans hno)
    rw [hafter]
    exact ⟨hpool, hidle, hplaces, hsent, h.balancer, h.sound, h.replies⟩

/-- The step lemma. -/
theorem keeps_inv (Id : Type) [Fintype Id] [DecidableEq Id] (params : Params) :
    (machine Id params).Keeps (Inv params) := by
  intro s l s' h hs
  have hkeeps : ∀ {l pool}, SocketPool.step params.maxSockets s.pool l = some pool →
      SocketPool.Inv params.maxSockets pool :=
    fun hpool => SocketPool.keeps_inv Id params.maxSockets _ _ _ h.pool hpool
  cases effect_of_step hs with
  | gets hpool hbefore hrequest hm hgets =>
    exact afterGetSocket_inv h hbefore hrequest hm hgets (hkeeps hpool)
  | @replies t x _ pool toClients zmqResponse hpool hbefore hm hafter =>
    have hinv := hkeeps hpool
    have hplaces := h.places.keep hm (by rw [hbefore, hafter]; rfl)
      (fun y hy => by cases hafter.symm.trans hy)
    have hnobody : ∀ u, (pool.threads u).place ≠ .polling x := by
      intro u hu
      rcases eq_or_ne u t with rfl | hne
      · cases hafter.symm.trans hu
      · exact (owned_alone hinv (congrArg Place.socket? hafter)).2.2 u hne _ hu rfl
    exact ⟨hinv, h.sockets.reply hm hinv hbefore hafter zmqResponse, hplaces.get hnobody _, h.sent,
      h.balancer, h.sound, h.replies⟩
  | timesOut hpool hbefore hm hafter =>
    have hplaces := h.places.keep hm (by rw [hbefore, hafter]; rfl)
      (fun y hy => by cases hafter.symm.trans hy)
    exact ⟨hkeeps hpool, h.sockets.idle hm (fun y hy => by cases hafter.symm.trans hy)
      (fun y hy => by cases hafter.symm.trans hy), hplaces, h.sent, h.balancer, h.sound,
      h.replies⟩
  | @destroys t x _ pool hpool hbefore hm hafter =>
    have hsent : hasSent (pool.threads t).place = hasSent (s.pool.threads t).place := by
      rcases hafter with hafter | hafter
      · rw [hbefore, hafter]; rfl
      · rw [hbefore, hafter]
    have hpolling : ∀ y, (pool.threads t).place ≠ .polling y := fun y hy => by
      rcases hafter with hafter | hafter <;> cases hafter.symm.trans hy
    exact ⟨hkeeps hpool, h.sockets.idle hm hpolling
      (fun y hy => by rcases hafter with hafter | hafter <;> cases hafter.symm.trans hy),
      h.places.keep hm hsent hpolling, h.sent, h.balancer, h.sound, h.replies⟩
  | @leaves t _ pool hpool hbefore hm hafter =>
    have hplaces := h.places.moves (Function.update s.sentOn t none) hm
      (fun u hu => Function.update_of_ne hu _ _) (by rw [Function.update_self, hafter]; rfl)
      (fun y hy => by cases hafter.symm.trans hy)
    exact ⟨hkeeps hpool, h.sockets.idle hm (fun y hy => by cases hafter.symm.trans hy)
      (fun y hy => by cases hafter.symm.trans hy), hplaces, h.sent.leave t _, h.balancer, h.sound,
      h.replies⟩
  | balances hbalancer hl =>
    have hreplies := LoadBalancing.replies_step h.balancer hbalancer
    rw [hl, List.append_nil] at hreplies
    exact ⟨h.pool, h.sockets, h.places, h.sent, LoadBalancing.keeps_inv _ _ _ h.balancer hbalancer,
      h.sound, hreplies.trans h.replies⟩
  | @computes w balancer hserving hread hround hbalancer =>
    have hreplies := LoadBalancing.replies_step h.balancer hbalancer
    have hinv := LoadBalancing.keeps_inv s.balancer (.workerReply w.worker _) balancer
      h.balancer hbalancer
    rw [LoadBalancing.newReplies, hserving] at hreplies
    refine ⟨h.pool, h.sockets, h.places, h.sent, hinv, fun w' hw' => ?_, ?_⟩
    · rcases List.mem_append.mp hw' with hw' | hw'
      · exact h.sound w' hw'
      · rw [List.mem_singleton.mp hw']
        exact ⟨hread, hround⟩
    · rw [List.map_append]
      exact hreplies.trans (h.replies.append_right _)
  | loses => exact ⟨h.pool, h.sockets, h.places, h.sent, h.balancer, h.sound, h.replies⟩

end Steps

end Invariant

end BackendCalls

end SafeKiddo
