import SafeKiddo.Lib.ByteString
import SafeKiddo.Lib.Machine

/-!
# The load balancer

`Server::loadBalancing` between the clients and the workers, as a machine. Messages are lists of
frames. The sockets deliver every message once, in any order; a ROUTER socket puts the address of
the sender before what it receives, and a REQ socket puts an empty frame before what it sends. A
response may be any text. The end of the context, which ends all loops, is left out.

Results:
1. `Inv`: each started worker is in one place, and every message is in its form.
2. `keeps_inv`: the step lemma.
3. `balanced`: the protocol, at any point of a run.
-/

namespace SafeKiddo

open ByteString

namespace LoadBalancing

/-! ## 1. State -/

/-- The frames of a message. -/
abbrev Message := List Bytes

/-- Clients have two addresses, because there is one router in the http server. -/
structure ClientRequest where
  clientAddress1 : Bytes
  clientAddress2 : Bytes
  requestMsg : Bytes

def ClientRequest.frames (r : ClientRequest) : Message :=
  [r.clientAddress1, r.clientAddress2, [], r.requestMsg]

/-- A response, sent back to the two addresses of a request. -/
def ClientRequest.reply (r : ClientRequest) (response : Bytes) : Message :=
  [r.clientAddress1, r.clientAddress2, [], response]

inductive WorkerState
  | notStarted
  /-- Waits for the next request. -/
  | waiting
  | serving (request : ClientRequest)

/-- What was sent to the clients, with the worker and the request that it held. -/
structure Served where
  worker : Bytes
  request : Option ClientRequest
  reply : Message

/-- The queue, the messages on their way, the workers, and the history of the balancer. -/
structure State where
  workerQueue : List Bytes
  fromClients : List Message
  fromWorkers : List Message
  toWorkers : List Message
  workers : Bytes → WorkerState
  /-- An assertion has failed, or the front of an empty queue was taken. -/
  failed : Bool
  /-- The workers whose READY was received. -/
  announced : List Bytes
  /-- The client messages that were received. -/
  received : List Message
  handed : List (Bytes × ClientRequest)
  /-- What a worker was given and has not answered yet. -/
  holding : Bytes → List ClientRequest
  served : List Served
  /-- The replies that the workers have sent. -/
  answers : List (Bytes × Message)

def State.new : State where
  workerQueue := []
  fromClients := []
  fromWorkers := []
  toWorkers := []
  workers _ := .notStarted
  failed := false
  announced := []
  received := []
  handed := []
  holding _ := []
  served := []
  answers := []

/-! ## 2. The code -/

def readyStr : Bytes := bytes "READY"

def handleEmptyMessage (emptyMsg : Bytes) : Checked Unit := assert (emptyMsg = [])

/-- A message from a worker: its address, and what goes back to the clients unless it is READY. -/
def recvFromWorker : Message → Checked (Bytes × Option Message)
  | workerAddress :: emptyMsg :: clientAddress1 :: rest => do
    handleEmptyMessage emptyMsg
    if clientAddress1 ≠ readyStr then
      match rest with
      | [clientAddress2, emptyMsg, response] =>
        handleEmptyMessage emptyMsg
        return (workerAddress, some [clientAddress1, clientAddress2, [], response])
      | _ => none
    else
      match rest with
      | [] => return (workerAddress, none)
      | _ => none
  | _ => none

/-- A message from a client. -/
def recvFromClient : Message → Checked ClientRequest
  | [clientAddress1, clientAddress2, emptyMsg, requestMsg] => do
    handleEmptyMessage emptyMsg
    return ⟨clientAddress1, clientAddress2, requestMsg⟩
  | _ => none

/-- A message that a worker receives. Its socket takes the first empty frame off. -/
def workerRecv : Message → Checked ClientRequest
  | emptyFrame :: frames => do
    handleEmptyMessage emptyFrame
    recvFromClient frames
  | _ => none

/-- The part of an iteration for the workers socket, for the message at `i`. -/
def balanceWorker (i : Nat) (s : State) : Option State :=
  match s.fromWorkers[i]? with
  | none => none
  | some m =>
    match recvFromWorker m with
    | none => some { s with failed := true }
    | some (workerAddress, none) =>
      some { s with
        fromWorkers := s.fromWorkers.eraseIdx i
        workerQueue := s.workerQueue ++ [workerAddress]
        announced := s.announced ++ [workerAddress] }
    | some (workerAddress, some reply) =>
      some { s with
        fromWorkers := s.fromWorkers.eraseIdx i
        workerQueue := s.workerQueue ++ [workerAddress]
        holding := Function.update s.holding workerAddress (s.holding workerAddress).tail
        served := s.served ++ [⟨workerAddress, (s.holding workerAddress).head?, reply⟩] }

/-- The part of an iteration for the clients socket, for the message at `i`. -/
def balanceClient (i : Nat) (s : State) : Option State :=
  match s.fromClients[i]? with
  | none => none
  | some m =>
    match recvFromClient m, s.workerQueue with
    | some r, workerAddress :: workerQueue =>
      some { s with
        fromClients := s.fromClients.eraseIdx i
        workerQueue
        toWorkers := s.toWorkers ++ [workerAddress :: [] :: r.frames]
        received := s.received ++ [m]
        handed := s.handed ++ [(workerAddress, r)]
        holding := Function.update s.holding workerAddress (s.holding workerAddress ++ [r]) }
    | _, _ => some { s with failed := true }

/-- One iteration, with the events that the poll has reported. The clients are polled only when
some worker is idle. -/
def iteration (workerEvent clientEvent : Option Nat) (s : State) : Option State :=
  if clientEvent.isSome ∧ s.workerQueue.isEmpty then none
  else
    match workerEvent, clientEvent with
    | none, none => none
    | some i, none => balanceWorker i s
    | none, some j => balanceClient j s
    | some i, some j => (balanceWorker i s).bind (balanceClient j)

/-! ## 3. The machine -/

inductive Label
  /-- A worker starts and sends READY. -/
  | workerReady (worker : Bytes)
  | clientRequest (request : ClientRequest)
  /-- The message at `i` on the way to the workers arrives. -/
  | workerRecv (i : Nat)
  | workerReply (worker response : Bytes)
  | balance (workerEvent clientEvent : Option Nat)

def arrive (i : Nat) (s : State) : Option State :=
  match s.toWorkers[i]? with
  | some (worker :: frames) =>
    match s.workers worker with
    | .waiting =>
      match workerRecv frames with
      | none => some { s with failed := true }
      | some r =>
        some { s with
          toWorkers := s.toWorkers.eraseIdx i
          workers := Function.update s.workers worker (.serving r) }
    | _ => none
  | _ => none

/-- The addresses of clients are never READY. -/
def step (s : State) : Label → Option State
  | .workerReady worker =>
    match s.workers worker with
    | .notStarted =>
      some { s with
        workers := Function.update s.workers worker .waiting
        fromWorkers := s.fromWorkers ++ [[worker, [], readyStr]] }
    | _ => none
  | .clientRequest request =>
    if request.clientAddress1 ≠ readyStr then
      some { s with fromClients := s.fromClients ++ [request.frames] }
    else none
  | .workerRecv i => arrive i s
  | .workerReply worker response =>
    match s.workers worker with
    | .serving r =>
      some { s with
        workers := Function.update s.workers worker .waiting
        fromWorkers := s.fromWorkers ++ [worker :: [] :: r.reply response]
        answers := s.answers ++ [(worker, r.reply response)] }
    | _ => none
  | .balance workerEvent clientEvent => iteration workerEvent clientEvent s

def machine : Machine State Label := ⟨State.new, step⟩

/-! ## 4. Messages -/

def readyMessage (worker : Bytes) : Message := [worker, [], readyStr]

theorem recvFromWorker_ready (worker : Bytes) :
    recvFromWorker (readyMessage worker) = some (worker, none) := by
  simp [recvFromWorker, readyMessage, handleEmptyMessage]

theorem recvFromWorker_reply {r : ClientRequest} (hr : r.clientAddress1 ≠ readyStr)
    (worker response : Bytes) :
    recvFromWorker (worker :: [] :: r.reply response) = some (worker, some (r.reply response)) := by
  simp [recvFromWorker, ClientRequest.reply, handleEmptyMessage, hr]

theorem recvFromClient_frames (r : ClientRequest) : recvFromClient r.frames = some r := by
  simp [recvFromClient, ClientRequest.frames, handleEmptyMessage]

theorem workerRecv_frames (r : ClientRequest) : workerRecv ([] :: r.frames) = some r := by
  simp [workerRecv, handleEmptyMessage, recvFromClient_frames]

/-- The reply in a message of a worker. -/
def replyOf : Message → Option (Bytes × Message)
  | worker :: _ :: clientAddress1 :: rest =>
    if clientAddress1 = readyStr then none else some (worker, clientAddress1 :: rest)
  | _ => none

theorem replyOf_ready (worker : Bytes) : replyOf (readyMessage worker) = none := by
  simp [replyOf, readyMessage]

theorem replyOf_reply {r : ClientRequest} (hr : r.clientAddress1 ≠ readyStr)
    (worker response : Bytes) :
    replyOf (worker :: [] :: r.reply response) = some (worker, r.reply response) := by
  simp [replyOf, ClientRequest.reply, hr]

theorem perm_eraseIdx {α : Type} {l : List α} {i : Nat} {a : α} (h : l[i]? = some a) :
    l.Perm (a :: l.eraseIdx i) := by
  obtain ⟨hi, rfl⟩ := List.getElem?_eq_some_iff.mp h
  exact (List.getElem_cons_eraseIdx_perm hi).symm

/-! ## 5. The invariant -/

/-- How many of the messages are from, or to, a worker. -/
def heads (w : Bytes) (ms : List Message) : Nat := ms.countP (·.head? = some w)

def WorkerState.started : WorkerState → Nat
  | notStarted => 0
  | _ => 1

def WorkerState.busy : WorkerState → Nat
  | serving _ => 1
  | _ => 0

/-- The requests that a worker was given. -/
def handedTo (handed : List (Bytes × ClientRequest)) (w : Bytes) : List ClientRequest :=
  (handed.filter (·.1 = w)).map (·.2)

/-- The requests that a worker has answered. -/
def servedBy (served : List Served) (w : Bytes) : List (Option ClientRequest) :=
  (served.filter (·.worker = w)).map (·.request)

/-- A message on the way from a worker: READY, once, or the reply to what the worker holds. -/
def UpOk (announced : List Bytes) (holding : Bytes → List ClientRequest) (m : Message) : Prop :=
  (∃ w, m = readyMessage w ∧ w ∉ announced) ∨
    ∃ w r response, m = w :: [] :: r.reply response ∧ holding w = [r] ∧
      r.clientAddress1 ≠ readyStr

/-- A message on the way to a worker: what it holds. -/
def DownOk (holding : Bytes → List ClientRequest) (m : Message) : Prop :=
  ∃ w r, m = w :: [] :: r.frames ∧ holding w = [r] ∧ r.clientAddress1 ≠ readyStr

structure Inv (s : State) : Prop where
  ok : s.failed = false
  /-- A started worker is idle, or on one way, or serving. -/
  place : ∀ w, s.workerQueue.count w + heads w s.fromWorkers + heads w s.toWorkers +
    (s.workers w).busy = (s.workers w).started
  clients : ∀ m ∈ s.fromClients, ∃ r : ClientRequest, m = r.frames ∧ r.clientAddress1 ≠ readyStr
  ups : ∀ m ∈ s.fromWorkers, UpOk s.announced s.holding m
  downs : ∀ m ∈ s.toWorkers, DownOk s.holding m
  serving : ∀ w r, s.workers w = .serving r →
    s.holding w = [r] ∧ r.clientAddress1 ≠ readyStr
  idle : ∀ w ∈ s.workerQueue, s.holding w = [] ∧ w ∈ s.announced
  fresh : ∀ w, s.workers w = .notStarted → w ∉ s.announced
  unannounced : ∀ w, w ∉ s.announced → s.holding w = []
  received : s.received = s.handed.map (·.2.frames)
  ledger : ∀ w, (handedTo s.handed w).map some =
    servedBy s.served w ++ (s.holding w).map some
  addressed : ∀ e ∈ s.served, ∃ r response, e.request = some r ∧ e.reply = r.reply response
  answered : s.answers.Perm
    (s.served.map (fun e => (e.worker, e.reply)) ++ s.fromWorkers.filterMap replyOf)

theorem UpOk.frame {announced announced' : List Bytes}
    {holding holding' : Bytes → List ClientRequest} {m : Message} (h : UpOk announced holding m)
    (hsame : ∀ w, m.head? = some w → holding' w = holding w ∧ (w ∈ announced' → w ∈ announced)) :
    UpOk announced' holding' m := by
  rcases h with ⟨w, rfl, hw⟩ | ⟨w, r, response, rfl, hw, hr⟩
  · exact .inl ⟨w, rfl, fun hmem => hw ((hsame w rfl).2 hmem)⟩
  · exact .inr ⟨w, r, response, rfl, (hsame w rfl).1.trans hw, hr⟩

theorem DownOk.frame {holding holding' : Bytes → List ClientRequest} {m : Message}
    (h : DownOk holding m) (hsame : ∀ w, m.head? = some w → holding' w = holding w) :
    DownOk holding' m := by
  obtain ⟨w, r, rfl, hw, hr⟩ := h
  exact ⟨w, r, rfl, (hsame w rfl).trans hw, hr⟩

namespace LoadBalancingLemmas

theorem heads_append (w : Bytes) (ms ms' : List Message) :
    heads w (ms ++ ms') = heads w ms + heads w ms' :=
  List.countP_append

theorem heads_perm {ms ms' : List Message} (h : ms.Perm ms') (w : Bytes) :
    heads w ms = heads w ms' :=
  h.countP_eq _

@[simp] theorem heads_nil (w : Bytes) : heads w [] = 0 := rfl

theorem heads_cons (w w' : Bytes) (frames : Message) (ms : List Message) :
    heads w ((w' :: frames) :: ms) = heads w ms + if w' = w then 1 else 0 := by
  simp [heads, List.countP_cons]

theorem heads_eq_zero {w : Bytes} {ms : List Message} :
    heads w ms = 0 ↔ ∀ m ∈ ms, m.head? ≠ some w := by
  simp [heads, List.countP_eq_zero]

theorem handedTo_append (handed : List (Bytes × ClientRequest)) (w w' : Bytes) (r : ClientRequest) :
    handedTo (handed ++ [(w', r)]) w = handedTo handed w ++ if w' = w then [r] else [] := by
  by_cases hw : w' = w <;> simp [handedTo, List.filter_append, hw]

theorem servedBy_append (served : List Served) (w : Bytes) (e : Served) :
    servedBy (served ++ [e]) w = servedBy served w ++ if e.worker = w then [e.request] else [] := by
  by_cases hw : e.worker = w <;> simp [servedBy, List.filter_append, hw]

section Update

variable {workers : Bytes → WorkerState} {w w' : Bytes} {r : ClientRequest} {x : WorkerState}

theorem serving_of_update (h : Function.update workers w .waiting w' = .serving r) :
    workers w' = .serving r := by
  rcases eq_or_ne w' w with rfl | hne
  · rw [Function.update_self] at h
    cases h
  · rwa [Function.update_of_ne hne] at h

theorem notStarted_of_update (hx : x ≠ .notStarted)
    (h : Function.update workers w x w' = .notStarted) : workers w' = .notStarted := by
  rcases eq_or_ne w' w with rfl | hne
  · rw [Function.update_self] at h
    exact absurd h hx
  · rwa [Function.update_of_ne hne] at h

end Update

theorem started_le (x : WorkerState) : x.started ≤ 1 := by
  cases x <;> simp [WorkerState.started]

end LoadBalancingLemmas

open LoadBalancingLemmas

section Steps

variable {s t : State}

theorem inv_new : Inv State.new where
  ok := rfl
  place _ := rfl
  clients := nofun
  ups := nofun
  downs := nofun
  serving := nofun
  idle := nofun
  fresh _ _ := nofun
  unannounced _ _ := rfl
  received := rfl
  ledger _ := rfl
  addressed := nofun
  answered := .refl _

/-- A worker that has sent waits, and nothing else of it is anywhere. -/
theorem Inv.place_send (h : Inv s) {w : Bytes}
    (hw : (s.workers w).busy = (s.workers w).started) (frames : Message) (w' : Bytes) :
    s.workerQueue.count w' + heads w' (s.fromWorkers ++ [w :: frames]) + heads w' s.toWorkers +
      (Function.update s.workers w .waiting w').busy =
      (Function.update s.workers w .waiting w').started := by
  have hplace := h.place w'
  rw [heads_append, heads_cons, heads_nil]
  rcases eq_or_ne w w' with rfl | hne
  · rw [Function.update_self, if_pos rfl]
    simp only [WorkerState.busy, WorkerState.started] at *
    omega
  · rw [Function.update_of_ne (Ne.symm hne), if_neg hne]
    exact hplace

theorem workerReady_inv (h : Inv s) {w : Bytes} (hw : s.workers w = .notStarted) :
    Inv { s with
      workers := Function.update s.workers w .waiting
      fromWorkers := s.fromWorkers ++ [[w, [], readyStr]] } := by
  refine { h with place := fun w' => ?_, ups := ?_, serving := ?_, fresh := ?_, answered := ?_ }
  · exact h.place_send (by rw [hw]; rfl) _ w'
  · intro m hm
    rcases List.mem_append.mp hm with hm | hm
    · exact h.ups m hm
    · rw [List.mem_singleton] at hm
      exact .inl ⟨w, hm, h.fresh w hw⟩
  · exact fun w' r hr => h.serving w' r (serving_of_update hr)
  · exact fun w' hw' => h.fresh w' (notStarted_of_update (x := .waiting) nofun hw')
  · have hready : [readyMessage w].filterMap replyOf = [] := by
      rw [List.filterMap_cons_none (replyOf_ready w), List.filterMap_nil]
    dsimp only
    rw [List.filterMap_append, show [[w, [], readyStr]].filterMap replyOf = [] from hready,
      List.append_nil]
    exact h.answered

theorem clientRequest_inv (h : Inv s) {r : ClientRequest} (hr : r.clientAddress1 ≠ readyStr) :
    Inv { s with fromClients := s.fromClients ++ [r.frames] } := by
  refine { h with clients := fun m hm => ?_ }
  rcases List.mem_append.mp hm with hm | hm
  · exact h.clients m hm
  · exact ⟨r, List.mem_singleton.mp hm, hr⟩

theorem arrive_inv (h : Inv s) {i : Nat} (ht : arrive i s = some t) : Inv t := by
  unfold arrive at ht
  split at ht
  · next worker frames hi =>
    have hperm := perm_eraseIdx hi
    have hmem : worker :: frames ∈ s.toWorkers := hperm.mem_iff.mpr List.mem_cons_self
    obtain ⟨w, r, hm, hhold, hr⟩ := h.downs _ hmem
    cases hm
    split at ht
    · next hw =>
      rw [workerRecv_frames] at ht
      cases ht
      refine { h with place := fun w' => ?_, downs := fun m hm => ?_, serving := ?_, fresh := ?_ }
      · have hplace := h.place w'
        rw [heads_perm hperm, heads_cons] at hplace
        dsimp only
        rcases eq_or_ne worker w' with rfl | hne
        · rw [hw, if_pos rfl] at hplace
          rw [Function.update_self]
          simp only [WorkerState.busy, WorkerState.started] at *
          omega
        · rw [if_neg hne] at hplace
          rw [Function.update_of_ne (Ne.symm hne)]
          exact hplace
      · exact h.downs m (List.mem_of_mem_eraseIdx hm)
      · intro w' r' hr'
        dsimp only at hr'
        rcases eq_or_ne w' worker with rfl | hne
        · rw [Function.update_self] at hr'
          cases hr'
          exact ⟨hhold, hr⟩
        · rw [Function.update_of_ne hne] at hr'
          exact h.serving w' r' hr'
      · exact fun w' hw' => h.fresh w' (notStarted_of_update (x := .serving r) nofun hw')
    · cases ht
  · cases ht

theorem workerReply_inv (h : Inv s) {w : Bytes} {r : ClientRequest} (hw : s.workers w = .serving r)
    (response : Bytes) :
    Inv { s with
      workers := Function.update s.workers w .waiting
      fromWorkers := s.fromWorkers ++ [w :: [] :: r.reply response]
      answers := s.answers ++ [(w, r.reply response)] } := by
  obtain ⟨hhold, hr⟩ := h.serving w r hw
  refine { h with place := fun w' => ?_, ups := ?_, serving := ?_, fresh := ?_, answered := ?_ }
  · exact h.place_send (by rw [hw]; rfl) _ w'
  · intro m hm
    rcases List.mem_append.mp hm with hm | hm
    · exact h.ups m hm
    · rw [List.mem_singleton] at hm
      exact .inr ⟨w, r, response, hm, hhold, hr⟩
  · exact fun w' r' hr' => h.serving w' r' (serving_of_update hr')
  · exact fun w' hw' => h.fresh w' (notStarted_of_update (x := .waiting) nofun hw')
  · have hreply : [w :: [] :: r.reply response].filterMap replyOf = [(w, r.reply response)] := by
      rw [List.filterMap_cons_some (replyOf_reply hr w response), List.filterMap_nil]
    dsimp only
    rw [List.filterMap_append, hreply, ← List.append_assoc]
    exact h.answered.append_right _

theorem Inv.place_recv (h : Inv s) {i : Nat} {w : Bytes} {frames : Message}
    (hi : s.fromWorkers[i]? = some (w :: frames)) (w' : Bytes) :
    (s.workerQueue ++ [w]).count w' + heads w' (s.fromWorkers.eraseIdx i) +
      heads w' s.toWorkers + (s.workers w').busy = (s.workers w').started := by
  have hplace := h.place w'
  rw [heads_perm (perm_eraseIdx hi), heads_cons] at hplace
  rw [List.count_append, List.count_singleton]
  simp only [beq_iff_eq]
  omega

/-- The worker whose message at `i` arrives is nowhere else. -/
structure Alone (s : State) (i : Nat) (w : Bytes) : Prop where
  queue : w ∉ s.workerQueue
  up : heads w (s.fromWorkers.eraseIdx i) = 0
  down : heads w s.toWorkers = 0
  busy : (s.workers w).busy = 0
  started : (s.workers w).started = 1

theorem Inv.alone (h : Inv s) {i : Nat} {w : Bytes} {frames : Message}
    (hi : s.fromWorkers[i]? = some (w :: frames)) : Alone s i w := by
  have hplace := h.place_recv hi w
  have hle := started_le (s.workers w)
  rw [List.count_append, List.count_singleton_self] at hplace
  exact ⟨List.count_eq_zero.mp (by omega), by omega, by omega, by omega, by omega⟩

/-- A READY makes a worker idle. -/
theorem recvReady_inv (h : Inv s) {i : Nat} {w : Bytes}
    (hi : s.fromWorkers[i]? = some (readyMessage w)) (hw : w ∉ s.announced) :
    Inv { s with
      fromWorkers := s.fromWorkers.eraseIdx i
      workerQueue := s.workerQueue ++ [w]
      announced := s.announced ++ [w] } := by
  have halone := h.alone hi
  refine { h with place := h.place_recv hi, ups := fun m hm => ?_, idle := fun w' hw' => ?_,
                  fresh := fun w' hw' => ?_, unannounced := fun w' hw' => ?_, answered := ?_ }
  · refine (h.ups m (List.mem_of_mem_eraseIdx hm)).frame fun w' hhead => ⟨rfl, ?_⟩
    intro hmem
    rcases List.mem_append.mp hmem with hmem | hmem
    · exact hmem
    · rw [List.mem_singleton] at hmem
      exact absurd (hmem ▸ hhead) (heads_eq_zero.mp halone.up m hm)
  · rcases List.mem_append.mp hw' with hw' | hw'
    · exact ⟨(h.idle w' hw').1, List.mem_append_left _ (h.idle w' hw').2⟩
    · rw [List.mem_singleton] at hw'
      subst hw'
      exact ⟨h.unannounced w' hw, List.mem_append_right _ List.mem_cons_self⟩
  · intro hmem
    rcases List.mem_append.mp hmem with hmem | hmem
    · exact h.fresh w' hw' hmem
    · rw [List.mem_singleton] at hmem
      have hstarted := halone.started
      rw [← hmem, hw'] at hstarted
      cases hstarted
  · exact h.unannounced w' fun hmem => hw' (List.mem_append_left _ hmem)
  · refine h.answered.trans (.append_left _ ?_)
    have hfilter := (perm_eraseIdx hi).filterMap replyOf
    rwa [List.filterMap_cons_none (replyOf_ready w)] at hfilter

/-! A change of what one worker holds is seen only where that worker is. -/

section Frame

variable {w : Bytes} {rs : List ClientRequest}

theorem Inv.ups_update (h : Inv s) {ups : List Message} (hsub : ∀ m ∈ ups, m ∈ s.fromWorkers)
    (hup : heads w ups = 0) :
    ∀ m ∈ ups, UpOk s.announced (Function.update s.holding w rs) m := by
  intro m hm
  refine (h.ups m (hsub m hm)).frame fun w' hhead => ⟨Function.update_of_ne ?_ _ _, id⟩
  rintro rfl
  exact heads_eq_zero.mp hup m hm hhead

theorem Inv.downs_update (h : Inv s) (hdown : heads w s.toWorkers = 0) :
    ∀ m ∈ s.toWorkers, DownOk (Function.update s.holding w rs) m := by
  intro m hm
  refine (h.downs m hm).frame fun w' hhead => Function.update_of_ne ?_ _ _
  rintro rfl
  exact heads_eq_zero.mp hdown m hm hhead

theorem Inv.serving_update (h : Inv s) (hbusy : (s.workers w).busy = 0) (w' : Bytes)
    (r : ClientRequest) (hr : s.workers w' = .serving r) :
    Function.update s.holding w rs w' = [r] ∧ r.clientAddress1 ≠ readyStr := by
  have hne : w' ≠ w := by
    rintro rfl
    rw [hr] at hbusy
    cases hbusy
  rw [Function.update_of_ne hne]
  exact h.serving w' r hr

theorem Inv.idle_update (h : Inv s) {w' : Bytes} (hqueue : w' ∈ s.workerQueue) (hne : w' ≠ w) :
    Function.update s.holding w rs w' = [] ∧ w' ∈ s.announced := by
  rw [Function.update_of_ne hne]
  exact h.idle w' hqueue

theorem Inv.unannounced_update (h : Inv s) (hw : w ∈ s.announced) (w' : Bytes)
    (hw' : w' ∉ s.announced) : Function.update s.holding w rs w' = [] := by
  have hne : w' ≠ w := by
    rintro rfl
    exact hw' hw
  rw [Function.update_of_ne hne]
  exact h.unannounced w' hw'

end Frame

/-- A reply frees the worker and goes to the addresses of the request that the worker held. -/
theorem recvReply_inv (h : Inv s) {i : Nat} {w response : Bytes} {r : ClientRequest}
    (hi : s.fromWorkers[i]? = some (w :: [] :: r.reply response)) (hw : s.holding w = [r])
    (hr : r.clientAddress1 ≠ readyStr) :
    Inv { s with
      fromWorkers := s.fromWorkers.eraseIdx i
      workerQueue := s.workerQueue ++ [w]
      holding := Function.update s.holding w []
      served := s.served ++ [⟨w, some r, r.reply response⟩] } := by
  have halone := h.alone hi
  have hannounced : w ∈ s.announced := by
    by_contra hno
    rw [h.unannounced w hno] at hw
    cases hw
  refine { h with place := h.place_recv hi
                  ups := h.ups_update (fun m => List.mem_of_mem_eraseIdx) halone.up
                  downs := h.downs_update halone.down
                  serving := h.serving_update halone.busy
                  unannounced := h.unannounced_update hannounced
                  idle := fun w' hw' => ?_, ledger := fun w' => ?_
                  addressed := fun e he => ?_, answered := ?_ }
  · rcases List.mem_append.mp hw' with hold | hnew
    · refine h.idle_update hold ?_
      rintro rfl
      exact halone.queue hold
    · rw [List.mem_singleton] at hnew
      subst hnew
      exact ⟨Function.update_self _ _ _, hannounced⟩
  · have hold := h.ledger w'
    dsimp only
    rw [servedBy_append]
    rcases eq_or_ne w w' with rfl | hne
    · rw [hold, hw, Function.update_self, if_pos rfl]
      simp
    · rw [hold, Function.update_of_ne (Ne.symm hne), if_neg hne, List.append_nil]
  · rcases List.mem_append.mp he with he | he
    · exact h.addressed e he
    · rw [List.mem_singleton] at he
      subst he
      exact ⟨r, response, rfl, rfl⟩
  · refine h.answered.trans ?_
    have hfilter := (perm_eraseIdx hi).filterMap replyOf
    rw [List.filterMap_cons_some (replyOf_reply hr w response)] at hfilter
    dsimp only
    rw [List.map_append, List.append_assoc]
    exact hfilter.append_left _

theorem balanceWorker_inv (h : Inv s) {i : Nat} (ht : balanceWorker i s = some t) :
    Inv t ∧ t.workerQueue ≠ [] := by
  unfold balanceWorker at ht
  split at ht
  · cases ht
  · next m hi =>
    have hmem : m ∈ s.fromWorkers := List.mem_of_getElem? hi
    rcases h.ups m hmem with ⟨w, rfl, hw⟩ | ⟨w, r, response, rfl, hw, hr⟩
    · rw [recvFromWorker_ready] at ht
      cases ht
      exact ⟨recvReady_inv h hi hw, List.append_ne_nil_of_right_ne_nil _ (List.cons_ne_nil _ _)⟩
    · rw [recvFromWorker_reply hr] at ht
      simp only [hw, List.tail_cons, List.head?_cons] at ht
      cases ht
      exact ⟨recvReply_inv h hi hw hr,
        List.append_ne_nil_of_right_ne_nil _ (List.cons_ne_nil _ _)⟩

/-- A request goes to a worker that holds nothing. -/
theorem handRequest_inv (h : Inv s) {i : Nat} {r : ClientRequest}
    (hr : r.clientAddress1 ≠ readyStr) {w : Bytes} {queue : List Bytes}
    (hqueue : s.workerQueue = w :: queue) :
    Inv { s with
      fromClients := s.fromClients.eraseIdx i
      workerQueue := queue
      toWorkers := s.toWorkers ++ [w :: [] :: r.frames]
      received := s.received ++ [r.frames]
      handed := s.handed ++ [(w, r)]
      holding := Function.update s.holding w (s.holding w ++ [r]) } := by
  have hplace : ∀ w', queue.count w' + (if w = w' then 1 else 0) + heads w' s.fromWorkers +
      heads w' s.toWorkers + (s.workers w').busy = (s.workers w').started := by
    intro w'
    have hold := h.place w'
    rw [hqueue, List.count_cons] at hold
    simpa only [beq_iff_eq] using hold
  have hself := hplace w
  rw [if_pos rfl] at hself
  have hle := started_le (s.workers w)
  have hup : heads w s.fromWorkers = 0 := by omega
  have hdown : heads w s.toWorkers = 0 := by omega
  have hrest : w ∉ queue := List.count_eq_zero.mp (by omega)
  have hbusy : (s.workers w).busy = 0 := by omega
  have hmem : w ∈ s.workerQueue := hqueue ▸ List.mem_cons_self
  obtain ⟨hnil, hannounced⟩ := h.idle w hmem
  refine { h with ups := h.ups_update (fun m => id) hup
                  serving := h.serving_update hbusy
                  unannounced := h.unannounced_update hannounced
                  place := fun w' => ?_, clients := fun m hm => ?_, downs := fun m hm => ?_
                  idle := fun w' hw' => ?_, received := ?_, ledger := fun w' => ?_ }
  · have hold := hplace w'
    dsimp only
    rw [heads_append, heads_cons, heads_nil]
    omega
  · exact h.clients m (List.mem_of_mem_eraseIdx hm)
  · have hheld : Function.update s.holding w (s.holding w ++ [r]) w = [r] := by
      rw [Function.update_self, hnil, List.nil_append]
    rcases List.mem_append.mp hm with hold | hnew
    · exact h.downs_update hdown m hold
    · exact ⟨w, r, List.mem_singleton.mp hnew, hheld, hr⟩
  · refine h.idle_update (hqueue ▸ List.mem_cons_of_mem _ hw') ?_
    rintro rfl
    exact hrest hw'
  · simp [h.received]
  · have hold := h.ledger w'
    dsimp only
    rw [handedTo_append, List.map_append, hold]
    rcases eq_or_ne w w' with rfl | hne
    · rw [Function.update_self, if_pos rfl, List.map_append, List.append_assoc]
    · rw [Function.update_of_ne (Ne.symm hne), if_neg hne, List.map_nil, List.append_nil]

theorem balanceClient_inv (h : Inv s) (hqueue : s.workerQueue ≠ []) {i : Nat}
    (ht : balanceClient i s = some t) : Inv t := by
  unfold balanceClient at ht
  split at ht
  · cases ht
  · next m hi =>
    obtain ⟨r, rfl, hr⟩ := h.clients m (List.mem_of_getElem? hi)
    obtain ⟨w, queue, hcons⟩ := List.exists_cons_of_ne_nil hqueue
    rw [recvFromClient_frames, hcons] at ht
    cases ht
    exact handRequest_inv h hr hcons

theorem iteration_inv (h : Inv s) {workerEvent clientEvent : Option Nat}
    (ht : iteration workerEvent clientEvent s = some t) : Inv t := by
  unfold iteration at ht
  split at ht
  · cases ht
  · next hpoll =>
    split at ht
    · cases ht
    · exact (balanceWorker_inv h ht).1
    · refine balanceClient_inv h (fun hnil => hpoll ⟨rfl, ?_⟩) ht
      rw [hnil]
      rfl
    · obtain ⟨s', hs', ht⟩ := Option.bind_eq_some_iff.mp ht
      obtain ⟨h', hqueue⟩ := balanceWorker_inv h hs'
      exact balanceClient_inv h' hqueue ht

/-- The step lemma. -/
theorem keeps_inv : machine.Keeps Inv := by
  intro s l t h ht
  cases l with
  | workerReady w =>
    simp only [machine, step] at ht
    split at ht
    · next hw => cases ht; exact workerReady_inv h hw
    · cases ht
  | clientRequest r =>
    simp only [machine, step] at ht
    split at ht
    · next hr => cases ht; exact clientRequest_inv h hr
    · cases ht
  | workerRecv i => exact arrive_inv h ht
  | workerReply w response =>
    simp only [machine, step] at ht
    split at ht
    · next r hw => cases ht; exact workerReply_inv h hw response
    · cases ht
  | balance workerEvent clientEvent => exact iteration_inv h ht

end Steps

/-! ## 6. The protocol -/

/-- The protocol, as the balancer sees it: a worker holds a request from the moment it is sent to
it until its reply is received. -/
structure Balanced (s : State) : Prop where
  queue_nodup : s.workerQueue.Nodup
  queue_idle : ∀ w ∈ s.workerQueue, s.holding w = []
  /-- No assertion fails and the front of an empty queue is never taken. -/
  never_failed : s.failed = false
  /-- No worker is sent a second request before it has replied. -/
  one_request : ∀ w, (s.holding w).length ≤ 1
  placed : ∀ w ∈ s.announced, (w ∈ s.workerQueue ∧ s.holding w = []) ∨
    (w ∉ s.workerQueue ∧ ∃ r, s.holding w = [r])
  handed_once : s.received = s.handed.map (·.2.frames)
  /-- What a worker was given is what it has answered, in order, and what it holds. -/
  given : ∀ w, (handedTo s.handed w).map some = servedBy s.served w ++ (s.holding w).map some
  addressed : ∀ e ∈ s.served, ∃ r response, e.request = some r ∧ e.reply = r.reply response
  /-- Each reply of a worker is on its way to the balancer or was sent on, once. -/
  sent_once : s.answers.Perm
    (s.served.map (fun e => (e.worker, e.reply)) ++ s.fromWorkers.filterMap replyOf)

/-- A message with a head is counted. -/
theorem heads_pos {w : Bytes} {ms : List Message} (h : heads w ms ≠ 0) :
    ∃ m ∈ ms, m.head? = some w := by
  by_contra hno
  push Not at hno
  exact h (heads_eq_zero.mpr hno)

/-- An announced worker that is not idle holds a request. -/
theorem Inv.holds {s : State} (h : Inv s) {w : Bytes} (hw : w ∈ s.announced)
    (hqueue : w ∉ s.workerQueue) : ∃ r, s.holding w = [r] := by
  have hplace := h.place w
  rw [List.count_eq_zero.mpr hqueue] at hplace
  cases hs : s.workers w with
  | notStarted => exact absurd hw (h.fresh w hs)
  | serving r => exact ⟨r, (h.serving w r hs).1⟩
  | waiting =>
    rw [hs] at hplace
    simp only [WorkerState.busy, WorkerState.started] at hplace
    rcases Nat.eq_zero_or_pos (heads w s.toWorkers) with hdown | hdown
    · have hup : heads w s.fromWorkers ≠ 0 := by omega
      obtain ⟨m, hm, hhead⟩ := heads_pos hup
      rcases h.ups m hm with ⟨w', rfl, hw'⟩ | ⟨w', r, response, rfl, hhold, -⟩
      · cases hhead
        exact absurd hw hw'
      · cases hhead
        exact ⟨r, hhold⟩
    · obtain ⟨m, hm, hhead⟩ := heads_pos hdown.ne'
      obtain ⟨w', r, rfl, hhold, -⟩ := h.downs m hm
      cases hhead
      exact ⟨r, hhold⟩

theorem balanced (s : State) (hs : machine.Reachable s) : Balanced s := by
  have h := hs.invariant keeps_inv inv_new
  refine ⟨?_, fun w hw => (h.idle w hw).1, h.ok, fun w => ?_, fun w hw => ?_, h.received, h.ledger,
    h.addressed, h.answered⟩
  · rw [List.nodup_iff_count_le_one]
    intro w
    have hplace := h.place w
    have hle := started_le (s.workers w)
    omega
  · by_cases hw : w ∈ s.announced
    · by_cases hqueue : w ∈ s.workerQueue
      · rw [(h.idle w hqueue).1]
        exact Nat.zero_le _
      · obtain ⟨r, hr⟩ := h.holds hw hqueue
        rw [hr]
        exact le_refl 1
    · rw [h.unannounced w hw]
      exact Nat.zero_le _
  · by_cases hqueue : w ∈ s.workerQueue
    · exact .inl ⟨hqueue, (h.idle w hqueue).1⟩
    · exact .inr ⟨hqueue, h.holds hw hqueue⟩

/-- Two workers and a client: the request is handed to the first worker and answered. -/
def oneRequest : List Label :=
  [.workerReady (bytes "w1"), .workerReady (bytes "w2"),
    .clientRequest ⟨bytes "c1", bytes "c2", bytes "onet.pl"⟩, .balance (some 0) none,
    .balance (some 0) (some 0), .workerRecv 0, .workerReply (bytes "w1") (bytes "ok"),
    .balance (some 0) none]

theorem balanced_one : ∃ s, machine.run State.new oneRequest = some s ∧
    s.served = [⟨bytes "w1", some ⟨bytes "c1", bytes "c2", bytes "onet.pl"⟩,
      [bytes "c1", bytes "c2", [], bytes "ok"]⟩] ∧ Balanced s :=
  ⟨_, rfl, rfl, balanced _ ⟨oneRequest, rfl⟩⟩

end LoadBalancing

end SafeKiddo
