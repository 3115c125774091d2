import SafeKiddo.BackendReplies
import SafeKiddo.LoggerShutdown

/-!
# A run of the server

`Server::run` after its start: the load balancer, the worker threads with all of their rounds, the
logger thread, and the stop, as one machine. `requestStop` closes the context of the sockets; from
then on a call of a socket may end with ETERM, which ends the balancing and the workers. `run` joins
the workers, stops the logger and joins it.

Results:
1. `Inv`: which records of the replies have come to the logger; `keeps_inv` is its step lemma.
2. `committed_of_answers`: the log has no record without a reply, and none twice.
3. `stopped_accounts`: after the stop each record of a reply was committed, dropped or lost, and the
   stop itself drops none.
-/

namespace SafeKiddo

open ByteString

namespace ServerRun

open BackendCalls (ReadAs)
open LoadBalancing (ClientRequest)
open RequestsContainer (Drained)

/-! ## 1. The code -/

structure Params where
  protobuf : Protobuf
  toSimpleString : Int → Bytes
  /-- The addresses of the sockets of the worker threads. -/
  workers : List Bytes
  nodup : workers.Nodup
  requestLoggerMaxQueueLength : Nat

/-- Where a worker thread is. -/
inductive Thread
  /-- Before its READY. -/
  | starting
  /-- Waits for a request or serves one, as the balancer has it. -/
  | inLoop
  /-- Between the reply and the call of `logRequest`. -/
  | logging (call : LogCall)
  | finished

/-- Where `run` is. -/
inductive Place
  | loadBalancing
  | joiningWorkers
  | stoppingLogger
  | joiningLogger
  | stopped
  deriving DecidableEq

/-- A round whose reply was sent. -/
structure Answer where
  worker : Bytes
  clientRequest : ClientRequest
  request : Request
  round : Round

/-- The members of the server with its threads, and the history: the answers, and the lines that
came when the queue of the logger was full. -/
structure State (n : Nat) where
  balancer : LoadBalancing.State
  threads : Bytes → Thread
  logger : LoggerThread.State n
  terminated : Bool
  place : Place
  answers : List Answer
  refused : List Bytes

inductive Label (n : Nat)
  | workerReady (worker : Bytes)
  | clientRequest (request : ClientRequest)
  | balance (workerEvent clientEvent : Option Nat)
  /-- The message at `i` on the way to the workers arrives. -/
  | workerRecv (i : Nat)
  /-- The worker has read `request`, handles it and replies. -/
  | workerReply (worker : Bytes) (request : Request) (env : TimeEnv) (conn : DBConnection)
      (webroot : Webroot)
  | logRequest (worker : Bytes)
  /-- The management thread closes the context. -/
  | requestStop
  /-- A call of the worker's socket ends with ETERM. -/
  | workerEnds (worker : Bytes)
  | balancingEnds
  | joinWorkers
  | stopLogger
  /-- The logger thread goes on. -/
  | logger (l : LoggerThread.Label n)
  | joinLogger

def Thread.isFinished : Thread → Bool
  | finished => true
  | _ => false

/-- The line that `logRequest` queues. -/
def lineOf (params : Params) (call : LogCall) : Checked Bytes :=
  logRequest params.toSimpleString call.requestUrl call.childUuid call.result

/-- Only intentional requests are logged. -/
def afterReply (round : Round) : Thread :=
  match round.logCall with
  | some call => .logging call
  | none => .inLoop

section Code

variable {n : Nat}

def init (params : Params) : State n where
  balancer := .new
  threads w := if w ∈ params.workers then .starting else .finished
  logger := .new
  terminated := false
  place := .loadBalancing
  answers := []
  refused := []

def State.setThread (s : State n) (worker : Bytes) (thread : Thread) : State n :=
  { s with threads := Function.update s.threads worker thread }

def stepBalancer (s : State n) (l : LoadBalancing.Label) : Option (State n) :=
  (LoadBalancing.step s.balancer l).map fun balancer => { s with balancer }

def stepLogger (params : Params) (s : State n) (l : LoggerThread.Label n) : Option (State n) :=
  (LoggerThread.step params.requestLoggerMaxQueueLength s.logger l).map fun logger =>
    { s with logger }

/-- The queue is full. -/
def isFull (params : Params) (s : State n) : Bool :=
  s.logger.loop.container.requests.size = params.requestLoggerMaxQueueLength

def step (params : Params) (s : State n) : Label n → Option (State n)
  | .workerReady worker =>
    match s.threads worker with
    | .starting => stepBalancer (s.setThread worker .inLoop) (.workerReady worker)
    | _ => none
  | .clientRequest request => stepBalancer s (.clientRequest request)
  | .balance workerEvent clientEvent =>
    if s.place = .loadBalancing then stepBalancer s (.balance workerEvent clientEvent) else none
  | .workerRecv i =>
    match s.balancer.toWorkers[i]?.bind List.head? with
    | some worker =>
      match s.threads worker with
      | .inLoop => stepBalancer s (.workerRecv i)
      | _ => none
    | none => none
  | .workerReply worker request env conn webroot =>
    match s.threads worker, s.balancer.workers worker, handleRequest env conn webroot request with
    | .inLoop, .serving r, some round =>
      if ReadAs params.protobuf r.requestMsg request then
        stepBalancer
          { s.setThread worker (afterReply round) with
            answers := s.answers ++ [⟨worker, r, request, round⟩] }
          (.workerReply worker (params.protobuf.serializeResponse round.response))
      else none
    | _, _, _ => none
  | .logRequest worker =>
    match s.threads worker with
    | .logging call =>
      (lineOf params call).bind fun line =>
        stepLogger params
          { s.setThread worker .inLoop with
            refused := if isFull params s then s.refused ++ [line] else s.refused }
          (.putRequest line)
    | _ => none
  | .requestStop => some { s with terminated := true }
  | .workerEnds worker =>
    match s.threads worker with
    | .logging _ => none
    | _ => if s.terminated then some (s.setThread worker .finished) else none
  | .balancingEnds =>
    if s.place = .loadBalancing ∧ s.terminated then some { s with place := .joiningWorkers }
    else none
  | .joinWorkers =>
    if s.place = .joiningWorkers ∧ params.workers.all (fun w => (s.threads w).isFinished) then
      some { s with place := .stoppingLogger }
    else none
  | .stopLogger =>
    if s.place = .stoppingLogger then
      stepLogger params { s with place := .joiningLogger } .requestStop
    else none
  | .logger l => if l.isOwn then stepLogger params s l else none
  | .joinLogger =>
    match s.place, s.logger.pc with
    | .joiningLogger, .finished => some { s with place := .stopped }
    | _, _ => none

def machine (n : Nat) (params : Params) : Machine (State n) (Label n) := ⟨init params, step params⟩

end Code

/-! ## 2. The logger -/

section Logger

variable {n maxLength : Nat}

/-- What only `putRequest` and `requestStop` change. -/
structure SameInput (c c' : RequestsContainer.State) : Prop where
  stopRequested : c'.stopRequested = c.stopRequested
  accepted : c'.accepted = c.accepted
  counted : c'.stats.numLogRequests = c.stats.numLogRequests

theorem SameInput.refl (c : RequestsContainer.State) : SameInput c c := ⟨rfl, rfl, rfl⟩

theorem SameInput.of_eq {c c' : RequestsContainer.State} (h : c' = c) : SameInput c c' := by
  subst h
  exact .refl c'

theorem afterWait_sameInput (call : RequestsContainer.GetCall) (c : RequestsContainer.State) :
    SameInput c (RequestsContainer.afterWait call c) := by
  unfold RequestsContainer.afterWait
  split <;> exact ⟨rfl, rfl, rfl⟩

theorem getRequests_sameInput (mayBlock : Bool) (copyData : Bytes) (maxRequests : Nat)
    (c : RequestsContainer.State) :
    SameInput c (RequestsContainer.getRequests mayBlock copyData maxRequests c) := by
  unfold RequestsContainer.getRequests
  split_ifs
  · exact ⟨rfl, rfl, rfl⟩
  · exact ⟨rfl, rfl, rfl⟩
  · exact afterWait_sameInput _ c
  · exact ⟨rfl, rfl, rfl⟩

theorem continue_sameInput {c c' : RequestsContainer.State}
    (h : RequestsContainer.continueStep c = some c') : SameInput c c' := by
  unfold RequestsContainer.continueStep at h
  split at h
  · cases h
    unfold RequestsContainer.wake
    split
    · exact ⟨rfl, rfl, rfl⟩
    · exact afterWait_sameInput _ c
  · cases h
    exact ⟨rfl, rfl, rfl⟩
  · cases h
    unfold RequestsContainer.copyStep
    split
    · split <;> exact ⟨rfl, rfl, rfl⟩
    · exact ⟨rfl, rfl, rfl⟩
  · cases h

theorem loopStep_sameInput {loop loop' : LoggingLoop.State n} {dbOk : Bool}
    (h : LoggingLoop.loopStep maxLength dbOk loop = some loop') :
    SameInput loop.container loop'.container := by
  unfold LoggingLoop.loopStep at h
  split at h
  · cases h
    exact .of_eq (LoggerThread.roundStep_same dbOk loop).container
  · cases h
    exact .of_eq (LoggerThread.copyStartStep_same dbOk loop).container
  · unfold LoggingLoop.batchHeadStep at h
    split at h
    · obtain ⟨c, hc, rfl⟩ := Option.map_eq_some_iff.mp h
      simp only [RequestsContainer.step] at hc
      split at hc <;> cases hc
      exact getRequests_sameInput _ _ _ _
    · cases h
      exact .refl _
  · split at h
    · cases h
      exact .refl _
    · cases h
  · cases h
    unfold LoggingLoop.sendingStep
    split <;> exact .refl _
  · cases h
    exact .of_eq (LoggerThread.copyEndStep_same dbOk loop).container
  · next i _ =>
    cases h
    exact .of_eq (LoggerThread.finalWaitStep_same dbOk i loop).container
  · cases h

/-- The logger thread itself neither accepts nor stops. -/
theorem own_sameInput {logger logger' : LoggerThread.State n} {l : LoggerThread.Label n}
    (hl : l.isOwn = true) (h : LoggerThread.step maxLength logger l = some logger') :
    SameInput logger.loop.container logger'.loop.container := by
  unfold LoggerThread.step at h
  split at h
  · cases hl
  · cases hl
  · next ok _ =>
    cases h
    cases ok <;> exact .refl _
  · next dbOk _ =>
    unfold LoggerThread.loopStep at h
    split at h
    · cases h
      exact .refl _
    · cases h
      exact .refl _
    · obtain ⟨loop, hloop, rfl⟩ := Option.map_eq_some_iff.mp h
      simp only [LoggingLoop.step] at hloop
      split at hloop
      · exact loopStep_sameInput hloop
      · obtain ⟨c, hc, rfl⟩ := Option.map_eq_some_iff.mp hloop
        exact continue_sameInput hc
  · cases h
    exact .refl _
  · obtain ⟨c, hc, rfl⟩ := Option.map_eq_some_iff.mp h
    simp only [RequestsContainer.step] at hc
    split at hc <;> cases hc
    exact ⟨rfl, rfl, rfl⟩
  · cases h
    exact .refl _
  · cases h

theorem own_finished {logger : LoggerThread.State n} {l : LoggerThread.Label n}
    (hpc : logger.pc = .finished) (hl : l.isOwn = true) :
    LoggerThread.step maxLength logger l = none := by
  cases l with
  | putRequest request => cases hl
  | requestStop => cases hl
  | _ => simp [LoggerThread.step, hpc]

/-- Before the stop only a full queue refuses a line. -/
theorem putRequest_running {c : RequestsContainer.State} (hrun : c.stopRequested = false)
    (line : Bytes) :
    (RequestsContainer.putRequest maxLength line c).accepted =
      (if c.requests.size = maxLength then c.accepted else c.accepted ++ [line]) ∧
    (RequestsContainer.putRequest maxLength line c).stopRequested = false ∧
    (RequestsContainer.putRequest maxLength line c).stats.numLogRequests =
      c.stats.numLogRequests + 1 := by
  unfold RequestsContainer.putRequest
  by_cases hfull : c.requests.size = maxLength
  · rw [if_pos (Or.inl hfull), if_pos hfull]
    exact ⟨rfl, hrun, rfl⟩
  · have hno : ¬ (c.requests.size = maxLength ∨ c.stopRequested = true) := by
      rw [hrun]
      simpa using hfull
    rw [if_neg hno, if_neg hfull]
    exact ⟨rfl, hrun, rfl⟩

end Logger

/-! ## 3. The lines of the answers -/

def Answer.line? (params : Params) (a : Answer) : Option Bytes :=
  a.round.logCall.bind (lineOf params)

/-- What the rounds whose reply was sent have to log. -/
def answerLines (params : Params) (answers : List Answer) : List Bytes :=
  answers.filterMap (Answer.line? params)

def Thread.line? (params : Params) : Thread → Option Bytes
  | .logging call => lineOf params call
  | _ => none

/-- What the workers have yet to log. -/
def pendingLines (params : Params) (threads : Bytes → Thread) : List Bytes :=
  params.workers.filterMap fun w => (threads w).line? params

/-- The reply of the answer, as it goes to the balancer. -/
def Answer.reply (params : Params) (a : Answer) : Bytes × LoadBalancing.Message :=
  (a.worker, a.clientRequest.reply (params.protobuf.serializeResponse a.round.response))

/-- A worker has computed the answer for the request that it was given. It is logged when the
request was intentional, with the code that was sent. -/
structure Answer.Sound (params : Params) (a : Answer) : Prop where
  read : ReadAs params.protobuf a.clientRequest.requestMsg a.request
  computed : ∃ env conn webroot, handleRequest env conn webroot a.request = some a.round
  logged : a.request.userAction = .intentionalRequest ↔ (a.line? params).isSome
  code : ∀ call, a.round.logCall = some call →
    call.result.responseCode = some a.round.response.result

theorem filterMap_update {α β γ : Type} [DecidableEq α] (f : β → Option γ) (t : α → β)
    {l : List α} (hnodup : l.Nodup) {a : α} (ha : a ∈ l) (b : β) :
    ((l.filterMap fun x => f (Function.update t a b x) : List γ) : Multiset γ) +
        (f (t a)).toList =
      (l.filterMap fun x => f (t x) : List γ) + (f b).toList := by
  obtain ⟨before, after, rfl⟩ := List.append_of_mem ha
  obtain ⟨hbefore, hafter⟩ : a ∉ before ∧ a ∉ after := by
    rw [List.nodup_append, List.nodup_cons] at hnodup
    exact ⟨fun hmem => hnodup.2.2 a hmem a List.mem_cons_self rfl, hnodup.2.1.1⟩
  have hsame : ∀ l' : List α, a ∉ l' →
      l'.filterMap (fun x => f (Function.update t a b x)) = l'.filterMap fun x => f (t x) := by
    intro l' hl'
    refine List.filterMap_congr fun x hx => ?_
    have hne : x ≠ a := fun heq => hl' (heq ▸ hx)
    rw [Function.update_of_ne hne]
  have hcons : ∀ (o : Option γ) (g : α → Option γ), g a = o →
      List.filterMap g (a :: after) = o.toList ++ List.filterMap g after := by
    intro o g hg
    rw [List.filterMap_cons, hg]
    cases o <;> rfl
  rw [List.filterMap_append, List.filterMap_append, hcons (f b) _ (by rw [Function.update_self]),
    hcons (f (t a)) _ rfl, hsame before hbefore, hsame after hafter]
  simp only [← Multiset.coe_add]
  ac_rfl

section Lines

variable {params : Params}

theorem pendingLines_update (threads : Bytes → Thread) {w : Bytes} (hw : w ∈ params.workers)
    (thread : Thread) :
    (pendingLines params (Function.update threads w thread) : Multiset Bytes) +
        ((threads w).line? params).toList =
      pendingLines params threads + (thread.line? params).toList :=
  filterMap_update (Thread.line? params) threads params.nodup hw thread

/-- A thread that had nothing to log, and still has not. -/
theorem pendingLines_same (threads : Bytes → Thread) (w : Bytes) {thread : Thread}
    (h : thread.line? params = (threads w).line? params) :
    pendingLines params (Function.update threads w thread) = pendingLines params threads := by
  refine List.filterMap_congr fun x _ => ?_
  by_cases hx : x = w
  · subst hx
    rw [Function.update_self, h]
  · rw [Function.update_of_ne hx]

theorem line?_afterReply (round : Round) :
    (afterReply round).line? params = round.logCall.bind (lineOf params) := by
  unfold afterReply
  cases round.logCall <;> rfl

/-- A round that ends can be logged: the assertion on the escaped url does not fire. -/
theorem sound_of_handleRequest {env : TimeEnv} {conn : DBConnection} {webroot : Webroot}
    {a : Answer} (hread : ReadAs params.protobuf a.clientRequest.requestMsg a.request)
    (h : handleRequest env conn webroot a.request = some a.round) :
    a.Sound params ∧ ∀ call, a.round.logCall = some call → (lineOf params call).isSome := by
  obtain ⟨path, result, response, -, -, hresponse, hround⟩ := handleRequest_eq_some.mp h
  have hcode : result.responseCode = some response.result := by
    obtain ⟨responseCode, hcode, hrest⟩ := Option.bind_eq_some_iff.mp hresponse
    obtain ⟨usedProfile, -, hpure⟩ := Option.bind_eq_some_iff.mp hrest
    cases hpure
    exact hcode
  have hcall : ∀ call, a.round.logCall = some call →
      call.result.responseCode = some a.round.response.result := by
    intro call hcall
    rw [hround] at hcall ⊢
    simp only at hcall
    split at hcall <;> cases hcall
    exact hcode
  have hline : ∀ call, a.round.logCall = some call → (lineOf params call).isSome := by
    intro call hlog
    rw [lineOf, logRequest_eq _ _ _ (hcall call hlog)]
    rfl
  refine ⟨⟨hread, ⟨env, conn, webroot, h⟩, ?_, hcall⟩, hline⟩
  unfold Answer.line?
  constructor
  · intro hact
    have hlog : a.round.logCall = some ⟨shortenUrl a.request.url, a.request.userId, result⟩ := by
      rw [hround]
      exact if_pos hact
    rw [hlog]
    exact hline _ hlog
  · intro hsome
    by_contra hact
    have hlog : a.round.logCall = none := by
      rw [hround]
      exact if_neg hact
    rw [hlog] at hsome
    cases hsome

end Lines

/-! ## 4. The invariant -/

/-- The logger has not been stopped. -/
def Place.running : Place → Bool
  | .loadBalancing => true
  | .joiningWorkers => true
  | .stoppingLogger => true
  | _ => false

/-- The workers have not been joined. -/
def Place.working : Place → Bool
  | .loadBalancing => true
  | .joiningWorkers => true
  | _ => false

section Invariant

variable {n : Nat} {params : Params} {s s' : State n}

/-- Each line of an answer was accepted, refused by a full queue, or is with its worker. -/
structure Counts (params : Params) (answers : List Answer) (threads : Bytes → Thread)
    (container : RequestsContainer.State) (refused : List Bytes) : Prop where
  lines : (answerLines params answers : Multiset Bytes) =
    container.accepted + refused + pendingLines params threads
  counted : container.stats.numLogRequests + (pendingLines params threads).length =
    (answerLines params answers).length

structure Inv (params : Params) (s : State n) : Prop where
  logger : (LoggerThread.machine n params.requestLoggerMaxQueueLength).Reachable s.logger
  outsiders : ∀ w, w ∉ params.workers → s.threads w = .finished
  running : s.place.running = true → s.logger.loop.container.stopRequested = false
  joined : s.place.working = false → ∀ w, s.threads w = .finished
  ended : s.place = .stopped → s.logger.pc = .finished
  counts : Counts params s.answers s.threads s.logger.loop.container s.refused
  sound : ∀ a ∈ s.answers, a.Sound params
  loggable : ∀ w call, s.threads w = .logging call → (lineOf params call).isSome
  sent : s.balancer.answers = s.answers.map (Answer.reply params)

theorem inv_init (n : Nat) (params : Params) : Inv params (init params : State n) := by
  have hline : ∀ w, ((init params : State n).threads w).line? params = none := by
    intro w
    simp only [init]
    split <;> rfl
  have hpending : pendingLines params (init params : State n).threads = [] :=
    List.filterMap_eq_nil_iff.mpr fun w _ => hline w
  refine ⟨⟨[], rfl⟩, fun w hw => if_neg hw, fun _ => rfl, fun hplace => ?_, fun hplace => ?_,
    ⟨?_, ?_⟩, fun a ha => ?_, ?_, rfl⟩
  · cases hplace
  · cases hplace
  · rw [hpending]
    rfl
  · rw [hpending]
    rfl
  · cases ha
  · intro w call hcall
    have hnone := hline w
    rw [hcall] at hnone
    simp only [init] at hcall
    split at hcall <;> cases hcall

theorem Inv.mem_workers (h : Inv params s) {w : Bytes} (hw : s.threads w ≠ .finished) :
    w ∈ params.workers := by
  by_contra hout
  exact hw (h.outsiders w hout)

theorem Inv.is_working (h : Inv params s) {w : Bytes} (hw : s.threads w ≠ .finished) :
    s.place.working = true := by
  by_contra hno
  exact hw (h.joined (Bool.eq_false_iff.mpr hno) w)

theorem running_of_working {place : Place} (h : place.working = true) : place.running = true := by
  cases place with
  | loadBalancing => rfl
  | joiningWorkers => rfl
  | _ => cases h

theorem Inv.logs (h : Inv params s) {l : LoggerThread.Label n} {logger : LoggerThread.State n}
    (hlogger : LoggerThread.step params.requestLoggerMaxQueueLength s.logger l = some logger) :
    (LoggerThread.machine n params.requestLoggerMaxQueueLength).Reachable logger := by
  have hstep : (LoggerThread.machine n params.requestLoggerMaxQueueLength).step s.logger l =
      some logger := hlogger
  exact h.logger.step hstep

/-- A step of the balancer that is no reply of a worker. -/
theorem answers_of_balancer {b b' : LoadBalancing.State} {l : LoadBalancing.Label}
    (hl : ∀ w r, l ≠ .workerReply w r) (h : LoadBalancing.step b l = some b') :
    b'.answers = b.answers := by
  cases l with
  | workerReady worker =>
    simp only [LoadBalancing.step] at h
    split at h <;> cases h
    rfl
  | clientRequest request =>
    simp only [LoadBalancing.step] at h
    split at h <;> cases h
    rfl
  | workerRecv i =>
    simp only [LoadBalancing.step, LoadBalancing.arrive] at h
    split at h
    · split at h
      · split at h <;> cases h <;> rfl
      · cases h
    · cases h
  | workerReply worker response => exact absurd rfl (hl worker response)
  | balance workerEvent clientEvent =>
    have hworker : ∀ {i b b'}, LoadBalancing.balanceWorker i b = some b' →
        b'.answers = b.answers := by
      intro i b b' hb
      unfold LoadBalancing.balanceWorker at hb
      split at hb
      · cases hb
      · split at hb <;> cases hb <;> rfl
    have hclient : ∀ {i b b'}, LoadBalancing.balanceClient i b = some b' →
        b'.answers = b.answers := by
      intro i b b' hb
      unfold LoadBalancing.balanceClient at hb
      split at hb
      · cases hb
      · split at hb <;> cases hb <;> rfl
    simp only [LoadBalancing.step, LoadBalancing.iteration] at h
    split at h
    · cases h
    · split at h
      · cases h
      · exact hworker h
      · exact hclient h
      · obtain ⟨b₁, hb₁, hb'⟩ := Option.bind_eq_some_iff.mp h
        exact (hclient hb').trans (hworker hb₁)

theorem Inv.stepBalancer (h : Inv params s) {l : LoadBalancing.Label}
    (hs : ServerRun.stepBalancer s l = some s') (hl : ∀ w r, l ≠ .workerReply w r) :
    Inv params s' := by
  obtain ⟨b, hb, rfl⟩ := Option.map_eq_some_iff.mp hs
  exact ⟨h.logger, h.outsiders, h.running, h.joined, h.ended, h.counts, h.sound, h.loggable,
    (answers_of_balancer hl hb).trans h.sent⟩

theorem Inv.outsiders_update (h : Inv params s) {w : Bytes} {thread : Thread}
    (hw : w ∈ params.workers ∨ thread = .finished) (w' : Bytes) (hw' : w' ∉ params.workers) :
    Function.update s.threads w thread w' = .finished := by
  by_cases heq : w' = w
  · subst heq
    rw [Function.update_self]
    exact hw.resolve_left hw'
  · rw [Function.update_of_ne heq, h.outsiders w' hw']

theorem Inv.joined_update (h : Inv params s) {w : Bytes} {thread : Thread}
    (hplace : s.place.working = true ∨ thread = .finished) (hjoined : s.place.working = false)
    (w' : Bytes) : Function.update s.threads w thread w' = .finished := by
  have hthread : thread = .finished :=
    hplace.resolve_left fun hworking => by
      rw [hjoined] at hworking
      cases hworking
  by_cases heq : w' = w
  · subst heq
    rw [Function.update_self, hthread]
  · rw [Function.update_of_ne heq, h.joined hjoined w']

theorem Inv.loggable_update (h : Inv params s) {w : Bytes} {thread : Thread}
    (hline : ∀ call, thread = .logging call → (lineOf params call).isSome) (w' : Bytes)
    (call : LogCall) (hcall : Function.update s.threads w thread w' = .logging call) :
    (lineOf params call).isSome := by
  by_cases heq : w' = w
  · subst heq
    rw [Function.update_self] at hcall
    exact hline call hcall
  · rw [Function.update_of_ne heq] at hcall
    exact h.loggable w' call hcall

/-- A worker goes on, with nothing to log before and after. -/
theorem Inv.setThread (h : Inv params s) {w : Bytes} {thread : Thread}
    (hw : w ∈ params.workers ∨ thread = .finished)
    (hplace : s.place.working = true ∨ thread = .finished)
    (hbefore : (s.threads w).line? params = none) (hafter : thread.line? params = none)
    (hcall : ∀ call, thread ≠ .logging call) : Inv params (s.setThread w thread) := by
  have hpending : pendingLines params (Function.update s.threads w thread) =
      pendingLines params s.threads := pendingLines_same _ _ (hafter.trans hbefore.symm)
  refine ⟨h.logger, h.outsiders_update hw, h.running, h.joined_update hplace, h.ended, ⟨?_, ?_⟩,
    h.sound, h.loggable_update fun call hlogging => absurd hlogging (hcall call), h.sent⟩
  · show _ = _ + (pendingLines params (Function.update s.threads w thread) : Multiset Bytes)
    rw [hpending]
    exact h.counts.lines
  · show _ + (pendingLines params (Function.update s.threads w thread)).length = _
    rw [hpending]
    exact h.counts.counted

theorem answerLines_concat (answers : List Answer) (a : Answer) :
    answerLines params (answers ++ [a]) =
      answerLines params answers ++ (a.line? params).toList := by
  rw [answerLines, answerLines, List.filterMap_append, List.filterMap_cons]
  cases a.line? params <;> rfl

/-- A worker replies, and has the line of its answer to log. -/
theorem Counts.reply {answers : List Answer} {threads : Bytes → Thread}
    {container : RequestsContainer.State} {refused : List Bytes} {a : Answer} {w : Bytes}
    (h : Counts params answers threads container refused) (hw : w ∈ params.workers)
    (hthread : threads w = .inLoop) :
    Counts params (answers ++ [a]) (Function.update threads w (afterReply a.round)) container
      refused := by
  have hpending := pendingLines_update threads hw (afterReply a.round)
  have hnone : (Thread.inLoop.line? params).toList = [] := rfl
  have hline : (afterReply a.round).line? params = a.line? params := line?_afterReply a.round
  rw [hthread, hnone, hline, Multiset.coe_nil, add_zero] at hpending
  have hcard := congrArg Multiset.card hpending
  rw [Multiset.card_add, Multiset.coe_card, Multiset.coe_card, Multiset.coe_card] at hcard
  refine ⟨?_, ?_⟩
  · rw [answerLines_concat, ← Multiset.coe_add, h.lines, hpending]
    ac_rfl
  · have hcounted := h.counted
    rw [answerLines_concat, List.length_append]
    omega

/-- A worker logs the line that it has. -/
theorem Counts.log {answers : List Answer} {threads : Bytes → Thread}
    {container : RequestsContainer.State} {refused : List Bytes} {call : LogCall} {line w : Bytes}
    (h : Counts params answers threads container refused) (hw : w ∈ params.workers)
    (hthread : threads w = .logging call) (hline : lineOf params call = some line)
    (hrun : container.stopRequested = false) :
    Counts params answers (Function.update threads w .inLoop)
      (RequestsContainer.putRequest params.requestLoggerMaxQueueLength line container)
      (if container.requests.size = params.requestLoggerMaxQueueLength then refused ++ [line]
        else refused) := by
  have hpending := pendingLines_update threads hw .inLoop
  have hnone : (Thread.inLoop.line? params).toList = [] := rfl
  have hlog : (Thread.line? params (.logging call)).toList = [line] := by
    rw [Thread.line?, hline]
    rfl
  rw [hthread, hnone, hlog, Multiset.coe_nil, add_zero] at hpending
  have hcard := congrArg Multiset.card hpending
  rw [Multiset.card_add, Multiset.coe_card, Multiset.coe_card, Multiset.coe_card] at hcard
  obtain ⟨haccepted, -, hcount⟩ :=
    @putRequest_running params.requestLoggerMaxQueueLength container hrun line
  refine ⟨?_, ?_⟩
  · rw [haccepted, h.lines, ← hpending]
    split_ifs
    · rw [← Multiset.coe_add refused]
      ac_rfl
    · rw [← Multiset.coe_add container.accepted]
      ac_rfl
  · have hcounted := h.counted
    rw [List.length_singleton] at hcard
    omega

theorem Counts.sameInput {answers : List Answer} {threads : Bytes → Thread}
    {container container' : RequestsContainer.State} {refused : List Bytes}
    (h : Counts params answers threads container refused) (hsame : SameInput container container') :
    Counts params answers threads container' refused := by
  refine ⟨?_, ?_⟩
  · rw [hsame.accepted]
    exact h.lines
  · rw [hsame.counted]
    exact h.counted

theorem Inv.workerReply (h : Inv params s) {w response : Bytes} {r : ClientRequest}
    {a : Answer} {b : LoadBalancing.State} (hthread : s.threads w = .inLoop)
    (hserving : s.balancer.workers w = .serving r)
    (ha : a.Sound params ∧ ∀ call, a.round.logCall = some call → (lineOf params call).isSome)
    (hreply : a.reply params = (w, r.reply response))
    (hb : LoadBalancing.step s.balancer (.workerReply w response) = some b) :
    Inv params
      { s.setThread w (afterReply a.round) with balancer := b, answers := s.answers ++ [a] } := by
  have hne : s.threads w ≠ .finished := by
    rw [hthread]
    nofun
  refine ⟨h.logger, h.outsiders_update (.inl (h.mem_workers hne)), h.running,
    h.joined_update (.inl (h.is_working hne)), h.ended,
    h.counts.reply (h.mem_workers hne) hthread, fun a' ha' => ?_,
    h.loggable_update fun call hcall => ?_, ?_⟩
  · rcases List.mem_append.mp ha' with ha' | ha'
    · exact h.sound a' ha'
    · rw [List.mem_singleton] at ha'
      subst ha'
      exact ha.1
  · rw [afterReply] at hcall
    split at hcall
    · next call' hlog =>
      cases hcall
      exact ha.2 call hlog
    · cases hcall
  · simp only [LoadBalancing.step, hserving] at hb
    cases hb
    show s.balancer.answers ++ [(w, r.reply response)] = _
    rw [h.sent, List.map_append, List.map_singleton, hreply]

theorem Inv.logRequest (h : Inv params s) {w line : Bytes} {call : LogCall}
    {logger : LoggerThread.State n} (hthread : s.threads w = .logging call)
    (hline : lineOf params call = some line)
    (hlogger : LoggerThread.step params.requestLoggerMaxQueueLength s.logger (.putRequest line) =
      some logger) :
    Inv params
      { s.setThread w .inLoop with
        logger, refused := if isFull params s then s.refused ++ [line] else s.refused } := by
  have hne : s.threads w ≠ .finished := by
    intro hfinished
    rw [hthread] at hfinished
    cases hfinished
  have hworking := h.is_working hne
  have hrun := h.running (running_of_working hworking)
  have hreach := h.logs hlogger
  simp only [LoggerThread.step, LoggingLoop.step, RequestsContainer.step, Option.map_some]
    at hlogger
  cases hlogger
  refine ⟨hreach, h.outsiders_update (.inl (h.mem_workers hne)), fun _ => ?_,
    h.joined_update (.inl hworking), h.ended, ?_, h.sound,
    h.loggable_update fun call' hcall => ?_, h.sent⟩
  · exact (putRequest_running hrun line).2.1
  · have hcounts := h.counts.log (h.mem_workers hne) hthread hline hrun
    simp only [isFull, decide_eq_true_eq]
    exact hcounts
  · cases hcall

theorem Inv.ownStep (h : Inv params s) {l : LoggerThread.Label n} (hl : l.isOwn = true)
    {logger : LoggerThread.State n}
    (hlogger : LoggerThread.step params.requestLoggerMaxQueueLength s.logger l = some logger) :
    Inv params { s with logger } := by
  have hsame := own_sameInput hl hlogger
  refine ⟨h.logs hlogger, h.outsiders, fun hrun => hsame.stopRequested.trans (h.running hrun),
    h.joined, fun hplace => ?_, h.counts.sameInput hsame, h.sound, h.loggable, h.sent⟩
  rw [own_finished (h.ended hplace) hl] at hlogger
  cases hlogger

/-- The step lemma. -/
theorem keeps_inv (n : Nat) (params : Params) : (machine n params).Keeps (Inv params) := by
  intro s l s' h hs
  cases l with
  | workerReady worker =>
    simp only [machine, step] at hs
    split at hs
    · next hthread =>
      have hne : s.threads worker ≠ .finished := by
        rw [hthread]
        nofun
      have hline : (s.threads worker).line? params = none := by
        rw [hthread]
        rfl
      have hready : Inv params (s.setThread worker .inLoop) :=
        h.setThread (.inl (h.mem_workers hne)) (.inl (h.is_working hne)) hline rfl nofun
      exact hready.stepBalancer hs nofun
    · cases hs
  | clientRequest request => exact h.stepBalancer hs nofun
  | balance workerEvent clientEvent =>
    simp only [machine, step] at hs
    split at hs
    · exact h.stepBalancer hs nofun
    · cases hs
  | workerRecv i =>
    simp only [machine, step] at hs
    split at hs
    · split at hs
      · exact h.stepBalancer hs nofun
      · cases hs
    · cases hs
  | workerReply worker request env conn webroot =>
    simp only [machine, step] at hs
    split at hs
    · next r round hthread hserving hround =>
      split at hs
      · next hread =>
        obtain ⟨b, hb, rfl⟩ := Option.map_eq_some_iff.mp hs
        have hsound := @sound_of_handleRequest params env conn webroot
          ⟨worker, r, request, round⟩ hread hround
        exact h.workerReply hthread hserving hsound rfl hb
      · cases hs
    · cases hs
  | logRequest worker =>
    simp only [machine, step] at hs
    split at hs
    · next call hthread =>
      obtain ⟨line, hline, hs⟩ := Option.bind_eq_some_iff.mp hs
      obtain ⟨logger, hlogger, rfl⟩ := Option.map_eq_some_iff.mp hs
      exact h.logRequest hthread hline hlogger
    · cases hs
  | requestStop =>
    cases hs
    exact ⟨h.logger, h.outsiders, h.running, h.joined, h.ended, h.counts, h.sound, h.loggable,
      h.sent⟩
  | workerEnds worker =>
    simp only [machine, step] at hs
    split at hs
    · cases hs
    · next hno =>
      split at hs
      · cases hs
        have hline : (s.threads worker).line? params = none := by
          cases hthread : s.threads worker with
          | logging call => exact absurd hthread (hno call)
          | _ => rfl
        exact h.setThread (.inr rfl) (.inr rfl) hline rfl nofun
      · cases hs
  | balancingEnds =>
    simp only [machine, step] at hs
    split at hs
    · next hplace =>
      cases hs
      have hrun : s.place.running = true := by
        rw [hplace.1]
        rfl
      exact ⟨h.logger, h.outsiders, fun _ => h.running hrun, nofun, nofun, h.counts, h.sound,
        h.loggable, h.sent⟩
    · cases hs
  | joinWorkers =>
    simp only [machine, step] at hs
    split at hs
    · next hplace =>
      cases hs
      obtain ⟨hplace, hall⟩ := hplace
      have hrun : s.place.running = true := by
        rw [hplace]
        rfl
      refine ⟨h.logger, h.outsiders, fun _ => h.running hrun, fun _ w => ?_, nofun, h.counts,
        h.sound, h.loggable, h.sent⟩
      by_cases hw : w ∈ params.workers
      · have hfinished := List.all_eq_true.mp hall w hw
        show s.threads w = .finished
        cases hthread : s.threads w with
        | finished => rfl
        | _ => rw [hthread] at hfinished; cases hfinished
      · exact h.outsiders w hw
    · cases hs
  | stopLogger =>
    simp only [machine, step] at hs
    split at hs
    · next hplace =>
      obtain ⟨logger, hlogger, rfl⟩ := Option.map_eq_some_iff.mp hs
      have hjoined : s.place.working = false := by
        rw [hplace]
        rfl
      have hreach := h.logs hlogger
      cases hlogger
      exact ⟨hreach, h.outsiders, nofun, fun _ => h.joined hjoined, nofun,
        ⟨h.counts.lines, h.counts.counted⟩, h.sound, h.loggable, h.sent⟩
    · cases hs
  | logger l =>
    simp only [machine, step] at hs
    split at hs
    · next hl =>
      obtain ⟨logger, hlogger, rfl⟩ := Option.map_eq_some_iff.mp hs
      exact h.ownStep hl hlogger
    · cases hs
  | joinLogger =>
    simp only [machine, step] at hs
    split at hs
    · next hplace hpc =>
      cases hs
      have hjoined : s.place.working = false := by
        rw [hplace]
        rfl
      exact ⟨h.logger, h.outsiders, nofun, fun _ => h.joined hjoined, fun _ => hpc, h.counts,
        h.sound, h.loggable, h.sent⟩
    · cases hs

theorem reachable_inv (h : (machine n params).Reachable s) : Inv params s :=
  h.invariant (keeps_inv n params) (inv_init n params)

/-! ## 5. Runs -/

/-- Each record in the database belongs to an answer that a worker has computed and sent, and no
answer is logged twice, in every state. -/
theorem committed_of_answers (n : Nat) (params : Params) (s : State n)
    (h : (machine n params).Reachable s) :
    (∀ a ∈ s.answers, a.Sound params) ∧
    s.balancer.answers = s.answers.map (Answer.reply params) ∧
    LoggerThread.committedRecords s.logger ≤ (answerLines params s.answers : Multiset Bytes) := by
  have hinv := reachable_inv h
  refine ⟨hinv.sound, hinv.sent, ?_⟩
  have haccepted := LoggerThread.accepted_eq (LoggerThread.reachable_stops hinv.logger).1
  rw [hinv.counts.lines, haccepted]
  simp only [add_assoc]
  exact Multiset.le_add_right _ _

def oneParams : Params where
  protobuf := safekiddoProto
  toSimpleString t := intText t
  workers := [bytes "w1"]
  nodup := List.nodup_singleton _
  requestLoggerMaxQueueLength := 5

/-- The stop comes between a reply and its record. -/
def oneAnswer : List (Label 1) :=
  [.workerReady (bytes "w1"), .balance (some 0) none,
    .clientRequest ⟨bytes "h", bytes "c", safekiddoProto.serializeRequest BackendCalls.olaRequest⟩,
    .balance none (some 0), .workerRecv 0,
    .workerReply (bytes "w1") BackendCalls.olaRequest midnightClock smallDatabase
      ⟨fun _ => [], fun _ => []⟩,
    .requestStop, .logger (.connect true), .balancingEnds, .logRequest (bytes "w1"),
    .workerEnds (bytes "w1"), .joinWorkers, .stopLogger] ++
  List.replicate 21 (.logger (.loop true)) ++ [.logger (.discard fun _ => false), .joinLogger]

theorem committed_of_answers_one : ∃ s, (machine 1 oneParams).run (init oneParams) oneAnswer =
      some s ∧ s.logger.committed.card = 1 ∧ LoggerThread.committedRecords s.logger ≤
        (answerLines oneParams s.answers : Multiset Bytes) := by
  have hrun : ((machine 1 oneParams).run (init oneParams) oneAnswer).map
      (·.logger.committed.card) = some 1 := by
    decide +kernel
  obtain ⟨s, hs, hcard⟩ := Option.map_eq_some_iff.mp hrun
  exact ⟨s, hs, hcard, (committed_of_answers 1 oneParams s ⟨oneAnswer, hs⟩).2.2⟩

/-- After the stop nothing is left to log. Each record of an answer was committed, was dropped from
the queue since the database was not available, was lost with a connection, or had come when the
queue was full; the statistics of the logger agree. -/
structure Accounts (params : Params) (s : State n) : Prop where
  drained : Drained s.logger.loop.container
  lines : (answerLines params s.answers : Multiset Bytes) = s.logger.committed + s.logger.lost +
    LoggerThread.removedRecords s.logger.loop.container + s.refused
  numLogRequests : s.logger.loop.container.stats.numLogRequests =
    (answerLines params s.answers).length
  numDropped : s.logger.loop.container.stats.numDropped =
    (LoggerThread.removedRecords s.logger.loop.container).length + s.refused.length

theorem stopped_accounts (n : Nat) (params : Params) (s : State n)
    (h : (machine n params).Reachable s) (hplace : s.place = .stopped) : Accounts params s := by
  have hinv := reachable_inv h
  have hpc := hinv.ended hplace
  have hdrained := LoggerThread.finished_drained hinv.logger hpc
  have hjoined : s.place.working = false := by
    rw [hplace]
    rfl
  have hpending : pendingLines params s.threads = [] := by
    refine List.filterMap_eq_nil_iff.mpr fun w _ => ?_
    rw [hinv.joined hjoined w]
    rfl
  have hlines := hinv.counts.lines
  have hcounted := hinv.counts.counted
  rw [hpending] at hlines hcounted
  rw [Multiset.coe_nil, add_zero] at hlines
  have haccepted := LoggerThread.finished_accepted hinv.logger hpc
  refine ⟨hdrained, hlines.trans (by rw [haccepted]), hcounted, ?_⟩
  -- What was delivered is what was neither dropped nor refused.
  have hcontainer := (LoggerThread.reachable_stops hinv.logger).1.container
  have hcount := hcontainer.count
  have horder := hcontainer.order
  rw [hdrained.buffer_nil, hdrained.requests_nil, List.append_nil, List.append_nil] at horder
  rw [hdrained.buffer_nil, Queue.size_length, hdrained.requests_nil] at hcount
  have hcard := congrArg Multiset.card hlines
  have htaken := congrArg Multiset.card
    (LoggerThread.taken_eq s.logger.loop.container.taken)
  rw [Multiset.card_add, Multiset.coe_card, Multiset.coe_card, Multiset.coe_card, horder,
    List.length_map] at hcard
  rw [Multiset.card_add, Multiset.coe_card, Multiset.coe_card, Multiset.coe_card,
    List.length_map] at htaken
  rw [RequestsContainer.State.delivered] at hcount
  rw [LoggerThread.removedRecords]
  simp only [List.length_nil] at hcount hcounted
  omega

theorem stopped_accounts_one : ∃ s, (machine 1 oneParams).run (init oneParams) oneAnswer =
      some s ∧ s.logger.committed.card = 1 ∧ s.refused = [] ∧ Accounts oneParams s := by
  have hrun : ((machine 1 oneParams).run (init oneParams) oneAnswer).map
      (fun s => (s.place, s.logger.committed.card, s.refused)) = some (.stopped, 1, []) := by
    decide +kernel
  obtain ⟨s, hs, hends⟩ := Option.map_eq_some_iff.mp hrun
  obtain ⟨hplace, hcard, hrefused⟩ : s.place = .stopped ∧ s.logger.committed.card = 1 ∧
    s.refused = [] := by simpa using hends
  exact ⟨s, hs, hcard, hrefused, stopped_accounts 1 oneParams s ⟨oneAnswer, hs⟩ hplace⟩

end Invariant

end ServerRun

end SafeKiddo
