import SafeKiddo.Lib.ByteString
import SafeKiddo.Lib.Machine

/-!
# The request queue of the logger

`RequestsContainer` of `requestLogger.cpp` with the `Queue` of `queue.h`, as a machine. Worker
threads put requests and a thread requests the stop at any moment; one logger thread takes requests
out. A step is a critical section, or one round of the loop that copies from the buffer of the
logger thread.

Results:
1. `Inv`: what holds between any two steps; `keeps_inv` is its step lemma.
2. `stopped_accepts_nothing`: after the stop no request is accepted.
3. `requests_conserved`: no request is lost, doubled or reordered.
-/

namespace SafeKiddo

open ByteString

/-! ## 1. Queue -/

/-- A list that knows its size. -/
structure Queue (α : Type) where
  impl : List α
  numElements : Nat
  size_eq : numElements = impl.length

namespace Queue

variable {α : Type}

def new : Queue α := ⟨[], 0, rfl⟩

def pushBack (q : Queue α) (elem : α) : Queue α :=
  ⟨q.impl ++ [elem], q.numElements + 1, by simp [q.size_eq]⟩

def empty (q : Queue α) : Bool := q.numElements = 0

def size (q : Queue α) : Nat := q.numElements

/-- The list `l` with the elements at its end, and the queue that is left. -/
def moveAllTo (q : Queue α) (l : List α) : List α × Queue α := (l ++ q.impl, new)

@[simp] theorem impl_new : (new : Queue α).impl = [] := rfl

@[simp] theorem impl_pushBack (q : Queue α) (elem : α) :
    (q.pushBack elem).impl = q.impl ++ [elem] := rfl

@[simp] theorem size_length (q : Queue α) : q.size = q.impl.length := q.size_eq

@[simp] theorem empty_iff (q : Queue α) : q.empty = true ↔ q.impl = [] := by
  simp [empty, q.size_eq]

end Queue

/-! ## 2. State -/

namespace RequestsContainer

structure RequestsStats where
  numLogRequests : Nat
  numDropped : Nat
  numWaitsForRequests : Nat
  numMoveToGetRequestsBuffer : Nat
  numRequestsBytes : Nat

/-- The text that `getRequests` appends to, with the requests it has appended. -/
structure Batch where
  before : Bytes
  copyData : Bytes
  numRequests : Nat
  records : List Bytes
  size_eq : numRequests = records.length
  data_eq : copyData = before ++ records.flatten

def Batch.new (copyData : Bytes) : Batch := ⟨copyData, copyData, 0, [], rfl, by simp⟩

def Batch.append (batch : Batch) (request : Bytes) : Batch where
  before := batch.before
  copyData := batch.copyData ++ request
  numRequests := batch.numRequests + 1
  records := batch.records ++ [request]
  size_eq := by simp [batch.size_eq]
  data_eq := by simp [batch.data_eq]

/-- A call of `getRequests`, with the requests that were delivered before it. -/
structure GetCall where
  mayBlock : Bool
  copyData : Bytes
  maxRequests : Nat
  delivered : List Bytes

/-- Where the logger thread is. -/
inductive Phase
  | idle
  /-- In `requestAvailable.wait`; a notification may be pending. -/
  | waiting (call : GetCall) (notified : Bool)
  /-- Between `lock.unlock()` and `lock.lock()`. -/
  | sleeping (call : GetCall)
  | copying (call : GetCall) (batch : Batch)
  | returned (call : GetCall) (batch : Batch)

/-- How a request left the buffers. -/
inductive Fate
  | delivered (request : Bytes)
  | removed (request : Bytes)

def Fate.request : Fate → Bytes
  | delivered request => request
  | removed request => request

def Fate.delivered? : Fate → Option Bytes
  | delivered request => some request
  | removed _ => none

/-- The members of the class, the place of the logger thread, and the history: the accepted
requests, and those that left the buffers, each in order. -/
structure State where
  requests : Queue Bytes
  stopRequested : Bool
  stats : RequestsStats
  getRequestsBuffer : List Bytes
  phase : Phase
  accepted : List Bytes
  taken : List Fate

def State.new : State where
  requests := Queue.new
  stopRequested := false
  stats := ⟨0, 0, 0, 0, 0⟩
  getRequestsBuffer := []
  phase := .idle
  accepted := []
  taken := []

/-- The requests that were appended to a text. -/
def State.delivered (s : State) : List Bytes := s.taken.filterMap Fate.delivered?

/-! ## 3. The code -/

def RequestsStats.addDropped (stats : RequestsStats) (n : Nat) : RequestsStats :=
  { stats with numDropped := stats.numDropped + n }

def notifyOne : Phase → Phase
  | .waiting call _ => .waiting call true
  | phase => phase

def putRequest (requestLoggerMaxQueueLength : Nat) (request : Bytes) (s : State) : State :=
  let stats := { s.stats with
    numLogRequests := s.stats.numLogRequests + 1
    numRequestsBytes := s.stats.numRequestsBytes + request.length }
  if s.requests.size = requestLoggerMaxQueueLength ∨ s.stopRequested = true then
    { s with stats := stats.addDropped 1 }
  else
    { s with
      stats
      requests := s.requests.pushBack request
      accepted := s.accepted ++ [request]
      phase := if s.requests.empty then notifyOne s.phase else s.phase }

def requestStop (s : State) : State :=
  { s with stopRequested := true, phase := notifyOne s.phase }

def dropAllRequests (s : State) : State :=
  { s with
    stats := (s.stats.addDropped s.requests.size).addDropped s.getRequestsBuffer.length
    requests := Queue.new
    getRequestsBuffer := []
    taken := s.taken ++ (s.getRequestsBuffer ++ s.requests.impl).map .removed }

/-- The end of the critical section of `getRequests`. -/
def moveToBuffer (call : GetCall) (s : State) : State :=
  let (getRequestsBuffer, requests) := s.requests.moveAllTo s.getRequestsBuffer
  { s with
    stats := { s.stats with
      numMoveToGetRequestsBuffer := s.stats.numMoveToGetRequestsBuffer + 1 }
    requests
    getRequestsBuffer
    phase := .copying call (.new call.copyData) }

/-- What follows the wait: few requests are worth a sleep. -/
def afterWait (call : GetCall) (s : State) : State :=
  if !s.stopRequested ∧ s.requests.size < call.maxRequests then { s with phase := .sleeping call }
  else moveToBuffer call s

/-- `getRequests` up to the point where it first gives the mutex back, or to the copying loop. -/
def getRequests (mayBlock : Bool) (copyData : Bytes) (maxRequests : Nat) (s : State) : State :=
  let call : GetCall := ⟨mayBlock, copyData, maxRequests, s.delivered⟩
  if s.getRequestsBuffer.isEmpty then
    if s.requests.empty ∧ !mayBlock then { s with phase := .returned call (.new copyData) }
    else if s.requests.empty ∧ !s.stopRequested then
      { s with
        stats := { s.stats with numWaitsForRequests := s.stats.numWaitsForRequests + 1 }
        phase := .waiting call false }
    else afterWait call s
  else { s with phase := .copying call (.new copyData) }

/-- The wait ends, by a notification or for no reason, and its condition is checked. -/
def wake (call : GetCall) (s : State) : State :=
  if s.requests.empty ∧ !s.stopRequested then { s with phase := .waiting call false }
  else afterWait call s

/-- One round of the copying loop, or its end. -/
def copyStep (call : GetCall) (batch : Batch) (s : State) : State :=
  match s.getRequestsBuffer with
  | request :: rest =>
    if batch.numRequests < call.maxRequests then
      { s with
        getRequestsBuffer := rest
        phase := .copying call (batch.append request)
        taken := s.taken ++ [.delivered request] }
    else { s with phase := .returned call batch }
  | [] => { s with phase := .returned call batch }

/-! ## 4. The machine -/

inductive Label
  | putRequest (request : Bytes)
  | requestStop
  | dropAllRequests
  | getRequests (mayBlock : Bool) (copyData : Bytes) (maxRequests : Nat)
  /-- The logger thread goes on where it is. -/
  | continue

/-- The logger thread is not inside a call. -/
def Phase.outside : Phase → Bool
  | idle => true
  | returned _ _ => true
  | _ => false

/-- The call the thread is in, or was in last. -/
def Phase.call? : Phase → Option GetCall
  | idle => none
  | waiting call _ => some call
  | sleeping call => some call
  | copying call _ => some call
  | returned call _ => some call

def continueStep (s : State) : Option State :=
  match s.phase with
  | .waiting call _ => some (wake call s)
  | .sleeping call => some (moveToBuffer call s)
  | .copying call batch => some (copyStep call batch s)
  | _ => none

def step (requestLoggerMaxQueueLength : Nat) (s : State) : Label → Option State
  | .putRequest request => some (putRequest requestLoggerMaxQueueLength request s)
  | .requestStop => some (requestStop s)
  | .dropAllRequests => if s.phase.outside then some (dropAllRequests s) else none
  | .getRequests mayBlock copyData maxRequests =>
    if s.phase.outside ∧ 0 < maxRequests then some (getRequests mayBlock copyData maxRequests s)
    else none
  | .continue => continueStep s

def machine (requestLoggerMaxQueueLength : Nat) : Machine State Label :=
  ⟨State.new, step requestLoggerMaxQueueLength⟩

/-! ## 5. The invariant -/

/-- Nothing is left, and nothing will come. -/
structure Drained (s : State) : Prop where
  stopRequested : s.stopRequested = true
  buffer_nil : s.getRequestsBuffer = []
  requests_nil : s.requests.impl = []

/-- What a returned batch says about its call. -/
structure Answered (delivered : List Bytes) (call : GetCall) (batch : Batch) : Prop where
  before : batch.before = call.copyData
  delivered_eq : delivered = call.delivered ++ batch.records
  le_max : batch.numRequests ≤ call.maxRequests

/-- What holds while the logger thread is in a phase. -/
def PhaseOk (s : State) : Phase → Prop
  | .idle => True
  | .waiting call _ =>
    0 < call.maxRequests ∧ s.delivered = call.delivered ∧ s.getRequestsBuffer = []
  | .sleeping call =>
    0 < call.maxRequests ∧ s.delivered = call.delivered ∧ s.getRequestsBuffer = [] ∧
      s.requests.impl ≠ []
  | .copying call batch =>
    0 < call.maxRequests ∧ Answered s.delivered call batch ∧
      (batch.numRequests = 0 → s.getRequestsBuffer = [] → Drained s)
  | .returned call batch =>
    Answered s.delivered call batch ∧ (call.mayBlock = true → batch.numRequests = 0 → Drained s)

structure Inv (maxLength : Nat) (s : State) : Prop where
  order : s.accepted = s.taken.map Fate.request ++ (s.getRequestsBuffer ++ s.requests.impl)
  count : s.stats.numLogRequests = s.delivered.length + s.stats.numDropped +
    (s.getRequestsBuffer.length + s.requests.size)
  bound : s.requests.size ≤ maxLength
  phase : PhaseOk s s.phase

section Steps

variable {maxLength : Nat} {s t : State} {call : GetCall}

theorem inv_new (maxLength : Nat) : Inv maxLength State.new :=
  ⟨rfl, rfl, Nat.zero_le _, trivial⟩

theorem PhaseOk.notify {phase : Phase} (h : PhaseOk s phase) : PhaseOk s (notifyOne phase) := by
  cases phase with
  | waiting call notified => exact h
  | idle => exact h
  | sleeping call => exact h
  | copying call batch => exact h
  | returned call batch => exact h

/-- The other threads add requests before the stop, and request the stop. -/
theorem PhaseOk.others {phase : Phase} (h : PhaseOk s phase)
    (hdelivered : t.delivered = s.delivered) (hbuffer : t.getRequestsBuffer = s.getRequestsBuffer)
    (hrequests : s.requests.impl ≠ [] → t.requests.impl ≠ []) (hdrained : Drained s → Drained t) :
    PhaseOk t phase := by
  cases phase with
  | idle => trivial
  | waiting call notified =>
    obtain ⟨hpos, hdel, hbuf⟩ := h
    exact ⟨hpos, hdelivered.trans hdel, hbuffer.trans hbuf⟩
  | sleeping call =>
    obtain ⟨hpos, hdel, hbuf, hne⟩ := h
    exact ⟨hpos, hdelivered.trans hdel, hbuffer.trans hbuf, hrequests hne⟩
  | copying call batch =>
    obtain ⟨hpos, hans, hdone⟩ := h
    exact ⟨hpos, ⟨hans.before, hdelivered.trans hans.delivered_eq, hans.le_max⟩,
      fun hz hbuf => hdrained (hdone hz (hbuffer.symm.trans hbuf))⟩
  | returned call batch =>
    obtain ⟨hans, hdone⟩ := h
    exact ⟨⟨hans.before, hdelivered.trans hans.delivered_eq, hans.le_max⟩,
      fun hb hz => hdrained (hdone hb hz)⟩

theorem putRequest_inv (h : Inv maxLength s) (request : Bytes) :
    Inv maxLength (putRequest maxLength request s) := by
  obtain ⟨horder, hcount, hbound, hphase⟩ := h
  rw [Queue.size_length] at hcount hbound
  unfold putRequest
  split
  · refine ⟨horder, ?_, by simpa using hbound,
      hphase.others rfl rfl id fun hd => ⟨hd.1, hd.2, hd.3⟩⟩
    simp [RequestsStats.addDropped, State.delivered] at *
    omega
  · next hno =>
    rw [not_or, Queue.size_length] at hno
    refine ⟨by simp [horder], ?_, ?_, ?_⟩
    · simp [State.delivered] at *
      omega
    · simp
      omega
    · have hok : PhaseOk s (if s.requests.empty then notifyOne s.phase else s.phase) := by
        split
        · exact hphase.notify
        · exact hphase
      exact hok.others rfl rfl (fun _ => by simp) fun hd => absurd hd.stopRequested hno.2

theorem requestStop_inv (h : Inv maxLength s) : Inv maxLength (requestStop s) := by
  obtain ⟨horder, hcount, hbound, hphase⟩ := h
  exact ⟨horder, hcount, hbound, hphase.notify.others rfl rfl id fun hd => ⟨rfl, hd.2, hd.3⟩⟩

theorem dropAllRequests_inv (h : Inv maxLength s) (hout : s.phase.outside = true) :
    Inv maxLength (dropAllRequests s) := by
  obtain ⟨horder, hcount, hbound, hphase⟩ := h
  have hdelivered : (dropAllRequests s).delivered = s.delivered := by
    simp [dropAllRequests, State.delivered, Fate.delivered?, List.filterMap_eq_nil_iff]
  have hrequest : Fate.request ∘ Fate.removed = id := rfl
  refine ⟨?_, ?_, Nat.zero_le _, ?_⟩
  · simp [dropAllRequests, horder, hrequest]
  · rw [hdelivered]
    simp [dropAllRequests, RequestsStats.addDropped] at *
    omega
  · cases hp : s.phase with
    | idle => rw [show (dropAllRequests s).phase = .idle from hp]; trivial
    | returned call batch =>
      rw [show (dropAllRequests s).phase = .returned call batch from hp]
      rw [hp] at hphase
      obtain ⟨hans, hdone⟩ := hphase
      exact ⟨⟨hans.before, hdelivered.trans hans.delivered_eq, hans.le_max⟩,
        fun hb hz => ⟨(hdone hb hz).stopRequested, rfl, rfl⟩⟩
    | waiting call notified => rw [hp] at hout; cases hout
    | sleeping call => rw [hp] at hout; cases hout
    | copying call batch => rw [hp] at hout; cases hout

theorem moveToBuffer_inv (h : Inv maxLength s) (hpos : 0 < call.maxRequests)
    (hdelivered : s.delivered = call.delivered)
    (hstop : s.getRequestsBuffer ++ s.requests.impl = [] → s.stopRequested = true) :
    Inv maxLength (moveToBuffer call s) := by
  obtain ⟨horder, hcount, -, -⟩ := h
  refine ⟨by simpa [moveToBuffer, Queue.moveAllTo] using horder, ?_, Nat.zero_le _, hpos,
    ⟨rfl, hdelivered.trans (List.append_nil _).symm, Nat.zero_le _⟩, fun _ hbuf => ?_⟩
  · simpa [moveToBuffer, Queue.moveAllTo, State.delivered] using hcount
  · exact ⟨hstop hbuf, hbuf, rfl⟩

/-- The mutex is kept after the wait, so the queue is as the wait has left it. -/
theorem afterWait_inv (h : Inv maxLength s) (hpos : 0 < call.maxRequests)
    (hdelivered : s.delivered = call.delivered) (hbuffer : s.getRequestsBuffer = [])
    (hstop : s.requests.impl = [] → s.stopRequested = true) :
    Inv maxLength (afterWait call s) := by
  unfold afterWait
  split
  · next hsleep =>
    obtain ⟨hrun, -⟩ := hsleep
    refine ⟨h.order, h.count, h.bound, hpos, hdelivered, hbuffer, ?_⟩
    intro hnil
    rw [show s.stopRequested = true from hstop hnil] at hrun
    cases hrun
  · exact moveToBuffer_inv h hpos hdelivered fun hnil => hstop (List.append_eq_nil_iff.mp hnil).2

theorem getRequests_inv (h : Inv maxLength s) {mayBlock : Bool} {copyData : Bytes}
    {maxRequests : Nat} (hpos : 0 < maxRequests) :
    Inv maxLength (getRequests mayBlock copyData maxRequests s) := by
  have hanswered : Answered s.delivered ⟨mayBlock, copyData, maxRequests, s.delivered⟩
      (.new copyData) :=
    ⟨rfl, (List.append_nil _).symm, Nat.zero_le _⟩
  unfold getRequests
  split
  · next hbuf =>
    rw [List.isEmpty_iff] at hbuf
    split
    · next hnow =>
      -- Nothing to give and no wait allowed: the call says nothing about the stop.
      have hblock : mayBlock = false := by simpa using hnow.2
      exact ⟨h.order, h.count, h.bound, hanswered, fun hb => absurd (hblock.symm.trans hb) nofun⟩
    · split
      · exact ⟨h.order, h.count, h.bound, hpos, rfl, hbuf⟩
      · next hnow =>
        refine afterWait_inv h hpos rfl hbuf ?_
        intro hnil
        simpa [hnil] using hnow
  · next hbuf =>
    rw [List.isEmpty_iff] at hbuf
    exact ⟨h.order, h.count, h.bound, hpos, hanswered, fun _ hnil => absurd hnil hbuf⟩

theorem wake_inv (h : Inv maxLength s) {notified : Bool} (hp : s.phase = .waiting call notified) :
    Inv maxLength (wake call s) := by
  have hphase := h.phase
  rw [hp] at hphase
  obtain ⟨hpos, hdelivered, hbuffer⟩ := hphase
  unfold wake
  split
  · exact ⟨h.order, h.count, h.bound, hpos, hdelivered, hbuffer⟩
  · next hnow =>
    refine afterWait_inv h hpos hdelivered hbuffer ?_
    intro hnil
    simpa [hnil] using hnow

theorem copyStep_inv (h : Inv maxLength s) {batch : Batch} (hp : s.phase = .copying call batch) :
    Inv maxLength (copyStep call batch s) := by
  obtain ⟨horder, hcount, hbound, hphase⟩ := h
  rw [hp] at hphase
  obtain ⟨hpos, hans, hdone⟩ := hphase
  unfold copyStep
  split
  · next request rest hbuf =>
    split
    · next hlt =>
      have hdelivered : (s.taken ++ [Fate.delivered request]).filterMap Fate.delivered? =
          s.delivered ++ [request] := by
        simp [State.delivered, Fate.delivered?]
      refine ⟨by simpa [hbuf, Fate.request] using horder, ?_, hbound, hpos,
        ⟨hans.before, ?_, hlt⟩, fun hz => absurd hz (Nat.succ_ne_zero _)⟩
      · rw [State.delivered, hdelivered]
        simp [hbuf] at *
        omega
      · rw [State.delivered, hdelivered, hans.delivered_eq, Batch.append, List.append_assoc]
    · next hfull =>
      -- The loop ends at the limit, which is not zero.
      refine ⟨horder, hcount, hbound, hans, fun _ hz => absurd hpos ?_⟩
      rwa [hz] at hfull
  · next hbuf =>
    refine ⟨horder, hcount, hbound, hans, ?_⟩
    intro _ hz
    have hd := hdone hz hbuf
    exact ⟨hd.1, hd.2, hd.3⟩

/-- The step lemma. -/
theorem keeps_inv (maxLength : Nat) : (machine maxLength).Keeps (Inv maxLength) := by
  intro s l s' h hs
  cases l with
  | putRequest request => cases hs; exact putRequest_inv h request
  | requestStop => cases hs; exact requestStop_inv h
  | dropAllRequests =>
    simp only [machine, step] at hs
    split at hs
    · next hout => cases hs; exact dropAllRequests_inv h hout
    · cases hs
  | getRequests mayBlock copyData maxRequests =>
    simp only [machine, step] at hs
    split at hs
    · next hcan => cases hs; exact getRequests_inv h hcan.2
    · cases hs
  | «continue» =>
    simp only [machine, step, continueStep] at hs
    split at hs
    · next call notified hp => cases hs; exact wake_inv h hp
    · next call hp =>
      cases hs
      have hphase := h.phase
      rw [hp] at hphase
      obtain ⟨hpos, hdelivered, -, hne⟩ := hphase
      exact moveToBuffer_inv h hpos hdelivered fun hnil =>
        absurd (List.append_eq_nil_iff.mp hnil).2 hne
    · next call batch hp => cases hs; exact copyStep_inv h hp
    · cases hs

theorem reachable_inv (h : (machine maxLength).Reachable s) : Inv maxLength s :=
  h.invariant (keeps_inv maxLength) (inv_new maxLength)

/-! ## 6. Runs -/

/-- What a step can do to the buffers, `dropAllRequests` apart. -/
inductive Effect (s t : State) : Prop
  | keep (hstop : s.stopRequested = true → t.stopRequested = true)
      (hrequests : t.requests.impl = s.requests.impl)
      (hbuffer : t.getRequestsBuffer = s.getRequestsBuffer) (haccepted : t.accepted = s.accepted)
      (htaken : t.taken = s.taken)
  | accept (request : Bytes) (hrun : ¬ s.stopRequested = true)
      (hrequests : t.requests.impl = s.requests.impl ++ [request])
      (hbuffer : t.getRequestsBuffer = s.getRequestsBuffer)
      (haccepted : t.accepted = s.accepted ++ [request]) (htaken : t.taken = s.taken)
  | move (hstop : t.stopRequested = s.stopRequested) (hrequests : t.requests.impl = [])
      (hbuffer : t.getRequestsBuffer = s.getRequestsBuffer ++ s.requests.impl)
      (haccepted : t.accepted = s.accepted) (htaken : t.taken = s.taken)
  | deliver (request : Bytes) (hstop : t.stopRequested = s.stopRequested)
      (hrequests : t.requests.impl = s.requests.impl)
      (hbuffer : s.getRequestsBuffer = request :: t.getRequestsBuffer)
      (haccepted : t.accepted = s.accepted) (htaken : t.taken = s.taken ++ [.delivered request])

theorem moveToBuffer_effect (call : GetCall) (s : State) : Effect s (moveToBuffer call s) :=
  .move rfl rfl rfl rfl rfl

theorem afterWait_effect (call : GetCall) (s : State) : Effect s (afterWait call s) := by
  unfold afterWait
  split
  · exact .keep id rfl rfl rfl rfl
  · exact moveToBuffer_effect call s

theorem putRequest_effect (maxLength : Nat) (request : Bytes) (s : State) :
    Effect s (putRequest maxLength request s) := by
  unfold putRequest
  split
  · exact .keep id rfl rfl rfl rfl
  · next hno =>
    rw [not_or] at hno
    exact .accept request hno.2 rfl rfl rfl rfl

theorem getRequests_effect (mayBlock : Bool) (copyData : Bytes) (maxRequests : Nat) (s : State) :
    Effect s (getRequests mayBlock copyData maxRequests s) := by
  unfold getRequests
  split_ifs
  · exact .keep id rfl rfl rfl rfl
  · exact .keep id rfl rfl rfl rfl
  · exact afterWait_effect _ s
  · exact .keep id rfl rfl rfl rfl

theorem continue_effect (h : continueStep s = some t) : Effect s t := by
  unfold continueStep at h
  split at h
  · next call notified hp =>
    cases h
    unfold wake
    split
    · exact .keep id rfl rfl rfl rfl
    · exact afterWait_effect call s
  · cases h; exact moveToBuffer_effect _ s
  · cases h
    unfold copyStep
    split
    · next request rest hbuf =>
      split
      · exact .deliver request rfl rfl hbuf rfl rfl
      · exact .keep id rfl rfl rfl rfl
    · exact .keep id rfl rfl rfl rfl
  · cases h

theorem step_effect {l : Label} (h : (machine maxLength).step s l = some t) :
    l = .dropAllRequests ∧ t = dropAllRequests s ∨ Effect s t := by
  cases l with
  | putRequest request => cases h; exact .inr (putRequest_effect maxLength request s)
  | requestStop => cases h; exact .inr (.keep (fun _ => rfl) rfl rfl rfl rfl)
  | dropAllRequests =>
    simp only [machine, step] at h
    split at h
    · cases h; exact .inl ⟨rfl, rfl⟩
    · cases h
  | getRequests mayBlock copyData maxRequests =>
    simp only [machine, step] at h
    split at h
    · cases h; exact .inr (getRequests_effect mayBlock copyData maxRequests s)
    · cases h
  | «continue» => exact .inr (continue_effect h)

/-- After the stop a step accepts nothing. -/
theorem step_stopped {l : Label} (h : (machine maxLength).step s l = some t)
    (hstop : s.stopRequested = true) : t.stopRequested = true ∧ t.accepted = s.accepted := by
  rcases step_effect h with ⟨-, rfl⟩ | heffect
  · exact ⟨hstop, rfl⟩
  · cases heffect with
    | keep hkeep _ _ haccepted _ => exact ⟨hkeep hstop, haccepted⟩
    | accept _ hrun _ _ _ _ => exact absurd hstop hrun
    | move hsame _ _ haccepted _ => exact ⟨hsame.trans hstop, haccepted⟩
    | deliver _ hsame _ _ haccepted _ => exact ⟨hsame.trans hstop, haccepted⟩

/-- Empty buffers stay empty after the stop, whatever is called. -/
theorem drained_step {l : Label} (h : (machine maxLength).step s l = some t) (hs : Drained s) :
    Drained t := by
  obtain ⟨hstop, hbuf, hreq⟩ := hs
  rcases step_effect h with ⟨-, rfl⟩ | heffect
  · exact ⟨hstop, rfl, rfl⟩
  · cases heffect with
    | keep hkeep hrequests hbuffer _ _ =>
      exact ⟨hkeep hstop, hbuffer.trans hbuf, hrequests.trans hreq⟩
    | accept _ hrun _ _ _ _ => exact absurd hstop hrun
    | move hsame hrequests hbuffer _ _ =>
      exact ⟨hsame.trans hstop, by rw [hbuffer, hbuf, hreq]; rfl, hrequests⟩
    | deliver request _ _ hbuffer _ _ => rw [hbuf] at hbuffer; cases hbuffer

/-- After the stop no request is accepted. -/
theorem stopped_accepts_nothing {ls : List Label} (hstop : s.stopRequested = true)
    (h : (machine maxLength).run s ls = some t) : t.accepted = s.accepted := by
  have hrel := Machine.run_relation (m := machine maxLength)
    (r := fun s t => s.stopRequested = true → t.stopRequested = true ∧ t.accepted = s.accepted)
    (fun _ hs => ⟨hs, rfl⟩)
    (fun _ _ _ h₁ h₂ hs => ⟨(h₂ (h₁ hs).1).1, (h₂ (h₁ hs).1).2.trans (h₁ hs).2⟩)
    (fun _ _ _ hstep => step_stopped hstep) h
  exact (hrel hstop).2

/-- Without `dropAllRequests` everything taken is delivered. -/
def OnlyDelivered (s : State) : Prop := s.taken.map Fate.request = s.delivered

theorem Effect.onlyDelivered (h : Effect s t) (hs : OnlyDelivered s) : OnlyDelivered t := by
  have hsame : t.taken = s.taken → OnlyDelivered t := by
    intro htaken
    rw [OnlyDelivered, State.delivered, htaken]
    exact hs
  cases h with
  | keep _ _ _ _ htaken => exact hsame htaken
  | accept _ _ _ _ _ htaken => exact hsame htaken
  | move _ _ _ _ htaken => exact hsame htaken
  | deliver request _ _ _ _ htaken =>
    have hs' : s.taken.map Fate.request = s.taken.filterMap Fate.delivered? := hs
    rw [OnlyDelivered, State.delivered, htaken, List.map_append, List.filterMap_append, hs']
    rfl

/-- What the other threads do leaves the logger thread where it is. -/
structure SameCall (s t : State) : Prop where
  call : t.phase.call? = s.phase.call?
  outside : t.phase.outside = s.phase.outside
  taken : t.taken = s.taken

theorem notifyOne_same (phase : Phase) :
    (notifyOne phase).call? = phase.call? ∧ (notifyOne phase).outside = phase.outside := by
  cases phase <;> exact ⟨rfl, rfl⟩

theorem putRequest_sameCall (maxLength : Nat) (request : Bytes) (s : State) :
    SameCall s (putRequest maxLength request s) := by
  unfold putRequest
  split
  · exact ⟨rfl, rfl, rfl⟩
  · dsimp only
    split
    · exact ⟨(notifyOne_same _).1, (notifyOne_same _).2, rfl⟩
    · exact ⟨rfl, rfl, rfl⟩

theorem requestStop_sameCall (s : State) : SameCall s (requestStop s) :=
  ⟨(notifyOne_same _).1, (notifyOne_same _).2, rfl⟩

theorem afterWait_call (call : GetCall) (s : State) :
    (afterWait call s).phase.call? = some call := by
  unfold afterWait
  split <;> rfl

theorem getRequests_call (mayBlock : Bool) (copyData : Bytes) (maxRequests : Nat) (s : State) :
    (getRequests mayBlock copyData maxRequests s).phase.call? =
      some ⟨mayBlock, copyData, maxRequests, s.delivered⟩ := by
  unfold getRequests
  split_ifs
  · rfl
  · rfl
  · exact afterWait_call _ s
  · rfl

theorem continue_call (h : continueStep s = some t) : t.phase.call? = s.phase.call? := by
  unfold continueStep at h
  split at h
  · next call notified hp =>
    cases h
    rw [hp]
    unfold wake
    split
    · rfl
    · exact afterWait_call call s
  · next hp => cases h; rw [hp]; rfl
  · next hp =>
    cases h
    rw [hp]
    unfold copyStep
    split
    · split <;> rfl
    · rfl
  · cases h

/-- What a state says about the requests so far. -/
structure Conserved (maxLength : Nat) (s : State) : Prop where
  order : s.accepted = s.taken.map Fate.request ++ s.getRequestsBuffer ++ s.requests.impl
  count : s.stats.numLogRequests = s.delivered.length + s.stats.numDropped +
    (s.getRequestsBuffer.length + s.requests.size)
  bound : s.requests.size ≤ maxLength
  /-- A call has appended what it returns, and these are the requests delivered since its start. -/
  appended : ∀ call batch, s.phase = .returned call batch →
    batch.numRequests ≤ call.maxRequests ∧ batch.numRequests = batch.records.length ∧
      batch.copyData = call.copyData ++ batch.records.flatten ∧
      s.delivered = call.delivered ++ batch.records
  /-- A call that may block returns nothing only at the end. -/
  finished : ∀ call batch, s.phase = .returned call batch → call.mayBlock = true →
    batch.numRequests = 0 →
    s.stopRequested = true ∧ s.getRequestsBuffer = [] ∧ s.requests.impl = [] ∧
      ∀ ls t, (machine maxLength).run s ls = some t → t.accepted = s.accepted

theorem requests_conserved (maxLength : Nat) (s : State) (h : (machine maxLength).Reachable s) :
    Conserved maxLength s := by
  obtain ⟨horder, hcount, hbound, hphase⟩ := reachable_inv h
  refine ⟨by rw [horder, List.append_assoc], hcount, hbound, ?_, ?_⟩
  · intro call batch hp
    rw [hp] at hphase
    obtain ⟨hans, -⟩ := hphase
    exact ⟨hans.le_max, batch.size_eq, hans.before ▸ batch.data_eq, hans.delivered_eq⟩
  · intro call batch hp hblock hzero
    rw [hp] at hphase
    obtain ⟨-, hdone⟩ := hphase
    have hd := hdone hblock hzero
    exact ⟨hd.stopRequested, hd.buffer_nil, hd.requests_nil,
      fun ls t hrun => stopped_accepts_nothing hd.stopRequested hrun⟩

/-- Two requests are put, one is taken, and the stop is requested. -/
theorem requests_conserved_two :
    ∃ s, (machine 5).run State.new [.putRequest (bytes "a\n"), .putRequest (bytes "b\n"),
        .getRequests true [] 1, .continue, .requestStop, .continue] = some s ∧
      Conserved 5 s :=
  ⟨_, rfl, requests_conserved 5 _ ⟨[.putRequest (bytes "a\n"), .putRequest (bytes "b\n"),
    .getRequests true [] 1, .continue, .requestStop, .continue], rfl⟩⟩

end Steps

end RequestsContainer

end SafeKiddo
