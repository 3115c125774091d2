import SafeKiddo.Httpd
import SafeKiddo.Responses

/-!
# Unknown users

The web service and the worker together: valid categorization requests of one client address, within
one admission period. Each connection has a thread of its own, so a request arrives, and is answered
later. The backend answers in time.

Results:
1. `worker_never_resUnknownUser`: no round of the worker answers that the user is unknown.
2. `run_request`: a request that nothing comes between is one call of the handler.
3. `penalised_iff`: unknown users are penalised in a run exactly as long as no request of an unknown
   user is admitted and answered.
-/

namespace SafeKiddo

namespace UnknownUsers

open ByteString
open AdmissionControl (localhost smallContainer)

/-! ## 1. The two programs together -/

/-- The child lookup succeeds without a row. -/
def isUnknownUser (conn : DBConnection) (userId : Uuid) : Bool :=
  match conn.getChild userId with
  | .ok [] => true
  | _ => false

/-- A request that was answered: the result code of the worker, and what the answer added to the
counter of the client. -/
structure Answered where
  unknown : Bool
  result : ResponseCode
  charge : UInt32

/-- The container of the web service, the number of requests so far, those that the worker has not
answered yet, and the answered ones. -/
structure State where
  container : AdmissionControlContainer
  arrived : Nat
  pending : List Request
  answered : List Answered

/-- An answer is made with what clock, database and webroot say at its time. -/
inductive Event
  | arrive (connection : Connection) (url method : Bytes)
  | answer (i : Nat) (env : TimeEnv) (conn : DBConnection) (webroot : Webroot)

/-- A request before the backend query. -/
def arrive (s : State) (ip : In6Addr) (rq : Request) : State :=
  let (access, container) := s.container.getAccess ip
  { s with
    container
    arrived := s.arrived + 1
    pending := if access.value = -1 then s.pending else s.pending ++ [rq] }

/-- A request after the backend query. -/
def answer (s : State) (ip : In6Addr) (i : Nat) (rq : Request) (unknown : Bool)
    (rs : Response) : State :=
  let (_, container) := handleResult s.container ip 0 (backendQuery rq fun _ => .response rs)
  { s with
    container
    pending := s.pending.eraseIdx i
    answered := s.answered ++
      [⟨unknown, rs.result, container.attempts ip - s.container.attempts ip⟩] }

def step (params : HttpdParams) (ip : In6Addr) (s : State) : Event → Option State
  | .arrive connection url method => do
    let rq ← categorizationRequest connection url method
    if getClientIp params connection = ip then some (arrive s ip rq) else none
  | .answer i env conn webroot => do
    let rq ← s.pending[i]?
    let round ← handleRequest env conn webroot rq
    some (answer s ip i rq (isUnknownUser conn rq.userId) round.response)

def start (container : AdmissionControlContainer) : State := ⟨container, 0, [], []⟩

def machine (params : HttpdParams) (ip : In6Addr) (container : AdmissionControlContainer) :
    Machine State Event :=
  ⟨start container, step params ip⟩

/-- What the worker and the web service owe to unknown users, and what the counter tells then. -/
structure Penalised (container : AdmissionControlContainer) (ip : In6Addr) (s : State) : Prop where
  answered : ∀ a ∈ s.answered, a.unknown = true → a.result = .resUnknownUser
  charged : ∀ a ∈ s.answered,
    a.charge = if a.unknown then container.invalidCredentialsPenalty else 0
  counted : s.container.attempts ip = container.attempts ip + UInt32.ofNat s.arrived +
    UInt32.ofNat (s.answered.countP Answered.unknown) * container.invalidCredentialsPenalty

/-- No unknown user gets an answer in this step. -/
def KnownUser (s : State) : Event → Prop
  | .arrive _ _ _ => True
  | .answer i _ conn _ => ∀ rq, s.pending[i]? = some rq → isUnknownUser conn rq.userId = false

/-! ## 2. Steps -/

section Steps

variable {params : HttpdParams} {ip : In6Addr} {container : AdmissionControlContainer} {s : State}

/-- The code 300 is not among those of the worker. -/
theorem worker_never_resUnknownUser {env : TimeEnv} {conn : DBConnection} {webroot : Webroot}
    {rq : Request} {round : Round} (h : handleRequest env conn webroot rq = some round) :
    round.response.result ≠ .resUnknownUser := by
  obtain ⟨normalizedUrl, result, response, hurl, hresult, hresponse, rfl⟩ :=
    handleRequest_eq_some.mp h
  obtain ⟨code, hmem, hcode⟩ := lookUp_codes (slash_mem_normalizeUrl hurl) hresult
  have heq : code = response.result :=
    Option.some.inj (hcode.symm.trans (createResponse_result hresponse))
  intro hunknown
  rw [heq, hunknown] at hmem
  simp at hmem

/-- Without the code 300 nothing is charged. -/
theorem answer_eq {i : Nat} {rq : Request} {unknown : Bool} {rs : Response}
    (h : rs.result ≠ .resUnknownUser) :
    answer s ip i rq unknown rs =
      { s with
        pending := s.pending.eraseIdx i
        answered := s.answered ++ [⟨unknown, rs.result, 0⟩] } := by
  have hcode : (backendQuery rq fun _ => .response rs).code ≠ .resUnknownUser := h
  simp only [answer, handleResult_container, if_neg hcode, UInt32.sub_self]

theorem arrive_penalised {rq : Request} (h : Penalised container ip s) :
    Penalised container ip (arrive s ip rq) := by
  refine ⟨h.answered, h.charged, ?_⟩
  have hattempts : (arrive s ip rq).container.attempts ip = s.container.attempts ip + 1 := by
    simp [arrive]
  have harrived : UInt32.ofNat (arrive s ip rq).arrived = UInt32.ofNat s.arrived + 1 :=
    UInt32.ofNat_add s.arrived 1
  rw [hattempts, harrived, h.counted]
  simp only [arrive]
  ac_rfl

/-- The answer to a known user is in order, and the answer to an unknown one is not. -/
theorem answer_penalised {i : Nat} {rq : Request} {unknown : Bool} {rs : Response}
    (hrs : rs.result ≠ .resUnknownUser) (h : Penalised container ip s) :
    Penalised container ip (answer s ip i rq unknown rs) ↔ unknown = false := by
  rw [answer_eq hrs]
  cases unknown with
  | true =>
    refine iff_of_false (fun hgood => hrs ?_) (by simp)
    exact hgood.answered ⟨true, rs.result, 0⟩ (by simp) rfl
  | false =>
    refine iff_of_true ⟨fun a ha hunknown => ?_, fun a ha => ?_, ?_⟩ rfl
    · rcases List.mem_append.mp ha with ha | ha
      · exact h.answered a ha hunknown
      · cases List.mem_singleton.mp ha
        exact nomatch hunknown
    · rcases List.mem_append.mp ha with ha | ha
      · exact h.charged a ha
      · cases List.mem_singleton.mp ha
        rfl
    · simpa [List.countP_append] using h.counted

theorem step_penalised (s : State) (event : Event) (s' : State) (h : Penalised container ip s)
    (hs : step params ip s event = some s') :
    Penalised container ip s' ↔ KnownUser s event := by
  cases event with
  | arrive connection url method =>
    obtain ⟨rq, -, hs⟩ := Option.bind_eq_some_iff.mp hs
    split at hs
    · cases hs
      exact iff_of_true (arrive_penalised h) trivial
    · cases hs
  | answer i env conn webroot =>
    obtain ⟨rq, hrq, hs⟩ := Option.bind_eq_some_iff.mp hs
    obtain ⟨round, hround, hs⟩ := Option.bind_eq_some_iff.mp hs
    cases hs
    rw [answer_penalised (worker_never_resUnknownUser hround) h]
    constructor
    · intro hknown rq' hrq'
      cases hrq.symm.trans hrq'
      exact hknown
    · exact fun hknown => hknown rq hrq

/-- A request that nothing comes between is refused at its arrival, or it arrives and is answered,
and the container is the one that the handler leaves. -/
theorem run_request {connection : Connection} {url method : Bytes} {rq : Request}
    (hrq : categorizationRequest connection url method = some rq)
    (hip : getClientIp params connection = ip) {env : TimeEnv} {conn : DBConnection}
    {webroot : Webroot} {round : Round} (hround : handleRequest env conn webroot rq = some round)
    (hpending : s.pending = []) :
    ∃ events s', (machine params ip container).run s events = some s' ∧ s'.pending = [] ∧
      s'.container = (processRequestAndReturnHttpStatus params connection url method
        (fun _ => .response round.response) s.container).2 := by
  have harrive : step params ip s (.arrive connection url method) = some (arrive s ip rq) := by
    simp [step, hrq, hip]
  simp only [processRequest_of_request params hrq, hip]
  rcases eq_or_ne (s.container.getAccess ip).1.value (-1) with hrefused | hadmitted
  · refine ⟨[.arrive connection url method], arrive s ip rq, ?_, ?_, ?_⟩
    · simp [Machine.run, machine, harrive]
    · simp [arrive, hrefused, hpending]
    · simp only [arrive, if_pos hrefused]
  · have hanswer : step params ip (arrive s ip rq) (.answer 0 env conn webroot) =
        some (answer (arrive s ip rq) ip 0 rq (isUnknownUser conn rq.userId) round.response) := by
      simp [step, arrive, hadmitted, hpending, hround]
    refine ⟨[.arrive connection url method, .answer 0 env conn webroot],
      answer (arrive s ip rq) ip 0 rq (isUnknownUser conn rq.userId) round.response, ?_, ?_, ?_⟩
    · simp only [Machine.run, machine, harrive, hanswer, Option.bind_some]
    · simp [answer, arrive, hadmitted, hpending]
    · simp only [answer, arrive, if_neg hadmitted, handleResult_container]

theorem penalised_start : Penalised container ip (start container) :=
  ⟨nofun, nofun, by simp [start]⟩

end Steps

/-- In a run, unknown users get the code 300 and are charged for it exactly as long as no unknown
user gets an answer: the worker answers them like known ones. -/
theorem penalised_iff (params : HttpdParams) (ip : In6Addr)
    (container : AdmissionControlContainer) (events : List Event) :
    (machine params ip container).Visits (Penalised container ip) (start container) events ↔
      (machine params ip container).Steps KnownUser (start container) events := by
  have hkeeps : (machine params ip container).Keeps fun _ => True := fun _ _ _ _ _ => trivial
  exact Machine.visits_iff_steps hkeeps
    (fun s event s' _ h hs => step_penalised s event s' h hs) trivial penalised_start

/-- A request from the loopback address. -/
def smallConnection (userId : Bytes) : Connection where
  header name :=
    if name = bytes "Request" then some (bytes "onet.pl/")
    else if name = bytes "UserId" then some userId
    else none
  sinAddr := 0x0100007f

/-- A web service behind no proxy. -/
def smallParams : HttpdParams := ⟨⟨fun _ => none, fun _ => none⟩, true, true⟩

def smallRequest : Request := ⟨bytes "onet.pl/", bytes "ala", .intentionalRequest⟩

/-- A user that the database does not know is let in and not charged. -/
theorem unknown_user_not_penalised :
    ∃ s, (machine smallParams localhost (smallContainer 1000 50)).run
        (start (smallContainer 1000 50))
        [.arrive (smallConnection (bytes "ala")) (bytes "/cc") (bytes "GET"),
          .answer 0 midnightClock smallDatabase ⟨fun _ => [], fun _ => []⟩] = some s ∧
      s.answered = [⟨true, .resOk, 0⟩] ∧ ¬ Penalised (smallContainer 1000 50) localhost s := by
  have hno : ¬ ChildFound smallDatabase smallRequest.userId := by
    rintro ⟨row, hrow, -⟩
    cases hrow
  have harrive : step smallParams localhost (start (smallContainer 1000 50))
      (.arrive (smallConnection (bytes "ala")) (bytes "/cc") (bytes "GET")) =
      some (arrive (start (smallContainer 1000 50)) localhost smallRequest) := by
    have hrq : categorizationRequest (smallConnection (bytes "ala")) (bytes "/cc") (bytes "GET") =
      some smallRequest := by rfl
    simp only [step, hrq]
    rfl
  have hpending : (arrive (start (smallContainer 1000 50)) localhost smallRequest).pending =
      [smallRequest] := by rfl
  have hanswer : step smallParams localhost
      (arrive (start (smallContainer 1000 50)) localhost smallRequest)
      (.answer 0 midnightClock smallDatabase ⟨fun _ => [], fun _ => []⟩) =
      some (answer (arrive (start (smallContainer 1000 50)) localhost smallRequest) localhost 0
        smallRequest true { result := .resOk }) := by
    simp only [step, hpending]
    simp only [Option.bind_eq_bind, List.getElem?_cons_zero, Option.bind_some,
      handleRequest_unknown hno]
    rfl
  refine ⟨answer (arrive (start (smallContainer 1000 50)) localhost smallRequest) localhost 0
    smallRequest true { result := .resOk }, ?_, ?_, ?_⟩
  · simp only [Machine.run, machine, harrive, hanswer, Option.bind_some]
  · rw [answer_eq (by simp)]
    rfl
  · intro h
    have hresult := h.answered ⟨true, .resOk, 0⟩ (by rw [answer_eq (by simp)]; simp) rfl
    cases hresult

end UnknownUsers

end SafeKiddo
