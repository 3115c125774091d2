import SafeKiddo.AdmissionControl
import SafeKiddo.TypedInteger
import SafeKiddo.Worker

/-!
# The web service

The request handler of `httpd.cc`: it reads the headers of a request, asks the admission control,
sends the request to the backend and turns the reply into headers. The backend, `inet_pton` and the
state of the server are parameters. Header values and urls are texts of C strings.

Results:
1. `isValidBackendResult_eq`: no result code is taken for malformed.
2. `processRequest_of_request`: a valid categorization request is refused, or it is sent to the
   backend once and the reply is handled.
-/

namespace SafeKiddo

open ByteString

/-! ## 1. Connections and replies -/

/-- `MHD_Connection`: the values of the headers, and the address of the client. -/
structure Connection where
  header : Bytes → Option Bytes
  /-- `sin_addr.s_addr`, in network byte order. -/
  sinAddr : UInt32

/-- `inet_pton`, for both families. -/
structure InetPton where
  inet : Bytes → Option UInt32
  inet6 : Bytes → Option In6Addr

/-- What `inet_pton` takes: decimal numbers and dots in one family, hexadecimal numbers, colons and
dots in the other. -/
structure InetPton.Documented (inetPton : InetPton) : Prop where
  inet : ∀ text, (inetPton.inet text).isSome → ∀ c ∈ text, isdigit c ∨ c = chr '.'
  inet6 : ∀ text, (inetPton.inet6 text).isSome → ∀ c ∈ text, isxdigit c ∨ c = chr ':' ∨ c = chr '.'

structure HttpdParams where
  inetPton : InetPton
  useForwardedFor : Bool
  statusOk : Bool

/-- What becomes of a message to the backend. -/
inductive Reply
  | noSocket
  | timeout
  | malformed
  | response (rs : Response)

/-- The `BackendQueryResult` of httpd. -/
structure QueryResult where
  code : ResponseCode
  profile : Option (ProfileId × Bytes) := none
  categoryGroup : Option (CategoryGroupId × Bytes) := none
  timeout : Bool := false

/-- The status and the headers that are sent, the time to sleep before the backend is asked, and
whether a problem is reported to the server status. Debug headers are left out. -/
structure HttpReply where
  status : Nat
  headers : List (Bytes × Bytes) := []
  slowDown : Int := 0
  reportProblem : Bool := false

/-! ## 2. The code -/

def AdmissionControlContainer.inAddrV4ToV6 (inAddr : UInt32) : In6Addr :=
  ⟨#v[0, 0, 0xffff0000, inAddr]⟩

def AdmissionControlContainer.stringToIp (inetPton : InetPton) (addressString : Bytes) :
    Option In6Addr :=
  match inetPton.inet addressString with
  | some inAddr => some (inAddrV4ToV6 inAddr)
  | none => inetPton.inet6 addressString

/-- The address behind the last comma, without the spaces around it. -/
def getLastIp (forwardedFor : Bytes) : Bytes :=
  let pos := match rfind forwardedFor (chr ',') with
    | none => 0
    | some pos => pos + 1
  match findFirstNotOf forwardedFor (chr ' ') pos with
  | some start =>
    match findLastNotOf forwardedFor (chr ' ') with
    | some last => substr forwardedFor start (some (last + 1 - start))
    | none => bytes "(invalid)"
  | none => bytes "(invalid)"

def getClientIp (params : HttpdParams) (connection : Connection) : In6Addr :=
  let remoteIp := AdmissionControlContainer.inAddrV4ToV6 connection.sinAddr
  if params.useForwardedFor then
    match connection.header (bytes "X-Forwarded-For") with
    | none => remoteIp
    | some forwardedFor =>
      (AdmissionControlContainer.stringToIp params.inetPton (getLastIp forwardedFor)).getD remoteIp
  else remoteIp

/-- `boost::lexical_cast<int32_t>`: an optional sign and digits, in the range of the type. -/
def lexicalCastInt32 (text : Bytes) : Option Int :=
  let negative := text.head? = some (chr '-')
  let digits := if negative ∨ text.head? = some (chr '+') then text.tail else text
  let magnitude : Nat := digits.foldl (fun n c => 10 * n + (c.val - 48)) 0
  let value : Int := if negative then -magnitude else magnitude
  if digits ≠ [] ∧ digits.all isdigit ∧ -2 ^ 31 ≤ value ∧ value < 2 ^ 31 then some value else none

def parseUserAction (userActionStr : Bytes) : Option UserActionCode :=
  match lexicalCastInt32 userActionStr with
  | some 0 => some .nonIntentionalRequest
  | some 1 => some .intentionalRequest
  | some 2 => some .categoryGroupQuery
  | _ => none

/-- Without the header the request is intentional. -/
def userActionOf (userActionStr : Option Bytes) : Option UserActionCode :=
  match userActionStr with
  | some userActionStr => parseUserAction userActionStr
  | none => some .intentionalRequest

/-- The message to the backend, for a valid categorization request. -/
def categorizationRequest (connection : Connection) (url method : Bytes) : Option Request := do
  let userActionOpt := userActionOf (connection.header (bytes "UserAction"))
  let requestUrl ← connection.header (bytes "Request")
  let userId ← connection.header (bytes "UserId")
  let userAction ← userActionOpt
  if url = bytes "/cc" ∧ equalNoCase method (bytes "GET") then
    some ⟨requestUrl, userId, userAction⟩
  else none

def backendQuery (rq : Request) (backend : Request → Reply) : QueryResult :=
  match backend rq with
  | .noSocket => { code := .resOk, timeout := true }
  | .timeout => { code := .resOk, timeout := true }
  | .malformed => { code := .resOk }
  | .response rs =>
    { code := rs.result, profile := rs.usedProfile, categoryGroup := rs.categoryGroup }

def isValidBackendResult : ResponseCode → Bool
  | .resUnknownUser => true
  | .resInternetAccessForbidden => true
  | .resCategoryBlockedDefault => true
  | .resCategoryBlockedCustom => true
  | .resCategoryBlockedGlobal => true
  | .resUrlBlockedDefault => true
  | .resUrlBlockedCustom => true
  | .resUrlBlockedGlobal => true
  | .resIpReputationCheckFailed => true
  | .resOk => true

/-- The headers for a pair of a number and a name. -/
def infoHeaders (idHeader nameHeader : Bytes) : Option (Int32 × Bytes) → List (Bytes × Bytes)
  | none => []
  | some (id, name) => [(idHeader, intText id.toUInt32.toNat), (nameHeader, name)]

/-- The end of `processRequestAndReturnHttpStatus`, from the result of the backend query on. -/
def handleResult (container : AdmissionControlContainer) (clientIp : In6Addr) (slowDown : Int)
    (result : QueryResult) : HttpReply × AdmissionControlContainer :=
  let resultCode := result.code
  let (resultHeader, container) :=
    if resultCode = .resOk then (bytes "0", container)
    else if !isValidBackendResult resultCode then (bytes "0", container)
    else
      (intText resultCode.value,
        if resultCode = .resUnknownUser then container.addInvalidCredentialsPenalty clientIp
        else container)
  ({ status := 200
     headers := (bytes "Result", resultHeader) ::
      infoHeaders (bytes "Used-profile-id") (bytes "Used-profile-name") result.profile ++
        infoHeaders (bytes "Category-group-id") (bytes "Category-group-name") result.categoryGroup
     slowDown
     reportProblem := result.timeout }, container)

def processRequestAndReturnHttpStatus (params : HttpdParams) (connection : Connection)
    (url method : Bytes) (backend : Request → Reply) (container : AdmissionControlContainer) :
    HttpReply × AdmissionControlContainer :=
  if equalNoCase url (bytes "/healthcheck") then
    if !params.statusOk then ({ status := 503 }, container) else ({ status := 200 }, container)
  else
    match categorizationRequest connection url method with
    | none => ({ status := 400 }, container)
    | some rq =>
      let clientIp := getClientIp params connection
      let (access, container) := container.getAccess clientIp
      if access.value = -1 then ({ status := 503 }, container)
      else
        -- A negative value passes the debug assertion of the source only in a release build.
        let slowDown := if access.value > 0 then access.value.toInt * 1000 else 0
        handleResult container clientIp slowDown (backendQuery rq backend)

/-! ## 3. What the handler does -/

theorem isValidBackendResult_eq (code : ResponseCode) : isValidBackendResult code = true := by
  cases code <;> rfl

/-- An address has no other character than these. -/
theorem mem_address {inetPton : InetPton} (hinet : inetPton.Documented) {text : Bytes} {ip : In6Addr}
    (h : AdmissionControlContainer.stringToIp inetPton text = some ip) {c : Byte} (hc : c ∈ text) :
    isxdigit c ∨ c = chr ':' ∨ c = chr '.' := by
  have hdigit : isdigit c = true → isxdigit c = true := by simp +contextual [isxdigit]
  unfold AdmissionControlContainer.stringToIp at h
  cases hv4 : inetPton.inet text with
  | some inAddr =>
    rcases hinet.inet text (by rw [hv4]; rfl) c hc with hd | hdot
    · exact .inl (hdigit hd)
    · exact .inr (.inr hdot)
  | none =>
    simp only [hv4] at h
    exact hinet.inet6 text (by rw [h]; rfl) c hc

variable (params : HttpdParams) {connection : Connection} {url method : Bytes} {rq : Request}

/-- A categorization request goes to its own path. -/
theorem url_of_request (h : categorizationRequest connection url method = some rq) :
    url = bytes "/cc" := by
  obtain ⟨requestUrl, -, h⟩ := Option.bind_eq_some_iff.mp h
  obtain ⟨userId, -, h⟩ := Option.bind_eq_some_iff.mp h
  obtain ⟨userAction, -, h⟩ := Option.bind_eq_some_iff.mp h
  split at h
  · next hpath => exact hpath.1
  · cases h

theorem processRequest_of_request (h : categorizationRequest connection url method = some rq)
    (backend : Request → Reply) (container : AdmissionControlContainer) :
    let clientIp := getClientIp params connection
    let admission := container.getAccess clientIp
    processRequestAndReturnHttpStatus params connection url method backend container =
      if admission.1.value = -1 then ({ status := 503 }, admission.2)
      else handleResult admission.2 clientIp
        (if admission.1.value > 0 then admission.1.value.toInt * 1000 else 0)
        (backendQuery rq backend) := by
  have hpath : equalNoCase url (bytes "/healthcheck") = false := by
    rw [url_of_request h]
    decide +kernel
  simp only [processRequestAndReturnHttpStatus, hpath, h, Bool.false_eq_true, if_false]

/-- The container changes only when the backend does not know the user. -/
theorem handleResult_container (container : AdmissionControlContainer) (clientIp : In6Addr)
    (slowDown : Int) (result : QueryResult) :
    (handleResult container clientIp slowDown result).2 =
      if result.code = .resUnknownUser then container.addInvalidCredentialsPenalty clientIp
      else container := by
  unfold handleResult
  simp only [isValidBackendResult_eq, Bool.not_true, Bool.false_eq_true, if_false]
  split
  · next hok => simp [hok]
  · rfl

end SafeKiddo
