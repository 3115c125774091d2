import SafeKiddo.LogRecord
import SafeKiddo.UrlNormalization

/-!
# The worker

One round of `Server::workerFunction`, from a parsed request to the reply and the call of
`RequestLogger::logRequest`. A request that did not parse is handled as far as it was read, so any
request can come here. Statistics and debug logs are left out.

Results:
1. `childFound_iff`: the rows for which the child lookup finds the child.
2. `handleRequest_unknown`: an unknown user is answered with OK, and logged without times.
3. `logged_times_iff`: when every logged result has its times.
-/

namespace SafeKiddo

open ByteString

/-! ## 1. Messages -/

inductive UserActionCode
  | nonIntentionalRequest
  | intentionalRequest
  | categoryGroupQuery
  deriving DecidableEq

/-- `protocol::messages::Request`. -/
structure Request where
  url : Bytes
  userId : Bytes
  userAction : UserActionCode

/-- `protocol::messages::Response`. -/
structure Response where
  result : ResponseCode
  usedProfile : Option (ProfileId × Bytes) := none
  categoryGroup : Option (CategoryGroupId × Bytes) := none
  deriving DecidableEq

/-- The arguments of a call of `RequestLogger::logRequest`. -/
structure LogCall where
  requestUrl : Bytes
  childUuid : Uuid
  result : BackendQueryResult

/-- What a round sends and logs. -/
structure Round where
  response : Response
  logCall : Option LogCall

/-! ## 2. The code -/

/-- The webroot overrides, and the lookup in the webroot database and cloud. -/
structure Webroot where
  findCategorization : Bytes → List Categorization
  bcLookup : Bytes → List Categorization

def userStatusFree : Status := 10

def privateIpAddresses : Nat := 77

def filterOutPrivateIPs (categorizations : List Categorization) : List Categorization :=
  categorizations.filter fun c => c.category ≠ privateIpAddresses

/-- Webroot is queried when there are no overrides, and not for a free user. -/
def categorize (webroot : Webroot) (child : Child) (notTooLongUrl : Bytes) : List Categorization :=
  let categorizations := webroot.findCategorization notTooLongUrl
  if child.status ≠ userStatusFree then
    filterOutPrivateIPs
      (if !categorizations.isEmpty then categorizations else webroot.bcLookup notTooLongUrl)
  else categorizations

/-- The result for a request. A child that is not found may use the internet. -/
def lookUp (env : TimeEnv) (conn : DBConnection) (webroot : Webroot) (userId : Uuid)
    (notTooLongUrl normalizedUrl : Bytes) : Checked BackendQueryResult := do
  match ← Child.create conn userId with
  | .error _ => return { responseCode := some .resOk }
  | .ok none => return { responseCode := some .resOk }
  | .ok (some child) =>
    queryDatabase env conn child (categorize webroot child notTooLongUrl) normalizedUrl

/-- The profile that blocked the request. It is taken without a check in the release build. -/
def usedProfile (responseCode : ResponseCode) (profileInfo : Option (ProfileId × Bytes)) :
    Checked (Option (ProfileId × Bytes)) :=
  if responseCode = .resUrlBlockedCustom ∨ responseCode = .resCategoryBlockedCustom then
    profileInfo.map some
  else some none

def createResponse (categoryGroupQuery : Bool) (result : BackendQueryResult) :
    Checked Response := do
  let responseCode ← result.responseCode
  return {
    result := responseCode
    usedProfile := ← usedProfile responseCode result.profileInfo
    categoryGroup :=
      if responseCode ≠ .resOk || categoryGroupQuery then result.categoryGroupInfo else none }

def handleRequest (env : TimeEnv) (conn : DBConnection) (webroot : Webroot) (request : Request) :
    Checked Round := do
  let notTooLongUrl := shortenUrl request.url
  let normalizedUrl ← normalizeUrl notTooLongUrl
  let result ← lookUp env conn webroot request.userId notTooLongUrl normalizedUrl
  let response ← createResponse (request.userAction = .categoryGroupQuery) result
  return {
    response
    logCall :=
      if request.userAction = .intentionalRequest then
        some ⟨notTooLongUrl, request.userId, result⟩
      else none }

/-! ## 3. Logged results -/

/-- What `logRequest` asserts and takes for granted. -/
structure TimesSet (result : BackendQueryResult) : Prop where
  utcTime : result.utcTime.isSome
  childTime : result.childTime.isSome
  responseCode : result.responseCode.isSome

/-- The line starts with two printed times. -/
def StartsWithTimes (toSimpleString : Int → Bytes) (line : Bytes) : Prop :=
  ∃ utcTime childTime,
    toSimpleString utcTime ++ chr '\t' :: (toSimpleString childTime ++ [chr '\t']) <+: line

/-- Whenever the round calls `logRequest`, the result has its times, and so has the line. -/
def LogsTimes (env : TimeEnv) (conn : DBConnection) (webroot : Webroot) (request : Request) :
    Prop :=
  ∀ round call, handleRequest env conn webroot request = some round → round.logCall = some call →
    TimesSet call.result ∧
      ∀ toSimpleString line,
        logRequest toSimpleString call.requestUrl call.childUuid call.result = some line →
        StartsWithTimes toSimpleString line

/-- There is one row for the user, and its birth date is not refused as malformed. -/
def ChildFound (conn : DBConnection) (userId : Uuid) : Prop :=
  ∃ row, conn.getChild userId = .ok [row] ∧ parseDate row.birthDate ≠ some none

theorem childFound_iff {conn : DBConnection} {userId : Uuid} :
    ChildFound conn userId ↔
      ∀ r, Child.create conn userId = some r → ∃ child, r = .ok (some child) := by
  unfold ChildFound Child.create
  rcases conn.getChild userId with e | _ | ⟨row, _ | ⟨row', rows⟩⟩
  · simp
  · simp
  · rcases hdate : parseDate row.birthDate with _ | _ | birthDate
    · simp [hdate]
    · simp [hdate]
    · simp [hdate]
  · simp

/-- The line of a result with times shows them. -/
theorem TimesSet.startsWithTimes {result : BackendQueryResult} (h : TimesSet result)
    {toSimpleString : Int → Bytes} {requestUrl line : Bytes} {childUuid : Uuid}
    (hline : logRequest toSimpleString requestUrl childUuid result = some line) :
    StartsWithTimes toSimpleString line := by
  obtain ⟨utcTime, hutc⟩ := Option.isSome_iff_exists.mp h.utcTime
  obtain ⟨childTime, hchild⟩ := Option.isSome_iff_exists.mp h.childTime
  obtain ⟨responseCode, hcode⟩ := Option.isSome_iff_exists.mp h.responseCode
  rw [logRequest_eq toSimpleString requestUrl childUuid hcode, hutc, hchild] at hline
  cases hline
  exact ⟨utcTime, childTime, by simp [timeText]⟩

section Round

variable {env : TimeEnv} {conn : DBConnection} {webroot : Webroot}

theorem lookUp_times {userId : Uuid} {notTooLongUrl normalizedUrl : Bytes}
    {result : BackendQueryResult} (hfound : ChildFound conn userId)
    (h : lookUp env conn webroot userId notTooLongUrl normalizedUrl = some result) :
    TimesSet result := by
  obtain ⟨r, hr, h⟩ := Option.bind_eq_some_iff.mp h
  obtain ⟨child, rfl⟩ := childFound_iff.mp hfound r hr
  obtain ⟨hutc, hchild, hcode⟩ := queryDatabase_times h
  exact ⟨hutc, hchild, hcode⟩

/-- A failed lookup and an unknown user give the same result, without times. -/
theorem lookUp_unknown {userId : Uuid} (hfound : ¬ ChildFound conn userId)
    (notTooLongUrl normalizedUrl : Bytes) :
    lookUp env conn webroot userId notTooLongUrl normalizedUrl =
      some { responseCode := some .resOk } := by
  rw [childFound_iff] at hfound
  push Not at hfound
  obtain ⟨r, hr, hno⟩ := hfound
  unfold lookUp
  rw [hr]
  rcases r with e | _ | child
  · rfl
  · rfl
  · exact absurd rfl (hno child)

/-- The parts of a round that ends. -/
theorem handleRequest_eq_some {request : Request} {round : Round} :
    handleRequest env conn webroot request = some round ↔
      ∃ normalizedUrl result response, normalizeUrl (shortenUrl request.url) = some normalizedUrl ∧
        lookUp env conn webroot request.userId (shortenUrl request.url) normalizedUrl =
          some result ∧
        createResponse (request.userAction = .categoryGroupQuery) result = some response ∧
        round = ⟨response, if request.userAction = .intentionalRequest then
          some ⟨shortenUrl request.url, request.userId, result⟩ else none⟩ := by
  simp only [handleRequest, Option.bind_eq_bind, Option.bind_eq_some_iff, Option.pure_def,
    Option.some.injEq]
  constructor
  · rintro ⟨normalizedUrl, hurl, result, hresult, response, hresponse, rfl⟩
    exact ⟨normalizedUrl, result, response, hurl, hresult, hresponse, rfl⟩
  · rintro ⟨normalizedUrl, result, response, hurl, hresult, hresponse, rfl⟩
    exact ⟨normalizedUrl, hurl, result, hresult, response, hresponse, rfl⟩

/-- An unknown user is answered with OK, and the result without times is logged. -/
theorem handleRequest_unknown {request : Request} (hfound : ¬ ChildFound conn request.userId) :
    handleRequest env conn webroot request =
      some ⟨{ result := .resOk }, if request.userAction = .intentionalRequest then
        some ⟨shortenUrl request.url, request.userId, { responseCode := some .resOk }⟩
        else none⟩ := by
  obtain ⟨path, hurl⟩ := exists_normalizeUrl (shortenUrl request.url)
  refine handleRequest_eq_some.mpr ⟨_, _, { result := .resOk }, hurl, lookUp_unknown hfound _ _,
    ?_, rfl⟩
  simp [createResponse, usedProfile]

/-- Logged results have their times exactly when the user of a logged request is found. -/
theorem logged_times_iff (env : TimeEnv) (conn : DBConnection) (webroot : Webroot)
    (request : Request) :
    LogsTimes env conn webroot request ↔
      (request.userAction = .intentionalRequest → ChildFound conn request.userId) := by
  constructor
  · intro h hact
    by_contra hfound
    have hround := @handleRequest_unknown env conn webroot request hfound
    rw [if_pos hact] at hround
    have htimes := (h _ _ hround rfl).1.utcTime
    exact absurd htimes (by simp)
  · intro h round call hround hcall
    obtain ⟨normalizedUrl, result, response, -, hresult, -, rfl⟩ := handleRequest_eq_some.mp hround
    split at hcall
    · next hact =>
      cases hcall
      have htimes := lookUp_times (h hact) hresult
      exact ⟨htimes, fun _ _ hline => htimes.startsWithTimes hline⟩
    · cases hcall

/-- An intentional request of a user that the database does not know. -/
theorem logged_times_unknown :
    ¬ LogsTimes midnightClock smallDatabase ⟨fun _ => [], fun _ => []⟩
      ⟨bytes "onet.pl/", bytes "ala", .intentionalRequest⟩ := by
  intro h
  have hno : ¬ ChildFound smallDatabase (bytes "ala") := by
    rintro ⟨row, hrow, -⟩
    have hne : bytes "ala" ≠ bytes "ola" := by decide +kernel
    simp only [smallDatabase, if_neg hne] at hrow
    cases hrow
  have htimes := (h _ _ (handleRequest_unknown hno) rfl).1.utcTime
  exact absurd htimes (by simp)

end Round

end SafeKiddo
