import SafeKiddo.IcapHandler
import SafeKiddo.Lib.Machine

/-!
# The session of the block page

`ApiConnect` of `apiConnect.cpp`: a session is a cookie that a login has brought and that the child
was set with. A call checks the stored cookie with a request of the block page, and builds a new
session when that fails. The server answers each request in any way; `read_json` is a parameter.

Results:
1. `access_effect`: the four ways in which a call ends.
2. `handedOut_of_steps`: as long as no child fails to be set behind a login, each cookie that is
   handed out belongs to a session.
3. `sessions_iff`: a run hands out session cookies only, and keeps none after a failed reset, exactly
   when each failed reset leaves the cookie empty.
-/

namespace SafeKiddo

open ByteString

namespace BlockPage

/-! ## 1. The code -/

structure HttpRequest where
  apiPath : Bytes
  requestType : Bytes
  otherHeaders : List Bytes
  body : Bytes
  deriving DecidableEq

/-- What `sendRequest` returns, and the headers and the body of the response. -/
structure HttpResponse where
  ret : Bool
  responseHeaders : List Bytes
  responseBody : Bytes
  deriving DecidableEq

/-- The configuration; `readJson` is the value of `success` in a JSON text, if it is one. -/
structure ApiConnect where
  login : Bytes
  password : Bytes
  apiVersionPath : Bytes
  apiLoginPath : Bytes
  apiSetChildPath : Bytes
  apiBlockedPagePath : Bytes
  deviceUuid : Bytes
  childUuid : Bytes
  readJson : Bytes → Option (Option Bool)

/-- The stored cookie, and all requests with their responses, in order. -/
structure Session where
  cookie : Bytes
  exchanges : List (HttpRequest × HttpResponse)

def Session.send (s : Session) (request : HttpRequest) (response : HttpResponse) : Session :=
  { s with exchanges := s.exchanges ++ [(request, response)] }

namespace ApiConnect

variable (self : ApiConnect)

def setCookieHeaderPrefix : Bytes := bytes "Set-Cookie: "

def getFullPath (path : Bytes) : Bytes := self.apiVersionPath ++ path

def getCookieHeader (cookie : Bytes) : Bytes := bytes "Cookie: " ++ cookie

def getUserAgentHeader : Bytes :=
  bytes "user-agent: " ++ bytes "SafeKiddo Appliance (v1.0.0; http://www.safekiddo.com)"

/-- A text that is no JSON, and one without a value, is no success. -/
def handleResponseGeneric (response : Bytes) : Bool :=
  match self.readJson response with
  | none => false
  | some success => success.getD false

def loginRequest : HttpRequest :=
  ⟨self.getFullPath self.apiLoginPath, bytes "POST", [],
    bytes "username=" ++ self.login ++ bytes "&password=" ++ self.password⟩

def childRequest (cookie : Bytes) : HttpRequest :=
  ⟨self.getFullPath self.apiSetChildPath, bytes "POST",
    [getUserAgentHeader, getCookieHeader cookie],
    bytes "child_uuid=" ++ self.childUuid ++ bytes "&device_uuid=" ++ self.deviceUuid ++
      bytes "&device_label=" ++ bytes "School Appliance"⟩

def blockPageRequest (cookie : Bytes) : HttpRequest :=
  ⟨self.getFullPath self.apiBlockedPagePath, bytes "GET", [getCookieHeader cookie], []⟩

/-- The first cookie among the headers. -/
def setCookie : List Bytes → Option Bytes
  | [] => none
  | header :: headers =>
    if isPrefixOfNoCase setCookieHeaderPrefix header then
      some (substr header setCookieHeaderPrefix.length none)
    else
      setCookie headers

/-- The cookie of a successful login. -/
def loginCookie (response : HttpResponse) : Option Bytes :=
  if self.handleResponseGeneric response.responseBody then setCookie response.responseHeaders
  else none

def loginToSafekiddo (response : HttpResponse) (s : Session) : Bool × Session :=
  let s := s.send self.loginRequest response
  match self.loginCookie response with
  | some cookie => (true, { s with cookie := cookie })
  | none => (false, s)

def setChildRequest (response : HttpResponse) (s : Session) : Bool × Session :=
  (self.handleResponseGeneric response.responseBody, s.send (self.childRequest s.cookie) response)

def canConnectToBlockPage (response : HttpResponse) (s : Session) : Bool × Session :=
  if s.cookie = [] then (false, s)
  else (response.ret, s.send (self.blockPageRequest s.cookie) response)

/-- The responses to the requests of one call, of which not all need be sent. -/
structure Answers where
  blockPage : HttpResponse
  login : HttpResponse
  setChild : HttpResponse

def resetSession (answers : Answers) (s : Session) : Bool × Session :=
  let (ok, s) := self.loginToSafekiddo answers.login s
  if ok then self.setChildRequest answers.setChild s else (false, s)

/-- Under `getBlockedPageMutex`. The cookie that is handed out, if there is one. -/
def accessBlockedPage (answers : Answers) (s : Session) : Option Bytes × Session :=
  let (connected, s) := self.canConnectToBlockPage answers.blockPage s
  if connected then
    (some s.cookie, s)
  else
    let (ok, s) := self.resetSession answers s
    if ok then (some s.cookie, s) else (none, s)

/-! ## 2. Runs -/

/-- The session, the cookies that were handed out, and whether the last call has failed. -/
structure State where
  session : Session
  handedOut : List Bytes
  failed : Bool

def step (s : State) (answers : Answers) : Option State :=
  match self.accessBlockedPage answers s.session with
  | (some cookie, session) => some ⟨session, s.handedOut ++ [cookie], false⟩
  | (none, session) => some ⟨session, s.handedOut, true⟩

/-- The calls of all threads, one after the other. -/
def machine : Machine State Answers := ⟨⟨⟨[], []⟩, [], false⟩, self.step⟩

/-- A successful login has brought the cookie, and a later request that set the child with it was
successful. -/
def HasSession (exchanges : List (HttpRequest × HttpResponse)) (cookie : Bytes) : Prop :=
  ∃ before login after child, exchanges = before ++ (self.loginRequest, login) :: after ∧
    self.loginCookie login = some cookie ∧ (self.childRequest cookie, child) ∈ after ∧
    self.handleResponseGeneric child.responseBody = true

/-- Each cookie that was handed out belongs to a session. A failed reset leaves none that a later
call hands out, whatever the block page answers. -/
structure Sessions (api : ApiConnect) (s : State) : Prop where
  handedOut : ∀ cookie ∈ s.handedOut, api.HasSession s.session.exchanges cookie
  failed : s.failed = true →
    ∀ response, (api.canConnectToBlockPage response s.session).1 = false

/-- The stored cookie is accepted by the block page. -/
def Connects (s : State) (answers : Answers) : Prop :=
  s.session.cookie ≠ [] ∧ answers.blockPage.ret = true

/-- The child is set behind a login that brings a cookie. -/
def SetsChild (s : State) (answers : Answers) : Prop :=
  ¬ Connects s answers → ∀ cookie, self.loginCookie answers.login = some cookie → cookie ≠ [] →
    self.handleResponseGeneric answers.setChild.responseBody = true

/-- A login that fails does not follow a cookie that the block page has refused. -/
def KeepsNone (s : State) (answers : Answers) : Prop :=
  ¬ Connects s answers → self.loginCookie answers.login = none → s.session.cookie = []

/-! ## 3. Calls -/

section Calls

variable {self} {s s' : State} {answers : Answers}

/-- The ways in which a call ends. `more` are the exchanges of the call. -/
inductive Effect (self : ApiConnect) (s : State) (answers : Answers) : State → Prop
  | connected (more : List (HttpRequest × HttpResponse)) (h : Connects s answers) :
      Effect self s answers ⟨⟨s.session.cookie, s.session.exchanges ++ more⟩,
        s.handedOut ++ [s.session.cookie], false⟩
  | reset (more : List (HttpRequest × HttpResponse)) (cookie : Bytes) (h : ¬ Connects s answers)
      (hlogin : self.loginCookie answers.login = some cookie)
      (hchild : self.handleResponseGeneric answers.setChild.responseBody = true)
      (hsession : self.HasSession (s.session.exchanges ++ more) cookie) :
      Effect self s answers ⟨⟨cookie, s.session.exchanges ++ more⟩, s.handedOut ++ [cookie], false⟩
  | childFailed (more : List (HttpRequest × HttpResponse)) (cookie : Bytes)
      (h : ¬ Connects s answers) (hlogin : self.loginCookie answers.login = some cookie)
      (hchild : self.handleResponseGeneric answers.setChild.responseBody = false)
      (hmem : (self.loginRequest, answers.login) ∈ more) :
      Effect self s answers ⟨⟨cookie, s.session.exchanges ++ more⟩, s.handedOut, true⟩
  | loginFailed (more : List (HttpRequest × HttpResponse)) (h : ¬ Connects s answers)
      (hlogin : self.loginCookie answers.login = none) :
      Effect self s answers ⟨⟨s.session.cookie, s.session.exchanges ++ more⟩, s.handedOut, true⟩

theorem canConnect_eq (self : ApiConnect) (response : HttpResponse) (s : Session) :
    ∃ more, self.canConnectToBlockPage response s =
      (decide (s.cookie ≠ [] ∧ response.ret = true), ⟨s.cookie, s.exchanges ++ more⟩) := by
  unfold canConnectToBlockPage
  split
  · next hnil =>
    refine ⟨[], ?_⟩
    rw [decide_eq_false fun h => h.1 hnil, List.append_nil]
  · next hne => exact ⟨[(self.blockPageRequest s.cookie, response)], by simp [hne, Session.send]⟩

theorem resetSession_login (self : ApiConnect) {answers : Answers} {cookie : Bytes}
    (h : self.loginCookie answers.login = some cookie) (s : Session) :
    self.resetSession answers s =
      (self.handleResponseGeneric answers.setChild.responseBody, ⟨cookie, s.exchanges ++
        [(self.loginRequest, answers.login), (self.childRequest cookie, answers.setChild)]⟩) := by
  have hlogin : self.loginToSafekiddo answers.login s =
      (true, ⟨cookie, s.exchanges ++ [(self.loginRequest, answers.login)]⟩) := by
    rw [loginToSafekiddo, h]
    rfl
  simp only [resetSession, hlogin, if_true, setChildRequest, Session.send, List.append_assoc]
  rfl

theorem resetSession_failed (self : ApiConnect) {answers : Answers}
    (h : self.loginCookie answers.login = none) (s : Session) :
    self.resetSession answers s =
      (false, ⟨s.cookie, s.exchanges ++ [(self.loginRequest, answers.login)]⟩) := by
  have hlogin : self.loginToSafekiddo answers.login s =
      (false, ⟨s.cookie, s.exchanges ++ [(self.loginRequest, answers.login)]⟩) := by
    rw [loginToSafekiddo, h]
    rfl
  simp only [resetSession, hlogin, Bool.false_eq_true, if_false]

theorem access_effect (h : self.step s answers = some s') : Effect self s answers s' := by
  obtain ⟨more, hcan⟩ := self.canConnect_eq answers.blockPage s.session
  unfold step accessBlockedPage at h
  rcases Decidable.em (s.session.cookie ≠ [] ∧ answers.blockPage.ret = true) with hconnects | hno
  · rw [decide_eq_true hconnects] at hcan
    simp only [hcan, if_true] at h
    cases h
    exact .connected more hconnects
  · rw [decide_eq_false hno] at hcan
    simp only [hcan, Bool.false_eq_true, if_false] at h
    cases hlogin : self.loginCookie answers.login with
    | none =>
      simp only [self.resetSession_failed hlogin, Bool.false_eq_true, if_false, List.append_assoc]
        at h
      cases h
      exact .loginFailed _ hno hlogin
    | some cookie =>
      simp only [self.resetSession_login hlogin, List.append_assoc] at h
      cases hchild : self.handleResponseGeneric answers.setChild.responseBody with
      | true =>
        simp only [hchild, if_true] at h
        cases h
        refine .reset _ cookie hno hlogin hchild ⟨s.session.exchanges ++ more, answers.login,
          [(self.childRequest cookie, answers.setChild)], answers.setChild, ?_, hlogin,
          List.mem_cons_self, hchild⟩
        rw [List.append_assoc]
      | false =>
        simp only [hchild, Bool.false_eq_true, if_false] at h
        cases h
        exact .childFailed _ cookie hno hlogin hchild
          (List.mem_append_right _ List.mem_cons_self)

/-! ## 4. Sessions -/

/-- A session stays one when more is exchanged. -/
theorem HasSession.append {exchanges : List (HttpRequest × HttpResponse)} {cookie : Bytes}
    (h : self.HasSession exchanges cookie) (more : List (HttpRequest × HttpResponse)) :
    self.HasSession (exchanges ++ more) cookie := by
  obtain ⟨before, login, after, child, rfl, hlogin, hmem, hchild⟩ := h
  exact ⟨before, login, after ++ more, child, by simp, hlogin, List.mem_append_left _ hmem, hchild⟩

theorem handedOut_append {p q : Bytes → Prop} {handedOut : List Bytes}
    (h : ∀ cookie ∈ handedOut, p cookie) (hpq : ∀ cookie, p cookie → q cookie) {last : Bytes}
    (hlast : q last) : ∀ cookie ∈ handedOut ++ [last], q cookie := by
  intro cookie hmem
  rcases List.mem_append.mp hmem with hmem | hmem
  · exact hpq cookie (h cookie hmem)
  · exact List.mem_singleton.mp hmem ▸ hlast

/-- The stored cookie belongs to a session, and so does each that was handed out. -/
structure InSession (api : ApiConnect) (s : State) : Prop where
  handedOut : ∀ cookie ∈ s.handedOut, api.HasSession s.session.exchanges cookie
  stored : s.session.cookie ≠ [] → api.HasSession s.session.exchanges s.session.cookie

theorem step_inSession (s : State) (answers : Answers) (s' : State) (h : InSession self s)
    (hsets : self.SetsChild s answers) (hs : self.step s answers = some s') : InSession self s' := by
  cases access_effect hs with
  | connected more hconnects =>
    have hstored := (h.stored hconnects.1).append more
    exact ⟨handedOut_append h.handedOut (fun _ hc => hc.append more) hstored, fun _ => hstored⟩
  | reset more cookie hconnects hlogin hchild hsession =>
    exact ⟨handedOut_append h.handedOut (fun _ hc => hc.append more) hsession, fun _ => hsession⟩
  | childFailed more cookie hconnects hlogin hchild hmem =>
    refine ⟨fun cookie hmem => (h.handedOut cookie hmem).append more, ?_⟩
    intro hne
    exact absurd (hsets hconnects cookie hlogin hne) (Bool.eq_false_iff.mp hchild)
  | loginFailed more hconnects hlogin =>
    exact ⟨fun cookie hmem => (h.handedOut cookie hmem).append more,
      fun hne => (h.stored hne).append more⟩

/-- As long as the child is set behind each login that brings a cookie, only cookies of sessions are
handed out. -/
theorem handedOut_of_steps {calls : List Answers}
    (h : self.machine.Steps self.SetsChild self.machine.init calls) :
    self.machine.Visits
      (fun s => ∀ cookie ∈ s.handedOut, self.HasSession s.session.exchanges cookie)
      self.machine.init calls := by
  have hinit : InSession self self.machine.init :=
    ⟨fun cookie hmem => absurd hmem List.not_mem_nil, fun hne => absurd rfl hne⟩
  exact (Machine.visits_of_steps step_inSession hinit h).imp fun _ => InSession.handedOut

/-- Only a failed call leaves a cookie that was not handed out. -/
def Stored (s : State) : Prop :=
  s.failed = false → s.session.cookie ≠ [] → s.session.cookie ∈ s.handedOut

theorem keeps_stored : self.machine.Keeps Stored := by
  intro s answers s' _ hs
  cases access_effect hs with
  | connected more hconnects => exact fun _ _ => List.mem_append_right _ List.mem_cons_self
  | reset more cookie hconnects hlogin hchild hsession =>
    exact fun _ _ => List.mem_append_right _ List.mem_cons_self
  | childFailed more cookie hconnects hlogin hchild hmem => exact fun hok => Bool.noConfusion hok
  | loginFailed more hconnects hlogin => exact fun hok => Bool.noConfusion hok

/-- The block page can refuse no other cookie than the empty one in advance. -/
theorem connects_none_iff (s : Session) :
    (∀ response, (self.canConnectToBlockPage response s).1 = false) ↔ s.cookie = [] := by
  constructor
  · intro hnone
    by_contra hne
    obtain ⟨more, hcan⟩ := self.canConnect_eq ⟨true, [], []⟩ s
    have hconnects := hnone ⟨true, [], []⟩
    rw [hcan] at hconnects
    exact of_decide_eq_false hconnects ⟨hne, rfl⟩
  · intro hnil response
    obtain ⟨more, hcan⟩ := self.canConnect_eq response s
    rw [hcan]
    exact decide_eq_false fun h => h.1 hnil

theorem Sessions.stored (h : self.Sessions s) (hstored : Stored s)
    (hne : s.session.cookie ≠ []) : self.HasSession s.session.exchanges s.session.cookie := by
  refine h.handedOut _ (hstored ?_ hne)
  rw [← Bool.not_eq_true]
  exact fun hfailed => hne ((connects_none_iff _).mp (h.failed hfailed))

theorem step_sessions (s : State) (answers : Answers) (s' : State) (hstored : Stored s)
    (h : self.Sessions s) (hs : self.step s answers = some s') :
    self.Sessions s' ↔ self.SetsChild s answers ∧ self.KeepsNone s answers := by
  cases access_effect hs with
  | connected more hconnects =>
    have hsession := (h.stored hstored hconnects.1).append more
    exact iff_of_true ⟨handedOut_append h.handedOut (fun _ hc => hc.append more) hsession,
        fun hf => Bool.noConfusion hf⟩
      ⟨fun hno => absurd hconnects hno, fun hno => absurd hconnects hno⟩
  | reset more cookie hconnects hlogin hchild hsession =>
    refine iff_of_true
      ⟨handedOut_append h.handedOut (fun _ hc => hc.append more) hsession,
        fun hf => Bool.noConfusion hf⟩
      ⟨fun _ _ _ _ => hchild, fun _ hnone => ?_⟩
    rw [hlogin] at hnone
    cases hnone
  | childFailed more cookie hconnects hlogin hchild hmem =>
    have hold : ∀ cookie ∈ s.handedOut, self.HasSession (s.session.exchanges ++ more) cookie :=
      fun cookie hmem => (h.handedOut cookie hmem).append more
    constructor
    · intro h'
      have hnil := (connects_none_iff _).mp (h'.failed rfl)
      refine ⟨fun _ cookie' hlogin' hne => ?_, fun _ hnone => ?_⟩
      · rw [hlogin] at hlogin'
        exact absurd (Option.some.inj hlogin' ▸ hnil) hne
      · rw [hlogin] at hnone
        cases hnone
    · rintro ⟨hsets, -⟩
      refine ⟨hold, fun _ => (connects_none_iff _).mpr ?_⟩
      by_contra hne
      exact absurd (hsets hconnects cookie hlogin hne) (Bool.eq_false_iff.mp hchild)
  | loginFailed more hconnects hlogin =>
    have hold : ∀ cookie ∈ s.handedOut, self.HasSession (s.session.exchanges ++ more) cookie :=
      fun cookie hmem => (h.handedOut cookie hmem).append more
    constructor
    · intro h'
      have hnil : s.session.cookie = [] :=
        (connects_none_iff ⟨s.session.cookie, s.session.exchanges ++ more⟩).mp (h'.failed rfl)
      refine ⟨fun _ cookie hlogin' => ?_, fun _ _ => hnil⟩
      rw [hlogin] at hlogin'
      cases hlogin'
    · rintro ⟨-, hkeeps⟩
      exact ⟨hold, fun _ => (connects_none_iff _).mpr (hkeeps hconnects hlogin)⟩

end Calls

/-- A run hands out cookies of sessions only, and keeps none after a failed reset, exactly when in
each call that does not connect the child is set behind a login that brings a cookie, and a login
that fails follows no cookie. -/
theorem sessions_iff (self : ApiConnect) (calls : List Answers) :
    self.machine.Visits self.Sessions self.machine.init calls ↔
      self.machine.Steps (fun s answers => self.SetsChild s answers ∧ self.KeepsNone s answers)
        self.machine.init calls := by
  have hinit : self.Sessions self.machine.init :=
    ⟨fun cookie hmem => absurd hmem List.not_mem_nil, fun hf => Bool.noConfusion hf⟩
  have hstored : Stored self.machine.init := fun _ hne => absurd rfl hne
  exact Machine.visits_iff_steps keeps_stored step_sessions hstored hinit

/-! ## 5. A child that is not set -/

def school : ApiConnect where
  login := bytes "school"
  password := bytes "pw"
  apiVersionPath := bytes "/v1"
  apiLoginPath := bytes "/login"
  apiSetChildPath := bytes "/child"
  apiBlockedPagePath := bytes "/blocked"
  deviceUuid := bytes "d"
  childUuid := bytes "c"
  readJson text :=
    if text = bytes "\x7b\"success\":true\x7d" then some (some true)
    else if text = bytes "\x7b\"success\":false\x7d" then some (some false)
    else none

def accepted : HttpResponse :=
  ⟨true, [bytes "Set-Cookie: sid=1"], bytes "\x7b\"success\":true\x7d"⟩

def refused : HttpResponse := ⟨true, [], bytes "\x7b\"success\":false\x7d"⟩

/-- The login is accepted and the child is not set; the next call hands the cookie out. -/
theorem cookie_without_child :
    ∃ s, school.machine.run school.machine.init [⟨refused, accepted, refused⟩,
        ⟨accepted, refused, refused⟩] = some s ∧
      bytes "sid=1" ∈ s.handedOut ∧ ¬ school.HasSession s.session.exchanges (bytes "sid=1") := by
  refine ⟨_, rfl, by decide +kernel, ?_⟩
  rintro ⟨before, login, after, child, hexchanges, -, hmem, hchild⟩
  have hall : (school.childRequest (bytes "sid=1"), child) ∈ before ++
      (school.loginRequest, login) :: after :=
    List.mem_append_right _ (List.mem_cons_of_mem _ hmem)
  rw [← hexchanges] at hall
  have hrefused : ∀ exchange ∈ [(school.loginRequest, accepted),
      (school.childRequest (bytes "sid=1"), refused),
      (school.blockPageRequest (bytes "sid=1"), accepted)],
      exchange.1 = school.childRequest (bytes "sid=1") →
        school.handleResponseGeneric exchange.2.responseBody = false := by
    decide +kernel
  exact absurd hchild (Bool.eq_false_iff.mp (hrefused _ hall rfl))

end ApiConnect

end BlockPage

end SafeKiddo
