import SafeKiddo.UrlNormalization

/-!
# The ICAP plugin

The request handler of `srv_safekiddo.cc`: it splits the request line, rewrites a search url to a
safe search, asks the web service, and rewrites the headers of a denied request so that they lead to
the block page. The web service and the connection to the block page are parameters. A header is
the text of a C string, without a zero byte.

Results:
1. `splitRequest_eq_some`: an accepted line is method, url and protocol between its first and its
   last space.
2. `rewriteHeaders_request_line`: what becomes of the request line when the handler does not leave
   the request unmodified.
3. `blockPageUrl_ne`: the plugin takes no url for the block page.
4. `checkPreviewHandler_denied`: a denied request is never left unmodified; it leads to the block
   page, or, on Google's own hosts, to the safe search.
-/

namespace SafeKiddo

open ByteString

/-! ## 1. The code -/

def isPrefixOf (str1 str2 : Bytes) : Bool :=
  decide (str2.length ≥ str1.length) && str2.take str1.length = str1

def isPrefixOfNoCase (pre string : Bytes) : Bool :=
  decide (string.length ≥ pre.length) && equalNoCase pre (string.take pre.length)

/-- The three parts of a request line; `none` is the error. -/
def splitRequest (request : Bytes) : Option (Bytes × Bytes × Bytes) :=
  match find request (chr ' ') 0, rfind request (chr ' ') with
  | some start, some stop =>
    if stop = start ∨ stop = request.length - 1 then
      none
    else
      let proto := substr request (stop + 1) none
      if !isPrefixOfNoCase (bytes "http/1.") proto then
        none
      else
        some (substr request 0 (some start),
          substr request (start + 1) (some (stop - start - 1)), proto)
  | _, _ => none

/-- Drops the params whose decoded key is `key`. -/
def filterOutParamKeys : List Bytes → Bytes → Checked (List Bytes)
  | [], _ => some []
  | param :: params, key => do
    let decoded ← percentDecode (substr param 0 (find param (chr '=') 0))
    let result ← filterOutParamKeys params key
    return if decoded ≠ key then param :: result else result

def modifyGoogleSearchUrl (url : Bytes) : Checked (Option Bytes) := do
  let parts := splitUrl url
  let hostNameWithOptPort := lowercase parts.hostNameWithOptPort
  if !contains hostNameWithOptPort (bytes "google.") then
    return none
  else
    let (path, params) := splitPathAndQueryString parts.pathAndQueryString
    let decoded ← percentDecode path
    -- only lowercase works
    if !contains decoded (bytes "/search") then
      return none
    else
      let params ← filterOutParamKeys params (bytes "safe")
      return some (joinUrlParts parts.protocolSpecification hostNameWithOptPort path
        (params ++ [bytes "safe=active"]) parts.fragmentId)

/-- The connection to the server of the block page, whose session state is `σ`. The cookie of
`accessBlockedPage` is there when it succeeds. -/
structure ApiConnect (σ : Type) where
  getBlockedPageUrl : Bytes
  getBlockedPageUrlNoSsl : Bytes
  accessBlockedPage : σ → Option Bytes × σ

/-- The urls of `apiConnect.cpp`: one page over ssl, and the same page without. -/
def ApiConnect.ofHost {σ : Type} (apiHost apiVersionPath apiBlockedPagePath : Bytes)
    (accessBlockedPage : σ → Option Bytes × σ) : ApiConnect σ where
  getBlockedPageUrl := bytes "https://" ++ apiHost ++ (apiVersionPath ++ apiBlockedPagePath)
  getBlockedPageUrlNoSsl := bytes "http://" ++ apiHost ++ (apiVersionPath ++ apiBlockedPagePath)
  accessBlockedPage := accessBlockedPage

/-- What the handler tells the ICAP server, and the request headers it leaves. -/
inductive HandlerResult
  | modAllow204
  | modContinue (headers : List Bytes)
  deriving DecidableEq

/-- Workaround for SAF-515: only HTTP urls are supported for requests over ssl. -/
def blockPageUrl {σ : Type} (apiConnect : ApiConnect σ) (url : Bytes) : Bytes :=
  if isPrefixOfNoCase (bytes "https://") url then apiConnect.getBlockedPageUrlNoSsl
  else apiConnect.getBlockedPageUrl

/-- What the loop over the headers knows about the request. -/
structure RequestInfo where
  method : Bytes
  url : Bytes
  proto : Bytes
  modifiedUrl : Option Bytes
  wsUrlResult : Int
  blockPageUrl : Bytes

/-- `out << n` -/
def printInt (n : Int) : Bytes := bytes (toString n)

/-- The headers that replace the request line of a blocked page. -/
def blockedRequest {σ : Type} (apiConnect : ApiConnect σ) (req : RequestInfo) (s : σ) :
    Checked (List Bytes × σ) := do
  let isApiUrl := decide (req.url = req.blockPageUrl)
  let request :=
    if isApiUrl then req.method ++ req.url ++ chr ' ' :: req.proto
    else bytes "GET " ++ req.blockPageUrl ++ chr ' ' :: req.proto
  let (cookie, s) := apiConnect.accessBlockedPage s
  let cookieHeader := (cookie.map (bytes "Cookie: " ++ ·)).toList
  if isApiUrl then
    return (request :: cookieHeader, s)
  else
    -- add params needed by block page
    assert (req.wsUrlResult > 0)
    return (request :: cookieHeader ++
      [bytes "sk-url: " ++ req.url, bytes "sk-code: " ++ printInt req.wsUrlResult], s)

/-- The headers that replace one header. -/
def rewriteHeader {σ : Type} (apiConnect : ApiConnect σ) (req : RequestInfo) (header : Bytes)
    (s : σ) : Checked (List Bytes × σ) :=
  if isPrefixOf (req.method ++ [chr ' ']) header then
    match req.modifiedUrl with
    -- URL was dangerous, but after modification is safe
    | some modifiedUrl => some ([req.method ++ chr ' ' :: (modifiedUrl ++ chr ' ' :: req.proto)], s)
    | none => blockedRequest apiConnect req s
  else if isPrefixOfNoCase (bytes "Cookie: ") header ||
      isPrefixOfNoCase (bytes "Host: ") header then
    some ([], s)
  else
    some ([header], s)

def rewriteHeaders {σ : Type} (apiConnect : ApiConnect σ) (req : RequestInfo) :
    List Bytes → σ → Checked (List Bytes × σ)
  | [], s => some ([], s)
  | header :: headers, s => do
    let (new, s) ← rewriteHeader apiConnect req header s
    let (rest, s) ← rewriteHeaders apiConnect req headers s
    return (new ++ rest, s)

/-- The request line of an http request is its first header. -/
def checkPreviewHandler {σ : Type} (apiConnect : ApiConnect σ) (wsRequest : Bytes → Bytes → Int)
    (user : Bytes) (headers : List Bytes) (s : σ) : Checked (HandlerResult × σ) := do
  let request ← headers.head?
  match splitRequest request with
  | none => return (.modAllow204, s)
  | some (method, url, proto) =>
    if equalNoCase method (bytes "CONNECT") then
      return (.modAllow204, s)
    else
      let modifiedUrl ← modifyGoogleSearchUrl url
      let wsUrlResult := wsRequest url user
      if modifiedUrl.isSome ∨ wsUrlResult > 0 then
        let req := ⟨method, url, proto, modifiedUrl, wsUrlResult, blockPageUrl apiConnect url⟩
        let (headers, s) ← rewriteHeaders apiConnect req headers s
        return (.modContinue headers, s)
      else
        return (.modAllow204, s)

/-! ## 2. Request lines -/

namespace IcapLemmas

theorem ne_nil_of_proto {proto : Bytes} (h : isPrefixOfNoCase (bytes "http/1.") proto = true) :
    proto ≠ [] := by
  rintro rfl
  exact absurd h (by decide)

/-- The cuts of a line with at least two spaces. -/
theorem splitRequest_parts {method url proto : Bytes} (hm : chr ' ' ∉ method)
    (hp : chr ' ' ∉ proto) :
    splitRequest (method ++ chr ' ' :: (url ++ chr ' ' :: proto)) =
      if isPrefixOfNoCase (bytes "http/1.") proto = true then some (method, url, proto)
      else none := by
  have hline : method ++ chr ' ' :: (url ++ chr ' ' :: proto) =
      (method ++ chr ' ' :: url) ++ chr ' ' :: proto := by simp
  have hstop : rfind (method ++ chr ' ' :: (url ++ chr ' ' :: proto)) (chr ' ') =
      some (method.length + 1 + url.length) := by
    rw [hline, rfind_append hp]
    simp
    omega
  have hproto : substr (method ++ chr ' ' :: (url ++ chr ' ' :: proto))
      (method.length + 1 + url.length + 1) none = proto := by
    rw [Nat.add_assoc, Nat.add_assoc, substr_append_length, Nat.add_comm 1, Nat.add_assoc]
    exact (substr_append_length url (chr ' ' :: proto) 1 none).trans rfl
  have hurl : substr (method ++ chr ' ' :: (url ++ chr ' ' :: proto)) (method.length + 1)
      (some (method.length + 1 + url.length - method.length - 1)) = url := by
    rw [substr_append_length, Nat.sub_sub, Nat.add_sub_cancel_left]
    exact substr_front url (chr ' ' :: proto)
  have hmethod := substr_front method (chr ' ' :: (url ++ chr ' ' :: proto))
  unfold splitRequest
  rw [find_append hm, hstop]
  simp only [hproto, hurl, hmethod]
  cases hval : isPrefixOfNoCase (bytes "http/1.") proto with
  | false => simp
  | true =>
    have hne := List.length_pos_iff.mpr (ne_nil_of_proto hval)
    have hlen : (method ++ chr ' ' :: (url ++ chr ' ' :: proto)).length =
        method.length + 1 + url.length + 1 + proto.length := by
      simp
      omega
    rw [if_neg (by omega)]
    simp

end IcapLemmas

open IcapLemmas

/-- A line is accepted when it is a method, a url and an http protocol, cut at its first and its
last space. -/
theorem splitRequest_eq_some {line method url proto : Bytes} :
    splitRequest line = some (method, url, proto) ↔
      line = method ++ chr ' ' :: (url ++ chr ' ' :: proto) ∧ chr ' ' ∉ method ∧
        chr ' ' ∉ proto ∧ isPrefixOfNoCase (bytes "http/1.") proto = true := by
  constructor
  · intro h
    by_cases hspace : chr ' ' ∈ line
    · obtain ⟨m, rest, rfl, hm⟩ := List.eq_append_cons_of_mem hspace
      by_cases hrest : chr ' ' ∈ rest
      · obtain ⟨u, p, rfl, hp⟩ := exists_last hrest
        rw [splitRequest_parts hm hp] at h
        split at h
        · next hval =>
          cases h
          exact ⟨rfl, hm, hp, hval⟩
        · exact nomatch h
      · -- With one space the first and the last one are the same.
        unfold splitRequest at h
        rw [find_append hm, rfind_append hrest] at h
        simp at h
    · unfold splitRequest at h
      rw [find_eq_none (n := 0) hspace] at h
      exact nomatch h
  · rintro ⟨rfl, hm, hp, hval⟩
    rw [splitRequest_parts hm hp, if_pos hval]

/-! ## 3. The rewritten request line -/

theorem percentDecode_eq (str : Bytes) : percentDecode str = some (decodeEscapes str) :=
  urldecode_plain str

theorem filterOutParamKeys_eq (params : List Bytes) (key : Bytes) :
    filterOutParamKeys params key = some (params.filter fun param =>
      decodeEscapes (substr param 0 (find param (chr '=') 0)) ≠ key) := by
  induction params with
  | nil => rfl
  | cons param params ih =>
    rw [filterOutParamKeys, percentDecode_eq, ih, List.filter_cons]
    simp only [Option.bind_eq_bind, Option.bind_some, Option.pure_def, decide_eq_true_eq]

/-- The rewriting of a search url stops at no assertion. -/
theorem modifyGoogleSearchUrl_isSome (url : Bytes) : (modifyGoogleSearchUrl url).isSome := by
  unfold modifyGoogleSearchUrl
  simp only [percentDecode_eq, filterOutParamKeys_eq, Option.bind_eq_bind, Option.bind_some]
  split
  · rfl
  · split
    · rfl
    · rfl

section Handler

variable {σ : Type} {apiConnect : ApiConnect σ} {req : RequestInfo}

theorem rewriteHeader_isSome (hblock : req.modifiedUrl = none → 0 < req.wsUrlResult)
    (header : Bytes) (s : σ) : (rewriteHeader apiConnect req header s).isSome := by
  unfold rewriteHeader
  split
  · cases hm : req.modifiedUrl with
    | some modifiedUrl => rfl
    | none =>
      simp only
      unfold blockedRequest
      by_cases hapi : req.url = req.blockPageUrl
      · simp [hapi]
      · simp [hapi, hblock hm]
  · split <;> rfl

/-- The loop over the headers ends: the web service result of a blocked request is positive. -/
theorem rewriteHeaders_isSome (hblock : req.modifiedUrl = none → 0 < req.wsUrlResult)
    (headers : List Bytes) (s : σ) : (rewriteHeaders apiConnect req headers s).isSome := by
  induction headers generalizing s with
  | nil => rfl
  | cons header headers ih =>
    obtain ⟨⟨new, s1⟩, hnew⟩ := Option.isSome_iff_exists.mp
      (@rewriteHeader_isSome _ apiConnect _ hblock header s)
    obtain ⟨⟨rest, s2⟩, hrest⟩ := Option.isSome_iff_exists.mp (ih s1)
    rw [rewriteHeaders, hnew]
    simp [hrest]

/-- The request line that the handler sends on for a denied request. -/
def newRequestLine (req : RequestInfo) : Bytes :=
  match req.modifiedUrl with
  | some modifiedUrl => req.method ++ chr ' ' :: (modifiedUrl ++ chr ' ' :: req.proto)
  | none => bytes "GET" ++ chr ' ' :: (req.blockPageUrl ++ chr ' ' :: req.proto)

theorem rewriteHeader_request_line {line : Bytes} {new : List Bytes} {s s' : σ}
    (hline : isPrefixOf (req.method ++ [chr ' ']) line = true)
    (hapi : req.modifiedUrl = none → req.url ≠ req.blockPageUrl)
    (h : rewriteHeader apiConnect req line s = some (new, s')) :
    new.head? = some (newRequestLine req) := by
  unfold rewriteHeader at h
  rw [if_pos hline] at h
  unfold newRequestLine
  cases hm : req.modifiedUrl with
  | some modifiedUrl =>
    simp only [hm] at h
    cases h
    rfl
  | none =>
    simp only [hm] at h
    unfold blockedRequest at h
    simp only [hapi hm, decide_false, Bool.false_eq_true, if_false, Option.bind_eq_bind,
      Option.bind_eq_some_iff] at h
    obtain ⟨-, -, h⟩ := h
    cases h
    simp only [List.cons_append, List.head?_cons, List.append_assoc]
    rfl

/-- The first header is the request line, so the first header that is sent on is the new one. -/
theorem rewriteHeaders_request_line {line : Bytes} {headers result : List Bytes} {s s' : σ}
    (hline : isPrefixOf (req.method ++ [chr ' ']) line = true)
    (hapi : req.modifiedUrl = none → req.url ≠ req.blockPageUrl)
    (h : rewriteHeaders apiConnect req (line :: headers) s = some (result, s')) :
    result.head? = some (newRequestLine req) := by
  rw [rewriteHeaders] at h
  simp only [Option.bind_eq_bind, Option.bind_eq_some_iff] at h
  obtain ⟨⟨new, s1⟩, hnew, ⟨rest, s2⟩, -, h⟩ := h
  cases h
  rw [List.head?_append, rewriteHeader_request_line hline hapi hnew]
  rfl

end Handler

/-! ## 4. Denied requests -/

theorem isPrefixOfNoCase_iff {a b : Bytes} :
    isPrefixOfNoCase a b = true ↔ lowercase a <+: lowercase b := by
  have hlen : (lowercase a).length = a.length := List.length_map ..
  rw [isPrefixOfNoCase, Bool.and_eq_true, decide_eq_true_eq, equalNoCase, decide_eq_true_eq,
    List.prefix_iff_eq_take, hlen, lowercase, lowercase, lowercase, List.map_take]
  refine ⟨fun h => h.2, fun h => ⟨?_, h⟩⟩
  have h' := congrArg List.length h
  rw [List.length_map, ← List.map_take, List.length_map] at h'
  rw [h']
  exact List.length_take_le' _ _

/-- The address over ssl is compared with a url that is not over ssl, and the other way round, so no
url is taken for the block page. -/
theorem blockPageUrl_ne {σ : Type} (apiHost apiVersionPath apiBlockedPagePath : Bytes)
    (access : σ → Option Bytes × σ) (url : Bytes) :
    url ≠ blockPageUrl (.ofHost apiHost apiVersionPath apiBlockedPagePath access) url := by
  unfold blockPageUrl ApiConnect.ofHost
  rw [List.append_assoc, List.append_assoc]
  split
  · next h =>
    rintro rfl
    rw [isPrefixOfNoCase_iff, lowercase_append] at h
    obtain ⟨rest, hrest⟩ := h
    have hbyte : some (chr 's') = some (chr ':') := congrArg (·[4]?) hrest
    exact absurd hbyte (by decide)
  · next h =>
    rintro rfl
    refine h ?_
    rw [isPrefixOfNoCase_iff, lowercase_append]
    exact List.prefix_append _ _

/-- The domains of the search engine: `google.com`, and those of countries such as `google.pl`,
`google.co.uk` and `google.com.au`. -/
def isGoogleDomain : List Bytes → Bool
  | [name, top] => name = bytes "google" && (top = bytes "com" || top.length = 2)
  | [name, second, country] =>
    name = bytes "google" && (second = bytes "co" || second = bytes "com") && country.length = 2
  | _ => false

/-- Google's own hosts: the domains of the search engine and the hosts below them. -/
def isGoogleHost (host : Bytes) : Bool :=
  (host.splitOn (chr '.')).tails.any isGoogleDomain

/-- The host of the url is one of them, and no user information that looks like it. -/
def isGoogleUrl (url : Bytes) : Bool :=
  isGoogleHost (lowercase (hostName url)) && chr '@' ∉ (splitUrl url).hostNameWithOptPort

/-- The handler on a search or a denied request: the first header it sends on. -/
theorem checkPreviewHandler_modified {σ : Type} {apiConnect : ApiConnect σ}
    {wsRequest : Bytes → Bytes → Int} {user line method url proto : Bytes}
    (hsplit : splitRequest line = some (method, url, proto))
    (hconnect : equalNoCase method (bytes "CONNECT") = false) {modifiedUrl : Option Bytes}
    (hmod : modifyGoogleSearchUrl url = some modifiedUrl)
    (hdenied : modifiedUrl.isSome ∨ 0 < wsRequest url user)
    (hapi : modifiedUrl = none → url ≠ blockPageUrl apiConnect url) (others : List Bytes) (s : σ) :
    ∃ headers s', checkPreviewHandler apiConnect wsRequest user (line :: others) s =
        some (.modContinue headers, s') ∧
      headers.head? = some (newRequestLine ⟨method, url, proto, modifiedUrl, wsRequest url user,
        blockPageUrl apiConnect url⟩) := by
  obtain ⟨hline, -⟩ := splitRequest_eq_some.mp hsplit
  have hfirst : isPrefixOf (method ++ [chr ' ']) line = true := by
    rw [hline, isPrefixOf, ← List.singleton_append, ← List.append_assoc, List.take_left]
    simp
  have hblock : modifiedUrl = none → 0 < wsRequest url user := by
    rintro rfl
    exact hdenied.resolve_left Bool.false_ne_true
  obtain ⟨⟨headers, s'⟩, hheaders⟩ := Option.isSome_iff_exists.mp
    (@rewriteHeaders_isSome _ apiConnect ⟨method, url, proto, modifiedUrl, wsRequest url user,
      blockPageUrl apiConnect url⟩ hblock (line :: others) s)
  refine ⟨headers, s', ?_, rewriteHeaders_request_line hfirst hapi hheaders⟩
  unfold checkPreviewHandler
  simp only [List.head?_cons, Option.bind_eq_bind, Option.bind_some, hsplit, hconnect, hmod,
    Bool.false_eq_true, if_false, gt_iff_lt, if_pos hdenied, hheaders, Option.pure_def]

/-- A denied request is never left unmodified. It leads to the block page, unless the url is a
search; a search on one of Google's own hosts becomes a safe search. -/
theorem checkPreviewHandler_denied {σ : Type}
    (apiHost apiVersionPath apiBlockedPagePath : Bytes) (access : σ → Option Bytes × σ)
    (wsRequest : Bytes → Bytes → Int) (user : Bytes) {line method url proto : Bytes}
    (others : List Bytes) (s : σ) (hsplit : splitRequest line = some (method, url, proto))
    (hconnect : equalNoCase method (bytes "CONNECT") = false) (hdenied : 0 < wsRequest url user) :
    ∃ headers s',
      checkPreviewHandler (.ofHost apiHost apiVersionPath apiBlockedPagePath access) wsRequest user
        (line :: others) s = some (.modContinue headers, s') ∧
      (modifyGoogleSearchUrl url = some none → ∃ newLine, headers.head? = some newLine ∧
        splitRequest newLine = some (bytes "GET",
          blockPageUrl (.ofHost apiHost apiVersionPath apiBlockedPagePath access) url, proto)) ∧
      ∀ safeUrl, isGoogleUrl url = true →
        modifyGoogleSearchUrl url = some (some safeUrl) → ∃ newLine, headers.head? = some newLine ∧
          splitRequest newLine = some (method, safeUrl, proto) := by
  obtain ⟨modifiedUrl, hmod⟩ := Option.isSome_iff_exists.mp (modifyGoogleSearchUrl_isSome url)
  obtain ⟨-, hm, hp, hval⟩ := splitRequest_eq_some.mp hsplit
  obtain ⟨headers, s', hresult, hhead⟩ := checkPreviewHandler_modified hsplit hconnect hmod
    (.inr hdenied) (fun _ => blockPageUrl_ne apiHost apiVersionPath apiBlockedPagePath access url)
    others s
  refine ⟨headers, s', hresult, fun hnone => ?_, fun safeUrl _ hsome => ?_⟩
  · rw [hmod, Option.some.injEq] at hnone
    subst hnone
    exact ⟨_, hhead, splitRequest_eq_some.mpr ⟨rfl, by decide, hp, hval⟩⟩
  · rw [hmod, Option.some.injEq] at hsome
    subst hsome
    exact ⟨_, hhead, splitRequest_eq_some.mpr ⟨rfl, hm, hp, hval⟩⟩

/-- A block page without a session. -/
def blockPage : ApiConnect Unit :=
  .ofHost (bytes "dev-api.safekiddo.com") (bytes "/api/v1/") (bytes "block") fun s => (none, s)

/-- A page that is no search, and a search on a host of Google. -/
theorem checkPreviewHandler_denied_example :
    (∃ headers, checkPreviewHandler blockPage (fun _ _ => 111) (bytes "ola")
        [bytes "GET http://narkotyki.pl/ HTTP/1.1"] () = some (.modContinue headers, ()) ∧
      ∃ newLine, headers.head? = some newLine ∧ splitRequest newLine = some (bytes "GET",
        bytes "https://dev-api.safekiddo.com/api/v1/block", bytes "HTTP/1.1")) ∧
    ∃ headers, checkPreviewHandler blockPage (fun _ _ => 111) (bytes "ola")
        [bytes "GET http://www.google.co.uk:80/search HTTP/1.1"] () =
          some (.modContinue headers, ()) ∧
      ∃ newLine, headers.head? = some newLine ∧ splitRequest newLine = some (bytes "GET",
        bytes "http://www.google.co.uk:80/search?safe=active", bytes "HTTP/1.1") := by
  obtain ⟨headers, s, hresult, hpage, -⟩ := checkPreviewHandler_denied
    (bytes "dev-api.safekiddo.com") (bytes "/api/v1/") (bytes "block") (fun s => (none, s))
    (fun _ _ => 111) (bytes "ola") [] ()
    (show splitRequest (bytes "GET http://narkotyki.pl/ HTTP/1.1") =
      some (bytes "GET", bytes "http://narkotyki.pl/", bytes "HTTP/1.1") by decide +kernel)
    (by decide) (by decide)
  obtain ⟨headers', s', hresult', -, hsafe⟩ := checkPreviewHandler_denied
    (bytes "dev-api.safekiddo.com") (bytes "/api/v1/") (bytes "block") (fun s => (none, s))
    (fun _ _ => 111) (bytes "ola") [] ()
    (show splitRequest (bytes "GET http://www.google.co.uk:80/search HTTP/1.1") = some (bytes "GET",
      bytes "http://www.google.co.uk:80/search", bytes "HTTP/1.1") by decide +kernel)
    (by decide) (by decide)
  exact ⟨⟨headers, hresult, hpage (by decide +kernel)⟩,
    headers', hresult', hsafe _ (by decide +kernel) (by decide +kernel)⟩

/-- A denied search is sent on to the requested host, as a safe search. -/
theorem checkPreviewHandler_google :
    0 < (fun _ _ => 111 : Bytes → Bytes → Int) (bytes "http://google.pl/search?q=abc")
      (bytes "ola") ∧
    checkPreviewHandler blockPage (fun _ _ => 111) (bytes "ola")
        [bytes "GET http://google.pl/search?q=abc HTTP/1.1"] () =
      some (.modContinue [bytes "GET http://google.pl/search?q=abc&safe=active HTTP/1.1"], ()) ∧
    splitRequest (bytes "GET http://google.pl/search?q=abc&safe=active HTTP/1.1") =
      some (bytes "GET", bytes "http://google.pl/search?q=abc&safe=active", bytes "HTTP/1.1") ∧
    bytes "http://google.pl/search?q=abc&safe=active" ≠
      blockPageUrl blockPage (bytes "http://google.pl/search?q=abc") := by
  decide +kernel

end SafeKiddo
