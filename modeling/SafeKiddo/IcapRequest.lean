import SafeKiddo.IcapHandler

/-!
# The rewritten request

What the loop over the headers makes of a whole request: the request line is replaced, the headers of
the block page are put behind it, and the other headers are filtered by their names.

Results:
1. `rewriteHeaders_texts`: headers are kept in order, without the cookies and the host.
2. `splitRequest_sentLine`: what the new request line says, and where it says something else.
3. `checkPreviewHandler_wellFormed_iff`: the rewritten request is well formed when it is not the
   denied request of the block page, and no header begins like a request line.
-/

namespace SafeKiddo

open ByteString IcapLemmas

/-! ## 1. Well-formed requests -/

/-- A header in the form 'Name: value'. -/
structure Header where
  name : Bytes
  value : Bytes
  plain : ∀ c ∈ name, c ≠ chr ' ' ∧ c ≠ chr ':'

namespace Header

def text (h : Header) : Bytes := h.name ++ bytes ": " ++ h.value

/-- The block page has its own host and session. -/
def isCookieOrHost (h : Header) : Bool :=
  equalNoCase (bytes "Cookie") h.name || equalNoCase (bytes "Host") h.name

end Header

def keptHeaders (headers : List Header) : List Header := headers.filter (!·.isCookieOrHost)

/-- The page that explains a denial, over either scheme. -/
def IsBlockPage {σ : Type} (apiConnect : ApiConnect σ) (url : Bytes) : Prop :=
  url = apiConnect.getBlockedPageUrl ∨ url = apiConnect.getBlockedPageUrlNoSsl

instance {σ : Type} (apiConnect : ApiConnect σ) (url : Bytes) :
    Decidable (IsBlockPage apiConnect url) := by
  unfold IsBlockPage; infer_instance

/-- What the request line has to say: method, url and protocol. -/
def expectedRequest {σ : Type} (apiConnect : ApiConnect σ) (method url proto : Bytes)
    (modifiedUrl : Option Bytes) : Bytes × Bytes × Bytes :=
  match modifiedUrl with
  | some modifiedUrl => (method, modifiedUrl, proto)
  | none =>
    if IsBlockPage apiConnect url then (method, url, proto)
    else (bytes "GET", blockPageUrl apiConnect url, proto)

/-- A request line with this method. A header that ends like a request line is told from one by what
stands before its first space. -/
def IsRequestLine (method entry : Bytes) : Prop :=
  ∃ url proto, splitRequest entry = some (method, url, proto)

/-- A header for the block page. -/
def IsAdded (entry : Bytes) : Prop :=
  ∃ h : Header, entry = h.text ∧ h.name ∈ [bytes "Cookie", bytes "sk-url", bytes "sk-code"]

/-- The only request line comes first and says what is expected; the kept headers come last, in
their order. -/
def WellFormedRequest (expected : Bytes × Bytes × Bytes) (headers : List Header)
    (result : List Bytes) : Prop :=
  ∃ newLine added, result = newLine :: (added ++ (keptHeaders headers).map Header.text) ∧
    splitRequest newLine = some expected ∧ (∀ entry ∈ added, IsAdded entry) ∧
    ∀ entry ∈ added ++ (keptHeaders headers).map Header.text, ¬ IsRequestLine expected.1 entry

/-! ## 2. Headers and their names -/

namespace IcapLemmas

theorem isPrefixOf_iff {a b : Bytes} : isPrefixOf a b = true ↔ a <+: b := by
  rw [isPrefixOf, Bool.and_eq_true, decide_eq_true_eq, decide_eq_true_eq,
    List.prefix_iff_eq_take]
  exact ⟨fun h => h.2.symm, fun h => ⟨by rw [h]; exact List.length_take_le' _ _, h.symm⟩⟩

/-- Texts are cut at the first mark in one way. -/
theorem append_cons_prefix_iff {a b s t : Bytes} {x : Byte} (ha : x ∉ a) (hb : x ∉ b) :
    a ++ x :: s <+: b ++ x :: t ↔ a = b ∧ s <+: t := by
  constructor
  · rintro ⟨r, h⟩
    rw [List.append_assoc, List.cons_append] at h
    have hname := congrArg (List.takeWhile (· ≠ x)) h
    rw [List.takeWhile_append_of_pos (keep_of_notMem ha),
      List.takeWhile_append_of_pos (keep_of_notMem hb),
      List.takeWhile_cons_of_neg (by simp), List.takeWhile_cons_of_neg (by simp),
      List.append_nil, List.append_nil] at hname
    subst hname
    exact ⟨rfl, r, (List.cons.inj (List.append_cancel_left h)).2⟩
  · rintro ⟨rfl, hst⟩
    exact (List.prefix_append_right_inj a).mpr (List.cons_prefix_cons.mpr ⟨rfl, hst⟩)

end IcapLemmas

namespace Header

variable {h : Header}

theorem space_notMem_name (h : Header) : chr ' ' ∉ h.name ++ [chr ':'] := by
  intro hm
  rcases List.mem_append.mp hm with hm | hm
  · exact (h.plain _ hm).1 rfl
  · exact absurd hm (by decide)

theorem text_eq (h : Header) : h.text = (h.name ++ [chr ':']) ++ chr ' ' :: h.value := by
  rw [text, show bytes ": " = [chr ':', chr ' '] from rfl]
  simp

/-- A header looks like a request line when its name with the colon is the method. -/
theorem startsWith_iff {method : Bytes} (hm : chr ' ' ∉ method) :
    isPrefixOf (method ++ [chr ' ']) h.text = true ↔ h.name ++ [chr ':'] = method := by
  rw [isPrefixOf_iff, text_eq, append_cons_prefix_iff hm h.space_notMem_name]
  exact ⟨fun he => he.1.symm, fun he => ⟨he.symm, List.nil_prefix⟩⟩

theorem method_of_isRequestLine {method : Bytes} (hline : IsRequestLine method h.text) :
    h.name ++ [chr ':'] = method := by
  obtain ⟨url, proto, hsplit⟩ := hline
  obtain ⟨htext, hm, -⟩ := splitRequest_eq_some.mp hsplit
  refine (startsWith_iff hm).mp (isPrefixOf_iff.mpr ?_)
  rw [htext]
  exact ⟨url ++ chr ' ' :: proto, by simp⟩

theorem not_isRequestLine_get : ¬ IsRequestLine (bytes "GET") h.text := by
  intro hline
  have hlast := congrArg List.getLast? (method_of_isRequestLine hline)
  rw [List.getLast?_concat] at hlast
  exact absurd hlast (by decide)

/-- The prefix test compares the names. -/
theorem hasName_iff {name : Bytes} (hname : chr ':' ∉ name) :
    isPrefixOfNoCase (name ++ bytes ": ") h.text = equalNoCase name h.name := by
  have hcolon : ∀ s : Bytes, lowercase (bytes ": " ++ s) = chr ':' :: chr ' ' :: lowercase s :=
    fun s => rfl
  have hplain : chr ':' ∉ lowercase h.name := by
    rw [mem_lowercase (by decide) (by decide)]
    exact fun hm => (h.plain _ hm).2 rfl
  have hname' : chr ':' ∉ lowercase name := by
    rwa [mem_lowercase (by decide) (by decide)]
  rw [Bool.eq_iff_iff, isPrefixOfNoCase_iff, text, List.append_assoc, lowercase_append,
    lowercase_append, hcolon, show lowercase (bytes ": ") = [chr ':', chr ' '] from rfl,
    append_cons_prefix_iff hname' hplain, equalNoCase, decide_eq_true_eq]
  exact ⟨fun he => he.1, fun he => ⟨he, List.prefix_append [chr ' '] _⟩⟩

end Header

/-! ## 3. The loop over the headers -/

section Loop

variable {σ : Type} {apiConnect : ApiConnect σ} {req : RequestInfo}

theorem rewriteHeader_text (hm : chr ' ' ∉ req.method) {h : Header}
    (hne : h.name ++ [chr ':'] ≠ req.method) (s : σ) :
    rewriteHeader apiConnect req h.text s =
      some (if h.isCookieOrHost then [] else [h.text], s) := by
  have hcookie : isPrefixOfNoCase (bytes "Cookie: ") h.text =
      equalNoCase (bytes "Cookie") h.name := @Header.hasName_iff h (bytes "Cookie") (by decide)
  have hhost : isPrefixOfNoCase (bytes "Host: ") h.text = equalNoCase (bytes "Host") h.name :=
    @Header.hasName_iff h (bytes "Host") (by decide)
  rw [rewriteHeader, if_neg fun hline => hne ((Header.startsWith_iff hm).mp hline), hcookie, hhost,
    Header.isCookieOrHost]
  split <;> rfl

/-- Headers are kept in order, without the cookies and the host. -/
theorem rewriteHeaders_texts (hm : chr ' ' ∉ req.method) {headers : List Header}
    (hne : ∀ h ∈ headers, h.name ++ [chr ':'] ≠ req.method) (s : σ) :
    rewriteHeaders apiConnect req (headers.map Header.text) s =
      some ((keptHeaders headers).map Header.text, s) := by
  induction headers with
  | nil => rfl
  | cons h headers ih =>
    have hrest := ih fun other hother => hne other (List.mem_cons_of_mem _ hother)
    rw [List.map_cons, rewriteHeaders, rewriteHeader_text hm (hne h List.mem_cons_self)]
    simp only [Option.bind_eq_bind, Option.bind_some, hrest, keptHeaders, List.filter_cons]
    cases h.isCookieOrHost <;> rfl

/-- The first of the headers that replace a request line. -/
def sentLine (req : RequestInfo) : Bytes :=
  if req.modifiedUrl = none ∧ req.url = req.blockPageUrl then
    req.method ++ req.url ++ chr ' ' :: req.proto
  else
    newRequestLine req

/-- The headers of the block page stand behind the request line. -/
theorem rewriteHeader_sentLine {line : Bytes} {new : List Bytes} {s s' : σ}
    (hline : isPrefixOf (req.method ++ [chr ' ']) line = true)
    (h : rewriteHeader apiConnect req line s = some (new, s')) :
    ∃ added, new = sentLine req :: added ∧ (∀ entry ∈ added, IsAdded entry) ∧
      (req.modifiedUrl ≠ none → added = []) := by
  let cookies := ((apiConnect.accessBlockedPage s).1.map (bytes "Cookie: " ++ ·)).toList
  have hcookie : ∀ entry ∈ cookies, IsAdded entry := by
    intro entry hentry
    obtain ⟨cookie, -, rfl⟩ := Option.map_eq_some_iff.mp (Option.mem_toList.mp hentry)
    exact ⟨⟨bytes "Cookie", cookie, by decide +kernel⟩, rfl, List.mem_cons_self⟩
  rw [rewriteHeader, if_pos hline] at h
  cases hmod : req.modifiedUrl with
  | some modifiedUrl =>
    simp only [hmod] at h
    cases h
    refine ⟨[], ?_, List.forall_mem_nil _, fun _ => rfl⟩
    rw [sentLine, newRequestLine, hmod, if_neg fun he => Option.some_ne_none _ he.1]
  | none =>
    simp only [hmod] at h
    unfold blockedRequest at h
    unfold sentLine newRequestLine
    by_cases hapi : req.url = req.blockPageUrl
    · simp only [hapi, decide_true, if_true, Option.pure_def, Option.some.injEq,
        Prod.mk.injEq] at h
      obtain ⟨rfl, -⟩ := h
      refine ⟨cookies, ?_, hcookie, fun he => absurd rfl he⟩
      rw [hmod, if_pos ⟨rfl, hapi⟩, hapi]
    · simp only [hapi, decide_false, Bool.false_eq_true, if_false, Option.bind_eq_bind,
        Option.bind_eq_some_iff, Option.pure_def, Option.some.injEq, Prod.mk.injEq] at h
      obtain ⟨-, -, rfl, -⟩ := h
      refine ⟨cookies ++ [bytes "sk-url: " ++ req.url, bytes "sk-code: " ++ printInt req.wsUrlResult],
        ?_, ?_, fun he => absurd rfl he⟩
      · rw [hmod, if_neg fun he => hapi he.2]
        simp [cookies, show bytes "GET " = bytes "GET" ++ [chr ' '] from rfl]
      · intro entry hentry
        rcases List.mem_append.mp hentry with hentry | hentry
        · exact hcookie entry hentry
        · rcases List.mem_cons.mp hentry with rfl | hentry
          · exact ⟨⟨bytes "sk-url", req.url, by decide +kernel⟩, rfl, by simp⟩
          · rw [List.mem_singleton.mp hentry]
            exact ⟨⟨bytes "sk-code", _, by decide +kernel⟩, rfl, by simp⟩

/-- Every entry that begins like a request line is replaced by one. -/
theorem newRequestLine_mem {headers result : List Bytes} {s s' : σ} {line : Bytes}
    (hmem : line ∈ headers) (hline : isPrefixOf (req.method ++ [chr ' ']) line = true)
    (hapi : req.modifiedUrl = none → req.url ≠ req.blockPageUrl)
    (h : rewriteHeaders apiConnect req headers s = some (result, s')) :
    newRequestLine req ∈ result := by
  induction headers generalizing s result with
  | nil => exact nomatch hmem
  | cons header headers ih =>
    rw [rewriteHeaders] at h
    simp only [Option.bind_eq_bind, Option.bind_eq_some_iff] at h
    obtain ⟨⟨new, s1⟩, hnew, ⟨rest, s2⟩, hrest, h⟩ := h
    cases h
    rcases List.mem_cons.mp hmem with rfl | hmem
    · exact List.mem_append_left _
        (List.mem_of_head? (rewriteHeader_request_line hline hapi hnew))
    · exact List.mem_append_right _ (ih hmem hrest)

end Loop

/-! ## 4. The new request line -/

section NewLine

variable {σ : Type} {apiConnect : ApiConnect σ} {method url proto : Bytes}
  {modifiedUrl : Option Bytes} {wsUrlResult : Int}

theorem isBlockPage_blockPageUrl (apiConnect : ApiConnect σ) (url : Bytes) :
    IsBlockPage apiConnect (blockPageUrl apiConnect url) := by
  unfold IsBlockPage blockPageUrl
  split
  · exact .inr rfl
  · exact .inl rfl

/-- What the new request line says: a denied request of the block page is not sent on. -/
theorem splitRequest_sentLine (hm : chr ' ' ∉ method) (hp : chr ' ' ∉ proto)
    (hval : isPrefixOfNoCase (bytes "http/1.") proto = true) :
    splitRequest (sentLine ⟨method, url, proto, modifiedUrl, wsUrlResult,
        blockPageUrl apiConnect url⟩) =
        some (expectedRequest apiConnect method url proto modifiedUrl) ↔
      ¬(modifiedUrl = none ∧ IsBlockPage apiConnect url) := by
  unfold sentLine newRequestLine expectedRequest
  cases modifiedUrl with
  | some modifiedUrl =>
    refine iff_of_true ?_ fun h => absurd h.1 (Option.some_ne_none _)
    rw [if_neg fun h => Option.some_ne_none _ h.1]
    exact splitRequest_eq_some.mpr ⟨rfl, hm, hp, hval⟩
  | none =>
    by_cases hapi : url = blockPageUrl apiConnect url
    · -- The line lacks a space.
      have hpage : IsBlockPage apiConnect url := by
        rw [hapi]
        exact isBlockPage_blockPageUrl apiConnect url
      refine iff_of_false ?_ fun h => h ⟨rfl, hpage⟩
      rw [if_pos ⟨rfl, hapi⟩]
      simp only [if_pos hpage]
      intro hsplit
      have hlen := congrArg List.length (splitRequest_eq_some.mp hsplit).1
      simp only [List.length_append, List.length_cons] at hlen
      omega
    · rw [if_neg fun h => hapi h.2]
      have hsplit : splitRequest (bytes "GET" ++
          chr ' ' :: (blockPageUrl apiConnect url ++ chr ' ' :: proto)) =
          some (bytes "GET", blockPageUrl apiConnect url, proto) :=
        splitRequest_eq_some.mpr ⟨rfl, by decide, hp, hval⟩
      simp only [hsplit, true_and]
      split
      · next hpage =>
        refine iff_of_false (fun he => ?_) fun h => h hpage
        simp only [Option.some.injEq, Prod.mk.injEq] at he
        exact hapi he.2.1.symm
      · next hpage => exact iff_of_true rfl hpage

end NewLine

/-! ## 5. The rewritten request -/

section Handler

variable {σ : Type} {apiConnect : ApiConnect σ} {wsRequest : Bytes → Bytes → Int} {user : Bytes}
  {line method url proto : Bytes} {others : List Bytes} {s s' : σ} {result : List Bytes}
  {modifiedUrl : Option Bytes}

/-- The rounds of the loop when the handler changes the request. -/
theorem rounds_of_modContinue (hsplit : splitRequest line = some (method, url, proto))
    (hmodified : modifyGoogleSearchUrl url = some modifiedUrl)
    (h : checkPreviewHandler apiConnect wsRequest user (line :: others) s =
      some (.modContinue result, s')) :
    ∃ req new rest s1, req = ⟨method, url, proto, modifiedUrl, wsRequest url user,
        blockPageUrl apiConnect url⟩ ∧
      rewriteHeader apiConnect req line s = some (new, s1) ∧
      rewriteHeaders apiConnect req others s1 = some (rest, s') ∧ result = new ++ rest := by
  unfold checkPreviewHandler at h
  simp only [List.head?_cons, Option.bind_eq_bind, Option.bind_some, hsplit, hmodified] at h
  split at h
  · cases h
  · split at h
    · obtain ⟨⟨headers, s2⟩, hheaders, h⟩ := Option.bind_eq_some_iff.mp h
      cases h
      rw [rewriteHeaders] at hheaders
      simp only [Option.bind_eq_bind, Option.bind_eq_some_iff] at hheaders
      obtain ⟨⟨new, s1⟩, hnew, ⟨rest, s3⟩, hrest, h⟩ := hheaders
      cases h
      exact ⟨_, new, rest, s1, rfl, hnew, hrest, rfl⟩
    · cases h

theorem fst_expectedRequest (h : ¬(modifiedUrl = none ∧ IsBlockPage apiConnect url)) :
    (expectedRequest apiConnect method url proto modifiedUrl).1 =
      if modifiedUrl = none then bytes "GET" else method := by
  unfold expectedRequest
  cases modifiedUrl with
  | some modifiedUrl => rfl
  | none =>
    simp only [if_neg fun hpage => h ⟨rfl, hpage⟩]
    rfl

/-- A header that begins like a request line is replaced by a second one. -/
theorem sentLine_mem {req : RequestInfo} {headers : List Header} {header : Header}
    (hm : chr ' ' ∉ req.method) (hapi : req.modifiedUrl = none → req.url ≠ req.blockPageUrl)
    (hheader : header ∈ headers) (hname : header.name ++ [chr ':'] = req.method)
    (h : rewriteHeaders apiConnect req (headers.map Header.text) s = some (result, s')) :
    sentLine req ∈ result := by
  have hline := (Header.startsWith_iff hm).mpr hname
  have hmem := newRequestLine_mem (List.mem_map_of_mem hheader) hline hapi h
  rwa [sentLine, if_neg fun he => hapi he.1 he.2]

/-- Behind the request line there is no other one. -/
theorem not_isRequestLine_of_mem {headers : List Header} {added : List Bytes}
    (hadded : ∀ entry ∈ added, IsAdded entry) (hnone : modifiedUrl ≠ none → added = [])
    (hnames : ∀ header ∈ headers, header.name ++ [chr ':'] ≠ method) {entry : Bytes}
    (hentry : entry ∈ added ++ (keptHeaders headers).map Header.text) :
    ¬ IsRequestLine (if modifiedUrl = none then bytes "GET" else method) entry := by
  intro hline
  rcases List.mem_append.mp hentry with hentry | hentry
  · obtain ⟨h, rfl, -⟩ := hadded entry hentry
    split at hline
    · exact Header.not_isRequestLine_get hline
    · next hsome =>
      rw [hnone hsome] at hentry
      cases hentry
  · obtain ⟨h, hh, rfl⟩ := List.mem_map.mp hentry
    split at hline
    · exact Header.not_isRequestLine_get hline
    · exact hnames h (List.mem_of_mem_filter hh) (Header.method_of_isRequestLine hline)

end Handler

/-- The rewritten request is well formed exactly when it is not the denied request of the block page
and the name of no header, with its colon, is the method. -/
theorem checkPreviewHandler_wellFormed_iff {σ : Type} (apiConnect : ApiConnect σ)
    (wsRequest : Bytes → Bytes → Int) (user : Bytes) {line method url proto : Bytes}
    (headers : List Header) {s s' : σ} {result : List Bytes} {modifiedUrl : Option Bytes}
    (hsplit : splitRequest line = some (method, url, proto))
    (hmodified : modifyGoogleSearchUrl url = some modifiedUrl)
    (h : checkPreviewHandler apiConnect wsRequest user (line :: headers.map Header.text) s =
      some (.modContinue result, s')) :
    WellFormedRequest (expectedRequest apiConnect method url proto modifiedUrl) headers result ↔
      ¬(modifiedUrl = none ∧ IsBlockPage apiConnect url) ∧
      ∀ header ∈ headers, header.name ++ [chr ':'] ≠ method := by
  obtain ⟨hline, hm, hp, hval⟩ := splitRequest_eq_some.mp hsplit
  have hfirst : isPrefixOf (method ++ [chr ' ']) line = true := by
    rw [isPrefixOf_iff, hline]
    exact ⟨url ++ chr ' ' :: proto, by simp⟩
  obtain ⟨req, new, rest, s1, hreq, hnew, hrest, rfl⟩ := rounds_of_modContinue hsplit hmodified h
  obtain rfl : req.method = method := by rw [hreq]
  have hmod : req.modifiedUrl = modifiedUrl := by rw [hreq]
  have hurl : req.url = url := by rw [hreq]
  have hblock : req.blockPageUrl = blockPageUrl apiConnect url := by rw [hreq]
  obtain ⟨added, rfl, hadded, hnone⟩ := rewriteHeader_sentLine hfirst hnew
  have hsent : splitRequest (sentLine req) =
      some (expectedRequest apiConnect req.method url proto modifiedUrl) ↔
      ¬(modifiedUrl = none ∧ IsBlockPage apiConnect url) := by
    rw [hreq]
    exact splitRequest_sentLine hm hp hval
  constructor
  · rintro ⟨newLine, added', hresult, hnewLine, -, hother⟩
    obtain ⟨rfl, htail⟩ := List.cons.inj hresult
    have hpage := hsent.mp hnewLine
    refine ⟨hpage, fun header hheader hname => ?_⟩
    have hapi : req.modifiedUrl = none → req.url ≠ req.blockPageUrl := by
      intro hnone hapi
      refine hpage ⟨hmod.symm.trans hnone, ?_⟩
      rw [← hurl, hapi, hblock]
      exact isBlockPage_blockPageUrl apiConnect url
    have hsecond := sentLine_mem hm hapi hheader hname hrest
    refine hother _ ?_ ⟨_, _, hnewLine⟩
    rw [← htail]
    exact List.mem_append_right _ hsecond
  · rintro ⟨hpage, hnames⟩
    rw [rewriteHeaders_texts hm hnames] at hrest
    cases hrest
    refine ⟨sentLine req, added, rfl, hsent.mpr hpage, hadded, fun entry hentry => ?_⟩
    rw [fst_expectedRequest hpage]
    exact not_isRequestLine_of_mem hadded (hmod ▸ hnone) hnames hentry

theorem checkPreviewHandler_wellFormed_iff_post :
    WellFormedRequest (bytes "GET", bytes "https://dev-api.safekiddo.com/api/v1/block",
        bytes "HTTP/1.1")
      [⟨bytes "Accept", bytes "*/*", by decide +kernel⟩,
        ⟨bytes "host", bytes "wp.pl", by decide +kernel⟩]
      [bytes "GET https://dev-api.safekiddo.com/api/v1/block HTTP/1.1",
        bytes "sk-url: http://wp.pl/a b", bytes "sk-code: 111", bytes "Accept: */*"] := by
  have hrun : checkPreviewHandler blockPage (fun _ _ => 111) (bytes "ola")
      [bytes "POST http://wp.pl/a b HTTP/1.1", bytes "Accept: */*", bytes "host: wp.pl"] () =
      some (.modContinue [bytes "GET https://dev-api.safekiddo.com/api/v1/block HTTP/1.1",
        bytes "sk-url: http://wp.pl/a b", bytes "sk-code: 111", bytes "Accept: */*"], ()) := by
    decide +kernel
  have hsplit : splitRequest (bytes "POST http://wp.pl/a b HTTP/1.1") =
      some (bytes "POST", bytes "http://wp.pl/a b", bytes "HTTP/1.1") := by decide +kernel
  have hmodified : modifyGoogleSearchUrl (bytes "http://wp.pl/a b") = some none := by
    decide +kernel
  exact (checkPreviewHandler_wellFormed_iff blockPage (fun _ _ => 111) (bytes "ola")
    [⟨bytes "Accept", bytes "*/*", by decide +kernel⟩,
      ⟨bytes "host", bytes "wp.pl", by decide +kernel⟩]
    hsplit hmodified hrun).mpr ⟨by decide +kernel, by decide +kernel⟩

/-- The block page over ssl is asked for and denied; a request with a header that is named like its
method is denied. -/
theorem checkPreviewHandler_malformed :
    (∃ result, checkPreviewHandler blockPage (fun _ _ => 111) (bytes "ola")
        [bytes "GET https://dev-api.safekiddo.com/api/v1/block HTTP/1.1"] () =
        some (.modContinue result, ()) ∧
      ¬ WellFormedRequest (bytes "GET", bytes "https://dev-api.safekiddo.com/api/v1/block",
        bytes "HTTP/1.1") [] result) ∧
    ∃ result, checkPreviewHandler blockPage (fun _ _ => 111) (bytes "ola")
        [bytes "X: http://wp.pl/ HTTP/1.1", bytes "X: 1"] () =
        some (.modContinue result, ()) ∧
      ¬ WellFormedRequest (bytes "GET", bytes "https://dev-api.safekiddo.com/api/v1/block",
        bytes "HTTP/1.1") [⟨bytes "X", bytes "1", by decide +kernel⟩] result := by
  refine ⟨⟨[bytes "GET http://dev-api.safekiddo.com/api/v1/block HTTP/1.1",
      bytes "sk-url: https://dev-api.safekiddo.com/api/v1/block", bytes "sk-code: 111"],
    by decide +kernel, ?_⟩, ⟨[bytes "GET https://dev-api.safekiddo.com/api/v1/block HTTP/1.1",
      bytes "sk-url: http://wp.pl/", bytes "sk-code: 111",
      bytes "GET https://dev-api.safekiddo.com/api/v1/block HTTP/1.1",
      bytes "sk-url: http://wp.pl/", bytes "sk-code: 111"], by decide +kernel, ?_⟩⟩
  · rintro ⟨newLine, added, hresult, hsplit, -⟩
    obtain ⟨rfl, -⟩ := List.cons.inj hresult
    exact absurd hsplit (by decide +kernel)
  · rintro ⟨newLine, added, hresult, -, -, hother⟩
    refine hother (bytes "GET https://dev-api.safekiddo.com/api/v1/block HTTP/1.1") ?_
      ⟨bytes "https://dev-api.safekiddo.com/api/v1/block", bytes "HTTP/1.1", by decide +kernel⟩
    rw [← (List.cons.inj hresult).2]
    exact List.mem_cons_of_mem _ (List.mem_cons_of_mem _ List.mem_cons_self)

end SafeKiddo
