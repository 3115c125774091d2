import SafeKiddo.BackendReplies
import SafeKiddo.HttpdReplies
import SafeKiddo.IcapRequest
import SafeKiddo.WsConnections

/-!
# From the plugin to the backend

The parts together: the connections of the plugin, the request handler of httpd, and the calls of
the backend. The http library between them reads the requests and sends the replies.

Results:
1. `categorizationRequest_of_reads`: httpd reads the url and the user of the call.
2. `WsConnections.served_of_run`: a call that succeeds has got an answer to its request.
3. `own_verdict`: its result is the code of a call of the backend for its own url and user, and
   decides what becomes of the request.
-/

namespace SafeKiddo

open ByteString WsRequest IcapLemmas
open WsConnections (Conn Effect Finished Label)

/-! ## 1. What httpd reads -/

/-- What the http library makes of the text behind the colon of a header. -/
structure DocumentedValue (value : Bytes → Bytes) : Prop where
  blank : ∀ text, value (chr ' ' :: text) = value text
  plain : ∀ text, (∀ c ∈ text, c ≠ chr ' ') → value text = text

/-- `MHD_lookup_connection_value` -/
def headerOf (value : Bytes → Bytes) (fields : List Bytes) (name : Bytes) : Option Bytes :=
  (fields.find? (isPrefixOfNoCase (name ++ bytes ":"))).map fun field =>
    value (field.drop (name.length + 1))

/-- The http library reads a request: a line, and headers up to an empty line. -/
structure ReadsRequest (value : Bytes → Bytes) (text : Bytes) (connection : Connection)
    (url method : Bytes) : Prop where
  lines : ∃ version fields,
    text =
      ((method ++ chr ' ' :: url ++ chr ' ' :: version) :: fields).flatMap (· ++ crlf) ++ crlf ∧
      (∀ line ∈ (method ++ chr ' ' :: url ++ chr ' ' :: version) :: fields, NoBreak line) ∧
      ∀ name, connection.header name = headerOf value fields name
  method_noSpace : chr ' ' ∉ method
  url_noSpace : chr ' ' ∉ url

section Reading

variable {value : Bytes → Bytes} {host : Bytes} {query : Query} {connection : Connection}
  {url method : Bytes}

theorem noBreak_requestLines (hhost : isHostName host = true) (hclean : query.clean = true) :
    ∀ line ∈ requestLines host query, NoBreak line := by
  obtain ⟨huser, hurl⟩ := noBreak_of_clean hclean
  have hhost : NoBreak host := noBreak_of_all (List.all_eq_true.mp hhost)
  simp only [requestLines, List.forall_mem_cons]
  exact ⟨⟨by decide, by decide⟩, NoBreak.append ⟨by decide, by decide⟩ huser,
    NoBreak.append ⟨by decide, by decide⟩ hurl, NoBreak.append ⟨by decide, by decide⟩ hhost,
    ⟨by decide, by decide⟩, List.forall_mem_nil _⟩

theorem lines_of_text {lines : List Bytes} (hhost : isHostName host = true)
    (hclean : query.clean = true) (hlines : ∀ line ∈ lines, NoBreak line)
    (h : requestText host query = lines.flatMap (· ++ crlf) ++ crlf) :
    lines = requestLines host query := by
  rw [requestText_eq] at h
  exact (Lines.ended_inj (fun l hl => (noBreak_requestLines hhost hclean l hl).1)
    (fun l hl => (hlines l hl).1) h).symm

theorem headerOf_cons {name name' rest : Bytes} {fields : List Bytes} (hname : chr ':' ∉ name)
    (hname' : chr ':' ∉ name') :
    headerOf value ((name' ++ chr ':' :: rest) :: fields) name =
      if equalNoCase name name' then some (value rest) else headerOf value fields name := by
  have hfound : isPrefixOfNoCase (name ++ bytes ":") (name' ++ chr ':' :: rest) =
      equalNoCase name name' := by
    have hlower : ∀ {text : Bytes}, chr ':' ∉ text → chr ':' ∉ lowercase text := fun h =>
      (mem_lowercase (by decide) (by decide)).not.mpr h
    have hcolon : ∀ s : Bytes, lowercase (chr ':' :: s) = chr ':' :: lowercase s := fun _ => rfl
    rw [Bool.eq_iff_iff, isPrefixOfNoCase_iff, lowercase_append, lowercase_append, hcolon,
      show lowercase (bytes ":") = [chr ':'] from rfl,
      append_cons_prefix_iff (hlower hname) (hlower hname'), equalNoCase, decide_eq_true_eq]
    exact and_iff_left List.nil_prefix
  unfold headerOf
  rw [List.find?_cons, hfound]
  cases hequal : equalNoCase name name' with
  | false => rfl
  | true =>
    have hlength : name.length = name'.length := by
      have hlower := congrArg List.length (of_decide_eq_true hequal)
      rwa [lowercase, lowercase, List.length_map, List.length_map] at hlower
    have hdrop : (name' ++ chr ':' :: rest).drop (name'.length + 1) = rest := by
      rw [List.append_cons]
      exact List.drop_left' (by rw [List.length_append, List.length_singleton])
    rw [if_pos rfl, Option.map_some, hlength, hdrop]

/-- httpd finds the url and the user in the request of a call. -/
theorem categorizationRequest_of_reads (hvalue : DocumentedValue value)
    (hhost : isHostName host = true) (hclean : query.clean = true)
    (h : ReadsRequest value (requestText host query) connection url method) :
    categorizationRequest connection url method =
      some ⟨value query.url, value query.user, .nonIntentionalRequest⟩ := by
  obtain ⟨version, fields, htext, hlines, hheader⟩ := h.lines
  have heq := lines_of_text hhost hclean hlines htext
  obtain ⟨hline, rfl⟩ := List.cons_eq_cons.mp heq
  have hget : method ++ chr ' ' :: (url ++ chr ' ' :: version) =
      bytes "GET" ++ chr ' ' :: (bytes "/cc" ++ chr ' ' :: bytes "HTTP/1.1") :=
    (List.append_assoc method (chr ' ' :: url) _).symm.trans hline
  obtain rfl := Lines.eq_of_cut h.method_noSpace (by decide) ⟨[], (List.append_nil _).trans hget⟩
  have hurl := (List.cons.inj (List.append_cancel_left hget)).2
  obtain rfl := Lines.eq_of_cut h.url_noSpace (by decide) ⟨[], (List.append_nil _).trans hurl⟩
  have hfields : [bytes "UserId: " ++ query.user, bytes "Request:" ++ query.url,
      bytes "Host: " ++ host, bytes "UserAction: 0"] =
      [bytes "UserId" ++ chr ':' :: (chr ' ' :: query.user),
        bytes "Request" ++ chr ':' :: query.url,
        bytes "Host" ++ chr ':' :: (chr ' ' :: host),
        bytes "UserAction" ++ chr ':' :: bytes " 0"] :=
    rfl
  have hzero : value (bytes " 0") = bytes "0" :=
    (hvalue.blank (bytes "0")).trans (hvalue.plain (bytes "0") (by decide +kernel))
  have haction : connection.header (bytes "UserAction") = some (bytes "0") := by
    rw [hheader, hfields, headerOf_cons (by decide) (by decide), if_neg (by decide),
      headerOf_cons (by decide) (by decide), if_neg (by decide),
      headerOf_cons (by decide) (by decide), if_neg (by decide),
      headerOf_cons (by decide) (by decide), if_pos (by decide +kernel), hzero]
  have hrequest : connection.header (bytes "Request") = some (value query.url) := by
    rw [hheader, hfields, headerOf_cons (by decide) (by decide), if_neg (by decide),
      headerOf_cons (by decide) (by decide), if_pos (by decide +kernel)]
  have huser : connection.header (bytes "UserId") = some (value query.user) := by
    rw [hheader, hfields, headerOf_cons (by decide) (by decide), if_pos (by decide +kernel),
      hvalue.blank]
  have hparsed : userActionOf (some (bytes "0")) = some .nonIntentionalRequest := by
    decide +kernel
  have hequal : equalNoCase (bytes "GET") (bytes "GET") = true := by decide +kernel
  unfold categorizationRequest
  simp only [haction, hrequest, huser, hparsed, hequal, Option.bind_eq_bind, Option.bind_some,
    and_self, if_true]

end Reading

/-! ## 2. Runs of the plugin -/

namespace WsConnections

section Runs

variable {T : Type} {host : Bytes} {lifetime : UInt64} {s s' : State T} {l : Label T} {conn : Conn}
  {ok : Bytes → WsResponse → Prop}

/-- Each response on a connection is one to the request at its place. -/
def Conn.Matches (ok : Bytes → WsResponse → Prop) (conn : Conn) : Prop :=
  ∃ answered waiting, requestsIn conn.sent = answered ++ waiting ∧
    List.Forall₂ ok answered conn.responses

/-- The arguments are clean, and the service answers the next request of a connection. -/
def Fits (ok : Bytes → WsResponse → Prop) (s : State T) (l : Label T) : Prop :=
  l.clean = true ∧ ∀ socket response, l = .answer socket response → ∀ request,
    (requestsIn (s.conns socket).sent)[(s.conns socket).responses.length]? = some request →
      ok request response

theorem Conn.Matches.send {sent : Bytes} (h : Conn.Matches ok conn) (hsent : conn.sent <+: sent) :
    Conn.Matches ok { conn with sent } := by
  obtain ⟨answered, waiting, hrequests, hok⟩ := h
  obtain ⟨rest, rfl⟩ := hsent
  have hpre : requestsIn conn.sent <+: requestsIn (conn.sent ++ rest) :=
    Framing.messages_prefix conn.sent rest
  obtain ⟨more, hmore⟩ := hpre
  exact ⟨answered, waiting ++ more, by rw [← List.append_assoc, ← hrequests]; exact hmore.symm, hok⟩

theorem Conn.Matches.answer {response : WsResponse} (h : Conn.Matches ok conn)
    (hopen : conn.responses.length < (requestsIn conn.sent).length)
    (hresponse : ∀ request, (requestsIn conn.sent)[conn.responses.length]? = some request →
      ok request response) :
    Conn.Matches ok { conn with responses := conn.responses ++ [response] } := by
  obtain ⟨answered, waiting, hrequests, hok⟩ := h
  have hlength := hok.length_eq
  rw [hrequests, ← hlength] at hopen hresponse
  cases waiting with
  | nil =>
    rw [List.append_nil] at hopen
    exact absurd hopen (Nat.lt_irrefl _)
  | cons request waiting =>
    refine ⟨answered ++ [request], waiting, by rw [hrequests]; simp, ?_⟩
    exact List.rel_append hok (.cons (hresponse request (by simp)) .nil)

theorem matches_update {conns : Nat → Conn} (h : ∀ c, (conns c).Matches ok) {socket : Nat}
    (hconn : conn.Matches ok) (c : Nat) : (Function.update conns socket conn c).Matches ok := by
  rcases eq_or_ne c socket with rfl | hne
  · rwa [Function.update_self]
  · rw [Function.update_of_ne hne]
    exact h c

variable [DecidableEq T]

theorem matches_of_effect (hfits : Fits ok s l) (h : ∀ c, (s.conns c).Matches ok)
    (heffect : Effect host lifetime s l s') : ∀ c, (s'.conns c).Matches ok := by
  cases heffect with
  | writes t wr wait query use buf n hplace =>
    exact matches_update h ((h use.socket).send (List.prefix_append _ _))
  | reads t rd wait query use buf n hplace | readsAll t rd wait query use buf n hplace
  | aborts l t query use n huse => exact matches_update h (h use.socket)
  | answers socket response hopen =>
    exact matches_update h ((h socket).answer hopen (hfits.2 socket response rfl))
  | _ => exact h

omit [DecidableEq T] in
/-- The query of a call. -/
def Place.query? : Place → Option Query
  | .idle => none
  | .connecting query | .creating query | .writing query _ _ | .reading query _ _
  | .adding query _ _ => some query

omit [DecidableEq T] in
/-- The arguments of the calls are clean. -/
structure Clean (s : State T) : Prop where
  running : ∀ t, ∀ query ∈ (s.place t).query?, query.clean = true
  finished : ∀ f ∈ s.finished, f.ret ≠ -1 → f.query.clean = true

theorem Clean.goto (h : Clean s) {t : T} {p : Place}
    (hp : ∀ query ∈ p.query?, query.clean = true) : Clean (s.goto t p) := by
  refine ⟨fun u query hquery => ?_, h.finished⟩
  rcases eq_or_ne u t with rfl | hne
  · exact hp query (by simpa [State.goto] using hquery)
  · exact h.running u query (by simpa [State.goto, Function.update_of_ne hne] using hquery)

theorem Clean.finish (h : Clean s) {t : T} {query : Query} {use : Option Use} {ret : Int}
    (hquery : ret ≠ -1 → query.clean = true) : Clean (s.finish t query use ret) := by
  refine ⟨(h.goto (p := .idle) nofun).running, fun f hf hret => ?_⟩
  rcases List.mem_append.mp hf with hf | hf
  · exact h.finished f hf hret
  · obtain rfl := List.mem_singleton.mp hf
    exact hquery hret

theorem Clean.whileLen (h : Clean s) {t : T} {query : Query} {use : Use} {buf : Bytes}
    (hquery : query.clean = true) : Clean (s.whileLen t query use buf) := by
  refine h.goto fun q hq => ?_
  split at hq <;> exact Option.some.inj hq ▸ hquery

theorem clean_of_effect (hfits : Fits ok s l) (h : Clean s)
    (heffect : Effect host lifetime s l s') : Clean s' := by
  have hold : ∀ {t p query}, s.place t = p → p.query? = some query → query.clean = true :=
    fun hplace hquery => h.running _ _ (by rw [hplace]; exact hquery)
  cases heffect with
  | enters t query hplace => exact h.goto fun q hq => Option.some.inj hq ▸ hfits.1
  | refuses t query hplace huser => exact h.finish fun _ => hfits.1
  | takes t now query front e list hplace =>
    exact Clean.whileLen (s := { s with list }) ⟨h.running, h.finished⟩ (hold hplace rfl)
  | misses t now query hplace =>
    exact Clean.goto (s := { s with list := [] }) ⟨h.running, h.finished⟩
      fun q hq => Option.some.inj hq ▸ hold hplace rfl
  | creates t query hplace =>
    exact Clean.whileLen (s := { s with created := s.created + 1 }) ⟨h.running, h.finished⟩
      (hold hplace rfl)
  | fails t query hplace => exact h.finish fun _ => hold hplace rfl
  | writes t wr wait query use buf n hplace =>
    exact Clean.whileLen (s := s.setConn _ _) ⟨h.running, h.finished⟩ (hold hplace rfl)
  | reads t rd wait query use buf n hplace | readsAll t rd wait query use buf n hplace =>
    exact Clean.goto (s := s.received _ _) ⟨h.running, h.finished⟩
      fun q hq => Option.some.inj hq ▸ hold hplace rfl
  | retries => exact h
  | aborts l t query use n huse =>
    exact Clean.finish (s := s.received _ _) ⟨h.running, h.finished⟩ fun hret => absurd rfl hret
  | adds t now query use ret hplace =>
    have hadd : Clean { s with list := s.list ++ [CacheEntry.mk use.socket (now + lifetime)] } :=
      ⟨h.running, h.finished⟩
    exact hadd.finish fun _ => hold hplace rfl
  | answers socket response => exact ⟨h.running, h.finished⟩

/-- A call that does not fail has got an answer to its own request. -/
theorem served_of_run {ls : List (Label T)}
    (hfits : (machine T host lifetime).Steps (Fits ok) .init ls)
    (hrun : (machine T host lifetime).run .init ls = some s) {f : Finished} (hf : f ∈ s.finished)
    (hret : f.ret ≠ -1) : isHostName host = true ∧ f.query.clean = true ∧
      ∃ r, f.ret = r.result ∧ ok (requestText host f.query) r := by
  have hstep : ∀ s l s', (Inv host s ∧ Clean s ∧ ∀ c, (s.conns c).Matches ok) → Fits ok s l →
      (machine T host lifetime).step s l = some s' →
      Inv host s' ∧ Clean s' ∧ ∀ c, (s'.conns c).Matches ok := by
    rintro s l s' ⟨hinv, hclean, hmatches⟩ hl hs
    have heffect := effect_of_step hs
    exact ⟨keeps_inv hl.1 hinv hs, clean_of_effect hl hclean heffect,
      matches_of_effect hl hmatches heffect⟩
  have hinit : Inv host (.init : State T) ∧ Clean (.init : State T) ∧
      ∀ c, ((.init : State T).conns c).Matches ok :=
    ⟨inv_init, ⟨nofun, nofun⟩, fun _ => ⟨[], [], rfl, .nil⟩⟩
  obtain ⟨hinv, hclean, hmatches⟩ := (Machine.visits_of_steps hstep hinit hfits).final hrun
  obtain ⟨use, r, huse, hserved⟩ := hinv.served f hf hret
  refine ⟨?_, hclean.finished f hf hret, r, hserved.result, ?_⟩
  · refine hinv.hostName (Nat.pos_of_ne_zero fun hzero => ?_)
    have hnew := hinv.fresh use.socket (hzero ▸ Nat.zero_le _)
    have hresponse := hserved.response
    rw [hnew] at hresponse
    cases hresponse
  · obtain ⟨answered, waiting, hrequests, hok⟩ := hmatches use.socket
    have hrequest := hserved.request
    obtain ⟨hlt, hr⟩ := List.getElem?_eq_some_iff.mp hserved.response
    rw [hrequests, List.getElem?_append_left (hok.length_eq ▸ hlt)] at hrequest
    obtain ⟨hlt', hq⟩ := List.getElem?_eq_some_iff.mp hrequest
    rw [← hr, ← hq]
    exact hok.get hlt' hlt

end Runs

end WsConnections

/-! ## 3. The answers of httpd -/

/-- httpd has read the request and sent the response. When it has asked the backend, that was one of
the calls, and its reply. -/
def AnsweredBy (value : Bytes → Bytes) (calls : List BackendCalls.Call) (text : Bytes)
    (response : WsResponse) : Prop :=
  ∃ connection url method params backend container,
    ∃ sent :
        Sent (processRequestAndReturnHttpStatus params connection url method backend container).1,
      ReadsRequest value text connection url method ∧
      (∀ rq, categorizationRequest connection url method = some rq →
        ∃ c ∈ calls, c.request = rq ∧ c.reply = backend rq) ∧
      response.text = sent.text

section Verdict

variable {value : Bytes → Bytes} {host : Bytes} {query : Query} {calls : List BackendCalls.Call}
  {response : WsResponse}

/-- The message to the backend for a call of the plugin. -/
def requestOf (value : Bytes → Bytes) (query : Query) : Request :=
  ⟨value query.url, value query.user, .nonIntentionalRequest⟩

/-- A response has the number that the plugin finds in it. -/
theorem result_of_sent {reply : HttpReply} {code : ResponseCode} (sent : Sent reply)
    (h : TellsCode reply code) (htext : response.text = sent.text) :
    response.result = code.value := by
  have hread := resultIn_sent sent h (htext ▸ response.length_le)
  rw [← htext] at hread
  rcases resultIn_text response with hnone | hresult
  · rw [hread] at hnone
    exact absurd hnone (by omega)
  · exact Int.ofNat.inj (hresult.symm.trans hread)

theorem result_of_answeredBy (hvalue : DocumentedValue value) (hhost : isHostName host = true)
    (hclean : query.clean = true)
    (h : AnsweredBy value calls (requestText host query) response) :
    ∃ c ∈ calls, c.request = requestOf value query ∧
      response.result = (backendQuery c.request fun _ => c.reply).code.value := by
  obtain ⟨connection, url, method, params, backend, container, sent, hreads, hcall, htext⟩ := h
  have hrequest := categorizationRequest_of_reads hvalue hhost hclean hreads
  obtain ⟨c, hc, hown, hreply⟩ := hcall _ hrequest
  refine ⟨c, hc, hown, ?_⟩
  have hprocess := processRequest_of_request params hrequest backend container
  simp only at hprocess
  split at hprocess
  · -- A refusal is no response with a number.
    have hnone : (processRequestAndReturnHttpStatus params connection url method backend
        container).1.headers = [] := by rw [hprocess]
    obtain ⟨line, hline, digits, ending, hdigits, -⟩ := response.hasResult
    rw [htext] at hline
    obtain ⟨header, hmem, -⟩ := header_of_isLine sent hline
      (by rw [hdigits, List.append_assoc]; exact List.prefix_append _ _)
    rw [hnone] at hmem
    cases hmem
  · refine result_of_sent sent ?_ htext
    rw [hprocess, hreply]
    exact tellsCode_handleResult _ _ _ _

end Verdict

/-! ## 4. What becomes of the request -/

section Handler

variable {σ : Type} {apiConnect : ApiConnect σ} {wsRequest : Bytes → Bytes → Int} {user : Bytes}
  {line method url proto : Bytes} {code : ResponseCode}

theorem value_pos_iff : 0 < code.value ↔ code ≠ .resOk := by
  cases code <;> decide

/-- A search goes on as a safe search, whatever the web service tells. -/
theorem checkPreviewHandler_of_search {safeUrl : Bytes}
    (hsplit : splitRequest line = some (method, url, proto))
    (hconnect : equalNoCase method (bytes "CONNECT") = false)
    (hsearch : modifyGoogleSearchUrl url = some (some safeUrl)) (others : List Bytes) (s : σ) :
    ∃ rest s', checkPreviewHandler apiConnect wsRequest user (line :: others) s =
      some (.modContinue ((method ++ chr ' ' :: (safeUrl ++ chr ' ' :: proto)) :: rest), s') := by
  obtain ⟨headers, s', hresult, hhead⟩ := @checkPreviewHandler_modified _ apiConnect wsRequest user
    _ _ _ _ hsplit hconnect _ hsearch (.inl rfl) (fun h => by cases h) others s
  obtain ⟨rest, rfl⟩ := List.head?_eq_some_iff.mp hhead
  exact ⟨rest, s', hresult⟩

/-- A request that is no search is left unmodified, unless the code is a denial. -/
theorem checkPreviewHandler_of_ok (hsplit : splitRequest line = some (method, url, proto))
    (hsearch : modifyGoogleSearchUrl url = some none) (hws : wsRequest url user = code.value)
    (hok : code = .resOk) (others : List Bytes) (s : σ) :
    checkPreviewHandler apiConnect wsRequest user (line :: others) s = some (.modAllow204, s) := by
  have hzero : ¬ wsRequest url user > 0 := by
    rw [hws, hok]
    decide
  unfold checkPreviewHandler
  simp [hsplit, hsearch, hzero]

/-- A denied request is sent on to the block page, with its url and the code. -/
theorem checkPreviewHandler_of_denial (hsplit : splitRequest line = some (method, url, proto))
    (hconnect : equalNoCase method (bytes "CONNECT") = false)
    (hsearch : modifyGoogleSearchUrl url = some none) (hws : wsRequest url user = code.value)
    (hdenied : code ≠ .resOk) (hapi : url ≠ blockPageUrl apiConnect url) (others : List Bytes)
    (s : σ) :
    ∃ added rest s',
      checkPreviewHandler apiConnect wsRequest user (line :: others) s =
        some (.modContinue ((bytes "GET " ++ blockPageUrl apiConnect url ++ chr ' ' :: proto) ::
          (added ++ [bytes "sk-url: " ++ url, bytes "sk-code: " ++ printInt code.value] ++ rest)),
          s') := by
  have hcode : 0 < code.value := value_pos_iff.mpr hdenied
  have hpos : wsRequest url user > 0 := hws ▸ Int.natCast_pos.mpr hcode
  let req : RequestInfo :=
    ⟨method, url, proto, none, wsRequest url user, blockPageUrl apiConnect url⟩
  obtain ⟨hline, hm, hp, hval⟩ := splitRequest_eq_some.mp hsplit
  have hfirst : isPrefixOf (method ++ [chr ' ']) line = true := by
    rw [isPrefixOf_iff, hline]
    exact ⟨url ++ chr ' ' :: proto, by simp⟩
  let cookies := ((apiConnect.accessBlockedPage s).1.map (bytes "Cookie: " ++ ·)).toList
  have hblocked : rewriteHeader apiConnect req line s = some
      ((bytes "GET " ++ blockPageUrl apiConnect url ++ chr ' ' :: proto) ::
        (cookies ++ [bytes "sk-url: " ++ url, bytes "sk-code: " ++ printInt code.value]),
        (apiConnect.accessBlockedPage s).2) := by
    simp [rewriteHeader, blockedRequest, req, hfirst, hapi, hws, cookies, assert, hcode]
  obtain ⟨⟨rest, s'⟩, hrest⟩ := Option.isSome_iff_exists.mp
    (@rewriteHeaders_isSome _ apiConnect req (fun _ => hpos) others
      (apiConnect.accessBlockedPage s).2)
  have hheaders : rewriteHeaders apiConnect req (line :: others) s = some
      ((bytes "GET " ++ blockPageUrl apiConnect url ++ chr ' ' :: proto) ::
        (cookies ++ [bytes "sk-url: " ++ url, bytes "sk-code: " ++ printInt code.value] ++ rest),
        s') := by
    rw [rewriteHeaders, hblocked]
    simp only [Option.bind_eq_bind, Option.bind_some, hrest, List.cons_append]
    rfl
  refine ⟨cookies, rest, s', ?_⟩
  unfold checkPreviewHandler
  simp only [List.head?_cons, Option.bind_eq_bind, Option.bind_some, hsplit, hconnect, hsearch,
    hpos, hheaders, req, Bool.false_eq_true, if_false, Option.isSome_none, false_or, if_true]
  rfl

end Handler

/-- The handlers of the requests with the url of the call. A search goes on as a safe search. Else
the request is left unmodified when the code is OK, and sent on to the block page when it is a
denial, with the url and the code. -/
def Handled (f : Finished) (code : ResponseCode) : Prop :=
  ∀ (σ : Type) (apiHost apiVersionPath apiBlockedPagePath : Bytes) (access : σ → Option Bytes × σ)
    (line method proto : Bytes) (others : List Bytes) (s : σ),
    splitRequest line = some (method, f.query.url, proto) →
    equalNoCase method (bytes "CONNECT") = false →
    let apiConnect := ApiConnect.ofHost apiHost apiVersionPath apiBlockedPagePath access
    let handled :=
      checkPreviewHandler apiConnect (fun _ _ => f.ret) f.query.user (line :: others) s
    (∀ safeUrl, modifyGoogleSearchUrl f.query.url = some (some safeUrl) →
      ∃ rest s', handled =
        some (.modContinue ((method ++ chr ' ' :: (safeUrl ++ chr ' ' :: proto)) :: rest), s')) ∧
    (modifyGoogleSearchUrl f.query.url = some none →
      (code = .resOk → handled = some (.modAllow204, s)) ∧
      (code ≠ .resOk → ∃ cookies rest s', handled =
        some (.modContinue
          ((bytes "GET " ++ blockPageUrl apiConnect f.query.url ++ chr ' ' :: proto) ::
            (cookies ++
              [bytes "sk-url: " ++ f.query.url, bytes "sk-code: " ++ printInt code.value] ++
              rest)), s')))

theorem handled_of_ret {f : Finished} {code : ResponseCode} (h : f.ret = code.value) :
    Handled f code := by
  intro σ apiHost apiVersionPath apiBlockedPagePath access line method proto others s hsplit
    hconnect
  refine ⟨fun safeUrl hsearch => checkPreviewHandler_of_search hsplit hconnect hsearch others s,
    fun hsearch => ⟨fun hok => checkPreviewHandler_of_ok hsplit hsearch h hok others s,
      fun hdenied => ?_⟩⟩
  exact checkPreviewHandler_of_denial hsplit hconnect hsearch h hdenied
    (blockPageUrl_ne apiHost apiVersionPath apiBlockedPagePath access _) others s

/-- The code of a call: what the worker has computed, or OK when there was no reply to be had. -/
def HasCode (c : BackendCalls.Call) (code : ResponseCode) : Prop :=
  (∃ rs, c.reply = .response rs ∧ code = rs.result) ∨
    ((c.reply = .noSocket ∨ c.reply = .timeout) ∧ code = .resOk)

theorem hasCode_of_ownReply {Id : Type} [Fintype Id] [DecidableEq Id]
    {params : BackendCalls.Params} {b : BackendCalls.State Id} {c : BackendCalls.Call}
    (h : BackendCalls.OwnReply params b c) :
    HasCode c (backendQuery c.request fun _ => c.reply).code := by
  obtain ⟨request, sentOn, reply⟩ := c
  cases reply with
  | noSocket => exact .inr ⟨.inl rfl, rfl⟩
  | timeout => exact .inr ⟨.inr rfl, rfl⟩
  | malformed => exact h.elim
  | response rs => exact .inl ⟨rs, rfl, rfl⟩

/-- A call of the plugin that does not fail returns the code of a call of the backend for its own
url and user, and this code decides what becomes of the request. -/
theorem own_verdict {T Id : Type} [DecidableEq T] [Fintype Id] [DecidableEq Id]
    {value : Bytes → Bytes} {params : BackendCalls.Params}
    (hdocumented : params.protobuf.Documented) (hvalue : DocumentedValue value)
    {b : BackendCalls.State Id} (hreach : (BackendCalls.machine Id params).Reachable b)
    (host : Bytes) (lifetime : UInt64) {ls : List (Label T)} {s : WsConnections.State T}
    (hfits : (WsConnections.machine T host lifetime).Steps
      (WsConnections.Fits (AnsweredBy value b.calls)) .init ls)
    (hrun : (WsConnections.machine T host lifetime).run .init ls = some s) :
    ∀ f ∈ s.finished, f.ret ≠ -1 →
      ∃ c ∈ b.calls, c.request = requestOf value f.query ∧ BackendCalls.OwnReply params b c ∧
        ∃ code, HasCode c code ∧ f.ret = code.value ∧ Handled f code := by
  intro f hf hret
  obtain ⟨hhost, hclean, r, hresult, hanswered⟩ := WsConnections.served_of_run hfits hrun hf hret
  obtain ⟨c, hc, hrequest, hcode⟩ := result_of_answeredBy hvalue hhost hclean hanswered
  have hown := BackendCalls.ownReply_of_mem hdocumented hreach hc
  have hvalue := hresult.trans (congrArg Int.ofNat hcode)
  exact ⟨c, hc, hrequest, hown, _, hasCode_of_ownReply hown, hvalue, handled_of_ret hvalue⟩

/-! ## 5. A denied request -/

def dropBlanks (text : Bytes) : Bytes := text.dropWhile (· = chr ' ')

theorem documented_dropBlanks : DocumentedValue dropBlanks where
  blank _ := List.dropWhile_cons_of_pos (by decide)
  plain text h := by
    cases text with
    | nil => rfl
    | cons c text => exact List.dropWhile_cons_of_neg (by simp [h c List.mem_cons_self])

def onetQuery : Query := ⟨bytes "http://onet.pl/", bytes "ola"⟩

/-- One call of the backend, for the query of the plugin. -/
def onetCall : List (BackendCalls.Label Unit) :=
  [.workerReady (bytes "w1"), .balance (some 0) none,
    .enter () (requestOf dropBlanks onetQuery) true,
    .forward 0 (bytes "h"), .balance none (some 0), .workerRecv 0,
    .workerReply (bytes "w1") (requestOf dropBlanks onetQuery) midnightClock smallDatabase
      ⟨fun _ => [], fun _ => []⟩,
    .balance (some 0) none, .reply () 0, .returnSocket () none]

def onetReply : Reply :=
  .response ⟨.resUrlBlockedCustom, some (7, bytes "school"), some (27, bytes "other")⟩

def onetCalled : BackendCalls.Call := ⟨requestOf dropBlanks onetQuery, some (0, 0), onetReply⟩

def onetConnection : Connection where
  header := headerOf dropBlanks (requestLines (bytes "ws") onetQuery).tail
  sinAddr := 0x0100007f

def onetHttpReply : HttpReply :=
  (processRequestAndReturnHttpStatus ⟨⟨fun _ => none, fun _ => none⟩, false, true⟩ onetConnection
    (bytes "/cc") (bytes "GET") (fun _ => onetReply) (AdmissionControl.smallContainer 5 5)).1

theorem onetHttpReply_headers : onetHttpReply.headers =
    [(bytes "Result", bytes "121"), (bytes "Used-profile-id", bytes "7"),
      (bytes "Used-profile-name", bytes "school"), (bytes "Category-group-id", bytes "27"),
      (bytes "Category-group-name", bytes "other")] := by
  decide +kernel

def onetSent : Sent onetHttpReply where
  statusLine := bytes "HTTP/1.1 200 OK"
  fields := [bytes "Connection: Keep-Alive", bytes "Content-Length: 5", bytes "Result: 121",
    bytes "Used-profile-id: 7", bytes "Used-profile-name: school", bytes "Category-group-id: 27",
    bytes "Category-group-name: other", bytes "Date: Mon, 02 Jan 2017 03:04:05 GMT"]
  mhdFields := [bytes "Connection: Keep-Alive", bytes "Content-Length: 5",
    bytes "Date: Mon, 02 Jan 2017 03:04:05 GMT"]
  fields_perm := by
    rw [onetHttpReply_headers]
    decide +kernel
  version := by decide +kernel
  names := by decide +kernel
  noBreak := by
    unfold NoBreak
    decide +kernel
  noNul := by decide +kernel

theorem onet_tellsCode : TellsCode onetHttpReply .resUrlBlockedCustom :=
  ⟨_, onetHttpReply_headers, by decide +kernel⟩

def onetResponse : WsResponse := wsResponse onetSent onet_tellsCode (by decide +kernel)

def onetRun : List (Label Unit) :=
  [.call () onetQuery, .connect () 0, .create () true, .write () 83 0, .answer 0 onetResponse,
    .read () 215 0, .add () 100]

theorem onet_answered : AnsweredBy dropBlanks [onetCalled]
    (requestText (bytes "ws") onetQuery) onetResponse := by
  have hhost : isHostName (bytes "ws") = true := by decide +kernel
  have hclean : onetQuery.clean = true := by decide +kernel
  have hreads : ReadsRequest dropBlanks (requestText (bytes "ws") onetQuery) onetConnection
      (bytes "/cc") (bytes "GET") :=
    { lines := ⟨bytes "HTTP/1.1", (requestLines (bytes "ws") onetQuery).tail, requestText_eq,
        noBreak_requestLines hhost hclean, fun _ => rfl⟩
      method_noSpace := by decide
      url_noSpace := by decide }
  refine ⟨onetConnection, bytes "/cc", bytes "GET", _, fun _ => onetReply, _, onetSent, hreads, ?_,
    rfl⟩
  intro rq hrq
  rw [categorizationRequest_of_reads documented_dropBlanks hhost hclean hreads] at hrq
  exact ⟨onetCalled, List.mem_singleton_self _, Option.some.inj hrq, rfl⟩

theorem onet_fits : (WsConnections.machine Unit (bytes "ws") 10000).Steps
    (WsConnections.Fits (AnsweredBy dropBlanks [onetCalled])) .init
    onetRun := by
  have hother : ∀ {s : WsConnections.State Unit} {l : Label Unit}, l.clean = true →
      (∀ socket response, l ≠ .answer socket response) → WsConnections.Fits
        (AnsweredBy dropBlanks [onetCalled]) s l :=
    fun hclean hne => ⟨hclean, fun socket response hl => absurd hl (hne socket response)⟩
  intro s₁ h₁
  refine ⟨hother (by decide +kernel) nofun, fun s₂ h₂ => ⟨hother rfl nofun, fun s₃ h₃ =>
    ⟨hother rfl nofun, fun s₄ h₄ => ⟨hother rfl nofun, fun s₅ h₅ => ⟨⟨rfl, ?_⟩, fun s₆ h₆ =>
      ⟨hother rfl nofun, fun s₇ h₇ => ⟨hother rfl nofun, trivial⟩⟩⟩⟩⟩⟩⟩
  -- What was sent is the request.
  have hrun :
      (WsConnections.machine Unit (bytes "ws") 10000).run .init (onetRun.take 4) = some s₄ := by
    simp only [onetRun, List.take, Machine.run, h₁, h₂, h₃, h₄, Option.bind_some]
  have hsent : ((WsConnections.machine Unit (bytes "ws") 10000).run .init (onetRun.take 4)).map
      (fun s => (requestsIn (s.conns 0).sent, (s.conns 0).responses.length)) =
        some ([requestText (bytes "ws") onetQuery], 0) := by
    decide +kernel
  rw [hrun, Option.map_some, Option.some_inj, Prod.mk.injEq] at hsent
  intro socket response hl request hrequest
  cases hl
  rw [hsent.1, hsent.2] at hrequest
  exact Option.some.inj hrequest ▸ onet_answered

theorem own_verdict_onet : ∃ b s, (BackendCalls.machine Unit BackendCalls.twoParams).run
      BackendCalls.State.new onetCall = some b ∧
    (WsConnections.machine Unit (bytes "ws") 10000).run .init onetRun = some s ∧
    ∃ f ∈ s.finished, f.ret = 121 ∧
      ∃ c ∈ b.calls, c.request = requestOf dropBlanks f.query ∧
        BackendCalls.OwnReply BackendCalls.twoParams b c ∧
        ∃ code, HasCode c code ∧ f.ret = code.value ∧ Handled f code := by
  have hcalls : ((BackendCalls.machine Unit BackendCalls.twoParams).run BackendCalls.State.new
      onetCall).map (·.calls) = some [onetCalled] := by
    decide +kernel
  have hfinished : ((WsConnections.machine Unit (bytes "ws") 10000).run .init onetRun).map
      (fun s => s.finished.map Finished.ret) = some [121] := by
    decide +kernel
  obtain ⟨b, hb, hcalls⟩ := Option.map_eq_some_iff.mp hcalls
  obtain ⟨s, hs, hrets⟩ := Option.map_eq_some_iff.mp hfinished
  obtain ⟨f, hf, hret⟩ : ∃ f ∈ s.finished, f.ret = 121 :=
    List.mem_map.mp (hrets ▸ List.mem_singleton_self 121)
  refine ⟨b, s, hb, hs, f, hf, hret, ?_⟩
  exact own_verdict safekiddoProto_documented documented_dropBlanks ⟨onetCall, hb⟩ (bytes "ws")
    10000 (hcalls ▸ onet_fits) hs f hf (by rw [hret]; decide)

end SafeKiddo
