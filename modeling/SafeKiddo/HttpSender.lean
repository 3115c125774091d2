import SafeKiddo.BlockPageSession
import SafeKiddo.Lib.Chunks
import SafeKiddo.Lib.InputStream
import SafeKiddo.Lib.Lines
import SafeKiddo.TypedIntegerInput
import SafeKiddo.WsRequest

/-!
# Requests to the server of the block page

`HttpSender::sendRequest` of `httpSender.cpp`: the text of a request, and what is read in the
response, which comes in chunks of any size.

Results:
1. `requestText_inj`: the request can be read back from its text.
2. `sendRequest_ret_iff`: however a response is cut into chunks, it is taken when all of it has
   come, or, when it announces no length, all of its head.
3. `handedOut_of_server`: each cookie that is handed out was set by a response of the server to a
   login.
-/

namespace SafeKiddo

open ByteString Chunks
open WsRequest hiding isspace decimal

namespace HttpSender

open BlockPage (HttpRequest HttpResponse)
open BlockPage.ApiConnect (handedOut_append)

/-! ## 1. The code -/

/-- The lines before the empty one. -/
def requestLines (server : Bytes) (request : HttpRequest) : List Bytes :=
  [request.requestType ++ bytes " " ++ request.apiPath ++ bytes " HTTP/1.0",
    bytes "Host: " ++ server, bytes "Content-Length: " ++ intText request.body.length,
    bytes "Content-Type: application/x-www-form-urlencoded"] ++ request.otherHeaders ++
    [bytes "Connection: close"]

def requestText (server : Bytes) (request : HttpRequest) : Bytes :=
  (requestLines server request).flatMap (· ++ crlf) ++ crlf ++ request.body

/-- The end of `read_until`. -/
def found (delim buf : Bytes) : Bool := decide (delim <:+: buf)

/-- `boost::lexical_cast<size_t>` -/
def lexicalCastSize (text : Bytes) : Option Nat := (lexicalCast ⟨64, false⟩ text).map Int.toNat

def contentLengthHeaderPrefix : Bytes := bytes "Content-Length: "

/-- A line of the headers, without its end. -/
def chomp (header : Bytes) : Bytes :=
  if header.getLast? = some (chr '\r') then header.dropLast else header

/-- The loop over the headers. An error leaves the headers before it. -/
def readHeaders (s : InputStream) (responseHeaders : List Bytes) (contentLength : Option Nat) :
    Except (List Bytes) (List Bytes × Option Nat × InputStream) :=
  if _hfail : s.getline.2.fail = false then
    let header := chomp s.getline.1
    if header = [] then .ok (responseHeaders, contentLength, s.getline.2)
    else
      let responseHeaders := responseHeaders ++ [header]
      if isPrefixOfNoCase contentLengthHeaderPrefix header then
        match lexicalCastSize (substr header contentLengthHeaderPrefix.length none) with
        | none => .error responseHeaders
        | some contentLength => readHeaders s.getline.2 responseHeaders (some contentLength)
      else readHeaders s.getline.2 responseHeaders contentLength
  else .ok (responseHeaders, contentLength, s.getline.2)
termination_by s.buf.length
decreasing_by all_goals exact InputStream.getline_shorter s _hfail

/-- `istream::read` of the whole buffer into a text of zero bytes. -/
def readBody (s : InputStream) (contentLength : Nat) : Bytes :=
  if s.good then s.buf else List.replicate contentLength 0

/-- The response is in the buffer up to the empty line. -/
def receiveBody (s : InputStream) (chunks : List Bytes) : HttpResponse :=
  match readHeaders s [] none with
  | .error responseHeaders => ⟨false, responseHeaders, []⟩
  | .ok (responseHeaders, none, _) => ⟨true, responseHeaders, []⟩
  | .ok (responseHeaders, some contentLength, s) =>
    match readUntil (fun buf => contentLength ≤ buf.length) s.buf chunks with
    | none => ⟨false, responseHeaders, []⟩
    | some (buf, _) =>
      if buf.length ≠ contentLength then ⟨false, responseHeaders, []⟩
      else ⟨true, responseHeaders, readBody { s with buf } contentLength⟩

/-- Behind the status line. -/
def receiveHeaders (s : InputStream) (chunks : List Bytes) : HttpResponse :=
  match readUntil (found (crlf ++ crlf)) s.buf chunks with
  | none => ⟨false, [], []⟩
  | some (buf, chunks) => receiveBody { s with buf } chunks

/-- From the status line on. -/
def receive (chunks : List Bytes) : HttpResponse :=
  match readUntil (found crlf) [] chunks with
  | none => ⟨false, [], []⟩
  | some (buf, chunks) =>
    let (httpVersion, s) := (InputStream.of buf).readWord
    let (statusCode, s) := s.readUnsigned
    let (_, s) := s.getline
    if s.fail || !isPrefixOfNoCase (bytes "HTTP/") httpVersion then ⟨false, [], []⟩
    else if statusCode ≠ 200 then ⟨false, [], []⟩
    else receiveHeaders s chunks

/-- What the network does with a request. -/
inductive Exchange
  /-- No connection, or it is lost while the request is written. -/
  | notSent
  /-- What is received after the request was written, up to the end of the connection. -/
  | sent (chunks : List Bytes)

/-- The headers and the body are those of the caller, where nothing is read. -/
def sendRequest : Exchange → HttpResponse
  | .notSent => ⟨false, [], []⟩
  | .sent chunks => receive chunks

/-! ## 2. Requests -/

/-- Text for the lines of a request. -/
structure Plain (request : HttpRequest) : Prop where
  requestType_noSpace : chr ' ' ∉ request.requestType
  requestType : NoBreak request.requestType
  apiPath : NoBreak request.apiPath
  otherHeaders : ∀ header ∈ request.otherHeaders, header ≠ [] ∧ NoBreak header

section Requests

variable {server : Bytes} {request a b : HttpRequest}

theorem noBreak_intText (n : Int) : NoBreak (intText n) := by
  have hplain : ∀ c : Byte, isdigit c = true ∨ c = chr '-' → c ≠ chr '\r' ∧ c ≠ chr '\n' := by
    decide +kernel
  exact ⟨fun h => (hplain _ (mem_intText h)).1 rfl, fun h => (hplain _ (mem_intText h)).2 rfl⟩

theorem requestLines_plain (hserver : NoBreak server) (h : Plain request) :
    ∀ line ∈ requestLines server request, line ≠ [] ∧ NoBreak line := by
  have hfield : ∀ {name value : Bytes}, name ≠ [] → NoBreak name → NoBreak value →
      name ++ value ≠ [] ∧ NoBreak (name ++ value) := fun hne hname hvalue =>
    ⟨List.append_ne_nil_of_left_ne_nil hne _, hname.append hvalue⟩
  have hfirst : NoBreak (request.requestType ++ bytes " " ++ request.apiPath) :=
    (h.requestType.append ⟨by decide, by decide⟩).append h.apiPath
  have htype : NoBreak (bytes "Content-Type: application/x-www-form-urlencoded") :=
    ⟨by decide, by decide⟩
  intro line hline
  rcases List.mem_append.mp hline with hline | hline
  · rcases List.mem_append.mp hline with hline | hline
    · simp only [List.mem_cons, List.not_mem_nil, or_false] at hline
      rcases hline with rfl | rfl | rfl | rfl
      · exact ⟨List.append_ne_nil_of_right_ne_nil _ (by decide),
          hfirst.append ⟨by decide, by decide⟩⟩
      · exact hfield (by decide) ⟨by decide, by decide⟩ hserver
      · exact hfield (by decide) ⟨by decide, by decide⟩ (noBreak_intText _)
      · exact ⟨by decide, htype⟩
    · exact h.otherHeaders line hline
  · rw [List.mem_singleton.mp hline]
    exact ⟨by decide, by decide, by decide⟩

/-- The head of a message does not depend on what follows it. -/
theorem head_of_append {m m' rest rest' : Bytes} (hm : Framing.IsMessage endsRequest m)
    (hm' : Framing.IsMessage endsRequest m') (h : m ++ rest = m' ++ rest') : m = m' := by
  have hmessages := congrArg (Framing.messages endsRequest) h
  rw [Framing.messages_append hm.whole, Framing.messages_append hm'.whole, hm.messages_eq,
    hm'.messages_eq] at hmessages
  exact (List.cons.inj hmessages).1

/-- The request can be read back from its text. -/
theorem requestText_inj (hserver : NoBreak server) (ha : Plain a) (hb : Plain b) :
    requestText server a = requestText server b ↔ a = b := by
  refine ⟨fun h => ?_, congrArg _⟩
  have hlines := requestLines_plain hserver ha
  have hlines' := requestLines_plain hserver hb
  have hhead := head_of_append (isMessage_lines (by simp [requestLines]) hlines)
    (isMessage_lines (by simp [requestLines]) hlines') h
  have hbody : a.body = b.body := by
    unfold requestText at h
    rw [hhead] at h
    exact List.append_cancel_left h
  have hsame : requestLines server a = requestLines server b :=
    Lines.ended_inj (fun l hl => (hlines l hl).2.1) (fun l hl => (hlines' l hl).2.1) hhead
  simp only [requestLines, List.cons_append, List.nil_append, List.cons.injEq, true_and] at hsame
  obtain ⟨hfirst, -, hheaders⟩ := hsame
  rw [List.append_assoc, List.append_assoc, List.append_assoc, List.append_assoc] at hfirst
  have htype : a.requestType = b.requestType :=
    Lines.eq_of_cut ha.requestType_noSpace hb.requestType_noSpace
      ⟨[], (List.append_nil _).trans hfirst⟩
  rw [htype] at hfirst
  have hpath : a.apiPath = b.apiPath :=
    List.append_cancel_right (List.append_cancel_left (List.append_cancel_left hfirst))
  have hother : a.otherHeaders = b.otherHeaders := List.append_cancel_right hheaders
  cases a
  cases b
  simp only at htype hpath hother hbody
  rw [htype, hpath, hother, hbody]

/-- The request of a user is not that of another one. -/
theorem requestText_inj_login :
    requestText (bytes "api") ⟨bytes "/login", bytes "POST", [], bytes "username=a"⟩ ≠
      requestText (bytes "api") ⟨bytes "/login", bytes "POST", [], bytes "username=b"⟩ := by
  have hserver : NoBreak (bytes "api") := ⟨by decide, by decide⟩
  have hspace : chr ' ' ∉ bytes "POST" := by decide
  have htype : NoBreak (bytes "POST") := ⟨by decide, by decide⟩
  have hpath : NoBreak (bytes "/login") := ⟨by decide, by decide⟩
  have hplain : ∀ body, Plain ⟨bytes "/login", bytes "POST", [], body⟩ := fun body =>
    ⟨hspace, htype, hpath, List.forall_mem_nil _⟩
  exact (requestText_inj hserver (hplain _) (hplain _)).not.mpr (by decide)

end Requests

/-! ## 3. Responses -/

/-- The number that the last header with a length announces, if there is one; `none` when such a
header has no number. -/
def announcedLength : List Bytes → Option Nat → Option (Option Nat)
  | [], contentLength => some contentLength
  | header :: headers, contentLength =>
    if isPrefixOfNoCase contentLengthHeaderPrefix header then
      match lexicalCastSize (substr header contentLengthHeaderPrefix.length none) with
      | none => none
      | some contentLength => announcedLength headers (some contentLength)
    else announcedLength headers contentLength

/-- What a server sends that accepts a request. The length that it announces is any. -/
structure ServerResponse where
  httpVersion : Bytes
  statusMessage : Bytes
  headers : List Bytes
  body : Bytes
  version : isPrefixOfNoCase (bytes "HTTP/") httpVersion = true
  version_plain : ∀ c ∈ httpVersion, isspace c = false
  message : NoBreak statusMessage
  headers_ne_nil : headers ≠ []
  headers_plain : ∀ header ∈ headers, header ≠ [] ∧ NoBreak header

namespace ServerResponse

variable (r : ServerResponse)

def statusLine : Bytes := r.httpVersion ++ bytes " 200 " ++ r.statusMessage

/-- The headers and the empty line. -/
def head : Bytes := r.headers.flatMap (· ++ crlf) ++ crlf

def text : Bytes := r.statusLine ++ crlf ++ (r.head ++ r.body)

def contentLength : Option (Option Nat) := announcedLength r.headers none

/-- The part of the body that has a length. -/
def takenBody : Bytes :=
  match r.contentLength with
  | some (some contentLength) => r.body.take contentLength
  | _ => []

theorem noBreak_statusLine : NoBreak r.statusLine := by
  have hspace : isspace (chr '\r') = true ∧ isspace (chr '\n') = true := by decide
  have hversion : NoBreak r.httpVersion :=
    ⟨fun h => by simp [r.version_plain _ h] at hspace,
      fun h => by simp [r.version_plain _ h] at hspace⟩
  exact (hversion.append ⟨by decide, by decide⟩).append r.message

theorem isMessage_head : Framing.IsMessage endsRequest r.head :=
  isMessage_lines r.headers_ne_nil r.headers_plain

theorem found_head : crlf ++ crlf <:+: r.head := by
  rw [head, ← List.dropLast_concat_getLast r.headers_ne_nil, List.flatMap_append,
    List.flatMap_singleton]
  exact ⟨r.headers.dropLast.flatMap (· ++ crlf) ++ r.headers.getLast r.headers_ne_nil, [], by simp⟩

end ServerResponse

section Receiving

variable {r : ServerResponse} {buf rest a : Bytes}

/-- The first end of a line is that of the first line. -/
theorem line_of_found (ha : NoBreak a) (hpre : buf <+: a ++ crlf ++ rest)
    (hfound : found crlf buf = true) : a ++ crlf <+: buf := by
  refine List.prefix_of_prefix_length_le (List.prefix_append _ _) hpre ?_
  by_contra hlt
  have hshort : buf <+: a ++ [chr '\r'] := by
    refine List.prefix_of_prefix_length_le hpre ⟨chr '\n' :: rest, by simp [crlf, bytes]⟩ ?_
    have hlength : (a ++ crlf).length = (a ++ [chr '\r']).length + 1 := by
      simp [crlf, bytes]
    rw [hlength] at hlt
    exact Nat.le_of_not_lt hlt
  have hlf : chr '\n' ∈ a ++ [chr '\r'] :=
    hshort.mem (((of_decide_eq_true hfound : crlf <:+: buf).mem (by decide)))
  rcases List.mem_append.mp hlf with hmem | hmem
  · exact ha.2 hmem
  · exact absurd hmem (by decide)

/-- The first empty line is the one behind the headers. -/
theorem head_of_found (hpre : buf <+: r.head ++ rest) (hfound : found (crlf ++ crlf) buf = true) :
    r.head <+: buf := by
  refine List.prefix_of_prefix_length_le (List.prefix_append _ _) hpre ?_
  by_contra hlt
  obtain ⟨b, hb⟩ : buf <+: r.head :=
    List.prefix_of_prefix_length_le hpre (List.prefix_append _ _) (Nat.le_of_not_le hlt)
  have hne : b ≠ [] := by
    rintro rfl
    rw [← hb, List.append_nil] at hlt
    exact hlt (Nat.le_refl _)
  have hnone : Framing.messages endsRequest buf = [] :=
    Framing.messages_of_prefix (hb ▸ r.isMessage_head) hne
  obtain ⟨front, back, hbuf⟩ : crlf ++ crlf <:+: buf := of_decide_eq_true hfound
  have hends : endsRequest (front ++ (crlf ++ crlf)) = true :=
    decide_eq_true (List.suffix_append front (crlf ++ crlf))
  rw [Framing.not_ends_of_messages hnone (List.append_ne_nil_of_right_ne_nil _ (by decide))
    ⟨back, hbuf⟩] at hends
  cases hends

theorem chomp_append (header : Bytes) : chomp (header ++ [chr '\r']) = header := by
  rw [chomp, List.getLast?_concat, if_pos rfl, List.dropLast_concat]

/-- One round of the loop over the headers. -/
theorem readHeaders_of_line {header : Bytes} (hheader : chr '\n' ∉ header) (acc : List Bytes)
    (contentLength : Option Nat) :
    readHeaders (.of (header ++ crlf ++ rest)) acc contentLength =
      if header = [] then .ok (acc, contentLength, .of rest)
      else if isPrefixOfNoCase contentLengthHeaderPrefix header then
        match lexicalCastSize (substr header contentLengthHeaderPrefix.length none) with
        | none => .error (acc ++ [header])
        | some contentLength => readHeaders (.of rest) (acc ++ [header]) (some contentLength)
      else readHeaders (.of rest) (acc ++ [header]) contentLength := by
  have hsplit : header ++ crlf ++ rest = (header ++ [chr '\r']) ++ chr '\n' :: rest := by
    simp [crlf, bytes]
  have hline : (InputStream.of (header ++ crlf ++ rest)).getline =
      (header ++ [chr '\r'], .of rest) := by
    rw [hsplit]
    refine InputStream.getline_eq fun h => ?_
    exact (List.mem_append.mp h).elim hheader (by decide)
  rw [readHeaders, hline]
  simp only [chomp_append]
  exact dif_pos rfl

theorem readHeaders_eq {headers : List Bytes}
    (hplain : ∀ header ∈ headers, header ≠ [] ∧ NoBreak header) (acc : List Bytes)
    (contentLength : Option Nat) :
    match announcedLength headers contentLength with
    | none => ∃ read,
      readHeaders (.of (headers.flatMap (· ++ crlf) ++ crlf ++ rest)) acc contentLength = .error read
    | some announced =>
      readHeaders (.of (headers.flatMap (· ++ crlf) ++ crlf ++ rest)) acc contentLength =
        .ok (acc ++ headers, announced, .of rest) := by
  induction headers generalizing acc contentLength with
  | nil =>
    have hempty := @readHeaders_of_line rest [] List.not_mem_nil acc contentLength
    rw [if_pos rfl] at hempty
    simp only [announcedLength, List.append_nil]
    exact hempty
  | cons header headers ih =>
    obtain ⟨⟨hne, hbreak⟩, hplain⟩ := List.forall_mem_cons.mp hplain
    have hih := fun contentLength => ih hplain (acc ++ [header]) contentLength
    simp only [List.append_assoc, List.singleton_append] at hih
    rw [List.flatMap_cons, List.append_assoc, List.append_assoc, readHeaders_of_line hbreak.2,
      if_neg hne, announcedLength]
    cases hannounces : isPrefixOfNoCase contentLengthHeaderPrefix header with
    | false =>
      rw [if_neg Bool.false_ne_true, if_neg Bool.false_ne_true]
      exact hih contentLength
    | true =>
      rw [if_pos rfl, if_pos rfl]
      cases lexicalCastSize (substr header contentLengthHeaderPrefix.length none) with
      | none => exact ⟨_, rfl⟩
      | some n => exact hih (some n)

/-- What a response is taken for. `arrived` says that its head has come, and `complete` that all of
it has. -/
structure Takes (r : ServerResponse) (arrived complete : Prop) (response : HttpResponse) :
    Prop where
  unannounced : r.contentLength = some none → (response.ret = true ↔ arrived)
  announced : r.contentLength = some (some r.body.length) → (response.ret = true ↔ complete)
  wrong : (r.contentLength = none ∨ ∃ n, r.contentLength = some (some n) ∧ r.body.length < n) →
    response.ret = false
  taken : response.ret = true → response = ⟨true, r.headers, r.takenBody⟩
  refused : response.ret = false → response.responseBody = []

theorem takes_nothing {arrived complete : Prop} (harrived : ¬ arrived) (hcomplete : ¬ complete)
    (headers : List Bytes) : Takes r arrived complete ⟨false, headers, []⟩ where
  unannounced _ := iff_of_false Bool.false_ne_true harrived
  announced _ := iff_of_false Bool.false_ne_true hcomplete
  wrong _ := rfl
  taken h := absurd h Bool.false_ne_true
  refused _ := rfl

/-- A refusal behind the headers. -/
theorem takes_refused {complete : Prop} (hannounced : r.contentLength ≠ some none)
    (hcomplete : r.contentLength = some (some r.body.length) → ¬ complete) (headers : List Bytes) :
    Takes r True complete ⟨false, headers, []⟩ where
  unannounced h := absurd h hannounced
  announced h := iff_of_false Bool.false_ne_true (hcomplete h)
  wrong _ := rfl
  taken h := absurd h Bool.false_ne_true
  refused _ := rfl

/-- No length is announced. -/
theorem takes_head (h : r.contentLength = some none) (complete : Prop) :
    Takes r True complete ⟨true, r.headers, []⟩ where
  unannounced _ := iff_of_true rfl trivial
  announced h' := absurd (Option.some.inj (h.symm.trans h')).symm (Option.some_ne_none _)
  wrong h' := by
    rcases h' with h' | ⟨n, h', -⟩
    · exact absurd (h.symm.trans h') (Option.some_ne_none _)
    · exact absurd (Option.some.inj (h.symm.trans h')).symm (Option.some_ne_none _)
  taken _ := by rw [ServerResponse.takenBody, h]
  refused h' := absurd h'.symm Bool.false_ne_true

variable {chunks : List Bytes}

/-- The body of a response with a length. -/
theorem receiveBody_takes_of_length {s : InputStream} {n : Nat}
    (hn : r.contentLength = some (some n))
    (hheaders : readHeaders s [] none = .ok (r.headers, some n, .of buf))
    (hpre : buf ++ chunks.flatten <+: r.body) :
    Takes r True (buf ++ chunks.flatten = r.body) (receiveBody s chunks) := by
  have hreceive : receiveBody s chunks =
      match readUntil (fun buf => n ≤ buf.length) buf chunks with
      | none => ⟨false, r.headers, []⟩
      | some (buf, _) =>
        if buf.length ≠ n then ⟨false, r.headers, []⟩ else ⟨true, r.headers, buf⟩ := by
    rw [receiveBody, hheaders]
    rfl
  rw [hreceive]
  have hsome : r.contentLength ≠ some none := by
    rw [hn]
    exact fun h => by cases h
  have hlength : ∀ {m}, r.contentLength = some (some m) → m = n := fun h => by
    rw [hn] at h
    exact (Option.some.inj (Option.some.inj h)).symm
  cases hread : readUntil (fun buf => n ≤ buf.length) buf chunks with
  | none =>
    refine takes_refused hsome (fun h heq => ?_) _
    obtain rfl := hlength h
    have hfound : (readUntil (fun buf => r.body.length ≤ buf.length) buf chunks).isSome :=
      readUntil_isSome (decide_eq_true (Nat.le_of_eq (congrArg List.length heq).symm))
    rw [hread] at hfound
    cases hfound
  | some result =>
    obtain ⟨buf', chunks'⟩ := result
    obtain ⟨henough, -, heq⟩ := readUntil_eq_some hread
    have henough : n ≤ buf'.length := of_decide_eq_true henough
    have hbuf : buf' <+: r.body := (List.prefix_append buf' _).trans (heq ▸ hpre)
    by_cases hn' : buf'.length = n
    · -- The buffer is the beginning of the body that has the length.
      have hbody : buf' = r.body.take n := hn' ▸ List.prefix_iff_eq_take.mp hbuf
      have htaken : r.takenBody = buf' := by rw [ServerResponse.takenBody, hn, hbody]
      simp only [ne_eq, hn', not_true, if_false]
      refine
        { unannounced := fun h => absurd h hsome
          announced := fun h => iff_of_true rfl ?_
          wrong := ?_
          taken := fun _ => by rw [htaken]
          refused := fun h => absurd h.symm Bool.false_ne_true }
      · refine hpre.eq_of_length_le ?_
        rw [← heq, hlength h, List.length_append, hn']
        exact Nat.le_add_right _ _
      · rintro (h | ⟨m, h, hlt⟩)
        · exact absurd (hn.symm.trans h) (Option.some_ne_none _)
        · rw [hlength h] at hlt
          exact absurd (hn' ▸ hbuf.length_le) (Nat.not_le.mpr hlt)
    · simp only [ne_eq, hn', not_false_iff, if_true]
      refine takes_refused hsome (fun h _ => hn' ?_) _
      exact Nat.le_antisymm (hlength h ▸ hbuf.length_le) henough

/-- Behind the headers. -/
theorem receiveBody_takes (hpre : buf ++ chunks.flatten <+: r.body) :
    Takes r True (buf ++ chunks.flatten = r.body) (receiveBody (.of (r.head ++ buf)) chunks) := by
  have hheaders := @readHeaders_eq buf _ r.headers_plain [] none
  rw [List.nil_append] at hheaders
  cases hlength : r.contentLength with
  | none =>
    obtain ⟨read, hread⟩ : ∃ read, readHeaders (.of (r.head ++ buf)) [] none = .error read := by
      rw [ServerResponse.contentLength] at hlength
      rwa [hlength] at hheaders
    have hreceive : receiveBody (.of (r.head ++ buf)) chunks = ⟨false, read, []⟩ := by
      rw [receiveBody, hread]
    rw [hreceive]
    exact takes_refused (by rw [hlength]; exact (Option.some_ne_none _).symm)
      (fun h => absurd (hlength.symm.trans h).symm (Option.some_ne_none _)) _
  | some announced =>
    have hread : readHeaders (.of (r.head ++ buf)) [] none =
        .ok (r.headers, announced, .of buf) := by
      rw [ServerResponse.contentLength] at hlength
      rwa [hlength] at hheaders
    cases announced with
    | none =>
      have hreceive : receiveBody (.of (r.head ++ buf)) chunks = ⟨true, r.headers, []⟩ := by
        rw [receiveBody, hread]
      rw [hreceive]
      exact takes_head hlength _
    | some n => exact receiveBody_takes_of_length hlength hread hpre

/-- Behind the status line. -/
theorem receiveHeaders_takes (hpre : buf ++ chunks.flatten <+: r.head ++ r.body) :
    Takes r (r.head <+: buf ++ chunks.flatten) (buf ++ chunks.flatten = r.head ++ r.body)
      (receiveHeaders (.of buf) chunks) := by
  have hreceive : receiveHeaders (.of buf) chunks =
      match readUntil (found (crlf ++ crlf)) buf chunks with
      | none => ⟨false, [], []⟩
      | some (buf, chunks) => receiveBody (.of buf) chunks := rfl
  rw [hreceive]
  cases hread : readUntil (found (crlf ++ crlf)) buf chunks with
  | none =>
    have hmissing : ¬ r.head <+: buf ++ chunks.flatten := by
      intro hhead
      have hsome : (readUntil (found (crlf ++ crlf)) buf chunks).isSome :=
        readUntil_isSome (decide_eq_true (r.found_head.trans hhead.isInfix))
      rw [hread] at hsome
      cases hsome
    refine takes_nothing hmissing (fun heq => hmissing ?_) _
    rw [heq]
    exact List.prefix_append _ _
  | some result =>
    obtain ⟨buf', chunks'⟩ := result
    obtain ⟨hfound, -, heq⟩ := readUntil_eq_some hread
    have hbuf : buf' <+: r.head ++ r.body := (List.prefix_append buf' _).trans (heq ▸ hpre)
    obtain ⟨buf'', rfl⟩ := head_of_found hbuf hfound
    rw [List.append_assoc] at heq
    rw [← heq] at hpre ⊢
    have htakes := receiveBody_takes ((List.prefix_append_right_inj r.head).mp hpre)
    rw [← List.append_cancel_left_eq r.head] at htakes
    rwa [eq_true (List.prefix_append r.head _)]

/-- The version, the code, and what is left behind the status line. -/
theorem readStatus (r : ServerResponse) (buf : Bytes) : ∃ s s' message,
    (InputStream.of (r.statusLine ++ crlf ++ buf)).readWord = (r.httpVersion, s) ∧
      s.readUnsigned = (200, s') ∧ s'.getline = (message, .of buf) := by
  have hne : r.httpVersion ≠ [] := by
    intro hnil
    have hversion := r.version
    rw [hnil] at hversion
    exact absurd hversion (by decide)
  have hsplit : r.statusLine ++ crlf ++ buf = r.httpVersion ++ chr ' ' ::
      (bytes "200" ++ chr ' ' :: (r.statusMessage ++ crlf ++ buf)) := by
    simp [ServerResponse.statusLine, bytes]
  have hblanks : ∀ b ∈ [chr ' '], isspace b = true := List.forall_mem_singleton.mpr (by decide)
  have hdecimal : UInt32.ofNat (decimal (bytes "200")) = 200 := by decide +kernel
  have hlast : chr ' ' :: (r.statusMessage ++ crlf ++ buf) =
      (chr ' ' :: r.statusMessage ++ [chr '\r']) ++ chr '\n' :: buf := by
    simp [crlf, bytes]
  have hmessage : chr '\n' ∉ chr ' ' :: r.statusMessage ++ [chr '\r'] := by
    intro h
    rcases List.mem_append.mp h with h | h
    · exact (List.mem_cons.mp h).elim (by decide) r.message.2
    · exact absurd h (by decide)
  refine ⟨.of (chr ' ' :: (bytes "200" ++ chr ' ' :: (r.statusMessage ++ crlf ++ buf))),
    .of (chr ' ' :: (r.statusMessage ++ crlf ++ buf)), chr ' ' :: r.statusMessage ++ [chr '\r'],
    ?_, ?_, ?_⟩
  · rw [hsplit, InputStream.readWord_eq hne r.version_plain (by decide)]
  · rw [← List.singleton_append, InputStream.readUnsigned_eq hblanks (by decide) (by decide +kernel)
      (by decide +kernel) (by decide), hdecimal]
  · rw [hlast, InputStream.getline_eq hmessage]

theorem receive_takes (hpre : chunks.flatten <+: r.text) :
    Takes r (r.statusLine ++ crlf ++ r.head <+: chunks.flatten) (chunks.flatten = r.text)
      (receive chunks) := by
  unfold receive
  cases hread : readUntil (found crlf) [] chunks with
  | none =>
    have hmissing : ¬ r.statusLine ++ crlf ++ r.head <+: chunks.flatten := by
      intro hhead
      have hcrlf : crlf <:+: r.statusLine ++ crlf ++ r.head := ⟨r.statusLine, r.head, rfl⟩
      have hsome : (readUntil (found crlf) [] chunks).isSome :=
        readUntil_isSome (decide_eq_true (hcrlf.trans hhead.isInfix))
      rw [hread] at hsome
      cases hsome
    refine takes_nothing hmissing (fun heq => hmissing ?_) _
    rw [heq, ServerResponse.text, List.append_assoc, List.append_assoc]
    exact ⟨r.body, by simp⟩
  | some result =>
    obtain ⟨buf, chunks'⟩ := result
    obtain ⟨hfound, -, heq⟩ := readUntil_eq_some hread
    rw [List.nil_append] at heq
    have hbuf : buf <+: r.text := (List.prefix_append buf _).trans (heq ▸ hpre)
    obtain ⟨buf, rfl⟩ := line_of_found r.noBreak_statusLine hbuf hfound
    obtain ⟨s, s', message, hword, hcode, hline⟩ := readStatus r buf
    rw [List.append_assoc] at heq
    rw [← heq] at hpre ⊢
    have htakes := receiveHeaders_takes ((List.prefix_append_right_inj _).mp hpre)
    rw [← List.append_cancel_left_eq (r.statusLine ++ crlf),
      ← List.prefix_append_right_inj (r.statusLine ++ crlf)] at htakes
    have hgood : (InputStream.of buf).fail = false := rfl
    simp only [hword, hcode, hline, hgood, r.version, Bool.not_true, Bool.or_self,
      Bool.false_eq_true, if_false, ne_eq, not_true]
    exact htakes

end Receiving

/-! ## 4. Exchanges -/

/-- The server sends the response, and the connection may be lost. -/
def Exchange.Gets (r : ServerResponse) : Exchange → Prop
  | .notSent => True
  | .sent chunks => chunks.flatten <+: r.text

/-- The status line and the headers have come. -/
def Exchange.HasHead (r : ServerResponse) : Exchange → Prop
  | .notSent => False
  | .sent chunks => r.statusLine ++ crlf ++ r.head <+: chunks.flatten

/-- All of the response has come. -/
def Exchange.Complete (r : ServerResponse) : Exchange → Prop
  | .notSent => False
  | .sent chunks => chunks.flatten = r.text

section Exchanges

/-- The answer to a login. -/
def loginResponse : ServerResponse where
  httpVersion := bytes "HTTP/1.1"
  statusMessage := bytes "OK"
  headers := [bytes "Set-Cookie: s=1", bytes "Content-Length: 16"]
  body := bytes "\x7b\"success\":true\x7d"
  version := by decide +kernel
  version_plain := by decide +kernel
  message := ⟨by decide, by decide⟩
  headers_ne_nil := List.cons_ne_nil _ _
  headers_plain := by
    unfold NoBreak
    decide +kernel

/-- It comes in three chunks, and the first one ends within an end of line. -/
def loginChunks : List Bytes :=
  [loginResponse.text.take 16, (loginResponse.text.drop 16).take 40, loginResponse.text.drop 56]

/-- A page without a length. -/
def pageResponse : ServerResponse where
  httpVersion := bytes "HTTP/1.1"
  statusMessage := bytes "OK"
  headers := [bytes "Content-Type: text/plain"]
  body := bytes "hello"
  version := by decide +kernel
  version_plain := by decide +kernel
  message := ⟨by decide, by decide⟩
  headers_ne_nil := List.cons_ne_nil _ _
  headers_plain := by
    unfold NoBreak
    decide +kernel

variable {r : ServerResponse} {exchange : Exchange}

theorem sendRequest_takes (h : exchange.Gets r) :
    Takes r (exchange.HasHead r) (exchange.Complete r) (sendRequest exchange) := by
  cases exchange with
  | notSent => exact takes_nothing id id _
  | sent chunks => exact receive_takes h

/-- However a response is cut into chunks, it is taken exactly when all of it has come; when it
announces no length, exactly when its head has come, and without its body. One that announces more
than its body, or no number, is refused. -/
theorem sendRequest_ret_iff (h : exchange.Gets r) :
    (r.contentLength = some (some r.body.length) →
      ((sendRequest exchange).ret = true ↔ exchange.Complete r)) ∧
    (r.contentLength = some none →
      ((sendRequest exchange).ret = true ↔ exchange.HasHead r)) ∧
    ((r.contentLength = none ∨ ∃ n, r.contentLength = some (some n) ∧ r.body.length < n) →
      (sendRequest exchange).ret = false) ∧
    ((sendRequest exchange).ret = true → sendRequest exchange = ⟨true, r.headers, r.takenBody⟩) ∧
    ((sendRequest exchange).ret = false → (sendRequest exchange).responseBody = []) := by
  have htakes := sendRequest_takes h
  exact ⟨htakes.announced, htakes.unannounced, htakes.wrong, htakes.taken, htakes.refused⟩

theorem sendRequest_ret_iff_login : (sendRequest (.sent loginChunks)).ret = true ∧
    (sendRequest (.sent loginChunks.dropLast)).ret = false ∧
    sendRequest (.sent loginChunks) = ⟨true, loginResponse.headers, loginResponse.body⟩ ∧
    sendRequest (.sent [pageResponse.text.take 50]) = ⟨true, pageResponse.headers, []⟩ := by
  have hgets : (Exchange.sent loginChunks).Gets loginResponse := by
    unfold Exchange.Gets
    decide +kernel
  have hcut : (Exchange.sent loginChunks.dropLast).Gets loginResponse := by
    unfold Exchange.Gets
    decide +kernel
  have hpage : (Exchange.sent [pageResponse.text.take 50]).Gets pageResponse := by
    unfold Exchange.Gets
    decide +kernel
  have hlength : loginResponse.contentLength = some (some loginResponse.body.length) := by
    decide +kernel
  have hcomplete : loginChunks.flatten = loginResponse.text := by decide +kernel
  have hmissing : loginChunks.dropLast.flatten ≠ loginResponse.text := by decide +kernel
  have hhead : pageResponse.statusLine ++ crlf ++ pageResponse.head <+:
      [pageResponse.text.take 50].flatten := by
    decide +kernel
  have hret := ((sendRequest_ret_iff hgets).1 hlength).mpr hcomplete
  have hpageRet := ((sendRequest_ret_iff hpage).2.1 (by decide +kernel)).mpr hhead
  exact ⟨hret,
    Bool.eq_false_iff.mpr fun h => hmissing (((sendRequest_ret_iff hcut).1 hlength).mp h),
    (sendRequest_ret_iff hgets).2.2.2.1 hret, (sendRequest_ret_iff hpage).2.2.2.1 hpageRet⟩

/-- What is refused has no body. -/
def NoBody (response : HttpResponse) : Prop := response.ret = false → response.responseBody = []

theorem receiveBody_noBody (s : InputStream) (chunks : List Bytes) :
    NoBody (receiveBody s chunks) := by
  unfold receiveBody
  split
  · exact fun _ => rfl
  · exact fun _ => rfl
  · split
    · exact fun _ => rfl
    · split
      · exact fun _ => rfl
      · nofun

theorem receive_noBody (chunks : List Bytes) : NoBody (receive chunks) := by
  unfold receive receiveHeaders
  split
  · exact fun _ => rfl
  · simp only
    split
    · exact fun _ => rfl
    · split
      · exact fun _ => rfl
      · split
        · exact fun _ => rfl
        · exact receiveBody_noBody _ _

/-- No body is left of a response that is refused, whatever has come. -/
theorem sendRequest_noBody (exchange : Exchange) : NoBody (sendRequest exchange) := by
  cases exchange with
  | notSent => exact fun _ => rfl
  | sent chunks => exact receive_noBody chunks

/-! ## 5. Cookies -/

/-- The response is refused, or it is one that the server sends, which may be cut off. -/
def Served (sends : ServerResponse → Prop) (response : HttpResponse) : Prop :=
  ∃ exchange, response = sendRequest exchange ∧
    (response.ret = false ∨ ∃ r, sends r ∧ exchange.Gets r)

/-- A response to a successful login that sets the cookie. -/
def SetsCookie (self : BlockPage.ApiConnect) (r : ServerResponse) (cookie : Bytes) : Prop :=
  self.handleResponseGeneric r.takenBody = true ∧
    BlockPage.ApiConnect.setCookie r.headers = some cookie

/-- A login among the exchanges has brought the cookie. -/
def LoggedIn (self : BlockPage.ApiConnect) (exchanges : List (HttpRequest × HttpResponse))
    (cookie : Bytes) : Prop :=
  ∃ login, (self.loginRequest, login) ∈ exchanges ∧ self.loginCookie login = some cookie

/-- What was got in reply to a login request is a response of the server to this request, and sets
the cookie. -/
structure LoginServed (api : BlockPage.ApiConnect) (sends : HttpRequest → ServerResponse → Prop)
    (exchanges : List (HttpRequest × HttpResponse)) (cookie : Bytes) (r : ServerResponse)
    (exchange : Exchange) : Prop where
  mem : (api.loginRequest, sendRequest exchange) ∈ exchanges
  sends : sends api.loginRequest r
  gets : exchange.Gets r
  complete : r.contentLength = some (some r.body.length) → exchange.Complete r
  taken : sendRequest exchange = ⟨true, r.headers, r.takenBody⟩
  setsCookie : SetsCookie api r cookie
  length : r.contentLength ≠ some none

section Cookies

variable {self : BlockPage.ApiConnect} {sends : HttpRequest → ServerResponse → Prop}
  {response : HttpResponse} {cookie : Bytes} {exchanges : List (HttpRequest × HttpResponse)}

theorem LoggedIn.append (h : LoggedIn self exchanges cookie)
    (more : List (HttpRequest × HttpResponse)) : LoggedIn self (exchanges ++ more) cookie := by
  obtain ⟨login, hmem, hlogin⟩ := h
  exact ⟨login, List.mem_append_left _ hmem, hlogin⟩

/-- What is stored and what was handed out comes of logins. -/
structure FromLogins (api : BlockPage.ApiConnect) (s : BlockPage.ApiConnect.State) : Prop where
  handedOut : ∀ cookie ∈ s.handedOut, LoggedIn api s.session.exchanges cookie
  stored : s.session.cookie ≠ [] → LoggedIn api s.session.exchanges s.session.cookie

/-- The step lemma. -/
theorem keeps_fromLogins (self : BlockPage.ApiConnect) : self.machine.Keeps (FromLogins self) := by
  intro s answers s' h hs
  cases BlockPage.ApiConnect.access_effect hs with
  | connected more hconnects =>
    have hstored := (h.stored hconnects.1).append more
    exact ⟨handedOut_append h.handedOut (fun _ hc => hc.append more) hstored, fun _ => hstored⟩
  | reset more cookie hconnects hlogin hchild hsession =>
    obtain ⟨before, login, after, child, hexchanges, hcookie, -⟩ := hsession
    have hlogged : LoggedIn self (s.session.exchanges ++ more) cookie :=
      ⟨login, by rw [hexchanges]; exact List.mem_append_right _ List.mem_cons_self, hcookie⟩
    exact ⟨handedOut_append h.handedOut (fun _ hc => hc.append more) hlogged, fun _ => hlogged⟩
  | childFailed more cookie hconnects hlogin hchild hmem =>
    exact ⟨fun cookie hcookie => (h.handedOut cookie hcookie).append more,
      fun _ => ⟨_, List.mem_append_right _ hmem, hlogin⟩⟩
  | loginFailed more hconnects hlogin =>
    exact ⟨fun cookie hcookie => (h.handedOut cookie hcookie).append more,
      fun hne => (h.stored hne).append more⟩

/-- A cookie is read in a response of the server that was taken. -/
theorem loginServed_of_loggedIn (hempty : self.readJson [] = none)
    (hserved : ∀ e ∈ exchanges, Served (sends e.1) e.2) (h : LoggedIn self exchanges cookie) :
    ∃ r exchange, LoginServed self sends exchanges cookie r exchange := by
  obtain ⟨login, hmem, hlogin⟩ := h
  obtain ⟨exchange, rfl, hserved⟩ : Served (sends self.loginRequest) login := hserved _ hmem
  unfold BlockPage.ApiConnect.loginCookie at hlogin
  split at hlogin
  · next hsuccess =>
    have hnonempty : ∀ {body}, self.handleResponseGeneric body = true → body ≠ [] := by
      rintro body hsuccess rfl
      rw [BlockPage.ApiConnect.handleResponseGeneric, hempty] at hsuccess
      cases hsuccess
    have hret : (sendRequest exchange).ret = true := by
      by_contra hrefused
      exact hnonempty hsuccess (sendRequest_noBody exchange (Bool.eq_false_iff.mpr hrefused))
    rcases hserved with hrefused | ⟨r, hr, hgets⟩
    · rw [hrefused] at hret
      cases hret
    · have htakes := sendRequest_takes hgets
      have htaken := htakes.taken hret
      have hsets : SetsCookie self r cookie := by
        rw [htaken] at hlogin hsuccess
        exact ⟨hsuccess, hlogin⟩
      refine ⟨r, exchange, hmem, hr, hgets, fun hlength => (htakes.announced hlength).mp hret,
        htaken, hsets, fun hlength => hnonempty hsets.1 ?_⟩
      rw [ServerResponse.takenBody, hlength]
  · cases hlogin

/-- In every run, each cookie that is handed out was set by a response of the server to a login
request of the run, also when connections are lost while responses come in. -/
theorem handedOut_of_server (hempty : self.readJson [] = none)
    {calls : List BlockPage.ApiConnect.Answers} {s : BlockPage.ApiConnect.State}
    (hrun : self.machine.run self.machine.init calls = some s)
    (hserved : ∀ e ∈ s.session.exchanges, Served (sends e.1) e.2) :
    ∀ cookie ∈ s.handedOut, ∃ r exchange,
      LoginServed self sends s.session.exchanges cookie r exchange := by
  have hreach : self.machine.Reachable s := ⟨calls, hrun⟩
  have hinit : FromLogins self self.machine.init :=
    ⟨fun _ h => absurd h List.not_mem_nil, fun hne => absurd rfl hne⟩
  intro cookie hmem
  exact loginServed_of_loggedIn hempty hserved
    ((hreach.invariant (keeps_fromLogins self) hinit).handedOut cookie hmem)

end Cookies

/-- The paths of the block page and of the session. -/
def loginApi : BlockPage.ApiConnect where
  login := bytes "school"
  password := bytes "secret"
  apiVersionPath := bytes "/api/v1"
  apiLoginPath := bytes "/login"
  apiSetChildPath := bytes "/child"
  apiBlockedPagePath := bytes "/block"
  deviceUuid := bytes "7"
  childUuid := bytes "8"
  readJson text := if text = loginResponse.body then some (some true) else none

/-- The server answers the child with another cookie. -/
def childResponse : ServerResponse :=
  { loginResponse with
    headers := [bytes "Set-Cookie: s=2", bytes "Content-Length: 16"]
    headers_ne_nil := List.cons_ne_nil _ _
    headers_plain := by
      unfold NoBreak
      decide +kernel }

/-- What the server sends in reply to each request. -/
def loginServer (request : HttpRequest) (r : ServerResponse) : Prop :=
  r = if request = loginApi.loginRequest then loginResponse else childResponse

theorem handedOut_of_server_login : ∃ s, loginApi.machine.run loginApi.machine.init
      [⟨sendRequest .notSent, sendRequest (.sent loginChunks),
        sendRequest (.sent [childResponse.text])⟩] = some s ∧ s.handedOut = [bytes "s=1"] ∧
    ∀ cookie ∈ s.handedOut, ∃ r exchange,
      LoginServed loginApi loginServer s.session.exchanges cookie r exchange := by
  have hlogin : Served (loginServer loginApi.loginRequest) (sendRequest (.sent loginChunks)) := by
    refine ⟨_, rfl, .inr ⟨loginResponse, (if_pos rfl).symm, ?_⟩⟩
    unfold Exchange.Gets
    decide +kernel
  have hchild : Served (loginServer (loginApi.childRequest (bytes "s=1")))
      (sendRequest (.sent [childResponse.text])) := by
    refine ⟨_, rfl, .inr ⟨childResponse, (if_neg (by decide +kernel)).symm, ?_⟩⟩
    exact (List.append_nil childResponse.text).symm ▸ List.prefix_rfl
  have hrun : (loginApi.machine.run loginApi.machine.init
      [⟨sendRequest .notSent, sendRequest (.sent loginChunks),
        sendRequest (.sent [childResponse.text])⟩]).map
          (fun s => (s.handedOut, s.session.exchanges)) =
        some ([bytes "s=1"], [(loginApi.loginRequest, sendRequest (.sent loginChunks)),
          (loginApi.childRequest (bytes "s=1"), sendRequest (.sent [childResponse.text]))]) := by
    decide +kernel
  obtain ⟨s, hs, hdata⟩ := Option.map_eq_some_iff.mp hrun
  obtain ⟨hcookies, hexchanges⟩ := Prod.mk.inj hdata
  refine ⟨s, hs, hcookies, handedOut_of_server (by decide +kernel) hs ?_⟩
  rw [hexchanges]
  exact List.forall_mem_cons.mpr ⟨hlogin, List.forall_mem_singleton.mpr hchild⟩

end Exchanges

end HttpSender

end SafeKiddo
