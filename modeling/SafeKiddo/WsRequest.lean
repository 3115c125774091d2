import SafeKiddo.Lib.ByteString
import SafeKiddo.Lib.Framing

/-!
# Requests to the web service

What `wsRequest` of the ICAP plugin sends, and how `readWsResponse` reads what comes back. The
service finds the end of a request at the first empty line.

Results:
1. `isMessage_requestText`: a request is one message for the service.
2. `hasHack_iff`: the marker is found when the whole response has come in, and not before.
3. `resultIn_text`: the number that is read is the number of the response.
-/

namespace SafeKiddo

open ByteString

namespace WsRequest

open Framing (IsMessage feed)

/-! ## 1. The code -/

/-- The C string in a buffer. -/
def cString (buf : Bytes) : Bytes := buf.takeWhile (· ≠ 0)

/-- `strstr`: the string from the first occurrence on. -/
def strstr (s text : Bytes) : Option Bytes := s.tails.find? fun u => text.isPrefixOf u

def isspace (c : Byte) : Bool := c = ' ' || (9 ≤ c && c ≤ 13)

def decimal (digits : Bytes) : Nat := digits.foldl (fun n c => 10 * n + (c.val - 48)) 0

/-- `istr >> result` for an `int`: blanks, a sign and digits. Without digits the result is 0. -/
def readInt (s : Bytes) : Int :=
  let text := s.dropWhile isspace
  let negative := text.head? = some (chr '-')
  let digits :=
    (if negative ∨ text.head? = some (chr '+') then text.tail else text).takeWhile isdigit
  let value : Int := if negative then -decimal digits else decimal digits
  max (-2 ^ 31) (min (2 ^ 31 - 1) value)

/-- The arguments of `wsRequest`. -/
structure Query where
  url : Bytes
  user : Bytes
  deriving DecidableEq

def requestText (host : Bytes) (query : Query) : Bytes :=
  bytes "GET /cc HTTP/1.1\r\nUserId: " ++ query.user ++ bytes "\r\nRequest:" ++ query.url ++
    bytes "\r\nHost: " ++ host ++ bytes "\r\n" ++ bytes "UserAction: 0\r\n" ++ bytes "\r\n"

def bufSize : Nat := 1023

/-- `strstr(buf, "\nhack\n")`, the end of the loop of `readWsResponse`. -/
def hasHack (buf : Bytes) : Bool := (strstr (cString buf) (bytes "\nhack\n")).isSome

/-- `readWsResponse` after its loop. -/
def resultIn (buf : Bytes) : Int :=
  let resultPrefix := bytes "\nResult: "
  match strstr (cString buf) resultPrefix with
  | none => -1
  | some resultStart => readInt (resultStart.drop resultPrefix.length)

/-! ## 2. The service -/

/-- A request ends at the first empty line. -/
def endsRequest (text : Bytes) : Bool := decide (bytes "\r\n\r\n" <:+ text)

/-- The requests that a service finds in what was sent on a connection. -/
def requestsIn (sent : Bytes) : List Bytes := Framing.messages endsRequest sent

/-- `gethostbyname_r` finds no other host. -/
def isHostName (host : Bytes) : Bool := host.all fun c => c ≠ '\r' && c ≠ '\n'

def Query.clean (query : Query) : Bool :=
  query.user ≠ [] && (query.user ++ query.url).all fun c => c ≠ '\r' && c ≠ '\n' && c ≠ 0

/-- Between two line feeds, where one stands before and after the text. -/
def IsLine (line text : Bytes) : Prop :=
  chr '\n' ∉ line ∧ chr '\n' :: line ++ [chr '\n'] <:+: chr '\n' :: text ++ [chr '\n']

instance (line text : Bytes) : Decidable (IsLine line text) := by
  unfold IsLine
  infer_instance

/-- The text `Result: n`, in a line that ends with a line feed or with both characters. -/
def ResultLine (n : Nat) (line : Bytes) : Prop :=
  ∃ digits ending, line = bytes "Result: " ++ digits ++ ending ∧ digits ≠ [] ∧
    (∀ c ∈ digits, isdigit c = true) ∧ decimal digits = n ∧
    (ending = [] ∨ ending = [chr '\r'])

/-- What the service answers. -/
structure WsResponse where
  text : Bytes
  result : Nat
  length_le : text.length ≤ 1023
  noNul : 0 ∉ text
  endsWithHack : bytes "\nhack\n" <:+ text
  hackAtEnd : ¬ bytes "\nhack\n" <:+: text.dropLast
  result_lt : result < 2 ^ 31
  hasResult : ∃ line, IsLine line text ∧ ResultLine result line
  onlyResult : ∀ line, IsLine line text → bytes "Result: " <+: line → ResultLine result line

/-! ## 3. A request is one message -/

section Message

variable {host line pending p : Bytes} {query : Query}

/-- A text in a line. -/
def NoBreak (text : Bytes) : Prop := chr '\r' ∉ text ∧ chr '\n' ∉ text

theorem NoBreak.append {a b : Bytes} (ha : NoBreak a) (hb : NoBreak b) : NoBreak (a ++ b) :=
  ⟨fun h => (List.mem_append.mp h).elim ha.1 hb.1, fun h => (List.mem_append.mp h).elim ha.2 hb.2⟩

def crlf : Bytes := bytes "\r\n"

/-- A request does not end inside a line. -/
theorem endsRequest_of_notMem (hp : p ≠ []) (h : chr '\n' ∉ p) :
    endsRequest (pending ++ p) = false := by
  refine decide_eq_false fun hsuffix => h ?_
  obtain ⟨pre, hpre⟩ := hsuffix
  have hlast := congrArg List.getLast? hpre
  rw [List.getLast?_append, List.getLast?_append, List.getLast?_eq_some_getLast hp] at hlast
  have hlf : chr '\n' = p.getLast hp := Option.some.inj hlast
  exact hlf ▸ List.getLast_mem hp

/-- It does not end with a line that is not empty. -/
theorem endsRequest_line (hne : line ≠ []) (hline : NoBreak line) :
    endsRequest (pending ++ (line ++ crlf)) = false := by
  refine decide_eq_false fun hsuffix => hline.2 ?_
  rw [← List.dropLast_concat_getLast hne, ← List.append_assoc, ← List.append_assoc] at hsuffix
  -- The last four bytes are the last one of the line and three others.
  have hreverse := List.reverse_prefix.mpr hsuffix
  simp only [List.reverse_append] at hreverse
  have hlf : chr '\n' = line.getLast hne :=
    (List.cons_prefix_cons.mp (List.cons_prefix_cons.mp (List.cons_prefix_cons.mp
      hreverse).2).2).1
  exact hlf ▸ List.getLast_mem hne

/-- A line that is not empty, in the middle of a request. -/
theorem feed_line (ms : List Bytes) (hne : line ≠ []) (hline : NoBreak line) :
    (line ++ crlf).foldl (feed endsRequest) ⟨ms, pending⟩ = ⟨ms, pending ++ (line ++ crlf)⟩ := by
  refine Framing.foldl_of_not_ends ?_
  intro p hp hpre
  by_cases hall : p = line ++ crlf
  · exact hall ▸ endsRequest_line hne hline
  · -- A proper prefix has no line feed.
    have hcrlf : line ++ crlf = line ++ [chr '\r'] ++ [chr '\n'] := by
      rw [List.append_assoc]
      rfl
    rw [hcrlf] at hpre hall
    have hshort := (List.prefix_concat_iff.mp hpre).resolve_left hall
    refine endsRequest_of_notMem hp ?_
    intro hmem
    rcases List.mem_append.mp (hshort.mem hmem) with hmem | hmem
    · exact hline.2 hmem
    · exact absurd hmem (by decide)

theorem feed_empty_line (ms : List Bytes) :
    crlf.foldl (feed endsRequest) ⟨ms, pending ++ crlf⟩ =
      ⟨ms ++ [pending ++ crlf ++ crlf], []⟩ := by
  have hcr : endsRequest (pending ++ crlf ++ [chr '\r']) = false :=
    decide_eq_false fun hsuffix => by
      have hreverse := List.reverse_prefix.mpr hsuffix
      simp only [List.reverse_append] at hreverse
      exact absurd (List.cons_prefix_cons.mp hreverse).1 (by decide)
  have hlf : endsRequest (pending ++ crlf ++ [chr '\r'] ++ [chr '\n']) = true :=
    decide_eq_true ⟨pending, by simp [crlf, bytes]⟩
  show feed endsRequest (feed endsRequest ⟨ms, pending ++ crlf⟩ (chr '\r')) (chr '\n') = _
  rw [Framing.feed_of_not_ends hcr, Framing.feed_of_ends hlf, List.append_assoc (pending ++ crlf)]
  rfl

theorem feed_lines (ms : List Bytes) {lines : List Bytes}
    (hlines : ∀ line ∈ lines, line ≠ [] ∧ NoBreak line) :
    (lines.flatMap (· ++ crlf)).foldl (feed endsRequest) ⟨ms, pending⟩ =
      ⟨ms, pending ++ lines.flatMap (· ++ crlf)⟩ := by
  induction lines generalizing pending with
  | nil => simp
  | cons line lines ih =>
    obtain ⟨⟨hne, hline⟩, hrest⟩ := List.forall_mem_cons.mp hlines
    rw [List.flatMap_cons, List.foldl_append, feed_line ms hne hline, ih hrest, List.append_assoc]

/-- Lines that are not empty, and then an empty one. -/
theorem isMessage_lines {lines : List Bytes} (hne : lines ≠ [])
    (hlines : ∀ line ∈ lines, line ≠ [] ∧ NoBreak line) :
    IsMessage endsRequest (lines.flatMap (· ++ crlf) ++ crlf) := by
  have hsplit : lines.flatMap (· ++ crlf) =
      (lines.dropLast.flatMap (· ++ crlf) ++ lines.getLast hne) ++ crlf := by
    conv_lhs => rw [← List.dropLast_concat_getLast hne, List.flatMap_append]
    simp [List.append_assoc]
  rw [IsMessage, Framing.frame, List.foldl_append, feed_lines [] hlines, List.nil_append, hsplit,
    feed_empty_line, List.nil_append]

theorem noBreak_of_all {text : Bytes} (h : ∀ c ∈ text, (c ≠ '\r' && c ≠ '\n') = true) :
    NoBreak text :=
  ⟨fun hmem => absurd (h _ hmem) (by decide), fun hmem => absurd (h _ hmem) (by decide)⟩

theorem noBreak_of_clean (h : query.clean = true) : NoBreak query.user ∧ NoBreak query.url := by
  have hall := List.all_eq_true.mp (Bool.and_eq_true_iff.mp h).2
  constructor
  · exact noBreak_of_all fun c hc =>
      (Bool.and_eq_true_iff.mp (hall c (List.mem_append_left _ hc))).1
  · exact noBreak_of_all fun c hc =>
      (Bool.and_eq_true_iff.mp (hall c (List.mem_append_right _ hc))).1

/-- The lines of a request before the empty one. -/
def requestLines (host : Bytes) (query : Query) : List Bytes :=
  [bytes "GET /cc HTTP/1.1", bytes "UserId: " ++ query.user, bytes "Request:" ++ query.url,
    bytes "Host: " ++ host, bytes "UserAction: 0"]

theorem requestText_eq :
    requestText host query = (requestLines host query).flatMap (· ++ crlf) ++ crlf := by
  have hget : bytes "GET /cc HTTP/1.1\r\nUserId: " = bytes "GET /cc HTTP/1.1" ++ crlf ++
    bytes "UserId: " := by decide
  have hrequest : bytes "\r\nRequest:" = crlf ++ bytes "Request:" := by decide
  have hhost : bytes "\r\nHost: " = crlf ++ bytes "Host: " := by decide
  have haction : bytes "UserAction: 0\r\n" = bytes "UserAction: 0" ++ crlf := by decide
  rw [requestText, hget, hrequest, hhost, haction]
  simp only [requestLines, List.flatMap_cons, List.flatMap_nil, List.append_assoc,
    List.nil_append]
  rfl

theorem isMessage_requestText (hhost : isHostName host = true) (hclean : query.clean = true) :
    IsMessage endsRequest (requestText host query) := by
  obtain ⟨huser, hurl⟩ := noBreak_of_clean hclean
  have hhost : NoBreak host := noBreak_of_all (List.all_eq_true.mp hhost)
  have hfield (name : Bytes) (hne : name ≠ []) (hname : NoBreak name) {value : Bytes}
      (hvalue : NoBreak value) : name ++ value ≠ [] ∧ NoBreak (name ++ value) :=
    ⟨List.append_ne_nil_of_left_ne_nil hne _, hname.append hvalue⟩
  rw [requestText_eq]
  refine isMessage_lines (List.cons_ne_nil _ _) ?_
  simp only [requestLines, List.forall_mem_cons]
  refine ⟨⟨by decide, by decide, by decide⟩,
    hfield _ (by decide) ⟨by decide, by decide⟩ huser,
    hfield _ (by decide) ⟨by decide, by decide⟩ hurl,
    hfield _ (by decide) ⟨by decide, by decide⟩ hhost,
    ⟨by decide, by decide, by decide⟩, List.forall_mem_nil _⟩

end Message

/-! ## 4. A response is read as a whole -/

section Reading

variable {s text u buf : Bytes} (r : WsResponse)

theorem strstr_eq_some (h : strstr s text = some u) : text <+: u ∧ u <:+ s :=
  ⟨List.isPrefixOf_iff_prefix.mp (List.find?_some h),
    (List.mem_tails u s).mp (List.mem_of_find?_eq_some h)⟩

theorem strstr_isSome : (strstr s text).isSome ↔ text <:+: s := by
  constructor
  · intro h
    obtain ⟨u, hu⟩ := Option.isSome_iff_exists.mp h
    obtain ⟨hpre, hsuffix⟩ := strstr_eq_some hu
    exact hpre.isInfix.trans hsuffix.isInfix
  · rintro ⟨front, back, rfl⟩
    refine List.find?_isSome.mpr ⟨text ++ back, (List.mem_tails _ _).mpr ?_, ?_⟩
    · exact ⟨front, (List.append_assoc _ _ _).symm⟩
    · exact List.isPrefixOf_iff_prefix.mpr (List.prefix_append _ _)

theorem cString_of_prefix (h : buf <+: r.text) : cString buf = buf := by
  refine List.takeWhile_eq_self_iff.mpr fun c hc => decide_eq_true ?_
  rintro rfl
  exact r.noNul (h.mem hc)

/-- The marker is there exactly when the whole response is. -/
theorem hasHack_iff (h : buf <+: r.text) : hasHack buf = true ↔ buf = r.text := by
  rw [hasHack, strstr_isSome, cString_of_prefix r h]
  constructor
  · intro hhack
    by_contra hne
    have hpart : buf <+: r.text.dropLast := by
      refine List.prefix_of_prefix_length_le h (List.dropLast_prefix _) ?_
      have hlt : buf.length < r.text.length :=
        lt_of_le_of_ne h.length_le fun heq => hne (h.eq_of_length heq)
      rw [List.length_dropLast]
      exact Nat.le_sub_one_of_lt hlt
    exact r.hackAtEnd (hhack.trans hpart.isInfix)
  · rintro rfl
    exact r.endsWithHack.isInfix

theorem plain_of_isdigit : ∀ c : Byte, isdigit c = true →
    isspace c = false ∧ c ≠ chr '-' ∧ c ≠ chr '+' := by
  decide +kernel

theorem readInt_digits {digits rest : Bytes} {n : Nat} (hne : digits ≠ [])
    (hdigits : ∀ c ∈ digits, isdigit c = true) (hn : decimal digits = n) (hlt : n < 2 ^ 31)
    (hrest : ∀ c, rest.head? = some c → isdigit c = false) : readInt (digits ++ rest) = n := by
  obtain ⟨d, digits', rfl⟩ := List.exists_cons_of_ne_nil hne
  have hplain := plain_of_isdigit d (hdigits d List.mem_cons_self)
  have hdrop : (d :: digits' ++ rest).dropWhile isspace = d :: digits' ++ rest := by
    rw [List.cons_append, List.dropWhile_cons_of_neg (by rw [hplain.1]; decide)]
  have htake : (d :: digits' ++ rest).takeWhile isdigit = d :: digits' := by
    rw [List.takeWhile_append_of_pos hdigits]
    cases rest with
    | nil => rw [List.takeWhile_nil, List.append_nil]
    | cons c rest =>
      rw [List.takeWhile_cons_of_neg (by rw [hrest c rfl]; decide), List.append_nil]
  have hsign : ¬ (some d = some (chr '-') ∨ some d = some (chr '+')) := by
    rw [Option.some_inj, Option.some_inj]
    exact fun h => h.elim hplain.2.1 hplain.2.2
  unfold readInt
  simp only [hdrop]
  rw [show (d :: digits' ++ rest).head? = some d from rfl, if_neg hsign, htake,
    if_neg fun h => hsign (.inl h), hn]
  omega

/-- The rest of a line, and what follows it. -/
theorem exists_line (rest : Bytes) : ∃ line back, rest = line ++ back ∧ chr '\n' ∉ line ∧
    ∀ c, back.head? = some c → c = chr '\n' := by
  induction rest with
  | nil => exact ⟨[], [], rfl, List.not_mem_nil, fun c hc => by cases hc⟩
  | cons d rest ih =>
    by_cases hd : d = chr '\n'
    · exact ⟨[], d :: rest, rfl, List.not_mem_nil, fun c hc => Option.some.inj hc ▸ hd⟩
    · obtain ⟨line, back, rfl, hline, hback⟩ := ih
      refine ⟨d :: line, back, rfl, fun hmem => ?_, hback⟩
      exact (List.mem_cons.mp hmem).elim (fun heq => hd heq.symm) hline

theorem isLine_of_split {front line back : Bytes} (hline : chr '\n' ∉ line)
    (hback : ∀ c, back.head? = some c → c = chr '\n')
    (htext : text = front ++ chr '\n' :: (line ++ back)) : IsLine line text := by
  refine ⟨hline, ?_⟩
  rw [htext]
  cases back with
  | nil => exact ⟨chr '\n' :: front, [], by simp⟩
  | cons c back =>
    rw [hback c rfl]
    exact ⟨chr '\n' :: front, back ++ [chr '\n'], by simp⟩

/-- Behind the label stands the number of the response. -/
theorem resultIn_of_found {resultStart : Bytes}
    (hstrstr : strstr r.text (bytes "\nResult: ") = some resultStart) :
    resultIn r.text = r.result := by
  have hlength : (bytes "\nResult: ").length = 9 := by decide
  simp only [resultIn, cString_of_prefix r List.prefix_rfl, hlength, hstrstr]
  obtain ⟨⟨rest, rfl⟩, front, hfront⟩ := strstr_eq_some hstrstr
  obtain ⟨line, back, rfl, hline, hback⟩ := exists_line rest
  have hlabel : chr '\n' ∉ bytes "Result: " ++ line := fun h =>
    (List.mem_append.mp h).elim (by decide) hline
  have hsplit : r.text = front ++ chr '\n' :: (bytes "Result: " ++ line ++ back) := by
    rw [← hfront, List.append_assoc]
    rfl
  obtain ⟨digits, ending, htext, hne, hdigits, hn, hending⟩ :=
    r.onlyResult _ (isLine_of_split hlabel hback hsplit) (List.prefix_append _ _)
  rw [List.append_assoc, List.append_cancel_left_eq] at htext
  subst htext
  have hstart : (bytes "\nResult: " ++ (digits ++ ending ++ back)).drop 9 =
      digits ++ (ending ++ back) := by
    rw [← hlength, List.drop_left, List.append_assoc]
  rw [hstart]
  refine readInt_digits hne hdigits hn r.result_lt ?_
  intro c hc
  -- After the digits the line ends.
  rcases hending with rfl | rfl
  · rw [hback c hc]
    decide
  · rw [← Option.some.inj hc]
    decide

theorem resultIn_text : resultIn r.text = -1 ∨ resultIn r.text = r.result := by
  cases hstrstr : strstr r.text (bytes "\nResult: ") with
  | none =>
    refine .inl ?_
    simp only [resultIn, cString_of_prefix r List.prefix_rfl, hstrstr]
  | some resultStart => exact .inr (resultIn_of_found r hstrstr)

end Reading

end WsRequest

end SafeKiddo
