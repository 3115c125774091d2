import SafeKiddo.Httpd
import SafeKiddo.Lib.Lines
import SafeKiddo.WsRequest

/-!
# Replies of httpd

A reply of `httpd.cc` as text, and what `readWsResponse` of the plugin reads in it. The http library
sends a status line, the headers in some order with some of its own, an empty line, and the body
that `handler` gives it.

Results:
1. `wsResponse`: the answer to a categorization request is a response to the plugin, if it
   fits its buffer.
2. `resultIn_sent`: the plugin reads the code that the backend query has given.
-/

namespace SafeKiddo

open ByteString WsRequest

/-! ## 1. The text of a reply -/

/-- `MHD_add_response_header` refuses empty texts, tabs and line breaks. -/
def accepted (header : Bytes × Bytes) : Bool :=
  header.1 ≠ [] && header.2 ≠ [] &&
    (header.1 ++ header.2).all fun c => c ≠ '\t' && c ≠ '\r' && c ≠ '\n'

def headerLine (header : Bytes × Bytes) : Bytes := header.1 ++ bytes ": " ++ header.2

/-- The names of the headers that MHD adds. -/
def mhdNames : List Bytes := [bytes "Connection", bytes "Content-Length", bytes "Date"]

/-- What is sent for a reply: C strings in lines. -/
structure Sent (reply : HttpReply) where
  statusLine : Bytes
  fields : List Bytes
  mhdFields : List Bytes
  fields_perm : fields.Perm ((reply.headers.filter accepted).map headerLine ++ mhdFields)
  version : bytes "HTTP/1.1 " <+: statusLine
  names : ∀ line ∈ mhdFields, ∃ name ∈ mhdNames, name <+: line
  noBreak : ∀ line ∈ statusLine :: mhdFields, NoBreak line
  noNul : ∀ line ∈ statusLine :: fields, 0 ∉ line

/-- `MHD_create_response_from_buffer(5, "hack\n", ...)`. -/
def body : Bytes := bytes "hack\n"

namespace Sent

variable {reply : HttpReply}

def lines (sent : Sent reply) : List Bytes := sent.statusLine :: sent.fields

def text (sent : Sent reply) : Bytes := sent.lines.flatMap (· ++ crlf) ++ crlf ++ body

/-- The texts between the line feeds. -/
def pieces (sent : Sent reply) : List Bytes :=
  sent.lines.map (· ++ [chr '\r']) ++ [[chr '\r'], bytes "hack", []]

end Sent

/-! ## 2. Lines -/

section Lines

variable {reply : HttpReply} (sent : Sent reply)

theorem noBreak_headerLine {header : Bytes × Bytes} (h : accepted header = true) :
    NoBreak (headerLine header) := by
  have hall := List.all_eq_true.mp (Bool.and_eq_true_iff.mp h).2
  have hplain : ∀ {text}, text ⊆ header.1 ++ header.2 → NoBreak text := by
    intro text hsub
    refine noBreak_of_all fun c hc => ?_
    have hc' := hall c (hsub hc)
    rw [Bool.and_assoc, Bool.and_eq_true_iff] at hc'
    exact hc'.2
  have hcolon : NoBreak (bytes ": ") := by constructor <;> decide
  exact ((hplain (List.subset_append_left _ _)).append hcolon).append
    (hplain (List.subset_append_right _ _))

theorem noBreak_lines : ∀ line ∈ sent.lines, NoBreak line := by
  intro line hline
  rcases List.mem_cons.mp hline with rfl | hfield
  · exact sent.noBreak _ List.mem_cons_self
  · rcases List.mem_append.mp (sent.fields_perm.mem_iff.mp hfield) with hheader | hown
    · obtain ⟨header, hmem, rfl⟩ := List.mem_map.mp hheader
      exact noBreak_headerLine (List.mem_filter.mp hmem).2
    · exact sent.noBreak _ (List.mem_cons_of_mem _ hown)

theorem lf_notMem_pieces : ∀ piece ∈ sent.pieces, chr '\n' ∉ piece := by
  have hlast : ∀ piece ∈ [[chr '\r'], bytes "hack", []], chr '\n' ∉ piece := by decide
  intro piece hpiece
  rcases List.mem_append.mp hpiece with hpiece | hpiece
  · obtain ⟨line, hline, rfl⟩ := List.mem_map.mp hpiece
    intro hmem
    rcases List.mem_append.mp hmem with hmem | hmem
    · exact (noBreak_lines sent line hline).2 hmem
    · exact absurd hmem (by decide)
  · exact hlast piece hpiece

theorem marked_lines (lines : List Bytes) (rest : Bytes) :
    chr '\n' :: (lines.flatMap (· ++ crlf) ++ rest) =
      (lines.map (· ++ [chr '\r'])).flatMap (chr '\n' :: ·) ++ chr '\n' :: rest := by
  induction lines with
  | nil => rfl
  | cons line lines ih =>
    have hline : line ++ crlf = (line ++ [chr '\r']) ++ [chr '\n'] := by simp [crlf, bytes]
    rw [List.flatMap_cons, List.map_cons, List.flatMap_cons, hline, List.append_assoc,
      List.append_assoc, List.singleton_append, List.cons_append, List.append_assoc, ih]
    simp

theorem marked_pieces :
    Lines.marked (chr '\n') sent.pieces = chr '\n' :: sent.text ++ [chr '\n'] := by
  have hrest : crlf ++ body ++ [chr '\n'] = chr '\r' :: chr '\n' :: (bytes "hack" ++
      chr '\n' :: [chr '\n']) := by decide
  rw [Lines.marked, Sent.pieces, List.flatMap_append, Sent.text, List.append_assoc _ crlf,
    List.cons_append, List.append_assoc _ (crlf ++ body), hrest, marked_lines, List.append_assoc]
  rfl

theorem isLine_iff {line : Bytes} (hline : chr '\n' ∉ line) :
    IsLine line sent.text ↔ line ∈ sent.pieces := by
  rw [Lines.mem_iff_infix (lf_notMem_pieces sent) hline, marked_pieces]
  exact ⟨fun h => h.2, fun h => ⟨hline, h⟩⟩

theorem noNul_text : 0 ∉ sent.text := by
  have hcrlf : (0 : Byte) ∉ crlf := by decide
  intro hmem
  rcases List.mem_append.mp hmem with hmem | hmem
  · rcases List.mem_append.mp hmem with hmem | hmem
    · obtain ⟨line, hline, hmem⟩ := List.mem_flatMap.mp hmem
      exact (List.mem_append.mp hmem).elim (sent.noNul line hline) hcrlf
    · exact hcrlf hmem
  · exact absurd hmem (by decide)

theorem endsWithHack_text : bytes "\nhack\n" <:+ sent.text :=
  ⟨sent.lines.flatMap (· ++ crlf) ++ [chr '\r'], by simp [Sent.text, body, crlf, bytes]⟩

/-- Line feeds in the headers have a carriage return before them. -/
theorem hackAtEnd_text : ¬ bytes "\nhack\n" <:+: sent.text.dropLast := by
  intro h
  have hended : sent.text.dropLast =
      Lines.ended (chr '\r') (chr '\n') (sent.lines ++ [[]]) ++ bytes "hack" := by
    have hbody : body = bytes "hack" ++ [chr '\n'] := by decide
    rw [Sent.text, hbody, ← List.append_assoc, List.dropLast_concat, Lines.ended,
      List.flatMap_append]
    rfl
  have hpreceded : Lines.Preceded (chr '\r') (chr '\n') sent.text.dropLast := by
    rw [hended]
    refine Lines.preceded_ended (by decide) ?_ (by decide)
    intro line hline
    rcases List.mem_append.mp hline with hline | hline
    · exact (noBreak_lines sent line hline).2
    · rw [List.mem_singleton.mp hline]
      exact List.not_mem_nil
  have hk : [chr 'k', chr '\n'] <:+: bytes "\nhack\n" := ⟨bytes "\nhac", [], by decide⟩
  exact absurd (hpreceded.of_infix (hk.trans h)) (by decide)

end Lines

/-! ## 3. The result -/

section Result

variable {reply : HttpReply} {code : ResponseCode}

/-- The names of the other headers of an answer. -/
def infoNames : List Bytes :=
  [bytes "Used-profile-id", bytes "Used-profile-name", bytes "Category-group-id",
    bytes "Category-group-name"]

/-- One header tells the code. -/
def TellsCode (reply : HttpReply) (code : ResponseCode) : Prop :=
  ∃ others, reply.headers = (bytes "Result", intText code.value) :: others ∧
    ∀ header ∈ others, header.1 ∈ infoNames

theorem names_infoHeaders {idHeader nameHeader : Bytes} {pair : Option (Int32 × Bytes)}
    {header : Bytes × Bytes} (h : header ∈ infoHeaders idHeader nameHeader pair) :
    header.1 = idHeader ∨ header.1 = nameHeader := by
  cases pair with
  | none => cases h
  | some pair =>
    rcases List.mem_cons.mp h with rfl | h
    · exact .inl rfl
    · rw [List.mem_singleton.mp h]
      exact .inr rfl

theorem tellsCode_handleResult (container : AdmissionControlContainer) (clientIp : In6Addr)
    (slowDown : Int) (result : QueryResult) :
    TellsCode (handleResult container clientIp slowDown result).1 result.code := by
  have hzero : bytes "0" = intText (ResponseCode.resOk.value : Nat) := by decide +kernel
  refine ⟨infoHeaders (bytes "Used-profile-id") (bytes "Used-profile-name") result.profile ++
    infoHeaders (bytes "Category-group-id") (bytes "Category-group-name") result.categoryGroup,
    ?_, ?_⟩
  · unfold handleResult
    simp only [isValidBackendResult_eq, Bool.not_true, Bool.false_eq_true, if_false]
    split
    · next hok => rw [hok, hzero]; rfl
    · rfl
  · intro header hmem
    rcases List.mem_append.mp hmem with hmem | hmem
    · rcases names_infoHeaders hmem with hname | hname <;> simp [infoNames, hname]
    · rcases names_infoHeaders hmem with hname | hname <;> simp [infoNames, hname]

theorem codeText (code : ResponseCode) :
    intText code.value ≠ [] ∧ (∀ c ∈ intText code.value, isdigit c = true) ∧
      WsRequest.decimal (intText code.value) = code.value ∧ code.value < 2 ^ 31 := by
  cases code <;> decide +kernel

theorem accepted_result (code : ResponseCode) :
    accepted (bytes "Result", intText code.value) = true := by
  cases code <;> decide +kernel

variable (sent : Sent reply)

theorem result_mem (h : TellsCode reply code) :
    headerLine (bytes "Result", intText code.value) ∈ sent.fields := by
  obtain ⟨others, hheaders, -⟩ := h
  refine sent.fields_perm.mem_iff.mpr (List.mem_append_left _ (List.mem_map.mpr ⟨_, ?_, rfl⟩))
  exact List.mem_filter.mpr ⟨hheaders ▸ List.mem_cons_self, accepted_result code⟩

/-- A line that begins with another letter. -/
theorem not_result_of_head {text line rest : Bytes} (htext : text <+: line) (hne : text ≠ [])
    (hhead : text.head? ≠ some (chr 'R')) : ¬ bytes "Result: " <+: line ++ rest := by
  rintro ⟨u, hu⟩
  obtain ⟨v, rfl⟩ := htext
  obtain ⟨c, text, rfl⟩ := List.exists_cons_of_ne_nil hne
  have hc : some (chr 'R') = some c := congrArg List.head? hu
  exact hhead hc.symm

/-- No line of MHD begins like the one with the result. -/
theorem header_of_result {line rest : Bytes} (hline : line ∈ sent.lines)
    (hpre : bytes "Result: " <+: line ++ rest) :
    ∃ header ∈ reply.headers, line = headerLine header := by
  have hmhd : ∀ name ∈ mhdNames, name ≠ [] ∧ name.head? ≠ some (chr 'R') := by decide
  rcases List.mem_cons.mp hline with rfl | hfield
  · exact absurd hpre (not_result_of_head sent.version (by decide) (by decide))
  · rcases List.mem_append.mp (sent.fields_perm.mem_iff.mp hfield) with hheader | hown
    · obtain ⟨header, hmem, rfl⟩ := List.mem_map.mp hheader
      exact ⟨header, (List.mem_filter.mp hmem).1, rfl⟩
    · obtain ⟨name, hname, hstart⟩ := sent.names line hown
      obtain ⟨hne, hhead⟩ := hmhd name hname
      exact absurd hpre (not_result_of_head hstart hne hhead)

theorem header_of_isLine {line : Bytes} (hline : IsLine line sent.text)
    (hpre : bytes "Result: " <+: line) :
    ∃ header ∈ reply.headers, bytes "Result: " <+: headerLine header ++ [chr '\r'] ∧
      line = headerLine header ++ [chr '\r'] := by
  have hlast : ∀ piece ∈ [[chr '\r'], bytes "hack", []], ¬ bytes "Result: " <+: piece := by decide
  rcases List.mem_append.mp ((isLine_iff sent hline.1).mp hline) with hpiece | hpiece
  · obtain ⟨field, hfield, rfl⟩ := List.mem_map.mp hpiece
    obtain ⟨header, hmem, rfl⟩ := header_of_result sent hfield hpre
    exact ⟨header, hmem, hpre, rfl⟩
  · exact absurd hpre (hlast line hpiece)

/-- No other header begins like the one with the result. -/
theorem eq_of_tellsCode (h : TellsCode reply code) {header : Bytes × Bytes} {rest : Bytes}
    (hmem : header ∈ reply.headers) (hpre : bytes "Result: " <+: headerLine header ++ rest) :
    header = (bytes "Result", intText code.value) := by
  obtain ⟨others, hheaders, hothers⟩ := h
  have hinfo : ∀ name ∈ infoNames, name ≠ [] ∧ name.head? ≠ some (chr 'R') := by decide
  rw [hheaders] at hmem
  rcases List.mem_cons.mp hmem with rfl | hother
  · rfl
  · obtain ⟨hne, hhead⟩ := hinfo _ (hothers header hother)
    have hname : header.1 <+: headerLine header := by
      rw [headerLine, List.append_assoc]
      exact List.prefix_append _ _
    exact absurd hpre (not_result_of_head hname hne hhead)

theorem resultLine_headerLine (code : ResponseCode) :
    ResultLine code.value (headerLine (bytes "Result", intText code.value) ++ [chr '\r']) := by
  obtain ⟨hne, hdigits, hdecimal, -⟩ := codeText code
  exact ⟨intText code.value, [chr '\r'], rfl, hne, hdigits, hdecimal, .inr rfl⟩

theorem onlyResult_text (h : TellsCode reply code) (line : Bytes) (hline : IsLine line sent.text)
    (hpre : bytes "Result: " <+: line) : ResultLine code.value line := by
  obtain ⟨header, hmem, hstart, rfl⟩ := header_of_isLine sent hline hpre
  rw [eq_of_tellsCode h hmem hstart]
  exact resultLine_headerLine code

theorem hasResult_text (h : TellsCode reply code) :
    ∃ line, IsLine line sent.text ∧ ResultLine code.value line := by
  have hmem := result_mem sent h
  have hpiece : headerLine (bytes "Result", intText code.value) ++ [chr '\r'] ∈ sent.pieces :=
    List.mem_append_left _ (List.mem_map_of_mem (List.mem_cons_of_mem _ hmem))
  exact ⟨_, (isLine_iff sent (lf_notMem_pieces sent _ hpiece)).mpr hpiece,
    resultLine_headerLine code⟩

/-- The text of an answer is a response for the plugin. -/
def wsResponse (h : TellsCode reply code) (hfits : sent.text.length ≤ bufSize) : WsResponse where
  text := sent.text
  result := code.value
  length_le := hfits
  noNul := noNul_text sent
  endsWithHack := endsWithHack_text sent
  hackAtEnd := hackAtEnd_text sent
  result_lt := (codeText code).2.2.2
  hasResult := hasResult_text sent h
  onlyResult := onlyResult_text sent h

theorem exists_front (line : Bytes) (lines : List Bytes) :
    ∃ front, (line :: lines).flatMap (· ++ crlf) = front ++ [chr '\n'] := by
  have hcrlf : crlf = [chr '\r'] ++ [chr '\n'] := rfl
  have hsplit := List.dropLast_concat_getLast (List.cons_ne_nil line lines)
  rw [← hsplit, List.flatMap_append, List.flatMap_singleton, hcrlf, ← List.append_assoc,
    ← List.append_assoc]
  exact ⟨_, rfl⟩

/-- The plugin finds the number: its line is not the first one. -/
theorem resultIn_sent (h : TellsCode reply code) (hfits : sent.text.length ≤ bufSize) :
    resultIn sent.text = code.value := by
  have hfound : bytes "\nResult: " <:+: sent.text := by
    obtain ⟨before, behind, hfields⟩ := List.append_of_mem (result_mem sent h)
    obtain ⟨front, hfront⟩ := exists_front sent.statusLine before
    refine ⟨front, intText code.value ++ crlf ++ behind.flatMap (· ++ crlf) ++ crlf ++ body, ?_⟩
    rw [Sent.text, Sent.lines, hfields, ← List.cons_append, List.flatMap_append, hfront,
      List.flatMap_cons, headerLine]
    simp [bytes]
  obtain ⟨resultStart, hstrstr⟩ := Option.isSome_iff_exists.mp (strstr_isSome.mpr hfound)
  exact resultIn_of_found (wsResponse sent h hfits) hstrstr

end Result

end SafeKiddo
