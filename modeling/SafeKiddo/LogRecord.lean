import SafeKiddo.Lib.CopyText
import SafeKiddo.QueryDatabase
import SafeKiddo.TypedInteger

/-!
# Log records

`escapeString` and the line that `RequestLogger::logRequest` queues. The lines are sent to the
server as they are, as COPY text.

Results:
1. `escapeString_eq`: what is escaped is the url up to a question mark, read as if a `%` stood in
   front of it.
2. `logRequest_eq`: the assertion on the escaped url never fires.
3. `logRequest_row`: when the line is one row with the right values.
-/

namespace SafeKiddo

open ByteString
open CopyText (Token Closed tokens column columns rows)

/-! ## 1. The code -/

/-- The loop of `escapeString`: the position, the positions of the last `%` and of the last `3`. -/
def escapeLoop : Bytes → (i first second : Int) → (ret : Bytes) → Bytes
  | [], _, _, _, ret => ret
  | c :: src, i, first, second, ret =>
    if c = '%' then escapeLoop src (i + 1) i second (ret ++ [c])
    else if c = '3' then escapeLoop src (i + 1) first i (ret ++ [c])
    else if c = 'F' then
      if first = i - 2 ∧ second = i - 1 then ret ++ [c]
      else escapeLoop src (i + 1) first second (ret ++ [c])
    else if c = '?' then ret ++ [c]
    else if c = '\n' then escapeLoop src (i + 1) first second (ret ++ bytes "\\n")
    else if c = '\t' then escapeLoop src (i + 1) first second (ret ++ bytes "\\t")
    else if c = '\\' then escapeLoop src (i + 1) first second (ret ++ bytes "\\\\")
    else if c.val < 128 then escapeLoop src (i + 1) first second (ret ++ [c])
    else escapeLoop src (i + 1) first second (ret ++ [chr '?'])

def escapeString (src : Bytes) : Bytes := escapeLoop src 0 (-1) (-1) []

/-- `boost::posix_time::to_simple_string`, where `none` is `not_a_date_time`. -/
def timeText (toSimpleString : Int → Bytes) : Option Int → Bytes
  | none => bytes "not-a-date-time"
  | some t => toSimpleString t

def categoryGroupText : Option CategoryGroupId → Bytes
  | some groupId => TypedInteger.print int32 groupId.toInt
  | none => bytes "\\N"

/-- The string that is put into the queue. The assertion on the times is left out of the release
build; that on the url is not. -/
def logRequest (toSimpleString : Int → Bytes) (requestUrl : Bytes) (childUuid : Uuid)
    (result : BackendQueryResult) : Checked Bytes := do
  let escapedUrl := escapeString requestUrl
  assert (findFirstOf escapedUrl [chr '\t', chr '\n'] 0 = none)
  let responseCode ← result.responseCode
  return timeText toSimpleString result.utcTime ++ chr '\t' ::
    (timeText toSimpleString result.childTime ++ chr '\t' ::
    (escapedUrl ++ chr '\t' ::
    (childUuid ++ chr '\t' ::
    (intText responseCode.value ++ chr '\t' ::
    (categoryGroupText (result.categoryGroupInfo.map (·.1)) ++ [chr '\n'])))))

/-! ## 2. Escaping -/

/-- How much of `%3F` has just been read. -/
inductive Seen
  | nothing
  | percent
  | percent3
  deriving DecidableEq

def Seen.next (seen : Seen) (c : Byte) : Seen :=
  if c = '%' then .percent else if c = '3' ∧ seen = .percent then .percent3 else .nothing

/-- The text up to the first question mark, plain or encoded. -/
def cutFrom : Seen → Bytes → Bytes
  | _, [] => []
  | seen, c :: s =>
    if c = '?' ∨ (c = 'F' ∧ seen = .percent3) then [c] else c :: cutFrom (seen.next c) s

/-- The part of a url that is logged. -/
def loggedPart (url : Bytes) : Bytes := cutFrom .percent url

def escapeByte (c : Byte) : Bytes :=
  if c = '\n' then bytes "\\n"
  else if c = '\t' then bytes "\\t"
  else if c = '\\' then bytes "\\\\"
  else if c.val < 128 then [c]
  else [chr '?']

/-- What the remembered positions say before the byte at position `i`. -/
structure Tracks (seen : Seen) (i first second : Int) : Prop where
  first_lt : first < i
  second_lt : second < i
  percent_iff : seen = .percent ↔ first = i - 1
  percent3_iff : seen = .percent3 ↔ first = i - 2 ∧ second = i - 1

theorem Tracks.other {seen : Seen} {i first second : Int} (h : Tracks seen i first second) :
    Tracks .nothing (i + 1) first second := by
  obtain ⟨hf, hs, -, -⟩ := h
  exact ⟨by omega, by omega, by simp; omega, by simp; omega⟩

theorem Tracks.percent {seen : Seen} {i first second : Int} (h : Tracks seen i first second) :
    Tracks .percent (i + 1) i second := by
  obtain ⟨hf, hs, -, -⟩ := h
  exact ⟨by omega, by omega, by simp, by simp; omega⟩

theorem Tracks.three {seen : Seen} {i first second : Int} (h : Tracks seen i first second) :
    Tracks (seen.next '3') (i + 1) first i := by
  obtain ⟨hf, hs, hp, -⟩ := h
  have hne : chr '3' ≠ chr '%' := by decide
  unfold Seen.next
  rw [if_neg hne]
  split
  · next hc => exact ⟨by omega, by omega, by simp; omega, by simp; have := hp.mp hc.2; omega⟩
  · next hc =>
    have hno : first ≠ i - 1 := fun he => hc ⟨rfl, hp.mpr he⟩
    exact ⟨by omega, by omega, by simp; omega, by simp; omega⟩

theorem Seen.next_other (seen : Seen) {c : Byte} (hp : c ≠ '%') (h3 : c ≠ '3') :
    seen.next c = .nothing := by
  rw [next, if_neg hp, if_neg fun h => h3 h.1]

/-- A byte that plays no part in `%3F` and is no question mark. -/
theorem escapeLoop_other {c : Byte} (hp : c ≠ '%') (h3 : c ≠ '3') (hF : c ≠ 'F') (hq : c ≠ '?')
    (src : Bytes) (i first second : Int) (ret : Bytes) :
    escapeLoop (c :: src) i first second ret =
      escapeLoop src (i + 1) first second (ret ++ escapeByte c) := by
  rw [escapeLoop, if_neg hp, if_neg h3, if_neg hF, if_neg hq, escapeByte]
  split_ifs <;> rfl

theorem escapeLoop_eq (src : Bytes) {seen : Seen} {i first second : Int} (ret : Bytes)
    (h : Tracks seen i first second) :
    escapeLoop src i first second ret = ret ++ (cutFrom seen src).flatMap escapeByte := by
  induction src generalizing seen i first second ret with
  | nil => simp [escapeLoop, cutFrom]
  | cons c src ih =>
    -- A byte that is kept, and one that ends the logged part.
    have keep : ∀ {first' second' : Int}, c ≠ '?' → ¬ (c = 'F' ∧ seen = .percent3) →
        Tracks (seen.next c) (i + 1) first' second' →
        escapeLoop src (i + 1) first' second' (ret ++ escapeByte c) =
          ret ++ (cutFrom seen (c :: src)).flatMap escapeByte := by
      intro first' second' hq hF ht
      rw [ih _ ht, cutFrom, if_neg (not_or.mpr ⟨hq, hF⟩), List.flatMap_cons, List.append_assoc]
    have stop : c = '?' ∨ (c = 'F' ∧ seen = .percent3) →
        ret ++ escapeByte c = ret ++ (cutFrom seen (c :: src)).flatMap escapeByte := by
      intro hend
      rw [cutFrom, if_pos hend, List.flatMap_singleton]
    rcases eq_or_ne c '%' with rfl | hp
    · exact keep (by decide) (fun hF => absurd hF.1 (by decide)) h.percent
    rcases eq_or_ne c '3' with rfl | h3
    · exact keep (by decide) (fun hF => absurd hF.1 (by decide)) h.three
    have hother : Tracks (seen.next c) (i + 1) first second := by
      rw [seen.next_other hp h3]
      exact h.other
    rcases eq_or_ne c 'F' with rfl | hF
    · rw [escapeLoop, if_neg hp, if_neg h3, if_pos rfl]
      split
      · next hpos => exact stop (.inr ⟨rfl, h.percent3_iff.mpr hpos⟩)
      · next hpos =>
        exact keep (by decide) (fun hF => hpos (h.percent3_iff.mp hF.2)) hother
    rcases eq_or_ne c '?' with rfl | hq
    · exact stop (.inl rfl)
    · rw [escapeLoop_other hp h3 hF hq]
      exact keep hq (fun h => hF h.1) hother

/-- At the start the remembered positions look as if a `%` had just been read. -/
theorem escapeString_eq (src : Bytes) :
    escapeString src = (loggedPart src).flatMap escapeByte :=
  escapeLoop_eq src [] (⟨by decide, by decide, by decide, by decide⟩ : Tracks .percent 0 (-1) (-1))

/-- How the reader takes an escaped byte. -/
def escapeToken (c : Byte) : Token :=
  if c = '\n' then .escaped 'n'
  else if c = '\t' then .escaped 't'
  else if c = '\\' then .escaped '\\'
  else if c.val < 128 then .raw c
  else .raw '?'

/-- Bytes outside ASCII are replaced. -/
def asciiByte (c : Byte) : Byte := if c.val < 128 then c else '?'

theorem escapeByte_closed (c : Byte) :
    tokens (escapeByte c) = [escapeToken c] ∧ Closed (escapeByte c) := by
  unfold escapeByte escapeToken
  split
  · exact ⟨rfl, .escape 'n'⟩
  · split
    · exact ⟨rfl, .escape 't'⟩
    · split
      · exact ⟨rfl, .escape '\\'⟩
      · next hbs =>
        split
        · exact ⟨CopyText.tokens_cons hbs [], .single hbs⟩
        · exact ⟨rfl, .single (by decide)⟩

theorem flatMap_escapeByte_closed (s : Bytes) :
    tokens (s.flatMap escapeByte) = s.map escapeToken ∧ Closed (s.flatMap escapeByte) := by
  induction s with
  | nil => exact ⟨rfl, .nil⟩
  | cons c s ih =>
    obtain ⟨hc, hclosed⟩ := escapeByte_closed c
    rw [List.flatMap_cons, hclosed, hc, ih.1]
    exact ⟨rfl, hclosed.append ih.2⟩

theorem tokens_escapeString (url : Bytes) :
    tokens (escapeString url) = (loggedPart url).map escapeToken := by
  rw [escapeString_eq]
  exact (flatMap_escapeByte_closed _).1

theorem escapeString_closed (url : Bytes) : Closed (escapeString url) := by
  rw [escapeString_eq]
  exact (flatMap_escapeByte_closed _).2

theorem decode_map_escapeToken (s : Bytes) :
    CopyText.decode (s.map escapeToken) = s.map asciiByte := by
  induction s with
  | nil => rfl
  | cons c s ih =>
    rw [List.map_cons, List.map_cons, ← ih]
    unfold escapeToken asciiByte
    split
    · next hc => subst hc; rfl
    · split
      · next hc => subst hc; rfl
      · split
        · next hc => subst hc; rfl
        · split <;> rfl

theorem escapeToken_ne_null (c : Byte) : escapeToken c ≠ .escaped 'N' := by
  unfold escapeToken
  split_ifs <;> simp [chr_eq_chr]

/-- The reader gets the logged part of the url back, in ASCII. -/
theorem column_escapeString (url : Bytes) :
    column (tokens (escapeString url)) = some ((loggedPart url).map asciiByte) := by
  rw [tokens_escapeString, column, if_neg, decode_map_escapeToken]
  intro h
  obtain ⟨c, -, hc⟩ := List.map_eq_singleton_iff.mp h |>.imp fun c h => h
  exact escapeToken_ne_null c hc

/-- The escaped url brings no column or row end of its own. -/
theorem raw_mem_escapeString {url : Bytes} {c : Byte} (h : .raw c ∈ tokens (escapeString url)) :
    c ≠ '\t' ∧ c ≠ '\n' := by
  rw [tokens_escapeString, List.mem_map] at h
  obtain ⟨d, -, hd⟩ := h
  unfold escapeToken at hd
  split_ifs at hd with hnl htab hbs hascii
  · cases hd; exact ⟨htab, hnl⟩
  · cases hd; exact ⟨by decide, by decide⟩

theorem return_mem_escapeString {url : Bytes} :
    .raw (chr '\r') ∈ tokens (escapeString url) ↔ chr '\r' ∈ loggedPart url := by
  have h : ∀ c, escapeToken c = .raw (chr '\r') ↔ c = chr '\r' := by
    intro c
    constructor
    · intro hc
      unfold escapeToken at hc
      split_ifs at hc with hnl htab hbs hascii
      · cases hc; rfl
      · exact absurd (Token.raw.inj hc) (by decide)
    · rintro rfl
      rfl
  simp [tokens_escapeString, h]

theorem mem_escapeString {url : Bytes} {c : Byte} (hc : c ∈ escapeString url) :
    c ∉ [chr '\t', chr '\n'] := by
  have hshort : ∀ s ∈ [bytes "\\n", bytes "\\t", bytes "\\\\", [chr '?']], ∀ c ∈ s,
      c ∉ [chr '\t', chr '\n'] := by decide +kernel
  rw [escapeString_eq, List.mem_flatMap] at hc
  obtain ⟨d, -, hd⟩ := hc
  unfold escapeByte at hd
  split_ifs at hd with hnl htab hbs hascii
  · exact hshort _ (by simp) c hd
  · exact hshort _ (by simp) c hd
  · exact hshort _ (by simp) c hd
  · rw [List.mem_singleton] at hd
    subst hd
    simp [hnl, htab]
  · exact hshort _ (by simp) c hd

/-! ## 3. Records -/

/-- The line with its newline, for times that are set. -/
theorem logRequest_eq (toSimpleString : Int → Bytes) (requestUrl : Bytes) (childUuid : Uuid)
    {result : BackendQueryResult} {responseCode : ResponseCode}
    (h : result.responseCode = some responseCode) :
    logRequest toSimpleString requestUrl childUuid result =
      some (timeText toSimpleString result.utcTime ++ chr '\t' ::
        (timeText toSimpleString result.childTime ++ chr '\t' ::
        (escapeString requestUrl ++ chr '\t' ::
        (childUuid ++ chr '\t' ::
        (intText responseCode.value ++ chr '\t' ::
        (categoryGroupText (result.categoryGroupInfo.map (·.1)) ++ [chr '\n'])))))) := by
  have hassert : findFirstOf (escapeString requestUrl) [chr '\t', chr '\n'] 0 = none :=
    findFirstOf_eq_none fun c hc => mem_escapeString hc
  simp [logRequest, hassert, h]

/-- What a printed time is made of. -/
def isTimeChar (c : Byte) : Bool := isalnum c || c ∈ bytes "-:. "

/-- A text that can stand in a column as it is. -/
structure PlainField (strict : Bool) (s : Bytes) : Prop where
  no_backslash : chr '\\' ∉ s
  no_tab : chr '\t' ∉ s
  no_newline : chr '\n' ∉ s
  no_return : strict = true → chr '\r' ∉ s

theorem PlainField.of_class {strict : Bool} {s : Bytes} {p : Byte → Bool} (h : ∀ c ∈ s, p c)
    (hbs : p '\\' = false) (htab : p '\t' = false) (hnl : p '\n' = false)
    (hcr : p '\r' = false) : PlainField strict s :=
  ⟨fun hc => by simpa [hbs] using h _ hc, fun hc => by simpa [htab] using h _ hc,
    fun hc => by simpa [hnl] using h _ hc, fun _ hc => by simpa [hcr] using h _ hc⟩

/-- The line is read as one row of six columns, with the decoded url in the third and the user, the
code and the group in the last three. -/
def IsLogRow (strict : Bool) (line requestUrl : Bytes) (childUuid : Uuid)
    (responseCode : ResponseCode) (groupId : Option CategoryGroupId) : Prop :=
  ∃ serverTime childTime url,
    rows strict line = some [[serverTime, childTime, some url, some childUuid,
      some (intText responseCode.value), groupId.map fun g => intText g.toInt]] ∧
    column (tokens (escapeString requestUrl)) = some url

section Row

variable {strict : Bool} {serverTime childTime requestUrl childUuid code group : Bytes}

/-- The line of `logRequest`, for any texts in its columns. -/
def recordLine (serverTime childTime requestUrl childUuid code group : Bytes) : Bytes :=
  serverTime ++ chr '\t' :: (childTime ++ chr '\t' :: (escapeString requestUrl ++ chr '\t' ::
    (childUuid ++ chr '\t' :: (code ++ chr '\t' :: group))))

theorem PlainField.closed (h : PlainField strict childUuid) : Closed childUuid :=
  .plain h.no_backslash

theorem PlainField.tokens (h : PlainField strict childUuid) :
    tokens childUuid = childUuid.map .raw :=
  CopyText.tokens_plain h.no_backslash

theorem PlainField.column (h : PlainField strict childUuid) :
    column (CopyText.tokens childUuid) = some childUuid :=
  CopyText.column_eq_self.mpr h.no_backslash

theorem PlainField.raw_mem (h : PlainField strict childUuid) {c : Byte} :
    .raw c ∈ CopyText.tokens childUuid ↔ c ∈ childUuid := by
  simp [h.tokens]

theorem PlainField.columns_append (h : PlainField strict childUuid) (t : Bytes) :
    columns (CopyText.tokens (childUuid ++ chr '\t' :: t)) =
      some childUuid :: columns (CopyText.tokens t) := by
  rw [CopyText.columns_field h.closed (fun hc => h.no_tab (h.raw_mem.mp hc)), h.column]

/-- The first three columns read as they are meant to, whatever follows. -/
theorem columns_recordLine (hs : PlainField strict serverTime) (hc : PlainField strict childTime) :
    columns (tokens (recordLine serverTime childTime requestUrl childUuid code group)) =
      some serverTime :: some childTime :: column (tokens (escapeString requestUrl)) ::
        columns (tokens (childUuid ++ chr '\t' :: (code ++ chr '\t' :: group))) := by
  rw [recordLine, hs.columns_append, hc.columns_append,
    CopyText.columns_field (escapeString_closed _) fun h => (raw_mem_escapeString h).1 rfl]

/-- Which bytes of a line are raw, when the user has no backslash. -/
theorem raw_mem_recordLine (hs : PlainField strict serverTime) (hc : PlainField strict childTime)
    (hu : chr '\\' ∉ childUuid) (hcode : PlainField strict code) {c : Byte} (htab : c ≠ '\t') :
    .raw c ∈ tokens (recordLine serverTime childTime requestUrl childUuid code group) ↔
      c ∈ serverTime ∨ c ∈ childTime ∨ .raw c ∈ tokens (escapeString requestUrl) ∨
        c ∈ childUuid ∨ c ∈ code ∨ .raw c ∈ tokens group := by
  have hne : chr '\t' ≠ chr '\\' := by decide
  rw [recordLine, hs.closed.tokens_append_cons hne, hc.closed.tokens_append_cons hne,
    (escapeString_closed _).tokens_append_cons hne, (Closed.plain hu).tokens_append_cons hne,
    hcode.closed.tokens_append_cons hne]
  simp [hs.raw_mem, hc.raw_mem, CopyText.tokens_plain hu, hcode.raw_mem, htab]

/-- The line is one row with the user in the fourth of six columns exactly when the user can stand
in a column as it is. The other columns are then what they are meant to be. -/
theorem rows_recordLine (hs : PlainField strict serverTime) (hc : PlainField strict childTime)
    (hcode : PlainField strict code) (hgroup : Closed group)
    (hraw : ∀ c ∈ [chr '\t', chr '\n', chr '\r'], .raw c ∉ tokens group)
    {c₁ c₂ c₃ c₅ c₆ : Option Bytes} :
    rows strict (recordLine serverTime childTime requestUrl childUuid code group ++ [chr '\n']) =
        some [[c₁, c₂, c₃, some childUuid, c₅, c₆]] ↔
      PlainField strict childUuid ∧ (strict = true → chr '\r' ∉ loggedPart requestUrl) ∧
        c₁ = some serverTime ∧ c₂ = some childTime ∧
        c₃ = column (tokens (escapeString requestUrl)) ∧ c₅ = some code ∧
        c₆ = column (tokens group) := by
  have hne : chr '\t' ≠ chr '\\' := by decide
  have hclosed : Closed (recordLine serverTime childTime requestUrl childUuid code group) :=
    .after _ hne (.after _ hne (.after _ hne (.after _ hne (.after _ hne hgroup))))
  have htail : columns (tokens (code ++ chr '\t' :: group)) =
      [some code, column (tokens group)] := by
    rw [hcode.columns_append, CopyText.columns_single (hraw _ (by simp))]
  have hmem := fun hu => @raw_mem_recordLine strict serverTime childTime requestUrl childUuid code
    group hs hc hu hcode
  rw [CopyText.rows_terminated (hclosed [chr '\n']), columns_recordLine hs hc]
  constructor
  · rintro ⟨hcr, hnl, hrow⟩
    obtain ⟨rfl, rfl, rfl, hfield⟩ : _ ∧ _ ∧ _ ∧ _ := by simpa using hrow
    obtain ⟨hbs, htab⟩ := CopyText.plain_of_field (by rw [htail]; rfl) hfield.symm
    rw [hmem hbs (by decide)] at hnl hcr
    have hu : PlainField strict childUuid :=
      ⟨hbs, htab, fun h => hnl (.inr (.inr (.inr (.inl h)))),
        fun hst h => hcr hst (.inr (.inr (.inr (.inl h))))⟩
    rw [hu.columns_append, htail] at hfield
    obtain ⟨rfl, rfl⟩ : _ ∧ _ := by simpa using hfield
    exact ⟨hu, fun hst h => hcr hst (.inr (.inr (.inl (return_mem_escapeString.mpr h)))),
      rfl, rfl, rfl, rfl, rfl⟩
  · rintro ⟨hu, hlogged, rfl, rfl, rfl, rfl, rfl⟩
    rw [hmem hu.no_backslash (by decide), hmem hu.no_backslash (by decide), hu.columns_append,
      htail]
    refine ⟨?_, ?_, rfl⟩
    · rintro hst (h | h | h | h | h | h)
      · exact hs.no_return hst h
      · exact hc.no_return hst h
      · exact hlogged hst (return_mem_escapeString.mp h)
      · exact hu.no_return hst h
      · exact hcode.no_return hst h
      · exact hraw _ (by simp) h
    · rintro (h | h | h | h | h | h)
      · exact hs.no_newline h
      · exact hc.no_newline h
      · exact (raw_mem_escapeString h).2 rfl
      · exact hu.no_newline h
      · exact hcode.no_newline h
      · exact hraw _ (by simp) h

end Row

theorem plainField_intText (strict : Bool) (n : Int) : PlainField strict (intText n) :=
  .of_class (p := fun c => isdigit c || c = '-') (fun c hc => by simpa using mem_intText hc)
    (by decide) (by decide) (by decide) (by decide)

theorem toInt_eq_max {groupId : CategoryGroupId} :
    groupId.toInt = int32.max ↔ groupId = Int32.maxValue := by
  have hmax : int32.max = Int32.maxValue.toInt := by decide
  rw [hmax, Int32.toInt_inj]

/-- The text of the group brings no column or row end, and reads as the decimal number or as null,
except for the largest id. -/
theorem categoryGroupText_spec (groupId : Option CategoryGroupId) :
    Closed (categoryGroupText groupId) ∧
      (∀ c ∈ [chr '\t', chr '\n', chr '\r'], .raw c ∉ tokens (categoryGroupText groupId)) ∧
      (column (tokens (categoryGroupText groupId)) = groupId.map (fun g => intText g.toInt) ↔
        groupId ≠ some Int32.maxValue) := by
  cases groupId with
  | none => exact ⟨.escape 'N', by decide +kernel, by decide +kernel⟩
  | some g =>
    have hprint : PlainField true (TypedInteger.print int32 g.toInt) :=
      .of_class (p := fun c => isdigit c || c = '-' || c ∈ bytes "==Max")
        (fun c hc => by simpa [or_assoc] using TypedInteger.mem_print hc)
        (by decide +kernel) (by decide +kernel) (by decide +kernel) (by decide +kernel)
    refine ⟨hprint.closed, ?_, ?_⟩
    · intro c hc h
      have hmem := hprint.raw_mem.mp h
      rw [List.mem_cons, List.mem_cons, List.mem_singleton] at hc
      rcases hc with rfl | rfl | rfl
      · exact hprint.no_tab hmem
      · exact hprint.no_newline hmem
      · exact hprint.no_return rfl hmem
    · rw [categoryGroupText, hprint.column, Option.map_some, Option.some.injEq,
        TypedInteger.print_eq_intText, Ne, toInt_eq_max, Ne, Option.some.injEq]

/-- The law of a record. With `strict`, a carriage return is no data either. -/
theorem logRequest_row (toSimpleString : Int → Bytes) (utcTime childTime : Int)
    (hutc : ∀ c ∈ toSimpleString utcTime, isTimeChar c)
    (hchild : ∀ c ∈ toSimpleString childTime, isTimeChar c) (strict : Bool) (requestUrl : Bytes)
    (childUuid : Uuid) (responseCode : ResponseCode) (profileInfo : Option (ProfileId × Bytes))
    (categoryGroupInfo : Option (CategoryGroupId × Bytes)) :
    ∃ line, logRequest toSimpleString requestUrl childUuid
        ⟨some utcTime, some childTime, some responseCode, profileInfo, categoryGroupInfo⟩ =
          some line ∧
      (IsLogRow strict line requestUrl childUuid responseCode (categoryGroupInfo.map (·.1)) ↔
        PlainField strict childUuid ∧ categoryGroupInfo.map (·.1) ≠ some Int32.maxValue ∧
          (strict = true → chr '\r' ∉ loggedPart requestUrl)) := by
  have hplain : ∀ s, (∀ c ∈ s, isTimeChar c) → PlainField strict s := fun s hs =>
    .of_class hs (by decide +kernel) (by decide +kernel) (by decide +kernel) (by decide +kernel)
  obtain ⟨hclosed, hraw, hgroup⟩ := categoryGroupText_spec (categoryGroupInfo.map (·.1))
  have hrows := @rows_recordLine strict (toSimpleString utcTime) (toSimpleString childTime)
    requestUrl childUuid (intText responseCode.value)
    (categoryGroupText (categoryGroupInfo.map (·.1))) (hplain _ hutc) (hplain _ hchild)
    (plainField_intText _ _) hclosed hraw
  refine ⟨recordLine (toSimpleString utcTime) (toSimpleString childTime) requestUrl childUuid
    (intText responseCode.value) (categoryGroupText (categoryGroupInfo.map (·.1))) ++ [chr '\n'],
    ?_, ?_⟩
  · rw [logRequest_eq toSimpleString requestUrl childUuid rfl]
    simp [recordLine, timeText]
  · constructor
    · rintro ⟨c₁, c₂, url, hrow, hurl⟩
      obtain ⟨hu, hlogged, -, -, -, -, hg⟩ := hrows.mp hrow
      exact ⟨hu, hgroup.mp hg.symm, hlogged⟩
    · rintro ⟨hu, hg, hlogged⟩
      exact ⟨_, _, _, hrows.mpr ⟨hu, hlogged, rfl, rfl, (column_escapeString requestUrl).symm, rfl,
        (hgroup.mpr hg).symm⟩, column_escapeString requestUrl⟩

theorem logRequest_row_ola :
    ∃ line, logRequest (fun _ => bytes "2014-Jul-10 00:00:00") (bytes "onet.pl/") (bytes "ola")
        ⟨some (2456849 * ticksPerDay), some (2456849 * ticksPerDay), some .resOk, none,
          some (27, bytes "other")⟩ = some line ∧
      (IsLogRow true line (bytes "onet.pl/") (bytes "ola") .resOk (some 27) ↔
        PlainField true (bytes "ola") ∧ some (27 : CategoryGroupId) ≠ some Int32.maxValue ∧
          (true = true → chr '\r' ∉ loggedPart (bytes "onet.pl/"))) :=
  logRequest_row _ _ _ (by decide +kernel) (by decide +kernel) true _ _ .resOk none
    (some (27, bytes "other"))

/-- A tab in the user id makes a seventh column. -/
theorem logRequest_tab :
    ¬ ∃ line, logRequest (fun _ => bytes "2014-Jul-10 00:00:00") (bytes "onet.pl/") (bytes "o\tla")
        ⟨some (2456849 * ticksPerDay), some (2456849 * ticksPerDay), some .resOk, none, none⟩ =
          some line ∧
      IsLogRow false line (bytes "onet.pl/") (bytes "o\tla") .resOk none := by
  rintro ⟨line, hline, c₁, c₂, url, hrow, -⟩
  have hread : (logRequest (fun _ => bytes "2014-Jul-10 00:00:00") (bytes "onet.pl/")
      (bytes "o\tla") ⟨some (2456849 * ticksPerDay), some (2456849 * ticksPerDay), some .resOk,
        none, none⟩).bind (rows false) =
      some [[some (bytes "2014-Jul-10 00:00:00"), some (bytes "2014-Jul-10 00:00:00"),
        some (bytes "onet.pl/"), some (bytes "o"), some (bytes "la"), some (bytes "0"), none]] := by
    decide +kernel
  rw [hline, Option.bind_some, hrow] at hread
  cases hread

end SafeKiddo
