import SafeKiddo.Lib.CharRegex
import SafeKiddo.TypedIntegerInput

/-!
# The custom settings file

`loadCustomSettingsMap` of `admissionControlContainer.cpp`: each line of the file has to match a
regular expression, then the address and two limits are extracted from a stream, and an address may
be listed once. `inet_pton` is a parameter, and so is what an uninitialized variable holds.

Results:
1. `lineRegex_rmatch_iff`, `denotes_unique`: a line is cut in one way.
2. `readLine_eq`: what a round of the loop does with a line of three words.
3. `loadLines_ok`, `loadLines_succeeds`: what the loop does with such lines.
4. `loadCustomSettingsMap_exact_iff`: which files are parsed as they should be.
-/

namespace SafeKiddo

open ByteString RegularExpression

/-! ## 1. The code -/

/-- Why a file is refused, with what is logged: the number of the line, and the line or its
address. -/
inductive LoadError
  | parsingFailed (lineNum : Nat) (line : Bytes)
  | cannotParseIp (lineNum : Nat) (ipString : Bytes)
  | duplicateIp (lineNum : Nat) (ipString : Bytes)
  | cannotOpen
  deriving DecidableEq

/-- `std::istringstream` -/
structure IStream where
  rest : Bytes
  fail : Bool

namespace IStream

/-- `stream >> s` -/
def extractString (stream : IStream) : Bytes × IStream :=
  let word := TypedInteger.extractWord stream.rest
  (word, ⟨(stream.rest.dropWhile isspace).dropWhile (!isspace ·), word = []⟩)

/-- `stream >> n` for a `uint32_t` that holds `old`. A failed stream leaves it alone, and a number
that does not fit becomes the largest one. Signs do not get past the regular expression. -/
def extractUInt32 (stream : IStream) (old : UInt32) : UInt32 × IStream :=
  let text := stream.rest.dropWhile isspace
  let digits := text.takeWhile isdigit
  if stream.fail ∨ text = [] then (old, { stream with fail := true })
  else if digits = [] then (0, ⟨text, true⟩)
  else if decimal digits < 2 ^ 32 then
    (UInt32.ofNat (decimal digits), ⟨text.dropWhile isdigit, false⟩)
  else (4294967295, ⟨text.dropWhile isdigit, true⟩)

end IStream

abbrev CustomSettingsMap := Std.TreeMap In6Addr CustomSettings

structure LoadParams where
  inetPton : InetPton
  /-- What the two limits hold in a round before they are extracted. -/
  uninitialized : Nat → UInt32 × UInt32

namespace AdmissionControlContainer

/-- `[0-9.:]+\s[0-9]+\s[0-9]+` -/
def lineRegex : RegularExpression Byte :=
  oneOrMore (charClass (bytes "0123456789.:")) * charClass (bytes " \t\n\x0b\x0c\r") *
    oneOrMore (charClass (bytes "0123456789")) * charClass (bytes " \t\n\x0b\x0c\r") *
    oneOrMore (charClass (bytes "0123456789"))

/-- What `std::getline` reads: an end of line at the end of the file begins no further line. -/
def fileLines (content : Bytes) : List Bytes :=
  let lines := content.splitOn (chr '\n')
  if lines.getLast? = some [] then lines.dropLast else lines

/-- One round of the loop. -/
def readLine (params : LoadParams) (lineNum : Nat) (line : Bytes)
    (newCustomSettingsMap : CustomSettingsMap) : Except LoadError CustomSettingsMap :=
  if !lineRegex.rmatch line then .error (.parsingFailed lineNum line)
  else
    let (ipString, stream) := IStream.extractString ⟨line, false⟩
    match stringToIp params.inetPton ipString with
    | none => .error (.cannotParseIp lineNum ipString)
    | some ip =>
      let (connectionLimitAbsolute, stream) :=
        stream.extractUInt32 (params.uninitialized lineNum).1
      let (connectionLimitSlowDown, _) := stream.extractUInt32 (params.uninitialized lineNum).2
      let (present, newCustomSettingsMap) := newCustomSettingsMap.containsThenInsertIfNew ip
        ⟨connectionLimitAbsolute, connectionLimitSlowDown⟩
      if present then .error (.duplicateIp lineNum ipString) else .ok newCustomSettingsMap

/-- The loop, behind the line `lineNum`. -/
def loadLines (params : LoadParams) : Nat → List Bytes → CustomSettingsMap →
    Except LoadError CustomSettingsMap
  | _, [], newCustomSettingsMap => .ok newCustomSettingsMap
  | lineNum, line :: lines, newCustomSettingsMap => do
    let newCustomSettingsMap ← readLine params (lineNum + 1) line newCustomSettingsMap
    loadLines params (lineNum + 1) lines newCustomSettingsMap

/-- The new map, before it is swapped in. A file that cannot be opened is `none`. -/
def parseFile (params : LoadParams) : Option Bytes → Except LoadError CustomSettingsMap
  | none => .error .cannotOpen
  | some content => loadLines params 0 (fileLines content) ∅

def loadCustomSettingsMap (self : AdmissionControlContainer) (params : LoadParams)
    (file : Option Bytes) : Bool × AdmissionControlContainer :=
  match parseFile params file with
  | .ok newCustomSettingsMap => (true, { self with customSettingsMap := newCustomSettingsMap })
  | .error _ => (false, self)

end AdmissionControlContainer

/-! ## 2. What a file says -/

open AdmissionControlContainer

/-- A line: an address with what `inet_pton` makes of it, and two numbers of any size. -/
structure SettingsEntry where
  address : Bytes
  ip : In6Addr
  absolute : Nat
  slowDown : Nat

/-- A decimal number. -/
structure IsNumber (text : Bytes) (n : Nat) : Prop where
  ne_nil : text ≠ []
  digits : ∀ c ∈ text, isdigit c = true
  value : decimal text = n

namespace SettingsEntry

/-- The line is an address, one whitespace character, a decimal number, one whitespace character
and a decimal number. -/
def Says (inetPton : InetPton) (line : Bytes) (e : SettingsEntry) : Prop :=
  stringToIp inetPton e.address = some e.ip ∧ ∃ blank a blank' b,
    line = e.address ++ blank :: (a ++ blank' :: b) ∧ isspace blank = true ∧
    isspace blank' = true ∧ IsNumber a e.absolute ∧ IsNumber b e.slowDown

/-- Both numbers fit in a `uint32_t`. -/
def Fits (e : SettingsEntry) : Prop := e.absolute < 2 ^ 32 ∧ e.slowDown < 2 ^ 32

instance (e : SettingsEntry) : Decidable e.Fits := by
  unfold Fits; infer_instance

/-- The address has digits, dots and colons only. -/
def Plain (e : SettingsEntry) : Prop :=
  e.address ≠ [] ∧ ∀ c ∈ e.address, isdigit c = true ∨ c = chr '.' ∨ c = chr ':'

instance (e : SettingsEntry) : Decidable e.Plain := by
  unfold Plain; infer_instance

/-- The settings are the two numbers. -/
def Gives (e : SettingsEntry) (settings : CustomSettings) : Prop :=
  settings.connectionLimitAbsolute.toNat = e.absolute ∧
    settings.connectionLimitSlowDown.toNat = e.slowDown

end SettingsEntry

open SettingsEntry

/-- Each line says what its entry says, and no address is listed twice. -/
structure Lists (inetPton : InetPton) (content : Bytes) (entries : List SettingsEntry) : Prop where
  lines : List.Forall₂ (Says inetPton) (fileLines content) entries
  nodup : (entries.map SettingsEntry.ip).Nodup

/-! ## 3. Lines -/

namespace SettingsFileLemmas

theorem mem_digits {c : Byte} : c ∈ bytes "0123456789" ↔ isdigit c = true := by
  revert c
  decide +kernel

theorem mem_addressChars {c : Byte} :
    c ∈ bytes "0123456789.:" ↔ isdigit c = true ∨ c = chr '.' ∨ c = chr ':' := by
  revert c
  decide +kernel

theorem mem_spaces {c : Byte} : c ∈ bytes " \t\n\x0b\x0c\r" ↔ isspace c = true := by
  revert c
  decide +kernel

end SettingsFileLemmas

open SettingsFileLemmas

/-- The lines that the regular expression takes. -/
theorem lineRegex_rmatch_iff {line : Bytes} : lineRegex.rmatch line ↔ ∃ address blank a blank' b,
    line = address ++ blank :: (a ++ blank' :: b) ∧
    (address ≠ [] ∧ ∀ c ∈ address, isdigit c = true ∨ c = chr '.' ∨ c = chr ':') ∧
    isspace blank = true ∧ isspace blank' = true ∧ (a ≠ [] ∧ ∀ c ∈ a, isdigit c = true) ∧
    (b ≠ [] ∧ ∀ c ∈ b, isdigit c = true) := by
  simp only [lineRegex, mul_rmatch_iff, oneOrMore_rmatch_iff, charClass_rmatch_iff, mem_digits,
    mem_addressChars, mem_spaces]
  constructor
  · rintro ⟨_, b, rfl, ⟨_, _, rfl, ⟨_, a, rfl, ⟨address, _, rfl, haddress, blank, hblank, rfl⟩,
      ha⟩, blank', hblank', rfl⟩, hb⟩
    exact ⟨address, blank, a, blank', b, by simp, haddress, hblank, hblank', ha, hb⟩
  · rintro ⟨address, blank, a, blank', b, rfl, haddress, hblank, hblank', ha, hb⟩
    exact ⟨address ++ [blank] ++ a ++ [blank'], b, by simp,
      ⟨address ++ [blank] ++ a, [blank'], rfl, ⟨address ++ [blank], a, rfl,
        ⟨address, [blank], rfl, haddress, blank, hblank, rfl⟩, ha⟩, blank', hblank', rfl⟩, hb⟩

namespace SettingsFileLemmas

theorem isspace_of_isdigit {c : Byte} : isdigit c = true → isspace c = false := by
  revert c
  decide +kernel

theorem isspace_of_isxdigit {c : Byte} : isxdigit c = true → isspace c = false := by
  revert c
  decide +kernel

theorem isspace_plain {c : Byte} :
    isdigit c = true ∨ c = chr '.' ∨ c = chr ':' → isspace c = false := by
  revert c
  decide +kernel

theorem isspace_address {inetPton : InetPton} (hinet : inetPton.Documented) {text : Bytes}
    {ip : In6Addr} (h : stringToIp inetPton text = some ip) : ∀ c ∈ text, isspace c = false := by
  intro c hc
  rcases mem_address hinet h hc with hdigit | rfl | rfl
  · exact isspace_of_isxdigit hdigit
  · rfl
  · rfl

/-- A word and the blank behind it. -/
theorem cut_word {word rest : Bytes} {blank : Byte} (hword : ∀ c ∈ word, isspace c = false)
    (hblank : isspace blank = true) :
    (word ++ blank :: rest).takeWhile (!isspace ·) = word ∧
      (word ++ blank :: rest).dropWhile (!isspace ·) = blank :: rest := by
  have hkeep : ∀ c ∈ word, (!isspace c) = true := fun c hc => by rw [hword c hc]; rfl
  rw [List.takeWhile_append_of_pos hkeep, List.dropWhile_append_of_pos hkeep,
    List.takeWhile_cons_of_neg (by simp [hblank]), List.dropWhile_cons_of_neg (by simp [hblank])]
  exact ⟨List.append_nil word, rfl⟩

/-- A text has one first word. -/
theorem word_unique {word word' rest rest' : Bytes} {blank blank' : Byte}
    (hword : ∀ c ∈ word, isspace c = false) (hblank : isspace blank = true)
    (hword' : ∀ c ∈ word', isspace c = false) (hblank' : isspace blank' = true)
    (h : word ++ blank :: rest = word' ++ blank' :: rest') : word = word' ∧ rest = rest' := by
  have htake := congrArg (List.takeWhile (!isspace ·)) h
  have hdrop := congrArg (List.dropWhile (!isspace ·)) h
  rw [(cut_word hword hblank).1, (cut_word hword' hblank').1] at htake
  rw [(cut_word hword hblank).2, (cut_word hword' hblank').2] at hdrop
  exact ⟨htake, (List.cons.inj hdrop).2⟩

/-- No blank is skipped in front of a word. -/
theorem dropWhile_isspace {word : Bytes} (hne : word ≠ []) (hword : ∀ c ∈ word, isspace c = false)
    (rest : Bytes) : (word ++ rest).dropWhile isspace = word ++ rest := by
  obtain ⟨c, word, rfl⟩ := List.exists_cons_of_ne_nil hne
  exact List.dropWhile_cons_of_neg (by simp [hword c List.mem_cons_self])

theorem cut_digits {digits rest : Bytes} (hdigits : ∀ c ∈ digits, isdigit c = true)
    (hrest : ∀ c ∈ rest.head?, isdigit c = false) :
    (digits ++ rest).takeWhile isdigit = digits ∧ (digits ++ rest).dropWhile isdigit = rest := by
  rw [List.takeWhile_append_of_pos hdigits, List.dropWhile_append_of_pos hdigits]
  cases rest with
  | nil => exact ⟨List.append_nil digits, rfl⟩
  | cons c rest =>
    have hc := hrest c rfl
    rw [List.takeWhile_cons_of_neg (by simp [hc]), List.dropWhile_cons_of_neg (by simp [hc])]
    exact ⟨List.append_nil digits, rfl⟩

theorem isspace_number {text : Bytes} {n : Nat} (h : IsNumber text n) :
    ∀ c ∈ text, ByteString.isspace c = false := fun c hc => isspace_of_isdigit (h.digits c hc)

theorem extractString_eq {word rest : Bytes} {blank : Byte} (hne : word ≠ [])
    (hword : ∀ c ∈ word, isspace c = false) (hblank : isspace blank = true) :
    IStream.extractString ⟨word ++ blank :: rest, false⟩ = (word, ⟨blank :: rest, false⟩) := by
  rw [IStream.extractString, TypedInteger.extractWord]
  simp only [dropWhile_isspace hne hword, (cut_word hword hblank).1, (cut_word hword hblank).2, hne,
    decide_false]

/-- A number behind a blank. -/
theorem extractUInt32_eq {text rest : Bytes} {n : Nat} {blank : Byte}
    (hblank : isspace blank = true) (htext : IsNumber text n)
    (hrest : ∀ c ∈ rest.head?, isdigit c = false) (old : UInt32) :
    IStream.extractUInt32 ⟨blank :: (text ++ rest), false⟩ old =
      if n < 2 ^ 32 then (UInt32.ofNat n, ⟨rest, false⟩) else (4294967295, ⟨rest, true⟩) := by
  have hskip : (blank :: (text ++ rest)).dropWhile isspace = text ++ rest :=
    (List.dropWhile_cons_of_pos hblank).trans (dropWhile_isspace htext.ne_nil (isspace_number htext) rest)
  have hcut := cut_digits htext.digits hrest
  rw [IStream.extractUInt32]
  simp only [hskip, hcut.1, hcut.2, htext.ne_nil, htext.value, List.append_eq_nil_iff, false_and,
    Bool.false_eq_true, or_self, if_false]

end SettingsFileLemmas

/-- A line says one thing. -/
theorem says_unique {inetPton : InetPton} (hinet : inetPton.Documented) {line : Bytes}
    {e e' : SettingsEntry} (h : Says inetPton line e) (h' : Says inetPton line e') : e = e' := by
  obtain ⟨address, ip, absolute, slowDown⟩ := e
  obtain ⟨address', ip', absolute', slowDown'⟩ := e'
  obtain ⟨hip, blank, a, mid, b, rfl, hblank, hmid, ha, hb⟩ := h
  obtain ⟨hip', blank', a', mid', b', hline, hblank', hmid', ha', hb'⟩ := h'
  obtain ⟨rfl, hrest⟩ := word_unique (isspace_address hinet hip) hblank
    (isspace_address hinet hip') hblank' hline
  obtain ⟨rfl, rfl⟩ := word_unique (isspace_number ha) hmid (isspace_number ha') hmid' hrest
  obtain rfl := Option.some.inj (hip.symm.trans hip')
  obtain rfl := ha.value.symm.trans ha'.value
  obtain rfl := hb.value.symm.trans hb'.value
  rfl

/-- What a round does with a line that the regular expression takes. -/
theorem readLine_eq (params : LoadParams) (hinet : params.inetPton.Documented) {line : Bytes}
    {e : SettingsEntry} (h : Says params.inetPton line e) (hplain : e.Plain) (lineNum : Nat) :
    ∃ settings, (e.Fits → e.Gives settings) ∧ ∀ newCustomSettingsMap : CustomSettingsMap,
      readLine params lineNum line newCustomSettingsMap =
        if e.ip ∈ newCustomSettingsMap then .error (.duplicateIp lineNum e.address)
        else .ok (newCustomSettingsMap.insertIfNew e.ip settings) := by
  obtain ⟨hip, blank, a, mid, b, rfl, hblank, hmid, ha, hb⟩ := h
  have hregex : lineRegex.rmatch (e.address ++ blank :: (a ++ mid :: b)) = true :=
    lineRegex_rmatch_iff.mpr ⟨e.address, blank, a, mid, b, rfl, hplain, hblank, hmid,
      ⟨ha.ne_nil, ha.digits⟩, hb.ne_nil, hb.digits⟩
  have hword : IStream.extractString ⟨e.address ++ blank :: (a ++ mid :: b), false⟩ =
      (e.address, ⟨blank :: (a ++ mid :: b), false⟩) :=
    extractString_eq hplain.1 (isspace_address hinet hip) hblank
  have hend : ∀ c ∈ (mid :: b).head?, isdigit c = false := by
    rintro c ⟨⟩
    exact Bool.eq_false_iff.mpr fun hdigit =>
      Bool.false_ne_true ((isspace_of_isdigit hdigit).symm.trans hmid)
  let first := IStream.extractUInt32 ⟨blank :: (a ++ mid :: b), false⟩
    (params.uninitialized lineNum).1
  let second := first.2.extractUInt32 (params.uninitialized lineNum).2
  refine ⟨⟨first.1, second.1⟩, ?_, fun newCustomSettingsMap => ?_⟩
  · rintro ⟨hfirst, hsecond⟩
    have h₁ : first = (UInt32.ofNat e.absolute, ⟨mid :: b, false⟩) :=
      (extractUInt32_eq hblank ha hend _).trans (if_pos hfirst)
    have h₂ : IStream.extractUInt32 ⟨mid :: (b ++ []), false⟩ (params.uninitialized lineNum).2 =
        (UInt32.ofNat e.slowDown, ⟨[], false⟩) :=
      (extractUInt32_eq hmid hb (by simp) _).trans (if_pos hsecond)
    rw [List.append_nil] at h₂
    simp only [Gives, second, h₁, h₂]
    exact ⟨UInt32.toNat_ofNat_of_lt' hfirst, UInt32.toNat_ofNat_of_lt' hsecond⟩
  · rw [readLine, if_neg (by simp [hregex])]
    simp only [hword, hip, Std.TreeMap.containsThenInsertIfNew_fst,
      Std.TreeMap.containsThenInsertIfNew_snd, Std.TreeMap.contains_iff_mem]
    rfl

/-- A round that goes on has read such a line. -/
theorem says_of_readLine {params : LoadParams} {lineNum : Nat} {line : Bytes}
    {m m' : CustomSettingsMap} (h : readLine params lineNum line m = .ok m') :
    ∃ e, Says params.inetPton line e ∧ e.Plain := by
  unfold readLine at h
  split at h
  · cases h
  · next hregex =>
    obtain ⟨address, blank, a, mid, b, rfl, hplain, hblank, hmid, ha, hb⟩ :=
      lineRegex_rmatch_iff.mp (by simpa using hregex)
    have hword : ∀ c ∈ address, isspace c = false := fun c hc => isspace_plain (hplain.2 c hc)
    simp only [extractString_eq hplain.1 hword hblank] at h
    split at h
    · cases h
    · next ip hip =>
      exact ⟨⟨address, ip, decimal a, decimal b⟩, ⟨hip, blank, a, mid, b, rfl, hblank, hmid,
        ⟨ha.1, ha.2, rfl⟩, hb.1, hb.2, rfl⟩, hplain⟩

/-! ## 4. The loop -/

/-- What the loop has made of the entries: each is new and has settings, and nothing else is
added. -/
structure Loaded (m : CustomSettingsMap) (entries : List SettingsEntry) (m' : CustomSettingsMap) :
    Prop where
  plain : ∀ e ∈ entries, e.Plain
  nodup : (entries.map SettingsEntry.ip).Nodup
  fresh : ∀ e ∈ entries, e.ip ∉ m
  listed : ∀ e ∈ entries, ∃ settings, m'[e.ip]? = some settings ∧ (e.Fits → e.Gives settings)
  others : ∀ ip ∉ entries.map SettingsEntry.ip, m'[ip]? = m[ip]?

section Loop

variable {params : LoadParams} {lineNum : Nat} {lines : List Bytes} {m m' : CustomSettingsMap}
  {entries : List SettingsEntry}

theorem Loaded.cons {e : SettingsEntry} {settings : CustomSettings} (hplain : e.Plain)
    (hnew : e.ip ∉ m) (hgives : e.Fits → e.Gives settings)
    (h : Loaded (m.insertIfNew e.ip settings) entries m') : Loaded m (e :: entries) m' := by
  have hfresh : ∀ e' ∈ entries, e'.ip ≠ e.ip ∧ e'.ip ∉ m := by
    intro e' he'
    have hnot := h.fresh e' he'
    rw [Std.TreeMap.mem_insertIfNew, Std.compare_eq_iff_eq, not_or] at hnot
    exact ⟨Ne.symm hnot.1, hnot.2⟩
  have hone : e.ip ∉ entries.map SettingsEntry.ip := by
    intro hmem
    obtain ⟨e', he', hip⟩ := List.mem_map.mp hmem
    exact (hfresh e' he').1 hip
  refine ⟨?_, ?_, ?_, ?_, ?_⟩
  · exact List.forall_mem_cons.mpr ⟨hplain, h.plain⟩
  · exact List.nodup_cons.mpr ⟨hone, h.nodup⟩
  · exact List.forall_mem_cons.mpr ⟨hnew, fun e' he' => (hfresh e' he').2⟩
  · refine List.forall_mem_cons.mpr ⟨⟨settings, ?_, hgives⟩, h.listed⟩
    rw [h.others e.ip hone, Std.TreeMap.getElem?_insertIfNew, if_pos ⟨Std.compare_self, hnew⟩]
  · intro ip hip
    obtain ⟨hne, hip⟩ := not_or.mp fun h => hip (List.mem_cons.mpr h)
    rw [h.others ip hip, Std.TreeMap.getElem?_insertIfNew,
      if_neg fun h => hne (Std.compare_eq_iff_eq.mp h.1).symm]

/-- A loop that ends well has read such lines. -/
theorem loadLines_ok (hinet : params.inetPton.Documented)
    (h : loadLines params lineNum lines m = .ok m') :
    ∃ entries, List.Forall₂ (Says params.inetPton) lines entries ∧ Loaded m entries m' := by
  induction lines generalizing lineNum m with
  | nil =>
    cases h
    exact ⟨[], .nil, by simp, by simp, by simp, by simp, fun _ _ => rfl⟩
  | cons line lines ih =>
    rw [loadLines] at h
    cases hround : readLine params (lineNum + 1) line m with
    | error error =>
      rw [hround] at h
      cases h
    | ok next =>
      rw [hround] at h
      obtain ⟨e, hsays, hplain⟩ := says_of_readLine hround
      obtain ⟨settings, hgives, hread⟩ := readLine_eq params hinet hsays hplain (lineNum + 1)
      rw [hread] at hround
      split at hround
      · cases hround
      · next hnew =>
        cases hround
        obtain ⟨entries, hlines, hloaded⟩ := ih h
        exact ⟨e :: entries, .cons hsays hlines, hloaded.cons hplain hnew hgives⟩

/-- The loop ends well on plain addresses that are new. -/
theorem loadLines_succeeds (hinet : params.inetPton.Documented)
    (hlines : List.Forall₂ (Says params.inetPton) lines entries) (hplain : ∀ e ∈ entries, e.Plain)
    (hnodup : (entries.map SettingsEntry.ip).Nodup) (hfresh : ∀ e ∈ entries, e.ip ∉ m) :
    ∃ m', loadLines params lineNum lines m = .ok m' := by
  induction hlines generalizing lineNum m with
  | nil => exact ⟨m, rfl⟩
  | @cons line e lines entries hsays hlines ih =>
    obtain ⟨settings, -, hread⟩ := readLine_eq params hinet hsays
      (hplain e List.mem_cons_self) (lineNum + 1)
    obtain ⟨hone, hnodup⟩ := List.nodup_cons.mp hnodup
    rw [loadLines, hread, if_neg (hfresh e List.mem_cons_self)]
    refine ih (fun e' he' => hplain e' (List.mem_cons_of_mem _ he')) hnodup fun e' he' => ?_
    rw [Std.TreeMap.mem_insertIfNew, Std.compare_eq_iff_eq]
    rintro (hip | hmem)
    · exact hone (hip ▸ List.mem_map_of_mem he')
    · exact hfresh e' (List.mem_cons_of_mem _ he') hmem

end Loop

/-! ## 5. Files -/

/-- The file is loaded exactly when it lists addresses once and with numbers that fit, and then the
settings are the numbers of the file, and the defaults for every other address. -/
structure ParsedExactly (self : AdmissionControlContainer) (params : LoadParams) (content : Bytes) :
    Prop where
  loaded : (self.loadCustomSettingsMap params (some content)).1 = true ↔
    ∃ entries, Lists params.inetPton content entries ∧ ∀ e ∈ entries, e.Fits
  settings : (self.loadCustomSettingsMap params (some content)).1 = true →
    ∃ entries, Lists params.inetPton content entries ∧
      (∀ e ∈ entries, e.Gives
        ((self.loadCustomSettingsMap params (some content)).2.getSettingsForIp e.ip)) ∧
      ∀ ip ∉ entries.map SettingsEntry.ip,
        (self.loadCustomSettingsMap params (some content)).2.getSettingsForIp ip =
          ⟨self.connectionLimitAbsolute, self.connectionLimitSlowDown⟩

section Files

variable {self : AdmissionControlContainer} {params : LoadParams} {content : Bytes}

theorem lists_unique (hinet : params.inetPton.Documented) {entries entries' : List SettingsEntry}
    (h : Lists params.inetPton content entries) (h' : Lists params.inetPton content entries') :
    entries = entries' := by
  have hall : ∀ {lines : List Bytes} {entries entries' : List SettingsEntry},
      List.Forall₂ (Says params.inetPton) lines entries →
      List.Forall₂ (Says params.inetPton) lines entries' → entries = entries' := by
    intro lines entries entries' hlines
    induction hlines generalizing entries' with
    | nil => rintro ⟨⟩; rfl
    | cons hsays hlines ih =>
      rintro (_ | ⟨hsays', hlines'⟩)
      rw [says_unique hinet hsays hsays', ih hlines']
  exact hall h.lines h'.lines

/-- The file is loaded when it lists plain addresses once. -/
theorem parseFile_ok (hinet : params.inetPton.Documented) {m : CustomSettingsMap}
    (h : parseFile params (some content) = .ok m) :
    ∃ entries, Lists params.inetPton content entries ∧ Loaded ∅ entries m := by
  obtain ⟨entries, hlines, hloaded⟩ := loadLines_ok hinet h
  exact ⟨entries, ⟨hlines, hloaded.nodup⟩, hloaded⟩

theorem loadCustomSettingsMap_fst :
    (self.loadCustomSettingsMap params (some content)).1 = true ↔
      ∃ m, parseFile params (some content) = .ok m := by
  unfold loadCustomSettingsMap
  cases parseFile params (some content) with
  | ok m => exact iff_of_true rfl ⟨m, rfl⟩
  | error error => exact iff_of_false Bool.false_ne_true fun ⟨_, h⟩ => nomatch h

theorem loadCustomSettingsMap_iff (hinet : params.inetPton.Documented)
    {entries : List SettingsEntry} (h : Lists params.inetPton content entries) :
    (self.loadCustomSettingsMap params (some content)).1 = true ↔ ∀ e ∈ entries, e.Plain := by
  rw [loadCustomSettingsMap_fst]
  constructor
  · rintro ⟨m, hm⟩
    obtain ⟨entries', h', hloaded⟩ := parseFile_ok hinet hm
    rw [lists_unique hinet h h']
    exact hloaded.plain
  · intro hplain
    exact loadLines_succeeds hinet h.lines hplain h.nodup fun e _ => Std.TreeMap.not_mem_emptyc

end Files

/-- A file is parsed as it should be exactly when it does not list addresses once, or its addresses
have no letters just as its numbers fit. -/
theorem loadCustomSettingsMap_exact_iff (self : AdmissionControlContainer) (params : LoadParams)
    (hinet : params.inetPton.Documented) (content : Bytes) :
    ParsedExactly self params content ↔ ∀ entries, Lists params.inetPton content entries →
      ((∀ e ∈ entries, e.Plain) ↔ ∀ e ∈ entries, e.Fits) := by
  constructor
  · rintro ⟨hloaded, -⟩ entries hlists
    rw [← @loadCustomSettingsMap_iff self _ _ hinet _ hlists, hloaded]
    constructor
    · rintro ⟨entries', hlists', hfits⟩
      rwa [lists_unique hinet hlists hlists']
    · exact fun hfits => ⟨entries, hlists, hfits⟩
  · intro hall
    refine ⟨⟨fun h => ?_, ?_⟩, fun h => ?_⟩
    · obtain ⟨m, hm⟩ := loadCustomSettingsMap_fst.mp h
      obtain ⟨entries, hlists, hloaded⟩ := parseFile_ok hinet hm
      exact ⟨entries, hlists, (hall entries hlists).mp hloaded.plain⟩
    · rintro ⟨entries, hlists, hfits⟩
      exact (loadCustomSettingsMap_iff hinet hlists).mpr ((hall entries hlists).mpr hfits)
    · obtain ⟨m, hm⟩ := loadCustomSettingsMap_fst.mp h
      obtain ⟨entries, hlists, hloaded⟩ := parseFile_ok hinet hm
      have hfits := (hall entries hlists).mp hloaded.plain
      refine ⟨entries, hlists, fun e he => ?_, fun ip hip => ?_⟩
      · obtain ⟨settings, hget, hgives⟩ := hloaded.listed e he
        simp only [loadCustomSettingsMap, hm, getSettingsForIp, hget]
        exact hgives (hfits e he)
      · have hnone : m[ip]? = none := by
          rw [hloaded.others ip hip]
          exact Std.TreeMap.getElem?_emptyc
        simp only [loadCustomSettingsMap, hm, getSettingsForIp, hnone]

/-- One address of each family. -/
def twoPton : InetPton where
  inet text := if text = bytes "10.0.0.1" then some 0x0100000a else none
  inet6 text :=
    if text = bytes "2001:db8::ff00:42:8329" then
      some ⟨#v[0xb80d0120, 0, 0x00ff0000, 0x29834200]⟩
    else
      none

theorem twoPton_documented : twoPton.Documented where
  inet text h := by
    obtain rfl : text = bytes "10.0.0.1" := by
      by_contra hne
      simp [twoPton, hne] at h
    decide +kernel
  inet6 text h := by
    obtain rfl : text = bytes "2001:db8::ff00:42:8329" := by
      by_contra hne
      simp [twoPton, hne] at h
    decide +kernel

def twoParams : LoadParams := ⟨twoPton, fun _ => (0, 0)⟩

def tenEntry (absolute : Nat) : SettingsEntry :=
  ⟨bytes "10.0.0.1", ⟨#v[0, 0, 0xffff0000, 0x0100000a]⟩, absolute, 5⟩

/-- A line for the address. -/
theorem lists_tenEntry {content a : Bytes} {absolute : Nat} (ha : IsNumber a absolute)
    (hcontent : fileLines content = [bytes "10.0.0.1 " ++ a ++ bytes " 5"]) :
    Lists twoPton content [tenEntry absolute] := by
  refine ⟨?_, List.nodup_singleton _⟩
  rw [hcontent]
  refine .cons ⟨rfl, chr ' ', a, chr ' ', bytes "5", ?_, rfl, rfl, ha, ?_⟩ .nil
  · simp [tenEntry, show bytes "10.0.0.1 " = bytes "10.0.0.1" ++ [chr ' '] from rfl,
      show bytes " 5" = chr ' ' :: bytes "5" from rfl]
  · exact ⟨by decide, by decide +kernel, rfl⟩

theorem loadCustomSettingsMap_exact_ten :
    ParsedExactly (AdmissionControl.smallContainer 1 5) twoParams (bytes "10.0.0.1 10 5\n") := by
  have hlists : Lists twoPton (bytes "10.0.0.1 10 5\n") [tenEntry 10] :=
    @lists_tenEntry _ (bytes "10") 10 ⟨by decide, by decide +kernel, by decide⟩ (by decide +kernel)
  refine (loadCustomSettingsMap_exact_iff _ twoParams twoPton_documented _).mpr ?_
  intro entries h
  rw [← @lists_unique twoParams _ twoPton_documented _ _ hlists h]
  exact iff_of_true (by decide +kernel) (by decide +kernel)

/-- The line of an IPv6 address is refused, and a number that does not fit is taken. -/
theorem loadCustomSettingsMap_inexact :
    ¬ ParsedExactly (AdmissionControl.smallContainer 1 5) twoParams
      (bytes "2001:db8::ff00:42:8329 86 153\n") ∧
    ¬ ParsedExactly (AdmissionControl.smallContainer 1 5) twoParams
      (bytes "10.0.0.1 4294967296 5\n") := by
  constructor
  · rintro ⟨hloaded, -⟩
    have hrefused : ((AdmissionControl.smallContainer 1 5).loadCustomSettingsMap twoParams
        (some (bytes "2001:db8::ff00:42:8329 86 153\n"))).1 = false := by decide +kernel
    rw [hrefused] at hloaded
    refine Bool.false_ne_true (hloaded.mpr ⟨[⟨bytes "2001:db8::ff00:42:8329",
      ⟨#v[0xb80d0120, 0, 0x00ff0000, 0x29834200]⟩, 86, 153⟩], ⟨?_, List.nodup_singleton _⟩,
      by decide +kernel⟩)
    have hlines : fileLines (bytes "2001:db8::ff00:42:8329 86 153\n") =
        [bytes "2001:db8::ff00:42:8329 86 153"] := by decide +kernel
    rw [hlines]
    refine .cons ⟨by decide +kernel, chr ' ', bytes "86", chr ' ', bytes "153", by decide +kernel,
      rfl, rfl, ?_, ?_⟩ .nil
    · exact ⟨by decide, by decide +kernel, by decide +kernel⟩
    · exact ⟨by decide, by decide +kernel, by decide +kernel⟩
  · rintro ⟨hloaded, -⟩
    have htaken : ((AdmissionControl.smallContainer 1 5).loadCustomSettingsMap twoParams
        (some (bytes "10.0.0.1 4294967296 5\n"))).1 = true := by decide +kernel
    obtain ⟨entries, h, hfits⟩ := hloaded.mp htaken
    have hlists : Lists twoPton (bytes "10.0.0.1 4294967296 5\n") [tenEntry 4294967296] :=
      @lists_tenEntry _ (bytes "4294967296") 4294967296
        ⟨by decide, by decide +kernel, by decide +kernel⟩ (by decide +kernel)
    rw [← @lists_unique twoParams _ twoPton_documented _ _ hlists h] at hfits
    exact absurd (hfits _ List.mem_cons_self) (by decide +kernel)

end SafeKiddo
