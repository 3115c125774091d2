import SafeKiddo.UrlNormalization

/-!
# The parts of a url

`splitUrl` and `splitPathAndQueryString` cut a url into five parts, and `joinUrlParts` puts such parts
together. The two are inverse to each other on the parts of a url, and on nothing more than they
promise about the parts.

Results:
1. `splitPathAndQueryString_query`, `joinParams_eq`: the params are the query cut at every `&`.
2. `splitParts_joinParts`: well-formed parts are read back from the joined url.
3. `wellFormed_splitParts`: the parts of any url are well formed.
4. `splitParts_roundTrip`: a joined url is the url with its missing slash.
-/

namespace SafeKiddo

open ByteString UrlNormalizationLemmas

/-! ## 1. Params -/

namespace UrlPartsLemmas

/-- The loop cuts what follows the delimiter at every `&`. -/
theorem paramsFrom_eq (pre : Bytes) (delim : Byte) (query : Bytes) :
    paramsFrom (pre ++ delim :: query) pre.length = query.splitOn (chr '&') := by
  induction hn : query.length using Nat.strong_induction_on generalizing pre delim query with
  | h n ih =>
    have hdelim : pre ++ delim :: query = (pre ++ [delim]) ++ query := by simp
    have hlen : pre.length + 1 = (pre ++ [delim]).length := by simp
    have hfind : find (pre ++ delim :: query) (chr '&') (pre.length + 1) =
        (find query (chr '&') 0).map ((pre ++ [delim]).length + ·) := by
      rw [hdelim, hlen]
      exact find_append_length _ _ _ 0
    rw [paramsFrom]
    split
    · next hnone =>
      rw [hfind, Option.map_eq_none_iff] at hnone
      have hmem : chr '&' ∉ query := by
        intro hmem
        obtain ⟨a, b, rfl, ha⟩ := List.eq_append_cons_of_mem hmem
        rw [find_append ha] at hnone
        cases hnone
      rw [List.splitOn_eq_singleton hmem, hdelim, hlen, substr_rest]
    · next nextDelimPos hsome =>
      rw [hfind, Option.map_eq_some_iff] at hsome
      obtain ⟨i, hi, rfl⟩ := hsome
      obtain ⟨param, rest, rfl, hparam, rfl⟩ := find_eq_some hi
      have hcut : substr (pre ++ delim :: (param ++ chr '&' :: rest)) (pre.length + 1)
          (some ((pre ++ [delim]).length + param.length - pre.length - 1)) = param := by
        rw [hdelim, hlen, Nat.sub_sub, hlen, Nat.add_sub_cancel_left]
        exact (substr_append_length (pre ++ [delim]) _ 0 _).trans (substr_front _ _)
      have hnext : pre ++ delim :: (param ++ chr '&' :: rest) =
          (pre ++ delim :: param) ++ chr '&' :: rest := by simp
      have hpos : (pre ++ [delim]).length + param.length = (pre ++ delim :: param).length := by
        simp only [List.length_append, List.length_cons, List.length_nil]
        ac_rfl
      have hshort : rest.length < n := by
        rw [← hn, List.length_append, List.length_cons]
        exact Nat.lt_of_lt_of_le (Nat.lt_succ_self _) (Nat.le_add_left _ _)
      rw [hcut, hpos, hnext, ih rest.length hshort _ _ rest rfl,
        List.splitOn_append_cons_self_of_not_mem hparam]

end UrlPartsLemmas

open UrlPartsLemmas

theorem splitPathAndQueryString_path {path : Bytes} (h : chr '?' ∉ path) :
    splitPathAndQueryString path = (path, []) := by
  rw [splitPathAndQueryString, find_eq_none (n := 0) h]

theorem splitPathAndQueryString_query {path : Bytes} (h : chr '?' ∉ path) (query : Bytes) :
    splitPathAndQueryString (path ++ chr '?' :: query) = (path, query.splitOn (chr '&')) := by
  rw [splitPathAndQueryString, find_append h]
  simp only [substr_front, paramsFrom_eq]

theorem joinParams_eq (delim : Byte) {params : List Bytes} (h : params ≠ []) :
    joinParams delim params = delim :: [chr '&'].intercalate params := by
  induction params generalizing delim with
  | nil => exact absurd rfl h
  | cons param params ih =>
    cases params with
    | nil => simp [joinParams]
    | cons next params =>
      rw [joinParams, ih (chr '&') (List.cons_ne_nil _ _), List.intercalate_cons_cons]
      simp

theorem mem_joinParams {delim x : Byte} {params : List Bytes} (h : x ∈ joinParams delim params) :
    x = delim ∨ x = chr '&' ∨ ∃ param ∈ params, x ∈ param := by
  induction params generalizing delim with
  | nil => exact absurd h List.not_mem_nil
  | cons param params ih =>
    rw [joinParams, List.cons_append, List.mem_cons, List.mem_append] at h
    rcases h with rfl | h | h
    · exact .inl rfl
    · exact .inr (.inr ⟨param, List.mem_cons_self, h⟩)
    · rcases ih h with rfl | rfl | ⟨param', hmem, hx⟩
      · exact .inr (.inl rfl)
      · exact .inr (.inl rfl)
      · exact .inr (.inr ⟨param', List.mem_cons_of_mem _ hmem, hx⟩)

theorem mem_joinParams_of_mem {delim x : Byte} {params : List Bytes} {param : Bytes}
    (hparam : param ∈ params) (hx : x ∈ param) : x ∈ joinParams delim params := by
  induction params generalizing delim with
  | nil => exact absurd hparam List.not_mem_nil
  | cons first params ih =>
    rw [joinParams, List.cons_append, List.mem_cons, List.mem_append]
    rcases List.mem_cons.mp hparam with rfl | hparam
    · exact .inr (.inl hx)
    · exact .inr (.inr (ih hparam))

/-! ## 2. Five parts -/

/-- What `splitUrl` and `splitPathAndQueryString` make of a url, and `joinUrlParts` takes. -/
structure SplitParts where
  protocolSpecification : Bytes
  hostNameWithOptPort : Bytes
  path : Bytes
  params : List Bytes
  fragmentId : Bytes
  deriving DecidableEq

def splitParts (url : Bytes) : SplitParts :=
  let parts := splitUrl url
  let (path, params) := splitPathAndQueryString parts.pathAndQueryString
  ⟨parts.protocolSpecification, parts.hostNameWithOptPort, path, params, parts.fragmentId⟩

def joinParts (p : SplitParts) : Bytes :=
  joinUrlParts p.protocolSpecification p.hostNameWithOptPort p.path p.params p.fragmentId

/-- The protocol is a scheme, or there is none and the rest does not look like one. -/
def ProtocolOk (protocol rest : Bytes) : Prop :=
  (∃ scheme, isValidUriScheme scheme = true ∧ protocol = scheme ++ bytes "://") ∨
  (protocol = [] ∧ ∀ scheme more, isValidUriScheme scheme = true →
    rest ≠ scheme ++ bytes "://" ++ more)

/-- What holds of the parts of a url. -/
structure WellFormed (p : SplitParts) : Prop where
  protocol : ProtocolOk p.protocolSpecification (p.hostNameWithOptPort ++ p.path)
  host : ∀ c ∈ p.hostNameWithOptPort, c ≠ chr '/' ∧ c ≠ chr '?' ∧ c ≠ chr '#'
  path_head : p.path.head? = some (chr '/')
  path : ∀ c ∈ p.path, c ≠ chr '?' ∧ c ≠ chr '#'
  params : ∀ param ∈ p.params, ∀ c ∈ param, c ≠ chr '&' ∧ c ≠ chr '#'
  fragment : ∀ c ∈ p.fragmentId.head?, c = chr '#'

namespace UrlPartsLemmas

/-- A scheme in front of a rooted path ends the host with a colon. -/
theorem scheme_of_host_path {host t scheme more : Bytes} (hhost : chr '/' ∉ host)
    (hscheme : isValidUriScheme scheme = true)
    (h : host ++ chr '/' :: t = scheme ++ bytes "://" ++ more) :
    host = scheme ++ [chr ':'] ∧ t = chr '/' :: more := by
  have hnot : chr '/' ∉ scheme ++ [chr ':'] := by
    intro hmem
    rcases List.mem_append.mp hmem with hmem | hmem
    · exact absurd (List.all_eq_true.mp hscheme _ hmem) (by decide)
    · exact absurd hmem (by decide)
  have hurl : scheme ++ bytes "://" ++ more =
      (scheme ++ [chr ':']) ++ chr '/' :: chr '/' :: more := by
    rw [List.append_assoc, List.append_assoc]
    rfl
  rw [hurl] at h
  have hfind := congrArg (find · (chr '/') 0) h
  simp only [find_append hhost, find_append hnot, Option.some.injEq] at hfind
  obtain ⟨hh, ht⟩ := List.append_inj h hfind
  exact ⟨hh, (List.cons.inj ht).2⟩

/-- Where the protocol of a url ends, and that no scheme begins a url without protocol. -/
theorem protocolOk_take (url : Bytes) :
    ProtocolOk (url.take (startPosWithoutProtocol url)) (withoutProtocol url) := by
  rcases startPos_cases url with h0 | ⟨scheme, more, hscheme, rfl⟩
  · refine .inr ⟨by rw [h0, List.take_zero], ?_⟩
    intro scheme more hscheme hurl
    rw [withoutProtocol, h0, List.drop_zero] at hurl
    rw [hurl, startPos_scheme hscheme, List.length_append] at h0
    exact absurd (Nat.eq_zero_of_add_eq_zero_left h0) (by decide)
  · rw [startPos_scheme hscheme, List.take_left]
    exact .inl ⟨scheme, hscheme, rfl⟩

/-- A protocol that is well formed is found again, whatever follows the path. -/
theorem startPos_of_protocolOk {protocol host t rest : Bytes} (hhost : chr '/' ∉ host)
    (h : ProtocolOk protocol (host ++ chr '/' :: t)) (hrest : chr '/' ∉ rest.head?) :
    startPosWithoutProtocol (protocol ++ (host ++ chr '/' :: (t ++ rest))) = protocol.length := by
  rcases h with ⟨scheme, hscheme, rfl⟩ | ⟨rfl, hno⟩
  · exact startPos_scheme hscheme _
  · rw [List.nil_append]
    rcases startPos_cases (host ++ chr '/' :: (t ++ rest)) with h0 | ⟨scheme, more, hscheme, hurl⟩
    · exact h0
    · obtain ⟨rfl, ht⟩ := scheme_of_host_path hhost hscheme hurl
      cases t with
      | nil =>
        rw [List.nil_append] at ht
        exact absurd (by rw [ht]; exact rfl) hrest
      | cons c t =>
        obtain ⟨rfl, rfl⟩ := List.cons.inj ht
        refine absurd ?_ (hno scheme t hscheme)
        rw [List.append_assoc, List.append_assoc]
        rfl

/-- A text before the first delimiter, and what begins with it. -/
theorem takeWhile_ne_append {a b : Bytes} {c : Byte} (ha : c ∉ a) (hb : ∀ x ∈ b.head?, x = c) :
    (a ++ b).takeWhile (· ≠ c) = a ∧ (a ++ b).dropWhile (· ≠ c) = b := by
  rw [List.takeWhile_append_of_pos (keep_of_notMem ha),
    List.dropWhile_append_of_pos (keep_of_notMem ha)]
  cases b with
  | nil => exact ⟨List.append_nil a, rfl⟩
  | cons x b =>
    rw [hb x rfl]
    simp

end UrlPartsLemmas

/-! ## 3. Splitting what was joined -/

section RoundTrip

variable {p : SplitParts}

/-- The text behind the path. -/
def queryAndFragment (p : SplitParts) : Bytes := joinParams (chr '?') p.params ++ p.fragmentId

theorem WellFormed.slash_notMem_host (h : WellFormed p) : chr '/' ∉ p.hostNameWithOptPort :=
  fun hmem => (h.host _ hmem).1 rfl

theorem WellFormed.hash_notMem_params (h : WellFormed p) :
    chr '#' ∉ joinParams (chr '?') p.params := by
  intro hmem
  rcases mem_joinParams hmem with hq | ha | ⟨param, hparam, hx⟩
  · exact absurd hq (by decide)
  · exact absurd ha (by decide)
  · exact (h.params param hparam _ hx).2 rfl

theorem WellFormed.head?_queryAndFragment (h : WellFormed p) :
    ∀ c ∈ (queryAndFragment p).head?, c = chr '?' ∨ c = chr '#' := by
  intro c hc
  unfold queryAndFragment at hc
  cases hparams : p.params with
  | nil =>
    rw [hparams] at hc
    exact .inr (h.fragment c hc)
  | cons param params =>
    rw [hparams] at hc
    cases hc
    exact .inl rfl

theorem splitPathAndQueryString_joinParams (h : WellFormed p) :
    splitPathAndQueryString (p.path ++ joinParams (chr '?') p.params) = (p.path, p.params) := by
  have hpath : chr '?' ∉ p.path := fun hmem => (h.path _ hmem).1 rfl
  rcases eq_or_ne p.params [] with hnil | hne
  · rw [hnil, joinParams, List.append_nil, splitPathAndQueryString_path hpath]
  · rw [joinParams_eq _ hne, splitPathAndQueryString_query hpath,
      List.splitOn_intercalate _ (fun param hparam hmem => (h.params param hparam _ hmem).1 rfl) hne]

/-- Well-formed parts are read back. -/
theorem splitParts_joinParts (h : WellFormed p) : splitParts (joinParts p) = p := by
  obtain ⟨t, ht⟩ := List.head?_eq_some_iff.mp h.path_head
  have hjoin : joinParts p = p.protocolSpecification ++
      (p.hostNameWithOptPort ++ chr '/' :: (t ++ queryAndFragment p)) := by
    simp [joinParts, joinUrlParts, queryAndFragment, ht]
  have hrest : chr '/' ∉ (queryAndFragment p).head? := by
    intro hmem
    rcases h.head?_queryAndFragment _ hmem with he | he <;> exact absurd he (by decide)
  have hstart := startPos_of_protocolOk h.slash_notMem_host (ht ▸ h.protocol) hrest
  have hhost : ∀ c ∈ p.hostNameWithOptPort, isHostEnd c = false := fun c hc => by
    obtain ⟨h1, h2, h3⟩ := h.host c hc
    simp [isHostEnd, h1, h2, h3]
  have hsplit := splitUrl_of_parts hstart hhost (by rintro c ⟨⟩; decide)
  rw [withSlash_slash] at hsplit
  have hcut := @takeWhile_ne_append (p.path ++ joinParams (chr '?') p.params) p.fragmentId (chr '#')
    (fun hmem => by
      rcases List.mem_append.mp hmem with hmem | hmem
      · exact (h.path _ hmem).2 rfl
      · exact h.hash_notMem_params hmem) h.fragment
  have hwhole : chr '/' :: (t ++ queryAndFragment p) =
      (p.path ++ joinParams (chr '?') p.params) ++ p.fragmentId := by
    simp [queryAndFragment, ht]
  rw [hwhole, hcut.1, hcut.2] at hsplit
  rw [splitParts, hjoin, hwhole, hsplit]
  simp only [splitPathAndQueryString_joinParams h]

/-! ## 4. The parts of any url -/

theorem joinParams_splitPathAndQueryString (s : Bytes) :
    (splitPathAndQueryString s).1 ++ joinParams (chr '?') (splitPathAndQueryString s).2 = s ∧
      chr '?' ∉ (splitPathAndQueryString s).1 ∧
      ∀ param ∈ (splitPathAndQueryString s).2, chr '&' ∉ param := by
  rcases Decidable.em (chr '?' ∈ s) with hmem | hmem
  · obtain ⟨path, query, rfl, hpath⟩ := List.eq_append_cons_of_mem hmem
    rw [splitPathAndQueryString_query hpath]
    refine ⟨?_, hpath, fun param hparam hm =>
      (PathState.mem_of_mem_splitOn hparam hm).2 rfl⟩
    rw [joinParams_eq _ (List.splitOn_ne_nil _ _), List.intercalate_splitOn]
  · rw [splitPathAndQueryString_path hmem]
    exact ⟨List.append_nil s, hmem, nofun⟩

theorem joinParts_splitParts (url : Bytes) :
    joinParts (splitParts url) = url.take (startPosWithoutProtocol url) ++
      (((withoutProtocol url).takeWhile fun c => !isHostEnd c) ++ fixedTail url) := by
  have hparams := (joinParams_splitPathAndQueryString (splitUrl url).pathAndQueryString).1
  have htail : (splitUrl url).pathAndQueryString ++ (splitUrl url).fragmentId = fixedTail url := by
    rw [splitUrl_eq]
    exact List.takeWhile_append_dropWhile
  rw [← htail, ← hparams]
  simp only [joinParts, joinUrlParts, splitParts, splitUrl_eq, List.append_assoc]

theorem splitParts_protocolOk (url : Bytes) :
    ProtocolOk (splitParts url).protocolSpecification
      ((splitParts url).hostNameWithOptPort ++ (splitParts url).path) := by
  have hprotocol : (splitParts url).protocolSpecification =
      url.take (startPosWithoutProtocol url) := by
    simp only [splitParts, splitUrl_eq]
  have hhost : (splitParts url).hostNameWithOptPort =
      (withoutProtocol url).takeWhile fun c => !isHostEnd c := by
    simp only [splitParts, splitUrl_eq]
  have hslash : chr '/' ∉ (splitParts url).hostNameWithOptPort := by
    rw [hhost]
    exact slash_notMem_host isHostEnd_takeWhile
  rw [hprotocol]
  rcases protocolOk_take url with hscheme | ⟨hnone, hno⟩
  · exact .inl hscheme
  · refine .inr ⟨hnone, ?_⟩
    intro scheme more hscheme hlooks
    -- Such a path begins the rest of the url as it is: an inserted slash is followed by no slash.
    have htail : (splitParts url).path ++ queryAndFragment (splitParts url) = fixedTail url := by
      have hjoin := joinParts_splitParts url
      rw [joinParts, joinUrlParts, hprotocol, hhost, List.append_assoc, List.append_assoc,
        List.append_assoc] at hjoin
      exact List.append_cancel_left (List.append_cancel_left hjoin)
    have hsplit : (splitParts url).hostNameWithOptPort ++
        ((withoutProtocol url).dropWhile fun c => !isHostEnd c) = withoutProtocol url := by
      rw [hhost, List.takeWhile_append_dropWhile]
    obtain ⟨t, ht⟩ : ∃ t, fixedTail url = chr '/' :: t :=
      List.head?_eq_some_iff.mp (head?_withSlash _)
    have hwhole : (splitParts url).hostNameWithOptPort ++ chr '/' :: t =
        scheme ++ bytes "://" ++ (more ++ queryAndFragment (splitParts url)) := by
      rw [← ht, ← htail, ← List.append_assoc, hlooks, List.append_assoc]
    obtain ⟨-, rfl⟩ := scheme_of_host_path hslash hscheme hwhole
    have hkeep : fixedTail url = (withoutProtocol url).dropWhile fun c => !isHostEnd c := by
      unfold fixedTail withSlash
      split
      · rfl
      · next hne =>
        unfold fixedTail withSlash at ht
        rw [if_neg hne] at ht
        exact absurd (by rw [(List.cons.inj ht).2]; rfl) hne
    rw [ht] at hkeep
    refine hno scheme (more ++ queryAndFragment (splitParts url)) hscheme ?_
    rw [← hsplit, ← hkeep, hwhole]

/-- The parts of any url are well formed. -/
theorem wellFormed_splitParts (url : Bytes) : WellFormed (splitParts url) := by
  obtain ⟨hjoin, hquestion, hparams⟩ :=
    joinParams_splitPathAndQueryString (splitUrl url).pathAndQueryString
  have hhead := head?_pathAndQueryString url
  have hhash : chr '#' ∉ (splitUrl url).pathAndQueryString := by
    intro hmem
    rw [splitUrl_eq] at hmem
    simpa using List.mem_takeWhile_imp hmem
  refine ⟨splitParts_protocolOk url, fun c hc => ?_, ?_, fun c hc => ⟨?_, ?_⟩,
    fun param hparam c hc => ⟨?_, ?_⟩, fun c hc => ?_⟩
  · simp only [splitParts, splitUrl_eq] at hc
    simpa [isHostEnd, and_assoc] using isHostEnd_takeWhile c hc
  · show (splitPathAndQueryString (splitUrl url).pathAndQueryString).1.head? = some (chr '/')
    cases hpath : (splitPathAndQueryString (splitUrl url).pathAndQueryString).1 with
    | nil =>
      rw [hpath, List.nil_append] at hjoin
      rw [← hjoin] at hhead
      cases hquery : (splitPathAndQueryString (splitUrl url).pathAndQueryString).2 with
      | nil =>
        rw [hquery] at hhead
        cases hhead
      | cons param params =>
        rw [hquery] at hhead
        cases hhead
    | cons c path =>
      rw [← hjoin, hpath] at hhead
      cases hhead
      rfl
  · rintro rfl
    exact hquestion hc
  · rintro rfl
    exact hhash (hjoin ▸ List.mem_append_left _ hc)
  · rintro rfl
    exact hparams param hparam hc
  · rintro rfl
    exact hhash (hjoin ▸ List.mem_append_right _ (mem_joinParams_of_mem hparam hc))
  · simp only [splitParts, splitUrl_eq] at hc
    have hfirst := List.head?_dropWhile_not (· ≠ chr '#') (fixedTail url)
    rw [hc] at hfirst
    simpa using hfirst

/-! ## 5. Round trips -/

/-- A slash follows the protocol before any question mark and any number sign. -/
def SlashFirst (url : Bytes) : Prop :=
  ∃ a b, url = (splitParts url).protocolSpecification ++ (a ++ chr '/' :: b) ∧
    ∀ c ∈ a, c ≠ chr '?' ∧ c ≠ chr '#'

/-- What splitting and joining do to a url. -/
structure RoundTrip (url : Bytes) : Prop where
  same : SlashFirst url → joinParts (splitParts url) = url
  /-- The slash is put before the first question mark or number sign, or at the end. -/
  inserted : ¬ SlashFirst url → ∃ a b,
    url = (splitParts url).protocolSpecification ++ (a ++ b) ∧
    (∀ c ∈ a, c ≠ chr '?' ∧ c ≠ chr '#') ∧ (∀ c ∈ b.head?, c = chr '?' ∨ c = chr '#') ∧
    joinParts (splitParts url) =
      (splitParts url).protocolSpecification ++ (a ++ chr '/' :: b)
  again : splitParts (joinParts (splitParts url)) = splitParts url
  parts : WellFormed (splitParts url)

theorem splitParts_roundTrip (url : Bytes) : RoundTrip url := by
  have hprotocol : (splitParts url).protocolSpecification =
      url.take (startPosWithoutProtocol url) := by
    simp only [splitParts, splitUrl_eq]
  have hurl : url = (splitParts url).protocolSpecification ++ withoutProtocol url := by
    rw [hprotocol, withoutProtocol, List.take_append_drop]
  have hjoin := joinParts_splitParts url
  rw [← hprotocol] at hjoin
  have hsplit := @List.takeWhile_append_dropWhile _ (fun c => !isHostEnd c) (withoutProtocol url)
  have hhost : ∀ c ∈ (withoutProtocol url).takeWhile fun c => !isHostEnd c,
      c ≠ chr '/' ∧ c ≠ chr '?' ∧ c ≠ chr '#' := fun c hc => by
    simpa [isHostEnd, and_assoc] using isHostEnd_takeWhile c hc
  have htail := @isHostEnd_dropWhile (withoutProtocol url)
  have hfirst : ((withoutProtocol url).dropWhile fun c => !isHostEnd c).head? = some (chr '/') →
      SlashFirst url := by
    intro hslash
    obtain ⟨rest, hrest⟩ := List.head?_eq_some_iff.mp hslash
    rw [hrest] at hsplit
    exact ⟨_, rest, by rw [hsplit]; exact hurl, fun c hc => (hhost c hc).2⟩
  refine ⟨?_, ?_, splitParts_joinParts (wellFormed_splitParts url), wellFormed_splitParts url⟩
  · rintro ⟨a, b, hab, ha⟩
    have hrest : withoutProtocol url = a ++ chr '/' :: b :=
      List.append_cancel_left (hurl.symm.trans hab)
    -- The host ends at a slash: only slashes end it within `a`.
    have hslash : ((withoutProtocol url).dropWhile fun c => !isHostEnd c).head? =
        some (chr '/') := by
      rw [hrest]
      clear hrest hab hjoin hsplit hhost htail
      induction a with
      | nil => rfl
      | cons c a ih =>
        have hrec := ih fun d hd => ha d (List.mem_cons_of_mem _ hd)
        obtain ⟨hq, hh⟩ := ha c List.mem_cons_self
        rcases eq_or_ne c (chr '/') with rfl | hne
        · rfl
        · have hno : isHostEnd c = false := by simp [isHostEnd, hne, hq, hh]
          rw [List.cons_append, List.dropWhile_cons_of_pos (by rw [hno]; rfl)]
          exact hrec
    rw [hjoin, fixedTail, withSlash, if_pos hslash, hsplit]
    exact hurl.symm
  · intro hno
    refine ⟨_, _, by rw [hsplit]; exact hurl, fun c hc => (hhost c hc).2, fun c hc => ?_, ?_⟩
    · rcases isHostEnd_iff.mp (htail c hc) with rfl | hmem
      · exact absurd (hfirst hc) hno
      · simpa [show bytes "?#" = [chr '?', chr '#'] from rfl] using hmem
    · rw [hjoin, fixedTail, withSlash, if_neg fun hslash => hno (hfirst hslash)]

example : splitParts (bytes "http://a.pl?q&&r#t") =
    ⟨bytes "http://", bytes "a.pl", bytes "/", [bytes "q", [], bytes "r"], bytes "#t"⟩ := by
  decide +kernel

end RoundTrip

end SafeKiddo
