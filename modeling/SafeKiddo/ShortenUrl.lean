import SafeKiddo.UrlNormalization

/-!
# Shortened urls

The worker cuts a url at 512 bytes before it normalizes it. The verdict of a url pattern is the same
for the cut url only where normalization does not reach across the cut: no escape is split by it,
and no two dots behind it step back over it. Behind a question mark nothing is normalized.

Results:
1. `startPos_take`, `hostName_cut`: the protocol and the host name survive a cut behind them.
2. `decodedPath_cut`: a cut that splits no escape splits the decoded path.
3. `normalPath_cut`: behind a clean cut the normal form of the path continues that of the cut url.
4. `shortenUrl_verdict`: the verdicts that do not change, and exactly when the rules with a path
   agree.
-/

namespace SafeKiddo

open ByteString UrlNormalizationLemmas

/-- The pattern of an address matches the normal form of a url. -/
def verdict (address url : Bytes) : Checked Bool := do
  let pattern ← UrlPattern.createFromId address
  let normalizedUrl ← normalizeUrl url
  pattern.matchesUrl normalizedUrl

/-! ## 1. The cut and the host -/

namespace ShortenLemmas

/-- A protocol before the cut is found in the cut url, and no other one is. -/
theorem startPos_take {url : Bytes} {n : Nat} (h : startPosWithoutProtocol url ≤ n) :
    startPosWithoutProtocol (url.take n) = startPosWithoutProtocol url := by
  rcases startPos_cases url with h0 | ⟨scheme, rest, hscheme, rfl⟩
  · rcases startPos_cases (url.take n) with ht | ⟨scheme, rest, hscheme, ht⟩
    · rw [h0, ht]
    · -- A scheme of the cut url is one of the url.
      have hurl : url = scheme ++ bytes "://" ++ (rest ++ url.drop n) := by
        rw [← List.append_assoc, ← ht, List.take_append_drop]
      rw [hurl, startPos_scheme hscheme] at h0
      rw [List.length_append] at h0
      exact absurd (Nat.eq_zero_of_add_eq_zero_left h0) (by decide)
  · rw [startPos_scheme hscheme] at h ⊢
    rw [List.take_append, List.take_of_length_le h]
    exact startPos_scheme hscheme _

theorem takeWhile_append_of_exists {α : Type} {p : α → Bool} {a : List α}
    (h : ∃ x ∈ a, p x = false) (b : List α) : (a ++ b).takeWhile p = a.takeWhile p := by
  obtain ⟨x, hx, hpx⟩ := h
  induction a with
  | nil => exact nomatch hx
  | cons y a ih =>
    rw [List.cons_append, List.takeWhile_cons, List.takeWhile_cons]
    cases hy : p y with
    | false => rfl
    | true =>
      have hx' : x ∈ a := (List.mem_cons.mp hx).resolve_left fun he =>
        Bool.false_ne_true (hpx.symm.trans (he ▸ hy))
      simp only [if_true, ih hx']

theorem dropWhile_append_of_exists {α : Type} {p : α → Bool} {a : List α}
    (h : ∃ x ∈ a, p x = false) (b : List α) : (a ++ b).dropWhile p = a.dropWhile p ++ b := by
  have hsplit := @List.takeWhile_append_dropWhile _ p (a ++ b)
  rw [takeWhile_append_of_exists h] at hsplit
  refine List.append_cancel_left (hsplit.trans ?_)
  rw [← List.append_assoc, List.takeWhile_append_dropWhile]

end ShortenLemmas

open ShortenLemmas

/-- The host name ends at a slash, a question mark, a number sign or a colon. -/
def isNameEnd (c : Byte) : Bool := isHostEnd c || c = chr ':'

theorem hostName_eq (url : Bytes) :
    hostName url = (withoutProtocol url).takeWhile fun c => !isNameEnd c := by
  rw [hostName, splitUrl_eq, List.takeWhile_takeWhile]
  refine congrArg (List.takeWhile · _) (funext fun c => ?_)
  simp [isNameEnd, Bool.and_comm]

/-- The host name ends within the first 512 bytes or right behind them. -/
def NameWithin (url : Bytes) : Prop :=
  ∃ i, startPosWithoutProtocol url ≤ i ∧ i ≤ 512 ∧ ∃ c, url[i]? = some c ∧ isNameEnd c = true

/-- What the cut leaves behind the protocol. -/
theorem withoutProtocol_cut {url : Bytes} (h : startPosWithoutProtocol url ≤ 512) :
    withoutProtocol url = withoutProtocol (url.take 512) ++ url.drop 512 := by
  unfold withoutProtocol
  rw [startPos_take h]
  have hlen : startPosWithoutProtocol url ≤ (url.take 512).length := by
    rw [List.length_take]
    exact le_min h (startPos_le url)
  rw [← List.drop_append_of_le_length hlen, List.take_append_drop]

/-- The host name survives a cut behind it. -/
theorem hostName_cut {url : Bytes} (h : NameWithin url) :
    hostName (url.take 512) = hostName url := by
  obtain ⟨i, hstart, hi, c, hc, hend⟩ := h
  have hle : startPosWithoutProtocol url ≤ 512 := by omega
  rw [hostName_eq, hostName_eq, withoutProtocol_cut hle]
  have hstop : (!isNameEnd c) = false := by rw [hend]; rfl
  rcases Nat.lt_or_eq_of_le hi with hlt | rfl
  · refine (takeWhile_append_of_exists ⟨c, ?_, hstop⟩ _).symm
    unfold withoutProtocol
    rw [startPos_take hle]
    refine List.mem_of_getElem? (i := i - startPosWithoutProtocol url) ?_
    rw [List.getElem?_drop, Nat.add_sub_cancel' hstart, List.getElem?_take_of_lt hlt]
    exact hc
  · -- The name fills the bytes before the cut.
    have hdrop : url.drop 512 = c :: url.drop 513 := by
      obtain ⟨hlt, rfl⟩ := List.getElem?_eq_some_iff.mp hc
      exact List.drop_eq_getElem_cons hlt
    rw [hdrop, List.takeWhile_append, List.takeWhile_cons_of_neg (by rw [hstop]; decide),
      List.append_nil]
    split
    · next hall => exact (List.takeWhile_prefix _).eq_of_length hall
    · rfl

/-! ## 2. Decoding beyond a cut -/

/-- The path and the query of a url, decoded. -/
def decodedPath (url : Bytes) : Bytes := decodeEscapes (splitUrl url).pathAndQueryString

/-- An escape begins in `a` and ends in `b`. -/
def SplitsEscape (a b : Bytes) : Prop :=
  ∃ before start x y rest, a = before ++ chr '%' :: start ∧ start.length < 2 ∧
    start ++ b = x :: y :: rest ∧ isxdigit x ∧ isxdigit y

theorem SplitsEscape.append {a b : Bytes} (front : Bytes) (h : SplitsEscape a b) :
    SplitsEscape (front ++ a) b := by
  obtain ⟨before, start, x, y, rest, rfl, hstart⟩ := h
  exact ⟨front ++ before, start, x, y, rest, (List.append_assoc _ _ _).symm, hstart⟩

theorem SplitsEscape.of_slash {a b : Bytes} (h : SplitsEscape (chr '/' :: a) b) :
    SplitsEscape a b := by
  obtain ⟨before, start, x, y, rest, ha, hstart⟩ := h
  cases before with
  | nil => exact absurd (List.cons.inj ha).1 (by decide)
  | cons c before => exact ⟨before, start, x, y, rest, (List.cons.inj ha).2, hstart⟩

theorem SplitsEscape.of_prefix {a b c : Bytes} (hbc : b <+: c) (h : SplitsEscape a b) :
    SplitsEscape a c := by
  obtain ⟨before, start, x, y, rest, ha, hlen, hb, hxy⟩ := h
  obtain ⟨more, rfl⟩ := hbc
  refine ⟨before, start, x, y, rest ++ more, ha, hlen, ?_, hxy⟩
  rw [← List.append_assoc, hb]
  rfl

namespace ShortenLemmas

/-- An escape that is split begins with one of the last two bytes. -/
theorem not_splitsEscape {a b : Bytes} (h : chr '%' ∉ a.drop (a.length - 2)) :
    ¬ SplitsEscape a b := by
  rintro ⟨before, start, x, y, rest, rfl, hstart, -⟩
  refine h ?_
  rw [List.length_append, List.length_cons, List.drop_append_of_le_length (by omega)]
  exact List.mem_append_right _ List.mem_cons_self

theorem decodedCons_prefix {s t : Bytes} (ch : Byte) (h : s <+: t) :
    decodedCons ch s <+: decodedCons ch t := by
  unfold decodedCons
  split
  · exact List.prefix_rfl
  · exact (List.prefix_cons_inj ch).mpr h

end ShortenLemmas

/-- Text behind a cut that splits no escape is decoded behind what is decoded before. -/
theorem decodeEscapes_prefix {a b : Bytes} (h : ¬ SplitsEscape a b) :
    decodeEscapes a <+: decodeEscapes (a ++ b) := by
  induction a using decodeEscapes.induct with
  | case1 => exact List.nil_prefix
  | case2 ch x y src hesc ih =>
    show _ <+: decodeEscapes (ch :: x :: y :: (src ++ b))
    rw [decodeEscapes, decodeEscapes, if_pos hesc, if_pos hesc]
    exact decodedCons_prefix _ (ih fun hs => h (SplitsEscape.append [ch, x, y] hs))
  | case3 ch x y src hesc ih =>
    show _ <+: decodeEscapes (ch :: x :: y :: (src ++ b))
    rw [decodeEscapes, decodeEscapes, if_neg hesc, if_neg hesc]
    exact decodedCons_prefix _ (ih fun hs => h (SplitsEscape.append [ch] hs))
  | case4 ch x ih =>
    have hih := ih fun hs => h (SplitsEscape.append [ch] hs)
    cases b with
    | nil => exact List.prefix_rfl
    | cons y b =>
      show _ <+: decodeEscapes (ch :: x :: y :: b)
      have hesc : ¬ (ch = chr '%' ∧ isxdigit x ∧ isxdigit y) := by
        rintro ⟨rfl, hx, hy⟩
        exact h ⟨[], [x], x, y, b, rfl, Nat.one_lt_two, rfl, hx, hy⟩
      rw [decodeEscapes, decodeEscapes, if_neg hesc]
      exact decodedCons_prefix _ hih
  | case5 ch =>
    rcases b with _ | ⟨x, _ | ⟨y, b⟩⟩
    · exact List.prefix_rfl
    · show _ <+: decodeEscapes [ch, x]
      rw [decodeEscapes, decodeEscapes]
      exact decodedCons_prefix _ List.nil_prefix
    · show _ <+: decodeEscapes (ch :: x :: y :: b)
      have hesc : ¬ (ch = chr '%' ∧ isxdigit x ∧ isxdigit y) := by
        rintro ⟨rfl, hx, hy⟩
        exact h ⟨[], [], x, y, b, rfl, Nat.zero_lt_two, rfl, hx, hy⟩
      rw [decodeEscapes, decodeEscapes, if_neg hesc]
      exact decodedCons_prefix _ List.nil_prefix

namespace ShortenLemmas

theorem withSlash_append {a : Bytes} (ha : a ≠ []) (b : Bytes) :
    withSlash (a ++ b) = withSlash a ++ b := by
  obtain ⟨c, t, rfl⟩ := List.exists_cons_of_ne_nil ha
  by_cases hc : c = chr '/'
  · subst hc
    exact (withSlash_slash (t ++ b)).trans (congrArg (· ++ b) (withSlash_slash t).symm)
  · exact (withSlash_ne hc (t ++ b)).trans (congrArg (· ++ b) (withSlash_ne hc t).symm)

/-- The path of the url continues the path of the cut url. -/
theorem fixedTail_cut {url : Bytes} (h : startPosWithoutProtocol url ≤ 512)
    (hne : ((withoutProtocol (url.take 512)).dropWhile fun c => !isHostEnd c) ≠ []) :
    fixedTail url = fixedTail (url.take 512) ++ url.drop 512 := by
  have hex : ∃ c ∈ withoutProtocol (url.take 512), (!isHostEnd c) = false := by
    by_contra hall
    refine hne (List.dropWhile_eq_nil_iff.mpr fun c hc => ?_)
    exact (Bool.eq_false_or_eq_true _).resolve_right fun hf => hall ⟨c, hc, hf⟩
  unfold fixedTail
  rw [withoutProtocol_cut h, dropWhile_append_of_exists hex, withSlash_append hne]

/-- The slash that is put in splits no escape. -/
theorem splitsEscape_fixedTail {url b : Bytes} (h : SplitsEscape (fixedTail url) b) :
    SplitsEscape url b := by
  have hsuffix : ((withoutProtocol url).dropWhile fun c => !isHostEnd c) <:+ url :=
    (List.dropWhile_suffix _).trans (List.drop_suffix _ _)
  unfold fixedTail withSlash at h
  generalize (withoutProtocol url).dropWhile (fun c => !isHostEnd c) = tail at h hsuffix
  obtain ⟨front, rfl⟩ := hsuffix
  split at h
  · exact h.append front
  · exact h.of_slash.append front

end ShortenLemmas

/-- The decoded path begins with a slash and has no zero byte. -/
theorem decodedPath_cons (url : Bytes) : ∃ tail, decodedPath url = chr '/' :: tail ∧ 0 ∉ tail := by
  have hhead := head?_pathAndQueryString url
  have hzero := zero_notMem_decodeEscapes (splitUrl url).pathAndQueryString
  unfold decodedPath
  cases hp : (splitUrl url).pathAndQueryString with
  | nil => rw [hp] at hhead; cases hhead
  | cons c tail =>
    rw [hp] at hhead hzero
    cases hhead
    rw [decodeEscapes_of_ne (by decide), decodedCons_of_ne (by decide)] at hzero ⊢
    exact ⟨_, rfl, fun hm => hzero (List.mem_cons_of_mem _ hm)⟩

/-- The decoded path of the cut url begins the decoded path of the url. -/
theorem decodedPath_cut {url : Bytes} (h : startPosWithoutProtocol url ≤ 512)
    (hesc : ¬ SplitsEscape (url.take 512) (url.drop 512)) :
    decodedPath (url.take 512) <+: decodedPath url := by
  by_cases hnil : ((withoutProtocol (url.take 512)).dropWhile fun c => !isHostEnd c) = []
  · -- The cut url ends within the host name or the port, and its path is a slash.
    obtain ⟨tail, htail, -⟩ := decodedPath_cons url
    have hshort : decodedPath (url.take 512) = [chr '/'] := by
      rw [decodedPath, splitUrl_eq, fixedTail, hnil]
      rfl
    rw [hshort, htail]
    exact ⟨tail, rfl⟩
  have htail := fixedTail_cut h hnil
  rw [decodedPath, decodedPath, splitUrl_eq, splitUrl_eq]
  show decodeEscapes ((fixedTail (url.take 512)).takeWhile (· ≠ chr '#')) <+:
    decodeEscapes ((fixedTail url).takeWhile (· ≠ chr '#'))
  rw [htail]
  by_cases hfrag : chr '#' ∈ fixedTail (url.take 512)
  · rw [takeWhile_append_of_exists ⟨chr '#', hfrag, by simp⟩]
  · have hkeep := keep_of_notMem hfrag
    rw [List.takeWhile_append_of_pos hkeep, List.takeWhile_eq_self_iff.mpr hkeep]
    exact decodeEscapes_prefix fun hs => hesc
      (splitsEscape_fixedTail (hs.of_prefix (List.takeWhile_prefix _)))

/-! ## 3. The normal form of a cut url -/

/-- The path as far as the query, read to its end. -/
def pathState (url : Bytes) : PathState :=
  ((decodedPath url).tail.takeWhile (· ≠ chr '?')).foldl PathState.step PathState.root

/-- The decoded path that is cut off. -/
def cutOffPath (url : Bytes) : Bytes :=
  ((decodedPath url).drop (decodedPath (url.take 512)).length).takeWhile (· ≠ chr '?')

/-- The cut is behind the host name and splits no escape, and unless the query has begun before it,
no two dots behind it step back over it. -/
structure CleanCut (url : Bytes) : Prop where
  name : NameWithin url
  escapes : ¬ SplitsEscape (url.take 512) (url.drop 512)
  dots : chr '?' ∉ decodedPath (url.take 512) →
    (pathState (url.take 512)).GoesOn (cutOffPath url)

/-- The step across a clean cut: the normal form of the path is continued. -/
theorem normalPath_cut {url : Bytes} (h : CleanCut url) :
    normalPath (url.take 512) <+: normalPath url := by
  obtain ⟨i, hstart, hi, -⟩ := h.name
  obtain ⟨more, hmore⟩ := decodedPath_cut (by omega) h.escapes
  obtain ⟨body, hbody, -⟩ := decodedPath_cons (url.take 512)
  have hdots := h.dots
  show normalizePath (decodedPath (url.take 512)) <+: normalizePath (decodedPath url)
  unfold cutOffPath pathState at hdots
  rw [← hmore, List.drop_left] at hdots
  rw [← hmore]
  rw [hbody, List.tail_cons] at hdots
  rw [hbody]
  unfold normalizePath
  by_cases hq : chr '?' ∈ body
  · -- The query has begun, and nothing in it is normalized.
    have hend : ∃ x ∈ body, decide (x ≠ chr '?') = false := ⟨chr '?', hq, by simp⟩
    have hend' : ∃ x ∈ chr '/' :: body, decide (x ≠ chr '?') = false :=
      ⟨chr '?', List.mem_cons_of_mem _ hq, by simp⟩
    rw [dropWhile_append_of_exists hend', List.cons_append, List.tail_cons, List.tail_cons,
      takeWhile_append_of_exists hend, ← List.append_assoc]
    exact List.prefix_append _ _
  · have hq' : chr '?' ∉ chr '/' :: body := fun hm =>
      hq ((List.mem_cons.mp hm).resolve_left (by decide))
    have hkeep := keep_of_notMem hq
    have hgoes := PathState.prefix_finish_foldl (hdots hq')
    rw [List.takeWhile_eq_self_iff.mpr hkeep, ← List.foldl_append] at hgoes
    rw [List.dropWhile_eq_nil_iff.mpr (keep_of_notMem hq'), List.append_nil, List.cons_append,
      List.tail_cons, List.tail_cons, List.takeWhile_append_of_pos hkeep,
      List.takeWhile_eq_self_iff.mpr hkeep]
    exact hgoes.trans (List.prefix_append _ _)

/-! ## 4. The verdicts -/

theorem slash_mem_normalForm (url : Bytes) :
    chr '/' ∈ lowercase (hostName url ++ normalPath url) := by
  obtain ⟨path, hpath⟩ := exists_normalizeUrl url
  rw [normalizeUrl_eq] at hpath
  rw [Option.some.inj hpath]
  simp

theorem verdict_eq (a url : Bytes) :
    verdict a url = some (decide (Matches a (lowercase (hostName url ++ normalPath url)))) := by
  unfold verdict
  rw [UrlPattern.createFromId_eq, normalizeUrl_eq]
  exact UrlPattern.matchesUrl_ofId a (slash_mem_normalForm url)

/-- An address with a path matches the urls that begin with it. -/
theorem matches_path_iff {a u : Bytes} (ha : chr '/' ∈ a) : Matches a u ↔ a <+: u := by
  obtain ⟨host, path, rfl, hhost⟩ := UrlPatternLemmas.exists_slash ha
  rw [Matches, if_pos ha, UrlPatternLemmas.hostPart_cons hhost,
    UrlPatternLemmas.pathPart_cons hhost]
  constructor
  · rintro ⟨rfl, hpath⟩
    have hall := (List.prefix_append_right_inj (hostPart u)).mpr hpath
    rwa [UrlPatternLemmas.hostPart_append_pathPart] at hall
  · rintro ⟨more, rfl⟩
    rw [List.append_assoc, List.cons_append, UrlPatternLemmas.hostPart_cons hhost,
      UrlPatternLemmas.pathPart_cons hhost]
    exact ⟨rfl, more, rfl⟩

/-- An address without a path is compared with the host name. -/
theorem matches_host_iff {a url : Bytes} (ha : chr '/' ∉ a) :
    Matches a (lowercase (hostName url ++ normalPath url)) ↔
      lowercase (hostName url) = a ∨ chr '.' :: a <:+ lowercase (hostName url) := by
  obtain ⟨path, hpath⟩ := exists_normalizeUrl url
  rw [normalizeUrl_eq] at hpath
  rw [Option.some.inj hpath, Matches, if_neg ha,
    UrlPatternLemmas.hostPart_cons (slash_notMem_hostName url)]

theorem verdict_host {a : Bytes} (ha : chr '/' ∉ a) (url : Bytes) :
    verdict a url = some (decide (lowercase (hostName url) = a ∨
      chr '.' :: a <:+ lowercase (hostName url))) := by
  rw [verdict_eq, decide_eq_decide.mpr (matches_host_iff ha)]

theorem verdict_path {a : Bytes} (ha : chr '/' ∈ a) (url : Bytes) :
    verdict a url = some (decide (a <+: lowercase (hostName url ++ normalPath url))) := by
  rw [verdict_eq, decide_eq_decide.mpr (matches_path_iff ha)]

/-- The verdicts of the rules with a path: none holds for the cut url alone, and a rule that is no
longer than its normal form has the same one for both. -/
def PathVerdictsAgree (url : Bytes) : Prop :=
  ∀ a, chr '/' ∈ a →
    (verdict a (shortenUrl url) = some true → verdict a url = some true) ∧
    ∀ normalized, normalizeUrl (shortenUrl url) = some normalized →
      a.length ≤ normalized.length → verdict a (shortenUrl url) = verdict a url

/-- The rules with a path agree exactly when the normal form is continued behind the cut. -/
theorem pathVerdictsAgree_iff (url : Bytes) :
    PathVerdictsAgree url ↔
      lowercase (hostName (shortenUrl url) ++ normalPath (shortenUrl url)) <+:
        lowercase (hostName url ++ normalPath url) := by
  constructor
  · -- The normal form of the cut url is itself such a rule.
    intro h
    have hslash := slash_mem_normalForm (shortenUrl url)
    have hself := (h _ hslash).1 (by rw [verdict_path hslash, decide_eq_true List.prefix_rfl])
    rw [verdict_path hslash] at hself
    exact of_decide_eq_true (Option.some.inj hself)
  · intro hprefix a ha
    rw [verdict_path ha, verdict_path ha, normalizeUrl_eq]
    simp only [Option.some.injEq, decide_eq_true_eq]
    refine ⟨fun hm => hm.trans hprefix, ?_⟩
    rintro normalized rfl hlen
    exact decide_eq_decide.mpr ⟨fun hm => hm.trans hprefix,
      fun hm => List.prefix_of_prefix_length_le hm hprefix hlen⟩

theorem hostName_shortenUrl {url : Bytes} (h : NameWithin url) :
    hostName (shortenUrl url) = hostName url := by
  unfold shortenUrl
  split
  · exact hostName_cut h
  · rfl

theorem normalPath_shortenUrl {url : Bytes} (h : CleanCut url) :
    normalPath (shortenUrl url) <+: normalPath url := by
  unfold shortenUrl
  split
  · exact normalPath_cut h
  · exact List.prefix_rfl

/-- Shortening keeps every verdict on a url of at most 512 bytes, and every verdict of a host rule
when the host name ends before the cut. The rules with a path agree exactly when the normal form of
the cut url begins that of the url, and so they do behind a clean cut. -/
theorem shortenUrl_verdict (url : Bytes) :
    (url.length ≤ 512 → ∀ a, verdict a (shortenUrl url) = verdict a url) ∧
    (NameWithin url → ∀ a, chr '/' ∉ a → verdict a (shortenUrl url) = verdict a url) ∧
    (PathVerdictsAgree url ↔ ∃ short full, normalizeUrl (shortenUrl url) = some short ∧
      normalizeUrl url = some full ∧ short <+: full) ∧
    (CleanCut url → PathVerdictsAgree url) := by
  refine ⟨fun h a => ?_, fun h a ha => ?_, ?_, fun h => ?_⟩
  · rw [shortenUrl, if_neg (not_lt.mpr h)]
  · rw [verdict_host ha, verdict_host ha, hostName_shortenUrl h]
  · rw [pathVerdictsAgree_iff, normalizeUrl_eq, normalizeUrl_eq]
    constructor
    · exact fun h => ⟨_, _, rfl, rfl, h⟩
    · rintro ⟨short, full, hshort, hfull, h⟩
      rwa [← Option.some.inj hshort, ← Option.some.inj hfull] at h
  · rw [pathVerdictsAgree_iff, hostName_shortenUrl h.name]
    exact ((List.prefix_append_right_inj _).mpr (normalPath_shortenUrl h)).map tolower

/-- A search whose query is cut. What is cut off has slashes and dots, but no meaning. -/
def longUrl : Bytes :=
  bytes "http://Onet.pl/a/../search?q=" ++ List.replicate 600 (chr 'a') ++
    bytes "&u=http://x.pl/../"

/-- A cut behind the dot of a file name, with a directory and two dots behind it. -/
def longFileUrl : Bytes :=
  bytes "http://Onet.pl/" ++ List.replicate 496 (chr 'a') ++ bytes "." ++ bytes "html/b//../c"

theorem shortenUrl_verdict_long :
    verdict (bytes "onet.pl") (shortenUrl longUrl) = verdict (bytes "onet.pl") longUrl ∧
    PathVerdictsAgree longUrl ∧ PathVerdictsAgree longFileUrl :=
  have hname : NameWithin longUrl :=
    ⟨14, by decide +kernel, by decide, chr '/', by decide +kernel, rfl⟩
  have hcut : CleanCut longUrl :=
    ⟨hname, not_splitsEscape (by decide +kernel), fun h => absurd (by decide +kernel) h⟩
  have hfile : CleanCut longFileUrl :=
    ⟨⟨14, by decide +kernel, by decide, chr '/', by decide +kernel, rfl⟩,
      not_splitsEscape (by decide +kernel), fun _ => by decide +kernel⟩
  ⟨(shortenUrl_verdict longUrl).2.1 hname _ (by decide),
    (shortenUrl_verdict longUrl).2.2.2 hcut, (shortenUrl_verdict longFileUrl).2.2.2 hfile⟩

/-- A url whose normal form is short, and whose first 512 bytes end within its padding. -/
def paddedUrl : Bytes :=
  bytes "onet.pl/" ++ (List.replicate 260 (bytes "./")).flatten ++ bytes "abc"

/-- The cut loses the page that the padding leads to. -/
theorem paddedUrl_verdict : verdict (bytes "onet.pl/abc") (shortenUrl paddedUrl) = some false ∧
    verdict (bytes "onet.pl/abc") paddedUrl = some true := by
  decide +kernel

end SafeKiddo
