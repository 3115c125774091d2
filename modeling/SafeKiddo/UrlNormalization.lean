import SafeKiddo.UrlDecode
import SafeKiddo.UrlPattern

/-!
# Url normalization

`urlNormalization.cpp` around the decoder: the parts of a url, the normal form that url patterns are
matched with, and the joining of parts.

Results:
1. `splitUrl_eq`: the position arithmetic of `splitUrl` cuts the url at the end of the protocol, at
   the first of `/`, `?` and `#`, and at the next `#`.
2. `normalizeUrl_eq`: the normal form is the host without the port and the normalized path, in lower
   case. No assertion fires.
3. `startPos_scheme`, `startPos_plain`: where the protocol of a url ends.
4. `matches_urlText_host`: a host rule cannot be evaded by the way the url is written.
-/

namespace SafeKiddo

open ByteString

/-! ## 1. The code -/

def isValidUriScheme (scheme : Bytes) : Bool :=
  scheme.all fun c => isalnum c || c = chr '.' || c = chr '-'

def startPosWithoutProtocol (url : Bytes) : Nat :=
  match find url (chr '/') 0 with
  | none => 0
  | some slashPos =>
    if slashPos > 0 ∧ url[slashPos - 1]? = some (chr ':') ∧ slashPos + 1 < url.length ∧
        url[slashPos + 1]? = some (chr '/') ∧
        isValidUriScheme (substr url 0 (some (slashPos - 1))) then
      slashPos + 2
    else
      0

/-- A missing position is `npos`, which is below no position. -/
def fixMissingSlash (startPos : Nat) (url : Bytes) : Bytes :=
  match findFirstOf url (bytes "?#") startPos, find url (chr '/') startPos with
  | none, _ => url
  | some endOfHostNamePos, none =>
    substr url 0 (some endOfHostNamePos) ++ chr '/' :: substr url endOfHostNamePos none
  | some endOfHostNamePos, some slashPos =>
    if endOfHostNamePos < slashPos then
      substr url 0 (some endOfHostNamePos) ++ chr '/' :: substr url endOfHostNamePos none
    else
      url

/-- The parts of a url. The path is never empty, and the fragment keeps its `#`. -/
structure UrlParts where
  protocolSpecification : Bytes
  hostNameWithOptPort : Bytes
  pathAndQueryString : Bytes
  fragmentId : Bytes
  deriving DecidableEq

def splitUrl (url : Bytes) : UrlParts :=
  let hostNamePos := startPosWithoutProtocol url
  let protocolSpecification := substr url 0 (some hostNamePos)
  let fixedUrl := fixMissingSlash hostNamePos url
  match find fixedUrl (chr '/') hostNamePos with
  | none => ⟨protocolSpecification, substr fixedUrl hostNamePos none, [chr '/'], []⟩
  | some endOfHostNamePos =>
    let hostNameWithOptPort :=
      substr fixedUrl hostNamePos (some (endOfHostNamePos - hostNamePos))
    match find fixedUrl (chr '#') (endOfHostNamePos + 1) with
    | none =>
      ⟨protocolSpecification, hostNameWithOptPort, substr fixedUrl endOfHostNamePos none, []⟩
    | some fragmentIdPos =>
      ⟨protocolSpecification, hostNameWithOptPort,
        substr fixedUrl endOfHostNamePos (some (fragmentIdPos - endOfHostNamePos)),
        substr fixedUrl fragmentIdPos none⟩

def normalizeUrl (url : Bytes) : Checked Bytes := do
  let parts := splitUrl url
  let host := substr parts.hostNameWithOptPort 0 (find parts.hostNameWithOptPort (chr ':') 0)
  let decoded ← urldecode parts.pathAndQueryString true
  let normalized := host ++ decoded
  assert (normalized[host.length]? = some (chr '/'))
  return lowercase normalized

def shortenUrl (url : Bytes) : Bytes := if url.length > 512 then url.take 512 else url

def percentDecode (str : Bytes) : Checked Bytes := urldecode str false

/-- The loop of `splitPathAndQueryString`, from a delimiter on. -/
def paramsFrom (pathAndQueryString : Bytes) (lastDelimPos : Nat) : List Bytes :=
  match hnext : find pathAndQueryString (chr '&') (lastDelimPos + 1) with
  | none => [substr pathAndQueryString (lastDelimPos + 1) none]
  | some nextDelimPos =>
    substr pathAndQueryString (lastDelimPos + 1) (some (nextDelimPos - lastDelimPos - 1)) ::
      paramsFrom pathAndQueryString nextDelimPos
termination_by pathAndQueryString.length - lastDelimPos
decreasing_by
  have := find_lt hnext
  omega

/-- The path and the params, which are not interpreted. -/
def splitPathAndQueryString (pathAndQueryString : Bytes) : Bytes × List Bytes :=
  match find pathAndQueryString (chr '?') 0 with
  | none => (pathAndQueryString, [])
  | some delimPos =>
    (substr pathAndQueryString 0 (some delimPos), paramsFrom pathAndQueryString delimPos)

/-- The params with the delimiter that stands before the first one. -/
def joinParams (delim : Byte) : List Bytes → Bytes
  | [] => []
  | param :: params => delim :: param ++ joinParams (chr '&') params

def joinUrlParts (protocolSpecification hostNameWithOptPort path : Bytes) (params : List Bytes)
    (fragmentId : Bytes) : Bytes :=
  protocolSpecification ++ hostNameWithOptPort ++ path ++ joinParams (chr '?') params ++ fragmentId

/-! ## 2. The parts of a url -/

/-- The host name ends at one of these. -/
def isHostEnd (c : Byte) : Bool := c = chr '/' || c = chr '?' || c = chr '#'

/-- A path with its missing slash. -/
def withSlash (tail : Bytes) : Bytes :=
  if tail.head? = some (chr '/') then tail else chr '/' :: tail

namespace UrlNormalizationLemmas

variable {url pre host tail : Bytes}

theorem isHostEnd_takeWhile {s : Bytes} : ∀ c ∈ s.takeWhile fun c => !isHostEnd c,
    isHostEnd c = false := by
  intro c hc
  simpa using List.mem_takeWhile_imp hc

theorem isHostEnd_dropWhile {s : Bytes} : ∀ c ∈ (s.dropWhile fun c => !isHostEnd c).head?,
    isHostEnd c = true := by
  intro c hc
  have h := List.head?_dropWhile_not (fun c => !isHostEnd c) s
  rw [hc] at h
  simpa using h

theorem isHostEnd_iff {c : Byte} : isHostEnd c = true ↔ c = chr '/' ∨ c ∈ bytes "?#" := by
  have h : bytes "?#" = [chr '?', chr '#'] := rfl
  simp [isHostEnd, h, or_assoc]

theorem withSlash_slash (t : Bytes) : withSlash (chr '/' :: t) = chr '/' :: t := if_pos rfl

theorem withSlash_ne {c : Byte} (hc : c ≠ chr '/') (t : Bytes) :
    withSlash (c :: t) = chr '/' :: c :: t := if_neg (by simpa using hc)

theorem slash_notMem_host (h : ∀ c ∈ host, isHostEnd c = false) : chr '/' ∉ host :=
  fun hm => absurd (h _ hm) (by decide)

theorem fixMissingSlash_eq {c : Byte} {t : Bytes} (hhost : ∀ c ∈ host, isHostEnd c = false)
    (hc : isHostEnd c = true) :
    fixMissingSlash pre.length (pre ++ (host ++ c :: t)) =
      pre ++ (host ++ withSlash (c :: t)) := by
  have hslash := slash_notMem_host hhost
  have hends : ∀ x ∈ host, x ∉ bytes "?#" := fun x hx hm =>
    Bool.false_ne_true ((hhost x hx).symm.trans
      (isHostEnd_iff.mpr (.inr hm)))
  have hcut := substr_front (pre ++ host) (c :: t)
  rw [List.append_assoc, List.length_append] at hcut
  unfold fixMissingSlash
  rw [← Nat.add_zero pre.length, findFirstOf_append_length, find_append_length,
    findFirstOf_skip hends, find_skip hslash]
  by_cases hne : c = chr '/'
  · -- Any later `?` or `#` is behind the slash.
    subst hne
    rw [find_head, findFirstOf_cons (by decide), withSlash_slash]
    cases findFirstOf t (bytes "?#") 0 with
    | none => rfl
    | some i =>
      simp only [Option.map_some]
      rw [if_neg (by omega)]
  · have hmem := (isHostEnd_iff.mp hc).resolve_left hne
    have hinsert : substr (pre ++ (host ++ c :: t)) 0 (some (pre.length + (host.length + 0))) ++
        chr '/' :: substr (pre ++ (host ++ c :: t)) (pre.length + (host.length + 0)) none =
        pre ++ (host ++ chr '/' :: c :: t) := by
      rw [Nat.add_zero, hcut, substr_append_length, substr_rest, List.append_assoc]
    rw [findFirstOf_head hmem, find_cons hne, withSlash_ne hne]
    cases find t (chr '/') 0 with
    | none => exact hinsert
    | some i =>
      simp only [Option.map_some]
      rw [if_pos (by omega)]
      exact hinsert

/-- The cuts of `splitUrl` after the missing slash is put in. -/
theorem splitUrl_of_fixed {url w : Bytes} (hstart : startPosWithoutProtocol url = pre.length)
    (hpre : substr url 0 (some pre.length) = pre)
    (hfixed : fixMissingSlash pre.length url = pre ++ (host ++ chr '/' :: w))
    (hslash : chr '/' ∉ host) :
    splitUrl url =
      ⟨pre, host, chr '/' :: w.takeWhile (· ≠ chr '#'), w.dropWhile (· ≠ chr '#')⟩ := by
  have hend : find (pre ++ (host ++ chr '/' :: w)) (chr '/') pre.length =
      some (pre.length + host.length) := by
    rw [← Nat.add_zero pre.length, find_append_length, find_append hslash]
    rfl
  have hfrag : find (pre ++ (host ++ chr '/' :: w)) (chr '#') (pre.length + host.length + 1) =
      (find w (chr '#') 0).map (pre.length + host.length + 1 + ·) := by
    have h := find_append_length (pre ++ (host ++ [chr '/'])) w (chr '#') 0
    simpa [Nat.add_assoc] using h
  have hhost : ∀ s : Bytes, substr (pre ++ (host ++ s)) pre.length
      (some (pre.length + host.length - pre.length)) = host := by
    intro s
    rw [Nat.add_sub_cancel_left]
    exact (substr_append_length pre (host ++ s) 0 _).trans (substr_front host s)
  unfold splitUrl
  simp only [hstart, hpre, hfixed, hend, hfrag, hhost]
  by_cases hmem : chr '#' ∈ w
  · obtain ⟨path, frag, rfl, hpath⟩ := List.eq_append_cons_of_mem hmem
    have hfragment : substr (pre ++ (host ++ chr '/' :: (path ++ chr '#' :: frag)))
        (pre.length + host.length + 1 + path.length) none = chr '#' :: frag := by
      rw [Nat.add_assoc, Nat.add_assoc, substr_append_length, substr_append_length, Nat.add_comm 1]
      exact substr_rest (chr '/' :: path) (chr '#' :: frag)
    have hpathPart : substr (pre ++ (host ++ chr '/' :: (path ++ chr '#' :: frag)))
        (pre.length + host.length)
        (some (pre.length + host.length + 1 + path.length - (pre.length + host.length))) =
        chr '/' :: path := by
      have h := substr_append_length (pre ++ host) (chr '/' :: (path ++ chr '#' :: frag)) 0
        (some (chr '/' :: path).length)
      rw [List.append_assoc, List.length_append, Nat.add_zero] at h
      rw [Nat.add_assoc _ 1, Nat.add_sub_cancel_left, Nat.add_comm 1]
      exact h.trans (substr_front (chr '/' :: path) (chr '#' :: frag))
    rw [find_append hpath]
    simp only [Option.map_some, hfragment, hpathPart]
    rw [List.takeWhile_append_of_pos (keep_of_notMem hpath),
      List.dropWhile_append_of_pos (keep_of_notMem hpath)]
    simp
  · have hkeep := keep_of_notMem hmem
    rw [find_eq_none (n := 0) hmem]
    simp only [Option.map_none, substr_append_length, substr_rest]
    rw [List.takeWhile_eq_self_iff.mpr hkeep, List.dropWhile_eq_nil_iff.mpr hkeep]

/-- The parts of a url whose protocol ends at `pre`. -/
theorem splitUrl_of_parts (hstart : startPosWithoutProtocol (pre ++ (host ++ tail)) = pre.length)
    (hhost : ∀ c ∈ host, isHostEnd c = false) (htail : ∀ c ∈ tail.head?, isHostEnd c = true) :
    splitUrl (pre ++ (host ++ tail)) =
      ⟨pre, host, (withSlash tail).takeWhile (· ≠ chr '#'),
        (withSlash tail).dropWhile (· ≠ chr '#')⟩ := by
  have hslash := slash_notMem_host hhost
  have hpre : substr (pre ++ (host ++ tail)) 0 (some pre.length) = pre := List.take_left
  cases tail with
  | nil =>
    have hends : ∀ x ∈ host, x ∉ bytes "?#" := fun x hx hm =>
      Bool.false_ne_true ((hhost x hx).symm.trans (isHostEnd_iff.mpr (.inr hm)))
    have hfixed : fixMissingSlash pre.length (pre ++ (host ++ [])) = pre ++ (host ++ []) := by
      unfold fixMissingSlash
      rw [← Nat.add_zero pre.length, findFirstOf_append_length, findFirstOf_skip hends]
      rfl
    have hend : find (pre ++ (host ++ [])) (chr '/') pre.length = none := by
      rw [← Nat.add_zero pre.length, find_append_length, find_skip hslash]
      rfl
    unfold splitUrl
    simp only [hstart, hpre, hfixed, hend]
    rw [List.append_nil, substr, List.drop_left]
    rfl
  | cons c t =>
    have hfixed := @fixMissingSlash_eq pre host c t hhost (htail c rfl)
    by_cases hne : c = chr '/'
    · subst hne
      rw [withSlash_slash] at hfixed ⊢
      exact splitUrl_of_fixed hstart hpre hfixed hslash
    · rw [withSlash_ne hne] at hfixed ⊢
      exact splitUrl_of_fixed hstart hpre hfixed hslash

end UrlNormalizationLemmas

open UrlNormalizationLemmas

theorem startPos_le (url : Bytes) : startPosWithoutProtocol url ≤ url.length := by
  unfold startPosWithoutProtocol
  split
  · exact Nat.zero_le _
  · split
    · next h => omega
    · exact Nat.zero_le _

/-- The url behind the protocol. -/
def withoutProtocol (url : Bytes) : Bytes := url.drop (startPosWithoutProtocol url)

/-- The path, query and fragment, with the slash put in. -/
def fixedTail (url : Bytes) : Bytes :=
  withSlash ((withoutProtocol url).dropWhile fun c => !isHostEnd c)

/-- Every url is a protocol, a host name with an optional port, a path and a fragment. -/
theorem splitUrl_eq (url : Bytes) :
    splitUrl url = ⟨url.take (startPosWithoutProtocol url),
      (withoutProtocol url).takeWhile fun c => !isHostEnd c,
      (fixedTail url).takeWhile (· ≠ chr '#'), (fixedTail url).dropWhile (· ≠ chr '#')⟩ := by
  have hurl : url.take (startPosWithoutProtocol url) ++
      (((withoutProtocol url).takeWhile fun c => !isHostEnd c) ++
        (withoutProtocol url).dropWhile fun c => !isHostEnd c) = url := by
    rw [List.takeWhile_append_dropWhile, withoutProtocol, List.take_append_drop]
  have hlen : (url.take (startPosWithoutProtocol url)).length = startPosWithoutProtocol url := by
    rw [List.length_take, min_eq_left (startPos_le url)]
  have hparts := splitUrl_of_parts (by rw [hurl, hlen]) isHostEnd_takeWhile
    (@isHostEnd_dropWhile (withoutProtocol url))
  rwa [hurl] at hparts

/-! ## 3. The normal form -/

/-- The host name without the port. -/
def hostName (url : Bytes) : Bytes := (splitUrl url).hostNameWithOptPort.takeWhile (· ≠ chr ':')

/-- The normalized path and query. -/
def normalPath (url : Bytes) : Bytes :=
  normalizePath (decodeEscapes (splitUrl url).pathAndQueryString)

namespace UrlNormalizationLemmas

theorem head?_finish (p : PathState) : p.finish.head? = some (chr '/') := by
  unfold PathState.finish
  split
  · split
    · rfl
    · next hne =>
      obtain ⟨seg, below, hcl⟩ := List.exists_cons_of_ne_nil hne
      rw [hcl]
      exact PathState.head?_renderStack_append below seg
  · exact PathState.head?_renderStack_append p.stack p.current

theorem head?_normalizePath (chars : Bytes) : (normalizePath chars).head? = some (chr '/') := by
  rw [normalizePath, List.head?_append, head?_finish]
  rfl

theorem head?_withSlash (tail : Bytes) : (withSlash tail).head? = some (chr '/') := by
  unfold withSlash
  split
  · next h => exact h
  · rfl

theorem head?_pathAndQueryString (url : Bytes) :
    (splitUrl url).pathAndQueryString.head? = some (chr '/') := by
  have hhead : (fixedTail url).head? = some (chr '/') := head?_withSlash _
  rw [splitUrl_eq]
  cases ht : fixedTail url with
  | nil => rw [ht] at hhead; exact nomatch hhead
  | cons c t =>
    rw [ht] at hhead
    cases hhead
    rfl

theorem substr_find (s : Bytes) (c : Byte) : substr s 0 (find s c 0) = s.takeWhile (· ≠ c) := by
  by_cases hmem : c ∈ s
  · obtain ⟨a, b, rfl, ha⟩ := List.eq_append_cons_of_mem hmem
    rw [find_append ha, List.takeWhile_append_of_pos (keep_of_notMem ha)]
    simp [substr]
  · rw [find_eq_none (n := 0) hmem, List.takeWhile_eq_self_iff.mpr (keep_of_notMem hmem)]
    rfl

end UrlNormalizationLemmas

/-- The normal form of any url; the assertion on the slash never fires. -/
theorem normalizeUrl_eq (url : Bytes) :
    normalizeUrl url = some (lowercase (hostName url ++ normalPath url)) := by
  unfold normalizeUrl
  simp only [urldecode_rooted (head?_pathAndQueryString url), substr_find, Option.bind_eq_bind,
    Option.bind_some]
  rw [assert_true]
  · rfl
  · show (hostName url ++ normalPath url)[(hostName url).length]? = some (chr '/')
    rw [List.getElem?_append_right le_rfl, Nat.sub_self, ← List.head?_eq_getElem?]
    exact head?_normalizePath _

theorem slash_notMem_hostName (url : Bytes) : chr '/' ∉ lowercase (hostName url) := by
  rw [mem_lowercase (by decide) (by decide), hostName, splitUrl_eq]
  exact fun hmem => slash_notMem_host isHostEnd_takeWhile (List.takeWhile_subset _ hmem)

/-- The normal form has a slash, behind the host name. -/
theorem exists_normalizeUrl (url : Bytes) :
    ∃ path, normalizeUrl url = some (lowercase (hostName url) ++ chr '/' :: path) := by
  rw [normalizeUrl_eq, lowercase_append]
  cases hp : normalPath url with
  | nil =>
    have hhead := head?_normalizePath (decodeEscapes (splitUrl url).pathAndQueryString)
    rw [show normalizePath _ = [] from hp] at hhead
    exact nomatch hhead
  | cons c path =>
    have hhead := head?_normalizePath (decodeEscapes (splitUrl url).pathAndQueryString)
    rw [show normalizePath _ = c :: path from hp] at hhead
    cases hhead
    exact ⟨lowercase path, rfl⟩

/-- A host rule looks at the host name only. -/
theorem matchesUrl_normalizeUrl_host {g : Bytes} (hg : chr '/' ∉ g) (url : Bytes) :
    ∃ normalized, normalizeUrl url = some normalized ∧ chr '/' ∈ normalized ∧
      (UrlPattern.ofId g).matchesUrl normalized =
        some (decide (lowercase (hostName url) = g ∨
          chr '.' :: g <:+ lowercase (hostName url))) := by
  obtain ⟨path, hpath⟩ := exists_normalizeUrl url
  have hslash : chr '/' ∈ lowercase (hostName url) ++ chr '/' :: path := by simp
  refine ⟨_, hpath, hslash, ?_⟩
  rw [UrlPattern.matchesUrl_ofId g hslash]
  simp only [Matches, hg, if_false, UrlPatternLemmas.hostPart_cons (slash_notMem_hostName url)]

/-! ## 4. Schemes and ports -/

/-- A url from its parts: an optional scheme, a host, an optional port, and the rest. -/
def urlText (scheme : Option Bytes) (host : Bytes) (port : Option Bytes) (rest : Bytes) : Bytes :=
  (scheme.map (· ++ bytes "://")).getD [] ++ (host ++ ((port.map (chr ':' :: ·)).getD [] ++ rest))

theorem startPos_scheme {scheme : Bytes} (hscheme : isValidUriScheme scheme = true)
    (s : Bytes) : startPosWithoutProtocol (scheme ++ bytes "://" ++ s) =
      (scheme ++ bytes "://").length := by
  have hurl : scheme ++ bytes "://" ++ s = (scheme ++ [chr ':']) ++ chr '/' :: chr '/' :: s := by
    rw [List.append_assoc, List.append_assoc]
    rfl
  have hslash : chr '/' ∉ scheme ++ [chr ':'] := by
    intro hmem
    rcases List.mem_append.mp hmem with h | h
    · exact absurd (List.all_eq_true.mp hscheme _ h) (by decide)
    · exact absurd h (by decide)
  have hcolon : (scheme ++ bytes "://" ++ s)[scheme.length]? = some (chr ':') := by
    rw [List.append_assoc, List.getElem?_append_right le_rfl, Nat.sub_self]
    rfl
  have hsecond : (scheme ++ bytes "://" ++ s)[scheme.length + 2]? = some (chr '/') := by
    rw [List.append_assoc, List.getElem?_append_right (by omega), Nat.add_sub_cancel_left]
    rfl
  have hvalid : isValidUriScheme (substr (scheme ++ bytes "://" ++ s) 0 (some scheme.length)) =
      true := by
    rw [List.append_assoc, substr, List.drop_zero, List.take_left]
    exact hscheme
  have hlen : (scheme ++ bytes "://" ++ s).length = scheme.length + 3 + s.length := by
    rw [List.length_append, List.length_append]
    rfl
  have hfind : find (scheme ++ bytes "://" ++ s) (chr '/') 0 = some (scheme.length + 1) := by
    rw [hurl, find_append hslash, List.length_append]
    rfl
  unfold startPosWithoutProtocol
  simp only [hfind, Nat.add_sub_cancel]
  rw [if_pos ⟨Nat.succ_pos _, hcolon, by omega, hsecond, hvalid⟩, List.length_append]
  rfl

/-- Without a scheme the host begins the url, whatever follows the first `?` or `#`. -/
theorem startPos_plain {a rest : Bytes} (ha : chr '/' ∉ a) (hcolon : a.getLast? ≠ some (chr ':'))
    (hrest : ∀ c ∈ rest.head?, isHostEnd c = true) :
    startPosWithoutProtocol (a ++ rest) = 0 := by
  unfold startPosWithoutProtocol
  rw [find_skip ha]
  cases rest with
  | nil => rfl
  | cons c t =>
    by_cases hc : c = chr '/'
    · -- The byte in front of the first slash is the last one of the host.
      subst hc
      rw [find_head]
      refine if_neg fun h => hcolon ?_
      obtain ⟨hpos, hbefore, -⟩ := h
      have hpos' : 0 < a.length := hpos
      rw [List.getLast?_eq_getElem?, ← hbefore]
      exact (List.getElem?_append_left (by omega)).symm
    · rw [find_cons hc]
      cases hfind : find t (chr '/') 0 with
      | none => rfl
      | some i =>
        -- The text in front of the slash holds the `?` or `#`, which no scheme has.
        refine if_neg ?_
        intro h
        obtain ⟨-, hbefore, -, -, hvalid⟩ := h
        have hend := hrest c rfl
        have hmem : c ∈ substr (a ++ c :: t) 0 (some (a.length + (1 + i) - 1)) := by
          cases i with
          | zero =>
            rw [show a.length + (1 + 0) - 1 = a.length by omega,
              List.getElem?_append_right le_rfl, Nat.sub_self] at hbefore
            cases hbefore
            exact absurd hend (by decide)
          | succ i =>
            rw [show a.length + (1 + (i + 1)) - 1 = a.length + (i + 1) by omega, substr,
              List.drop_zero, List.take_length_add_append]
            simp
        have hchar := List.all_eq_true.mp hvalid c hmem
        have hmark := (isHostEnd_iff.mp hend).resolve_left hc
        have hmarks : c = chr '?' ∨ c = chr '#' := by
          simpa [show bytes "?#" = [chr '?', chr '#'] from rfl] using hmark
        rcases hmarks with rfl | rfl <;> exact absurd hchar (by decide)

/-- A url has no protocol, or a valid scheme before a colon and two slashes. -/
theorem startPos_cases (url : Bytes) : startPosWithoutProtocol url = 0 ∨
    ∃ scheme rest, isValidUriScheme scheme = true ∧ url = scheme ++ bytes "://" ++ rest := by
  unfold startPosWithoutProtocol
  split
  · exact .inl rfl
  · next slashPos hfind =>
    split
    · next h =>
      obtain ⟨hpos, hcolon, -, hsecond, hvalid⟩ := h
      obtain ⟨a, b, rfl, ha, rfl⟩ := find_eq_some hfind
      rcases List.eq_nil_or_concat a with rfl | ⟨scheme, c, rfl⟩
      · exact absurd hpos (lt_irrefl _)
      · rw [List.concat_eq_append] at *
        have hc : c = chr ':' := by
          rw [List.length_append, List.length_singleton, Nat.add_sub_cancel, List.append_assoc,
            List.getElem?_append_right le_rfl, Nat.sub_self] at hcolon
          exact Option.some.inj hcolon
        have hb : b.head? = some (chr '/') := by
          rw [List.getElem?_append_right (Nat.le_add_right _ 1), Nat.add_sub_cancel_left]
            at hsecond
          rwa [List.head?_eq_getElem?]
        obtain ⟨rest, rfl⟩ : ∃ rest, b = chr '/' :: rest := by
          cases b with
          | nil => exact nomatch hb
          | cons d rest => cases hb; exact ⟨rest, rfl⟩
        refine .inr ⟨scheme, rest, ?_, ?_⟩
        · rw [List.length_append, List.length_singleton, Nat.add_sub_cancel, substr,
            List.append_assoc, List.drop_zero, List.take_left] at hvalid
          exact hvalid
        · rw [hc, List.append_assoc, List.append_assoc]
          rfl
    · exact .inl rfl

/-! ## 5. Host rules -/

section HostRules

variable {scheme port : Option Bytes} {h rest g : Bytes}

/-- The host of a url from its parts is the host. -/
theorem hostName_urlText (hscheme : ∀ s ∈ scheme, isValidUriScheme s = true)
    (hh : ∀ c ∈ h, isHostEnd c = false ∧ c ≠ chr ':')
    (hport : ∀ p ∈ port, p ≠ [] ∧ ∀ c ∈ p, isdigit c = true)
    (hrest : ∀ c ∈ rest.head?, isHostEnd c = true) :
    hostName (urlText scheme h port rest) = h := by
  have hkeep : ∀ c ∈ h, decide (c ≠ chr ':') = true := fun c hc => by simpa using (hh c hc).2
  have hdigit : ∀ c : Byte, isdigit c = true → isHostEnd c = false ∧ c ≠ chr ':' := by
    decide +kernel
  -- The port belongs to the host name until `normalizeUrl` cuts it off.
  have hhost : ∀ c ∈ h ++ (port.map (chr ':' :: ·)).getD [], isHostEnd c = false := by
    intro c hc
    rcases List.mem_append.mp hc with hc | hc
    · exact (hh c hc).1
    · cases port with
      | none => exact nomatch hc
      | some p =>
        rcases List.mem_cons.mp hc with rfl | hc
        · decide
        · exact (hdigit c ((hport p rfl).2 c hc)).1
  have hlast : (h ++ (port.map (chr ':' :: ·)).getD []).getLast? ≠ some (chr ':') := by
    intro hl
    cases port with
    | none =>
      simp only [Option.map_none, Option.getD_none, List.append_nil] at hl
      exact (hh _ (List.mem_of_getLast? hl)).2 rfl
    | some p =>
      obtain ⟨hne, hp⟩ := hport p rfl
      have hl' : p.getLast? = some (chr ':') := by
        obtain ⟨c, p, rfl⟩ := List.exists_cons_of_ne_nil hne
        simpa [List.getLast?_append, List.getLast?_cons_cons] using hl
      exact (hdigit _ (hp _ (List.mem_of_getLast? hl'))).2 rfl
  have hstart : startPosWithoutProtocol ((scheme.map (· ++ bytes "://")).getD [] ++
      ((h ++ (port.map (chr ':' :: ·)).getD []) ++ rest)) =
      ((scheme.map (· ++ bytes "://")).getD []).length := by
    cases scheme with
    | none =>
      show startPosWithoutProtocol ((h ++ (port.map (chr ':' :: ·)).getD []) ++ rest) = 0
      exact startPos_plain (slash_notMem_host hhost) hlast hrest
    | some s => exact startPos_scheme (hscheme s rfl) _
  have hsplit := splitUrl_of_parts hstart hhost hrest
  rw [hostName, urlText, ← List.append_assoc h, hsplit]
  show (h ++ (port.map (chr ':' :: ·)).getD []).takeWhile (· ≠ chr ':') = h
  rw [List.takeWhile_append_of_pos hkeep]
  cases port <;> simp

/-- A host rule cannot be evaded by the way the url is written: scheme, port, letter case, path,
query and fragment do not count. -/
theorem matches_urlText_host (hscheme : ∀ s ∈ scheme, isValidUriScheme s = true)
    (hh : ∀ c ∈ h, c ≠ chr '/' ∧ c ≠ chr '?' ∧ c ≠ chr '#' ∧ c ≠ chr ':')
    (hport : ∀ p ∈ port, p ≠ [] ∧ ∀ c ∈ p, isdigit c = true)
    (hrest : ∀ c ∈ rest.head?, c = chr '/' ∨ c = chr '?' ∨ c = chr '#') (hg : chr '/' ∉ g) :
    ∃ pattern normalized, UrlPattern.createFromIds [g] = some [pattern] ∧
      normalizeUrl (urlText scheme h port rest) = some normalized ∧
      pattern.matchesUrl normalized =
        some (decide (lowercase h = g ∨ chr '.' :: g <:+ lowercase h)) := by
  have hhost : ∀ c ∈ h, isHostEnd c = false ∧ c ≠ chr ':' := fun c hc => by
    obtain ⟨h1, h2, h3, h4⟩ := hh c hc
    exact ⟨by simp [isHostEnd, h1, h2, h3], h4⟩
  have hend : ∀ c ∈ rest.head?, isHostEnd c = true := fun c hc => by
    simpa [isHostEnd, or_assoc] using hrest c hc
  obtain ⟨normalized, hn, -, hm⟩ := matchesUrl_normalizeUrl_host hg (urlText scheme h port rest)
  rw [hostName_urlText hscheme hhost hport hend] at hm
  exact ⟨UrlPattern.ofId g, normalized, UrlPattern.createFromIds_eq [g], hn, hm⟩

/-- The address of a page behind a scheme, upper-case letters, a port and a url in the query. -/
theorem matches_urlText_host_onet :
    ∃ pattern normalized, UrlPattern.createFromIds [bytes "onet.pl"] = some [pattern] ∧
      normalizeUrl (urlText (some (bytes "http")) (bytes "WWW.Onet.PL") (some (bytes "80"))
        (bytes "?q=http://wp.pl")) = some normalized ∧
      pattern.matchesUrl normalized = some (decide (lowercase (bytes "WWW.Onet.PL") =
        bytes "onet.pl" ∨ chr '.' :: bytes "onet.pl" <:+ lowercase (bytes "WWW.Onet.PL"))) :=
  matches_urlText_host (by decide +kernel) (by decide +kernel) (by decide +kernel)
    (by decide +kernel) (by decide)

end HostRules

end SafeKiddo
