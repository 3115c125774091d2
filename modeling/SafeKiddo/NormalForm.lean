import SafeKiddo.UrlReference
import SafeKiddo.ShortenUrl

/-!
# The normal form of a url is final

The url patterns are compared with normalized urls, so an address is written in normal form. What
`normalizeUrl` makes of a url is such an address, as long as no percent sign or number sign has been
decoded into it.

Results:
1. `normalizeUrl_text`: a text in normal form is left as it is.
2. `exists_normal`: what `normalizeUrl` computes is in normal form.
3. `normalizeUrl_normalizeUrl`: a second pass changes nothing, and the pattern of a normalized url
   matches that url.
-/

namespace SafeKiddo

open ByteString ByteString.PathState UrlNormalizationLemmas

/-! ## 1. Texts in normal form -/

/-- The parts of a normalized url. -/
structure NormalParts where
  host : Bytes
  segments : List Bytes
  trailing : Bool
  query : Bytes

namespace NormalParts

def path (p : NormalParts) : Bytes := renderSegments p.segments p.trailing ++ p.query

def text (p : NormalParts) : Bytes := p.host ++ p.path

/-- A second pass cuts at the same places and has nothing to change in the parts. -/
structure Normal (p : NormalParts) : Prop where
  host : ∀ c ∈ p.host, isNameEnd c = false
  kept : ∀ seg ∈ p.segments, Kept seg
  path : ∀ seg ∈ p.segments, chr '?' ∉ seg
  query : ∀ c ∈ p.query.head?, c = chr '?'
  zero : 0 ∉ p.path
  lower : lowercase p.text = p.text

end NormalParts

open NormalParts

/-! ## 2. The second pass -/

namespace NormalFormLemmas

/-- Without percent signs and zero bytes there is nothing to decode. -/
theorem decodeEscapes_plain {s : Bytes} (hp : chr '%' ∉ s) (h0 : 0 ∉ s) : decodeEscapes s = s := by
  induction s with
  | nil => rfl
  | cons c s ih =>
    have hc : c ≠ chr '%' := fun he => hp (he ▸ List.mem_cons_self)
    have hc0 : c ≠ 0 := fun he => h0 (he ▸ List.mem_cons_self)
    rw [decodeEscapes_of_ne hc, decodedCons_of_ne hc0,
      ih (fun h => hp (List.mem_cons_of_mem c h)) fun h => h0 (List.mem_cons_of_mem c h)]

theorem question_notMem_renderSegments {stack : List Bytes} (h : ∀ seg ∈ stack, chr '?' ∉ seg)
    (trailing : Bool) : chr '?' ∉ renderSegments stack trailing := by
  intro hm
  rcases mem_renderSegments hm with he | ⟨seg, hseg, hm⟩
  · exact absurd he (by decide)
  · exact h seg hseg hm

/-- The path ends where the query begins. -/
theorem cut_query {path query : Bytes} (hpath : chr '?' ∉ path)
    (hquery : ∀ c ∈ query.head?, c = chr '?') :
    (path ++ query).takeWhile (· ≠ chr '?') = path ∧
      (path ++ query).dropWhile (· ≠ chr '?') = query := by
  rw [List.takeWhile_append_of_pos (keep_of_notMem hpath),
    List.dropWhile_append_of_pos (keep_of_notMem hpath)]
  cases query with
  | nil => exact ⟨List.append_nil path, rfl⟩
  | cons c query =>
    cases hquery c rfl
    exact ⟨List.append_nil path, rfl⟩

theorem normalizePath_path {p : NormalParts} (h : p.Normal) : normalizePath p.path = p.path := by
  have hpath := question_notMem_renderSegments h.path p.trailing
  have htail : chr '?' ∉ (renderSegments p.segments p.trailing).tail :=
    fun hm => hpath (List.mem_of_mem_tail hm)
  have hcons : p.path.tail = (renderSegments p.segments p.trailing).tail ++ p.query := rfl
  rw [normalizePath, hcons, (cut_query htail h.query).1,
    finish_foldl_renderSegments h.kept]
  exact congrArg _ (cut_query hpath h.query).2

/-- The parts are found again. -/
theorem splitUrl_text {p : NormalParts} (h : p.Normal) (hnum : chr '#' ∉ p.text) :
    hostName p.text = p.host ∧ (splitUrl p.text).pathAndQueryString = p.path := by
  have hname : ∀ c ∈ p.host, isHostEnd c = false ∧ c ≠ chr ':' := fun c hc => by
    simpa [isNameEnd] using h.host c hc
  have hhost : ∀ c ∈ p.host, isHostEnd c = false := fun c hc => (hname c hc).1
  have hcolon : chr ':' ∉ p.host := fun hm => (hname _ hm).2 rfl
  have hhead : ∀ c ∈ p.path.head?, isHostEnd c = true := by
    rintro c ⟨⟩
    rfl
  have hstart : startPosWithoutProtocol ([] ++ (p.host ++ p.path)) = ([] : Bytes).length :=
    startPos_plain (a := p.host) (slash_notMem_host hhost)
      (fun hl => hcolon (List.mem_of_getLast? hl)) hhead
  have hsplit := splitUrl_of_parts hstart hhost hhead
  have hpath : (withSlash p.path).takeWhile (· ≠ chr '#') = p.path := by
    rw [show withSlash p.path = p.path from if_pos rfl]
    exact List.takeWhile_eq_self_iff.mpr
      (keep_of_notMem fun hm => hnum (List.mem_append_right _ hm))
  rw [List.nil_append] at hsplit
  rw [hostName, text, hsplit]
  exact ⟨List.takeWhile_eq_self_iff.mpr (keep_of_notMem hcolon), hpath⟩

end NormalFormLemmas

open NormalFormLemmas

/-- A text in normal form is left as it is. -/
theorem normalizeUrl_text {p : NormalParts} (h : p.Normal) (hper : chr '%' ∉ p.text)
    (hnum : chr '#' ∉ p.text) : normalizeUrl p.text = some p.text := by
  obtain ⟨hhost, hpath⟩ := splitUrl_text h hnum
  have hdecode : decodeEscapes p.path = p.path :=
    decodeEscapes_plain (fun hm => hper (List.mem_append_right _ hm)) h.zero
  rw [normalizeUrl_eq, hhost, normalPath, hpath, hdecode, normalizePath_path h]
  exact congrArg some h.lower

/-! ## 3. The first pass -/

namespace NormalFormLemmas

theorem isNameEnd_tolower (c : Byte) : isNameEnd (tolower c) = isNameEnd c := by
  revert c
  decide +kernel

/-- The bytes of a resolved path are those of the path and slashes. -/
theorem mem_resolved {path : Bytes} {trailing : Bool} {b : Byte}
    (h : b ∈ renderSegments (resolve (path.splitOn (chr '/'))) trailing) :
    b = chr '/' ∨ b ∈ path := by
  refine (mem_renderSegments h).imp id ?_
  rintro ⟨seg, hseg, hb⟩
  exact (mem_of_mem_splitOn (mem_of_mem_resolve hseg) hb).1

theorem head?_query (tail : Bytes) : ∀ c ∈ (tail.dropWhile (· ≠ chr '?')).head?, c = chr '?' := by
  intro c hc
  have h := List.head?_dropWhile_not (· ≠ chr '?') tail
  rw [hc] at h
  simpa using h

end NormalFormLemmas

/-- What `normalizeUrl` computes is in normal form. -/
theorem exists_normal (url : Bytes) : ∃ p : NormalParts, p.Normal ∧
    normalizeUrl url = some p.text := by
  obtain ⟨tail, htail, hzero⟩ := decodedPath_cons url
  let path := tail.takeWhile (· ≠ chr '?')
  let query := tail.dropWhile (· ≠ chr '?')
  let stack := resolve (path.splitOn (chr '/'))
  let trailing := decide ((path.splitOn (chr '/')).getLast? = some [])
  have hnormal : normalPath url = renderSegments stack trailing ++ query := by
    show normalizePath (decodedPath url) = _
    rw [htail, normalizePath_eq]
  let p : NormalParts :=
    ⟨lowercase (hostName url), stack.map lowercase, trailing, lowercase query⟩
  have hpath : p.path = lowercase (normalPath url) := by
    rw [hnormal, lowercase_append, lowercase_renderSegments]
    rfl
  have htext : p.text = lowercase (hostName url ++ normalPath url) := by
    rw [lowercase_append, ← hpath]
    rfl
  have hsegments : ∀ seg ∈ stack, chr '?' ∉ seg := by
    intro seg hseg hm
    have hmem := (mem_of_mem_splitOn (mem_of_mem_resolve hseg) hm).1
    simpa using List.mem_takeWhile_imp hmem
  refine ⟨p, ⟨?_, ?_, ?_, ?_, ?_, ?_⟩, by rw [normalizeUrl_eq, htext]⟩
  · intro c hc
    obtain ⟨d, hd, rfl⟩ := List.mem_map.mp hc
    rw [hostName_eq] at hd
    rw [isNameEnd_tolower]
    simpa using List.mem_takeWhile_imp hd
  · intro seg hseg
    obtain ⟨s, hs, rfl⟩ := List.mem_map.mp hseg
    exact (kept_resolve path s hs).lowercase
  · intro seg hseg
    obtain ⟨s, hs, rfl⟩ := List.mem_map.mp hseg
    rw [mem_lowercase (by decide) (by decide)]
    exact hsegments s hs
  · intro c hc
    have hhead : (query.head?.map tolower) = some c := by rw [← List.head?_map]; exact hc
    obtain ⟨d, hd, rfl⟩ := Option.map_eq_some_iff.mp hhead
    rw [head?_query tail d hd]
    rfl
  · rw [hpath, mem_lowercase (by decide) (by decide), hnormal]
    intro hm
    rcases List.mem_append.mp hm with hm | hm
    · rcases mem_resolved hm with he | hm
      · exact absurd he (by decide)
      · exact hzero (List.takeWhile_subset _ hm)
    · exact hzero (List.dropWhile_subset _ hm)
  · rw [htext, lowercase_lowercase]

/-! ## 4. Twice -/

/-- A normalized url without a percent sign and a number sign is its own normal form, and as an
address it is a rule that covers itself. -/
theorem normalizeUrl_normalizeUrl (url : Bytes) : ∃ normalized,
    normalizeUrl url = some normalized ∧
    (chr '%' ∉ normalized → chr '#' ∉ normalized →
      normalizeUrl normalized = some normalized ∧
      ∃ pattern, UrlPattern.createFromIds [normalized] = some [pattern] ∧
        pattern.matchesUrl normalized = some true) := by
  obtain ⟨p, hp, hurl⟩ := exists_normal url
  refine ⟨p.text, hurl, fun hper hnum => ⟨normalizeUrl_text hp hper hnum, UrlPattern.ofId p.text,
    UrlPattern.createFromIds_eq [p.text], ?_⟩⟩
  have hslash : chr '/' ∈ p.text := List.mem_append_right _ List.mem_cons_self
  have hself : Matches p.text p.text := by
    rw [Matches, if_pos hslash]
    exact ⟨rfl, List.prefix_rfl⟩
  rw [UrlPattern.matchesUrl_ofId p.text hslash, decide_eq_true hself]

theorem normalizeUrl_normalizeUrl_onet :
    normalizeUrl (bytes "HTTP://Onet.PL:80/a//./b/../C%2e?X=1#top") =
      some (bytes "onet.pl/a/c.?x=1") ∧
    normalizeUrl (bytes "onet.pl/a/c.?x=1") = some (bytes "onet.pl/a/c.?x=1") := by
  have hurl : normalizeUrl (bytes "HTTP://Onet.PL:80/a//./b/../C%2e?X=1#top") =
      some (bytes "onet.pl/a/c.?x=1") := by decide +kernel
  obtain ⟨normalized, hnormalized, htwice⟩ :=
    normalizeUrl_normalizeUrl (bytes "HTTP://Onet.PL:80/a//./b/../C%2e?X=1#top")
  obtain rfl := Option.some.inj (hurl.symm.trans hnormalized)
  exact ⟨hurl, (htwice (by decide +kernel) (by decide +kernel)).1⟩

end SafeKiddo
