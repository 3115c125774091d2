import SafeKiddo.IcapHandler
import SafeKiddo.UrlParts

/-!
# Safe search

What `modifyGoogleSearchUrl` does to the parts of a url. The rewritten url is joined from parts that
are well formed again, so it is read back as these parts: no scheme, fragment or param boundary
appears in it.

Results:
1. `modifyGoogleSearchUrl_eq`: the rewriting in terms of the parts.
2. `wellFormed_safeParts`: the rewritten parts are well formed.
3. `modifyGoogleSearchUrl_safe`: which urls are rewritten, to what, and that once is enough.
-/

namespace SafeKiddo

open ByteString UrlNormalizationLemmas UrlPartsLemmas

/-! ## 1. Rewritten parts -/

/-- The decoded text before the first `=` of a param. -/
def paramKey (param : Bytes) : Bytes := decodeEscapes (param.takeWhile (· ≠ chr '='))

/-- The parts of a url of a google search. -/
def IsSearch (p : SplitParts) : Prop :=
  bytes "google." <:+: lowercase p.hostNameWithOptPort ∧
    bytes "/search" <:+: decodeEscapes p.path

/-- The parts of the safe search. -/
def safeParts (p : SplitParts) : SplitParts :=
  { p with
    hostNameWithOptPort := lowercase p.hostNameWithOptPort
    params := p.params.filter (fun param => paramKey param ≠ bytes "safe") ++
      [bytes "safe=active"] }

theorem modifyGoogleSearchUrl_eq (url : Bytes) [Decidable (IsSearch (splitParts url))] :
    modifyGoogleSearchUrl url =
      some (if IsSearch (splitParts url) then some (joinParts (safeParts (splitParts url)))
        else none) := by
  unfold modifyGoogleSearchUrl
  simp only [percentDecode_eq, filterOutParamKeys_eq, substr_find, Option.bind_eq_bind,
    Option.bind_some, contains, Bool.not_eq_true', decide_eq_false_iff_not]
  split
  · next hhost => exact congrArg some (if_neg fun h => hhost h.1).symm
  · next hhost =>
    split
    · next hpath => exact congrArg some (if_neg fun h => hpath h.2).symm
    · next hpath =>
      exact congrArg some (if_pos ⟨not_not.mp hhost, not_not.mp hpath⟩).symm

/-! ## 2. The rewritten parts are well formed -/

namespace SafeSearchLemmas

/-- A scheme stays one whatever its letter case. -/
theorem isValidUriScheme_lowercase (scheme : Bytes) :
    isValidUriScheme (lowercase scheme) = isValidUriScheme scheme := by
  have hchar : ∀ c : Byte, (isalnum (tolower c) || tolower c = chr '.' || tolower c = chr '-') =
      (isalnum c || c = chr '.' || c = chr '-') := by
    decide +kernel
  simp only [isValidUriScheme, lowercase, List.all_map]
  exact congrArg scheme.all (funext hchar)

/-- A host in lower case looks like a scheme no more than the host did. -/
theorem protocolOk_lowercase {protocol host path : Bytes} (hslash : chr '/' ∉ host)
    (hpath : path.head? = some (chr '/')) (h : ProtocolOk protocol (host ++ path)) :
    ProtocolOk protocol (lowercase host ++ path) := by
  rcases h with hscheme | ⟨hnone, hno⟩
  · exact .inl hscheme
  · refine .inr ⟨hnone, ?_⟩
    intro scheme more hscheme hlooks
    obtain ⟨t, rfl⟩ := List.head?_eq_some_iff.mp hpath
    have hslash' : chr '/' ∉ lowercase host := by
      rwa [mem_lowercase (by decide) (by decide)]
    obtain ⟨hhost, rfl⟩ := scheme_of_host_path hslash' hscheme hlooks
    -- The host ended with the colon, and the text before it was a scheme.
    obtain ⟨before, last, rfl, rfl, hlast⟩ := List.map_eq_append_iff.mp hhost
    obtain ⟨c, rfl, hc⟩ := List.map_eq_singleton_iff.mp hlast
    obtain rfl : c = chr ':' := (tolower_eq_iff (by decide) (by decide)).mp hc
    rw [← lowercase, isValidUriScheme_lowercase] at hscheme
    refine hno before more hscheme ?_
    rw [List.append_assoc, List.append_assoc]
    rfl

theorem paramKey_safe : paramKey (bytes "safe=active") = bytes "safe" := by decide +kernel

end SafeSearchLemmas

open SafeSearchLemmas

theorem wellFormed_safeParts {p : SplitParts} (h : WellFormed p) : WellFormed (safeParts p) := by
  refine ⟨protocolOk_lowercase h.slash_notMem_host h.path_head h.protocol, fun c hc => ?_,
    h.path_head, h.path, fun param hparam => ?_, h.fragment⟩
  · have hkept : ∀ d : Byte, isupper d = false → islower d = false →
        d ∉ p.hostNameWithOptPort → c ≠ d := by
      rintro d hu hl hd rfl
      exact hd ((mem_lowercase hu hl).mp hc)
    exact ⟨hkept _ rfl rfl fun hmem => (h.host _ hmem).1 rfl,
      hkept _ rfl rfl fun hmem => (h.host _ hmem).2.1 rfl,
      hkept _ rfl rfl fun hmem => (h.host _ hmem).2.2 rfl⟩
  · rcases List.mem_append.mp hparam with hold | hnew
    · exact h.params param (List.mem_of_mem_filter hold)
    · obtain rfl := List.mem_singleton.mp hnew
      decide +kernel

theorem isSearch_safeParts {p : SplitParts} (h : IsSearch p) : IsSearch (safeParts p) :=
  ⟨by rw [safeParts, lowercase_lowercase]; exact h.1, h.2⟩

theorem safeParts_safeParts (p : SplitParts) : safeParts (safeParts p) = safeParts p := by
  simp [safeParts, lowercase_lowercase, paramKey_safe]

/-- No param with the key is left beside the new one. -/
theorem count_safeParts (p : SplitParts) :
    (safeParts p).params.count (bytes "safe=active") = 1 := by
  have hold : bytes "safe=active" ∉ p.params.filter fun param => paramKey param ≠ bytes "safe" := by
    intro hmem
    have hkey := List.of_mem_filter hmem
    rw [decide_eq_true_eq] at hkey
    exact hkey paramKey_safe
  rw [safeParts, List.count_append, List.count_eq_zero_of_not_mem hold, List.count_singleton_self]

/-! ## 3. Safe search -/

/-- The urls of a search are rewritten, and no others. The rewritten url is split into the same
protocol, path and fragment, the host in lower case, and the params without those of the key; it is
its own safe search. -/
theorem modifyGoogleSearchUrl_safe (url : Bytes) :
    ∃ result, modifyGoogleSearchUrl url = some result ∧
      (result.isSome ↔ IsSearch (splitParts url)) ∧
      ∀ safeUrl, result = some safeUrl →
        splitParts safeUrl = safeParts (splitParts url) ∧
        (splitParts safeUrl).params.count (bytes "safe=active") = 1 ∧
        modifyGoogleSearchUrl safeUrl = some (some safeUrl) := by
  classical
  refine ⟨_, modifyGoogleSearchUrl_eq url, ?_, fun safeUrl hsafe => ?_⟩
  · split
    · next h => exact iff_of_true rfl h
    · next h => exact iff_of_false Bool.false_ne_true h
  · split at hsafe
    · next hsearch =>
      obtain rfl := Option.some.inj hsafe
      have hparts := splitParts_joinParts (wellFormed_safeParts (wellFormed_splitParts url))
      refine ⟨hparts, by rw [hparts]; exact count_safeParts _, ?_⟩
      rw [modifyGoogleSearchUrl_eq, hparts, if_pos (isSearch_safeParts hsearch),
        safeParts_safeParts]
    · cases hsafe

example : modifyGoogleSearchUrl (bytes "http://www.Google.pl/search?q=a&%73afe=off#x") =
    some (some (bytes "http://www.google.pl/search?q=a&safe=active#x")) := by
  decide +kernel

end SafeKiddo
