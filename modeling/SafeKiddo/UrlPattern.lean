import SafeKiddo.Lib.ByteString

/-!
# Url patterns

The `UrlPattern` class of `dbClient.cpp` and the selection of the best matching pattern in
`server.cpp`. A pattern is made from an address of the `url` table. An address without a path
matches a host and all its subdomains; an address with a path matches that host only and the urls
below the path.

Results:
1. `matchesUrl_ofId`: the position arithmetic of `matchesUrl` decides `Matches`.
2. `isMoreSpecificThan_ofId`: two patterns matching one url are compared by `MoreSpecific`, and no
   assertion of the comparison fires.
3. `specificity_injective`: the ids matching one url are totally ordered.
4. `selectBestMatchingUrlPatternIds_ofIds`: the scan with a running best finds the maximum.
-/

namespace SafeKiddo

open ByteString

/-! ## 1. The code -/

/-- The order is important: a later kind is more specific. -/
inductive Kind
  | matchAllSubdomains
  | matchDomainWithPath
  deriving DecidableEq

/-- The address of an url row. -/
abbrev UrlPatternId := Bytes

structure UrlPattern where
  urlPatternId : UrlPatternId
  hostName : Bytes
  path : Bytes
  kind : Kind
  deriving DecidableEq

namespace UrlPattern

def createAllSubdomains (urlPatternId : UrlPatternId) (hostName : Bytes) : UrlPattern :=
  ⟨urlPatternId, hostName, [], .matchAllSubdomains⟩

def createDomainWithPath (urlPatternId : UrlPatternId) (hostName path : Bytes) :
    Checked UrlPattern := do
  assert (path.head? = some '/')
  return ⟨urlPatternId, hostName, path, .matchDomainWithPath⟩

/-- One round of the loop of `createFromIds`. -/
def createFromId (urlPatternId : UrlPatternId) : Checked UrlPattern :=
  match find urlPatternId '/' 0 with
  | none => some (createAllSubdomains urlPatternId urlPatternId)
  | some slashPos =>
    createDomainWithPath urlPatternId (substr urlPatternId 0 (some slashPos))
      (substr urlPatternId slashPos none)

def createFromIds (urlPatternIds : List UrlPatternId) : Checked (List UrlPattern) :=
  urlPatternIds.mapM createFromId

/-- A missing slash fails the assertion, which is the `none` of `find`. -/
def hostNameMatches (p : UrlPattern) (requestUrl : Bytes) (subDomainAllowed : Bool) :
    Checked Bool := do
  let slashPos ← find requestUrl '/' 0
  if slashPos < p.hostName.length then
    some false
  else if ← compareAt requestUrl (slashPos - p.hostName.length) p.hostName.length p.hostName then
    if slashPos = p.hostName.length then
      some true
    else if subDomainAllowed then
      requestUrl[slashPos - p.hostName.length - 1]?.map (· = chr '.')
    else
      some false
  else
    some false

def pathMatches (p : UrlPattern) (requestUrl : Bytes) : Checked Bool := do
  let slashPos ← find requestUrl '/' 0
  if requestUrl.length - slashPos < p.path.length then
    some false
  else
    compareAt requestUrl slashPos p.path.length p.path

def matchesUrl (p : UrlPattern) (requestUrl : Bytes) : Checked Bool :=
  match p.kind with
  | .matchAllSubdomains => p.hostNameMatches requestUrl true
  | .matchDomainWithPath => do
    if ← p.hostNameMatches requestUrl false then p.pathMatches requestUrl else some false

/-- The assertions say that only patterns matching the same url can be compared. -/
def isMoreSpecificThan (p other : UrlPattern) : Checked Bool :=
  if p.kind ≠ other.kind then
    some (p.kind = .matchDomainWithPath)
  else
    match p.kind with
    | .matchAllSubdomains =>
      if p.hostName.length > other.hostName.length then do
        assert (other.hostName <:+ p.hostName)
        return true
      else do
        assert (p.hostName <:+ other.hostName)
        return false
    | .matchDomainWithPath => do
      assert (p.hostName = other.hostName)
      if p.path.length > other.path.length then
        assert (other.path <+: p.path)
        return true
      else
        assert (p.path <+: other.path)
        return false

end UrlPattern

/-- One round of the scan: `bestMatching` is the best pattern so far. -/
def selectStep (requestUrl : Bytes) (bestMatching : Option UrlPattern) (urlPattern : UrlPattern) :
    Checked (Option UrlPattern) := do
  if ← urlPattern.matchesUrl requestUrl then
    match bestMatching with
    | none => return some urlPattern
    | some best =>
      return if ← urlPattern.isMoreSpecificThan best then some urlPattern else some best
  else
    return bestMatching

def selectBestMatchingUrlPatternIds (profileUrlPatterns : List UrlPattern) (requestUrl : Bytes) :
    Checked (List UrlPatternId) := do
  let bestMatching ← profileUrlPatterns.foldlM (selectStep requestUrl) none
  return (bestMatching.map UrlPattern.urlPatternId).toList

/-! ## 2. What a pattern means -/

/-- The part before the first slash. -/
def hostPart (u : Bytes) : Bytes := u.takeWhile (· ≠ '/')

/-- The part from the first slash on. -/
def pathPart (u : Bytes) : Bytes := u.dropWhile (· ≠ '/')

/-- The url is covered by the rule with this address. -/
def Matches (a : UrlPatternId) (u : Bytes) : Prop :=
  if chr '/' ∈ a then hostPart a = hostPart u ∧ pathPart a <+: pathPart u
  else hostPart u = a ∨ chr '.' :: a <:+ hostPart u

instance (a : UrlPatternId) (u : Bytes) : Decidable (Matches a u) := by
  unfold Matches; infer_instance

/-- A rule with a path beats any rule without one; of two rules without a path the longer host
wins, of two rules with a path the longer path. -/
def MoreSpecific (a b : UrlPatternId) : Prop :=
  if chr '/' ∈ a then chr '/' ∈ b → (pathPart b).length < (pathPart a).length
  else chr '/' ∉ b ∧ b.length < a.length

instance (a b : UrlPatternId) : Decidable (MoreSpecific a b) := by
  unfold MoreSpecific; infer_instance

/-- The kind of a rule, then the length that decides within the kind. -/
def specificity (a : UrlPatternId) : ℕ ×ₗ ℕ :=
  if chr '/' ∈ a then toLex (1, (pathPart a).length) else toLex (0, a.length)

/-- The most specific rule that covers the url. -/
def bestMatchingId (ids : List UrlPatternId) (u : Bytes) : Option UrlPatternId :=
  (ids.filter (Matches · u)).argmax specificity

/-- The pattern of an address. -/
def UrlPattern.ofId (a : UrlPatternId) : UrlPattern :=
  ⟨a, hostPart a, pathPart a, if chr '/' ∈ a then .matchDomainWithPath else .matchAllSubdomains⟩

/-! ## 3. Cutting at the first slash -/

namespace UrlPatternLemmas

theorem hostPart_append_pathPart (u : Bytes) : hostPart u ++ pathPart u = u :=
  List.takeWhile_append_dropWhile

theorem hostPart_cons {h t : Bytes} (hh : chr '/' ∉ h) : hostPart (h ++ chr '/' :: t) = h := by
  rw [hostPart, List.takeWhile_append_of_pos (keep_of_notMem hh)]
  simp

theorem pathPart_cons {h t : Bytes} (hh : chr '/' ∉ h) :
    pathPart (h ++ chr '/' :: t) = chr '/' :: t := by
  rw [pathPart, List.dropWhile_append_of_pos (keep_of_notMem hh)]
  simp

theorem hostPart_of_notMem {a : Bytes} (ha : chr '/' ∉ a) : hostPart a = a :=
  List.takeWhile_eq_self_iff.mpr (keep_of_notMem ha)

theorem pathPart_of_notMem {a : Bytes} (ha : chr '/' ∉ a) : pathPart a = [] := by
  have h := hostPart_append_pathPart a
  rw [hostPart_of_notMem ha] at h
  simpa using h

/-- A string with a slash is its host part, the slash and the rest. -/
theorem exists_slash {u : Bytes} (hu : chr '/' ∈ u) :
    ∃ h t, u = h ++ chr '/' :: t ∧ chr '/' ∉ h := by
  obtain ⟨h, t, hut, hh⟩ := List.eq_append_cons_of_mem hu
  exact ⟨h, t, hut, hh⟩

/-- The `n` bytes that end at the first slash are the last `n` bytes of the host. -/
theorem compareAt_host {h t g : Bytes} (hg : g.length ≤ h.length) :
    compareAt (h ++ t) (h.length - g.length) g.length g = some (decide (g <:+ h)) := by
  have hcut : ((h ++ t).drop (h.length - g.length)).take g.length =
      h.drop (h.length - g.length) := by
    rw [List.drop_append_of_le_length (by omega), List.take_append_of_le_length (by simp; omega),
      List.take_of_length_le (by simp; omega)]
  rw [compareAt, if_pos (by simp; omega), hcut]
  simp only [List.suffix_iff_eq_drop, eq_comm]

/-- The byte in front of a proper suffix of the host is a dot when the dotted suffix is one too. -/
theorem byte_before_suffix {h t g : Bytes} (hs : g <:+ h) (hlt : g.length < h.length) :
    (h ++ t)[h.length - g.length - 1]?.map (fun c => decide (c = chr '.')) =
      some (decide (chr '.' :: g <:+ h)) := by
  obtain ⟨x, rfl⟩ := hs
  rcases List.eq_nil_or_concat x with rfl | ⟨y, c, rfl⟩
  · simp at hlt
  · have hpos : (y.concat c ++ g).length - g.length - 1 = y.length := by
      simp
      omega
    have hsub : chr '.' :: g <:+ y.concat c ++ g ↔ c = chr '.' := by
      constructor
      · intro hs
        have hc : c :: g <:+ y.concat c ++ g := ⟨y, by simp⟩
        have he := (List.suffix_of_suffix_length_le hs hc (by simp)).eq_of_length (by simp)
        exact (List.cons.inj he).1.symm
      · rintro rfl
        exact ⟨y, by simp⟩
    have hbefore : (y.concat c ++ g ++ t)[y.length]? = some c := by simp
    rw [hpos, hbefore]
    simp only [hsub, Option.map_some]

end UrlPatternLemmas

open UrlPatternLemmas

/-! ## 4. Matching one url -/

namespace UrlPattern

theorem createFromId_eq (a : UrlPatternId) : createFromId a = some (ofId a) := by
  by_cases ha : chr '/' ∈ a
  · obtain ⟨h, t, rfl, hh⟩ := exists_slash ha
    simp [createFromId, find_append hh, createDomainWithPath, substr, ofId, hostPart_cons hh,
      pathPart_cons hh]
  · simp [createFromId, find_eq_none (n := 0) ha, createAllSubdomains, ofId, ha,
      hostPart_of_notMem ha, pathPart_of_notMem ha]

theorem createFromIds_eq (ids : List UrlPatternId) : createFromIds ids = some (ids.map ofId) := by
  induction ids with
  | nil => rfl
  | cons a ids ih =>
    rw [createFromIds] at ih ⊢
    rw [List.mapM_cons, ih, createFromId_eq]
    rfl

theorem hostNameMatches_eq (p : UrlPattern) {h t : Bytes} (hh : chr '/' ∉ h) (sub : Bool) :
    p.hostNameMatches (h ++ chr '/' :: t) sub =
      some (decide (h = p.hostName ∨ sub = true ∧ chr '.' :: p.hostName <:+ h)) := by
  rw [hostNameMatches, find_append hh]
  simp only [Option.bind_eq_bind, Option.bind_some]
  by_cases hlen : h.length < p.hostName.length
  · have hne : h ≠ p.hostName := fun he => by simp [he] at hlen
    have hns : ¬ chr '.' :: p.hostName <:+ h := fun hs => by
      have := hs.length_le
      simp at this
      omega
    simp [hlen, hne, hns]
  rw [if_neg hlen, compareAt_host (Nat.le_of_not_lt hlen), Option.bind_some]
  by_cases hsuf : p.hostName <:+ h
  · rcases Nat.lt_or_ge p.hostName.length h.length with hlt | hge
    · have hne : h ≠ p.hostName := fun he => by simp [he] at hlt
      rw [byte_before_suffix hsuf hlt]
      cases sub <;> simp [hsuf, hlt.ne', hne]
    · simp [hsuf.eq_of_length_le hge]
  · have hne : h ≠ p.hostName := fun he => hsuf (he ▸ List.suffix_rfl)
    have hns : ¬ chr '.' :: p.hostName <:+ h := fun hs => hsuf ((List.suffix_cons _ _).trans hs)
    simp [hsuf, hne, hns]

theorem pathMatches_eq (p : UrlPattern) {h t : Bytes} (hh : chr '/' ∉ h) :
    p.pathMatches (h ++ chr '/' :: t) = some (decide (p.path <+: chr '/' :: t)) := by
  rw [pathMatches, find_append hh]
  simp only [Option.bind_eq_bind, Option.bind_some]
  by_cases hlen : (h ++ chr '/' :: t).length - h.length < p.path.length
  · have hnp : ¬ p.path <+: chr '/' :: t := fun hp => by
      have := hp.length_le
      simp at this hlen
      omega
    simp only [if_pos hlen, hnp, decide_false]
  · rw [if_neg hlen, compareAt, if_pos (by simp), List.drop_left]
    simp only [List.prefix_iff_eq_take, eq_comm]

/-- `matchesUrl` decides whether the url is covered by the address, and computes no position
outside the url. -/
theorem matchesUrl_ofId (a : UrlPatternId) {u : Bytes} (hu : chr '/' ∈ u) :
    (ofId a).matchesUrl u = some (decide (Matches a u)) := by
  obtain ⟨h, t, rfl, hh⟩ := exists_slash hu
  by_cases ha : chr '/' ∈ a
  · simp only [matchesUrl, ofId, ha, if_true, hostNameMatches_eq _ hh, pathMatches_eq _ hh, Matches,
      hostPart_cons hh, pathPart_cons hh, Option.bind_eq_bind, Option.bind_some]
    by_cases he : h = hostPart a
    · simp [he]
    · simp [he, Ne.symm he]
  · simp [matchesUrl, ofId, ha, hostNameMatches_eq _ hh, Matches, hostPart_cons hh,
      hostPart_of_notMem ha]

end UrlPattern

/-! ## 5. The order of the matching rules -/

theorem moreSpecific_iff {a b : UrlPatternId} :
    MoreSpecific a b ↔ specificity b < specificity a := by
  by_cases ha : chr '/' ∈ a <;> by_cases hb : chr '/' ∈ b <;>
    simp [MoreSpecific, specificity, ha, hb, Prod.Lex.toLex_lt_toLex]

/-- Without a path, an address that covers the url is a suffix of its host. -/
theorem suffix_of_matches {a : UrlPatternId} {u : Bytes} (ha : chr '/' ∉ a) (h : Matches a u) :
    a <:+ hostPart u := by
  rw [Matches, if_neg ha] at h
  rcases h with rfl | h
  · exact List.suffix_rfl
  · exact (List.suffix_cons _ _).trans h

/-- With a path, an address that covers the url is the host of the url and a prefix of its path. -/
theorem prefix_of_matches {a : UrlPatternId} {u : Bytes} (ha : chr '/' ∈ a) (h : Matches a u) :
    hostPart a = hostPart u ∧ pathPart a <+: pathPart u := by
  rwa [Matches, if_pos ha] at h

/-- Two distinct ids matching one url are never equally specific. -/
theorem specificity_injective {a b : UrlPatternId} {u : Bytes} (ha : Matches a u)
    (hb : Matches b u) (h : specificity a = specificity b) : a = b := by
  by_cases hsa : chr '/' ∈ a <;> by_cases hsb : chr '/' ∈ b <;>
    simp only [specificity, hsa, hsb, if_true, if_false, EmbeddingLike.apply_eq_iff_eq,
      Prod.mk.injEq, true_and, zero_ne_one, one_ne_zero, false_and] at h
  · obtain ⟨hha, hpa⟩ := prefix_of_matches hsa ha
    obtain ⟨hhb, hpb⟩ := prefix_of_matches hsb hb
    have hp : pathPart a = pathPart b :=
      (List.prefix_of_prefix_length_le hpa hpb h.le).eq_of_length h
    rw [← hostPart_append_pathPart a, ← hostPart_append_pathPart b, hha, hhb, hp]
  · exact (List.suffix_of_suffix_length_le (suffix_of_matches hsa ha) (suffix_of_matches hsb hb)
      h.le).eq_of_length h

/-- Of two distinct ids matching one url, one is more specific. -/
theorem moreSpecific_total {a b : UrlPatternId} {u : Bytes} (ha : Matches a u) (hb : Matches b u)
    (hne : a ≠ b) : MoreSpecific a b ∨ MoreSpecific b a := by
  rw [moreSpecific_iff, moreSpecific_iff]
  exact lt_or_gt_of_ne fun he => hne (specificity_injective ha hb he.symm)

theorem UrlPattern.isMoreSpecificThan_ofId {a b : UrlPatternId} {u : Bytes} (ha : Matches a u)
    (hb : Matches b u) :
    (ofId a).isMoreSpecificThan (ofId b) = some (decide (MoreSpecific a b)) := by
  by_cases hsa : chr '/' ∈ a <;> by_cases hsb : chr '/' ∈ b
  · obtain ⟨hha, hpa⟩ := prefix_of_matches hsa ha
    obtain ⟨hhb, hpb⟩ := prefix_of_matches hsb hb
    by_cases hlen : (pathPart b).length < (pathPart a).length
    · simp [isMoreSpecificThan, ofId, hsa, hsb, MoreSpecific, hlen, hha, hhb,
        List.prefix_of_prefix_length_le hpb hpa hlen.le]
    · simp [isMoreSpecificThan, ofId, hsa, hsb, MoreSpecific, hlen, hha, hhb,
        List.prefix_of_prefix_length_le hpa hpb (Nat.le_of_not_lt hlen)]
  · simp [isMoreSpecificThan, ofId, hsa, hsb, MoreSpecific]
  · simp [isMoreSpecificThan, ofId, hsa, hsb, MoreSpecific]
  · have hfa := suffix_of_matches hsa ha
    have hfb := suffix_of_matches hsb hb
    by_cases hlen : b.length < a.length
    · simp [isMoreSpecificThan, ofId, hsa, hsb, MoreSpecific, hlen, hostPart_of_notMem hsa,
        hostPart_of_notMem hsb, List.suffix_of_suffix_length_le hfb hfa hlen.le]
    · simp [isMoreSpecificThan, ofId, hsa, hsb, MoreSpecific, hlen, hostPart_of_notMem hsa,
        hostPart_of_notMem hsb, List.suffix_of_suffix_length_le hfa hfb (Nat.le_of_not_lt hlen)]

/-! ## 6. The scan finds the maximum -/

/-- One round of the scan is one round of `List.argmax` over the ids of the matching patterns. -/
theorem selectStep_ofId {best : Option UrlPatternId} {a : UrlPatternId} {u : Bytes}
    (hu : chr '/' ∈ u) (hbest : ∀ b ∈ best, Matches b u) :
    selectStep u (best.map UrlPattern.ofId) (UrlPattern.ofId a) =
      some ((if Matches a u then List.argAux (fun b c => specificity c < specificity b) best a
        else best).map UrlPattern.ofId) := by
  rw [selectStep.eq_def, UrlPattern.matchesUrl_ofId a hu]
  by_cases ha : Matches a u
  · cases best with
    | none => simp [ha, List.argAux]
    | some b =>
      have hcmp := UrlPattern.isMoreSpecificThan_ofId ha (hbest b rfl)
      by_cases hab : MoreSpecific a b
      · simp [ha, hcmp, hab, List.argAux, moreSpecific_iff.mp hab]
      · have hlt : ¬ specificity b < specificity a := fun h => hab (moreSpecific_iff.mpr h)
        simp [ha, hcmp, hab, List.argAux, hlt]
  · simp [ha]

/-- The scan from a matching running best. -/
theorem foldlM_selectStep {u : Bytes} (hu : chr '/' ∈ u) (ids : List UrlPatternId) :
    ∀ best : Option UrlPatternId, (∀ b ∈ best, Matches b u) →
      (ids.map UrlPattern.ofId).foldlM (selectStep u) (best.map UrlPattern.ofId) =
        some (((ids.filter (Matches · u)).foldl
          (List.argAux fun b c => specificity c < specificity b) best).map UrlPattern.ofId) := by
  induction ids with
  | nil => intro best _; rfl
  | cons a ids ih =>
    intro best hbest
    rw [List.map_cons, List.foldlM_cons, selectStep_ofId hu hbest, Option.bind_eq_bind,
      Option.bind_some]
    by_cases ha : Matches a u
    · have hnext : ∀ b ∈ List.argAux (fun b c => specificity c < specificity b) best a,
          Matches b u := by
        intro b hb
        cases best with
        | none => cases hb; exact ha
        | some c =>
          simp only [List.argAux] at hb
          split at hb
          · cases hb; exact ha
          · exact hbest b hb
      rw [if_pos ha, ih _ hnext]
      simp [ha]
    · rw [if_neg ha, ih _ hbest]
      simp [ha]

theorem selectBestMatchingUrlPatternIds_ofIds (ids : List UrlPatternId) {u : Bytes}
    (hu : chr '/' ∈ u) :
    selectBestMatchingUrlPatternIds (ids.map UrlPattern.ofId) u =
      some (bestMatchingId ids u).toList := by
  have h := foldlM_selectStep hu ids none (by simp)
  rw [Option.map_none] at h
  rw [selectBestMatchingUrlPatternIds, h]
  simp only [Option.bind_eq_bind, Option.bind_some, Option.map_map, Option.pure_def]
  rw [show UrlPattern.urlPatternId ∘ UrlPattern.ofId = id from rfl, Option.map_id]
  rfl

theorem bestMatchingId_eq_none {ids : List UrlPatternId} {u : Bytes} :
    bestMatchingId ids u = none ↔ ∀ a ∈ ids, ¬ Matches a u := by
  simp [bestMatchingId, List.argmax_eq_none, List.filter_eq_nil_iff]

/-- The best id is the only matching one that no matching one beats. -/
theorem bestMatchingId_eq_some {ids : List UrlPatternId} {u : Bytes} {b : UrlPatternId} :
    bestMatchingId ids u = some b ↔
      b ∈ ids ∧ Matches b u ∧ ∀ a ∈ ids, Matches a u → ¬ MoreSpecific a b := by
  constructor
  · intro h
    obtain ⟨hb, hbu⟩ := List.mem_filter.mp (List.argmax_mem h)
    refine ⟨hb, of_decide_eq_true hbu, ?_⟩
    intro a ha hau hlt
    have hle := List.le_of_mem_argmax (List.mem_filter.mpr ⟨ha, decide_eq_true hau⟩) h
    exact hle.not_gt (moreSpecific_iff.mp hlt)
  · rintro ⟨hb, hbu, hmax⟩
    cases hc : bestMatchingId ids u with
    | none => exact absurd hbu (bestMatchingId_eq_none.mp hc b hb)
    | some c =>
      obtain ⟨hcmem, hcu⟩ := List.mem_filter.mp (List.argmax_mem hc)
      have hbc := List.le_of_mem_argmax (List.mem_filter.mpr ⟨hb, decide_eq_true hbu⟩) hc
      have hcb : ¬ specificity b < specificity c := fun hlt =>
        hmax c hcmem (of_decide_eq_true hcu) (moreSpecific_iff.mpr hlt)
      rw [specificity_injective hbu (of_decide_eq_true hcu) (le_antisymm hbc (not_lt.mp hcb))]

theorem bestMatchingId_beats {ids : List UrlPatternId} {u : Bytes} {b : UrlPatternId}
    (hb : bestMatchingId ids u = some b) :
    ∀ a ∈ ids, Matches a u → a ≠ b → MoreSpecific b a := by
  obtain ⟨-, hbu, hmax⟩ := bestMatchingId_eq_some.mp hb
  exact fun a ha hau hne => (moreSpecific_total hau hbu hne).resolve_left (hmax a ha hau)

/-- The best id does not depend on order or repetition. -/
theorem bestMatchingId_congr {ids ids' : List UrlPatternId} {u : Bytes}
    (h : ∀ a, a ∈ ids' ↔ a ∈ ids) : bestMatchingId ids' u = bestMatchingId ids u := by
  cases hb : bestMatchingId ids u with
  | none =>
    rw [bestMatchingId_eq_none] at hb ⊢
    exact fun a ha => hb a ((h a).mp ha)
  | some b =>
    obtain ⟨hmem, hbu, hmax⟩ := bestMatchingId_eq_some.mp hb
    exact bestMatchingId_eq_some.mpr
      ⟨(h b).mpr hmem, hbu, fun a ha => hmax a ((h a).mp ha)⟩

/-! ## 7. Best-match selection -/

/-- `ret` is the right answer of the selection among `patterns` for the url `u`. -/
structure SelectsBest (patterns : List UrlPattern) (u : Bytes) (ret : List UrlPatternId) :
    Prop where
  /-- No id exactly when no pattern matches. -/
  empty_iff : ret = [] ↔ ∀ p ∈ patterns, p.matchesUrl u = some false
  /-- Otherwise one id: the only matching one that is at least as specific as every other. -/
  best : ret ≠ [] → ∃ b, ret = [b] ∧ ∀ p ∈ patterns, p.matchesUrl u = some true →
    (p.urlPatternId = b ↔
      ∀ q ∈ patterns, q.matchesUrl u = some true → ¬ MoreSpecific q.urlPatternId p.urlPatternId)
  /-- The one id is the id of a matching pattern. -/
  matching : ∀ b ∈ ret, ∃ p ∈ patterns, p.matchesUrl u = some true ∧ p.urlPatternId = b
  /-- No assertion of a comparison fires. -/
  compares : ∀ p ∈ patterns, ∀ q ∈ patterns, p.matchesUrl u = some true →
    q.matchesUrl u = some true →
    p.isMoreSpecificThan q = some (decide (MoreSpecific p.urlPatternId q.urlPatternId))
  /-- Distinct ids are never equally specific. -/
  strict : ∀ p ∈ patterns, ∀ q ∈ patterns, p.matchesUrl u = some true →
    q.matchesUrl u = some true → p.urlPatternId ≠ q.urlPatternId →
    MoreSpecific p.urlPatternId q.urlPatternId ∨ MoreSpecific q.urlPatternId p.urlPatternId

theorem selectsBest_ofIds (ids : List UrlPatternId) {u : Bytes} (hu : chr '/' ∈ u) :
    SelectsBest (ids.map UrlPattern.ofId) u (bestMatchingId ids u).toList := by
  have hmatch : ∀ a, (UrlPattern.ofId a).matchesUrl u = some true ↔ Matches a u := by
    simp [UrlPattern.matchesUrl_ofId _ hu]
  have hno : ∀ a, (UrlPattern.ofId a).matchesUrl u = some false ↔ ¬ Matches a u := by
    simp [UrlPattern.matchesUrl_ofId _ hu]
  constructor
  case empty_iff => simp [hno, bestMatchingId_eq_none]
  case best =>
    intro hne
    obtain ⟨b, hb⟩ := Option.ne_none_iff_exists'.mp (by simpa using hne)
    refine ⟨b, by simp [hb], ?_⟩
    simp only [List.forall_mem_map, hmatch]
    intro a ha hau
    have huniq := @bestMatchingId_eq_some ids u a
    simp only [ha, hau, true_and, hb, Option.some.injEq] at huniq
    change a = b ↔ ∀ c ∈ ids, Matches c u → ¬ MoreSpecific c a
    rw [← huniq]
    exact eq_comm
  case matching =>
    intro b hb
    obtain ⟨hmem, hbu, -⟩ := bestMatchingId_eq_some.mp (Option.mem_toList.mp hb)
    exact ⟨UrlPattern.ofId b, List.mem_map_of_mem hmem, (hmatch b).mpr hbu, rfl⟩
  case compares =>
    simp only [List.forall_mem_map, hmatch]
    exact fun a _ b _ ha hb => UrlPattern.isMoreSpecificThan_ofId ha hb
  case strict =>
    simp only [List.forall_mem_map, hmatch]
    exact fun a _ b _ ha hb hne => moreSpecific_total ha hb hne

/-- Whatever the addresses, their order and their repetitions, the selection stops at no assertion
and returns the id of the most specific matching pattern, if any. Another list of the same
addresses gives the same answer. -/
theorem selectBestMatchingUrlPatternIds_spec (ids : List UrlPatternId) {u : Bytes}
    (hu : chr '/' ∈ u) :
    ∃ patterns ret, UrlPattern.createFromIds ids = some patterns ∧
      selectBestMatchingUrlPatternIds patterns u = some ret ∧ SelectsBest patterns u ret ∧
      ∀ ids', (∀ a, a ∈ ids' ↔ a ∈ ids) → ∃ patterns',
        UrlPattern.createFromIds ids' = some patterns' ∧
          selectBestMatchingUrlPatternIds patterns' u = some ret := by
  refine ⟨_, _, UrlPattern.createFromIds_eq ids, selectBestMatchingUrlPatternIds_ofIds ids hu,
    selectsBest_ofIds ids hu, fun ids' h => ⟨_, UrlPattern.createFromIds_eq ids', ?_⟩⟩
  rw [selectBestMatchingUrlPatternIds_ofIds ids' hu, bestMatchingId_congr h]

theorem selectBestMatchingUrlPatternIds_onet :
    ∃ patterns ret,
      UrlPattern.createFromIds [bytes "onet.pl", bytes "www.onet.pl/", bytes "www.onet.pl"] =
        some patterns ∧
      selectBestMatchingUrlPatternIds patterns (bytes "www.onet.pl/abc") = some ret ∧
      SelectsBest patterns (bytes "www.onet.pl/abc") ret := by
  obtain ⟨patterns, ret, hp, hr, hs, -⟩ := selectBestMatchingUrlPatternIds_spec
    [bytes "onet.pl", bytes "www.onet.pl/", bytes "www.onet.pl"] (u := bytes "www.onet.pl/abc")
    (by decide)
  exact ⟨patterns, ret, hp, hr, hs⟩

end SafeKiddo
