import SafeKiddo.TemporaryAccess
import SafeKiddo.Verdict

/-!
# The order of database rows

No statement has an `ORDER BY`, and the schema lets rows repeat an address or a group with another
flag. When does the verdict of `queryDatabase` depend on the order in which the rows come?

Results:
1. `markOf_of_agree`, `markOf_blockedLast`, `markOf_allowedLast`: the mark of an id, when its rows
   agree, and in two special orders.
2. `anyRowCovers_eq_any`, `anyRowCovers_eq_stop`: what the loop over the temporary grants answers.
3. `sameCode_iff`: the verdict is the same for all orders exactly when the rows are unambiguous
   where they decide.
-/

namespace SafeKiddo

open ByteString

/-! ## 1. Marks -/

namespace Decisions

variable {Id : Type} [DecidableEq Id] {rows : List (Id × Bool)} {id : Id}

theorem markOf_append (rows rows' : List (Id × Bool)) (id : Id) :
    markOf (rows ++ rows') id = (markOf rows' id).or (markOf rows id) := by
  rw [markOf, List.reverse_append, List.find?_append]
  cases hlast : rows'.reverse.find? (·.1 = id) with
  | none => simp [markOf, hlast]
  | some row => simp [markOf, hlast]

/-- Rows that agree about an id give their common mark. -/
theorem markOf_of_agree {blocked : Bool} (hmem : (id, blocked) ∈ rows)
    (hagree : (id, !blocked) ∉ rows) : markOf rows id = some (.ofBlocked blocked) := by
  obtain ⟨mark, hmark⟩ := Option.isSome_iff_exists.mp
    (markOf_isSome.mpr (List.mem_map_of_mem hmem))
  obtain ⟨row, hrow, rfl⟩ := Option.map_eq_some_iff.mp hmark
  have hid : row.1 = id := by simpa using List.find?_some hrow
  have hin : (id, row.2) ∈ rows := by
    have hmemrow := List.mem_reverse.mp (List.mem_of_find?_eq_some hrow)
    rwa [← hid]
  have hflag : row.2 = blocked := by
    by_contra hne
    rw [Bool.eq_not.mpr hne] at hin
    exact hagree hin
  rw [hmark, hflag]

/-- An id whose rows all allow it is not blocked. -/
theorem markOf_ne_blocked (h : (id, true) ∉ rows) : markOf rows id ≠ some .blocked := by
  intro hmark
  obtain ⟨row, hrow, hblocked⟩ := Option.map_eq_some_iff.mp hmark
  have hid : row.1 = id := by simpa using List.find?_some hrow
  have hflag : row.2 = true := by
    cases hrow2 : row.2 with
    | true => rfl
    | false => rw [hrow2] at hblocked; exact nomatch hblocked
  have hmem := List.mem_reverse.mp (List.mem_of_find?_eq_some hrow)
  rw [← hid, ← hflag] at h
  exact h hmem

/-- The order that blocks whatever some row blocks. -/
def blockedLast (rows : List (Id × Bool)) : List (Id × Bool) :=
  rows.filter (!·.2) ++ rows.filter (·.2)

/-- The order that allows whatever some row allows. -/
def allowedLast (rows : List (Id × Bool)) : List (Id × Bool) :=
  rows.filter (·.2) ++ rows.filter (!·.2)

omit [DecidableEq Id] in
theorem allowedLast_perm (rows : List (Id × Bool)) : (allowedLast rows).Perm rows :=
  List.filter_append_perm (fun row : Id × Bool => row.2) rows

omit [DecidableEq Id] in
theorem blockedLast_perm (rows : List (Id × Bool)) : (blockedLast rows).Perm rows :=
  List.perm_append_comm.trans (allowedLast_perm rows)

theorem markOf_blockedLast (h : (id, true) ∈ rows) :
    markOf (blockedLast rows) id = some .blocked := by
  have hlast : markOf (rows.filter (·.2)) id = some .blocked :=
    markOf_of_agree (List.mem_filter.mpr ⟨h, rfl⟩) (by simp)
  rw [blockedLast, markOf_append, hlast, Option.some_or]

theorem markOf_allowedLast (h : (id, false) ∈ rows) :
    markOf (allowedLast rows) id = some .allowed := by
  have hlast : markOf (rows.filter (!·.2)) id = some .allowed :=
    markOf_of_agree (List.mem_filter.mpr ⟨h, rfl⟩) (by simp)
  rw [allowedLast, markOf_append, hlast, Option.some_or]

end Decisions

/-! ## 2. Temporary grants -/

variable {currentUtcTime : Int} {rows : List TmpAccessRow}

/-- Without a row that stops the process. -/
theorem anyRowCovers_eq_any (h : ∀ row ∈ rows, rowCovers currentUtcTime row ≠ none) :
    anyRowCovers currentUtcTime rows =
      some (rows.any fun row => rowCovers currentUtcTime row = some true) := by
  induction rows with
  | nil => rfl
  | cons row rows ih =>
    obtain ⟨covers, hrow⟩ := Option.ne_none_iff_exists'.mp (h row List.mem_cons_self)
    rw [anyRowCovers_cons, hrow, Option.bind_some, List.any_cons, hrow,
      ih fun r hr => h r (List.mem_cons_of_mem _ hr)]
    cases covers <;> simp

/-- Without a row that covers the time. -/
theorem anyRowCovers_eq_stop (h : ∀ row ∈ rows, rowCovers currentUtcTime row ≠ some true) :
    anyRowCovers currentUtcTime rows =
      if rows.any fun row => (rowCovers currentUtcTime row).isNone then none else some false := by
  induction rows with
  | nil => rfl
  | cons row rows ih =>
    rw [anyRowCovers_cons, List.any_cons, ih fun r hr => h r (List.mem_cons_of_mem _ hr)]
    have hrow := h row List.mem_cons_self
    rcases hcovers : rowCovers currentUtcTime row with _ | _ | _
    · simp
    · simp
    · exact absurd hcovers hrow

/-- No row that covers the time is mixed with one that stops the process. -/
def GrantsAgree (currentUtcTime : Int) (rows : List TmpAccessRow) : Prop :=
  (∀ row ∈ rows, rowCovers currentUtcTime row ≠ none) ∨
    ∀ row ∈ rows, rowCovers currentUtcTime row ≠ some true

theorem anyRowCovers_perm {rows' : List TmpAccessRow} (h : rows.Perm rows')
    (hagree : GrantsAgree currentUtcTime rows) :
    anyRowCovers currentUtcTime rows' = anyRowCovers currentUtcTime rows := by
  rcases hagree with hruns | hnone
  · rw [anyRowCovers_eq_any hruns,
      anyRowCovers_eq_any fun row hrow => hruns row (h.mem_iff.mpr hrow), h.any_eq]
  · rw [anyRowCovers_eq_stop hnone,
      anyRowCovers_eq_stop fun row hrow => hnone row (h.mem_iff.mpr hrow), h.any_eq]

/-- Rows that do not agree cover the time in one order and stop the process in another one. -/
theorem anyRowCovers_mixed (h : ¬ GrantsAgree currentUtcTime rows) :
    (∃ rows', rows.Perm rows' ∧ anyRowCovers currentUtcTime rows' = some true) ∧
      ∃ rows', rows.Perm rows' ∧ anyRowCovers currentUtcTime rows' = none := by
  unfold GrantsAgree at h
  push Not at h
  obtain ⟨⟨stop, hstop, hnone⟩, cover, hcover, htrue⟩ := h
  obtain ⟨a, b, rfl⟩ := List.append_of_mem hcover
  refine ⟨⟨cover :: (a ++ b), List.perm_middle, ?_⟩, ?_⟩
  · rw [anyRowCovers_cons, htrue]
    rfl
  · obtain ⟨c, d, hsplit⟩ := List.append_of_mem hstop
    refine ⟨stop :: (c ++ d), hsplit ▸ List.perm_middle, ?_⟩
    rw [anyRowCovers_cons, hnone]
    rfl

/-! ## 3. The verdict of rows -/

/-- What the rows of the profile and of the categories of the site decide. -/
def codeOfRows (urls : List (UrlPatternId × Bool)) (groups : List (CategoryGroupId × Bool))
    (categories : List CategoryRow) (requestUrl : Bytes) : ResponseCode :=
  codeByRules (effectiveOfRows urls groups).forUrls (categoryBlocked groups (siteGroups categories))
    requestUrl

/-- The rows that decide are unambiguous: the best matching address is not both blocked and allowed;
without one, some group of the site is blocked and not allowed as well, or none is blocked. -/
def Unambiguous (urls : List (UrlPatternId × Bool)) (groups : List (CategoryGroupId × Bool))
    (siteGroups : List CategoryGroupId) (requestUrl : Bytes) : Prop :=
  match bestMatchingId (urls.map (·.1)) requestUrl with
  | some b => ¬ ((b, true) ∈ urls ∧ (b, false) ∈ urls)
  | none => (∃ g ∈ siteGroups, (g, true) ∈ groups ∧ (g, false) ∉ groups) ∨
    ∀ g ∈ siteGroups, (g, true) ∉ groups

section Rows

variable {urls urls' : List (UrlPatternId × Bool)} {groups groups' : List (CategoryGroupId × Bool)}
  {categories categories' : List CategoryRow} {requestUrl : Bytes}

theorem mem_siteGroups_perm (h : categories.Perm categories') {g : CategoryGroupId} :
    g ∈ siteGroups categories' ↔ g ∈ siteGroups categories := by
  unfold siteGroups
  rw [h.isEmpty_eq]
  split
  · exact Iff.rfl
  · exact (h.map CategoryRow.codeCategoriesGroupsId).mem_iff.symm

theorem bestMatchingId_effective :
    bestMatchingId (effectiveOfRows urls groups).forUrls.getIds requestUrl =
      bestMatchingId (urls.map (·.1)) requestUrl := by
  refine bestMatchingId_congr ?_
  intro a
  rw [Decisions.mem_getIds, effectiveOfRows, get_effective, Decisions.markOf_isSome]

theorem bestMatchingId_perm (h : urls.Perm urls') :
    bestMatchingId (urls'.map (·.1)) requestUrl = bestMatchingId (urls.map (·.1)) requestUrl :=
  bestMatchingId_congr fun _ => (h.map (·.1)).mem_iff.symm

/-- The code for a best matching address. -/
theorem codeOfRows_of_best {b : UrlPatternId}
    (hb : bestMatchingId (urls.map (·.1)) requestUrl = some b) :
    codeOfRows urls groups categories requestUrl =
      if Decisions.markOf urls b = some .blocked then .resUrlBlockedCustom else .resOk := by
  simp only [codeOfRows, codeByRules, bestMatchingId_effective, hb]
  rw [effectiveOfRows, get_effective]

/-- The code without a matching address. -/
theorem codeOfRows_of_none (hb : bestMatchingId (urls.map (·.1)) requestUrl = none) :
    codeOfRows urls groups categories requestUrl =
      if ∃ g ∈ siteGroups categories, Decisions.markOf groups g = some .blocked then
        .resCategoryBlockedCustom
      else .resOk := by
  simp only [codeOfRows, codeByRules, bestMatchingId_effective, hb]
  simp [categoryBlocked]

/-- Unambiguous rows decide the same in any order. -/
theorem codeOfRows_perm (hurls : urls.Perm urls') (hgroups : groups.Perm groups')
    (hcategories : categories.Perm categories')
    (h : Unambiguous urls groups (siteGroups categories) requestUrl) :
    codeOfRows urls' groups' categories' requestUrl =
      codeOfRows urls groups categories requestUrl := by
  unfold Unambiguous at h
  cases hb : bestMatchingId (urls.map (·.1)) requestUrl with
  | some b =>
    simp only [hb] at h
    rw [codeOfRows_of_best hb, codeOfRows_of_best ((bestMatchingId_perm hurls).trans hb)]
    obtain ⟨hmem, -, -⟩ := bestMatchingId_eq_some.mp hb
    obtain ⟨⟨_, blocked⟩, hrow, hid⟩ := List.mem_map.mp hmem
    replace hrow : (b, blocked) ∈ urls := hid ▸ hrow
    have hagree : (b, !blocked) ∉ urls := by
      intro hother
      cases blocked with
      | false => exact h ⟨hother, hrow⟩
      | true => exact h ⟨hrow, hother⟩
    rw [Decisions.markOf_of_agree hrow hagree, Decisions.markOf_of_agree (hurls.mem_iff.mp hrow)
      fun hother => hagree (hurls.mem_iff.mpr hother)]
  | none =>
    simp only [hb] at h
    rw [codeOfRows_of_none hb, codeOfRows_of_none ((bestMatchingId_perm hurls).trans hb)]
    simp only [mem_siteGroups_perm hcategories]
    rcases h with ⟨g, hg, hblocked, hallowed⟩ | hfree
    · have hmark := Decisions.markOf_of_agree hblocked hallowed
      have hmark' := Decisions.markOf_of_agree (hgroups.mem_iff.mp hblocked)
        fun hother => hallowed (hgroups.mem_iff.mpr hother)
      rw [if_pos ⟨g, hg, hmark'⟩, if_pos ⟨g, hg, hmark⟩]
    · rw [if_neg, if_neg]
      · rintro ⟨g, hg, hmark⟩
        exact Decisions.markOf_ne_blocked (hfree g hg) hmark
      · rintro ⟨g, hg, hmark⟩
        exact Decisions.markOf_ne_blocked
          (fun hmem => hfree g hg (hgroups.mem_iff.mpr hmem)) hmark

/-- Ambiguous rows decide differently in two orders. -/
theorem codeOfRows_ambiguous (h : ¬ Unambiguous urls groups (siteGroups categories) requestUrl) :
    codeOfRows (Decisions.blockedLast urls) (Decisions.blockedLast groups) categories requestUrl ≠
      codeOfRows (Decisions.allowedLast urls) (Decisions.allowedLast groups) categories
        requestUrl := by
  have hbest := @bestMatchingId_perm _ _ requestUrl (Decisions.blockedLast_perm urls).symm
  have hbest' := @bestMatchingId_perm _ _ requestUrl (Decisions.allowedLast_perm urls).symm
  unfold Unambiguous at h
  cases hb : bestMatchingId (urls.map (·.1)) requestUrl with
  | some b =>
    simp only [hb, not_not] at h
    rw [codeOfRows_of_best (hbest.trans hb), codeOfRows_of_best (hbest'.trans hb),
      Decisions.markOf_blockedLast h.1, Decisions.markOf_allowedLast h.2]
    simp
  | none =>
    simp only [hb] at h
    push Not at h
    obtain ⟨hallowed, g, hg, hblocked⟩ := h
    rw [codeOfRows_of_none (hbest.trans hb), codeOfRows_of_none (hbest'.trans hb),
      if_pos ⟨g, hg, Decisions.markOf_blockedLast hblocked⟩, if_neg]
    · simp
    · rintro ⟨g', hg', hmark⟩
      rcases Decidable.em ((g', true) ∈ groups) with hin | hout
      · rw [Decisions.markOf_allowedLast (hallowed g' hg' hin)] at hmark
        exact nomatch hmark
      · exact Decisions.markOf_ne_blocked
          (fun hmem => hout ((Decisions.allowedLast_perm groups).mem_iff.mp hmem)) hmark

end Rows

/-! ## 4. Reordered databases -/

/-- The same rows in some order, or the same error. -/
inductive SameRows {Row : Type} : Result (List Row) → Result (List Row) → Prop
  | ok {rows rows' : List Row} (h : rows.Perm rows') : SameRows (.ok rows) (.ok rows')
  | error (e : Int) : SameRows (.error e) (.error e)

/-- The same database, whose rows come in another order. -/
structure Reordered (conn conn' : DBConnection) : Prop where
  child : conn'.getChild = conn.getChild
  access : conn'.checkAccessControl = conn.checkAccessControl
  profile : conn'.getProfile = conn.getProfile
  categoryGroup : conn'.getCategoryGroup = conn.getCategoryGroup
  tmpAccess : ∀ id, SameRows (conn.checkTmpAccessControl id) (conn'.checkTmpAccessControl id)
  urlList : ∀ id, SameRows (conn.getProfileUrlList id) (conn'.getProfileUrlList id)
  groupList : ∀ id, SameRows (conn.getProfileCategoriesGroupsList id)
    (conn'.getProfileCategoriesGroupsList id)
  categories : ∀ ids, SameRows (conn.queryCategories ids) (conn'.queryCategories ids)

/-- The group of a category has its row by the foreign key, so the lookups of the groups of the site
all succeed, unless all of them fail. -/
def GroupLookupsAlike (conn : DBConnection) (categorizations : List Categorization) : Prop :=
  ∀ rows, conn.queryCategories (categorizations.map fun c => Int32.ofNat c.category) = .ok rows →
    ∀ row ∈ rows, ∀ row' ∈ rows,
      (∃ name, conn.getCategoryGroup row.codeCategoriesGroupsId = .ok [name]) →
      ∃ name, conn.getCategoryGroup row'.codeCategoriesGroupsId = .ok [name]

/-- Where the verdict does not depend on the order of rows. -/
structure OrderFree (env : TimeEnv) (conn : DBConnection) (child : Child)
    (categorizations : List Categorization) (requestUrl : Bytes) : Prop where
  /-- When the temporary grants are read, they agree. -/
  grants : hasInternetAccess env conn child.childId
      (env.convertToTimezoneTime env.getCurrentUtcTime child.timezone) = some false →
    ∀ rows, conn.checkTmpAccessControl child.childId = .ok rows →
      GrantsAgree env.getCurrentUtcTime rows
  /-- When the rules of the profile are read, they are unambiguous. -/
  rules : accessOf env conn child = some true → ∀ urls groups categories,
    LookupsSucceed conn child categorizations urls groups categories →
      Unambiguous urls groups (siteGroups categories) requestUrl

section SameRows

variable {Row : Type} {result result' : Result (List Row)}

theorem SameRows.refl (result : Result (List Row)) : SameRows result result := by
  cases result with
  | ok rows => exact .ok (List.Perm.refl rows)
  | error e => exact .error e

theorem SameRows.symm (h : SameRows result result') : SameRows result' result := by
  cases h with
  | ok h => exact .ok h.symm
  | error e => exact .error e

theorem SameRows.exists_perm (h : SameRows result result') {rows : List Row}
    (hrows : result = .ok rows) : ∃ rows', result' = .ok rows' ∧ rows.Perm rows' := by
  cases h with
  | ok h => cases hrows; exact ⟨_, rfl, h⟩
  | error e => cases hrows

theorem SameRows.eq_error (h : SameRows result result') {e : Int} (he : result = .error e) :
    result' = .error e := by
  cases h with
  | ok h => cases he
  | error e => exact he

/-- A lookup whose answer for one parameter is put into another order. -/
theorem SameRows.update {Id : Type} [DecidableEq Id] {lookup : Id → Result (List Row)} {id : Id}
    {rows rows' : List Row} (hrows : lookup id = .ok rows) (h : rows.Perm rows') (id' : Id) :
    SameRows (lookup id') (Function.update lookup id (.ok rows') id') := by
  rcases eq_or_ne id' id with rfl | hne
  · rw [Function.update_self, hrows]
    exact .ok h
  · rw [Function.update_of_ne hne]
    exact .refl _

end SameRows

section Reordered

variable {env : TimeEnv} {conn conn' : DBConnection} {child : Child}
  {categorizations : List Categorization} {urls urls' : List (UrlPatternId × Bool)}
  {groups groups' : List (CategoryGroupId × Bool)} {categories : List CategoryRow}
  {requestUrl : Bytes}

theorem Reordered.symm (h : Reordered conn conn') : Reordered conn' conn :=
  ⟨h.child.symm, h.access.symm, h.profile.symm, h.categoryGroup.symm,
    fun id => (h.tmpAccess id).symm, fun id => (h.urlList id).symm, fun id => (h.groupList id).symm,
    fun ids => (h.categories ids).symm⟩

theorem GroupLookupsAlike.reorder (hgroups : GroupLookupsAlike conn categorizations)
    (h : Reordered conn conn') : GroupLookupsAlike conn' categorizations := by
  intro rows hrows row hrow row' hrow'
  obtain ⟨rows₀, hrows₀, hperm⟩ := (h.categories _).symm.exists_perm hrows
  rw [h.categoryGroup]
  exact hgroups rows₀ hrows₀ row (hperm.mem_iff.mp hrow) row' (hperm.mem_iff.mp hrow')

/-! ### The rules -/

theorem reportedGroup_mem {siteGroups : List CategoryGroupId} {g : CategoryGroupId}
    (h : g ∈ reportedGroup groups siteGroups) : g ∈ siteGroups := by
  rcases Option.or_eq_some_iff.mp h with h | ⟨-, h⟩
  · exact List.mem_of_find?_eq_some h
  · exact List.mem_of_mem_head? h

theorem reportedGroup_isSome (groups : List (CategoryGroupId × Bool))
    (categories : List CategoryRow) :
    ∃ g, reportedGroup groups (siteGroups categories) = some g := by
  rw [← Option.isSome_iff_exists, reportedGroup, Option.isSome_or]
  cases categories with
  | nil => simp [siteGroups]
  | cons row rows => simp [siteGroups]

/-- When the group that is reported has its row, every group of the site has. -/
theorem LookupsSucceed.site_groups
    (hl : LookupsSucceed conn child categorizations urls groups categories)
    (hgroups : GroupLookupsAlike conn categorizations) :
    ∀ g ∈ siteGroups categories, ∃ name, conn.getCategoryGroup g = .ok [name] := by
  intro g hg
  obtain ⟨g₀, hg₀⟩ := reportedGroup_isSome groups categories
  have hname := hl.categoryGroup g₀ hg₀
  have hmem := reportedGroup_mem hg₀
  have hquery := hl.categoryList
  cases categories with
  | nil =>
    rw [siteGroups, List.isEmpty_nil, if_pos rfl, List.mem_singleton] at hg hmem
    rwa [hg, ← hmem]
  | cons row rows =>
    rw [siteGroups, List.isEmpty_cons, if_neg (by simp)] at hg hmem
    split at hquery
    · cases hquery
    · obtain ⟨r₀, hr₀, rfl⟩ := List.mem_map.mp hmem
      obtain ⟨r, hr, rfl⟩ := List.mem_map.mp hg
      exact hgroups _ hquery r₀ hr₀ r hr hname

theorem LookupsSucceed.reorder
    (hl : LookupsSucceed conn child categorizations urls groups categories)
    (hgroups : GroupLookupsAlike conn categorizations) (h : Reordered conn conn') :
    ∃ urls' groups' categories', urls.Perm urls' ∧ groups.Perm groups' ∧
      categories.Perm categories' ∧
      LookupsSucceed conn' child categorizations urls' groups' categories' := by
  obtain ⟨urls', hurls', hu⟩ := (h.urlList _).exists_perm hl.urlList
  obtain ⟨groups', hgroups', hg⟩ := (h.groupList _).exists_perm hl.groupList
  have hcategories : ∃ categories', categories.Perm categories' ∧
      if categorizations.isEmpty then categories' = [] else
        conn'.queryCategories (categorizations.map fun c => Int32.ofNat c.category) =
          .ok categories' := by
    have hquery := hl.categoryList
    split at hquery
    · next hempty => exact ⟨[], by rw [hquery], by rw [if_pos hempty]⟩
    · next hempty =>
      obtain ⟨categories', hc', hc⟩ := (h.categories _).exists_perm hquery
      exact ⟨categories', hc, by rwa [if_neg hempty]⟩
  obtain ⟨categories', hc, hquery⟩ := hcategories
  refine ⟨urls', groups', categories', hu, hg, hc, ?_, hurls', hgroups', hquery, ?_⟩
  · rw [h.profile]
    exact hl.profile
  · intro g hreported
    rw [h.categoryGroup]
    exact hl.site_groups hgroups g ((mem_siteGroups_perm hc).mp (reportedGroup_mem hreported))

/-- The code of a child with access, when the lookups of its rules succeed. -/
theorem responseCode_of_lookups (hu : chr '/' ∈ requestUrl)
    (hl : LookupsSucceed conn child categorizations urls groups categories) :
    (resultOf env conn child categorizations requestUrl true).responseCode =
      some (codeOfRows urls groups categories requestUrl) := by
  obtain ⟨name, names, hname⟩ := hl.profile
  have hprofile : Profile.create conn child.defaultProfileId =
      .ok ⟨child.defaultProfileId, name, .ofRows urls, .ofRows groups⟩ :=
    Profile.create_eq_ok.mpr ⟨name, names, urls, groups, hname, hl.urlList, hl.groupList, rfl⟩
  obtain ⟨info, hrules⟩ := decideByProfile_eq hu hl {}
  have hcode := (decideByProfile_eq_profileCode hu (effectiveOfRows urls groups) {}).symm.trans
    hrules
  simp only [resultOf, if_true, hprofile]
  exact congrArg BackendQueryResult.responseCode (Option.some.inj hcode)

/-- The rows behind the category groups. -/
theorem rows_of_categoryGroupIds {ids : List CategoryGroupId}
    (h : getCategoryGroupIds conn categorizations = .ok ids) :
    ∃ categories, (if categorizations.isEmpty then categories = [] else
        conn.queryCategories (categorizations.map fun c => Int32.ofNat c.category) =
          .ok categories) ∧ ids = categories.map CategoryRow.codeCategoriesGroupsId := by
  unfold getCategoryGroupIds Category.list at h
  cases categorizations with
  | nil => cases h; exact ⟨[], rfl, rfl⟩
  | cons c cs =>
    simp only [List.map_cons, List.isEmpty_cons, Bool.false_eq_true, if_false] at h ⊢
    cases hquery : conn.queryCategories
        (Int32.ofNat c.category :: cs.map fun c => Int32.ofNat c.category) with
    | error e => rw [hquery] at h; exact nomatch h
    | ok rows =>
      rw [hquery] at h
      exact ⟨rows, rfl, by simpa [Function.comp_def] using h.symm⟩

theorem reportedGroup_eq_selectedGroup (urls : List (UrlPatternId × Bool))
    (groups : List (CategoryGroupId × Bool)) (categories : List CategoryRow) :
    reportedGroup groups (siteGroups categories) =
      some (selectedGroup (effectiveOfRows urls groups).forCategoryGroups
        (categories.map CategoryRow.codeCategoriesGroupsId)) := by
  have hsite : matchingGroups (categories.map CategoryRow.codeCategoriesGroupsId) =
      siteGroups categories := by
    cases categories <;> rfl
  rw [← selected_eq, blockedGroup, hsite, reportedGroup]
  simp only [anyElementContainsDecision, effectiveOfRows, get_effective]

/-- The code of a child with access, when one of the lookups fails. -/
theorem responseCode_of_failure
    (h : ∀ urls groups categories,
      ¬ LookupsSucceed conn child categorizations urls groups categories) :
    (resultOf env conn child categorizations requestUrl true).responseCode = some .resOk := by
  cases hprofile : Profile.create conn child.defaultProfileId with
  | error e => simp only [resultOf, if_true, hprofile]
  | ok profile =>
    obtain ⟨name, names, urls, groups, hname, hurls, hgroups, rfl⟩ :=
      Profile.create_eq_ok.mp hprofile
    have hinfo : categoryInfo conn (effectiveOfRows urls groups).forCategoryGroups
        categorizations = none := by
      unfold categoryInfo
      cases hids : getCategoryGroupIds conn categorizations with
      | error e => rfl
      | ok ids =>
        obtain ⟨categories, hquery, rfl⟩ := rows_of_categoryGroupIds hids
        cases hgroup : CategoryGroup.create conn
            (selectedGroup (effectiveOfRows urls groups).forCategoryGroups
              (categories.map CategoryRow.codeCategoriesGroupsId)) with
        | error e => simp only [hgroup]
        | ok group =>
          refine absurd ⟨⟨name, names, hname⟩, hurls, hgroups, hquery, ?_⟩
            (h urls groups categories)
          intro g hg
          rw [reportedGroup_eq_selectedGroup urls, Option.mem_some_iff] at hg
          subst hg
          obtain ⟨name, hrow, -⟩ := CategoryGroup.create_eq_ok.mp hgroup
          exact ⟨name, hrow⟩
    simp only [resultOf, if_true, hprofile]
    exact congrArg (fun info => some (profileCode _ info requestUrl)) hinfo

/-! ### The time conditions -/

theorem accessOf_eq : accessOf env conn child =
    (hasInternetAccess env conn child.childId
      (env.convertToTimezoneTime env.getCurrentUtcTime child.timezone)).bind fun access =>
        if access then some true
        else hasTemporaryInternetAccess conn child.childId env.getCurrentUtcTime := rfl

theorem hasInternetAccess_reorder (h : Reordered conn conn') (childId : ChildId)
    (childLocalTime : LocalDateTime) :
    hasInternetAccess env conn' childId childLocalTime =
      hasInternetAccess env conn childId childLocalTime := by
  simp only [hasInternetAccess, h.access]

theorem hasTemporaryInternetAccess_reorder (h : Reordered conn conn') {childId : ChildId}
    {currentUtcTime : Int}
    (hagree : ∀ rows, conn.checkTmpAccessControl childId = .ok rows →
      GrantsAgree currentUtcTime rows) :
    hasTemporaryInternetAccess conn' childId currentUtcTime =
      hasTemporaryInternetAccess conn childId currentUtcTime := by
  unfold hasTemporaryInternetAccess
  cases hrows : conn.checkTmpAccessControl childId with
  | error e => rw [(h.tmpAccess childId).eq_error hrows]
  | ok rows =>
    obtain ⟨rows', hrows', hperm⟩ := (h.tmpAccess childId).exists_perm hrows
    rw [hrows']
    exact anyRowCovers_perm hperm (hagree rows hrows)

theorem accessOf_reorder (h : Reordered conn conn')
    (hfree : OrderFree env conn child categorizations requestUrl) :
    accessOf env conn' child = accessOf env conn child := by
  rw [accessOf_eq, accessOf_eq, hasInternetAccess_reorder h]
  cases haccess : hasInternetAccess env conn child.childId
      (env.convertToTimezoneTime env.getCurrentUtcTime child.timezone) with
  | none => rfl
  | some access =>
    cases access with
    | true => rfl
    | false => exact hasTemporaryInternetAccess_reorder h (hfree.grants haccess)

/-- The database with the temporary grants in another order. -/
def withGrants (conn : DBConnection) (childId : ChildId) (rows : List TmpAccessRow) :
    DBConnection :=
  { conn with
    checkTmpAccessControl := Function.update conn.checkTmpAccessControl childId (.ok rows) }

/-- The database with the lists of a profile in another order. -/
def withLists (conn : DBConnection) (profileId : ProfileId) (urls : List (UrlPatternId × Bool))
    (groups : List (CategoryGroupId × Bool)) : DBConnection :=
  { conn with
    getProfileUrlList := Function.update conn.getProfileUrlList profileId (.ok urls)
    getProfileCategoriesGroupsList :=
      Function.update conn.getProfileCategoriesGroupsList profileId (.ok groups) }

theorem reordered_withGrants {childId : ChildId} {rows rows' : List TmpAccessRow}
    (hrows : conn.checkTmpAccessControl childId = .ok rows) (h : rows.Perm rows') :
    Reordered conn (withGrants conn childId rows') :=
  ⟨rfl, rfl, rfl, rfl, SameRows.update hrows h, fun _ => .refl _, fun _ => .refl _,
    fun _ => .refl _⟩

theorem reordered_withLists {profileId : ProfileId}
    (hurls : conn.getProfileUrlList profileId = .ok urls) (hu : urls.Perm urls')
    (hgroups : conn.getProfileCategoriesGroupsList profileId = .ok groups)
    (hg : groups.Perm groups') : Reordered conn (withLists conn profileId urls' groups') :=
  ⟨rfl, rfl, rfl, rfl, fun _ => .refl _, SameRows.update hurls hu, SameRows.update hgroups hg,
    fun _ => .refl _⟩

/-! ### The verdict -/

/-- All orders of the rows give the same response code. -/
def SameCode (env : TimeEnv) (conn : DBConnection) (child : Child)
    (categorizations : List Categorization) (requestUrl : Bytes) : Prop :=
  ∀ conn', Reordered conn conn' →
    (queryDatabase env conn' child categorizations requestUrl).map
        BackendQueryResult.responseCode =
      (queryDatabase env conn child categorizations requestUrl).map
        BackendQueryResult.responseCode

theorem sameCode_of_orderFree (hu : chr '/' ∈ requestUrl)
    (hgroups : GroupLookupsAlike conn categorizations)
    (hfree : OrderFree env conn child categorizations requestUrl) :
    SameCode env conn child categorizations requestUrl := by
  intro conn' h
  rw [queryDatabase_eq hu, queryDatabase_eq hu, accessOf_reorder h hfree]
  cases haccess : accessOf env conn child with
  | none => rfl
  | some access =>
    cases access with
    | false => rfl
    | true =>
      simp only [Option.map_some, Option.some.injEq]
      rcases Classical.em (∃ urls groups categories,
        LookupsSucceed conn child categorizations urls groups categories) with hl | hno
      · obtain ⟨urls, groups, categories, hl⟩ := hl
        obtain ⟨urls', groups', categories', hu', hg', hc', hl'⟩ := hl.reorder hgroups h
        rw [responseCode_of_lookups hu hl, responseCode_of_lookups hu hl',
          codeOfRows_perm hu' hg' hc' (hfree.rules haccess _ _ _ hl)]
      · rw [responseCode_of_failure fun urls groups categories hl => hno ⟨_, _, _, hl⟩,
          responseCode_of_failure fun urls groups categories hl => ?_]
        obtain ⟨urls₀, groups₀, categories₀, -, -, -, hl₀⟩ :=
          hl.reorder (hgroups.reorder h) h.symm
        exact hno ⟨_, _, _, hl₀⟩

theorem grantsAgree_of_sameCode (hu : chr '/' ∈ requestUrl)
    (h : SameCode env conn child categorizations requestUrl)
    (haccess : hasInternetAccess env conn child.childId
      (env.convertToTimezoneTime env.getCurrentUtcTime child.timezone) = some false)
    {rows : List TmpAccessRow} (hrows : conn.checkTmpAccessControl child.childId = .ok rows) :
    GrantsAgree env.getCurrentUtcTime rows := by
  have hcode : ∀ rows', rows.Perm rows' →
      (anyRowCovers env.getCurrentUtcTime rows').isSome =
        (queryDatabase env conn child categorizations requestUrl).isSome := by
    intro rows' hperm
    have hsame := congrArg Option.isSome (h _ (reordered_withGrants hrows hperm))
    rw [Option.isSome_map, Option.isSome_map] at hsame
    rw [← hsame, queryDatabase_eq hu, Option.isSome_map, accessOf_eq]
    have haccess' : hasInternetAccess env (withGrants conn child.childId rows') child.childId
        (env.convertToTimezoneTime env.getCurrentUtcTime child.timezone) = some false := haccess
    rw [haccess', Option.bind_some]
    simp [hasTemporaryInternetAccess, withGrants]
  by_contra hmixed
  obtain ⟨⟨covers, hcovers, htrue⟩, stops, hstops, hnone⟩ := anyRowCovers_mixed hmixed
  have hsame := (hcode covers hcovers).trans (hcode stops hstops).symm
  rw [htrue, hnone] at hsame
  exact absurd hsame (by decide)

theorem unambiguous_of_sameCode (hu : chr '/' ∈ requestUrl)
    (hgroups : GroupLookupsAlike conn categorizations)
    (h : SameCode env conn child categorizations requestUrl)
    (haccess : accessOf env conn child = some true)
    (hl : LookupsSucceed conn child categorizations urls groups categories) :
    Unambiguous urls groups (siteGroups categories) requestUrl := by
  have hcode : ∀ urls' groups', urls.Perm urls' → groups.Perm groups' →
      some (some (codeOfRows urls' groups' categories requestUrl)) =
        (queryDatabase env conn child categorizations requestUrl).map
          BackendQueryResult.responseCode := by
    intro urls' groups' hu' hg'
    have hl' : LookupsSucceed (withLists conn child.defaultProfileId urls' groups') child
        categorizations urls' groups' categories :=
      ⟨hl.profile, by simp [withLists], by simp [withLists], hl.categoryList,
        fun g hg => hl.site_groups hgroups g (reportedGroup_mem hg)⟩
    have haccess' : accessOf env (withLists conn child.defaultProfileId urls' groups') child =
        some true := haccess
    rw [← h _ (reordered_withLists hl.urlList hu' hl.groupList hg'), queryDatabase_eq hu, haccess',
      Option.map_some, Option.map_some, responseCode_of_lookups hu hl']
  by_contra hambiguous
  refine codeOfRows_ambiguous hambiguous ?_
  have hblocked := hcode _ _ (Decisions.blockedLast_perm urls).symm
    (Decisions.blockedLast_perm groups).symm
  have hallowed := hcode _ _ (Decisions.allowedLast_perm urls).symm
    (Decisions.allowedLast_perm groups).symm
  exact Option.some.inj (Option.some.inj (hblocked.trans hallowed.symm))

/-- The verdict is the same for all orders of the rows exactly when the rows that decide are
unambiguous. -/
theorem sameCode_iff (hu : chr '/' ∈ requestUrl)
    (hgroups : GroupLookupsAlike conn categorizations) :
    SameCode env conn child categorizations requestUrl ↔
      OrderFree env conn child categorizations requestUrl := by
  constructor
  · intro h
    exact ⟨fun haccess rows hrows => grantsAgree_of_sameCode hu h haccess hrows,
      fun haccess _ _ _ hl => unambiguous_of_sameCode hu hgroups h haccess hl⟩
  · exact sameCode_of_orderFree hu hgroups

/-- The small database, with this url list. -/
def listDatabase (urls : List (UrlPatternId × Bool)) : DBConnection :=
  { smallDatabase with getProfileUrlList := fun _ => .ok urls }

theorem sameCode_iff_twice :
    SameCode midnightClock (listDatabase [(bytes "onet.pl", true), (bytes "onet.pl", true)])
      smallChild [] (bytes "www.onet.pl/") := by
  refine (sameCode_iff (by decide) ?_).mpr
    ⟨fun haccess => ?_, fun _ urls groups categories hl => ?_⟩
  · intro rows hrows row hrow
    cases hrows
    exact nomatch hrow
  · exact nomatch haccess
  · obtain rfl := Except.ok.inj hl.urlList
    have hbest : bestMatchingId [bytes "onet.pl", bytes "onet.pl"] (bytes "www.onet.pl/") =
        some (bytes "onet.pl") := by decide +kernel
    simp only [Unambiguous, List.map_cons, List.map_nil, hbest]
    simp

/-- An address that is both blocked and allowed. -/
theorem verdict_depends_on_order :
    Reordered (listDatabase [(bytes "onet.pl", true), (bytes "onet.pl", false)])
        (listDatabase [(bytes "onet.pl", false), (bytes "onet.pl", true)]) ∧
      (queryDatabase midnightClock
        (listDatabase [(bytes "onet.pl", true), (bytes "onet.pl", false)]) smallChild []
          (bytes "www.onet.pl/")).bind BackendQueryResult.responseCode = some .resOk ∧
      (queryDatabase midnightClock
        (listDatabase [(bytes "onet.pl", false), (bytes "onet.pl", true)]) smallChild []
          (bytes "www.onet.pl/")).bind BackendQueryResult.responseCode =
            some .resUrlBlockedCustom := by
  refine ⟨⟨rfl, rfl, rfl, rfl, fun _ => .refl _, fun _ => .ok (List.Perm.swap _ _ _),
    fun _ => .refl _, fun _ => .refl _⟩, ?_, ?_⟩
  · decide +kernel
  · decide +kernel

end Reordered

end SafeKiddo
