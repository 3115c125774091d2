import SafeKiddo.QueryDatabase

/-!
# What a verdict depends on

`queryDatabase` as a function of what its lookups answer: whether the child has access, the profile,
and what is known about the categories of the site. Each of the three is asked for only when the one
before it did not end the call.

Results:
1. `queryDatabase_eq`: the normal form.
2. `queryDatabase_codes`: the response codes that there are.
3. `url_rule_law`: a url rule decides alone, unless a lookup about the categories fails.
-/

namespace SafeKiddo

open ByteString

/-! ## 1. The normal form -/

/-- The group that is reported for the site, and whether one of its groups is blocked. -/
structure CategoryInfo where
  group : CategoryGroupId × Bytes
  blocked : Bool

/-- The groups of the site, for the groups of its categories. -/
def matchingGroups (categoryGroupIds : List CategoryGroupId) : List CategoryGroupId :=
  if categoryGroupIds.isEmpty then [uncategorizedGroupId] else categoryGroupIds

def blockedGroup (forCategoryGroups : Decisions CategoryGroupId)
    (categoryGroupIds : List CategoryGroupId) : Option CategoryGroupId :=
  anyElementContainsDecision forCategoryGroups (matchingGroups categoryGroupIds) .blocked

/-- A blocked group, else the first one. -/
def selectedGroup (forCategoryGroups : Decisions CategoryGroupId)
    (categoryGroupIds : List CategoryGroupId) : CategoryGroupId :=
  (blockedGroup forCategoryGroups categoryGroupIds).getD
    ((matchingGroups categoryGroupIds).headD uncategorizedGroupId)

/-- What the two lookups about the categories tell, if both succeed. -/
def categoryInfo (conn : DBConnection) (forCategoryGroups : Decisions CategoryGroupId)
    (categorizations : List Categorization) : Option CategoryInfo :=
  match getCategoryGroupIds conn categorizations with
  | .error _ => none
  | .ok ids =>
    match CategoryGroup.create conn (selectedGroup forCategoryGroups ids) with
    | .error _ => none
    | .ok group => some ⟨(group.groupId, group.name), (blockedGroup forCategoryGroups ids).isSome⟩

/-- The response code of a profile: without the categories the request is let in. -/
def profileCode (forUrls : Decisions UrlPatternId) (info : Option CategoryInfo)
    (requestUrl : Bytes) : ResponseCode :=
  match info with
  | none => .resOk
  | some info => codeByRules forUrls info.blocked requestUrl

/-- The result for a child whose access is known. -/
def resultOf (env : TimeEnv) (conn : DBConnection) (child : Child)
    (categorizations : List Categorization) (requestUrl : Bytes) (access : Bool) :
    BackendQueryResult :=
  let utcTime := env.getCurrentUtcTime
  let childLocalTime := env.convertToTimezoneTime utcTime child.timezone
  let queryResult : BackendQueryResult :=
    { utcTime := some utcTime
      childTime := some (childLocalTime.date * ticksPerDay + childLocalTime.timeOfDay) }
  if access then
    match Profile.create conn child.defaultProfileId with
    | .error _ => { queryResult with responseCode := some .resOk }
    | .ok profile =>
      let effectiveDecisions := EffectiveDecisions.ofProfile profile
      let info := categoryInfo conn effectiveDecisions.forCategoryGroups categorizations
      { queryResult with
        responseCode := some (profileCode effectiveDecisions.forUrls info requestUrl)
        profileInfo := some (profile.profileId, profile.name)
        categoryGroupInfo := info.map CategoryInfo.group }
  else { queryResult with responseCode := some .resInternetAccessForbidden }

/-- The time conditions for a child. -/
def accessOf (env : TimeEnv) (conn : DBConnection) (child : Child) : Checked Bool :=
  hasAccessNow env conn child (env.convertToTimezoneTime env.getCurrentUtcTime child.timezone)
    env.getCurrentUtcTime

variable {env : TimeEnv} {conn : DBConnection} {child : Child}
  {categorizations : List Categorization} {requestUrl : Bytes}

theorem selected_eq (forCategoryGroups : Decisions CategoryGroupId)
    (ids : List CategoryGroupId) :
    (blockedGroup forCategoryGroups ids).or (matchingGroups ids).head? =
      some (selectedGroup forCategoryGroups ids) := by
  unfold selectedGroup
  cases blockedGroup forCategoryGroups ids with
  | some g => rfl
  | none =>
    cases ids with
    | nil => rfl
    | cons id ids => rfl

theorem decideByProfile_eq_profileCode (hu : chr '/' ∈ requestUrl)
    (effectiveDecisions : EffectiveDecisions) (queryResult : BackendQueryResult) :
    let info := categoryInfo conn effectiveDecisions.forCategoryGroups categorizations
    decideByProfile conn effectiveDecisions categorizations requestUrl queryResult =
      some { queryResult with
        responseCode := some (profileCode effectiveDecisions.forUrls info requestUrl)
        categoryGroupInfo := (info.map CategoryInfo.group).or queryResult.categoryGroupInfo } := by
  unfold decideByProfile categoryInfo
  cases getCategoryGroupIds conn categorizations with
  | error e => rfl
  | ok ids =>
    have hselected := selected_eq effectiveDecisions.forCategoryGroups ids
    unfold blockedGroup matchingGroups at hselected
    simp only [hselected]
    cases CategoryGroup.create conn (selectedGroup effectiveDecisions.forCategoryGroups ids) with
    | error e => rfl
    | ok group => exact decideByRules_eq _ _ hu _

theorem queryDatabase_eq (hu : chr '/' ∈ requestUrl) :
    queryDatabase env conn child categorizations requestUrl =
      (accessOf env conn child).map (resultOf env conn child categorizations requestUrl) := by
  unfold queryDatabase accessOf
  simp only [Option.bind_eq_bind]
  cases hasAccessNow env conn child
      (env.convertToTimezoneTime env.getCurrentUtcTime child.timezone) env.getCurrentUtcTime with
  | none => rfl
  | some access =>
    cases access with
    | false => rfl
    | true =>
      simp only [Option.bind_some, Option.map_some, resultOf, Bool.not_true, Bool.false_eq_true,
        if_false, if_true]
      cases Profile.create conn child.defaultProfileId with
      | error e => rfl
      | ok profile =>
        refine (decideByProfile_eq_profileCode hu _ _).trans ?_
        simp

/-- The result of a child with access and with a profile. -/
theorem queryDatabase_of_profile (hu : chr '/' ∈ requestUrl)
    (haccess : accessOf env conn child = some true) {profile : Profile}
    (hprofile : Profile.create conn child.defaultProfileId = .ok profile) :
    ∃ result, queryDatabase env conn child categorizations requestUrl = some result ∧
      result.responseCode = some (profileCode (EffectiveDecisions.ofProfile profile).forUrls
        (categoryInfo conn (EffectiveDecisions.ofProfile profile).forCategoryGroups
          categorizations) requestUrl) := by
  refine ⟨_, by rw [queryDatabase_eq hu, haccess, Option.map_some], ?_⟩
  simp only [resultOf, if_true, hprofile]

/-! ## 2. Response codes -/

theorem codeByRules_cases (forUrls : Decisions UrlPatternId) (categoryBlocked : Bool)
    (requestUrl : Bytes) :
    codeByRules forUrls categoryBlocked requestUrl = .resOk ∨
      codeByRules forUrls categoryBlocked requestUrl = .resUrlBlockedCustom ∨
      codeByRules forUrls categoryBlocked requestUrl = .resCategoryBlockedCustom ∧
        categoryBlocked = true := by
  unfold codeByRules
  split
  · split
    · exact .inr (.inl rfl)
    · exact .inl rfl
  · split
    · next h => exact .inr (.inr ⟨rfl, h⟩)
    · exact .inl rfl

theorem queryDatabase_codes (hu : chr '/' ∈ requestUrl) {result : BackendQueryResult}
    (h : queryDatabase env conn child categorizations requestUrl = some result) :
    ∃ code ∈ [ResponseCode.resOk, .resInternetAccessForbidden, .resUrlBlockedCustom,
      .resCategoryBlockedCustom], result.responseCode = some code := by
  rw [queryDatabase_eq hu, Option.map_eq_some_iff] at h
  obtain ⟨access, -, rfl⟩ := h
  cases access with
  | false => exact ⟨.resInternetAccessForbidden, by simp, rfl⟩
  | true =>
    simp only [resultOf, if_true]
    cases Profile.create conn child.defaultProfileId with
    | error e => exact ⟨.resOk, by simp, rfl⟩
    | ok profile =>
      refine ⟨_, ?_, rfl⟩
      unfold profileCode
      split
      · simp
      · next info _ =>
        obtain h | h | ⟨h, -⟩ := codeByRules_cases (EffectiveDecisions.ofProfile profile).forUrls
          info.blocked requestUrl
        · simp [h]
        · simp [h]
        · simp [h]

/-! ## 3. Url rules -/

/-- The same database with other answers of the two lookups about the categories. -/
def DBConnection.withCategories (conn : DBConnection)
    (getCategoryGroup : CategoryGroupId → Result (List Bytes))
    (queryCategories : List CategoryId → Result (List CategoryRow)) : DBConnection :=
  { conn with getCategoryGroup, queryCategories }

/-- Both lookups about the categories succeed: the groups of the site and the one to report. -/
def CategoriesKnown (conn : DBConnection) (profile : Profile)
    (categorizations : List Categorization) : Prop :=
  ∃ ids group, getCategoryGroupIds conn categorizations = .ok ids ∧
    CategoryGroup.create conn
      (selectedGroup (EffectiveDecisions.ofProfile profile).forCategoryGroups ids) = .ok group

theorem categoryInfo_isSome {profile : Profile} :
    (categoryInfo conn (EffectiveDecisions.ofProfile profile).forCategoryGroups
      categorizations).isSome ↔ CategoriesKnown conn profile categorizations := by
  unfold categoryInfo CategoriesKnown
  cases getCategoryGroupIds conn categorizations with
  | error e => simp
  | ok ids =>
    rcases hgroup : CategoryGroup.create conn
        (selectedGroup (EffectiveDecisions.ofProfile profile).forCategoryGroups ids) with e | group
    · simp [hgroup]
    · simp [hgroup]

/-- The mark of an address of a profile is the one that the code uses. -/
theorem get_ofProfile (profile : Profile) (id : UrlPatternId) :
    (EffectiveDecisions.ofProfile profile).forUrls.getElementDecisionIfExists id =
      profile.decisionsForUrls.getElementDecisionIfExists id := by
  rw [EffectiveDecisions.ofProfile, Decisions.get_applyOverrides, Decisions.get_empty,
    Option.or_none]

theorem mem_getIds_ofProfile {profile : Profile} {id : UrlPatternId} :
    id ∈ (EffectiveDecisions.ofProfile profile).forUrls.getIds ↔
      id ∈ profile.decisionsForUrls.getIds := by
  rw [Decisions.mem_getIds, Decisions.mem_getIds, get_ofProfile]

/-- `b` is the most specific of the addresses that match, with this mark. -/
structure BestRule (profile : Profile) (requestUrl : Bytes) (b : UrlPatternId)
    (mark : Decision) : Prop where
  mem : b ∈ profile.decisionsForUrls.getIds
  matching : Matches b requestUrl
  beats : ∀ a ∈ profile.decisionsForUrls.getIds, Matches a requestUrl → a ≠ b → MoreSpecific b a
  mark : profile.decisionsForUrls.getElementDecisionIfExists b = some mark

/-- The code that a mark calls for. -/
def codeOfMark : Decision → ResponseCode
  | .blocked => .resUrlBlockedCustom
  | .allowed => .resOk

theorem exists_bestRule {profile : Profile}
    (hmatch : ∃ a ∈ profile.decisionsForUrls.getIds, Matches a requestUrl) :
    ∃ b mark, BestRule profile requestUrl b mark ∧
      ∀ categoryBlocked, codeByRules (EffectiveDecisions.ofProfile profile).forUrls
        categoryBlocked requestUrl = codeOfMark mark := by
  obtain ⟨a, ha, hau⟩ := hmatch
  have hids : bestMatchingId (EffectiveDecisions.ofProfile profile).forUrls.getIds requestUrl =
      bestMatchingId profile.decisionsForUrls.getIds requestUrl :=
    bestMatchingId_congr fun _ => mem_getIds_ofProfile
  cases hb : bestMatchingId profile.decisionsForUrls.getIds requestUrl with
  | none => exact absurd hau (bestMatchingId_eq_none.mp hb a ha)
  | some b =>
    obtain ⟨hmem, hbu, -⟩ := bestMatchingId_eq_some.mp hb
    obtain ⟨mark, hmark⟩ := Option.isSome_iff_exists.mp (Decisions.mem_getIds.mp hmem)
    refine ⟨b, mark, ⟨hmem, hbu, bestMatchingId_beats hb, hmark⟩, ?_⟩
    intro categoryBlocked
    simp only [codeByRules, hids, hb, get_ofProfile, hmark]
    cases mark <;> rfl

/-- An explicit url rule decides whatever is known about the categories. When one of their two
lookups fails, the request is let in before the rules are read. -/
theorem url_rule_law (hu : chr '/' ∈ requestUrl) (haccess : accessOf env conn child = some true)
    {profile : Profile} (hprofile : Profile.create conn child.defaultProfileId = .ok profile)
    (hmatch : ∃ a ∈ profile.decisionsForUrls.getIds, Matches a requestUrl) :
    ∃ b mark, BestRule profile requestUrl b mark ∧
      ∀ getCategoryGroup queryCategories categorizations,
        ∃ result code,
          queryDatabase env (conn.withCategories getCategoryGroup queryCategories) child
            categorizations requestUrl = some result ∧
          result.responseCode = some code ∧
          (CategoriesKnown (conn.withCategories getCategoryGroup queryCategories) profile
            categorizations → code = codeOfMark mark) ∧
          (¬ CategoriesKnown (conn.withCategories getCategoryGroup queryCategories) profile
            categorizations → code = .resOk) := by
  obtain ⟨b, mark, hbest, hcode⟩ := exists_bestRule hmatch
  refine ⟨b, mark, hbest, ?_⟩
  intro getCategoryGroup queryCategories categorizations
  obtain ⟨result, hresult, hresponse⟩ := @queryDatabase_of_profile env
    (conn.withCategories getCategoryGroup queryCategories) child categorizations requestUrl hu
    haccess profile hprofile
  refine ⟨result, _, hresult, hresponse, ?_⟩
  rw [← categoryInfo_isSome]
  unfold profileCode
  cases categoryInfo (conn.withCategories getCategoryGroup queryCategories)
      (EffectiveDecisions.ofProfile profile).forCategoryGroups categorizations with
  | none => exact ⟨fun h => absurd h (by simp), fun _ => rfl⟩
  | some info => exact ⟨fun _ => hcode info.blocked, fun h => absurd rfl h⟩

/-- The profile of the child in the small database. -/
def smallProfile : Profile :=
  ⟨7, bytes "school", .ofRows [(bytes "onet.pl", true)], .ofRows [(uncategorizedGroupId, true)]⟩

theorem url_rule_law_small :
    ∃ b mark result, BestRule smallProfile (bytes "www.onet.pl/") b mark ∧
      queryDatabase midnightClock
        (smallDatabase.withCategories smallDatabase.getCategoryGroup smallDatabase.queryCategories)
          smallChild [] (bytes "www.onet.pl/") = some result ∧
      result.responseCode = some (codeOfMark mark) := by
  obtain ⟨b, mark, hbest, hlaw⟩ := @url_rule_law midnightClock smallDatabase smallChild
    (bytes "www.onet.pl/") (by decide) rfl smallProfile rfl
    ⟨bytes "onet.pl", by decide +kernel, by decide +kernel⟩
  obtain ⟨result, code, hresult, hcode, hknown, -⟩ :=
    hlaw smallDatabase.getCategoryGroup smallDatabase.queryCategories []
  refine ⟨b, mark, result, hbest, hresult, ?_⟩
  rw [hcode, hknown ⟨[], ⟨_, bytes "other"⟩, rfl, rfl⟩]

/-- A blocked address, with and without the row of the category group. -/
theorem url_rule_without_group :
    accessOf midnightClock smallDatabase smallChild = some true ∧
      (∃ a ∈ smallProfile.decisionsForUrls.getIds, Matches a (bytes "www.onet.pl/")) ∧
      (queryDatabase midnightClock smallDatabase smallChild [] (bytes "www.onet.pl/")).bind
        BackendQueryResult.responseCode = some .resUrlBlockedCustom ∧
      (queryDatabase midnightClock
        (smallDatabase.withCategories (fun _ => .error (-1)) fun _ => .ok []) smallChild []
          (bytes "www.onet.pl/")).bind BackendQueryResult.responseCode = some .resOk :=
  ⟨rfl, ⟨bytes "onet.pl", by decide +kernel, by decide +kernel⟩, by decide +kernel,
    by decide +kernel⟩

end SafeKiddo
