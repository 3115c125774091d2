import SafeKiddo.DbClient

/-!
# The decision of the backend

`queryDatabase` of `server.cpp` with its helpers: time limits first, then the url rules of the
default profile, then its category rules. A failed lookup lets the request in.

Results:
1. `decideByRules_eq`: the last part of the function reads the mark of the best matching pattern.
2. `queryDatabase_times`: whatever fails, a result has both times and a response code.
3. `queryDatabase_decision`: the decision law, for lookups that succeed.
-/

namespace SafeKiddo

open ByteString

/-! ## 1. Requests, responses and results -/

/-- `protocol::messages::Response::Result`. -/
inductive ResponseCode
  | resOk
  | resInternetAccessForbidden
  | resCategoryBlockedDefault
  | resCategoryBlockedCustom
  | resCategoryBlockedGlobal
  | resUrlBlockedDefault
  | resUrlBlockedCustom
  | resUrlBlockedGlobal
  | resIpReputationCheckFailed
  | resUnknownUser
  deriving DecidableEq

/-- The number on the wire and in the log. -/
def ResponseCode.value : ResponseCode → Nat
  | .resOk => 0
  | .resInternetAccessForbidden => 100
  | .resCategoryBlockedDefault => 110
  | .resCategoryBlockedCustom => 111
  | .resCategoryBlockedGlobal => 112
  | .resUrlBlockedDefault => 120
  | .resUrlBlockedCustom => 121
  | .resUrlBlockedGlobal => 122
  | .resIpReputationCheckFailed => 200
  | .resUnknownUser => 300

/-- A verified webroot categorization. -/
structure Categorization where
  category : Nat
  valid : 1 ≤ category ∧ category ≤ 82

/-- Both times of a fresh result are `not_a_date_time`. -/
structure BackendQueryResult where
  utcTime : Option Int := none
  childTime : Option Int := none
  responseCode : Option ResponseCode := none
  profileInfo : Option (ProfileId × Bytes) := none
  categoryGroupInfo : Option (CategoryGroupId × Bytes) := none

/-! ## 2. The code -/

def uncategorizedGroupId : CategoryGroupId := 27

def anyElementContainsDecision {Id : Type} [Ord Id] (decisions : Decisions Id)
    (elements : List Id) (decision : Decision) : Option Id :=
  elements.find? fun element => decisions.getElementDecisionIfExists element = some decision

def getCategoryGroupIds (conn : DBConnection) (categorizations : List Categorization) :
    Result (List CategoryGroupId) :=
  match Category.list conn (categorizations.map fun c => Int32.ofNat c.category) with
  | .error _ => .error (-1)
  | .ok categories => .ok (categories.map Category.categoryGroupId)

structure EffectiveDecisions where
  forUrls : Decisions UrlPatternId
  forCategoryGroups : Decisions CategoryGroupId

/-- Just one profile is applied, the default one. -/
def EffectiveDecisions.ofProfile (defaultProfile : Profile) : EffectiveDecisions :=
  ⟨Decisions.empty.applyOverrides defaultProfile.decisionsForUrls,
    Decisions.empty.applyOverrides defaultProfile.decisionsForCategoryGroups⟩

/-- The end of `queryDatabase`, from the url patterns on. -/
def decideByRules (forUrls : Decisions UrlPatternId)
    (blockedCategoryGroupId : Option CategoryGroupId) (requestUrl : Bytes)
    (queryResult : BackendQueryResult) : Checked BackendQueryResult := do
  let urlPatterns ← UrlPattern.createFromIds forUrls.getIds
  let matchingUrlPatternIds ← selectBestMatchingUrlPatternIds urlPatterns requestUrl
  if (anyElementContainsDecision forUrls matchingUrlPatternIds .blocked).isSome then
    return { queryResult with responseCode := some .resUrlBlockedCustom }
  else if (anyElementContainsDecision forUrls matchingUrlPatternIds .allowed).isSome then
    return { queryResult with responseCode := some .resOk }
  else if blockedCategoryGroupId.isSome then
    return { queryResult with responseCode := some .resCategoryBlockedCustom }
  else
    return { queryResult with responseCode := some .resOk }

/-- The middle of `queryDatabase`: the category groups of the site and the one to report. -/
def decideByProfile (conn : DBConnection) (effectiveDecisions : EffectiveDecisions)
    (categorizations : List Categorization) (requestUrl : Bytes)
    (queryResult : BackendQueryResult) : Checked BackendQueryResult :=
  match getCategoryGroupIds conn categorizations with
  | .error _ => some { queryResult with responseCode := some .resOk }
  | .ok categoryGroupIds =>
    let matchingCategoryGroupIds :=
      if categoryGroupIds.isEmpty then [uncategorizedGroupId] else categoryGroupIds
    let blockedCategoryGroupId :=
      anyElementContainsDecision effectiveDecisions.forCategoryGroups matchingCategoryGroupIds
        .blocked
    let selectedCategoryGroupId := blockedCategoryGroupId.or matchingCategoryGroupIds.head?
    match selectedCategoryGroupId with
    | none =>
      decideByRules effectiveDecisions.forUrls blockedCategoryGroupId requestUrl queryResult
    | some groupId =>
      match CategoryGroup.create conn groupId with
      | .error _ => some { queryResult with responseCode := some .resOk }
      | .ok categoryGroup =>
        decideByRules effectiveDecisions.forUrls blockedCategoryGroupId requestUrl
          { queryResult with categoryGroupInfo := some (categoryGroup.groupId, categoryGroup.name) }

/-- The two time conditions at the start of `queryDatabase`. -/
def hasAccessNow (env : TimeEnv) (conn : DBConnection) (child : Child)
    (childLocalTime : LocalDateTime) (utcTime : Int) : Checked Bool := do
  if ← hasInternetAccess env conn child.childId childLocalTime then
    return true
  else
    hasTemporaryInternetAccess conn child.childId utcTime

/-- Decides if the url should be let in or blocked. -/
def queryDatabase (env : TimeEnv) (conn : DBConnection) (child : Child)
    (categorizations : List Categorization) (requestUrl : Bytes) : Checked BackendQueryResult := do
  let utcTime := env.getCurrentUtcTime
  let childLocalTime := env.convertToTimezoneTime utcTime child.timezone
  let queryResult : BackendQueryResult :=
    { utcTime := some utcTime
      childTime := some (childLocalTime.date * ticksPerDay + childLocalTime.timeOfDay) }
  if !(← hasAccessNow env conn child childLocalTime utcTime) then
    return { queryResult with responseCode := some .resInternetAccessForbidden }
  else
    match Profile.create conn child.defaultProfileId with
    | .error _ => return { queryResult with responseCode := some .resOk }
    | .ok defaultProfile =>
      decideByProfile conn (.ofProfile defaultProfile) categorizations requestUrl
        { queryResult with profileInfo := some (defaultProfile.profileId, defaultProfile.name) }

/-! ## 3. The rules of a profile -/

section Rules

variable {Id : Type} [Ord Id] [Std.TransOrd Id] [Std.LawfulEqOrd Id] [DecidableEq Id]

theorem get_effective (rows : List (Id × Bool)) (id : Id) :
    (Decisions.empty.applyOverrides (Decisions.ofRows rows)).getElementDecisionIfExists id =
      Decisions.markOf rows id := by
  rw [Decisions.get_applyOverrides, Decisions.get_ofRows, Decisions.get_empty, Option.or_none]

end Rules

theorem anyElementContainsDecision_isSome {Id : Type} [Ord Id] {decisions : Decisions Id}
    {elements : List Id} {decision : Decision} :
    (anyElementContainsDecision decisions elements decision).isSome ↔
      ∃ e ∈ elements, decisions.getElementDecisionIfExists e = some decision := by
  simp [anyElementContainsDecision]

/-- The response code of the rules: the mark of the best matching address, and without one the
category rule. -/
def codeByRules (forUrls : Decisions UrlPatternId) (categoryBlocked : Bool) (requestUrl : Bytes) :
    ResponseCode :=
  match bestMatchingId forUrls.getIds requestUrl with
  | some b =>
    if forUrls.getElementDecisionIfExists b = some .blocked then .resUrlBlockedCustom else .resOk
  | none => if categoryBlocked then .resCategoryBlockedCustom else .resOk

theorem decideByRules_eq (forUrls : Decisions UrlPatternId)
    (blockedCategoryGroupId : Option CategoryGroupId) {requestUrl : Bytes}
    (hu : chr '/' ∈ requestUrl) (queryResult : BackendQueryResult) :
    decideByRules forUrls blockedCategoryGroupId requestUrl queryResult =
      some { queryResult with
        responseCode := some (codeByRules forUrls blockedCategoryGroupId.isSome requestUrl) } := by
  rw [decideByRules, UrlPattern.createFromIds_eq]
  simp only [Option.bind_eq_bind, Option.bind_some,
    selectBestMatchingUrlPatternIds_ofIds _ hu, anyElementContainsDecision_isSome, codeByRules]
  cases hb : bestMatchingId forUrls.getIds requestUrl with
  | none => cases blockedCategoryGroupId <;> simp
  | some b =>
    -- A matching id is an id of the map, so it has one of the two marks.
    obtain ⟨hmem, -, -⟩ := bestMatchingId_eq_some.mp hb
    obtain ⟨decision, hd⟩ := Option.isSome_iff_exists.mp (Decisions.mem_getIds.mp hmem)
    cases decision <;> simp [hd]

/-! ## 4. Whatever fails -/

/-- The times of `r` are those of `r'`, and `r` has a response code. -/
def Answers (r' r : BackendQueryResult) : Prop :=
  r.utcTime = r'.utcTime ∧ r.childTime = r'.childTime ∧ r.responseCode.isSome

theorem decideByRules_answers {forUrls : Decisions UrlPatternId}
    {blockedCategoryGroupId : Option CategoryGroupId} {requestUrl : Bytes}
    {queryResult result : BackendQueryResult}
    (h : decideByRules forUrls blockedCategoryGroupId requestUrl queryResult = some result) :
    Answers queryResult result := by
  unfold decideByRules at h
  simp only [Option.bind_eq_bind, Option.bind_eq_some_iff, Option.pure_def] at h
  obtain ⟨patterns, -, ids, -, h⟩ := h
  split at h
  · cases h; exact ⟨rfl, rfl, rfl⟩
  · split at h
    · cases h; exact ⟨rfl, rfl, rfl⟩
    · split at h
      · cases h; exact ⟨rfl, rfl, rfl⟩
      · cases h; exact ⟨rfl, rfl, rfl⟩

theorem decideByProfile_answers {conn : DBConnection} {effectiveDecisions : EffectiveDecisions}
    {categorizations : List Categorization} {requestUrl : Bytes}
    {queryResult result : BackendQueryResult}
    (h : decideByProfile conn effectiveDecisions categorizations requestUrl queryResult =
      some result) : Answers queryResult result := by
  unfold decideByProfile at h
  split at h
  · cases h; exact ⟨rfl, rfl, rfl⟩
  · next ids hids =>
    simp only at h
    split at h
    · exact decideByRules_answers h
    · split at h
      · cases h; exact ⟨rfl, rfl, rfl⟩
      · obtain ⟨hutc, hchild, hcode⟩ := decideByRules_answers h
        exact ⟨hutc, hchild, hcode⟩

/-- On every path, failed lookups included, the result has both times and a response code. -/
theorem queryDatabase_times {env : TimeEnv} {conn : DBConnection} {child : Child}
    {categorizations : List Categorization} {requestUrl : Bytes} {result : BackendQueryResult}
    (h : queryDatabase env conn child categorizations requestUrl = some result) :
    result.utcTime.isSome ∧ result.childTime.isSome ∧ result.responseCode.isSome := by
  unfold queryDatabase at h
  simp only [Option.bind_eq_bind, Option.bind_eq_some_iff] at h
  obtain ⟨access, -, h⟩ := h
  split at h
  · cases h; exact ⟨rfl, rfl, rfl⟩
  · split at h
    · cases h; exact ⟨rfl, rfl, rfl⟩
    · obtain ⟨hutc, hchild, hcode⟩ := decideByProfile_answers h
      exact ⟨by rw [hutc]; rfl, by rw [hchild]; rfl, hcode⟩

/-! ## 5. The decision law -/

/-- The category groups that are checked. -/
def siteGroups (categories : List CategoryRow) : List CategoryGroupId :=
  if categories.isEmpty then [uncategorizedGroupId]
  else categories.map CategoryRow.codeCategoriesGroupsId

/-- The group that is reported: a blocked one, else the first one. -/
def reportedGroup (groups : List (CategoryGroupId × Bool)) (siteGroups : List CategoryGroupId) :
    Option CategoryGroupId :=
  (siteGroups.find? fun g => Decisions.markOf groups g = some .blocked).or siteGroups.head?

/-- The rows that the lookups after the time limits return. A site without categorizations is not
looked up. -/
structure LookupsSucceed (conn : DBConnection) (child : Child)
    (categorizations : List Categorization) (urls : List (UrlPatternId × Bool))
    (groups : List (CategoryGroupId × Bool)) (categories : List CategoryRow) : Prop where
  profile : ∃ name names, conn.getProfile child.defaultProfileId = .ok (name :: names)
  urlList : conn.getProfileUrlList child.defaultProfileId = .ok urls
  groupList : conn.getProfileCategoriesGroupsList child.defaultProfileId = .ok groups
  categoryList : if categorizations.isEmpty then categories = [] else
    conn.queryCategories (categorizations.map fun c => Int32.ofNat c.category) = .ok categories
  categoryGroup : ∀ g ∈ reportedGroup groups (siteGroups categories),
    ∃ name, conn.getCategoryGroup g = .ok [name]

/-- The response code that time limits, url rules and category rules call for, in this order. -/
structure DecisionLaw (access tmpAccess : Bool) (urls : List (UrlPatternId × Bool))
    (groups : List (CategoryGroupId × Bool)) (siteGroups : List CategoryGroupId)
    (requestUrl : Bytes) (code : ResponseCode) : Prop where
  forbidden_iff : code = .resInternetAccessForbidden ↔ access = false ∧ tmpAccess = false
  /-- With a matching address there is a most specific one, and its mark is the verdict. -/
  url_rule : (access || tmpAccess) = true → (∃ a ∈ urls.map (·.1), Matches a requestUrl) →
    ∃ b ∈ urls.map (·.1), Matches b requestUrl ∧
      (∀ a ∈ urls.map (·.1), Matches a requestUrl → a ≠ b → MoreSpecific b a) ∧
      (Decisions.markOf urls b = some .blocked ∧ code = .resUrlBlockedCustom ∨
        Decisions.markOf urls b = some .allowed ∧ code = .resOk)
  category_rule : (access || tmpAccess) = true → (∀ a ∈ urls.map (·.1), ¬ Matches a requestUrl) →
    (code = .resCategoryBlockedCustom ↔
      ∃ g ∈ siteGroups, Decisions.markOf groups g = some .blocked)
  remaining : (access || tmpAccess) = true → (∀ a ∈ urls.map (·.1), ¬ Matches a requestUrl) →
    (∀ g ∈ siteGroups, Decisions.markOf groups g ≠ some .blocked) → code = .resOk

variable {conn : DBConnection} {child : Child} {categorizations : List Categorization}
  {urls : List (UrlPatternId × Bool)} {groups : List (CategoryGroupId × Bool)}
  {categories : List CategoryRow} {requestUrl : Bytes}

/-- The decisions that the rows of a profile make effective. -/
def effectiveOfRows (urls : List (UrlPatternId × Bool)) (groups : List (CategoryGroupId × Bool)) :
    EffectiveDecisions :=
  ⟨Decisions.empty.applyOverrides (.ofRows urls), Decisions.empty.applyOverrides (.ofRows groups)⟩

/-- The groups of the site are blocked when one of them is marked so. -/
def categoryBlocked (groups : List (CategoryGroupId × Bool)) (siteGroups : List CategoryGroupId) :
    Bool :=
  (siteGroups.find? fun g => Decisions.markOf groups g = some .blocked).isSome

theorem getCategoryGroupIds_eq
    (hl : LookupsSucceed conn child categorizations urls groups categories) :
    getCategoryGroupIds conn categorizations =
      .ok (categories.map CategoryRow.codeCategoriesGroupsId) := by
  have hcat := hl.categoryList
  unfold getCategoryGroupIds Category.list
  cases categorizations with
  | nil =>
    simp only [List.isEmpty_nil, if_true] at hcat
    subst hcat
    rfl
  | cons c cs =>
    simp only [List.isEmpty_cons, Bool.false_eq_true, if_false] at hcat
    simp only [List.map_cons] at hcat ⊢
    simp only [hcat, List.isEmpty_cons, Bool.false_eq_true, if_false, List.map_map]
    rfl

theorem decideByProfile_eq (hu : chr '/' ∈ requestUrl)
    (hl : LookupsSucceed conn child categorizations urls groups categories)
    (queryResult : BackendQueryResult) :
    ∃ info, decideByProfile conn (effectiveOfRows urls groups) categorizations requestUrl
      queryResult =
        some { queryResult with
          categoryGroupInfo := info
          responseCode := some (codeByRules (effectiveOfRows urls groups).forUrls
            (categoryBlocked groups (siteGroups categories)) requestUrl) } := by
  have hsite : (if (categories.map CategoryRow.codeCategoriesGroupsId).isEmpty then
      [uncategorizedGroupId] else categories.map CategoryRow.codeCategoriesGroupsId) =
      siteGroups categories := by
    cases categories <;> rfl
  have hblocked : anyElementContainsDecision (effectiveOfRows urls groups).forCategoryGroups
      (siteGroups categories) .blocked =
      (siteGroups categories).find? fun g => Decisions.markOf groups g = some .blocked := by
    simp only [anyElementContainsDecision, effectiveOfRows, get_effective]
  unfold decideByProfile
  simp only [getCategoryGroupIds_eq hl, hsite, hblocked]
  cases hg : reportedGroup groups (siteGroups categories) with
  | none =>
    refine ⟨queryResult.categoryGroupInfo, ?_⟩
    rw [reportedGroup] at hg
    simp only [hg]
    exact decideByRules_eq _ _ hu _
  | some g =>
    obtain ⟨name, hname⟩ := hl.categoryGroup g hg
    refine ⟨some (g, name), ?_⟩
    rw [reportedGroup] at hg
    simp only [hg, CategoryGroup.create, hname]
    exact decideByRules_eq _ _ hu _

section Law

variable {access tmpAccess : Bool} {siteGroups : List CategoryGroupId}

/-- Without a matching address the category groups decide. -/
theorem law_of_categories (hacc : (access || tmpAccess) = true)
    (hnone : ∀ a ∈ urls.map (·.1), ¬ Matches a requestUrl) :
    DecisionLaw access tmpAccess urls groups siteGroups requestUrl
      (if categoryBlocked groups siteGroups then .resCategoryBlockedCustom else .resOk) := by
  have hno : ¬ (access = false ∧ tmpAccess = false) := by
    rintro ⟨rfl, rfl⟩
    exact Bool.noConfusion hacc
  have hblocked : categoryBlocked groups siteGroups = true ↔
      ∃ g ∈ siteGroups, Decisions.markOf groups g = some .blocked := by
    simp [categoryBlocked]
  cases hcat : categoryBlocked groups siteGroups with
  | false =>
    have hfree : ¬ ∃ g ∈ siteGroups, Decisions.markOf groups g = some .blocked :=
      fun h => Bool.false_ne_true (hcat.symm.trans (hblocked.mpr h))
    exact ⟨by simpa using hno, fun _ ⟨a, ha, hau⟩ => absurd hau (hnone a ha),
      fun _ _ => by simpa using hfree, fun _ _ _ => rfl⟩
  | true =>
    have hex := hblocked.mp hcat
    refine ⟨by simpa using hno, fun _ ⟨a, ha, hau⟩ => absurd hau (hnone a ha),
      fun _ _ => by simpa using hex, fun _ _ hfree => ?_⟩
    obtain ⟨g, hg, hmark⟩ := hex
    exact absurd hmark (hfree g hg)

/-- The mark of the best matching address decides. -/
theorem law_of_url (hacc : (access || tmpAccess) = true) {b : UrlPatternId} {mark : Decision}
    (hb : bestMatchingId (urls.map (·.1)) requestUrl = some b)
    (hmark : Decisions.markOf urls b = some mark) :
    DecisionLaw access tmpAccess urls groups siteGroups requestUrl
      (if mark = .blocked then .resUrlBlockedCustom else .resOk) := by
  have hno : ¬ (access = false ∧ tmpAccess = false) := by
    rintro ⟨rfl, rfl⟩
    exact Bool.noConfusion hacc
  obtain ⟨hmem, hbu, -⟩ := bestMatchingId_eq_some.mp hb
  have hbeats := bestMatchingId_beats hb
  cases mark with
  | blocked =>
    exact ⟨by simpa using hno, fun _ _ => ⟨b, hmem, hbu, hbeats, .inl ⟨hmark, rfl⟩⟩,
      fun _ hnone => absurd hbu (hnone b hmem), fun _ hnone => absurd hbu (hnone b hmem)⟩
  | allowed =>
    exact ⟨by simpa using hno, fun _ _ => ⟨b, hmem, hbu, hbeats, .inr ⟨hmark, rfl⟩⟩,
      fun _ hnone => absurd hbu (hnone b hmem), fun _ hnone => absurd hbu (hnone b hmem)⟩

/-- The code of the rules obeys the law, for a child that has access. -/
theorem codeByRules_law (hacc : (access || tmpAccess) = true) :
    DecisionLaw access tmpAccess urls groups siteGroups requestUrl
      (codeByRules (effectiveOfRows urls groups).forUrls (categoryBlocked groups siteGroups)
        requestUrl) := by
  have hids : ∀ a, a ∈ (effectiveOfRows urls groups).forUrls.getIds ↔ a ∈ urls.map (·.1) := by
    intro a
    rw [Decisions.mem_getIds, effectiveOfRows, get_effective, Decisions.markOf_isSome]
  unfold codeByRules
  rw [@bestMatchingId_congr _ _ requestUrl hids]
  cases hb : bestMatchingId (urls.map (·.1)) requestUrl with
  | none => exact law_of_categories hacc (bestMatchingId_eq_none.mp hb)
  | some b =>
    obtain ⟨hmem, -, -⟩ := bestMatchingId_eq_some.mp hb
    obtain ⟨mark, hmark⟩ := Option.isSome_iff_exists.mp (Decisions.markOf_isSome.mpr hmem)
    have hget : (effectiveOfRows urls groups).forUrls.getElementDecisionIfExists b = some mark := by
      rw [effectiveOfRows, get_effective, hmark]
    have hlaw : DecisionLaw access tmpAccess urls groups siteGroups requestUrl _ :=
      law_of_url hacc hb hmark
    simpa [hget] using hlaw

end Law

/-- The decision law. The lookups after the time limits need to succeed only for a child that has
access. -/
theorem queryDatabase_decision (env : TimeEnv) (access tmpAccess : Bool)
    (hu : chr '/' ∈ requestUrl)
    (haccess : hasInternetAccess env conn child.childId
      (env.convertToTimezoneTime env.getCurrentUtcTime child.timezone) = some access)
    (htmp : access = false →
      hasTemporaryInternetAccess conn child.childId env.getCurrentUtcTime = some tmpAccess)
    (hl : (access || tmpAccess) = true →
      LookupsSucceed conn child categorizations urls groups categories) :
    ∃ result code, queryDatabase env conn child categorizations requestUrl = some result ∧
      result.responseCode = some code ∧
      DecisionLaw access tmpAccess urls groups (siteGroups categories) requestUrl code := by
  have hgrant : hasAccessNow env conn child
      (env.convertToTimezoneTime env.getCurrentUtcTime child.timezone) env.getCurrentUtcTime =
      some (access || tmpAccess) := by
    unfold hasAccessNow
    simp only [haccess, Option.bind_eq_bind, Option.bind_some]
    cases access with
    | false => simpa using htmp rfl
    | true => rfl
  unfold queryDatabase
  simp only [hgrant, Option.bind_eq_bind, Option.bind_some]
  cases hacc : access || tmpAccess with
  | false =>
    refine ⟨_, .resInternetAccessForbidden, rfl, rfl, ?_⟩
    obtain ⟨rfl, rfl⟩ := Bool.or_eq_false_iff.mp hacc
    exact ⟨by simp, nofun, nofun, nofun⟩
  | true =>
    have hlook := hl hacc
    obtain ⟨name, names, hname⟩ := hlook.profile
    have hprofile := Profile.create_eq_ok.mpr ⟨name, names, urls, groups, hname, hlook.urlList,
      hlook.groupList, rfl⟩
    simp only [hprofile]
    obtain ⟨info, hr⟩ := decideByProfile_eq hu hlook _
    exact ⟨_, _, hr, rfl, codeByRules_law hacc⟩

/-- A clock that stands at midnight UTC of a day. -/
def midnightClock : TimeEnv where
  getCurrentUtcTime := 2456849 * ticksPerDay
  convertToTimezoneTime utcTime _ := ⟨utcTime / ticksPerDay, utcTime % ticksPerDay, 0⟩
  toSimpleString _ := bytes "00:00:00"

/-- A database with one child, whose profile blocks one host and the uncategorized sites. -/
def smallDatabase : DBConnection where
  getChild uuid :=
    .ok (if uuid = bytes "ola" then [⟨1, bytes "Ola", bytes "2004-05-06", 7, bytes "UTC", 0⟩]
      else [])
  checkTmpAccessControl _ := .ok []
  checkAccessControl _ _ _ := .ok [()]
  getProfile _ := .ok [bytes "school"]
  getProfileUrlList _ := .ok [(bytes "onet.pl", true)]
  getProfileCategoriesGroupsList _ := .ok [(uncategorizedGroupId, true)]
  getCategoryGroup _ := .ok [bytes "other"]
  queryCategories _ := .ok []

def smallChild : Child :=
  ⟨1, bytes "Ola", 2453132, 7, bytes "ola", bytes "UTC", 0⟩

theorem queryDatabase_decision_small :
    ∃ result code,
      queryDatabase midnightClock smallDatabase smallChild [] (bytes "www.onet.pl/") =
        some result ∧
      result.responseCode = some code ∧
      DecisionLaw true false [(bytes "onet.pl", true)] [(uncategorizedGroupId, true)]
        (siteGroups []) (bytes "www.onet.pl/") code :=
  queryDatabase_decision midnightClock true false (by decide) rfl nofun fun _ =>
    ⟨⟨bytes "school", [], rfl⟩, rfl, rfl, rfl, fun _ _ => ⟨bytes "other", rfl⟩⟩

end SafeKiddo
