import SafeKiddo.Lib.Machine
import SafeKiddo.WebrootOverrides

/-!
# The update of the webroot overrides

`WebrootOverridesProvider::updateLoop` with the threads that force an update and the thread that
stops it. What is done under `sleepMutex` is one step: a forced update, and the end of the loop from
the lock to the wait or from the wake-up to the unlock. The wait may end at any time.

Results:
1. `step_requested`: no step but the start of a fetch forgets a forced update.
2. `step_mapOk`: the map is what the last successful fetch has brought.
3. `forced_update_kept`: both, in every run.
-/

namespace SafeKiddo

open ByteString

namespace Webroot

/-! ## 1. The code -/

/-- Where the update thread is. -/
inductive Phase
  | connecting
  /-- At the head of the loop: the next action is a fetch. -/
  | beforeFetch
  | fetching
  /-- `fetchOverrides` has returned. -/
  | fetched (queryResult : Result (List OverrideRow))
  /-- Before `sleepMutex` is locked. -/
  | beforeWait
  | waiting
  | finished
  /-- A failed assertion has stopped the process. -/
  | aborted

inductive Label
  /-- Any thread, at any moment. -/
  | forceUpdateMap
  /-- The destructor sets `stopped`. -/
  | stop
  | connect (ok : Bool)
  | startFetch
  | endFetch (queryResult : Result (List OverrideRow))
  | storeMap
  | enterWait
  /-- The interval has expired, or the thread was notified, or neither. -/
  | wake (timeout : Bool)

section Code

variable {Key : Type} [Ord Key]

/-- The provider, its update thread, and all that the stored or failed fetches have brought. -/
structure UpdateState (Key : Type) [Ord Key] where
  provider : WebrootOverridesProvider Key
  phase : Phase
  outcomes : List (Result (List OverrideRow))

namespace UpdateState

/-- The predicate of the wait. -/
def wanted (s : UpdateState Key) : Bool :=
  s.provider.forceUpdateRequired || s.provider.stopped

/-- What follows the wait, which has returned the value of its predicate. -/
def afterWait (s : UpdateState Key) : UpdateState Key :=
  if s.wanted then
    if s.provider.stopped then
      { s with phase := .finished }
    else
      { s with provider := { s.provider with forceUpdateRequired := false }, phase := .beforeFetch }
  else
    { s with phase := .beforeFetch }

/-- The map is replaced under `categorizationsMutex`. The first fetch must not fail. -/
def storeMap (sdk : Sdk Key) (s : UpdateState Key) (queryResult : Result (List OverrideRow)) :
    UpdateState Key :=
  let s := { s with outcomes := s.outcomes ++ [queryResult] }
  match fetchOverrides sdk queryResult with
  | some newCategorizationsMap =>
    { s with
      provider := { s.provider with categorizationsMap := newCategorizationsMap }
      phase := .beforeWait }
  | none => if s.provider.ready then { s with phase := .beforeWait } else { s with phase := .aborted }

/-- The wait looks at its predicate before it sleeps. -/
def enterWait (s : UpdateState Key) : UpdateState Key :=
  let s := { s with provider := { s.provider with ready := true } }
  if s.wanted then s.afterWait else { s with phase := .waiting }

/-- A wake-up before the end of the interval goes back to sleep when nothing is wanted. -/
def wake (s : UpdateState Key) (timeout : Bool) : UpdateState Key :=
  if s.wanted || timeout then s.afterWait else s

end UpdateState

/-- A stopped process takes no step. -/
def updateStep (sdk : Sdk Key) (s : UpdateState Key) : Label → Option (UpdateState Key)
  | .forceUpdateMap =>
    match s.phase with
    | .aborted => none
    | _ => some { s with provider := { s.provider with forceUpdateRequired := true } }
  | .stop =>
    match s.phase with
    | .aborted => none
    | _ => some { s with provider := { s.provider with stopped := true } }
  | .connect ok =>
    match s.phase with
    | .connecting => some { s with phase := if ok then .beforeFetch else .aborted }
    | _ => none
  | .startFetch =>
    match s.phase with
    | .beforeFetch => some { s with phase := .fetching }
    | _ => none
  | .endFetch queryResult =>
    match s.phase with
    | .fetching => some { s with phase := .fetched queryResult }
    | _ => none
  | .storeMap =>
    match s.phase with
    | .fetched queryResult => some (s.storeMap sdk queryResult)
    | _ => none
  | .enterWait =>
    match s.phase with
    | .beforeWait => some s.enterWait
    | _ => none
  | .wake timeout =>
    match s.phase with
    | .waiting => some (s.wake timeout)
    | _ => none

def updateMachine (sdk : Sdk Key) : Machine (UpdateState Key) Label where
  init := ⟨⟨∅, false, false, false⟩, .connecting, []⟩
  step := updateStep sdk

end Code

/-! ## 2. Steps -/

section Update

variable {Key : Type} [Ord Key] {sdk : Sdk Key} {s s' : UpdateState Key} {l : Label}

/-- What each step does. -/
inductive Stepped (sdk : Sdk Key) (s : UpdateState Key) : Label → UpdateState Key → Prop
  | forceUpdateMap :
      Stepped sdk s .forceUpdateMap
        { s with provider := { s.provider with forceUpdateRequired := true } }
  | stop : Stepped sdk s .stop { s with provider := { s.provider with stopped := true } }
  | connect (ok : Bool) (hphase : s.phase = .connecting) :
      Stepped sdk s (.connect ok) { s with phase := if ok then .beforeFetch else .aborted }
  | startFetch (hphase : s.phase = .beforeFetch) :
      Stepped sdk s .startFetch { s with phase := .fetching }
  | endFetch (queryResult : Result (List OverrideRow)) (hphase : s.phase = .fetching) :
      Stepped sdk s (.endFetch queryResult) { s with phase := .fetched queryResult }
  | storeMap (queryResult : Result (List OverrideRow)) (hphase : s.phase = .fetched queryResult) :
      Stepped sdk s .storeMap (s.storeMap sdk queryResult)
  | enterWait (hphase : s.phase = .beforeWait) : Stepped sdk s .enterWait s.enterWait
  | wake (timeout : Bool) (hphase : s.phase = .waiting) :
      Stepped sdk s (.wake timeout) (s.wake timeout)

theorem stepped_of_step (h : updateStep sdk s l = some s') : Stepped sdk s l s' := by
  cases l with
  | forceUpdateMap =>
    simp only [updateStep] at h
    split at h
    · cases h
    · exact Option.some.inj h ▸ .forceUpdateMap
  | stop =>
    simp only [updateStep] at h
    split at h
    · cases h
    · exact Option.some.inj h ▸ .stop
  | connect ok =>
    simp only [updateStep] at h
    split at h
    · next hphase => exact Option.some.inj h ▸ .connect ok hphase
    · cases h
  | startFetch =>
    simp only [updateStep] at h
    split at h
    · next hphase => exact Option.some.inj h ▸ .startFetch hphase
    · cases h
  | endFetch queryResult =>
    simp only [updateStep] at h
    split at h
    · next hphase => exact Option.some.inj h ▸ .endFetch queryResult hphase
    · cases h
  | storeMap =>
    simp only [updateStep] at h
    split at h
    · next hphase => exact Option.some.inj h ▸ .storeMap _ hphase
    · cases h
  | enterWait =>
    simp only [updateStep] at h
    split at h
    · next hphase => exact Option.some.inj h ▸ .enterWait hphase
    · cases h
  | wake timeout =>
    simp only [updateStep] at h
    split at h
    · next hphase => exact Option.some.inj h ▸ .wake timeout hphase
    · cases h

/-- The end of the wait leaves the map, and the thread stops or fetches next. -/
theorem afterWait_cases (s : UpdateState Key) :
    s.afterWait.provider.categorizationsMap = s.provider.categorizationsMap ∧
      s.afterWait.provider.ready = s.provider.ready ∧ s.afterWait.outcomes = s.outcomes ∧
      (s.afterWait.phase = .beforeFetch ∨
        (s.afterWait.phase = .finished ∧ s.afterWait.provider.stopped = true)) := by
  unfold UpdateState.afterWait
  split
  · split
    · next hstopped => exact ⟨rfl, rfl, rfl, .inr ⟨rfl, hstopped⟩⟩
    · exact ⟨rfl, rfl, rfl, .inl rfl⟩
  · exact ⟨rfl, rfl, rfl, .inl rfl⟩

/-! ## 3. Forced updates -/

/-- An update was forced after the latest start of a fetch. -/
def ForcedSinceFetch (ls : List Label) : Prop :=
  ∃ before after, ls = before ++ .forceUpdateMap :: after ∧ .startFetch ∉ after

/-- The request is set, or the thread has left the wait and fetches next. -/
def Requested (s : UpdateState Key) : Prop :=
  s.provider.stopped = false →
    s.provider.forceUpdateRequired = true ∨ s.phase = .beforeFetch

theorem forcedSinceFetch_append {ls : List Label} (h : ForcedSinceFetch (ls ++ [l])) :
    l = .forceUpdateMap ∨ (l ≠ .startFetch ∧ ForcedSinceFetch ls) := by
  obtain ⟨before, after, hls, hno⟩ := h
  rcases List.eq_nil_or_concat after with rfl | ⟨after, last, rfl⟩
  · exact .inl (List.cons.inj (List.append_inj' hls rfl).2).1
  · rw [List.concat_eq_append, ← List.cons_append, ← List.append_assoc] at hls
    rw [List.concat_eq_append] at hno
    obtain ⟨rfl, hl⟩ := List.append_inj' hls rfl
    obtain rfl := (List.cons.inj hl).1
    refine .inr ⟨?_, before, after, rfl, fun hmem => hno (List.mem_append_left _ hmem)⟩
    rintro rfl
    exact hno (List.mem_append_right _ List.mem_cons_self)

theorem afterWait_requested (s : UpdateState Key) : Requested s.afterWait := by
  intro hrun
  obtain ⟨-, -, -, hphase | ⟨-, hstopped⟩⟩ := afterWait_cases s
  · exact .inr hphase
  · exact absurd (hstopped.symm.trans hrun) Bool.noConfusion

/-- Outside the head of the loop a request is the flag, which stays. -/
theorem Requested.frame (h : Requested s) (hphase : s.phase ≠ .beforeFetch)
    (hstopped : s'.provider.stopped = s.provider.stopped)
    (hforce : s'.provider.forceUpdateRequired = s.provider.forceUpdateRequired) : Requested s' :=
  fun hrun => .inl (hforce.trans ((h (hstopped ▸ hrun)).resolve_right hphase))

theorem step_forced (hs : updateStep sdk s .forceUpdateMap = some s') : Requested s' := by
  cases stepped_of_step hs
  exact fun _ => .inl rfl

/-- A request is forgotten by the start of a fetch only. -/
theorem step_requested (h : Requested s) (hl : l ≠ .startFetch)
    (hs : updateStep sdk s l = some s') : Requested s' := by
  cases stepped_of_step hs with
  | forceUpdateMap => exact fun _ => .inl rfl
  | stop => exact fun hrun => absurd hrun Bool.noConfusion
  | connect ok hphase => exact h.frame (hphase ▸ Phase.noConfusion) rfl rfl
  | startFetch hphase => exact absurd rfl hl
  | endFetch queryResult hphase => exact h.frame (hphase ▸ Phase.noConfusion) rfl rfl
  | storeMap queryResult hphase =>
    have hne : s.phase ≠ .beforeFetch := hphase ▸ Phase.noConfusion
    unfold UpdateState.storeMap
    simp only
    split
    · exact h.frame hne rfl rfl
    · split
      · exact h.frame hne rfl rfl
      · exact h.frame hne rfl rfl
  | enterWait hphase =>
    unfold UpdateState.enterWait
    simp only
    split
    · exact afterWait_requested _
    · exact h.frame (hphase ▸ Phase.noConfusion) rfl rfl
  | wake timeout hphase =>
    unfold UpdateState.wake
    split
    · exact afterWait_requested s
    · exact h

/-! ## 4. The map -/

/-- The rows of the last successful fetch. -/
def lastFetched (outcomes : List (Result (List OverrideRow))) : Option (List OverrideRow) :=
  (outcomes.filterMap Except.toOption).getLast?

/-- The map is what the last successful fetch has brought; a fetch was successful before the thread
waits and before lookups are let in. -/
structure MapOk (sdk : Sdk Key) (s : UpdateState Key) : Prop where
  map : fetchOverrides sdk (.ok ((lastFetched s.outcomes).getD [])) =
    some s.provider.categorizationsMap
  ready : s.provider.ready = true → (lastFetched s.outcomes).isSome
  beforeWait : s.phase = .beforeWait → (lastFetched s.outcomes).isSome

theorem lastFetched_ok (outcomes : List (Result (List OverrideRow))) (rows : List OverrideRow) :
    lastFetched (outcomes ++ [.ok rows]) = some rows := by
  simp [lastFetched, Except.toOption]

theorem lastFetched_error (outcomes : List (Result (List OverrideRow))) (e : Int) :
    lastFetched (outcomes ++ [.error e]) = lastFetched outcomes := by
  simp [lastFetched, Except.toOption]

theorem MapOk.frame (h : MapOk sdk s)
    (hmap : s'.provider.categorizationsMap = s.provider.categorizationsMap)
    (hready : s'.provider.ready = s.provider.ready) (houtcomes : s'.outcomes = s.outcomes)
    (hphase : s'.phase = .beforeWait → s.phase = .beforeWait) : MapOk sdk s' := by
  refine ⟨?_, fun hr => ?_, fun hp => ?_⟩
  · rw [houtcomes, hmap]
    exact h.map
  · rw [houtcomes]
    exact h.ready (hready ▸ hr)
  · rw [houtcomes]
    exact h.beforeWait (hphase hp)

theorem MapOk.afterWait (h : MapOk sdk s) : MapOk sdk s.afterWait := by
  obtain ⟨hmap, hready, houtcomes, hphase⟩ := afterWait_cases s
  refine h.frame hmap hready houtcomes ?_
  intro hp
  rcases hphase with hphase | ⟨hphase, -⟩
  · exact absurd (hphase.symm.trans hp) Phase.noConfusion
  · exact absurd (hphase.symm.trans hp) Phase.noConfusion

theorem MapOk.storeMap (h : MapOk sdk s) (queryResult : Result (List OverrideRow)) :
    MapOk sdk (s.storeMap sdk queryResult) := by
  unfold UpdateState.storeMap
  cases queryResult with
  | ok rows =>
    refine ⟨?_, fun _ => ?_, fun _ => ?_⟩
    · show fetchOverrides sdk (.ok ((lastFetched (s.outcomes ++ [.ok rows])).getD [])) = _
      rw [lastFetched_ok]
      rfl
    · show (lastFetched (s.outcomes ++ [.ok rows])).isSome
      rw [lastFetched_ok]
      rfl
    · show (lastFetched (s.outcomes ++ [.ok rows])).isSome
      rw [lastFetched_ok]
      rfl
  | error e =>
    show MapOk sdk (if s.provider.ready then _ else _)
    split
    · next hready =>
      refine ⟨?_, fun _ => ?_, fun _ => ?_⟩
      · rw [lastFetched_error]
        exact h.map
      · rw [lastFetched_error]
        exact h.ready hready
      · rw [lastFetched_error]
        exact h.ready hready
    · next hready =>
      refine ⟨?_, fun hr => absurd hr hready, fun hp => Phase.noConfusion hp⟩
      rw [lastFetched_error]
      exact h.map

theorem step_mapOk (h : MapOk sdk s) (hs : updateStep sdk s l = some s') : MapOk sdk s' := by
  cases stepped_of_step hs with
  | forceUpdateMap => exact h.frame rfl rfl rfl id
  | stop => exact h.frame rfl rfl rfl id
  | connect ok hphase =>
    refine h.frame rfl rfl rfl ?_
    intro hp
    simp only at hp
    split at hp <;> cases hp
  | startFetch hphase => exact h.frame rfl rfl rfl fun hp => Phase.noConfusion hp
  | endFetch queryResult hphase => exact h.frame rfl rfl rfl fun hp => Phase.noConfusion hp
  | storeMap queryResult hphase => exact h.storeMap queryResult
  | enterWait hphase =>
    have hok : MapOk sdk { s with provider := { s.provider with ready := true } } :=
      ⟨h.map, fun _ => h.beforeWait hphase, h.beforeWait⟩
    unfold UpdateState.enterWait
    simp only
    split
    · exact hok.afterWait
    · exact hok.frame rfl rfl rfl fun hp => Phase.noConfusion hp
  | wake timeout hphase =>
    unfold UpdateState.wake
    split
    · exact h.afterWait
    · exact h

theorem keeps_mapOk : (updateMachine sdk).Keeps (MapOk sdk) :=
  fun _ _ _ hinv hs => step_mapOk hinv hs

/-! ## 5. Runs -/

/-- In every run, an update that was forced since the latest fetch began is requested or is about to
be fetched, and a lookup sees the whole of what the last successful fetch has brought. -/
theorem forced_update_kept {ls : List Label}
    (h : (updateMachine sdk).run (updateMachine sdk).init ls = some s) :
    (s.provider.stopped = false → ForcedSinceFetch ls →
      s.provider.forceUpdateRequired = true ∨ s.phase = .beforeFetch) ∧
    ∀ url result, s.provider.findCategorization sdk url = some result →
      ∃ rows, lastFetched s.outcomes = some rows ∧
        fetchOverrides sdk (.ok rows) = some s.provider.categorizationsMap := by
  constructor
  · have hinit : ForcedSinceFetch [] → Requested (updateMachine sdk).init := by
      rintro ⟨before, after, hnil, -⟩
      exact absurd hnil.symm (List.append_ne_nil_of_right_ne_nil _ (List.cons_ne_nil _ _))
    have hstep : ∀ ls s l s', (ForcedSinceFetch ls → Requested s) →
        (updateMachine sdk).step s l = some s' → ForcedSinceFetch (ls ++ [l]) → Requested s' := by
      intro ls s l s' hinv hs hforced
      rcases forcedSinceFetch_append hforced with rfl | ⟨hl, hforced⟩
      · exact @step_forced _ _ sdk _ _ hs
      · exact step_requested (hinv hforced) hl hs
    exact fun hrun hforced => Machine.run_history hstep hinit h hforced hrun
  · intro url result hfind
    have hinit : MapOk sdk (updateMachine sdk).init :=
      ⟨rfl, fun hr => absurd hr Bool.noConfusion, fun hp => Phase.noConfusion hp⟩
    have hok := Machine.run_invariant keeps_mapOk hinit h
    have hready : s.provider.ready = true := by
      by_contra hnot
      rw [WebrootOverridesProvider.findCategorization, assert, if_neg hnot] at hfind
      cases hfind
    obtain ⟨rows, hrows⟩ := Option.isSome_iff_exists.mp (hok.ready hready)
    have hmap := hok.map
    rw [hrows] at hmap
    exact ⟨rows, hrows, hmap⟩

end Update

/-- An update is forced while the fetch after the first interval fails. -/
def forcedWhileFetching : List Label :=
  [.connect true, .startFetch, .endFetch (.ok onetRows), .storeMap, .enterWait, .wake true,
    .startFetch, .forceUpdateMap, .endFetch (.error (-1)), .storeMap]

theorem forced_update_kept_failed :
    ∃ s, (updateMachine onetSdk).run (updateMachine onetSdk).init forcedWhileFetching = some s ∧
      (s.provider.forceUpdateRequired = true ∨ s.phase = .beforeFetch) ∧
      ∃ rows, lastFetched s.outcomes = some rows ∧
        fetchOverrides onetSdk (.ok rows) = some s.provider.categorizationsMap := by
  obtain ⟨s, hrun⟩ : ∃ s, (updateMachine onetSdk).run (updateMachine onetSdk).init
      forcedWhileFetching = some s := ⟨_, rfl⟩
  obtain ⟨hforced, hmap⟩ := forced_update_kept hrun
  have hstate : s.provider.stopped = false ∧ s.provider.ready = true := by
    cases hrun
    exact ⟨rfl, rfl⟩
  have hsince : ForcedSinceFetch forcedWhileFetching :=
    ⟨forcedWhileFetching.take 7, forcedWhileFetching.drop 8, rfl, by simp [forcedWhileFetching]⟩
  have hlookup : s.provider.findCategorization onetSdk (bytes "onet.pl") =
      some (lookUpKeys onetSdk s.provider.categorizationsMap [bytes "onet.pl"]) := by
    rw [WebrootOverridesProvider.findCategorization, assert_true hstate.2]
    rfl
  exact ⟨s, hrun, hforced hstate.1 hsince, hmap _ _ hlookup⟩

end Webroot

end SafeKiddo
