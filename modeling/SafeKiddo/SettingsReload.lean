import SafeKiddo.SettingsFile
import SafeKiddo.AdmissionIndependence

/-!
# Reloading the custom settings

`reloadCustomSettingsFile` is called by the thread of the management interface while other threads
ask for access. It reads the file line by line into a map of its own, then swaps the map under one
mutex and clears the counters under another one. The critical sections of the other threads go on
between these steps.

Results:
1. `reload_alone`: undisturbed, the steps compute the function.
2. `progress_run`: what a reload has done so far, in any interleaving.
3. `reads_run`: whatever is interleaved, settings that are read are those of one loaded map.
4. `reload_all_or_nothing`: a reload does nothing, or all of it, and a call that is interleaved reads
   the old or the new settings of its address.
-/

namespace SafeKiddo

open ByteString AdmissionControlContainer

/-! ## 1. The code -/

/-- Both the swap and the clearing, without other threads. -/
def AdmissionControlContainer.reloadCustomSettingsFile (self : AdmissionControlContainer)
    (params : LoadParams) (file : Option Bytes) : AdmissionControlContainer :=
  let (successfull, self) := self.loadCustomSettingsMap params file
  if successfull then { self with ipMap := ∅ } else self

namespace SettingsReload

open AdmissionHistory (Event)

/-- Where the thread of the management interface is. -/
inductive Phase
  | idle
  /-- In the loop, behind the line `lineNum`, with the lines that are left. -/
  | reading (lineNum : Nat) (lines : List Bytes) (newCustomSettingsMap : CustomSettingsMap)
  /-- The new map is in place, and the counters are not cleared yet. -/
  | swapped

structure State (Call : Type) where
  history : AdmissionHistory.State Call
  phase : Phase

inductive Label (Call : Type)
  /-- A critical section of another thread. -/
  | other (event : Event Call)
  /-- The file is opened. -/
  | start (file : Option Bytes)
  | readLine
  | swap
  | clear

/-- The other threads do not load settings. -/
def isLoad {Call : Type} : Event Call → Bool
  | .loadCustomSettingsMap _ => true
  | _ => false

section Machine

variable {Call : Type} [DecidableEq Call]

def step (params : LoadParams) (s : State Call) : Label Call → Option (State Call)
  | .other event =>
    if isLoad event then none
    else (AdmissionHistory.step s.history event).map fun history => { s with history }
  | .start file =>
    match s.phase, file with
    | .idle, none => some s
    | .idle, some content => some { s with phase := .reading 0 (fileLines content) ∅ }
    | _, _ => none
  | .readLine =>
    match s.phase with
    | .reading lineNum (line :: lines) newCustomSettingsMap =>
      match AdmissionControlContainer.readLine params (lineNum + 1) line newCustomSettingsMap with
      | .ok newCustomSettingsMap =>
        some { s with phase := .reading (lineNum + 1) lines newCustomSettingsMap }
      | .error _ => some { s with phase := .idle }
    | _ => none
  | .swap =>
    match s.phase with
    | .reading _ [] newCustomSettingsMap =>
      (AdmissionHistory.step s.history (.loadCustomSettingsMap (some newCustomSettingsMap))).map
        fun history => ⟨history, .swapped⟩
    | _ => none
  | .clear =>
    match s.phase with
    | .swapped => (AdmissionHistory.step s.history .clear).map fun history => ⟨history, .idle⟩
    | _ => none

/-- The interleavings of reloads and other calls, of a container that has counted nothing yet. -/
def machine (Call : Type) [DecidableEq Call] (params : LoadParams)
    (container : AdmissionControlContainer) : Machine (State Call) (Label Call) :=
  ⟨⟨(AdmissionHistory.machine Call container).init, .idle⟩, step params⟩

/-- The sections of the other threads. -/
def others (ls : List (Label Call)) : List (Event Call) :=
  ls.filterMap fun l => match l with
    | .other event => some event
    | _ => none

def isStart : Label Call → Bool
  | .start _ => true
  | _ => false

/-! ## 2. Undisturbed reloads -/

/-- A label of the reload itself, behind the opening of the file. -/
def isOwn : Label Call → Bool
  | .readLine => true
  | .swap => true
  | .clear => true
  | _ => false

/-- The rest of the loop, and what comes behind it. -/
theorem reading_alone (params : LoadParams) (container : AdmissionControlContainer)
    (history : AdmissionHistory.State Call) (lines : List Bytes) (lineNum : Nat)
    (m : CustomSettingsMap) :
    ∃ ls, (∀ l ∈ ls, isOwn l = true) ∧
      (machine Call params container).run ⟨history, .reading lineNum lines m⟩ ls =
        some (match loadLines params lineNum lines m with
          | .ok m' =>
            ⟨{ history with container := { history.container with
                customSettingsMap := m', ipMap := ∅ } }, .idle⟩
          | .error _ => ⟨history, .idle⟩) := by
  induction lines generalizing lineNum m with
  | nil => exact ⟨[.swap, .clear], by simp [isOwn], rfl⟩
  | cons line lines ih =>
    cases hround : AdmissionControlContainer.readLine params (lineNum + 1) line m with
    | error error =>
      refine ⟨[.readLine], by simp [isOwn], ?_⟩
      simp only [Machine.run, machine, step, hround, loadLines]
      rfl
    | ok m' =>
      obtain ⟨ls, hown, hrun⟩ := ih (lineNum + 1) m'
      refine ⟨.readLine :: ls, List.forall_mem_cons.mpr ⟨rfl, hown⟩, ?_⟩
      have hload : loadLines params lineNum (line :: lines) m =
          loadLines params (lineNum + 1) lines m' := by rw [loadLines, hround]; rfl
      rw [hload, ← hrun, Machine.run]
      simp only [machine, step, hround, Option.bind_some]

/-- Undisturbed, the steps of the thread compute the function. -/
theorem reload_alone (params : LoadParams) (container : AdmissionControlContainer)
    (history : AdmissionHistory.State Call) (file : Option Bytes) :
    ∃ ls, (∀ l ∈ ls, isOwn l = true) ∧
      (machine Call params container).run ⟨history, .idle⟩ (.start file :: ls) =
        some ⟨{ history with
          container := history.container.reloadCustomSettingsFile params file }, .idle⟩ := by
  cases file with
  | none => exact ⟨[], by simp, rfl⟩
  | some content =>
    obtain ⟨ls, hown, hrun⟩ := reading_alone params container history (fileLines content) 0 ∅
    refine ⟨ls, hown, ?_⟩
    have hstart : (machine Call params container).step ⟨history, .idle⟩ (.start (some content)) =
        some ⟨history, .reading 0 (fileLines content) ∅⟩ := rfl
    rw [Machine.run, hstart, Option.bind_some, hrun, reloadCustomSettingsFile,
      loadCustomSettingsMap, parseFile]
    cases loadLines params 0 (fileLines content) ∅ <;> rfl

/-! ## 3. Settings that are read -/

/-- The settings of an address in a map. -/
def settingsIn (container : AdmissionControlContainer) (map : CustomSettingsMap) (ip : In6Addr) :
    CustomSettings :=
  { container with customSettingsMap := map }.getSettingsForIp ip

section Sections

variable {s s' : AdmissionHistory.State Call} {event : Event Call}

/-- The sections of the other threads touch the counters only. -/
theorem config_of_step (he : isLoad event = false) (hs : AdmissionHistory.step s event = some s') :
    s'.container.config = s.container.config := by
  cases event with
  | getSettings call ip =>
    simp only [AdmissionHistory.step] at hs
    split at hs
    · cases hs
      rfl
    · cases hs
  | countAccess call ip =>
    simp only [AdmissionHistory.step] at hs
    split at hs
    · cases hs
    · split at hs
      · cases hs
        exact config_countAccess _ _ _
      · cases hs
  | addInvalidCredentialsPenalty ip =>
    cases hs
    rfl
  | clear =>
    cases hs
    rfl
  | loadCustomSettingsMap newCustomSettingsMap => cases he

/-- Settings are read from the container as it is. -/
theorem settings_of_step (hs : AdmissionHistory.step s event = some s') {call : Call}
    {ip : In6Addr} {settings : CustomSettings} (h : s'.settings call = some (ip, settings)) :
    s.settings call = some (ip, settings) ∨ settings = s.container.getSettingsForIp ip := by
  cases event with
  | getSettings call' ip' =>
    simp only [AdmissionHistory.step] at hs
    split at hs
    · cases hs
      have hread := (Function.update_apply s.settings call' _ call).symm.trans h
      split at hread
      · cases hread
        exact .inr rfl
      · exact .inl hread
    · cases hs
  | countAccess call' ip' =>
    simp only [AdmissionHistory.step] at hs
    split at hs
    · cases hs
    · split at hs
      · cases hs
        have hread := (Function.update_apply s.settings call' _ call).symm.trans h
        split at hread
        · cases hread
        · exact .inl hread
      · cases hs
  | addInvalidCredentialsPenalty ip' =>
    cases hs
    exact .inl h
  | clear =>
    cases hs
    exact .inl h
  | loadCustomSettingsMap newCustomSettingsMap =>
    cases newCustomSettingsMap with
    | none =>
      cases hs
      exact .inl h
    | some map =>
      cases hs
      exact .inl h

end Sections

/-- Since `s₀`, settings are those of the allowed maps, and no other map can be loaded. -/
structure ReadsFrom (params : LoadParams) (allowed : CustomSettingsMap → Prop) (s₀ s : State Call) :
    Prop where
  config : ∃ map, allowed map ∧ s.history.container.config =
    { s₀.history.container.config with customSettingsMap := map }
  reads : ∀ call ip settings, s.history.settings call = some (ip, settings) →
    s₀.history.settings call = some (ip, settings) ∨
      ∃ map, allowed map ∧ settings = settingsIn s₀.history.container map ip
  loads : ∀ lineNum lines m m', s.phase = .reading lineNum lines m →
    loadLines params lineNum lines m = .ok m' → allowed m'

section Reads

variable {params : LoadParams} {allowed : CustomSettingsMap → Prop} {s₀ s s' : State Call}

theorem ReadsFrom.step {l : Label Call} (hinv : ReadsFrom params allowed s₀ s)
    (hl : ∀ file m, l = .start file → parseFile params file = .ok m → allowed m)
    (hs : step params s l = some s') : ReadsFrom params allowed s₀ s' := by
  obtain ⟨⟨map, hmap, hconfig⟩, hreads, hloads⟩ := hinv
  cases l with
  | other event =>
    simp only [SettingsReload.step] at hs
    split at hs
    · cases hs
    · next he =>
      obtain ⟨history, hhistory, rfl⟩ := Option.map_eq_some_iff.mp hs
      refine ⟨⟨map, hmap, ?_⟩, fun call ip settings h => ?_, hloads⟩
      · exact (config_of_step (Bool.eq_false_iff.mpr he) hhistory).trans hconfig
      · rcases settings_of_step hhistory h with h | rfl
        · exact hreads call ip settings h
        · -- What is read depends on the configuration only.
          have hget := congrArg (·.getSettingsForIp ip) hconfig
          exact .inr ⟨map, hmap, hget⟩
  | start file =>
    simp only [SettingsReload.step] at hs
    split at hs
    · cases hs
      exact ⟨⟨map, hmap, hconfig⟩, hreads, hloads⟩
    · next content =>
      cases hs
      refine ⟨⟨map, hmap, hconfig⟩, hreads, fun lineNum lines m m' hphase hload => ?_⟩
      cases hphase
      exact hl _ m' rfl hload
    · cases hs
  | readLine =>
    simp only [SettingsReload.step] at hs
    split at hs
    · next lineNum line lines m hphase =>
      split at hs
      · next m₁ hround =>
        cases hs
        refine ⟨⟨map, hmap, hconfig⟩, hreads, fun n rest m₂ m' hnext hload => ?_⟩
        cases hnext
        refine hloads _ _ _ m' hphase ?_
        rw [loadLines, hround]
        exact hload
      · cases hs
        refine ⟨⟨map, hmap, hconfig⟩, hreads, fun _ _ _ _ hnext => ?_⟩
        cases hnext
    · cases hs
  | swap =>
    simp only [SettingsReload.step] at hs
    split at hs
    · next lineNum m hphase =>
      cases hs
      refine ⟨⟨m, hloads _ _ _ m hphase rfl, ?_⟩, hreads, fun _ _ _ _ hnext => ?_⟩
      · have hnew := congrArg (fun c : AdmissionControlContainer =>
          { c with customSettingsMap := m }) hconfig
        exact hnew
      · cases hnext
    · cases hs
  | clear =>
    simp only [SettingsReload.step] at hs
    split at hs
    · cases hs
      refine ⟨⟨map, hmap, hconfig⟩, hreads, fun _ _ _ _ hnext => ?_⟩
      cases hnext
    · cases hs

end Reads

/-! ## 4. What a reload has done -/

section Progress

variable {params : LoadParams} {container : AdmissionControlContainer} {file : Option Bytes}
  {s t t' : State Call} {ls : List (Label Call)}

/-- The sections lead from the container and its calls in `s` to those in `t`. -/
def Sections (s : State Call) (events : List (Event Call)) (t : State Call) : Prop :=
  (AdmissionHistory.machine Call s.history.container).run s.history events = some t.history

def load (m : CustomSettingsMap) : Event Call := .loadCustomSettingsMap (some m)

/-- What has happened since the reload of the file began in `s`, beside the sections of the other
threads. -/
inductive Progress (params : LoadParams) (file : Option Bytes) (s : State Call) :
    List (Event Call) → State Call → Prop
  | reading {events t lineNum lines m} : t.phase = .reading lineNum lines m →
      loadLines params lineNum lines m = parseFile params file → Sections s events t →
      Progress params file s events t
  | failed {events t error} : t.phase = .idle → parseFile params file = .error error →
      Sections s events t → Progress params file s events t
  | swapped {before after t m} : t.phase = .swapped → parseFile params file = .ok m →
      Sections s (before ++ load m :: after) t → t.history.container.customSettingsMap = m →
      Progress params file s (before ++ after) t
  | finished {before between after t m} : t.phase = .idle → parseFile params file = .ok m →
      Sections s (before ++ load m :: (between ++ .clear :: after)) t →
      t.history.container.customSettingsMap = m →
      Progress params file s (before ++ (between ++ after)) t

theorem Sections.snoc {events : List (Event Call)} {event : Event Call}
    (h : Sections s events t) (hs : AdmissionHistory.step t.history event = some t'.history) :
    Sections s (events ++ [event]) t' := by
  unfold Sections at h ⊢
  rw [Machine.run_append, h, Option.bind_some]
  exact Option.bind_eq_some_iff.mpr ⟨t'.history, hs, rfl⟩

omit [DecidableEq Call] in
theorem others_append (ls ls' : List (Label Call)) :
    others (ls ++ ls') = others ls ++ others ls' := List.filterMap_append

/-- A section of another thread goes on from any progress. -/
theorem Progress.other {events : List (Event Call)} {event : Event Call}
    (h : Progress params file s events t) (he : isLoad event = false)
    (hs : AdmissionHistory.step t.history event = some t'.history) (hphase : t'.phase = t.phase) :
    Progress params file s (events ++ [event]) t' := by
  have hmap : t'.history.container.customSettingsMap = t.history.container.customSettingsMap :=
    congrArg (·.customSettingsMap) (config_of_step he hs)
  cases h with
  | reading hphase' hload hsections =>
    exact .reading (hphase.trans hphase') hload (hsections.snoc hs)
  | failed hphase' hparse hsections =>
    exact .failed (hphase.trans hphase') hparse (hsections.snoc hs)
  | swapped hphase' hparse hsections hm =>
    have hmore := hsections.snoc hs
    rw [List.append_assoc, List.cons_append] at hmore
    rw [List.append_assoc]
    exact .swapped (hphase.trans hphase') hparse hmore (hmap.trans hm)
  | finished hphase' hparse hsections hm =>
    have hmore := hsections.snoc hs
    rw [List.append_assoc, List.cons_append, List.append_assoc, List.cons_append] at hmore
    rw [List.append_assoc, List.append_assoc]
    exact .finished (hphase.trans hphase') hparse hmore (hmap.trans hm)

/-- In the loop the map has not been put in place. -/
theorem Progress.of_reading {events : List (Event Call)} {lineNum : Nat} {lines : List Bytes}
    {m : CustomSettingsMap} (h : Progress params file s events t)
    (hphase : t.phase = .reading lineNum lines m) :
    loadLines params lineNum lines m = parseFile params file ∧ Sections s events t := by
  cases h with
  | reading hphase' hload hsections =>
    cases hphase.symm.trans hphase'
    exact ⟨hload, hsections⟩
  | failed hphase' => cases hphase.symm.trans hphase'
  | swapped hphase' => cases hphase.symm.trans hphase'
  | finished hphase' => cases hphase.symm.trans hphase'

/-- Behind the swap the map has been put in place. -/
theorem Progress.of_swapped {events : List (Event Call)} (h : Progress params file s events t)
    (hphase : t.phase = .swapped) : ∃ before after m, events = before ++ after ∧
      parseFile params file = .ok m ∧ Sections s (before ++ load m :: after) t ∧
      t.history.container.customSettingsMap = m := by
  cases h with
  | reading hphase' => cases hphase.symm.trans hphase'
  | failed hphase' => cases hphase.symm.trans hphase'
  | @swapped before after _ m _ hparse hsections hm =>
    exact ⟨before, after, m, rfl, hparse, hsections, hm⟩
  | finished hphase' => cases hphase.symm.trans hphase'

/-- Each step of the reload makes progress, in its order. -/
theorem progress_step {events : List (Event Call)} {l : Label Call}
    (h : Progress params file s events t) (hl : isStart l = false)
    (hs : step params t l = some t') : Progress params file s (events ++ others [l]) t' := by
  have hown : ∀ l : Label Call, isOwn l = true → events ++ others [l] = events := by
    intro l hl
    cases l with
    | other event => cases hl
    | start file => cases hl
    | readLine => exact List.append_nil events
    | swap => exact List.append_nil events
    | clear => exact List.append_nil events
  cases l with
  | other event =>
    simp only [step] at hs
    split at hs
    · cases hs
    · next he =>
      obtain ⟨history, hhistory, rfl⟩ := Option.map_eq_some_iff.mp hs
      exact h.other (Bool.eq_false_iff.mpr he) hhistory rfl
  | start file' => cases hl
  | readLine =>
    rw [hown _ rfl]
    simp only [step] at hs
    split at hs
    · next lineNum line lines m hphase =>
      obtain ⟨hload, hsections⟩ := h.of_reading hphase
      rw [loadLines] at hload
      split at hs
      · next m' hround =>
        cases hs
        rw [hround] at hload
        exact .reading rfl hload hsections
      · next error hround =>
        cases hs
        rw [hround] at hload
        exact .failed rfl hload.symm hsections
    · cases hs
  | swap =>
    rw [hown _ rfl]
    simp only [step] at hs
    split at hs
    · next lineNum m hphase =>
      obtain ⟨hload, hsections⟩ := h.of_reading hphase
      obtain ⟨history, hhistory, rfl⟩ := Option.map_eq_some_iff.mp hs
      have hswap : Sections s (events ++ [load m]) ⟨history, .swapped⟩ := hsections.snoc hhistory
      cases hhistory
      rw [← List.append_nil events]
      exact .swapped rfl hload.symm hswap rfl
    · cases hs
  | clear =>
    rw [hown _ rfl]
    simp only [step] at hs
    split at hs
    · next hphase =>
      obtain ⟨before, after, m, rfl, hparse, hsections, hm⟩ := h.of_swapped hphase
      obtain ⟨history, hhistory, rfl⟩ := Option.map_eq_some_iff.mp hs
      have hclear : Sections s (before ++ load m :: after ++ [.clear]) ⟨history, .idle⟩ :=
        hsections.snoc hhistory
      cases hhistory
      rw [List.append_assoc, List.cons_append] at hclear
      rw [← List.append_nil after]
      exact .finished rfl hparse hclear hm
    · cases hs

/-- What a reload has done so far, in any interleaving. -/
theorem progress_run (hls : ∀ l ∈ ls, isStart l = false)
    (h : (machine Call params container).run s (.start file :: ls) = some t) :
    Progress params file s (others ls) t := by
  obtain ⟨s₁, hstart, hrun⟩ := Option.bind_eq_some_iff.mp h
  have hfirst : Progress params file s (others []) s₁ := by
    simp only [machine, step] at hstart
    split at hstart
    · next hphase =>
      cases hstart
      exact .failed hphase rfl rfl
    · next content hphase =>
      cases hstart
      exact .reading rfl rfl rfl
    · cases hstart
  let inv : List (Label Call) → State Call → Prop := fun ls t =>
    (∀ l ∈ ls, isStart l = false) → Progress params file s (others ls) t
  have hstep : ∀ ls t l t', inv ls t → step params t l = some t' → inv (ls ++ [l]) t' := by
    intro ls t l t' hinv hs hls
    rw [others_append]
    exact progress_step (hinv fun l hl => hls l (List.mem_append_left _ hl))
      (hls l (List.mem_append_right _ List.mem_cons_self)) hs
  have hkeep : inv ([] ++ ls) t := Machine.run_history hstep (fun _ => hfirst) hrun
  exact hkeep hls

end Progress

/-! ## 5. All or nothing -/

section AllOrNothing

variable {params : LoadParams} {container : AdmissionControlContainer} {file : Option Bytes}
  {s t : State Call} {earlier ls : List (Label Call)}

theorem reads_run {allowed : CustomSettingsMap → Prop} {s₀ : State Call}
    (hinv : ReadsFrom params allowed s₀ s)
    (hls : ∀ l ∈ ls, ∀ file m, l = .start file → parseFile params file = .ok m → allowed m)
    (h : (machine Call params container).run s ls = some t) : ReadsFrom params allowed s₀ t :=
  Machine.run_invariant_on (fun _ _ _ hl hinv hs => hinv.step hl hs) hls hinv h

/-- The map of the container, and those of the files that were opened. -/
def Loadable (params : LoadParams) (container : AdmissionControlContainer)
    (earlier : List (Label Call)) (map : CustomSettingsMap) : Prop :=
  map = container.customSettingsMap ∨
    ∃ file, .start file ∈ earlier ∧ parseFile params file = .ok map

/-- In every reachable state the settings that a call has read are those of one map. -/
theorem reads_reachable
    (h : (machine Call params container).run (machine Call params container).init earlier = some s)
    {call : Call} {ip : In6Addr} {settings : CustomSettings}
    (hread : s.history.settings call = some (ip, settings)) :
    ∃ map, Loadable params container earlier map ∧ settings = settingsIn container map ip := by
  have hinit : ReadsFrom params (Loadable params container earlier)
      (machine Call params container).init (machine Call params container).init :=
    ⟨⟨container.customSettingsMap, .inl rfl, rfl⟩, fun _ _ _ h => .inl h,
      fun _ _ _ _ hphase => nomatch hphase⟩
  have hreads := reads_run hinit
    (fun l hl file m hstart hparse => .inr ⟨file, hstart ▸ hl, hparse⟩) h
  exact (hreads.reads call ip settings hread).resolve_left fun h => nomatch h

/-- A reload begins when none is under way. -/
theorem idle_of_start {s₁ : State Call} (h : step params s (.start file) = some s₁) :
    s.phase = .idle := by
  simp only [step] at h
  split at h
  · next hphase => exact hphase
  · next hphase => exact hphase
  · cases h

/-- The settings that are read during a reload. -/
theorem reads_reload (hls : ∀ l ∈ ls, isStart l = false)
    (h : (machine Call params container).run s (.start file :: ls) = some t) :
    ReadsFrom params (fun map => map = s.history.container.customSettingsMap ∨
      parseFile params file = .ok map) s t := by
  have hphase : s.phase = .idle := by
    obtain ⟨s₁, hstart, -⟩ := Option.bind_eq_some_iff.mp h
    exact @idle_of_start _ _ params _ _ s₁ hstart
  refine reads_run ⟨⟨_, .inl rfl, rfl⟩, fun _ _ _ h => .inl h, fun _ _ _ _ hreading => ?_⟩ ?_ h
  · cases hphase.symm.trans hreading
  · intro l hl file' m hstart hparse
    rcases List.mem_cons.mp hl with rfl | hl
    · cases hstart
      exact .inr hparse
    · have hno := hls l hl
      rw [hstart] at hno
      cases hno

/-- A reload of a file that cannot be loaded does nothing, whatever the other threads do. A reload
that is finished has put the map of the file in place and then cleared the counters, once each. A
call that reads its settings during the reload reads those of the old map or of the new one, and a
call that had read them before had read those of one map. -/
theorem reload_all_or_nothing
    (hs : (machine Call params container).run (machine Call params container).init earlier = some s)
    (hls : ∀ l ∈ ls, isStart l = false)
    (h : (machine Call params container).run s (.start file :: ls) = some t) :
    (∀ error, parseFile params file = .error error → Sections s (others ls) t ∧
      t.history.container.customSettingsMap = s.history.container.customSettingsMap) ∧
    (∀ m, parseFile params file = .ok m → t.phase = .idle →
      t.history.container.customSettingsMap = m ∧
      ∃ before between after, others ls = before ++ (between ++ after) ∧
        Sections s (before ++ load m :: (between ++ .clear :: after)) t) ∧
    (∀ m, parseFile params file = .ok m → t.phase ≠ .idle → Sections s (others ls) t ∨
      ∃ before after, others ls = before ++ after ∧ Sections s (before ++ load m :: after) t) ∧
    ∀ call ip settings, t.history.settings call = some (ip, settings) →
      (s.history.settings call = some (ip, settings) ∧
        ∃ map, Loadable params container earlier map ∧ settings = settingsIn container map ip) ∨
      settings = s.history.container.getSettingsForIp ip ∨
      ∃ m, parseFile params file = .ok m ∧ settings = settingsIn s.history.container m ip := by
  have hprogress := progress_run hls h
  have hreads := reads_reload hls h
  generalize others ls = events at hprogress
  refine ⟨fun error herror => ⟨?_, ?_⟩, fun m hm hphase => ?_, fun m hm hphase => ?_, ?_⟩
  · cases hprogress with
    | reading _ _ hsections => exact hsections
    | failed _ _ hsections => exact hsections
    | swapped _ hparse => cases herror.symm.trans hparse
    | finished _ hparse => cases herror.symm.trans hparse
  · obtain ⟨map, hmap, hconfig⟩ := hreads.config
    obtain rfl := hmap.resolve_right fun hparse => nomatch herror.symm.trans hparse
    exact congrArg (·.customSettingsMap) hconfig
  · cases hprogress with
    | reading hphase' => cases hphase.symm.trans hphase'
    | failed _ hparse => cases hm.symm.trans hparse
    | swapped hphase' => cases hphase.symm.trans hphase'
    | @finished before between after _ m' _ hparse hsections hmap =>
      cases hm.symm.trans hparse
      exact ⟨hmap, before, between, after, rfl, hsections⟩
  · cases hprogress with
    | reading _ _ hsections => exact .inl hsections
    | failed hphase' => exact absurd hphase' hphase
    | @swapped before after _ m' _ hparse hsections =>
      cases hm.symm.trans hparse
      exact .inr ⟨before, after, rfl, hsections⟩
    | finished hphase' => exact absurd hphase' hphase
  · intro call ip settings hread
    rcases hreads.reads call ip settings hread with hbefore | ⟨map, rfl | hparse, rfl⟩
    · exact .inl ⟨hbefore, reads_reachable hs hbefore⟩
    · exact .inr (.inl rfl)
    · exact .inr (.inr ⟨map, hparse, rfl⟩)

end AllOrNothing

end Machine

open AdmissionControl (smallContainer)

/-- A call that reads its settings before the map is swapped and counts behind it. -/
def tenReload : List (Label Nat) :=
  [.other (.getSettings 0 (tenEntry 10).ip), .readLine, .swap,
    .other (.countAccess 0 (tenEntry 10).ip), .clear]

theorem reload_all_or_nothing_ten :
    ∃ t m, (machine Nat twoParams (smallContainer 1 5)).run
        (machine Nat twoParams (smallContainer 1 5)).init
        (.start (some (bytes "10.0.0.1 10 5\n")) :: tenReload) = some t ∧
      parseFile twoParams (some (bytes "10.0.0.1 10 5\n")) = .ok m ∧
      t.history.container.customSettingsMap = m := by
  have hrun : ((machine Nat twoParams (smallContainer 1 5)).run
      (machine Nat twoParams (smallContainer 1 5)).init
      (.start (some (bytes "10.0.0.1 10 5\n")) :: tenReload)).any
        (fun t => match t.phase with | .idle => true | _ => false) = true := by decide +kernel
  have hload : ((smallContainer 1 5).loadCustomSettingsMap twoParams
      (some (bytes "10.0.0.1 10 5\n"))).1 = true := by decide +kernel
  obtain ⟨m, hm⟩ := loadCustomSettingsMap_fst.mp hload
  obtain ⟨t, ht, hidle⟩ := (Option.any_eq_true _ _).mp hrun
  have hphase : t.phase = .idle := by
    split at hidle
    · assumption
    · cases hidle
  have hall := @reload_all_or_nothing Nat _ twoParams (smallContainer 1 5)
    (some (bytes "10.0.0.1 10 5\n")) _ t [] tenReload rfl (by decide) ht
  exact ⟨t, m, ht, hm, (hall.2.1 m hm hphase).1⟩

end SettingsReload

end SafeKiddo
