import SafeKiddo.LoggingLoop

/-!
# Wake-ups of the logger thread

The request queue once more, with the wait on `requestAvailable` in two steps. The logger thread is
first taken out of the wait, by a notification or for no reason, and then needs the mutex before it
checks its condition. Other threads may come in between, and what they notify then is lost. A thread
that has not been taken out sleeps until a notification comes.

Results:
1. `keeps_awake`: whoever gives the thread work notifies it, unless it has work already.
2. `leaves_wait`: a thread in the wait with work to do leaves it when it gets the mutex.
3. `asleep_without_work`: a sleeping thread has nothing to do.
4. `asleep_without_work_loop`: so it is while the requests are sent to the database.
-/

namespace SafeKiddo

open ByteString

namespace LoggerWakeups

open RequestsContainer (State Phase GetCall notifyOne putRequest requestStop dropAllRequests getRequests
  afterWait wake moveToBuffer copyStep continueStep)

/-! ## 1. The machine -/

inductive Label
  | putRequest (request : Bytes)
  | requestStop
  | dropAllRequests
  | getRequests (mayBlock : Bool) (copyData : Bytes) (maxRequests : Nat)
  /-- The wait ends for no reason. -/
  | wakeUp
  /-- The logger thread goes on where it is, with the mutex where it needs it. -/
  | continue

/-- The thread is in the wait, and no notification has taken it out. -/
def asleep : Phase → Bool
  | .waiting _ false => true
  | _ => false

def wakeUpStep (s : State) : Option State :=
  match s.phase with
  | .waiting call false => some { s with phase := .waiting call true }
  | _ => none

def step (requestLoggerMaxQueueLength : Nat) (s : State) : Label → Option State
  | .putRequest request => some (putRequest requestLoggerMaxQueueLength request s)
  | .requestStop => some (requestStop s)
  | .dropAllRequests => if s.phase.outside then some (dropAllRequests s) else none
  | .getRequests mayBlock copyData maxRequests =>
    if s.phase.outside then some (getRequests mayBlock copyData maxRequests s) else none
  | .wakeUp => wakeUpStep s
  | .continue => if asleep s.phase then none else continueStep s

def machine (requestLoggerMaxQueueLength : Nat) : Machine State Label :=
  ⟨State.new, step requestLoggerMaxQueueLength⟩

/-! ## 2. The invariant -/

/-- There is something to take, or a stop to see. -/
def HasWork (s : State) : Prop := s.requests.impl ≠ [] ∨ s.stopRequested = true

/-- A sleeping thread has nothing to do. -/
def Awake (s : State) : Prop := asleep s.phase = true → ¬ HasWork s

section Steps

variable {maxLength : Nat} {s t : State} {call : GetCall}

theorem asleep_notifyOne (phase : Phase) : asleep (notifyOne phase) = false := by
  cases phase <;> rfl

theorem not_asleep_of_outside {phase : Phase} (h : phase.outside = true) : asleep phase = false := by
  cases phase with
  | waiting call notified => cases h
  | idle => rfl
  | sleeping call => rfl
  | copying call batch => rfl
  | returned call batch => rfl

/-- The condition of the wait. -/
theorem not_hasWork (h : s.requests.empty ∧ !s.stopRequested) : ¬ HasWork s := by
  rintro (hne | hstop)
  · exact hne (s.requests.empty_iff.mp h.1)
  · simp [hstop] at h

theorem awake_of_not_asleep (h : asleep s.phase = false) : Awake s :=
  fun hasleep => absurd (h.symm.trans hasleep) Bool.false_ne_true

/-- Without a notification the queue was not empty, and then the thread was not asleep. -/
theorem putRequest_awake (h : Awake s) (request : Bytes) :
    Awake (putRequest maxLength request s) := by
  unfold putRequest
  split
  · exact h
  · cases hempty : s.requests.empty with
    | true => exact awake_of_not_asleep (asleep_notifyOne s.phase)
    | false =>
      intro hasleep
      have hne : s.requests.impl ≠ [] := fun hnil => by
        rw [s.requests.empty_iff.mpr hnil] at hempty
        cases hempty
      exact absurd (.inl hne) (h hasleep)

theorem afterWait_awake (call : GetCall) (s : State) : Awake (afterWait call s) := by
  unfold afterWait
  split
  · exact awake_of_not_asleep rfl
  · exact awake_of_not_asleep rfl

theorem getRequests_awake (mayBlock : Bool) (copyData : Bytes) (maxRequests : Nat) (s : State) :
    Awake (getRequests mayBlock copyData maxRequests s) := by
  unfold getRequests
  split
  · split
    · exact awake_of_not_asleep rfl
    · split
      · next hnow => exact fun _ => not_hasWork hnow
      · exact afterWait_awake _ s
  · exact awake_of_not_asleep rfl

theorem continue_awake (hs : continueStep s = some t) : Awake t := by
  unfold continueStep at hs
  split at hs
  · next call notified hphase =>
    cases hs
    unfold wake
    split
    · next hnow => exact fun _ => not_hasWork hnow
    · exact afterWait_awake call s
  · cases hs
    exact awake_of_not_asleep rfl
  · cases hs
    unfold copyStep
    split
    · split
      · exact awake_of_not_asleep rfl
      · exact awake_of_not_asleep rfl
    · exact awake_of_not_asleep rfl
  · cases hs

/-- The step lemma. -/
theorem keeps_awake (maxLength : Nat) : (machine maxLength).Keeps Awake := by
  intro s l t h hs
  cases l with
  | putRequest request =>
    cases hs
    exact putRequest_awake h request
  | requestStop =>
    cases hs
    exact awake_of_not_asleep (asleep_notifyOne s.phase)
  | dropAllRequests =>
    simp only [machine, step] at hs
    split at hs
    · next hout =>
      cases hs
      exact awake_of_not_asleep (not_asleep_of_outside hout)
    · cases hs
  | getRequests mayBlock copyData maxRequests =>
    simp only [machine, step] at hs
    split at hs
    · cases hs
      exact getRequests_awake mayBlock copyData maxRequests s
    · cases hs
  | wakeUp =>
    simp only [machine, step, wakeUpStep] at hs
    split at hs
    · cases hs
      exact awake_of_not_asleep rfl
    · cases hs
  | «continue» =>
    simp only [machine, step] at hs
    split at hs
    · cases hs
    · exact continue_awake hs

theorem reachable_awake (h : (machine maxLength).Reachable s) : Awake s :=
  h.invariant (keeps_awake maxLength) (awake_of_not_asleep rfl)

/-- With work to do the thread has been taken out of the wait, and it leaves the wait with the
mutex. -/
theorem leaves_wait (h : (machine maxLength).Reachable s) {notified : Bool}
    (hphase : s.phase = .waiting call notified) (hwork : HasWork s) :
    notified = true ∧ ∃ t, (machine maxLength).step s .continue = some t ∧
      ∀ call' notified', t.phase ≠ .waiting call' notified' := by
  cases notified with
  | false => exact absurd hwork (reachable_awake h (by rw [hphase]; rfl))
  | true =>
    refine ⟨rfl, wake call s, ?_, fun call' notified' => ?_⟩
    · simp only [machine, step, continueStep, hphase, asleep, Bool.false_eq_true, if_false]
    · unfold wake
      rw [if_neg fun hnow => not_hasWork hnow hwork]
      unfold afterWait
      split
      · exact Phase.noConfusion
      · exact Phase.noConfusion

/-- The step in which the wait ends for no reason can be joined with the check that follows. -/
theorem mapsTo_wakeups (maxLength : Nat) :
    (RequestsContainer.machine maxLength).MapsTo (machine maxLength) id := by
  have hone : ∀ {s t : State} {l : Label}, step maxLength s l = some t →
      ∃ ls, (machine maxLength).run s ls = some t := by
    intro s t l hl
    exact ⟨[l], Option.bind_eq_some_iff.mpr ⟨t, hl, rfl⟩⟩
  intro s l t hs
  cases l with
  | putRequest request => exact @hone s t (.putRequest request) hs
  | requestStop => exact @hone s t .requestStop hs
  | dropAllRequests => exact @hone s t .dropAllRequests hs
  | getRequests mayBlock copyData maxRequests =>
    refine @hone s t (.getRequests mayBlock copyData maxRequests) ?_
    simp only [RequestsContainer.machine, RequestsContainer.step] at hs
    split at hs
    · next hcan => exact (if_pos hcan.1).trans hs
    · cases hs
  | «continue» =>
    cases hasleep : asleep s.phase with
    | false =>
      refine @hone s t .continue ?_
      simp only [step, hasleep, Bool.false_eq_true, if_false]
      exact hs
    | true =>
      unfold asleep at hasleep
      split at hasleep
      · next call hphase =>
        have hwake : wakeUpStep s = some { s with phase := .waiting call true } := by
          simp only [wakeUpStep, hphase]
        have hcontinue : t = wake call s := by
          simp only [RequestsContainer.machine, RequestsContainer.step, continueStep, hphase] at hs
          exact (Option.some.inj hs).symm
        refine ⟨[.wakeUp, .continue], Option.bind_eq_some_iff.mpr ⟨_, hwake, ?_⟩⟩
        rw [hcontinue]
        rfl
      · cases hasleep

end Steps

/-! ## 3. Sleeping threads -/

/-- While the logger thread sleeps in the wait, the queue is empty and no stop is requested. -/
theorem asleep_without_work (maxLength : Nat) {s : State} (h : (machine maxLength).Reachable s)
    {call : GetCall} (hphase : s.phase = .waiting call false) :
    s.requests.impl = [] ∧ s.stopRequested = false := by
  have hnone := reachable_awake h (by rw [hphase]; rfl)
  exact ⟨not_not.mp (not_or.mp hnone).1, Bool.eq_false_iff.mpr (not_or.mp hnone).2⟩

/-- The thread is woken for no reason, a request comes before it has the mutex, and after the batch
it waits again. -/
def wokenTwice : List Label :=
  [.getRequests true [] 2, .wakeUp, .putRequest (bytes "a\n"), .continue, .putRequest (bytes "b\n"),
    .continue, .continue, .continue, .continue, .getRequests true [] 2, .wakeUp, .continue]

theorem asleep_without_work_again :
    ∃ s call, (machine 5).run State.new wokenTwice = some s ∧
      s.phase = .waiting call false ∧ s.delivered = [bytes "a\n", bytes "b\n"] ∧
      s.requests.impl = [] ∧ s.stopRequested = false :=
  ⟨_, _, rfl, rfl, rfl, asleep_without_work 5 ⟨wokenTwice, rfl⟩ rfl⟩

/-- The same holds in the loop that sends the requests to the database. -/
theorem asleep_without_work_loop {n maxLength : Nat} {s : LoggingLoop.State n}
    (h : (LoggingLoop.machine n maxLength).Reachable s) :
    asleep s.container.phase = true → ¬ HasWork s.container :=
  reachable_awake ((LoggingLoop.container_reachable h).map (mapsTo_wakeups maxLength) rfl)

end LoggerWakeups

end SafeKiddo
