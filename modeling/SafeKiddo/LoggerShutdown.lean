import SafeKiddo.LoggerThread
import SafeKiddo.LoggerWakeups

/-!
# The end of the logger thread

The logger thread ends after a stop: when its queue is empty and the last commits were awaited, or,
while the database fails, after it has dropped what is left. What holds of it in the end does not
depend on which calls of the database have failed before.

Results:
1. `Stops`: what is left in the queue, by the place of the thread; `keeps_stops` is its step lemma.
2. `finished_drained`: a thread that has finished leaves nothing in the buffers.
3. `finished_accepted`: each accepted record was committed, dropped or lost.
4. `not_asleep_of_stop`: a stop has taken the thread out of the wait.
5. `ends_after_stop`: after a stop the thread takes a bounded number of steps, is not asleep, and is
   never stuck before its end.
-/

namespace SafeKiddo

open ByteString

namespace LoggerThread

open LoggingLoop (Transaction sent)
open RequestsContainer (Drained)
open LoggerWakeups (asleep leaves_wait mapsTo_wakeups)

variable {n maxLength : Nat}

/-- The labels of the thread itself. -/
def Label.isOwn : Label n → Bool
  | putRequest _ => false
  | requestStop => false
  | _ => true

/-! ## 1. The loop -/

/-- The loop returns for a stop only when nothing is left, and the first call of a transaction is
always made. The loop need not have been without failures. -/
def StopOk (loop : LoggingLoop.State n) : LoggingLoop.Pc → Prop
  | .round => loop.shouldStop = true → Drained loop.container
  | .copyStart => loop.shouldStop = false
  | .batchHead => (loop.shouldStop = true → Drained loop.container ∧ loop.lastBatchSize = 0) ∧
    (loop.firstRequest = true →
      loop.batchNum = 0 ∧ loop.lastBatchSize = LoggingLoop.maxRequestsInBatch)
  | .getting => loop.shouldStop = false ∧
    ∃ call, loop.container.phase.call? = some call ∧ call.mayBlock = loop.firstRequest
  | .sending _ => loop.shouldStop = false ∧ loop.firstRequest = false
  | .copyEnd => loop.shouldStop = true → Drained loop.container
  | .finalWait _ => Drained loop.container
  | .returned .stopRequested => Drained loop.container
  | .returned .dbFailure => True

section Loop

variable {loop loop' : LoggingLoop.State n}

theorem StopOk.withContainer {c : RequestsContainer.State} (h : StopOk loop loop.pc)
    (hcall : c.phase.call? = loop.container.phase.call?)
    (hdrained : Drained loop.container → Drained c) :
    StopOk { loop with container := c } loop.pc := by
  cases hpc : loop.pc with
  | returned code =>
    rw [hpc] at h
    cases code with
    | stopRequested => exact hdrained h
    | dbFailure => trivial
  | getting =>
    rw [hpc] at h
    obtain ⟨hstop, call, hold, hmay⟩ := h
    exact ⟨hstop, call, hcall.trans hold, hmay⟩
  | batchHead =>
    rw [hpc] at h
    exact ⟨fun hstop => ⟨hdrained (h.1 hstop).1, (h.1 hstop).2⟩, h.2⟩
  | round => rw [hpc] at h; exact fun hstop => hdrained (h hstop)
  | copyEnd => rw [hpc] at h; exact fun hstop => hdrained (h hstop)
  | finalWait i => rw [hpc] at h; exact hdrained h
  | copyStart => rw [hpc] at h; exact h
  | sending batch => rw [hpc] at h; exact h

theorem roundStep_stopOk (dbOk : Bool) (h : StopOk loop .round) :
    StopOk (LoggingLoop.roundStep dbOk loop) (LoggingLoop.roundStep dbOk loop).pc := by
  unfold LoggingLoop.roundStep
  by_cases hstop : loop.shouldStop = true
  · rw [if_pos hstop]
    exact h hstop
  · rw [if_neg hstop]
    have hgo : loop.shouldStop = false := Bool.eq_false_iff.mpr hstop
    split_ifs
    · exact hgo
    · trivial
    · exact hgo

theorem batchHeadStep_stopOk (h : StopOk loop .batchHead)
    (hstep : LoggingLoop.batchHeadStep maxLength loop = some loop') :
    StopOk loop' loop'.pc := by
  unfold LoggingLoop.batchHeadStep at hstep
  split at hstep
  · next hgo =>
    obtain ⟨c, hc, rfl⟩ := Option.map_eq_some_iff.mp hstep
    refine ⟨?_, ?_⟩
    · -- A stop would have left the size at zero.
      refine Bool.eq_false_iff.mpr fun hstop => ?_
      have hzero := (h.1 hstop).2
      rw [hgo.2] at hzero
      cases hzero
    · simp only [RequestsContainer.step] at hc
      split at hc <;> cases hc
      exact ⟨_, RequestsContainer.getRequests_call _ _ _ _, rfl⟩
  · cases hstep
    exact fun hstop => (h.1 hstop).1

theorem gotStep_stopOk {call : RequestsContainer.GetCall} {batch : RequestsContainer.Batch}
    (h : StopOk loop .getting) (hcontainer : RequestsContainer.Inv maxLength loop.container)
    (hphase : loop.container.phase = .returned call batch) :
    StopOk (LoggingLoop.gotStep batch loop) (LoggingLoop.gotStep batch loop).pc := by
  obtain ⟨-, call', hcall, hmay⟩ := h
  rw [hphase] at hcall
  cases hcall
  have hok := hcontainer.phase
  rw [hphase] at hok
  unfold LoggingLoop.gotStep
  simp only
  split
  · next hpos =>
    have hne : ¬ (batch.numRequests = 0 ∧ loop.firstRequest = true) := fun hzero => by omega
    exact ⟨decide_eq_false hne, rfl⟩
  · refine ⟨fun hstop => ?_, nofun⟩
    obtain ⟨hzero, hfirst⟩ := of_decide_eq_true hstop
    exact ⟨hok.2 (hmay.trans hfirst) hzero, hzero⟩

theorem finalWaitStep_stopOk (dbOk : Bool) {i : Nat} (h : Drained loop.container) :
    StopOk (LoggingLoop.finalWaitStep dbOk i loop) (LoggingLoop.finalWaitStep dbOk i loop).pc := by
  unfold LoggingLoop.finalWaitStep
  split_ifs <;> exact h

theorem loopStep_stopOk {dbOk : Bool} (h : StopOk loop loop.pc)
    (hcontainer : RequestsContainer.Inv maxLength loop.container)
    (hstep : LoggingLoop.loopStep maxLength dbOk loop = some loop') : StopOk loop' loop'.pc := by
  unfold LoggingLoop.loopStep at hstep
  split at hstep
  · next hpc =>
    cases hstep
    exact roundStep_stopOk dbOk (hpc ▸ h)
  · next hpc =>
    cases hstep
    rw [hpc] at h
    have hgo : loop.shouldStop = false := h
    unfold LoggingLoop.copyStartStep
    split
    · exact ⟨fun hstop => absurd (hgo.symm.trans hstop) nofun, fun _ => ⟨rfl, rfl⟩⟩
    · trivial
  · next hpc => exact batchHeadStep_stopOk (hpc ▸ h) hstep
  · next hpc =>
    split at hstep
    · next call batch hphase =>
      cases hstep
      exact gotStep_stopOk (hpc ▸ h) hcontainer hphase
    · cases hstep
  · next batch hpc =>
    cases hstep
    rw [hpc] at h
    obtain ⟨hgo, hfirst⟩ := h
    unfold LoggingLoop.sendingStep
    split
    · exact ⟨fun hstop => absurd (hgo.symm.trans hstop) nofun,
        fun hfirst' => absurd (hfirst.symm.trans hfirst') nofun⟩
    · trivial
  · next hpc =>
    cases hstep
    rw [hpc] at h
    unfold LoggingLoop.copyEndStep
    split
    · exact h
    · trivial
  · next i hpc =>
    cases hstep
    rw [hpc] at h
    exact finalWaitStep_stopOk dbOk h
  · cases hstep

end Loop

/-! ## 2. The thread -/

structure Stops (s : State n) : Prop where
  loop : s.pc = .logging → StopOk s.loop s.loop.pc
  dropping : s.pc = .dropping → s.loop.container.stopRequested = true
  ending : s.pc = .ending true → Drained s.loop.container
  finished : s.pc = .finished → Drained s.loop.container ∧ s.loop.transactions = []

section Thread

variable {s s' : State n}

theorem stops_new : Stops (State.new : State n) := ⟨nofun, nofun, nofun, nofun⟩

/-- The other threads call `putRequest` and `requestStop`. -/
theorem Stops.withContainer {c : RequestsContainer.State} {l : RequestsContainer.Label}
    (h : Stops s) (hc : RequestsContainer.step maxLength s.loop.container l = some c)
    (hcall : c.phase.call? = s.loop.container.phase.call?) :
    Stops { s with loop := { s.loop with container := c } } := by
  have hdrained : Drained s.loop.container → Drained c := fun hd =>
    @RequestsContainer.drained_step maxLength _ _ l hc hd
  refine ⟨fun hpc => (h.loop hpc).withContainer hcall hdrained, fun hpc => ?_,
    fun hpc => hdrained (h.ending hpc),
    fun hpc => ⟨hdrained (h.finished hpc).1, (h.finished hpc).2⟩⟩
  exact (@RequestsContainer.step_stopped maxLength _ _ l hc (h.dropping hpc)).1

theorem continue_stops (h : Stops s) (hinv : Inv maxLength s) (hpc : s.pc = .logging) {dbOk : Bool}
    {loop : LoggingLoop.State n}
    (hstep : LoggingLoop.step maxLength s.loop (.continue dbOk) = some loop) :
    StopOk loop loop.pc := by
  have hloop := h.loop hpc
  simp only [LoggingLoop.step] at hstep
  split at hstep
  · exact loopStep_stopOk hloop hinv.container hstep
  · next hin =>
    obtain ⟨c, hc, rfl⟩ := Option.map_eq_some_iff.mp hstep
    exact hloop.withContainer (RequestsContainer.continue_call hc)
      (@RequestsContainer.drained_step maxLength _ _ .continue hc)

theorem loopStep_stops (h : Stops s) (hinv : Inv maxLength s) (hpc : s.pc = .logging) {dbOk : Bool}
    (hstep : loopStep maxLength dbOk s = some s') : Stops s' := by
  have hloop := h.loop hpc
  unfold loopStep at hstep
  split at hstep
  · next hret =>
    cases hstep
    rw [hret] at hloop
    exact ⟨nofun, nofun, fun _ => hloop, nofun⟩
  · cases hstep
    exact ⟨nofun, nofun, nofun, nofun⟩
  · obtain ⟨loop, hloop', rfl⟩ := Option.map_eq_some_iff.mp hstep
    have hpc' : ∀ {pc : Pc}, pc ≠ .logging → s.pc ≠ pc := fun hne heq => hne (heq ▸ hpc)
    exact ⟨fun _ => continue_stops h hinv hpc hloop', fun hp => absurd hp (hpc' nofun),
      fun hp => absurd hp (hpc' nofun), fun hp => absurd hp (hpc' nofun)⟩

/-- The step lemma. -/
theorem stops_of_step {l : Label n} (h : Stops s) (hinv : Inv maxLength s)
    (hs : step maxLength s l = some s') : Stops s' := by
  simp only [step] at hs
  split at hs
  · next request =>
    have hc : RequestsContainer.step maxLength s.loop.container (.putRequest request) =
        some (RequestsContainer.putRequest maxLength request s.loop.container) := rfl
    cases hs
    exact h.withContainer hc (RequestsContainer.putRequest_sameCall _ _ _).call
  · have hc : RequestsContainer.step maxLength s.loop.container .requestStop =
        some (RequestsContainer.requestStop s.loop.container) := rfl
    cases hs
    exact h.withContainer hc (RequestsContainer.requestStop_sameCall _).call
  · next ok hpc =>
    cases hs
    cases ok with
    | true =>
      refine ⟨fun _ hstop => ?_, fun hp => ?_, fun hp => ?_, fun hp => ?_⟩
      · cases hstop
      all_goals cases hp
    | false => constructor <;> intro hp <;> cases hp
  · next dbOk hpc => exact loopStep_stops h hinv hpc hs
  · next hpc =>
    cases hs
    refine ⟨fun hp => ?_, fun hp => ?_, fun hp => ?_, fun hp => ?_⟩
    · simp only at hp
      split at hp <;> cases hp
    · simp only at hp
      split at hp
      · assumption
      · cases hp
    · simp only at hp
      split at hp <;> cases hp
    · simp only at hp
      split at hp <;> cases hp
  · next hpc =>
    obtain ⟨c, hc, rfl⟩ := Option.map_eq_some_iff.mp hs
    have hstop := h.dropping hpc
    simp only [RequestsContainer.step] at hc
    split at hc <;> cases hc
    refine ⟨fun hp => ?_, fun hp => ?_, fun _ => ⟨hstop, rfl, rfl⟩, fun hp => ?_⟩
    all_goals cases hp
  · next serverCommits shouldStop hpc =>
    cases hs
    cases shouldStop with
    | true =>
      refine ⟨fun hp => ?_, fun hp => ?_, fun hp => ?_, fun _ => ⟨h.ending hpc, rfl⟩⟩
      all_goals cases hp
    | false => constructor <;> intro hp <;> cases hp
  · cases hs

theorem keeps_stops (n maxLength : Nat) :
    (machine n maxLength).Keeps fun s => Inv maxLength s ∧ Stops s := by
  rintro s l s' ⟨hinv, hstops⟩ hs
  exact ⟨keeps_inv n maxLength s l s' hinv hs, stops_of_step hstops hinv hs⟩

theorem reachable_stops (h : (machine n maxLength).Reachable s) : Inv maxLength s ∧ Stops s :=
  h.invariant (keeps_stops n maxLength) ⟨inv_new n maxLength, stops_new⟩

/-! ## 3. The end -/

theorem accepted_eq (hinv : Inv maxLength s) :
    (s.loop.container.accepted : Multiset Bytes) = committedRecords s + pendingRecords s + s.lost +
      removedRecords s.loop.container +
        ((s.loop.container.getRequestsBuffer : Multiset Bytes) +
          s.loop.container.requests.impl) := by
  have hdelivered := hinv.delivered_eq
  rw [RequestsContainer.State.delivered] at hdelivered
  rw [hinv.container.order, ← Multiset.coe_add, taken_eq, ← Multiset.coe_add, hdelivered,
    removedRecords]

/-- What the destructor of the queue asserts. -/
theorem finished_drained (h : (machine n maxLength).Reachable s) (hpc : s.pc = .finished) :
    Drained s.loop.container :=
  ((reachable_stops h).2.finished hpc).1

theorem finished_accepted (h : (machine n maxLength).Reachable s) (hpc : s.pc = .finished) :
    (s.loop.container.accepted : Multiset Bytes) =
      s.committed + s.lost + removedRecords s.loop.container := by
  obtain ⟨hinv, hstops⟩ := reachable_stops h
  obtain ⟨hdrained, hnone⟩ := hstops.finished hpc
  have hquiet := quiet_of_idle (hinv.idle (by rw [hpc]; nofun))
  have hhand : atHand s.loop = [] := by
    unfold atHand
    cases hp : s.loop.pc with
    | getting => rw [hp] at hquiet; cases hquiet
    | sending batch => rw [hp] at hquiet; cases hquiet
    | _ => rfl
  have hcommitted : committedRecords s = s.committed := by
    rw [committedRecords, hnone]
    exact add_zero _
  have hpending : pendingRecords s = 0 := by
    rw [pendingRecords, hnone, hhand]
    rfl
  rw [accepted_eq hinv, hcommitted, hpending, hdrained.buffer_nil, hdrained.requests_nil]
  exact (add_zero _).trans (congrArg (· + s.lost + _) (add_zero _))

end Thread

/-! ## 4. The stop is carried out -/

/-- The records that are left in the buffers. -/
def left (c : RequestsContainer.State) : Nat := c.getRequestsBuffer.length + c.requests.impl.length

section Rank

/-! Ranks of the places of the loop. Each record that is taken pays for all of them. -/

/-- Above the places after the last transaction. -/
def startRank (n : Nat) : Nat := n + 6

/-- In a call of `getRequests`, with the rank of a call that returns nothing. -/
def phaseRank (n base : Nat) : RequestsContainer.Phase → Nat
  | .idle => 0
  | .waiting _ _ => base + 3
  | .sleeping _ => base + 2
  | .copying _ batch => if batch.numRequests = 0 then base + 1 else startRank n + 16
  | .returned _ batch => if batch.numRequests = 0 then base else startRank n + 15

def pcRank (loop : LoggingLoop.State n) : LoggingLoop.Pc → Nat
  | .returned _ => 0
  | .finalWait i => n + 1 - i + 1
  | .round => if loop.shouldStop then n + 3 else startRank n + 6
  | .copyEnd => if loop.shouldStop then n + 4 else startRank n + 7
  | .copyStart => startRank n + 5
  | .batchHead =>
    if loop.shouldStop then n + 5
    else if loop.firstRequest then startRank n + 4
    else if loop.batchNum < LoggingLoop.maxBatchesInTransaction ∧
      loop.lastBatchSize = LoggingLoop.maxRequestsInBatch then startRank n + 13
    else startRank n + 8
  | .getting =>
    phaseRank n (if loop.firstRequest then startRank n else startRank n + 9) loop.container.phase
  | .sending _ => startRank n + 14

def recordRank (n : Nat) : Nat := startRank n + 17

def loopRank (loop : LoggingLoop.State n) : Nat :=
  left loop.container * recordRank n + pcRank loop loop.pc

/-- How many steps the thread can take after a stop, at most. -/
def rank (s : State n) : Nat :=
  match s.pc with
  | .finished => 0
  | .ending true => 1
  | .dropping => 2
  | .checking => 3
  | .logging => 4 + loopRank s.loop
  | .connecting => 5 + (left s.loop.container * recordRank n + (startRank n + 6))
  | .ending false => 6 + (left s.loop.container * recordRank n + (startRank n + 6))

variable {loop loop' : LoggingLoop.State n}

/-- The wait is over, and there is no sleep after a stop. -/
theorem afterWait_stopped {call : RequestsContainer.GetCall} {c : RequestsContainer.State}
    (hstop : c.stopRequested = true) :
    RequestsContainer.afterWait call c = RequestsContainer.moveToBuffer call c := by
  unfold RequestsContainer.afterWait
  rw [if_neg]
  rintro ⟨hgo, -⟩
  rw [hstop] at hgo
  cases hgo

theorem left_moveToBuffer (call : RequestsContainer.GetCall) (c : RequestsContainer.State) :
    left (RequestsContainer.moveToBuffer call c) = left c := by
  simp [left, RequestsContainer.moveToBuffer, Queue.moveAllTo]

/-- A call starts: it takes no record yet, and does not wait. -/
theorem getRequests_rank {c : RequestsContainer.State} (hstop : c.stopRequested = true)
    (mayBlock : Bool) (copyData : Bytes) (maxRequests base : Nat) :
    left (RequestsContainer.getRequests mayBlock copyData maxRequests c) = left c ∧
    phaseRank n base (RequestsContainer.getRequests mayBlock copyData maxRequests c).phase ≤
      base + 1 := by
  unfold RequestsContainer.getRequests
  split_ifs with _ _ hwait
  · exact ⟨rfl, Nat.le_succ _⟩
  · rw [hstop] at hwait
    exact absurd hwait.2 nofun
  · rw [afterWait_stopped hstop]
    exact ⟨left_moveToBuffer _ c, Nat.le_refl _⟩
  · exact ⟨rfl, Nat.le_refl _⟩

theorem digits_lt {x y u v k : Nat} (hxy : x < y) (hu : u < k) : x * k + u < y * k + v :=
  calc
    x * k + u < (x + 1) * k := by rw [Nat.succ_mul]; omega
    _ ≤ y * k := Nat.mul_le_mul_right k hxy
    _ ≤ y * k + v := Nat.le_add_right _ _

/-- A call goes on: it takes a record, or it comes closer to its end. -/
theorem continue_rank {c c' : RequestsContainer.State} (hstop : c.stopRequested = true)
    (h : RequestsContainer.continueStep c = some c') (base : Nat) :
    left c' * recordRank n + phaseRank n base c'.phase <
      left c * recordRank n + phaseRank n base c.phase := by
  have hmove : ∀ call, left (RequestsContainer.moveToBuffer call c) * recordRank n +
      phaseRank n base (RequestsContainer.moveToBuffer call c).phase <
      left c * recordRank n + (base + 2) := by
    intro call
    rw [left_moveToBuffer]
    exact Nat.add_lt_add_left (Nat.lt_succ_self _) _
  unfold RequestsContainer.continueStep at h
  split at h
  · next call notified hphase =>
    cases h
    unfold RequestsContainer.wake
    rw [if_neg (fun hwait => by rw [hstop] at hwait; exact absurd hwait.2 nofun),
      afterWait_stopped hstop, hphase]
    exact (hmove call).trans (Nat.add_lt_add_left (Nat.lt_succ_self _) _)
  · next call hphase =>
    cases h
    rw [hphase]
    exact hmove call
  · next call batch hphase =>
    cases h
    rw [hphase]
    have hreturn : phaseRank n base (.returned call batch) <
        phaseRank n base (.copying call batch) := by
      simp only [phaseRank]
      split <;> exact Nat.lt_succ_self _
    unfold RequestsContainer.copyStep
    split
    · next request rest hbuffer =>
      split
      · have htaken : phaseRank n base (.copying call (batch.append request)) =
            startRank n + 16 := by
          simp [phaseRank, RequestsContainer.Batch.append]
        refine digits_lt ?_ (htaken ▸ Nat.lt_succ_self _)
        simp only [left, hbuffer, List.length_cons]
        omega
      · exact Nat.add_lt_add_left hreturn _
    · exact Nat.add_lt_add_left hreturn _
  · cases h

/-- What keeps the queue, and comes closer to the end. -/
theorem loopRank_lt (hcontainer : loop'.container = loop.container)
    (h : pcRank loop' loop'.pc < pcRank loop loop.pc) : loopRank loop' < loopRank loop := by
  rw [loopRank, loopRank, hcontainer]
  exact Nat.add_lt_add_left h _

theorem roundStep_rank (dbOk : Bool) (hpc : loop.pc = .round) :
    loopRank (LoggingLoop.roundStep dbOk loop) < loopRank loop := by
  refine loopRank_lt (roundStep_same dbOk loop).container ?_
  rw [hpc]
  unfold LoggingLoop.roundStep
  by_cases hstop : loop.shouldStop = true
  · rw [if_pos hstop]
    simp only [pcRank, if_pos hstop]
    omega
  · rw [if_neg hstop]
    split_ifs <;> simp only [pcRank, LoggingLoop.State.fail, if_neg hstop] <;> omega

theorem batchHeadStep_rank (h : StopOk loop .batchHead) (hpc : loop.pc = .batchHead)
    (hstop : loop.container.stopRequested = true)
    (hstep : LoggingLoop.batchHeadStep maxLength loop = some loop') :
    loopRank loop' < loopRank loop := by
  obtain ⟨hstopped, hfirst⟩ := h
  unfold LoggingLoop.batchHeadStep at hstep
  split at hstep
  · next hgo =>
    obtain ⟨c, hc, rfl⟩ := Option.map_eq_some_iff.mp hstep
    have hno : ¬ loop.shouldStop = true := by
      intro hshould
      have hzero := (hstopped hshould).2
      rw [hgo.2] at hzero
      cases hzero
    simp only [RequestsContainer.step] at hc
    split at hc <;> cases hc
    obtain ⟨hleft, hphase⟩ := getRequests_rank (n := n) hstop loop.firstRequest []
      LoggingLoop.maxRequestsInBatch
      (if loop.firstRequest then startRank n else startRank n + 9)
    simp only [loopRank, hleft, hpc, pcRank, if_neg hno, if_pos hgo]
    split at hphase <;> simp_all <;> omega
  · next hgo =>
    cases hstep
    refine loopRank_lt rfl ?_
    simp only [hpc, pcRank]
    by_cases hshould : loop.shouldStop = true
    · simp only [if_pos hshould]
      omega
    · have hnotFirst : ¬ loop.firstRequest = true := by
        intro hf
        obtain ⟨hnum, hsize⟩ := hfirst hf
        exact hgo ⟨by rw [hnum]; decide, hsize⟩
      simp only [if_neg hshould, if_neg hnotFirst, if_neg hgo]
      omega

theorem gotStep_rank {call : RequestsContainer.GetCall} {batch : RequestsContainer.Batch}
    (hpc : loop.pc = .getting) (hphase : loop.container.phase = .returned call batch) :
    loopRank (LoggingLoop.gotStep batch loop) < loopRank loop := by
  refine loopRank_lt rfl ?_
  simp only [hpc, pcRank, hphase, phaseRank, LoggingLoop.gotStep]
  by_cases hzero : batch.numRequests = 0
  · by_cases hfirst : loop.firstRequest = true
    · simp [hzero, hfirst, startRank]
    · simp [hzero, hfirst, LoggingLoop.maxRequestsInBatch]
  · have hpos : 0 < batch.numRequests := Nat.pos_of_ne_zero hzero
    simp only [if_pos hpos, if_neg hzero]
    omega

theorem loopStep_rank {dbOk : Bool} (h : StopOk loop loop.pc)
    (hstop : loop.container.stopRequested = true)
    (hstep : LoggingLoop.loopStep maxLength dbOk loop = some loop') :
    loopRank loop' < loopRank loop := by
  unfold LoggingLoop.loopStep at hstep
  split at hstep
  · next hpc =>
    cases hstep
    exact roundStep_rank dbOk hpc
  · next hpc =>
    cases hstep
    rw [hpc] at h
    have hgo : loop.shouldStop = false := h
    refine loopRank_lt (copyStartStep_same dbOk loop).container ?_
    rw [hpc]
    unfold LoggingLoop.copyStartStep
    split <;> simp [pcRank, LoggingLoop.State.fail, hgo]
  · next hpc => exact batchHeadStep_rank (hpc ▸ h) hpc hstop hstep
  · next hpc =>
    split at hstep
    · next call batch hphase =>
      cases hstep
      exact gotStep_rank hpc hphase
    · cases hstep
  · next batch hpc =>
    cases hstep
    rw [hpc] at h
    obtain ⟨hgo, hfirst⟩ := h
    unfold LoggingLoop.sendingStep
    split <;> refine loopRank_lt rfl ?_ <;>
      simp only [hpc, pcRank, LoggingLoop.State.fail, hgo, hfirst] <;> grind
  · next hpc =>
    cases hstep
    refine loopRank_lt (copyEndStep_same dbOk loop).container ?_
    rw [hpc]
    unfold LoggingLoop.copyEndStep
    split <;> simp only [pcRank, LoggingLoop.State.fail] <;> grind
  · next i hpc =>
    cases hstep
    refine loopRank_lt (finalWaitStep_same dbOk i loop).container ?_
    rw [hpc]
    unfold LoggingLoop.finalWaitStep
    split_ifs <;> simp only [pcRank] <;> omega
  · cases hstep

variable {s s' : State n}

/-- What holds of the thread after a stop. -/
structure Stopped (maxLength : Nat) (s : State n) : Prop where
  inv : Inv maxLength s
  stops : Stops s
  stopRequested : s.loop.container.stopRequested = true

/-- A step is a step of the queue, or leaves the queue as it is. -/
theorem step_container {l : Label n} (hs : step maxLength s l = some s') :
    s'.loop.container = s.loop.container ∨
      ∃ l', RequestsContainer.step maxLength s.loop.container l' = some s'.loop.container := by
  unfold step at hs
  split at hs
  · obtain ⟨loop, hl, rfl⟩ := Option.map_eq_some_iff.mp hs
    exact LoggingLoop.step_container hl
  · obtain ⟨loop, hl, rfl⟩ := Option.map_eq_some_iff.mp hs
    exact LoggingLoop.step_container hl
  · next ok _ =>
    cases hs
    cases ok <;> exact .inl rfl
  · unfold loopStep at hs
    split at hs
    · cases hs
      exact .inl rfl
    · cases hs
      exact .inl rfl
    · obtain ⟨loop, hl, rfl⟩ := Option.map_eq_some_iff.mp hs
      exact LoggingLoop.step_container hl
  · cases hs
    exact .inl rfl
  · obtain ⟨c, hc, rfl⟩ := Option.map_eq_some_iff.mp hs
    exact .inr ⟨.dropAllRequests, hc⟩
  · cases hs
    exact .inl rfl
  · cases hs

theorem stopRequested_of_step {l : Label n} (hs : step maxLength s l = some s')
    (hstop : s.loop.container.stopRequested = true) :
    s'.loop.container.stopRequested = true := by
  rcases step_container hs with hsame | ⟨l', hl'⟩
  · rw [hsame, hstop]
  · exact (@RequestsContainer.step_stopped maxLength _ _ l' hl' hstop).1

theorem mapsTo_container (n maxLength : Nat) : (machine n maxLength).MapsTo
    (RequestsContainer.machine maxLength) fun s => s.loop.container := by
  intro s l s' hs
  rcases step_container hs with hsame | ⟨l', hl'⟩
  · exact ⟨[], congrArg some hsame.symm⟩
  · exact ⟨[l'], Option.bind_eq_some_iff.mpr ⟨_, hl', rfl⟩⟩

theorem container_reachable (h : (machine n maxLength).Reachable s) :
    (RequestsContainer.machine maxLength).Reachable s.loop.container :=
  h.map (mapsTo_container n maxLength) rfl

/-- A stop has taken the thread out of the wait. -/
theorem not_asleep_of_stop (h : (machine n maxLength).Reachable s)
    (hstop : s.loop.container.stopRequested = true) : asleep s.loop.container.phase = false := by
  have hwakeups := (container_reachable h).map (mapsTo_wakeups maxLength) rfl
  cases hphase : s.loop.container.phase with
  | waiting call notified =>
    obtain ⟨rfl, -⟩ := leaves_wait hwakeups hphase (.inr hstop)
    rfl
  | _ => rfl

theorem continue_loopRank (h : Stopped maxLength s) (hpc : s.pc = .logging) {dbOk : Bool}
    (hstep : LoggingLoop.step maxLength s.loop (.continue dbOk) = some loop') :
    loopRank loop' < loopRank s.loop := by
  simp only [LoggingLoop.step] at hstep
  split at hstep
  · exact loopStep_rank (h.stops.loop hpc) h.stopRequested hstep
  · next hin =>
    obtain ⟨c, hc, rfl⟩ := Option.map_eq_some_iff.mp hstep
    have hgetting := h.inv.getting_of_inside hin
    simp only [loopRank, hgetting, pcRank]
    exact continue_rank h.stopRequested hc _

/-- Each step of the thread lowers the rank after a stop. -/
theorem rank_lt {l : Label n} (h : Stopped maxLength s) (hl : l.isOwn = true)
    (hs : step maxLength s l = some s') : rank s' < rank s := by
  unfold step at hs
  split at hs
  · cases hl
  · cases hl
  · next ok hpc =>
    cases hs
    have hrank : rank s = 5 + (left s.loop.container * recordRank n + (startRank n + 6)) := by
      rw [rank, hpc]
    rw [hrank]
    cases ok with
    | true =>
      show 4 + (left s.loop.container * recordRank n + (startRank n + 6)) < _
      omega
    | false =>
      show 3 < _
      omega
  · next dbOk hpc =>
    have hrank : rank s = 4 + loopRank s.loop := by rw [rank, hpc]
    rw [hrank]
    unfold loopStep at hs
    split at hs
    · cases hs
      show 1 < _
      omega
    · cases hs
      show 3 < _
      omega
    · obtain ⟨loop, hloop, rfl⟩ := Option.map_eq_some_iff.mp hs
      have hlt := continue_loopRank h hpc hloop
      simp only [rank, hpc]
      omega
  · next hpc =>
    cases hs
    simp only [rank, hpc, if_pos h.stopRequested]
    decide
  · next hpc =>
    obtain ⟨c, hc, rfl⟩ := Option.map_eq_some_iff.mp hs
    simp only [rank, hpc]
    decide
  · next shouldStop hpc =>
    cases hs
    cases shouldStop with
    | true =>
      have hrank : rank s = 1 := by rw [rank, hpc]
      rw [hrank]
      exact Nat.zero_lt_one
    | false =>
      have hrank : rank s = 6 + (left s.loop.container * recordRank n + (startRank n + 6)) := by
        rw [rank, hpc]
      rw [hrank]
      show 5 + (left s.loop.container * recordRank n + (startRank n + 6)) < _
      omega
  · cases hs

theorem continue_isSome (h : Inv maxLength s) (dbOk : Bool)
    (hreturned : ∀ code, s.loop.pc ≠ .returned code) :
    (LoggingLoop.step maxLength s.loop (.continue dbOk)).isSome := by
  simp only [LoggingLoop.step]
  split
  · next hout =>
    unfold LoggingLoop.loopStep
    split
    · rfl
    · rfl
    · unfold LoggingLoop.batchHeadStep
      split
      · simp [RequestsContainer.step, hout, LoggingLoop.maxRequestsInBatch]
      · rfl
    · next hpc =>
      have hflow := h.flow
      rw [hpc] at hflow
      obtain ⟨call, hcall, -⟩ := hflow
      split
      · rfl
      · next hno =>
        cases hphase : s.loop.container.phase with
        | returned call' batch => exact absurd hphase (hno call' batch)
        | idle => rw [hphase] at hcall; cases hcall
        | _ => rw [hphase] at hout; cases hout
    · rfl
    · rfl
    · rfl
    · next code hpc => exact absurd hpc (hreturned code)
  · next hin =>
    rw [Option.isSome_map, RequestsContainer.step, RequestsContainer.continueStep]
    cases hphase : s.loop.container.phase with
    | idle => rw [hphase] at hin; exact absurd rfl hin
    | returned call batch => rw [hphase] at hin; exact absurd rfl hin
    | _ => rfl

/-- A thread that has not finished can go on. -/
theorem exists_step (h : Inv maxLength s) (hpc : s.pc ≠ .finished) :
    ∃ l : Label n, l.isOwn = true ∧ (step maxLength s l).isSome := by
  have hidle : s.pc ≠ .logging → s.loop.container.phase.outside = true := fun hno =>
    ((flowOk_quiet (quiet_of_idle (h.idle hno))).mp h.flow).1
  cases hp : s.pc with
  | connecting => exact ⟨.connect true, rfl, by simp [step, hp]⟩
  | logging =>
    refine ⟨.loop true, rfl, ?_⟩
    simp only [step, hp, loopStep]
    split
    · rfl
    · rfl
    · next hstop hfailure =>
      rw [Option.isSome_map]
      refine continue_isSome h true fun code hcode => ?_
      cases code with
      | stopRequested => exact hstop hcode
      | dbFailure => exact hfailure hcode
  | checking => exact ⟨.check, rfl, by simp [step, hp]⟩
  | dropping =>
    have hne : s.pc ≠ .logging := fun hlogging => by
      rw [hp] at hlogging
      cases hlogging
    have hout := hidle hne
    exact ⟨.drop, rfl, by simp [step, hp, RequestsContainer.step, hout]⟩
  | ending shouldStop => exact ⟨.discard fun _ => false, rfl, by simp [step, hp]⟩
  | finished => exact absurd hp hpc

/-- After a stop no record comes into the queue. -/
theorem rank_le_of_other {l : Label n} (h : Stopped maxLength s) (hl : l.isOwn = false)
    (hs : step maxLength s l = some s') : rank s' ≤ rank s := by
  have hsame : ∀ c : RequestsContainer.State, left c = left s.loop.container →
      (∀ base, phaseRank n base c.phase = phaseRank n base s.loop.container.phase) →
      rank { s with loop := { s.loop with container := c } } = rank s := by
    intro c hleft hphase
    have hpc : pcRank { s.loop with container := c } s.loop.pc = pcRank s.loop s.loop.pc := by
      unfold pcRank
      cases s.loop.pc with
      | getting => exact hphase _
      | _ => rfl
    simp only [rank, loopRank, hleft, hpc]
  cases l with
  | putRequest request =>
    simp only [step, LoggingLoop.step, RequestsContainer.step, Option.map_some] at hs
    cases hs
    have hput : left (RequestsContainer.putRequest maxLength request s.loop.container) =
        left s.loop.container ∧
        (RequestsContainer.putRequest maxLength request s.loop.container).phase =
          s.loop.container.phase := by
      unfold RequestsContainer.putRequest
      split
      · exact ⟨rfl, rfl⟩
      · next hno => exact absurd (.inr h.stopRequested) hno
    exact Nat.le_of_eq (hsame _ hput.1 fun base => congrArg (phaseRank n base) hput.2)
  | requestStop =>
    cases hs
    refine Nat.le_of_eq (hsame _ rfl fun base => ?_)
    unfold RequestsContainer.requestStop
    cases s.loop.container.phase <;> rfl
  | _ => cases hl

/-- After a stop the thread ends, whatever the database does and the other threads log: it takes no
more steps than its rank says, it is not asleep in the wait, and it can go on until it has
finished. -/
theorem ends_after_stop (n maxLength : Nat) (s : State n) (h : (machine n maxLength).Reachable s)
    (hstop : s.loop.container.stopRequested = true) (ls : List (Label n)) (t : State n)
    (hrun : (machine n maxLength).run s ls = some t) :
    ls.countP Label.isOwn ≤ rank s ∧ asleep t.loop.container.phase = false ∧
      (t.pc ≠ .finished → ∃ l : Label n, l.isOwn = true ∧ (step maxLength t l).isSome) := by
  obtain ⟨hinv, hstops⟩ := reachable_stops h
  have hstep : ∀ s l s', Stopped maxLength s → (machine n maxLength).step s l = some s' →
      Stopped maxLength s' ∧ rank s' ≤ rank s ∧ (Label.isOwn l = true → rank s' < rank s) := by
    intro s l s' hs hl
    obtain ⟨hinv', hstops'⟩ := keeps_stops n maxLength s l s' ⟨hs.inv, hs.stops⟩ hl
    refine ⟨⟨hinv', hstops', stopRequested_of_step hl hs.stopRequested⟩, ?_, fun hown => ?_⟩
    · cases hown : l.isOwn with
      | true => exact Nat.le_of_lt (rank_lt hs hown hl)
      | false => exact rank_le_of_other hs hown hl
    · exact rank_lt hs hown hl
  have hstopped : Stopped maxLength s := ⟨hinv, hstops, hstop⟩
  have hle := Machine.countP_le_of_rank hstep hstopped hrun
  have hkeeps : ∀ s l s', Stopped maxLength s → (machine n maxLength).step s l = some s' →
      Stopped maxLength s' := fun s l s' hs hl => (hstep s l s' hs hl).1
  have hreach := h.trans hrun
  exact ⟨Nat.le_trans (Nat.le_add_right _ _) hle,
    not_asleep_of_stop hreach (Machine.run_invariant hkeeps hstopped hrun).stopRequested,
    exists_step (reachable_stops hreach).1⟩

/-- The thread sleeps in the wait. -/
def sleepSteps : List (Label 1) := .connect true :: List.replicate 3 (.loop true)

/-- A record that is too late, and the steps to the end. -/
def lastSteps : List (Label 1) :=
  .putRequest (bytes "b\n") :: List.replicate 10 (.loop true) ++ [.discard fun _ => false]

theorem ends_after_stop_one :
    ((machine 1 5).run State.new sleepSteps).map (fun s => asleep s.loop.container.phase) =
      some true ∧
    ∃ s t, (machine 1 5).run State.new (sleepSteps ++ [.requestStop]) = some s ∧
      asleep s.loop.container.phase = false ∧
      (∃ l : Label 1, l.isOwn = true ∧ (step 5 s l).isSome) ∧
      (machine 1 5).run s lastSteps = some t ∧ t.pc = .finished ∧
      lastSteps.countP Label.isOwn = 11 ∧ lastSteps.countP Label.isOwn ≤ rank s := by
  obtain ⟨s, hs⟩ : ∃ s, (machine 1 5).run State.new (sleepSteps ++ [.requestStop]) = some s :=
    ⟨_, rfl⟩
  have hdata : (some s).map (fun s => (s.loop.container.stopRequested, s.pc)) =
      some (true, .logging) := hs ▸ rfl
  obtain ⟨hstop, hpc⟩ := Prod.mk.inj (Option.some.inj hdata)
  have hend : ((some s).bind fun s => (machine 1 5).run s lastSteps).map (·.pc) =
      some .finished := hs ▸ rfl
  obtain ⟨t, ht, hfinished⟩ := Option.map_eq_some_iff.mp hend
  obtain ⟨-, hawake, hgoes⟩ := ends_after_stop 1 5 s ⟨_, hs⟩ hstop [] s rfl
  refine ⟨rfl, s, t, hs, hawake, hgoes fun h => ?_, ht, hfinished, rfl,
    (ends_after_stop 1 5 s ⟨_, hs⟩ hstop lastSteps t ht).1⟩
  rw [hpc] at h
  cases h

end Rank

end LoggerThread

end SafeKiddo
