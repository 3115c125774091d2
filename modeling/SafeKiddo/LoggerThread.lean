import SafeKiddo.LoggingLoop

/-!
# The logger thread

`RequestLogger::loggerThreadFunction`, as a machine: the thread opens a pool of connections and runs
the logging loop with it, again and again until the stop. Any call of the database may fail, and
what was not committed on the connections of a pool is gone when the pool is discarded.

Results:
1. `Inv`: where the records are that were taken from the queue; `keeps_inv` is its step lemma.
2. `accounted_iff_lost`: all records are accounted for exactly as long as none was lost.
3. `accounted_iff`: this is so in a run exactly when each of its steps loses nothing.
-/

namespace SafeKiddo

open ByteString

namespace LoggerThread

open LoggingLoop (Transaction sent)
open RequestsContainer (Batch Fate)

/-! ## 1. The code -/

/-- Where the thread is. -/
inductive Pc
  /-- In `createConnectionPool`. -/
  | connecting
  /-- In `loggingLoop`. -/
  | logging
  /-- Before `isStopRequested`. -/
  | checking
  /-- Before `dropAllRequests`. -/
  | dropping
  /-- In the sleep, up to the end of the iteration, where the pool is discarded. -/
  | ending (shouldStop : Bool)
  | finished

/-- The queue and the loop, with the pool of this iteration. The records of earlier pools were
committed or lost. -/
structure State (n : Nat) where
  loop : LoggingLoop.State n
  pc : Pc
  committed : Multiset Bytes
  lost : Multiset Bytes

inductive Label (n : Nat)
  | putRequest (request : Bytes)
  | requestStop
  /-- All connections of the pool are established, or one is not. -/
  | connect (ok : Bool)
  /-- A step of the loop, or the return from it. -/
  | loop (dbOk : Bool)
  | check
  | drop
  /-- The pool is discarded. The server may have committed an ended COPY on a connection although
  its result was not awaited; a COPY in progress is rolled back. -/
  | discard (serverCommits : Fin (n + 1) → Bool)

section Code

variable {n : Nat}

def State.new : State n := ⟨LoggingLoop.State.new, .connecting, 0, 0⟩

/-- The transaction has been committed when the pool is discarded. -/
def saved (serverCommits : Fin (n + 1) → Bool) (t : Transaction n) : Bool :=
  match t.status with
  | .awaited => true
  | .ended => serverCommits t.connection
  | .copying => false

/-- The batch that `PQputCopyData` did not take. -/
def lostBatch (dbOk : Bool) (loop : LoggingLoop.State n) : List Bytes :=
  match loop.pc with
  | .sending batch => if dbOk then [] else batch.records
  | _ => []

def loopStep (maxLength : Nat) (dbOk : Bool) (s : State n) : Option (State n) :=
  match s.loop.pc with
  | .returned .stopRequested => some { s with pc := .ending true }
  | .returned .dbFailure => some { s with pc := .checking }
  | _ => (LoggingLoop.step maxLength s.loop (.continue dbOk)).map fun loop =>
    { s with loop, lost := s.lost + lostBatch dbOk s.loop }

/-- The loop is entered with the new pool. -/
def enter (s : State n) : State n :=
  let loop : LoggingLoop.State n := { LoggingLoop.State.new with container := s.loop.container }
  { s with loop, pc := .logging }

def discard (serverCommits : Fin (n + 1) → Bool) (shouldStop : Bool) (s : State n) : State n :=
  { loop := { s.loop with transactions := [] }
    pc := if shouldStop then .finished else .connecting
    committed := s.committed + sent (s.loop.transactions.filter (saved serverCommits))
    lost := s.lost + sent (s.loop.transactions.filter fun t => !saved serverCommits t) }

def step (maxLength : Nat) (s : State n) (l : Label n) : Option (State n) :=
  match l, s.pc with
  | .putRequest request, _ =>
    (LoggingLoop.step maxLength s.loop (.putRequest request)).map fun loop => { s with loop }
  | .requestStop, _ =>
    (LoggingLoop.step maxLength s.loop .requestStop).map fun loop => { s with loop }
  | .connect ok, .connecting =>
    some (if ok then enter s else { s with pc := .checking })
  | .loop dbOk, .logging => loopStep maxLength dbOk s
  | .check, .checking =>
    some { s with pc := if s.loop.container.stopRequested then .dropping else .ending false }
  | .drop, .dropping =>
    (RequestsContainer.step maxLength s.loop.container .dropAllRequests).map fun container =>
      { s with loop := { s.loop with container }, pc := .ending true }
  | .discard serverCommits, .ending shouldStop => some (discard serverCommits shouldStop s)
  | _, _ => none

def machine (n maxLength : Nat) : Machine (State n) (Label n) := ⟨State.new, step maxLength⟩

/-! ## 2. Where the records are -/

/-- What `getRequests` has appended to the buffer of the loop, and was not sent yet. -/
def atHand (loop : LoggingLoop.State n) : List Bytes :=
  match loop.pc, loop.container.phase with
  | .getting, .copying _ batch => batch.records
  | .getting, .returned _ batch => batch.records
  | .sending batch, _ => batch.records
  | _, _ => []

def awaited (t : Transaction n) : Bool := t.status = .awaited

/-- The records of commits that were awaited, and those that the server committed anyway. -/
def committedRecords (s : State n) : Multiset Bytes :=
  s.committed + sent (s.loop.transactions.filter awaited)

/-- The records on the open connections whose commit was not awaited, and the batch that is being
read for the COPY in progress. -/
def pendingRecords (s : State n) : Multiset Bytes :=
  sent (s.loop.transactions.filter fun t => !awaited t) + atHand s.loop

def removed? : Fate → Option Bytes
  | .delivered _ => none
  | .removed request => some request

/-- What `dropAllRequests` has dropped. -/
def removedRecords (container : RequestsContainer.State) : List Bytes :=
  container.taken.filterMap removed?

/-- Each record is somewhere, or it is counted as dropped. -/
structure Accounted (s : State n) : Prop where
  counted : s.loop.container.stats.numLogRequests =
    (committedRecords s).card + s.loop.container.stats.numDropped +
      s.loop.container.requests.size + s.loop.container.getRequestsBuffer.length +
      (pendingRecords s).card
  accepted : (s.loop.container.accepted : Multiset Bytes) =
    committedRecords s + removedRecords s.loop.container + s.loop.container.requests.impl +
      s.loop.container.getRequestsBuffer + pendingRecords s

/-- The step loses no record: no batch fails to be put, and when a pool is discarded, what was put
into its transactions has been committed. -/
def LosesNothing (s : State n) : Label n → Prop
  | .loop dbOk => dbOk = false → ∀ batch, s.loop.pc = .sending batch → batch.records = []
  | .discard serverCommits =>
    ∀ t ∈ s.loop.transactions, saved serverCommits t = false → t.records = []
  | _ => True

end Code

/-! ## 3. The invariant -/

section Invariant

variable {n maxLength : Nat} {s s' : State n}

/-- The records that were taken from the queue, up to the batch at hand. -/
def accounted (s : State n) : Multiset Bytes :=
  s.committed + s.lost + sent s.loop.transactions

/-- What was delivered, by the place of the loop. -/
def FlowOk (s : State n) : LoggingLoop.Pc → Prop
  | .getting => ∃ call, s.loop.container.phase.call? = some call ∧
    (call.delivered : Multiset Bytes) = accounted s
  | .sending batch => s.loop.container.phase.outside = true ∧
    (s.loop.container.delivered : Multiset Bytes) = accounted s + batch.records
  | _ => s.loop.container.phase.outside = true ∧
    (s.loop.container.delivered : Multiset Bytes) = accounted s

structure Inv (maxLength : Nat) (s : State n) : Prop where
  container : RequestsContainer.Inv maxLength s.loop.container
  flow : FlowOk s s.loop.pc
  db : LoggingLoop.DbOk s.loop s.loop.pc ∨ ∃ code, s.loop.pc = .returned code
  idle : s.pc ≠ .logging → s.loop.pc = .round ∨ ∃ code, s.loop.pc = .returned code
  fresh : s.pc = .connecting → s.loop.transactions = []

theorem inv_new (n maxLength : Nat) : Inv maxLength (State.new : State n) :=
  ⟨RequestsContainer.inv_new maxLength, ⟨rfl, rfl⟩, .inl nofun, fun _ => .inl rfl, fun _ => rfl⟩

/-! ### Counting -/

theorem sent_filter (p : Transaction n → Bool) (transactions : List (Transaction n)) :
    (sent transactions : Multiset Bytes) =
      sent (transactions.filter p) + sent (transactions.filter fun t => !p t) := by
  rw [Multiset.coe_add, Multiset.coe_eq_coe, sent, sent, sent, ← List.flatMap_append]
  exact ((List.filter_append_perm p transactions).flatMap_right _).symm

/-- What was taken has been delivered or removed. -/
theorem taken_eq (taken : List Fate) :
    (taken.map Fate.request : Multiset Bytes) =
      taken.filterMap Fate.delivered? + taken.filterMap removed? := by
  induction taken with
  | nil => rfl
  | cons fate taken ih =>
    rw [List.map_cons, ← Multiset.cons_coe, ih]
    cases fate with
    | delivered request => exact (Multiset.cons_add _ _ _).symm
    | removed request => exact (Multiset.add_cons _ _ _).symm

/-- The batch of the call in progress is at hand. -/
theorem delivered_of_getting {call : RequestsContainer.GetCall} (hpc : s.loop.pc = .getting)
    (hcontainer : RequestsContainer.Inv maxLength s.loop.container)
    (hcall : s.loop.container.phase.call? = some call) :
    s.loop.container.delivered = call.delivered ++ atHand s.loop := by
  have hphase := hcontainer.phase
  unfold atHand
  rw [hpc]
  cases hp : s.loop.container.phase with
  | idle => rw [hp] at hcall; cases hcall
  | waiting call' notified =>
    rw [hp] at hcall hphase
    cases hcall
    exact hphase.2.1.trans (List.append_nil _).symm
  | sleeping call' =>
    rw [hp] at hcall hphase
    cases hcall
    exact hphase.2.1.trans (List.append_nil _).symm
  | copying call' batch =>
    rw [hp] at hcall hphase
    cases hcall
    exact hphase.2.1.delivered_eq
  | returned call' batch =>
    rw [hp] at hcall hphase
    cases hcall
    exact hphase.1.delivered_eq

theorem Inv.delivered_accounted (h : Inv maxLength s) :
    (s.loop.container.delivered : Multiset Bytes) = accounted s + atHand s.loop := by
  have hflow := h.flow
  cases hpc : s.loop.pc with
  | getting =>
    rw [hpc] at hflow
    obtain ⟨call, hcall, hdelivered⟩ := hflow
    rw [delivered_of_getting hpc h.container hcall, ← Multiset.coe_add, hdelivered]
  | sending batch =>
    rw [hpc] at hflow
    rw [hflow.2, atHand, hpc]
  | _ =>
    rw [hpc] at hflow
    rw [hflow.2, atHand, hpc]
    exact (add_zero _).symm

/-- What was delivered is committed, on the way, or lost. -/
theorem Inv.delivered_eq (h : Inv maxLength s) :
    (s.loop.container.delivered : Multiset Bytes) =
      committedRecords s + pendingRecords s + s.lost := by
  rw [h.delivered_accounted, accounted, sent_filter awaited, committedRecords, pendingRecords]
  ac_rfl

/-- All records are accounted for exactly as long as none was lost. -/
theorem accounted_iff_lost (h : Inv maxLength s) : Accounted s ↔ s.lost = 0 := by
  have hcount := h.container.count
  have hcard := congrArg Multiset.card h.delivered_eq
  rw [Multiset.coe_card, Multiset.card_add, Multiset.card_add] at hcard
  constructor
  · intro hacc
    rw [← Multiset.card_eq_zero]
    have hcounted := hacc.counted
    omega
  · intro hlost
    rw [hlost, Multiset.card_zero] at hcard
    refine ⟨by omega, ?_⟩
    rw [h.container.order, ← Multiset.coe_add, taken_eq, ← Multiset.coe_add]
    have hdelivered := h.delivered_eq
    rw [RequestsContainer.State.delivered] at hdelivered
    rw [hdelivered, hlost, removedRecords]
    simp only [add_zero]
    ac_rfl

/-! ## 4. Steps of the loop -/

/-- Neither in `getRequests` nor with a batch at hand. -/
def quiet : LoggingLoop.Pc → Bool
  | .getting => false
  | .sending _ => false
  | _ => true

theorem flowOk_quiet {pc : LoggingLoop.Pc} (hq : quiet pc = true) :
    FlowOk s pc ↔ s.loop.container.phase.outside = true ∧
      (s.loop.container.delivered : Multiset Bytes) = accounted s := by
  cases pc with
  | getting => cases hq
  | sending batch => cases hq
  | _ => exact Iff.rfl

theorem lostBatch_quiet {loop : LoggingLoop.State n} (hq : quiet loop.pc = true) (dbOk : Bool) :
    lostBatch dbOk loop = [] := by
  unfold lostBatch
  cases hpc : loop.pc with
  | sending batch => rw [hpc] at hq; cases hq
  | _ => rfl

/-- The step keeps the queue and what was sent. -/
structure SameRecords (loop loop' : LoggingLoop.State n) : Prop where
  container : loop'.container = loop.container
  sent : sent loop'.transactions = sent loop.transactions
  quiet : quiet loop'.pc = true

theorem roundStep_same (dbOk : Bool) (loop : LoggingLoop.State n) :
    SameRecords loop (LoggingLoop.roundStep dbOk loop) := by
  unfold LoggingLoop.roundStep
  split_ifs
  · exact ⟨rfl, rfl, rfl⟩
  · exact ⟨rfl, LoggingLoop.sent_waitForCommit, rfl⟩
  · exact ⟨rfl, rfl, rfl⟩
  · exact ⟨rfl, rfl, rfl⟩

theorem copyStartStep_same (dbOk : Bool) (loop : LoggingLoop.State n) :
    SameRecords loop (LoggingLoop.copyStartStep dbOk loop) := by
  unfold LoggingLoop.copyStartStep
  split
  · exact ⟨rfl, LoggingLoop.sent_executeCopy _ _, rfl⟩
  · exact ⟨rfl, rfl, rfl⟩

theorem copyEndStep_same (dbOk : Bool) (loop : LoggingLoop.State n) :
    SameRecords loop (LoggingLoop.copyEndStep dbOk loop) := by
  unfold LoggingLoop.copyEndStep
  split
  · exact ⟨rfl, LoggingLoop.sent_putCopyEnd, rfl⟩
  · exact ⟨rfl, rfl, rfl⟩

theorem finalWaitStep_same (dbOk : Bool) (i : Nat) (loop : LoggingLoop.State n) :
    SameRecords loop (LoggingLoop.finalWaitStep dbOk i loop) := by
  unfold LoggingLoop.finalWaitStep
  split_ifs
  · exact ⟨rfl, LoggingLoop.sent_waitForCommit, rfl⟩
  · exact ⟨rfl, rfl, rfl⟩
  · exact ⟨rfl, rfl, rfl⟩
  · exact ⟨rfl, rfl, rfl⟩

/-- The state after a step of the loop. -/
def withLoop (s : State n) (dbOk : Bool) (loop : LoggingLoop.State n) : State n :=
  { s with loop, lost := s.lost + lostBatch dbOk s.loop }

theorem FlowOk.same (h : FlowOk s s.loop.pc) (hq : quiet s.loop.pc = true) (dbOk : Bool)
    {loop : LoggingLoop.State n} (hsame : SameRecords s.loop loop) :
    FlowOk (withLoop s dbOk loop) loop.pc := by
  obtain ⟨hcontainer, hsent, hquiet⟩ := hsame
  rw [flowOk_quiet hq] at h
  rw [flowOk_quiet hquiet]
  refine ⟨by simpa [withLoop, hcontainer] using h.1, ?_⟩
  rw [accounted, withLoop]
  simp only [hcontainer, hsent, lostBatch_quiet hq, h.2, accounted, Multiset.coe_nil, add_zero]

theorem batchHeadStep_flow (h : FlowOk s s.loop.pc) (hpc : s.loop.pc = .batchHead) (dbOk : Bool)
    {loop : LoggingLoop.State n} (hstep : LoggingLoop.batchHeadStep maxLength s.loop = some loop) :
    FlowOk (withLoop s dbOk loop) loop.pc := by
  have hq : quiet s.loop.pc = true := by rw [hpc]; rfl
  have hflow := (flowOk_quiet hq).mp h
  unfold LoggingLoop.batchHeadStep at hstep
  split at hstep
  · obtain ⟨c, hc, rfl⟩ := Option.map_eq_some_iff.mp hstep
    have hpos : 0 < LoggingLoop.maxRequestsInBatch := by decide
    simp only [RequestsContainer.step, if_pos (And.intro hflow.1 hpos)] at hc
    cases hc
    refine ⟨_, RequestsContainer.getRequests_call _ _ _ _, ?_⟩
    rw [accounted, withLoop]
    simp only [lostBatch_quiet hq, hflow.2, accounted, Multiset.coe_nil, add_zero]
  · cases hstep
    exact h.same hq dbOk ⟨rfl, rfl, rfl⟩

theorem gotStep_flow (h : FlowOk s s.loop.pc) (hpc : s.loop.pc = .getting) (dbOk : Bool)
    (hcontainer : RequestsContainer.Inv maxLength s.loop.container)
    {call : RequestsContainer.GetCall} {batch : Batch}
    (hphase : s.loop.container.phase = .returned call batch) :
    FlowOk (withLoop s dbOk (LoggingLoop.gotStep batch s.loop))
      (LoggingLoop.gotStep batch s.loop).pc := by
  rw [hpc] at h
  obtain ⟨call', hcall, hdelivered⟩ := h
  have heq : call' = call := by
    rw [hphase] at hcall
    exact (Option.some.inj hcall).symm
  subst heq
  have hans := hcontainer.phase
  rw [hphase] at hans
  have hout : s.loop.container.phase.outside = true := by rw [hphase]; rfl
  have hlost : lostBatch dbOk s.loop = [] := by rw [lostBatch, hpc]
  have htotal : (s.loop.container.delivered : Multiset Bytes) =
      accounted (withLoop s dbOk (LoggingLoop.gotStep batch s.loop)) + batch.records := by
    rw [hans.1.delivered_eq, ← Multiset.coe_add, hdelivered]
    simp [accounted, withLoop, hlost, LoggingLoop.gotStep]
  rcases Nat.eq_zero_or_pos batch.numRequests with hzero | hnum
  · have hnil : batch.records = [] := List.eq_nil_of_length_eq_zero (batch.size_eq ▸ hzero)
    have hpc' : (LoggingLoop.gotStep batch s.loop).pc = .batchHead :=
      if_neg (hzero ▸ Nat.lt_irrefl 0)
    rw [hpc']
    rw [hnil, Multiset.coe_nil, add_zero] at htotal
    exact ⟨hout, htotal⟩
  · have hpc' : (LoggingLoop.gotStep batch s.loop).pc = .sending batch := if_pos hnum
    rw [hpc']
    exact ⟨hout, htotal⟩

theorem sendingStep_flow {batch : Batch} (h : FlowOk s s.loop.pc) (hpc : s.loop.pc = .sending batch)
    (hopen : LoggingLoop.Open s.loop) (dbOk : Bool) :
    FlowOk (withLoop s dbOk (LoggingLoop.sendingStep dbOk batch s.loop))
      (LoggingLoop.sendingStep dbOk batch s.loop).pc := by
  rw [hpc] at h
  obtain ⟨hout, hdelivered⟩ := h
  cases dbOk with
  | true =>
    refine ⟨hout, hdelivered.trans ?_⟩
    simp only [accounted, withLoop, LoggingLoop.sendingStep, lostBatch, hpc, if_true,
      LoggingLoop.sent_putCopyData hopen, ← Multiset.coe_add, Multiset.coe_nil]
    ac_rfl
  | false =>
    refine ⟨hout, hdelivered.trans ?_⟩
    simp only [accounted, withLoop, LoggingLoop.sendingStep, LoggingLoop.State.fail, lostBatch, hpc,
      Bool.false_eq_true, if_false]
    ac_rfl

/-- The step lemma for the records. -/
theorem loopStep_flow (h : Inv maxLength s) (dbOk : Bool) {loop : LoggingLoop.State n}
    (hdb : LoggingLoop.DbOk s.loop s.loop.pc)
    (hstep : LoggingLoop.loopStep maxLength dbOk s.loop = some loop) :
    FlowOk (withLoop s dbOk loop) loop.pc := by
  have hflow := h.flow
  unfold LoggingLoop.loopStep at hstep
  split at hstep
  · next hpc => cases hstep; exact hflow.same (by rw [hpc]; rfl) dbOk (roundStep_same _ _)
  · next hpc => cases hstep; exact hflow.same (by rw [hpc]; rfl) dbOk (copyStartStep_same _ _)
  · next hpc => exact batchHeadStep_flow hflow hpc dbOk hstep
  · next hpc =>
    split at hstep
    · next call batch hphase =>
      cases hstep
      exact gotStep_flow hflow hpc dbOk h.container hphase
    · cases hstep
  · next batch hpc =>
    cases hstep
    rw [hpc] at hdb
    exact sendingStep_flow hflow hpc hdb.1 dbOk
  · next hpc => cases hstep; exact hflow.same (by rw [hpc]; rfl) dbOk (copyEndStep_same _ _)
  · next i hpc => cases hstep; exact hflow.same (by rw [hpc]; rfl) dbOk (finalWaitStep_same _ _ _)
  · cases hstep

/-! ## 5. Steps of the thread -/

/-- The other threads leave the thread where it is. -/
theorem Inv.withContainer (h : Inv maxLength s) {c : RequestsContainer.State}
    (hinv : RequestsContainer.Inv maxLength c)
    (hsame : RequestsContainer.SameCall s.loop.container c) :
    Inv maxLength { s with loop := { s.loop with container := c } } := by
  have hdelivered : c.delivered = s.loop.container.delivered := by
    rw [RequestsContainer.State.delivered, hsame.taken]
    rfl
  refine ⟨hinv, ?_, h.db.imp_left fun hdb => hdb.withContainer c, h.idle, h.fresh⟩
  have hflow := h.flow
  show FlowOk { s with loop := { s.loop with container := c } } s.loop.pc
  revert hflow
  cases s.loop.pc with
  | getting =>
    rintro ⟨call, hcall, htotal⟩
    exact ⟨call, hsame.call.trans hcall, htotal⟩
  | sending batch =>
    rintro ⟨hout, htotal⟩
    exact ⟨hsame.outside.trans hout, hdelivered ▸ htotal⟩
  | _ =>
    rintro ⟨hout, htotal⟩
    exact ⟨hsame.outside.trans hout, hdelivered ▸ htotal⟩

/-- Outside of `getRequests` the queue is not in a call. -/
theorem Inv.getting_of_inside (h : Inv maxLength s)
    (hin : ¬ s.loop.container.phase.outside = true) : s.loop.pc = .getting := by
  have hflow := h.flow
  revert hflow
  cases s.loop.pc with
  | getting => exact fun _ => rfl
  | sending batch => exact fun hf => absurd hf.1 hin
  | _ => exact fun hf => absurd hf.1 hin

/-- A step of the loop, or of `getRequests`. -/
theorem continue_inv (h : Inv maxLength s) (hpc : s.pc = .logging) (dbOk : Bool)
    (hrun : LoggingLoop.DbOk s.loop s.loop.pc) {loop : LoggingLoop.State n}
    (hstep : LoggingLoop.step maxLength s.loop (.continue dbOk) = some loop) :
    Inv maxLength (withLoop s dbOk loop) := by
  have hidle : (withLoop s dbOk loop).pc ≠ .logging →
      loop.pc = .round ∨ ∃ code, loop.pc = .returned code := fun hne => absurd hpc hne
  have hfresh : (withLoop s dbOk loop).pc = .connecting → loop.transactions = [] := by
    intro hconn
    cases hpc.symm.trans hconn
  simp only [LoggingLoop.step] at hstep
  split at hstep
  · refine ⟨?_, loopStep_flow h dbOk hrun hstep, LoggingLoop.loopStep_db_or_returned hrun hstep,
      hidle, hfresh⟩
    rcases LoggingLoop.loopStep_container hstep with hsame | ⟨l, hl⟩
    · rw [withLoop, hsame]
      exact h.container
    · exact RequestsContainer.keeps_inv maxLength _ l _ h.container hl
  · next hin =>
    obtain ⟨c, hc, rfl⟩ := Option.map_eq_some_iff.mp hstep
    have hgetting := h.getting_of_inside hin
    refine ⟨RequestsContainer.keeps_inv maxLength _ .continue _ h.container hc, ?_,
      .inl (hrun.withContainer c), hidle, hfresh⟩
    have hflow := h.flow
    rw [hgetting] at hflow
    obtain ⟨call, hcall, htotal⟩ := hflow
    show FlowOk (withLoop s dbOk { s.loop with container := c }) s.loop.pc
    rw [hgetting]
    refine ⟨call, (RequestsContainer.continue_call hc).trans hcall, htotal.trans ?_⟩
    simp [accounted, withLoop, lostBatch, hgetting]

theorem quiet_of_idle {pc : LoggingLoop.Pc} (h : pc = .round ∨ ∃ code, pc = .returned code) :
    quiet pc = true := by
  rcases h with rfl | ⟨code, rfl⟩ <;> rfl

/-- A new pool starts with no transactions. -/
theorem enter_inv (h : Inv maxLength s) (hpc : s.pc = .connecting) :
    Inv maxLength (enter s) := by
  have hq := quiet_of_idle (h.idle (by rw [hpc]; nofun))
  obtain ⟨hout, htotal⟩ := (flowOk_quiet hq).mp h.flow
  have hsame : accounted s = accounted (enter s) := by
    rw [accounted, accounted, h.fresh hpc]
    rfl
  exact ⟨h.container, ⟨hout, htotal.trans hsame⟩, .inl nofun, fun hne => absurd rfl hne, nofun⟩

/-- A change of the place only, away from the loop. -/
theorem Inv.withPc (h : Inv maxLength s) {pc : Pc} (hconn : pc ≠ .connecting)
    (hidle : s.loop.pc = .round ∨ ∃ code, s.loop.pc = .returned code) :
    Inv maxLength { s with pc } := by
  refine ⟨h.container, ?_, h.db, fun _ => hidle, fun hc => absurd hc hconn⟩
  have hq := quiet_of_idle hidle
  exact (flowOk_quiet hq).mpr ((flowOk_quiet hq).mp h.flow)

theorem loopStep_inv (h : Inv maxLength s) (hpc : s.pc = .logging) {dbOk : Bool}
    (hstep : loopStep maxLength dbOk s = some s') : Inv maxLength s' := by
  unfold loopStep at hstep
  split at hstep
  · next hret => cases hstep; exact h.withPc nofun (.inr ⟨_, hret⟩)
  · next hret => cases hstep; exact h.withPc nofun (.inr ⟨_, hret⟩)
  · next hstop hfail =>
    obtain ⟨loop, hloop, rfl⟩ := Option.map_eq_some_iff.mp hstep
    refine continue_inv h hpc dbOk (h.db.resolve_right ?_) hloop
    rintro ⟨code, hcode⟩
    cases code with
    | stopRequested => exact hstop hcode
    | dbFailure => exact hfail hcode

theorem delivered_dropAllRequests (container : RequestsContainer.State) :
    (RequestsContainer.dropAllRequests container).delivered = container.delivered := by
  simp [RequestsContainer.dropAllRequests, RequestsContainer.State.delivered,
    RequestsContainer.Fate.delivered?, List.filterMap_eq_nil_iff]

theorem drop_inv (h : Inv maxLength s) (hpc : s.pc = .dropping) {c : RequestsContainer.State}
    (hc : RequestsContainer.step maxLength s.loop.container .dropAllRequests = some c) :
    Inv maxLength { s with loop := { s.loop with container := c }, pc := .ending true } := by
  have hidle := h.idle (by rw [hpc]; nofun)
  have hq := quiet_of_idle hidle
  obtain ⟨hout, htotal⟩ := (flowOk_quiet hq).mp h.flow
  have hinv := RequestsContainer.keeps_inv maxLength _ .dropAllRequests _ h.container hc
  simp only [RequestsContainer.step, if_pos hout] at hc
  cases hc
  refine ⟨hinv, (flowOk_quiet hq).mpr ⟨hout, ?_⟩, h.db.imp_left fun hdb => hdb.withContainer _,
    fun _ => hidle, fun hc => absurd hc (by simp)⟩
  exact (congrArg _ (delivered_dropAllRequests _)).trans htotal

theorem discard_inv (h : Inv maxLength s) {shouldStop : Bool} (hpc : s.pc = .ending shouldStop)
    (serverCommits : Fin (n + 1) → Bool) : Inv maxLength (discard serverCommits shouldStop s) := by
  have hidle := h.idle (by rw [hpc]; nofun)
  have hq := quiet_of_idle hidle
  obtain ⟨hout, htotal⟩ := (flowOk_quiet hq).mp h.flow
  refine ⟨h.container, (flowOk_quiet hq).mpr ⟨hout, htotal.trans ?_⟩, ?_, fun _ => hidle,
    fun _ => rfl⟩
  · have hnone : (sent ([] : List (Transaction n)) : Multiset Bytes) = 0 := rfl
    simp only [accounted, discard, hnone, sent_filter (saved serverCommits) s.loop.transactions]
    ac_rfl
  · rcases hidle with hround | hreturned
    · refine .inl ?_
      show LoggingLoop.DbOk { s.loop with transactions := [] } s.loop.pc
      rw [hround]
      exact nofun
    · exact .inr hreturned

/-- The step lemma. -/
theorem keeps_inv (n maxLength : Nat) : (machine n maxLength).Keeps (Inv maxLength) := by
  intro s l s' h hs
  simp only [machine, step] at hs
  split at hs
  · next request =>
    cases hs
    exact h.withContainer
      (RequestsContainer.keeps_inv maxLength _ (.putRequest request) _ h.container rfl)
      (RequestsContainer.putRequest_sameCall _ _ _)
  · cases hs
    exact h.withContainer (RequestsContainer.keeps_inv maxLength _ .requestStop _ h.container rfl)
      (RequestsContainer.requestStop_sameCall _)
  · next ok hpc =>
    cases hs
    cases ok with
    | true => exact enter_inv h hpc
    | false => exact h.withPc nofun (h.idle (by rw [hpc]; nofun))
  · next dbOk hpc => exact loopStep_inv h hpc hs
  · next hpc =>
    cases hs
    refine h.withPc ?_ (h.idle (by rw [hpc]; nofun))
    split <;> nofun
  · next hpc =>
    obtain ⟨c, hc, rfl⟩ := Option.map_eq_some_iff.mp hs
    exact drop_inv h hpc hc
  · next serverCommits shouldStop hpc => cases hs; exact discard_inv h hpc serverCommits
  · cases hs

/-! ## 6. Losses -/

theorem loopStep_lost {dbOk : Bool} (hstep : loopStep maxLength dbOk s = some s')
    (hlost : s.lost = 0) : s'.lost = 0 ↔ LosesNothing s (.loop dbOk) := by
  unfold loopStep at hstep
  split at hstep
  · next hret =>
    cases hstep
    exact iff_of_true hlost fun _ batch hb => nomatch hret.symm.trans hb
  · next hret =>
    cases hstep
    exact iff_of_true hlost fun _ batch hb => nomatch hret.symm.trans hb
  · obtain ⟨loop, -, rfl⟩ := Option.map_eq_some_iff.mp hstep
    show s.lost + lostBatch dbOk s.loop = 0 ↔ _
    rw [hlost, zero_add, Multiset.coe_eq_zero, LosesNothing, lostBatch]
    cases dbOk with
    | true =>
      refine iff_of_true ?_ nofun
      split <;> rfl
    | false =>
      cases hpc : s.loop.pc with
      | sending batch => simp
      | _ => simp

theorem discard_lost (serverCommits : Fin (n + 1) → Bool) (shouldStop : Bool)
    (hlost : s.lost = 0) : (discard serverCommits shouldStop s).lost = 0 ↔
      LosesNothing s (.discard serverCommits) := by
  rw [discard, hlost, zero_add, Multiset.coe_eq_zero, sent, List.flatMap_eq_nil_iff, LosesNothing]
  simp only [List.mem_filter, Bool.not_eq_true', and_imp]

theorem step_lost {l : Label n} (hs : step maxLength s l = some s') (hlost : s.lost = 0) :
    s'.lost = 0 ↔ LosesNothing s l := by
  unfold step at hs
  split at hs
  · obtain ⟨loop, -, rfl⟩ := Option.map_eq_some_iff.mp hs
    exact iff_of_true hlost trivial
  · obtain ⟨loop, -, rfl⟩ := Option.map_eq_some_iff.mp hs
    exact iff_of_true hlost trivial
  · next ok _ =>
    cases hs
    refine iff_of_true ?_ trivial
    split <;> exact hlost
  · exact loopStep_lost hs hlost
  · cases hs
    exact iff_of_true hlost trivial
  · obtain ⟨c, -, rfl⟩ := Option.map_eq_some_iff.mp hs
    exact iff_of_true hlost trivial
  · cases hs
    exact discard_lost _ _ hlost
  · cases hs

/-- In a run all records are accounted for exactly as long as no step loses a record. -/
theorem accounted_iff (n maxLength : Nat) (ls : List (Label n)) :
    (machine n maxLength).Visits Accounted State.new ls ↔
      (machine n maxLength).Steps LosesNothing State.new ls := by
  refine Machine.visits_iff_steps (keeps_inv n maxLength) (fun s l s' h hacc hs => ?_)
    (inv_new n maxLength) ((accounted_iff_lost (inv_new n maxLength)).mpr rfl)
  rw [accounted_iff_lost (keeps_inv n maxLength s l s' h hs)]
  exact step_lost hs ((accounted_iff_lost h).mp hacc)

/-- One request is logged, and the database fails to take its batch. -/
def oneFailure : List (Label 1) :=
  [.putRequest (bytes "a\n"), .connect true] ++ List.replicate 7 (.loop true) ++ [.loop false]

/-- The request was accepted and is nowhere: not counted as dropped, not in the queue, not on the
way, and not in the database. -/
theorem record_lost :
    ∃ s, (machine 1 5).run State.new oneFailure = some s ∧
      s.loop.container.accepted = [bytes "a\n"] ∧ s.loop.container.stats.numLogRequests = 1 ∧
      s.loop.container.stats.numDropped = 0 ∧ s.loop.container.requests.impl = [] ∧
      s.loop.container.getRequestsBuffer = [] ∧ committedRecords s = 0 ∧ pendingRecords s = 0 ∧
      ¬ Accounted s := by
  refine ⟨_, rfl, rfl, rfl, rfl, rfl, rfl, rfl, rfl, ?_⟩
  intro h
  have hcounted := h.counted
  cases hcounted

end Invariant

end LoggerThread

end SafeKiddo
