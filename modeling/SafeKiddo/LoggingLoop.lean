import SafeKiddo.RequestsContainer

/-!
# The logging loop

`RequestLogger::loggingLoop` with the request queue and the database, as a machine. The logger
thread sends batches in COPY transactions, over the connections in turn, and awaits the commit of a
connection when its turn comes again. Any call of the database may fail.

Results:
1. `container_reachable`: the queue of the loop is a queue of `RequestsContainer`.
2. `LoopInv`: what holds between any two steps without a failure; `keeps_loopInv` is its step lemma.
3. `logged_once`: on a stop without a failure each accepted request has been committed once.
-/

namespace SafeKiddo

open ByteString

namespace LoggingLoop

open RequestsContainer (Batch Phase Fate Drained)

/-! ## 1. The database -/

/-- A COPY is in progress, ended, or its commit result has been awaited. -/
inductive Status
  | copying
  | ended
  | awaited
  deriving DecidableEq

/-- A COPY on a connection, with the batches that were put. -/
structure Transaction (n : Nat) where
  connection : Fin (n + 1)
  batches : List Batch
  status : Status

section Database

variable {n : Nat}

/-- Changes the transactions of a connection that have a status. -/
def updateIf (connection : Fin (n + 1)) (status : Status) (f : Transaction n → Transaction n)
    (transactions : List (Transaction n)) : List (Transaction n) :=
  transactions.map fun t => if t.connection = connection ∧ t.status = status then f t else t

def executeCopy (connection : Fin (n + 1)) (transactions : List (Transaction n)) :
    List (Transaction n) :=
  transactions ++ [⟨connection, [], .copying⟩]

/-- `PQputCopyData`. -/
def putCopyData (connection : Fin (n + 1)) (batch : Batch) : List (Transaction n) →
    List (Transaction n) :=
  updateIf connection .copying fun t => { t with batches := t.batches ++ [batch] }

/-- `PQputCopyEnd`. -/
def putCopyEnd (connection : Fin (n + 1)) : List (Transaction n) → List (Transaction n) :=
  updateIf connection .copying fun t => { t with status := .ended }

/-- The result of an ended COPY. -/
def waitForCommit (connection : Fin (n + 1)) : List (Transaction n) → List (Transaction n) :=
  updateIf connection .ended fun t => { t with status := .awaited }

def Transaction.records (t : Transaction n) : List Bytes := t.batches.flatMap Batch.records

/-- All that was put, in order. -/
def sent (transactions : List (Transaction n)) : List Bytes :=
  transactions.flatMap Transaction.records

end Database

/-! ## 2. The code -/

inductive LoggingRetcode
  | stopRequested
  | dbFailure
  deriving DecidableEq

/-- Where the logger thread is. -/
inductive Pc
  /-- The head of the outer loop. -/
  | round
  | copyStart
  /-- The head of the inner loop. -/
  | batchHead
  /-- In `getRequests`. -/
  | getting
  | sending (batch : Batch)
  | copyEnd
  /-- The loop after the stop. -/
  | finalWait (i : Nat)
  | returned (code : LoggingRetcode)

structure State (n : Nat) where
  container : RequestsContainer.State
  pc : Pc
  currentConnectionNum : Fin (n + 1)
  needsCommit : Fin (n + 1) → Bool
  shouldStop : Bool
  firstRequest : Bool
  batchNum : Nat
  lastBatchSize : Nat
  transactions : List (Transaction n)

def maxRequestsInBatch : Nat := 1000

def maxBatchesInTransaction : Nat := 10

section Loop

variable {n : Nat}

def State.new : State n where
  container := RequestsContainer.State.new
  pc := .round
  currentConnectionNum := 0
  needsCommit _ := false
  shouldStop := false
  firstRequest := true
  batchNum := 0
  lastBatchSize := maxRequestsInBatch
  transactions := []

def State.fail (s : State n) : State n := { s with pc := .returned .dbFailure }

/-- The head of the outer loop, with the wait for the earlier commit on the connection. -/
def roundStep (dbOk : Bool) (s : State n) : State n :=
  if s.shouldStop then { s with pc := .finalWait 0 }
  else if s.needsCommit s.currentConnectionNum then
    if dbOk then
      { s with
        transactions := waitForCommit s.currentConnectionNum s.transactions
        pc := .copyStart }
    else s.fail
  else { s with pc := .copyStart }

def copyStartStep (dbOk : Bool) (s : State n) : State n :=
  if dbOk then
    { s with
      transactions := executeCopy s.currentConnectionNum s.transactions
      firstRequest := true
      batchNum := 0
      lastBatchSize := maxRequestsInBatch
      pc := .batchHead }
  else s.fail

/-- The head of the inner loop, with the call of `getRequests`. -/
def batchHeadStep (maxLength : Nat) (s : State n) : Option (State n) :=
  if s.batchNum < maxBatchesInTransaction ∧ s.lastBatchSize = maxRequestsInBatch then
    (RequestsContainer.step maxLength s.container
      (.getRequests s.firstRequest [] maxRequestsInBatch)).map fun container =>
        { s with container, pc := .getting }
  else some { s with pc := .copyEnd }

/-- `getRequests` has returned. -/
def gotStep (batch : Batch) (s : State n) : State n :=
  { s with
    lastBatchSize := batch.numRequests
    shouldStop := batch.numRequests = 0 ∧ s.firstRequest = true
    firstRequest := false
    pc := if 0 < batch.numRequests then .sending batch else .batchHead }

def sendingStep (dbOk : Bool) (batch : Batch) (s : State n) : State n :=
  if dbOk then
    { s with
      transactions := putCopyData s.currentConnectionNum batch s.transactions
      batchNum := s.batchNum + 1
      pc := .batchHead }
  else s.fail

def copyEndStep (dbOk : Bool) (s : State n) : State n :=
  if dbOk then
    { s with
      transactions := putCopyEnd s.currentConnectionNum s.transactions
      needsCommit := Function.update s.needsCommit s.currentConnectionNum true
      currentConnectionNum := s.currentConnectionNum + 1
      pc := .round }
  else s.fail

/-- The last commits; a failure ends the loop, too. -/
def finalWaitStep (dbOk : Bool) (i : Nat) (s : State n) : State n :=
  if h : i < n + 1 then
    if s.needsCommit ⟨i, h⟩ then
      if dbOk then
        { s with transactions := waitForCommit ⟨i, h⟩ s.transactions, pc := .finalWait (i + 1) }
      else { s with pc := .returned .stopRequested }
    else { s with pc := .finalWait (i + 1) }
  else { s with pc := .returned .stopRequested }

def loopStep (maxLength : Nat) (dbOk : Bool) (s : State n) : Option (State n) :=
  match s.pc with
  | .round => some (roundStep dbOk s)
  | .copyStart => some (copyStartStep dbOk s)
  | .batchHead => batchHeadStep maxLength s
  | .getting =>
    match s.container.phase with
    | .returned _ batch => some (gotStep batch s)
    | _ => none
  | .sending batch => some (sendingStep dbOk batch s)
  | .copyEnd => some (copyEndStep dbOk s)
  | .finalWait i => some (finalWaitStep dbOk i s)
  | .returned _ => none

/-! ## 3. The machine -/

inductive Label
  | putRequest (request : Bytes)
  | requestStop
  /-- The logger thread goes on; a call of the database fails unless `dbOk`. -/
  | continue (dbOk : Bool)

/-- The logger thread is in the loop, or inside `getRequests`. -/
def step (maxLength : Nat) (s : State n) : Label → Option (State n)
  | .putRequest request =>
    (RequestsContainer.step maxLength s.container (.putRequest request)).map fun container =>
      { s with container }
  | .requestStop =>
    (RequestsContainer.step maxLength s.container .requestStop).map fun container =>
      { s with container }
  | .continue dbOk =>
    if s.container.phase.outside then loopStep maxLength dbOk s
    else
      (RequestsContainer.step maxLength s.container .continue).map fun container =>
        { s with container }

def machine (n maxLength : Nat) : Machine (State n) Label := ⟨State.new, step maxLength⟩

/-- No call of the database fails. -/
def Label.dbOk : Label → Bool
  | .continue dbOk => dbOk
  | _ => true

end Loop

/-! ## 4. Transactions -/

section Transactions

variable {n : Nat} {connection : Fin (n + 1)} {transactions : List (Transaction n)}
  {needsCommit : Fin (n + 1) → Bool}

/-- No COPY is in progress, and the ended ones are noted. -/
def Past (needsCommit : Fin (n + 1) → Bool) (transactions : List (Transaction n)) : Prop :=
  ∀ t ∈ transactions, t.status ≠ .copying ∧ (t.status = .ended → needsCommit t.connection = true)

/-- Each commit of the connection has been awaited. -/
def Free (connection : Fin (n + 1)) (transactions : List (Transaction n)) : Prop :=
  ∀ t ∈ transactions, t.connection = connection → t.status = .awaited

/-- No transaction is too long. -/
def Limited (transactions : List (Transaction n)) : Prop :=
  ∀ t ∈ transactions, t.batches.length ≤ maxBatchesInTransaction ∧
    ∀ b ∈ t.batches, b.before = [] ∧ b.numRequests ≤ maxRequestsInBatch

/-- A change of the status only. -/
theorem sent_updateIf {status : Status} {f : Transaction n → Transaction n}
    (hf : ∀ t, (f t).batches = t.batches) :
    sent (updateIf connection status f transactions) = sent transactions := by
  unfold sent updateIf
  rw [List.flatMap_map]
  congr 1
  funext t
  split
  · rw [Transaction.records, hf, Transaction.records]
  · rfl

@[simp] theorem sent_waitForCommit :
    sent (waitForCommit connection transactions) = sent transactions :=
  sent_updateIf fun _ => rfl

@[simp] theorem sent_putCopyEnd : sent (putCopyEnd connection transactions) = sent transactions :=
  sent_updateIf fun _ => rfl

theorem Limited.updateIf {status : Status} {f : Transaction n → Transaction n}
    (hf : ∀ t, (f t).batches = t.batches) (h : Limited transactions) :
    Limited (updateIf connection status f transactions) := by
  intro t ht
  obtain ⟨t', ht', rfl⟩ := List.mem_map.mp ht
  split
  · rw [hf]
    exact h t' ht'
  · exact h t' ht'

/-- Only the COPY in progress is changed. -/
theorem updateIf_open {f : Transaction n → Transaction n} {batches : List Batch}
    (h : Past needsCommit transactions) :
    updateIf connection .copying f (transactions ++ [⟨connection, batches, .copying⟩]) =
      transactions ++ [f ⟨connection, batches, .copying⟩] := by
  have hpast : updateIf connection .copying f transactions = transactions :=
    (List.map_congr_left (g := id) fun t ht => if_neg fun hc => (h t ht).1 hc.2).trans
      (List.map_id _)
  rw [updateIf, List.map_append, List.map_singleton, if_pos ⟨rfl, rfl⟩]
  exact congrArg (· ++ _) hpast

/-- Waiting frees the connection and keeps what is noted. -/
theorem waitForCommit_past (h : Past needsCommit transactions) :
    Past needsCommit (waitForCommit connection transactions) ∧
      ∀ t ∈ waitForCommit connection transactions, t.status ≠ .awaited →
        t.connection ≠ connection ∧ t ∈ transactions := by
  constructor
  · intro t ht
    obtain ⟨t', ht', rfl⟩ := List.mem_map.mp ht
    split
    · exact ⟨nofun, nofun⟩
    · exact h t' ht'
  · intro t ht hstatus
    obtain ⟨t', ht', rfl⟩ := List.mem_map.mp ht
    split at hstatus
    · exact absurd rfl hstatus
    · next hno =>
      rw [if_neg hno]
      refine ⟨fun hc => ?_, ht'⟩
      cases hs : t'.status with
      | copying => exact (h t' ht').1 hs
      | ended => exact hno ⟨hc, hs⟩
      | awaited => exact hstatus hs

theorem free_of_not_needsCommit (h : Past needsCommit transactions)
    (hno : ¬ needsCommit connection = true) : Free connection transactions := by
  intro t ht hc
  obtain ⟨hcopying, hended⟩ := h t ht
  cases hs : t.status with
  | copying => exact absurd hs hcopying
  | ended => exact absurd (hc ▸ hended hs) hno
  | awaited => rfl

end Transactions

/-! ## 5. The invariant -/

section Invariant

variable {n maxLength : Nat} {s s' : State n}

/-- The last transaction is the COPY in progress. -/
def Open (s : State n) : Prop :=
  ∃ ts batches, s.transactions = ts ++ [⟨s.currentConnectionNum, batches, .copying⟩] ∧
    Past s.needsCommit ts ∧ batches.length = s.batchNum

/-- What the connections and the variables of the loop say about the transactions. -/
def DbOk (s : State n) : Pc → Prop
  | .round => Past s.needsCommit s.transactions
  | .copyStart =>
    Past s.needsCommit s.transactions ∧ Free s.currentConnectionNum s.transactions
  | .batchHead => Open s ∧ s.batchNum ≤ maxBatchesInTransaction
  | .getting => Open s ∧ s.batchNum < maxBatchesInTransaction
  | .sending _ => Open s ∧ s.batchNum < maxBatchesInTransaction
  | .copyEnd => Open s
  | .finalWait i =>
    Past s.needsCommit s.transactions ∧
      ∀ t ∈ s.transactions, t.status = .ended → i ≤ t.connection
  | .returned .stopRequested => ∀ t ∈ s.transactions, t.status = .awaited
  | .returned .dbFailure => False

/-- What was delivered was sent, up to the batch at hand. -/
def FlowOk (s : State n) : Pc → Prop
  | .getting =>
    s.container.phase.call? =
      some ⟨s.firstRequest, [], maxRequestsInBatch, sent s.transactions⟩
  | .sending batch =>
    s.container.phase.outside = true ∧
      s.container.delivered = sent s.transactions ++ batch.records ∧ batch.before = [] ∧
      batch.numRequests ≤ maxRequestsInBatch
  | _ => s.container.phase.outside = true ∧ s.container.delivered = sent s.transactions

/-- The loop stops only when nothing is left. -/
def StopOk (s : State n) : Pc → Prop
  | .copyStart => s.shouldStop = false
  | .getting => s.shouldStop = false
  | .sending _ => s.shouldStop = false
  | .batchHead => s.shouldStop = true → Drained s.container ∧ s.lastBatchSize = 0
  | .round => s.shouldStop = true → Drained s.container
  | .copyEnd => s.shouldStop = true → Drained s.container
  | .finalWait _ => Drained s.container
  | .returned _ => Drained s.container

structure LoopInv (maxLength : Nat) (s : State n) : Prop where
  container : RequestsContainer.Inv maxLength s.container
  onlyDelivered : RequestsContainer.OnlyDelivered s.container
  limited : Limited s.transactions
  db : DbOk s s.pc
  flow : FlowOk s s.pc
  stop : StopOk s s.pc

theorem loopInv_new (n maxLength : Nat) : LoopInv maxLength (State.new : State n) :=
  ⟨RequestsContainer.inv_new maxLength, rfl, nofun, nofun, ⟨rfl, rfl⟩, nofun⟩

/-- The connections and the variables of the loop do not read the queue. -/
theorem DbOk.withContainer {pc : Pc} (h : DbOk s pc) (c : RequestsContainer.State) :
    DbOk { s with container := c } pc := by
  revert h
  cases pc with
  | returned code => cases code <;> exact id
  | _ => exact id

/-- A change of the queue that keeps the call, what was taken, and the end. -/
theorem LoopInv.withContainer (h : LoopInv maxLength s) {c : RequestsContainer.State}
    (hinv : RequestsContainer.Inv maxLength c) (hsame : RequestsContainer.SameCall s.container c)
    (hdrained : Drained s.container → Drained c) :
    LoopInv maxLength { s with container := c } := by
  obtain ⟨hcontainer, hdelivered, hlimited, hdb, hflow, hstop⟩ := h
  have hdel : c.delivered = s.container.delivered := by
    rw [RequestsContainer.State.delivered, hsame.taken]
    rfl
  have honly : RequestsContainer.OnlyDelivered c := by
    rw [RequestsContainer.OnlyDelivered, hdel, hsame.taken]
    exact hdelivered
  have hout := hsame.outside
  refine ⟨hinv, honly, hlimited, ?_, ?_, ?_⟩
  · exact hdb.withContainer c
  · show FlowOk { s with container := c } s.pc
    revert hflow
    cases s.pc with
    | getting => exact hsame.call.trans
    | sending batch => rintro ⟨ho, hd, hrest⟩; exact ⟨hout.trans ho, hdel.trans hd, hrest⟩
    | _ => rintro ⟨ho, hd⟩; exact ⟨hout.trans ho, hdel.trans hd⟩
  · show StopOk { s with container := c } s.pc
    revert hstop
    cases s.pc with
    | copyStart => exact id
    | getting => exact id
    | sending batch => exact id
    | batchHead => exact fun h hs => ⟨hdrained (h hs).1, (h hs).2⟩
    | round => exact fun h hs => hdrained (h hs)
    | copyEnd => exact fun h hs => hdrained (h hs)
    | finalWait i => exact hdrained
    | returned code => exact hdrained

/-- Inside `getRequests` the logger thread only works on the queue. -/
theorem LoopInv.continueContainer (h : LoopInv maxLength s)
    (hin : ¬ s.container.phase.outside = true) {c : RequestsContainer.State}
    (hstep : RequestsContainer.step maxLength s.container .continue = some c) :
    LoopInv maxLength { s with container := c } := by
  obtain ⟨hcontainer, hdelivered, hlimited, hdb, hflow, hstop⟩ := h
  have hcall := RequestsContainer.continue_call hstep
  have heffect := RequestsContainer.continue_effect hstep
  have hgetting : s.pc = .getting := by
    revert hflow
    cases s.pc with
    | getting => exact fun _ => rfl
    | sending batch => exact fun hf => absurd hf.1 hin
    | _ => exact fun hf => absurd hf.1 hin
  rw [hgetting] at hdb hflow hstop
  refine ⟨RequestsContainer.keeps_inv maxLength _ .continue _ hcontainer hstep,
    heffect.onlyDelivered hdelivered, hlimited, ?_, ?_, ?_⟩
  · show DbOk { s with container := c } s.pc
    rw [hgetting]
    exact hdb
  · show FlowOk { s with container := c } s.pc
    rw [hgetting]
    exact hcall.trans hflow
  · show StopOk { s with container := c } s.pc
    rw [hgetting]
    exact hstop

/-! ## 6. Steps of the loop -/

theorem roundStep_db (h : DbOk s .round) : DbOk (roundStep true s) (roundStep true s).pc := by
  unfold roundStep
  cases s.shouldStop with
  | true => exact ⟨h, fun _ _ _ => Nat.zero_le _⟩
  | false =>
    cases hc : s.needsCommit s.currentConnectionNum with
    | true =>
      obtain ⟨hpast, hfree⟩ := @waitForCommit_past n s.currentConnectionNum _ _ h
      refine ⟨hpast, ?_⟩
      intro t ht hcur
      by_contra hno
      exact (hfree t ht hno).1 hcur
    | false => exact ⟨h, free_of_not_needsCommit h (by simp [hc])⟩

theorem copyStartStep_db (h : DbOk s .copyStart) :
    DbOk (copyStartStep true s) (copyStartStep true s).pc :=
  ⟨⟨s.transactions, [], rfl, h.1, rfl⟩, Nat.zero_le _⟩

theorem batchHeadStep_db (h : DbOk s .batchHead) (hstep : batchHeadStep maxLength s = some s') :
    DbOk s' s'.pc := by
  unfold batchHeadStep at hstep
  split at hstep
  · next hgo =>
    obtain ⟨c, -, rfl⟩ := Option.map_eq_some_iff.mp hstep
    exact ⟨h.1, hgo.1⟩
  · cases hstep
    exact h.1

theorem gotStep_db (h : DbOk s .getting) (batch : Batch) :
    DbOk (gotStep batch s) (gotStep batch s).pc := by
  unfold gotStep
  dsimp only
  split
  · exact h
  · exact ⟨h.1, h.2.le⟩

/-- The batch is put into the COPY in progress. -/
theorem putCopyData_open (h : Open s) (batch : Batch) :
    ∃ ts batches, s.transactions = ts ++ [⟨s.currentConnectionNum, batches, .copying⟩] ∧
      putCopyData s.currentConnectionNum batch s.transactions =
        ts ++ [⟨s.currentConnectionNum, batches ++ [batch], .copying⟩] ∧
      Past s.needsCommit ts ∧ batches.length = s.batchNum := by
  obtain ⟨ts, batches, htrans, hpast, hlen⟩ := h
  refine ⟨ts, batches, htrans, ?_, hpast, hlen⟩
  rw [htrans]
  exact updateIf_open hpast

theorem sent_putCopyData (h : Open s) (batch : Batch) :
    sent (putCopyData s.currentConnectionNum batch s.transactions) =
      sent s.transactions ++ batch.records := by
  obtain ⟨ts, batches, htrans, hput, -, -⟩ := putCopyData_open h batch
  rw [hput, htrans]
  simp [sent, Transaction.records]

@[simp] theorem sent_executeCopy (connection : Fin (n + 1)) (transactions : List (Transaction n)) :
    sent (executeCopy connection transactions) = sent transactions := by
  simp [executeCopy, sent, Transaction.records]

theorem sendingStep_db {batch : Batch} (h : DbOk s (.sending batch)) :
    DbOk (sendingStep true batch s) (sendingStep true batch s).pc := by
  obtain ⟨hopen, hlt⟩ := h
  obtain ⟨ts, batches, -, hput, hpast, hlen⟩ := putCopyData_open hopen batch
  exact ⟨⟨ts, batches ++ [batch], hput, hpast, by simp [sendingStep, hlen]⟩, hlt⟩

theorem copyEndStep_db (h : DbOk s .copyEnd) :
    DbOk (copyEndStep true s) (copyEndStep true s).pc := by
  obtain ⟨ts, batches, htrans, hpast, -⟩ := h
  have hput : putCopyEnd s.currentConnectionNum s.transactions =
      ts ++ [⟨s.currentConnectionNum, batches, .ended⟩] := by
    rw [htrans]
    exact updateIf_open hpast
  show Past (Function.update s.needsCommit s.currentConnectionNum true)
    (putCopyEnd s.currentConnectionNum s.transactions)
  rw [hput]
  intro t ht
  rcases List.mem_append.mp ht with ht | ht
  · obtain ⟨hcopying, hended⟩ := hpast t ht
    refine ⟨hcopying, ?_⟩
    intro hs
    rw [Function.update_apply, hended hs, ite_self]
  · rw [List.mem_singleton] at ht
    subst ht
    exact ⟨nofun, fun _ => Function.update_self _ _ _⟩

theorem finalWaitStep_db {i : Nat} (h : DbOk s (.finalWait i)) :
    DbOk (finalWaitStep true i s) (finalWaitStep true i s).pc := by
  obtain ⟨hpast, hlate⟩ := h
  unfold finalWaitStep
  split
  · next hi =>
    cases hc : s.needsCommit ⟨i, hi⟩ with
    | true =>
      obtain ⟨hpast', hfree⟩ := @waitForCommit_past n ⟨i, hi⟩ _ _ hpast
      refine ⟨hpast', ?_⟩
      intro t ht hs
      obtain ⟨hne, hmem⟩ := hfree t ht (by rw [hs]; nofun)
      exact Nat.lt_of_le_of_ne (hlate t hmem hs) fun he => hne (Fin.ext he.symm)
    | false =>
      refine ⟨hpast, ?_⟩
      intro t ht hs
      refine Nat.lt_of_le_of_ne (hlate t ht hs) ?_
      intro he
      have hnoted := (hpast t ht).2 hs
      rw [show t.connection = ⟨i, hi⟩ from Fin.ext he.symm, hc] at hnoted
      cases hnoted
  · next hi =>
    intro t ht
    cases hs : t.status with
    | copying => exact absurd hs (hpast t ht).1
    | ended => exact absurd ((hlate t ht hs).trans_lt t.connection.isLt) hi
    | awaited => rfl

/-- The step lemma for the transactions. -/
theorem loopStep_db (h : DbOk s s.pc) (hstep : loopStep maxLength true s = some s') :
    DbOk s' s'.pc := by
  unfold loopStep at hstep
  split at hstep
  · next hpc => cases hstep; exact roundStep_db (hpc ▸ h)
  · next hpc => cases hstep; exact copyStartStep_db (hpc ▸ h)
  · next hpc => exact batchHeadStep_db (hpc ▸ h) hstep
  · next hpc =>
    split at hstep
    · next call batch hphase => cases hstep; exact gotStep_db (hpc ▸ h) batch
    · cases hstep
  · next batch hpc => cases hstep; exact sendingStep_db (hpc ▸ h)
  · next hpc => cases hstep; exact copyEndStep_db (hpc ▸ h)
  · next i hpc => cases hstep; exact finalWaitStep_db (hpc ▸ h)
  · cases hstep

theorem roundStep_false (s : State n) :
    roundStep false s = roundStep true s ∨ roundStep false s = s.fail := by
  unfold roundStep
  cases s.shouldStop with
  | true => exact .inl rfl
  | false =>
    cases s.needsCommit s.currentConnectionNum with
    | true => exact .inr rfl
    | false => exact .inl rfl

theorem finalWaitStep_false (s : State n) (i : Nat) :
    finalWaitStep false i s = finalWaitStep true i s ∨
      finalWaitStep false i s = { s with pc := .returned .stopRequested } := by
  unfold finalWaitStep
  split
  · next hi =>
    cases s.needsCommit ⟨i, hi⟩ with
    | true => exact .inr rfl
    | false => exact .inl rfl
  · exact .inl rfl

/-- A failure ends the loop, where a call of the database is made. -/
theorem loopStep_false (h : loopStep maxLength false s = some s') :
    loopStep maxLength true s = some s' ∨ ∃ code, s'.pc = .returned code := by
  unfold loopStep at h ⊢
  split at h
  · cases h
    exact (roundStep_false s).imp (congrArg some ·.symm) fun hf => ⟨_, congrArg State.pc hf⟩
  · cases h; exact .inr ⟨_, rfl⟩
  · exact .inl h
  · exact .inl h
  · cases h; exact .inr ⟨_, rfl⟩
  · cases h; exact .inr ⟨_, rfl⟩
  · next i _ =>
    cases h
    exact (finalWaitStep_false s i).imp (congrArg some ·.symm) fun hf => ⟨_, congrArg State.pc hf⟩
  · cases h

theorem loopStep_db_or_returned {dbOk : Bool} (h : DbOk s s.pc)
    (hstep : loopStep maxLength dbOk s = some s') :
    DbOk s' s'.pc ∨ ∃ code, s'.pc = .returned code := by
  cases dbOk with
  | true => exact .inl (loopStep_db h hstep)
  | false => exact (loopStep_false hstep).imp_left (loopStep_db h)

theorem roundStep_inv (h : LoopInv maxLength s) (hpc : s.pc = .round) :
    LoopInv maxLength (roundStep true s) := by
  obtain ⟨hcontainer, hdelivered, hlimited, hdb, hflow, hstop⟩ := h
  rw [hpc] at hdb hflow hstop
  have hdb' := roundStep_db hdb
  revert hdb'
  unfold roundStep
  cases hs : s.shouldStop with
  | true => exact fun hdb' => ⟨hcontainer, hdelivered, hlimited, hdb', hflow, hstop hs⟩
  | false =>
    cases s.needsCommit s.currentConnectionNum with
    | true =>
      exact fun hdb' => ⟨hcontainer, hdelivered, hlimited.updateIf fun _ => rfl, hdb',
        ⟨hflow.1, hflow.2.trans sent_waitForCommit.symm⟩, rfl⟩
    | false => exact fun hdb' => ⟨hcontainer, hdelivered, hlimited, hdb', hflow, rfl⟩

theorem copyStartStep_inv (h : LoopInv maxLength s) (hpc : s.pc = .copyStart) :
    LoopInv maxLength (copyStartStep true s) := by
  obtain ⟨hcontainer, hdelivered, hlimited, hdb, hflow, hstop⟩ := h
  rw [hpc] at hdb hflow hstop
  refine ⟨hcontainer, hdelivered, ?_, copyStartStep_db hdb,
    ⟨hflow.1, hflow.2.trans (sent_executeCopy _ _).symm⟩,
    fun hs => absurd (hstop.symm.trans hs) nofun⟩
  intro t ht
  rcases List.mem_append.mp ht with ht | ht
  · exact hlimited t ht
  · rw [List.mem_singleton] at ht
    subst ht
    exact ⟨Nat.zero_le _, nofun⟩

theorem batchHeadStep_inv (h : LoopInv maxLength s) (hpc : s.pc = .batchHead)
    (hstep : batchHeadStep maxLength s = some s') : LoopInv maxLength s' := by
  obtain ⟨hcontainer, hdelivered, hlimited, hdb, hflow, hstop⟩ := h
  rw [hpc] at hdb hflow hstop
  have hdb' := batchHeadStep_db hdb hstep
  obtain ⟨hout, hdel⟩ := hflow
  have hpos : 0 < maxRequestsInBatch := by decide
  unfold batchHeadStep at hstep
  split at hstep
  · next hgo =>
    obtain ⟨c, hc, rfl⟩ := Option.map_eq_some_iff.mp hstep
    have hinv := RequestsContainer.keeps_inv maxLength s.container
      (.getRequests s.firstRequest [] maxRequestsInBatch) c hcontainer hc
    simp only [RequestsContainer.step, if_pos (And.intro hout hpos)] at hc
    cases hc
    refine ⟨hinv, (RequestsContainer.getRequests_effect _ _ _ _).onlyDelivered hdelivered, hlimited,
      hdb', ?_, ?_⟩
    · have hcall := RequestsContainer.getRequests_call s.firstRequest [] maxRequestsInBatch
        s.container
      rw [hdel] at hcall
      exact hcall
    · -- A stop would have left the size at zero.
      cases hs : s.shouldStop with
      | false => rfl
      | true =>
        have hzero := (hstop hs).2
        rw [hgo.2] at hzero
        cases hzero
  · cases hstep
    exact ⟨hcontainer, hdelivered, hlimited, hdb', ⟨hout, hdel⟩, fun hs => (hstop hs).1⟩

theorem gotStep_inv (h : LoopInv maxLength s) (hpc : s.pc = .getting)
    {call : RequestsContainer.GetCall} {batch : Batch}
    (hphase : s.container.phase = .returned call batch) : LoopInv maxLength (gotStep batch s) := by
  obtain ⟨hcontainer, hdelivered, hlimited, hdb, hflow, hstop⟩ := h
  rw [hpc] at hdb hflow hstop
  have hdb' := gotStep_db hdb batch
  have hout : s.container.phase.outside = true := by rw [hphase]; rfl
  have hphaseOk := hcontainer.phase
  rw [hphase] at hphaseOk
  obtain ⟨hans, hdone⟩ := hphaseOk
  have hcall : call = ⟨s.firstRequest, [], maxRequestsInBatch, sent s.transactions⟩ := by
    have hsome : s.container.phase.call? = some call := by rw [hphase]; rfl
    exact Option.some.inj (hsome.symm.trans hflow)
  subst hcall
  have hdel : s.container.delivered = sent s.transactions ++ batch.records := hans.delivered_eq
  rcases Nat.eq_zero_or_pos batch.numRequests with hzero | hnum
  · have hnil : batch.records = [] := List.eq_nil_of_length_eq_zero (batch.size_eq ▸ hzero)
    have hpc' : (gotStep batch s).pc = .batchHead := if_neg (hzero ▸ Nat.lt_irrefl 0)
    refine ⟨hcontainer, hdelivered, hlimited, hdb', ?_, ?_⟩
    · rw [hpc']
      exact ⟨hout, by rw [hnil, List.append_nil] at hdel; exact hdel⟩
    · rw [hpc']
      intro hs
      exact ⟨hdone (of_decide_eq_true hs).2 hzero, hzero⟩
  · have hstill : decide (batch.numRequests = 0 ∧ s.firstRequest = true) = false :=
      decide_eq_false fun hz => hnum.ne' hz.1
    have hpc' : (gotStep batch s).pc = .sending batch := if_pos hnum
    refine ⟨hcontainer, hdelivered, hlimited, hdb', ?_, ?_⟩
    · rw [hpc']
      exact ⟨hout, hdel, hans.before, hans.le_max⟩
    · rw [hpc']
      exact hstill

theorem sendingStep_inv (h : LoopInv maxLength s) {batch : Batch} (hpc : s.pc = .sending batch) :
    LoopInv maxLength (sendingStep true batch s) := by
  obtain ⟨hcontainer, hdelivered, hlimited, hdb, hflow, hstop⟩ := h
  rw [hpc] at hdb hflow hstop
  obtain ⟨hout, hdel, hbefore, hmax⟩ := hflow
  obtain ⟨ts, batches, htrans, hput, -, hlen⟩ := putCopyData_open hdb.1 batch
  have htrans' : (sendingStep true batch s).transactions =
      ts ++ [⟨s.currentConnectionNum, batches ++ [batch], .copying⟩] := hput
  refine ⟨hcontainer, hdelivered, ?_, sendingStep_db hdb,
    ⟨hout, hdel.trans (sent_putCopyData hdb.1 batch).symm⟩,
    fun hs => absurd (hstop.symm.trans hs) nofun⟩
  rw [htrans']
  intro t ht
  rcases List.mem_append.mp ht with ht | ht
  · exact hlimited t (htrans ▸ List.mem_append_left _ ht)
  · rw [List.mem_singleton] at ht
    subst ht
    have hopen := hlimited ⟨s.currentConnectionNum, batches, .copying⟩ (by simp [htrans])
    refine ⟨by simpa [hlen] using hdb.2, ?_⟩
    intro b hb
    rcases List.mem_append.mp hb with hb | hb
    · exact hopen.2 b hb
    · rw [List.mem_singleton] at hb
      subst hb
      exact ⟨hbefore, hmax⟩

theorem copyEndStep_inv (h : LoopInv maxLength s) (hpc : s.pc = .copyEnd) :
    LoopInv maxLength (copyEndStep true s) := by
  obtain ⟨hcontainer, hdelivered, hlimited, hdb, hflow, hstop⟩ := h
  rw [hpc] at hdb hflow hstop
  exact ⟨hcontainer, hdelivered, hlimited.updateIf fun _ => rfl, copyEndStep_db hdb,
    ⟨hflow.1, hflow.2.trans sent_putCopyEnd.symm⟩, hstop⟩

theorem finalWaitStep_inv (h : LoopInv maxLength s) {i : Nat} (hpc : s.pc = .finalWait i) :
    LoopInv maxLength (finalWaitStep true i s) := by
  obtain ⟨hcontainer, hdelivered, hlimited, hdb, hflow, hstop⟩ := h
  rw [hpc] at hdb hflow hstop
  have hdb' := finalWaitStep_db hdb
  revert hdb'
  unfold finalWaitStep
  split
  · next hi =>
    cases s.needsCommit ⟨i, hi⟩ with
    | true =>
      exact fun hdb' => ⟨hcontainer, hdelivered, hlimited.updateIf fun _ => rfl, hdb',
        ⟨hflow.1, hflow.2.trans sent_waitForCommit.symm⟩, hstop⟩
    | false => exact fun hdb' => ⟨hcontainer, hdelivered, hlimited, hdb', hflow, hstop⟩
  · exact fun hdb' => ⟨hcontainer, hdelivered, hlimited, hdb', hflow, hstop⟩

theorem loopStep_inv (h : LoopInv maxLength s) (hstep : loopStep maxLength true s = some s') :
    LoopInv maxLength s' := by
  unfold loopStep at hstep
  split at hstep
  · next hpc => cases hstep; exact roundStep_inv h hpc
  · next hpc => cases hstep; exact copyStartStep_inv h hpc
  · next hpc => exact batchHeadStep_inv h hpc hstep
  · next hpc =>
    split at hstep
    · next call batch hphase => cases hstep; exact gotStep_inv h hpc hphase
    · cases hstep
  · next batch hpc => cases hstep; exact sendingStep_inv h hpc
  · next hpc => cases hstep; exact copyEndStep_inv h hpc
  · next i hpc => cases hstep; exact finalWaitStep_inv h hpc
  · cases hstep

/-- The step lemma, for steps without a failure. -/
theorem keeps_loopInv (n maxLength : Nat) :
    ((machine n maxLength).restrict Label.dbOk).Keeps (LoopInv maxLength) := by
  intro s l s' h hs
  obtain ⟨hok, hs⟩ := Machine.restrict_step hs
  have hcontainer : ∀ l c, RequestsContainer.step maxLength s.container l = some c →
      RequestsContainer.Inv maxLength c ∧ (Drained s.container → Drained c) := fun l c hc =>
    ⟨RequestsContainer.keeps_inv maxLength s.container l c h.container hc,
      @RequestsContainer.drained_step maxLength _ _ l hc⟩
  cases l with
  | putRequest request =>
    simp only [machine, step] at hs
    obtain ⟨c, hc, rfl⟩ := Option.map_eq_some_iff.mp hs
    obtain ⟨hinv, hdrained⟩ := hcontainer _ c hc
    cases hc
    exact h.withContainer hinv (RequestsContainer.putRequest_sameCall _ _ _) hdrained
  | requestStop =>
    simp only [machine, step] at hs
    obtain ⟨c, hc, rfl⟩ := Option.map_eq_some_iff.mp hs
    obtain ⟨hinv, hdrained⟩ := hcontainer _ c hc
    cases hc
    exact h.withContainer hinv (RequestsContainer.requestStop_sameCall _) hdrained
  | «continue» dbOk =>
    cases hok
    simp only [machine, step] at hs
    split at hs
    · exact loopStep_inv h hs
    · next hin =>
      obtain ⟨c, hc, rfl⟩ := Option.map_eq_some_iff.mp hs
      exact h.continueContainer hin hc

/-! ## 7. Runs -/

/-- A step of the loop calls `getRequests` or leaves the queue alone. -/
theorem loopStep_container {dbOk : Bool} (h : loopStep maxLength dbOk s = some s') :
    s'.container = s.container ∨
      ∃ l, RequestsContainer.step maxLength s.container l = some s'.container := by
  unfold loopStep at h
  split at h
  · cases h
    unfold roundStep
    split_ifs <;> exact .inl rfl
  · cases h
    unfold copyStartStep
    split <;> exact .inl rfl
  · unfold batchHeadStep at h
    split at h
    · obtain ⟨c, hc, rfl⟩ := Option.map_eq_some_iff.mp h
      exact .inr ⟨_, hc⟩
    · cases h
      exact .inl rfl
  · split at h
    · cases h
      exact .inl rfl
    · cases h
  · cases h
    unfold sendingStep
    split <;> exact .inl rfl
  · cases h
    unfold copyEndStep
    split <;> exact .inl rfl
  · cases h
    unfold finalWaitStep
    split_ifs <;> exact .inl rfl
  · cases h

theorem step_container {l : Label} (h : step maxLength s l = some s') :
    s'.container = s.container ∨
      ∃ l, RequestsContainer.step maxLength s.container l = some s'.container := by
  have hmap : ∀ l, (RequestsContainer.step maxLength s.container l).map
      (fun container => { s with container }) = some s' →
      ∃ l, RequestsContainer.step maxLength s.container l = some s'.container := by
    intro l hl
    obtain ⟨c, hc, rfl⟩ := Option.map_eq_some_iff.mp hl
    exact ⟨l, hc⟩
  cases l with
  | putRequest request => exact .inr (hmap (.putRequest request) h)
  | requestStop => exact .inr (hmap .requestStop h)
  | «continue» dbOk =>
    simp only [step] at h
    split at h
    · exact loopStep_container h
    · exact .inr (hmap _ h)

/-- The queue of the loop makes the steps of the queue machine. -/
theorem mapsTo_container (n maxLength : Nat) :
    (machine n maxLength).MapsTo (RequestsContainer.machine maxLength) State.container := by
  intro s l s' h
  rcases step_container h with hsame | ⟨l', hstep⟩
  · exact ⟨[], congrArg some hsame.symm⟩
  · refine ⟨[l'], ?_⟩
    rw [Machine.run, show (RequestsContainer.machine maxLength).step s.container l' =
      some s'.container from hstep]
    rfl

theorem container_reachable (h : (machine n maxLength).Reachable s) :
    (RequestsContainer.machine maxLength).Reachable s.container :=
  h.map (mapsTo_container n maxLength) rfl

/-- All accepted requests have been committed, each once, and nothing is left or will come. -/
structure CommittedOnce (maxLength : Nat) (s : State n) : Prop where
  sent_eq : sent s.transactions = s.container.accepted
  committed : ∀ t ∈ s.transactions, t.status = .awaited
  empty : s.container.requests.impl = [] ∧ s.container.getRequestsBuffer = []
  stays_empty : ∀ ls t, (machine n maxLength).run s ls = some t →
    t.container.requests.impl = [] ∧ t.container.getRequestsBuffer = [] ∧
      t.container.accepted = s.container.accepted

structure LoggedOnce (maxLength : Nat) (s : State n) : Prop where
  /-- Accepted is what was not counted as dropped. -/
  counted : s.container.stats.numLogRequests =
    s.container.accepted.length + s.container.stats.numDropped
  returned : s.pc = .returned .stopRequested → CommittedOnce maxLength s
  limits : ∀ t ∈ s.transactions, t.batches.length ≤ 10 ∧
    ∀ b ∈ t.batches, b.records.length ≤ 1000 ∧ b.copyData = b.records.flatten
  /-- A COPY starts only on a connection whose commits have all been awaited. -/
  reuse : s.pc = .copyStart →
    ∀ t ∈ s.transactions, t.connection = s.currentConnectionNum → t.status = .awaited

theorem logged_once (n maxLength : Nat) (s : State n)
    (h : ((machine n maxLength).restrict Label.dbOk).Reachable s) : LoggedOnce maxLength s := by
  obtain ⟨hcontainer, hdelivered, hlimited, hdb, hflow, hstop⟩ :=
    h.invariant (keeps_loopInv n maxLength) (loopInv_new n maxLength)
  have honly : s.container.taken.map Fate.request = s.container.delivered := hdelivered
  have horder := hcontainer.order
  rw [honly] at horder
  refine ⟨?_, fun hpc => ?_, fun t ht => ?_, fun hpc => ?_⟩
  · have hcount := hcontainer.count
    rw [horder, List.length_append, List.length_append]
    rw [Queue.size_length] at hcount
    omega
  · rw [hpc] at hdb hflow hstop
    obtain ⟨hstopped, hbuffer, hrequests⟩ : Drained s.container := hstop
    refine ⟨?_, hdb, ⟨hrequests, hbuffer⟩, fun ls t hrun => ?_⟩
    · rw [horder, hbuffer, hrequests, ← hflow.2]
      simp
    · obtain ⟨ls', hrun'⟩ := Machine.run_map (mapsTo_container n maxLength) hrun
      have hdrained := Machine.run_invariant (m := RequestsContainer.machine maxLength)
        (fun _ _ _ hs hstep => RequestsContainer.drained_step hstep hs)
        (⟨hstopped, hbuffer, hrequests⟩ : Drained s.container) hrun'
      exact ⟨hdrained.requests_nil, hdrained.buffer_nil,
        RequestsContainer.stopped_accepts_nothing hstopped hrun'⟩
  · obtain ⟨hlen, hbatches⟩ := hlimited t ht
    refine ⟨hlen, ?_⟩
    intro b hb
    obtain ⟨hbefore, hmax⟩ := hbatches b hb
    exact ⟨b.size_eq ▸ hmax, by rw [b.data_eq, hbefore, List.nil_append]⟩
  · rw [hpc] at hdb
    exact hdb.2

/-- One request is logged, and then the stop is requested. -/
def oneRequest : List Label :=
  .putRequest (bytes "a\n") :: List.replicate 10 (.continue true) ++
    .requestStop :: List.replicate 11 (.continue true)

theorem logged_once_one :
    ∃ s, ((machine 1 5).restrict Label.dbOk).run State.new oneRequest = some s ∧
      s.pc = .returned .stopRequested ∧ LoggedOnce 5 s :=
  ⟨_, rfl, rfl, logged_once 1 5 _ ⟨oneRequest, rfl⟩⟩

end Invariant

end LoggingLoop

end SafeKiddo
