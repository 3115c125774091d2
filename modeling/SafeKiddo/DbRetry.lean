import SafeKiddo.DbClient

/-!
# Retries of the database client

`DBConnection::query` and `DBConnection::queryPrepared` of `dbClient.cpp` over libpq, which answers
each pass through their loop in any way. A pass that brings no rows is followed by a reconnect, and
a reconnect that succeeds by another pass.

Results:
1. `queryLoop_returned`: the loop ends at a pass with rows or at a failed reconnect, and nowhere
   else.
2. `queryLoop_running`: as long as there is neither, it goes on.
3. `failing_statement_retried`: a statement that the server keeps answering with an error is never
   given up.
-/

namespace SafeKiddo

open ByteString

namespace Libpq

/-! ## 1. libpq -/

inductive ExecStatusType
  | emptyQuery
  | commandOk
  | tuplesOk
  | copyOut
  | copyIn
  | badResponse
  | nonfatalError
  | fatalError
  deriving DecidableEq

inductive ConnStatusType
  | ok
  | bad
  deriving DecidableEq

structure PGresult where
  status : ExecStatusType
  rows : List (List Bytes)

/-- `PQresultStatus`, with `none` for a null pointer. -/
def resultStatus : Option PGresult → ExecStatusType
  | none => .fatalError
  | some result => result.status

/-- What is asked of the server. -/
inductive Statement
  | query (q : Bytes)
  | prepared (stmtName : Bytes) (paramValues : List (Option Bytes))
      (paramLengths paramFormats : List Int32)

structure PreparedStatement where
  stmtName : Bytes
  query : Bytes
  nParams : Nat

/-- The answers in one pass through the loop: the result that was left over, whether the statement
was sent, whether the socket became readable in time, the result, `PQstatus` after `PQreset`, and the
status of each `PQprepare`. -/
structure Attempt where
  leftover : Option PGresult
  sent : Bool
  readable : Bool
  result : Option PGresult
  resetStatus : ConnStatusType
  prepare : PreparedStatement → ExecStatusType

/-! ## 2. The code -/

/-- `conn` answers each pass for each statement. -/
structure DBConnection where
  conn : Statement → Nat → Attempt
  socketTimeout : Nat
  preparedStatements : List PreparedStatement

/-- Where a call is after some passes through its loop. -/
inductive Outcome
  | running
  | returned (result : Result (List (List Bytes)))

namespace DBConnection

def getResult (self : DBConnection) (attempt : Attempt) : Option PGresult :=
  if self.socketTimeout > 0 ∧ attempt.readable = false then none else attempt.result

/-- Sending a statement and getting its result. -/
def exchange (self : DBConnection) (attempt : Attempt) : Checked (Option PGresult) := do
  assert (attempt.leftover.isNone = true)
  if attempt.sent then return self.getResult attempt else return none

def execute (self : DBConnection) (q : Bytes) (n : Nat) : Checked (Option PGresult) :=
  self.exchange (self.conn (.query q) n)

def executePrepared (self : DBConnection) (stmtName : Bytes) (paramValues : List (Option Bytes))
    (paramLengths paramFormats : List Int32) (n : Nat) : Checked (Option PGresult) :=
  self.exchange (self.conn (.prepared stmtName paramValues paramLengths paramFormats) n)

def registerPreparedStatements (self : DBConnection) (attempt : Attempt) : Checked Unit :=
  self.preparedStatements.forM fun preparedStatement =>
    assert (attempt.prepare preparedStatement = .commandOk)

def shouldRetryAfterFailure (self : DBConnection) (attempt : Attempt) : Checked Bool :=
  if attempt.resetStatus = .bad then
    some false
  else do
    self.registerPreparedStatements attempt
    return true

def extractQueryResult (result : Option PGresult) : List (List Bytes) :=
  match result with
  | none => []
  | some result => result.rows

/-- The loop, from a pass on, for a number of passes. -/
def queryLoop (self : DBConnection) (execute : Nat → Checked (Option PGresult))
    (attempts : Nat → Attempt) : Nat → Nat → Checked Outcome
  | 0, _ => some .running
  | passes + 1, n => do
    let result ← execute n
    if resultStatus result = .tuplesOk then
      return .returned (.ok (extractQueryResult result))
    else if ← self.shouldRetryAfterFailure (attempts n) then
      queryLoop self execute attempts passes (n + 1)
    else
      return .returned (.error (-1))

def query (self : DBConnection) (q : Bytes) (passes : Nat) : Checked Outcome :=
  self.queryLoop (self.execute q) (self.conn (.query q)) passes 0

def queryPrepared (self : DBConnection) (stmtName : Bytes) (paramValues : List (Option Bytes))
    (paramLengths paramFormats : List Int32) (passes : Nat) : Checked Outcome :=
  self.queryLoop (self.executePrepared stmtName paramValues paramLengths paramFormats)
    (self.conn (.prepared stmtName paramValues paramLengths paramFormats)) passes 0

end DBConnection

/-! ## 3. The end of the loop -/

section Loop

variable {self : DBConnection} {execute : Nat → Checked (Option PGresult)}
  {attempts : Nat → Attempt}

/-- The loop ends at a pass with rows or at a failed reconnect. -/
theorem queryLoop_returned {passes n : Nat} {r : Result (List (List Bytes))}
    (h : self.queryLoop execute attempts passes n = some (.returned r)) :
    ∃ k ≥ n, (∃ result, execute k = some result ∧ resultStatus result = .tuplesOk) ∨
      (attempts k).resetStatus = .bad := by
  induction passes generalizing n with
  | zero => cases h
  | succ passes ih =>
    rw [DBConnection.queryLoop] at h
    obtain ⟨result, hresult, h⟩ := Option.bind_eq_some_iff.mp h
    rcases eq_or_ne (resultStatus result) .tuplesOk with htuples | herror
    · exact ⟨n, le_rfl, .inl ⟨result, hresult, htuples⟩⟩
    · rw [if_neg herror] at h
      obtain ⟨retry, hretry, h⟩ := Option.bind_eq_some_iff.mp h
      cases retry with
      | true =>
        obtain ⟨k, hk, hend⟩ := ih h
        exact ⟨k, Nat.le_of_succ_le hk, hend⟩
      | false =>
        refine ⟨n, le_rfl, .inr ?_⟩
        unfold DBConnection.shouldRetryAfterFailure at hretry
        split at hretry
        · next hbad => exact hbad
        · obtain ⟨-, -, hretry⟩ := Option.bind_eq_some_iff.mp hretry
          cases hretry

/-- As long as there is neither, the loop goes on. -/
theorem queryLoop_running
    (hexecute : ∀ n, ∃ result, execute n = some result ∧ resultStatus result ≠ .tuplesOk)
    (hretry : ∀ n, self.shouldRetryAfterFailure (attempts n) = some true) (passes n : Nat) :
    self.queryLoop execute attempts passes n = some .running := by
  induction passes generalizing n with
  | zero => rfl
  | succ passes ih =>
    obtain ⟨result, hresult, herror⟩ := hexecute n
    rw [DBConnection.queryLoop, hresult, Option.bind_eq_bind, Option.bind_some, if_neg herror,
      hretry n]
    exact ih (n + 1)

end Loop

/-! ## 4. Failing statements -/

namespace DBConnection

/-- `query` or `queryPrepared`. -/
def call (self : DBConnection) : Statement → Nat → Checked Outcome
  | .query q => self.query q
  | .prepared stmtName paramValues paramLengths paramFormats =>
    self.queryPrepared stmtName paramValues paramLengths paramFormats

/-- The server answers the statement with an error each time, and each reconnect succeeds. -/
structure KeepsFailing (db : DBConnection) (statement : Statement) : Prop where
  error : ∀ n result, db.exchange (db.conn statement n) = some result →
    resultStatus result ≠ .tuplesOk
  reconnect : ∀ n, (db.conn statement n).resetStatus = .ok

end DBConnection

/-- The call returns an error after some number of passes. -/
def StopsWithError (call : Nat → Checked Outcome) : Prop :=
  ∃ passes e, call passes = some (.returned (.error e))

theorem call_eq (self : DBConnection) (statement : Statement) (passes : Nat) :
    self.call statement passes =
      self.queryLoop (fun n => self.exchange (self.conn statement n)) (self.conn statement)
        passes 0 := by
  cases statement with
  | query q => rfl
  | prepared stmtName paramValues paramLengths paramFormats => rfl

/-- A statement that keeps failing is tried again without end; whatever libpq answers, its error is
not returned. -/
theorem failing_statement_retried {self : DBConnection} {statement : Statement}
    (h : self.KeepsFailing statement) : ¬ StopsWithError (self.call statement) := by
  rintro ⟨passes, e, hstop⟩
  rw [call_eq] at hstop
  obtain ⟨k, -, ⟨result, hresult, htuples⟩ | hbad⟩ := queryLoop_returned hstop
  · exact h.error k result hresult htuples
  · exact absurd ((h.reconnect k).symm.trans hbad) ConnStatusType.noConfusion

/-- A server that answers every statement with an error, and accepts every connection. -/
def refusing : DBConnection where
  conn _ _ := ⟨none, true, true, some ⟨.fatalError, []⟩, .ok, fun _ => .commandOk⟩
  socketTimeout := 1
  preparedStatements := [⟨bytes "get_child", bytes "select id from child where uuid=$1", 1⟩]

/-- The lookup of a child whose uuid is no text in UTF-8. -/
def getChildOfByte : Statement := .prepared (bytes "get_child") [some [255]] [] [0]

theorem refusing_keepsFailing : refusing.KeepsFailing getChildOfByte :=
  ⟨fun _ _ hresult => by cases hresult; exact ExecStatusType.noConfusion, fun _ => rfl⟩

theorem failing_statement_retried_child : ¬ StopsWithError (refusing.call getChildOfByte) :=
  failing_statement_retried refusing_keepsFailing

/-- The worker that looks up this child never gets out of the loop. -/
theorem get_child_without_end :
    refusing.KeepsFailing getChildOfByte ∧
      (∀ passes, refusing.call getChildOfByte passes = some .running) ∧
      ¬ StopsWithError (refusing.call getChildOfByte) := by
  have hrunning : ∀ passes, refusing.call getChildOfByte passes = some .running := by
    intro passes
    rw [call_eq]
    exact queryLoop_running (fun _ => ⟨_, rfl, ExecStatusType.noConfusion⟩) (fun _ => rfl) passes 0
  refine ⟨refusing_keepsFailing, hrunning, ?_⟩
  rintro ⟨passes, e, hstop⟩
  rw [hrunning passes] at hstop
  cases hstop

end Libpq

end SafeKiddo
