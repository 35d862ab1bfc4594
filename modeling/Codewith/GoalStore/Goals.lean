import Codewith.GoalStore.PlanStatus

/-!
# Goals of threads

The operations of `goals.rs`: a thread has at most one goal, with a token budget
and the usage charged to it.  `redactStateString` stands for the redaction of
secrets in stored texts.
-/

namespace Codewith.GoalStore

open Lib

/-! ## Texts of goals -/

def maxThreadGoalObjectiveChars : Nat := 4000

def maxThreadGoalTitleChars : Nat := 80

def maxThreadGoalTitleWords : Nat := 5

def splitWhitespace (value : Text) : List Text :=
  (value.splitOnP Text.isWhitespace).filter fun word => word ≠ []

/-- Bytes of the UTF-8 encoding. -/
def byteLength (value : Text) : Nat := (value.map Char.utf8Size).sum

def validateThreadGoalObjective (value : Text) : Except Text Unit :=
  if value = [] then .error "goal objective must not be empty".toList
  else if maxThreadGoalObjectiveChars < value.length then
    .error "goal objective must be at most 4000 characters".toList
  else .ok ()

def validateThreadGoalTitle (value : Text) : Except Text Unit :=
  let value := Text.trim value
  if value = [] then .error "goal title must not be empty".toList
  else if maxThreadGoalTitleChars < value.length then
    .error "goal title must be at most 80 characters".toList
  else if maxThreadGoalTitleWords < (splitWhitespace value).length then
    .error "goal title must be at most 5 words".toList
  else .ok ()

def normalizeThreadGoalTitle : Option Text → Except Text (Option Text)
  | some value => do
      let value := Text.trim value
      validateThreadGoalTitle value
      pure (some value)
  | none => pure none

/-! ## Budgets -/

/-- The budget is set and used up. -/
def budgetReached (tokensUsed : Int) (tokenBudget : Option Int) : Bool :=
  tokenBudget.any fun budget => budget ≤ tokensUsed

def statusAfterBudgetLimit (status : ThreadGoalStatus) (tokensUsed : Int)
    (tokenBudget : Option Int) : ThreadGoalStatus :=
  if status = .active ∧ budgetReached tokensUsed tokenBudget then .budgetLimited else status

/-- The `CASE` of the two updates that ask for a status: a finished goal keeps
its status, a goal over budget is not paused or blocked, and an active goal
becomes budget limited when `tokenBudget` is used up. -/
def requestedStatus (goal : ThreadGoal) (status : ThreadGoalStatus) (tokenBudget : Option Int) :
    ThreadGoalStatus :=
  if (goal.status = .complete ∨ goal.status = .cancelled) ∧ status ≠ goal.status then goal.status
  else if goal.status = .budgetLimited ∧ (status = .paused ∨ status = .blocked) then goal.status
  else statusAfterBudgetLimit status goal.tokensUsed tokenBudget

/-! ## Creating and replacing goals -/

/-- A goal that has not been charged yet. -/
def freshThreadGoal (threadId : ThreadId) (goalId objective : Text) (title : Option Text)
    (status : ThreadGoalStatus) (tokenBudget : Option Int) (nowMs : Int) : ThreadGoal where
  threadId := threadId
  goalId := goalId
  objective := objective
  title := title
  status := statusAfterBudgetLimit status 0 tokenBudget
  tokenBudget := tokenBudget
  tokensUsed := 0
  timeUsedSeconds := 0
  linesAdded := 0
  linesDeleted := 0
  createdAtMs := nowMs
  updatedAtMs := nowMs

/-- Block the nodes that are projected to a goal which is about to go. -/
def blockProjectedGoalPlanNodesInTx (threadId : ThreadId) (projectedGoalId : Text) (nowMs : Int) :
    Tx (List ThreadGoalPlanSnapshot) := do
  let matching := fun node : ThreadGoalPlanNodeRow =>
    node.assignedThreadId = threadId && node.projectedGoalId = some projectedGoalId &&
      node.status.reserves
  let planIds ← Exec.gets fun db => Table.distinctBy (·.planId) (db.nodes.filter matching)
  Exec.modify (Db.updateNodes matching fun node =>
    { node with status := .blocked, updatedAtMs := nowMs })
  recalculateGoalPlans nowMs planIds

/-- Block what is projected to the thread's current goal, if it has one. -/
def blockNodesOfCurrentGoal (threadId : ThreadId) (nowMs : Int) :
    Tx (List ThreadGoalPlanSnapshot) := do
  match (← Exec.gets fun db => db.threadGoal? threadId) with
  | some previous => blockProjectedGoalPlanNodesInTx threadId previous.goalId nowMs
  | none => pure []

section

variable (redactStateString : Text → Text)

def replaceThreadGoalWithTitle (threadId : ThreadId) (objective : Text) (title : Option Text)
    (status : ThreadGoalStatus) (tokenBudget : Option Int) (goalId : Text) (nowMs : Int) :
    Tx ThreadGoal := do
  let title ← ofResult (normalizeThreadGoalTitle (title.map redactStateString))
  let goal := freshThreadGoal threadId goalId (redactStateString objective) title status
    tokenBudget nowMs
  let _ ← blockNodesOfCurrentGoal threadId nowMs
  Exec.modify (Db.deleteBlockerAudits fun audit => audit.threadId = threadId)
  Exec.modify (Db.upsertThreadGoal goal)
  pure goal

/-- `ON CONFLICT(thread_id) DO NOTHING`. -/
def insertThreadGoalWithTitle (threadId : ThreadId) (objective : Text) (title : Option Text)
    (status : ThreadGoalStatus) (tokenBudget : Option Int) (goalId : Text) (nowMs : Int) :
    Tx (Option ThreadGoal) := do
  let title ← ofResult (normalizeThreadGoalTitle (title.map redactStateString))
  let goal := freshThreadGoal threadId goalId (redactStateString objective) title status
    tokenBudget nowMs
  match (← Exec.gets fun db => db.threadGoal? threadId) with
  | some _ => pure none
  | none =>
      Exec.modify fun db => { db with threadGoals := db.threadGoals ++ [goal] }
      pure (some goal)

/-! ## Updating goals -/

structure GoalUpdate where
  objective : Option Text
  title : Option (Option Text)
  status : Option ThreadGoalStatus
  tokenBudget : Option (Option Int)
  expectedGoalId : Option Text
  deriving DecidableEq, Repr

/-- Run an update of the thread's goal and return the goal it left, if any row
was updated. -/
def updateThreadGoalWhere (threadId : ThreadId) (p : ThreadGoal → Bool)
    (f : ThreadGoal → ThreadGoal) : Tx (Option ThreadGoal) := do
  let found ← Exec.gets fun db => db.threadGoals.any fun goal => goal.threadId = threadId && p goal
  Exec.modify (Db.updateThreadGoals (fun goal => goal.threadId = threadId && p goal) f)
  if found then Exec.gets fun db => db.threadGoal? threadId else pure none

/-- The row after the update.  Without a status and without a budget only the
texts change. -/
def GoalUpdate.apply (update : GoalUpdate) (objective : Option Text) (title : Option Text)
    (nowMs : Int) (goal : ThreadGoal) : ThreadGoal :=
  let retitled := { goal with
    objective := objective.getD goal.objective
    title := if update.title.isSome then title else goal.title
    updatedAtMs := nowMs }
  match update.status, update.tokenBudget with
  | some status, some tokenBudget =>
      { retitled with status := requestedStatus goal status tokenBudget, tokenBudget }
  | some status, none =>
      { retitled with status := requestedStatus goal status goal.tokenBudget }
  | none, some tokenBudget =>
      { retitled with
        status := statusAfterBudgetLimit goal.status goal.tokensUsed tokenBudget
        tokenBudget }
  | none, none => retitled

/-- An update that mentions no column writes nothing. -/
def GoalUpdate.writes (update : GoalUpdate) : Bool :=
  update.status.isSome || update.tokenBudget.isSome || update.objective.isSome ||
    update.title.isSome

def updateThreadGoal (threadId : ThreadId) (update : GoalUpdate) (nowMs : Int) :
    Tx (Option ThreadGoal) := do
  let objective := update.objective.map redactStateString
  let title ← ofResult (normalizeThreadGoalTitle (update.title.join.map redactStateString))
  let expected := fun goal : ThreadGoal =>
    decide (update.expectedGoalId = none) || decide (update.expectedGoalId = some goal.goalId)
  if update.writes then
    updateThreadGoalWhere threadId expected (update.apply objective title nowMs)
  else
    Exec.gets fun db => (db.threadGoal? threadId).filter expected

end

def updateActiveThreadGoalStatus (threadId : ThreadId) (status : ThreadGoalStatus) (nowMs : Int) :
    Tx (Option ThreadGoal) :=
  updateThreadGoalWhere threadId
    (fun goal => goal.status = .active ||
      (status = .usageLimited && goal.status = .budgetLimited))
    fun goal => { goal with status, updatedAtMs := nowMs }

def pauseActiveThreadGoal (threadId : ThreadId) (nowMs : Int) : Tx (Option ThreadGoal) :=
  updateActiveThreadGoalStatus threadId .paused nowMs

def usageLimitActiveThreadGoal (threadId : ThreadId) (nowMs : Int) : Tx (Option ThreadGoal) :=
  updateActiveThreadGoalStatus threadId .usageLimited nowMs

structure GoalDeleteOutcome where
  deleted : Bool
  planUpdates : List ThreadGoalPlanSnapshot
  deriving DecidableEq, Repr

def deleteThreadGoalWithPlanUpdates (threadId : ThreadId) (nowMs : Int) :
    Tx GoalDeleteOutcome := do
  let planUpdates ← blockNodesOfCurrentGoal threadId nowMs
  let deleted ← Exec.gets fun db => db.threadGoals.any fun goal => goal.threadId = threadId
  Exec.modify (Db.deleteThreadGoals fun goal => goal.threadId = threadId)
  pure { deleted, planUpdates }

/-! ## Charging usage -/

inductive GoalAccountingMode
  | activeStatusOnly
  | activeOnly
  | activeOrComplete
  | activeOrStopped
  deriving DecidableEq, Repr

def ThreadGoalStatus.isActiveOrStopped (status : ThreadGoalStatus) : Bool :=
  status = .active || status = .paused || status = .blocked || status = .usageLimited ||
    status = .budgetLimited || status = .deferred

/-- The goals that usage is charged to. -/
def GoalAccountingMode.charges : GoalAccountingMode → ThreadGoalStatus → Bool
  | .activeStatusOnly, status => status = .active
  | .activeOnly, status => status = .active || status = .budgetLimited
  | .activeOrComplete, status =>
      status = .active || status = .budgetLimited || status = .complete
  | .activeOrStopped, status => status.isActiveOrStopped

/-- The goals that become budget limited once they are charged their budget. -/
def GoalAccountingMode.limits : GoalAccountingMode → ThreadGoalStatus → Bool
  | .activeOrStopped, status => status.isActiveOrStopped
  | _, status => status = .active

inductive GoalAccountingOutcome
  | unchanged (goal : Option ThreadGoal)
  | updated (goal : ThreadGoal)
  deriving DecidableEq, Repr

def chargedGoal (timeDeltaSeconds tokenDelta : Int)
    (lineChanges : Option ThreadGoalLineChangeStats) (mode : GoalAccountingMode) (nowMs : Int)
    (goal : ThreadGoal) : ThreadGoal :=
  { goal with
    timeUsedSeconds := goal.timeUsedSeconds + timeDeltaSeconds
    tokensUsed := goal.tokensUsed + tokenDelta
    linesAdded := match lineChanges with
      | some stats => max 0 (goal.linesAdded + stats.linesAdded)
      | none => goal.linesAdded
    linesDeleted := match lineChanges with
      | some stats => max 0 (goal.linesDeleted + stats.linesDeleted)
      | none => goal.linesDeleted
    status :=
      if mode.limits goal.status ∧ budgetReached (goal.tokensUsed + tokenDelta) goal.tokenBudget
      then .budgetLimited else goal.status
    updatedAtMs := nowMs }

/-- Adds usage deltas to the current goal. -/
def accountThreadGoalUsage (threadId : ThreadId) (timeDeltaSeconds tokenDelta : Int)
    (lineChanges : Option ThreadGoalLineChangeStats) (mode : GoalAccountingMode)
    (expectedGoalId : Option Text) (nowMs : Int) : Tx GoalAccountingOutcome := do
  let timeDeltaSeconds := max timeDeltaSeconds 0
  let tokenDelta := max tokenDelta 0
  let lineChanges := lineChanges.filter fun stats =>
    stats.linesAdded ≠ 0 || stats.linesDeleted ≠ 0
  if timeDeltaSeconds = 0 ∧ tokenDelta = 0 ∧ lineChanges = none then
    return .unchanged (← Exec.gets fun db => db.threadGoal? threadId)
  let updated ← updateThreadGoalWhere threadId
    (fun goal => mode.charges goal.status &&
      (expectedGoalId = none || expectedGoalId = some goal.goalId))
    (chargedGoal timeDeltaSeconds tokenDelta lineChanges mode nowMs)
  match updated with
  | some goal => pure (.updated goal)
  | none => pure (.unchanged (← Exec.gets fun db => db.threadGoal? threadId))

/-! ## Blocker audits -/

def validateGoalBlockerFingerprint (fingerprint : Text) : Except Text Unit :=
  if "codex_err:".toList <+: fingerprint ∧ byteLength fingerprint ≤ 256 ∧
      fingerprint.all (fun c => c.isLower || c.isDigit || c = '_' || c = ':') then .ok ()
  else .error "goal blocker fingerprint must be a canonical host error classification".toList

def validateGoalBlockerTurnId (turnId : Text) : Except Text Unit :=
  if turnId = [] ∨ 256 < byteLength turnId then
    .error "goal blocker turn id must be between 1 and 256 bytes".toList
  else .ok ()

inductive GoalBlockerAuditOutcome
  | unchanged (goal : Option ThreadGoal)
  | updated (goal : ThreadGoal) (consecutiveTurns : Int)
  deriving DecidableEq, Repr

/-- The audit that an observation leaves: the same turn again changes nothing,
another turn with the same fingerprint continues the streak, and everything
else starts a new one. -/
def observedAudit (threadId : ThreadId) (goalId turnId fingerprint : Text)
    (requiredConsecutiveTurns : Int) (nowMs : Int) (turnAlreadyObserved : Bool) :
    Option ThreadGoalBlockerAudit → ThreadGoalBlockerAudit
  | some audit =>
      if audit.goalId = goalId ∧ turnAlreadyObserved then { audit with updatedAtMs := nowMs }
      else if audit.goalId = goalId ∧ audit.fingerprint = fingerprint then
        { audit with
          lastTurnId := turnId
          consecutiveTurns := min (audit.consecutiveTurns + 1) requiredConsecutiveTurns
          updatedAtMs := nowMs }
      else ⟨threadId, goalId, fingerprint, turnId, turnId, 1, nowMs, nowMs⟩
  | none => ⟨threadId, goalId, fingerprint, turnId, turnId, 1, nowMs, nowMs⟩

/-- `INSERT INTO thread_goal_blocker_audits … ON CONFLICT(thread_id) DO UPDATE`. -/
def Db.upsertBlockerAudit (audit : ThreadGoalBlockerAudit) (db : Db) : Db :=
  if db.blockerAudits.any fun old => old.threadId = audit.threadId then
    { db with
      blockerAudits := Table.updateWhere (fun old => old.threadId = audit.threadId)
        (fun _ => audit) db.blockerAudits }
  else { db with blockerAudits := db.blockerAudits ++ [audit] }

def Db.deleteBlockerAuditTurns (p : ThreadGoalBlockerAuditTurn → Bool) (db : Db) : Db :=
  { db with blockerAuditTurns := Table.deleteWhere p db.blockerAuditTurns }

/-- `INSERT INTO thread_goal_blocker_audit_turns`. -/
def insertBlockerAuditTurn (turn : ThreadGoalBlockerAuditTurn) : Tx Unit := do
  if (← Exec.gets fun db => db.blockerAuditTurns.any fun other =>
      other.threadId = turn.threadId ∧ other.goalId = turn.goalId ∧
        other.turnId = turn.turnId) then
    Exec.fail .constraintViolated
  else Exec.modify fun db => { db with blockerAuditTurns := db.blockerAuditTurns ++ [turn] }

/-- Keep the audit and count the turn, or drop both once the goal is blocked. -/
def storeBlockerAudit (audit : ThreadGoalBlockerAudit) (status : ThreadGoalStatus)
    (turn : ThreadGoalBlockerAuditTurn) (turnAlreadyObserved : Bool) : Tx Unit :=
  if status = .active then do
    Exec.modify (Db.upsertBlockerAudit audit)
    Exec.onlyIf (¬turnAlreadyObserved) (insertBlockerAuditTurn turn)
  else
    Exec.modify (Db.deleteBlockerAudits fun row =>
      row.threadId = turn.threadId && row.goalId = turn.goalId)

/-- Record the observation of a blocker for a goal that is active. -/
def recordBlockerObservation (goal : ThreadGoal) (turnId fingerprint : Text)
    (requiredConsecutiveTurns : Int) (nowMs : Int) : Tx GoalBlockerAuditOutcome := do
  let threadId := goal.threadId
  let goalId := goal.goalId
  let stored ← Exec.gets fun db => db.blockerAudits.find? fun audit => audit.threadId = threadId
  -- An audit of another goal of the thread is dropped before it can be continued.
  Exec.onlyIf (stored.any fun audit => audit.goalId ≠ goalId)
    (Exec.modify (Db.deleteBlockerAudits fun audit => audit.threadId = threadId))
  let previous := stored.filter fun audit => audit.goalId = goalId
  let observedTurns ← Exec.gets fun db => db.blockerAuditTurns.filter fun turn =>
    turn.threadId = threadId && turn.goalId = goalId
  let preservesCurrentStreak := previous.any fun audit => audit.fingerprint = fingerprint
  let turnAlreadyObserved := preservesCurrentStreak &&
    observedTurns.any fun turn => turn.turnId = turnId
  Exec.onlyIf (¬preservesCurrentStreak)
    (Exec.modify (Db.deleteBlockerAuditTurns fun turn =>
      turn.threadId = threadId && turn.goalId = goalId))
  let audit := observedAudit threadId goalId turnId fingerprint requiredConsecutiveTurns nowMs
    turnAlreadyObserved previous
  let status : ThreadGoalStatus :=
    if requiredConsecutiveTurns ≤ audit.consecutiveTurns then .blocked else .active
  Exec.modify (Db.updateThreadGoals
    (fun row => row.threadId = threadId && row.goalId = goalId && row.status = .active)
    fun row => { row with status, updatedAtMs := nowMs })
  storeBlockerAudit audit status ⟨threadId, goalId, turnId, nowMs⟩ turnAlreadyObserved
  pure (.updated { goal with status, updatedAtMs := nowMs } audit.consecutiveTurns)

def observeActiveThreadGoalBlocker (threadId : ThreadId) (expectedGoalId turnId fingerprint : Text)
    (requiredConsecutiveTurns : Nat) (nowMs : Int) : Tx GoalBlockerAuditOutcome := do
  ofResult (validateGoalBlockerFingerprint fingerprint)
  ofResult (validateGoalBlockerTurnId turnId)
  ensure (requiredConsecutiveTurns ≠ 0 ∧ requiredConsecutiveTurns ≤ 3)
    "required consecutive blocker turns must be between 1 and 3".toList
  match (← Exec.gets fun db => db.threadGoal? threadId) with
  | none => pure (.unchanged none)
  | some goal =>
      if goal.goalId = expectedGoalId ∧ goal.status = .active then
        recordBlockerObservation goal turnId fingerprint requiredConsecutiveTurns nowMs
      else pure (.unchanged (some goal))

def clearThreadGoalBlockerAudit (threadId : ThreadId) : Tx Bool := do
  let found ← Exec.gets fun db => db.blockerAudits.any fun audit => audit.threadId = threadId
  Exec.modify (Db.deleteBlockerAudits fun audit => audit.threadId = threadId)
  pure found

def clearThreadGoalBlockerAuditForGoal (threadId : ThreadId) (goalId : Text) : Tx Bool := do
  let matching := fun audit : ThreadGoalBlockerAudit =>
    audit.threadId = threadId && audit.goalId = goalId
  let found ← Exec.gets fun db => db.blockerAudits.any matching
  Exec.modify (Db.deleteBlockerAudits matching)
  pure found

end Codewith.GoalStore
