import Codewith.Mailbox.Schema

/-!
# The mailbox store

The operations of `mailbox.rs`.  Each is one transaction; identifiers and clocks are inputs, as
are the sessions that are active, which other code keeps.

A claim first takes back the leases that have expired and ends the messages that are due, then
claims the next message for a thread, or for any thread that no other owner serves.
-/

namespace Codewith.Mailbox

open Lib
open GoalStore (ThreadId textLe)

section

variable (redactStateString : Text → Text)

/-! ## Enqueueing -/

/-- The payload is the redacted one. -/
structure MailboxEnqueueParams where
  targetThreadId : ThreadId
  senderThreadId : Option ThreadId
  senderLabel : Option Text
  idempotencyKey : Option Text
  kind : MailboxMessageKind
  payload : MailboxPayload
  payloadPreview : Text
  priority : Int
  maxAttempts : Int
  nextAttemptAtMs : Option Int
  expiresAtMs : Option Int
  deriving DecidableEq, Repr

structure MailboxEnqueueOutcome where
  message : MailboxMessage
  created : Bool
  deriving DecidableEq, Repr

def enqueuedMessage (params : MailboxEnqueueParams) (messageId : Text) (nowMs : Int) :
    MailboxMessage :=
  { messageId
    targetThreadId := params.targetThreadId
    senderThreadId := params.senderThreadId
    senderLabel := params.senderLabel.map redactStateString
    idempotencyKey := params.idempotencyKey.map redactStateString
    kind := params.kind
    status := .queued
    payload := params.payload
    payloadPreview := redactStateString params.payloadPreview
    priority := params.priority
    maxAttempts := params.maxAttempts
    nextAttemptAtMs := params.nextAttemptAtMs.getD nowMs
    expiresAtMs := params.expiresAtMs
    createdAtMs := nowMs
    updatedAtMs := nowMs }

/-- The message that an ignored row stands for. -/
def idempotentMessage (targetThreadId : ThreadId) (idempotencyKey : Option Text) :
    Tx MailboxMessage :=
  match idempotencyKey with
  | none => Store.bail "mailbox insert was ignored without an idempotency key".toList
  | some key => do
      match (← Exec.gets fun db => db.messages.find? fun message =>
          message.targetThreadId = targetThreadId && message.idempotencyKey = some key) with
      | none => Store.bail "mailbox insert was ignored but no idempotent row exists".toList
      | some message => pure message

def enqueueMessage (params : MailboxEnqueueParams) (messageId : Text) (nowMs : Int) :
    Tx MailboxEnqueueOutcome := do
  let message := enqueuedMessage redactStateString params messageId nowMs
  let inserted ← insertMessageOrIgnore message
  if inserted then do
    insertMailboxReceipt message none .enqueued nowMs
    pure ⟨message, true⟩
  else do
    let existing ← idempotentMessage params.targetThreadId message.idempotencyKey
    pure ⟨existing, false⟩

/-! ## Taking back and ending -/

def leaseExpiredError : Text := "lease expired".toList

/-- `attempt_count >= max_attempts` poisons a message that failed. -/
def MailboxMessage.statusAfterFailure (message : MailboxMessage) : MailboxMessageStatus :=
  if message.maxAttempts ≤ message.attemptCount then .poisoned else .queued

def expiredAttempt (nowMs : Int) (attempt : MailboxDeliveryAttempt) : MailboxDeliveryAttempt :=
  { attempt with
    status := .expired
    completedAtMs := some nowMs
    error := some (attempt.error.getD leaseExpiredError) }

def expiredClaim (status : MailboxMessageStatus) (nowMs : Int) (message : MailboxMessage) :
    MailboxMessage :=
  { message with
    status
    lease := none
    lastError := some (message.lastError.getD leaseExpiredError)
    terminalAtMs := if status = .poisoned then some nowMs else none
    updatedAtMs := nowMs }

def updateExpiredClaim (message : MailboxMessage) (nowMs : Int) : Tx MailboxMessage := do
  match (← updateMessage message.messageId (fun _ => true)
      (expiredClaim message.statusAfterFailure nowMs)) with
  | some message => pure message
  | none => Exec.fail .rowNotFound

/-- What becomes of the attempt of a claim that has expired. -/
def expireAttempt (lastAttemptId : Option Text) (nowMs : Int) : Tx Unit :=
  match lastAttemptId with
  | some attemptId =>
      updateAttempts (fun attempt => attempt.attemptId = attemptId && attempt.status = .claimed)
        (expiredAttempt nowMs)
  | none => pure ()

def poisonedAfterExpiryReason : Text := "lease expired after max attempts".toList

def recordExpiredClaim (message : MailboxMessage) (nowMs : Int) : Tx Unit := do
  if message.status = .poisoned then do
    match message.lastAttemptId with
    | some attemptId =>
        insertMailboxDeadLetter redactStateString message.messageId attemptId
          poisonedAfterExpiryReason nowMs
    | none => pure ()
    insertMailboxReceipt message message.lastAttemptId .poisoned nowMs
  else insertMailboxReceipt message message.lastAttemptId .leaseExpired nowMs

def expireClaim (nowMs : Int) (message : MailboxMessage) : Tx Unit := do
  expireAttempt message.lastAttemptId nowMs
  let message ← updateExpiredClaim message nowMs
  recordExpiredClaim redactStateString message nowMs

/-- `status = 'claimed' AND lease_expires_at_ms <= now`. -/
def MailboxMessage.hasStaleLease (nowMs : Int) (message : MailboxMessage) : Bool :=
  message.status = .claimed && message.lease.any (·.expiresAtMs ≤ nowMs)

def expireStaleMailboxLeases (nowMs : Int) : Tx Unit := do
  let rows ← Exec.gets fun db => db.messages.filter (MailboxMessage.hasStaleLease nowMs)
  Exec.forEach (expireClaim redactStateString nowMs) rows

def expiredMessage (nowMs : Int) (message : MailboxMessage) : MailboxMessage :=
  { message with status := .expired, terminalAtMs := some nowMs, updatedAtMs := nowMs }

def expireMessage (nowMs : Int) (message : MailboxMessage) : Tx Unit := do
  match (← updateMessage message.messageId (fun message => message.status = .queued)
      (expiredMessage nowMs)) with
  | some message => insertMailboxReceipt message none .expired nowMs
  | none => pure ()

/-- `status = 'queued' AND expires_at_ms IS NOT NULL AND expires_at_ms <= now`. -/
def MailboxMessage.isDueToExpire (nowMs : Int) (message : MailboxMessage) : Bool :=
  message.status = .queued && message.expiresAtMs.any (· ≤ nowMs)

def expireDueMessages (nowMs : Int) : Tx Unit := do
  let rows ← Exec.gets fun db => db.messages.filter (MailboxMessage.isDueToExpire nowMs)
  Exec.forEach (expireMessage nowMs) rows

/-! ## Claiming -/

structure LocalActiveSession where
  threadId : ThreadId
  ownerId : Text
  lastSeenAtMs : Int
  deriving DecidableEq, Repr

inductive MailboxClaimScope
  | target (threadId : ThreadId)
  | dispatch (localActiveOwnerId : Text) (localActiveFreshAfterMs : Int)
  deriving DecidableEq, Repr

def liveDeliveryModes : List Text :=
  ["liveOnly".toList, "live_only".toList, "resumeAndTrigger".toList, "resume_and_trigger".toList]

def MailboxPayload.isLive (payload : MailboxPayload) : Bool :=
  [payload.delivery, payload.deliveryMode, payload.localDelivery, payload.dispatchMode].any
    fun mode => mode.any (· ∈ liveDeliveryModes)

/-- A message that can be claimed by anyone who serves its thread. -/
def MailboxMessage.isClaimable (nowMs : Int) (message : MailboxMessage) : Bool :=
  message.status = .queued && message.nextAttemptAtMs ≤ nowMs &&
    message.expiresAtMs.all (nowMs < ·) && message.attemptCount < message.maxAttempts

def MailboxClaimScope.selects (scope : MailboxClaimScope) (sessions : List LocalActiveSession)
    (targetLeases : List MailboxTargetLease) (nowMs : Int) (message : MailboxMessage) : Bool :=
  match scope with
  | .target threadId => message.targetThreadId = threadId
  | .dispatch ownerId freshAfterMs =>
      message.payload.isLive &&
        (!sessions.any fun session => session.threadId = message.targetThreadId &&
          session.ownerId ≠ ownerId && freshAfterMs ≤ session.lastSeenAtMs) &&
        !targetLeases.any fun lease => lease.targetThreadId = message.targetThreadId &&
          lease.ownerId ≠ ownerId && nowMs < lease.leaseExpiresAtMs

/-- `ORDER BY priority DESC, next_attempt_at_ms, created_at_ms, message_id`. -/
def claimsBefore (a b : MailboxMessage) : Prop :=
  b.priority < a.priority ∨ a.priority = b.priority ∧
    (a.nextAttemptAtMs < b.nextAttemptAtMs ∨ a.nextAttemptAtMs = b.nextAttemptAtMs ∧
      (a.createdAtMs < b.createdAtMs ∨ a.createdAtMs = b.createdAtMs ∧
        textLe a.messageId b.messageId = true))

instance : DecidableRel claimsBefore := fun _ _ => inferInstanceAs (Decidable (_ ∨ _))

def Db.nextMessage (db : Db) (scope : MailboxClaimScope) (sessions : List LocalActiveSession)
    (nowMs : Int) : Option MailboxMessage :=
  (Table.selectOrdered
    (fun message => message.isClaimable nowMs &&
      scope.selects sessions db.targetLeases nowMs message)
    claimsBefore db.messages).head?

def claimedMessage (lease : MailboxLease) (attemptId : Text) (nowMs : Int)
    (message : MailboxMessage) : MailboxMessage :=
  { message with
    status := .claimed
    lease := some lease
    attemptCount := message.attemptCount + 1
    lastAttemptId := some attemptId
    updatedAtMs := nowMs }

def targetLeaseConflict (targetThreadId : ThreadId) : Text :=
  "mailbox target lease conflict for target thread ".toList ++ targetThreadId.uuid

def reserveMailboxTargetLease (targetThreadId : ThreadId) (ownerId leaseId : Text)
    (leaseExpiresAtMs nowMs : Int) : Tx Unit := do
  match (← Exec.gets fun db => db.targetLeases.find? fun lease =>
      lease.targetThreadId = targetThreadId) with
  | none =>
      let row : MailboxTargetLease :=
        ⟨targetThreadId, ownerId, leaseId, leaseExpiresAtMs, nowMs, nowMs⟩
      Store.constrain (row.passesChecks = true)
      Exec.modify fun db => { db with targetLeases := db.targetLeases ++ [row] }
  | some lease =>
      let row : MailboxTargetLease :=
        { lease with ownerId, leaseId, leaseExpiresAtMs, updatedAtMs := nowMs }
      Store.ensure (lease.ownerId = ownerId ∨ lease.leaseExpiresAtMs ≤ nowMs)
        (targetLeaseConflict targetThreadId)
      Store.constrain (row.passesChecks = true)
      Exec.modify fun db =>
        { db with
          targetLeases := Table.updateWhere (fun lease => lease.targetThreadId = targetThreadId)
            (fun _ => row) db.targetLeases }

structure MailboxClaim where
  message : MailboxMessage
  attempt : MailboxDeliveryAttempt
  deriving DecidableEq, Repr

/-- A claim of whatever message is next, with the identifiers it draws. -/
structure MailboxClaimParams where
  scope : MailboxClaimScope
  leaseOwner : Text
  leaseExpiresAtMs : Int
  nowMs : Int
  leaseId : Text
  attemptId : Text
  activeSessions : List LocalActiveSession := []
  deriving DecidableEq, Repr

def MailboxClaimParams.lease (params : MailboxClaimParams) : MailboxLease :=
  ⟨params.leaseId, params.leaseOwner, params.leaseExpiresAtMs⟩

def MailboxClaimParams.attempt (params : MailboxClaimParams) (message : MailboxMessage) :
    MailboxDeliveryAttempt :=
  { attemptId := params.attemptId
    messageId := message.messageId
    leaseId := params.leaseId
    leaseOwner := redactStateString params.leaseOwner
    attemptNumber := message.attemptCount
    status := .claimed
    claimedAtMs := params.nowMs
    leaseExpiresAtMs := params.leaseExpiresAtMs }

/-- Only the dispatcher keeps leases on the threads it serves. -/
def dropExpiredTargetLeases (params : MailboxClaimParams) : Tx Unit :=
  match params.scope with
  | .target _ => pure ()
  | .dispatch _ _ =>
      Exec.modify fun db =>
        { db with
          targetLeases :=
            Table.deleteWhere (fun lease => lease.leaseExpiresAtMs ≤ params.nowMs) db.targetLeases }

def reserveTargetFor (params : MailboxClaimParams) (message : MailboxMessage) : Tx Unit :=
  match params.scope with
  | .target _ => pure ()
  | .dispatch ownerId _ =>
      reserveMailboxTargetLease message.targetThreadId ownerId params.leaseId
        params.leaseExpiresAtMs params.nowMs

/-- Claim a message and open an attempt for it. -/
def claimMessage (params : MailboxClaimParams) (messageId : Text) : Tx (Option MailboxClaim) := do
  match (← updateMessage messageId (fun _ => true)
      (claimedMessage params.lease params.attemptId params.nowMs)) with
  | none => pure none
  | some message =>
      reserveTargetFor params message
      insertAttempt (params.attempt redactStateString message)
      insertMailboxReceipt message (some params.attemptId) .claimed params.nowMs
      pure (some ⟨message, params.attempt redactStateString message⟩)

def claimNextMessage (params : MailboxClaimParams) : Tx (Option MailboxClaim) := do
  expireStaleMailboxLeases redactStateString params.nowMs
  expireDueMessages params.nowMs
  dropExpiredTargetLeases params
  match (← Exec.gets fun db => db.nextMessage params.scope params.activeSessions params.nowMs) with
  | none => pure none
  | some message => claimMessage redactStateString params message.messageId

/-! ## Acknowledging and failing -/

/-- Undo everything unless there is a message to return. -/
def rollbackIfNone {A : Type} (m : Tx (Option A)) : Tx (Option A) := fun db =>
  match m db with
  | (.ok none, _) => (.ok none, db)
  | result => result

/-- What an acknowledgement or a failure refers to. -/
structure MailboxLeaseRef where
  messageId : Text
  attemptId : Text
  leaseId : Text
  deriving DecidableEq, Repr

def MailboxDeliveryAttempt.isFor (ref : MailboxLeaseRef) (attempt : MailboxDeliveryAttempt) :
    Bool :=
  attempt.messageId = ref.messageId && attempt.attemptId = ref.attemptId &&
    attempt.leaseId = ref.leaseId

def Db.attemptForLease (db : Db) (ref : MailboxLeaseRef) : Option MailboxDeliveryAttempt :=
  db.attempts.find? (MailboxDeliveryAttempt.isFor ref)

/-- `lease_id = ? AND status = 'claimed'`. -/
def MailboxMessage.isClaimedWith (leaseId : Text) (message : MailboxMessage) : Bool :=
  message.lease.any (·.id = leaseId) && message.status = .claimed

def closeAttempt (ref : MailboxLeaseRef)
    (f : MailboxDeliveryAttempt → MailboxDeliveryAttempt) : Tx Unit :=
  updateAttempts (fun attempt => attempt.isFor ref && attempt.status = .claimed) f

def acknowledgedMessage (nowMs : Int) (message : MailboxMessage) : MailboxMessage :=
  { message with
    status := .acknowledged
    lease := none
    acknowledgedAtMs := some nowMs
    terminalAtMs := some nowMs
    updatedAtMs := nowMs }

/-- Acknowledge the claim that the attempt is for. -/
def ackClaim (ref : MailboxLeaseRef) (nowMs : Int) : Tx (Option MailboxMessage) := do
  closeAttempt ref fun attempt =>
    { attempt with status := .acknowledged, completedAtMs := some nowMs }
  match (← updateMessage ref.messageId (MailboxMessage.isClaimedWith ref.leaseId)
      (acknowledgedMessage nowMs)) with
  | none => pure none
  | some message =>
      insertMailboxReceipt message (some ref.attemptId) .acknowledged nowMs
      pure (some message)

def ackMessage (ref : MailboxLeaseRef) (nowMs : Int) : Tx (Option MailboxMessage) :=
  rollbackIfNone do
    match (← Exec.gets fun db => db.attemptForLease ref) with
    | none => pure none
    | some attempt =>
        match attempt.status with
        | .acknowledged => Exec.gets fun db => db.message? ref.messageId
        | .claimed => ackClaim ref nowMs
        | .failed | .expired => pure none

inductive MailboxFailDisposition
  | retry (nextAttemptAtMs : Int)
  | terminal
  deriving DecidableEq, Repr

def failedForRetry (error : Text) (nextAttemptAtMs nowMs : Int) (message : MailboxMessage) :
    MailboxMessage :=
  { message with
    status := message.statusAfterFailure
    lease := none
    nextAttemptAtMs := nextAttemptAtMs
    lastError := some error
    terminalAtMs := if message.maxAttempts ≤ message.attemptCount then some nowMs else none
    updatedAtMs := nowMs }

def failedTerminal (error : Text) (nowMs : Int) (message : MailboxMessage) : MailboxMessage :=
  { message with
    status := .failed
    lease := none
    lastError := some error
    terminalAtMs := some nowMs
    updatedAtMs := nowMs }

def updateFailedClaim (ref : MailboxLeaseRef) (error : Text) (nowMs : Int) :
    MailboxFailDisposition → Tx (Option MailboxMessage)
  | .retry nextAttemptAtMs =>
      updateMessage ref.messageId (MailboxMessage.isClaimedWith ref.leaseId)
        (failedForRetry error nextAttemptAtMs nowMs)
  | .terminal =>
      updateMessage ref.messageId (MailboxMessage.isClaimedWith ref.leaseId)
        (failedTerminal error nowMs)

/-- The receipt of a failure; a poisoned message is put with the dead letters. -/
def recordFailure (ref : MailboxLeaseRef) (error : Text) (nowMs : Int) (message : MailboxMessage) :
    Tx (Option MailboxMessage) := do
  match message.status with
  | .poisoned =>
      insertMailboxDeadLetter redactStateString message.messageId ref.attemptId error nowMs
      insertMailboxReceipt message (some ref.attemptId) .poisoned nowMs
      pure (some message)
  | .failed | .queued =>
      insertMailboxReceipt message (some ref.attemptId) .failed nowMs
      pure (some message)
  | .claimed | .acknowledged | .expired | .canceled => pure none

def failClaim (ref : MailboxLeaseRef) (error : Text) (disposition : MailboxFailDisposition)
    (nowMs : Int) : Tx (Option MailboxMessage) := do
  closeAttempt ref fun attempt =>
    { attempt with
      status := .failed
      completedAtMs := some nowMs
      error := some (redactStateString error) }
  match (← updateFailedClaim ref (redactStateString (redactStateString error)) nowMs
      disposition) with
  | none => pure none
  | some message => recordFailure redactStateString ref error nowMs message

def failMessage (ref : MailboxLeaseRef) (error : Text) (disposition : MailboxFailDisposition)
    (nowMs : Int) : Tx (Option MailboxMessage) :=
  rollbackIfNone do
    match (← Exec.gets fun db => db.attemptForLease ref) with
    | none => pure none
    | some attempt =>
        match attempt.status with
        | .failed => Exec.gets fun db => db.message? ref.messageId
        | .claimed => failClaim redactStateString ref error disposition nowMs
        | .acknowledged | .expired => pure none

def releaseDispatchTargetLease (targetThreadId : ThreadId) (ownerId leaseId : Text) : Tx Unit :=
  Exec.modify fun db =>
    { db with
      targetLeases := Table.deleteWhere (fun lease => lease.targetThreadId = targetThreadId &&
        lease.ownerId = ownerId && lease.leaseId = leaseId) db.targetLeases }

/-! ## Runs -/

inductive Operation
  | enqueue (params : MailboxEnqueueParams) (messageId : Text) (nowMs : Int)
  | claim (params : MailboxClaimParams)
  | ack (ref : MailboxLeaseRef) (nowMs : Int)
  | fail (ref : MailboxLeaseRef) (error : Text) (disposition : MailboxFailDisposition) (nowMs : Int)
  | release (targetThreadId : ThreadId) (ownerId leaseId : Text)
  deriving DecidableEq, Repr

/-- The database after an operation; an operation that fails leaves it as it was. -/
def applyOperation (operation : Operation) (db : Db) : Db :=
  match operation with
  | .enqueue params messageId nowMs =>
      (Exec.transaction (enqueueMessage redactStateString params messageId nowMs) db).2
  | .claim params => (Exec.transaction (claimNextMessage redactStateString params) db).2
  | .ack ref nowMs => (Exec.transaction (ackMessage ref nowMs) db).2
  | .fail ref error disposition nowMs =>
      (Exec.transaction (failMessage redactStateString ref error disposition nowMs) db).2
  | .release targetThreadId ownerId leaseId =>
      (Exec.transaction (releaseDispatchTargetLease targetThreadId ownerId leaseId) db).2

end

end Codewith.Mailbox
