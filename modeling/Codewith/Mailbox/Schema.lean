import Codewith.ScheduleStore.Schema

/-!
# The tables of the thread mailbox

The rows of messages, delivery attempts, receipts, dead letters and target leases, with their
constraints.  The lease of a message is one value, since the table allows its columns only
together.  The digest of a payload and the payloads of receipts are left out: nothing reads
them.
-/

namespace Codewith.Mailbox

open Lib
open GoalStore (ThreadId textLe)
open ScheduleStore (hasText)

inductive MailboxMessageKind
  | userInstruction
  | userReply
  | control
  deriving DecidableEq, Repr

inductive MailboxMessageStatus
  | queued
  | claimed
  | acknowledged
  | failed
  | poisoned
  | expired
  | canceled
  deriving DecidableEq, Repr

inductive MailboxDeliveryAttemptStatus
  | claimed
  | acknowledged
  | failed
  | expired
  deriving DecidableEq, Repr

inductive MailboxReceiptKind
  | enqueued
  | claimed
  | acknowledged
  | failed
  | poisoned
  | canceled
  | expired
  | leaseExpired
  deriving DecidableEq, Repr

/-- A payload with the values at the paths that the dispatcher reads. -/
structure MailboxPayload where
  json : Text
  delivery : Option Text := none
  deliveryMode : Option Text := none
  localDelivery : Option Text := none
  dispatchMode : Option Text := none
  deriving DecidableEq, Repr

/-- `lease_id`, `lease_owner` and `lease_expires_at_ms`. -/
structure MailboxLease where
  id : Text
  owner : Text
  expiresAtMs : Int
  deriving DecidableEq, Repr

structure MailboxMessage where
  messageId : Text
  targetThreadId : ThreadId
  senderThreadId : Option ThreadId
  senderLabel : Option Text
  idempotencyKey : Option Text
  kind : MailboxMessageKind
  status : MailboxMessageStatus
  payload : MailboxPayload
  payloadPreview : Text
  priority : Int
  attemptCount : Int := 0
  maxAttempts : Int
  nextAttemptAtMs : Int
  lease : Option MailboxLease := none
  lastAttemptId : Option Text := none
  lastError : Option Text := none
  expiresAtMs : Option Int
  acknowledgedAtMs : Option Int := none
  terminalAtMs : Option Int := none
  createdAtMs : Int
  updatedAtMs : Int
  deriving DecidableEq, Repr

structure MailboxDeliveryAttempt where
  attemptId : Text
  messageId : Text
  leaseId : Text
  leaseOwner : Text
  attemptNumber : Int
  status : MailboxDeliveryAttemptStatus
  claimedAtMs : Int
  leaseExpiresAtMs : Int
  completedAtMs : Option Int := none
  error : Option Text := none
  deriving DecidableEq, Repr

structure MailboxReceipt where
  messageId : Text
  attemptId : Option Text
  threadId : ThreadId
  kind : MailboxReceiptKind
  statusAfter : MailboxMessageStatus
  createdAtMs : Int
  deriving DecidableEq, Repr

structure MailboxDeadLetter where
  messageId : Text
  failedAttemptId : Text
  reason : Text
  createdAtMs : Int
  deriving DecidableEq, Repr

structure MailboxTargetLease where
  targetThreadId : ThreadId
  ownerId : Text
  leaseId : Text
  leaseExpiresAtMs : Int
  createdAtMs : Int
  updatedAtMs : Int
  deriving DecidableEq, Repr

structure Db where
  threads : List ThreadId
  messages : List MailboxMessage := []
  attempts : List MailboxDeliveryAttempt := []
  receipts : List MailboxReceipt := []
  deadLetters : List MailboxDeadLetter := []
  targetLeases : List MailboxTargetLease := []
  deriving DecidableEq, Repr

abbrev Tx (A : Type) := Exec Db StoreError A

/-! ## Constraints -/

def MailboxMessage.passesChecks (row : MailboxMessage) : Bool :=
  row.idempotencyKey.all hasText && 0 ≤ row.attemptCount && 1 ≤ row.maxAttempts &&
    row.attemptCount ≤ row.maxAttempts && row.acknowledgedAtMs.all (row.createdAtMs ≤ ·) &&
    row.terminalAtMs.all (row.createdAtMs ≤ ·) && row.expiresAtMs.all (row.createdAtMs ≤ ·)

def MailboxDeliveryAttempt.passesChecks (row : MailboxDeliveryAttempt) : Bool :=
  hasText row.leaseId && hasText row.leaseOwner && 1 ≤ row.attemptNumber &&
    row.claimedAtMs < row.leaseExpiresAtMs && row.completedAtMs.all (row.claimedAtMs ≤ ·)

def MailboxTargetLease.passesChecks (row : MailboxTargetLease) : Bool :=
  hasText row.ownerId && hasText row.leaseId && row.createdAtMs < row.leaseExpiresAtMs &&
    row.createdAtMs ≤ row.updatedAtMs

/-- Whether a message would break a key. -/
def Db.hasConflict (db : Db) (row : MailboxMessage) : Bool :=
  db.messages.any fun message =>
    message.messageId = row.messageId ||
      message.targetThreadId = row.targetThreadId && row.idempotencyKey.isSome &&
        message.idempotencyKey = row.idempotencyKey

/-! ## Statements -/

def Db.message? (db : Db) (messageId : Text) : Option MailboxMessage :=
  db.messages.find? fun message => message.messageId = messageId

/-- `INSERT OR IGNORE`: a row that breaks a key or a check is not inserted, and a thread that
does not exist is an error. -/
def insertMessageOrIgnore (row : MailboxMessage) : Tx Bool := do
  let conflict ← Exec.gets fun db => db.hasConflict row
  if conflict || !row.passesChecks then pure false
  else do
    let threads ← Exec.gets Db.threads
    Store.constrain (row.targetThreadId ∈ threads ∧ ∀ sender ∈ row.senderThreadId, sender ∈ threads)
    Exec.modify fun db => { db with messages := db.messages ++ [row] }
    pure true

/-- `UPDATE … RETURNING` on the message with the given id. -/
def updateMessage (messageId : Text) (p : MailboxMessage → Bool)
    (f : MailboxMessage → MailboxMessage) : Tx (Option MailboxMessage) := do
  let rows ← Exec.gets fun db =>
    db.messages.filter fun message => message.messageId = messageId && p message
  Store.constrain (∀ message ∈ rows, (f message).passesChecks = true)
  Exec.modify fun db =>
    { db with
      messages := Table.updateWhere (fun message => message.messageId = messageId && p message) f
        db.messages }
  pure (rows.head?.map f)

def updateAttempts (p : MailboxDeliveryAttempt → Bool)
    (f : MailboxDeliveryAttempt → MailboxDeliveryAttempt) : Tx Unit := do
  let rows ← Exec.gets fun db => db.attempts.filter p
  Store.constrain (∀ attempt ∈ rows, (f attempt).passesChecks = true)
  Exec.modify fun db => { db with attempts := Table.updateWhere p f db.attempts }

def insertAttempt (row : MailboxDeliveryAttempt) : Tx Unit := do
  Store.constrain (row.passesChecks = true)
  let db ← Exec.gets id
  Store.constrain (∀ attempt ∈ db.attempts, attempt.attemptId ≠ row.attemptId ∧
    attempt.leaseId ≠ row.leaseId ∧
      (attempt.messageId = row.messageId → attempt.attemptNumber ≠ row.attemptNumber))
  Store.constrain ((db.message? row.messageId).isSome)
  Exec.modify fun db => { db with attempts := db.attempts ++ [row] }

/-- The message and the attempt that a receipt refers to exist. -/
def insertMailboxReceipt (message : MailboxMessage) (attemptId : Option Text)
    (kind : MailboxReceiptKind) (nowMs : Int) : Tx Unit := do
  let db ← Exec.gets id
  Store.constrain ((db.message? message.messageId).isSome ∧
    ∀ id ∈ attemptId, ∃ attempt ∈ db.attempts, attempt.attemptId = id)
  Exec.modify fun db =>
    { db with
      receipts := db.receipts ++
        [⟨message.messageId, attemptId, message.targetThreadId, kind, message.status, nowMs⟩] }

/-- `INSERT OR REPLACE`: a message has one dead letter at most. -/
def insertMailboxDeadLetter (redactStateString : Text → Text) (messageId attemptId reason : Text)
    (nowMs : Int) : Tx Unit := do
  let db ← Exec.gets id
  Store.constrain (hasText (redactStateString reason) = true)
  Store.constrain ((db.message? messageId).isSome ∧
    ∃ attempt ∈ db.attempts, attempt.attemptId = attemptId)
  Exec.modify fun db =>
    { db with
      deadLetters :=
        Table.deleteWhere (fun letter => letter.messageId = messageId) db.deadLetters ++
        [⟨messageId, attemptId, redactStateString reason, nowMs⟩] }

end Codewith.Mailbox
