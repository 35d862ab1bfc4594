import Codewith.Mailbox.Store

/-!
# Delivery of mailbox messages

What holds of every message and its attempts, whatever workers do and whatever their clocks
say: a claim belongs to one attempt and one lease, the attempts are counted and limited, and
what has ended stays as it is.
-/

namespace Codewith.Mailbox

open Lib
open GoalStore (ThreadId)

/-! ## What the statements do -/

section Statements

variable {db db' : Db} {u : Unit}

/-- The messages and the attempts are the same. -/
structure SameMail (db db' : Db) : Prop where
  messages : db'.messages = db.messages
  attempts : db'.attempts = db.attempts

theorem SameMail.refl (db : Db) : SameMail db db := ⟨rfl, rfl⟩

theorem SameMail.trans {db₁ db₂ db₃ : Db} (h : SameMail db₁ db₂) (h' : SameMail db₂ db₃) :
    SameMail db₁ db₃ :=
  ⟨h'.messages.trans h.messages, h'.attempts.trans h.attempts⟩

theorem updateMessage_eq_ok {messageId : Text} {p : MailboxMessage → Bool}
    {f : MailboxMessage → MailboxMessage} {result : Option MailboxMessage}
    (h : updateMessage messageId p f db = (.ok result, db')) :
    result = ((db.messages.filter fun message =>
      message.messageId = messageId && p message).head?.map f) ∧ db' = { db with
        messages := Table.updateWhere (fun message => message.messageId = messageId && p message) f
          db.messages } := by
  simp only [updateMessage, Exec.bind_eq_ok, Exec.gets_eq_ok, Store.constrain_eq_ok,
    Exec.modify_eq_ok, Exec.pure_eq_ok] at h
  obtain ⟨rows, _, ⟨rfl, rfl⟩, _, _, ⟨-, rfl⟩, _, _, rfl, rfl, rfl⟩ := h
  exact ⟨rfl, rfl⟩

theorem updateAttempts_eq_ok {p : MailboxDeliveryAttempt → Bool}
    {f : MailboxDeliveryAttempt → MailboxDeliveryAttempt}
    (h : updateAttempts p f db = (.ok u, db')) :
    db' = { db with attempts := Table.updateWhere p f db.attempts } := by
  simp only [updateAttempts, Exec.bind_eq_ok, Exec.gets_eq_ok, Store.constrain_eq_ok,
    Exec.modify_eq_ok] at h
  obtain ⟨rows, _, ⟨rfl, rfl⟩, _, _, ⟨-, rfl⟩, rfl⟩ := h
  rfl

theorem insertAttempt_eq_ok {row : MailboxDeliveryAttempt}
    (h : insertAttempt row db = (.ok u, db')) :
    (∀ attempt ∈ db.attempts, attempt.attemptId ≠ row.attemptId) ∧
      (db.message? row.messageId).isSome ∧
        db' = { db with attempts := db.attempts ++ [row] } := by
  simp only [insertAttempt, Exec.bind_eq_ok, Exec.gets_eq_ok, Store.constrain_eq_ok,
    Exec.modify_eq_ok, id_eq] at h
  obtain ⟨_, _, ⟨-, rfl⟩, _, _, ⟨rfl, rfl⟩, _, _, ⟨hkeys, rfl⟩, _, _, ⟨hmessage, rfl⟩, rfl⟩ := h
  exact ⟨fun attempt hattempt => (hkeys attempt hattempt).1, hmessage, rfl⟩

theorem insertMailboxReceipt_sameMail {message : MailboxMessage} {attemptId : Option Text}
    {kind : MailboxReceiptKind} {nowMs : Int}
    (h : insertMailboxReceipt message attemptId kind nowMs db = (.ok u, db')) :
    SameMail db db' := by
  simp only [insertMailboxReceipt, Exec.bind_eq_ok, Exec.gets_eq_ok, Store.constrain_eq_ok,
    Exec.modify_eq_ok, id_eq] at h
  obtain ⟨_, _, ⟨rfl, rfl⟩, _, _, ⟨-, rfl⟩, rfl⟩ := h
  exact ⟨rfl, rfl⟩

theorem insertMailboxDeadLetter_sameMail {redactStateString : Text → Text}
    {messageId attemptId reason : Text} {nowMs : Int}
    (h : insertMailboxDeadLetter redactStateString messageId attemptId reason nowMs db =
      (.ok u, db')) : SameMail db db' := by
  simp only [insertMailboxDeadLetter, Exec.bind_eq_ok, Exec.gets_eq_ok, Store.constrain_eq_ok,
    Exec.modify_eq_ok, id_eq] at h
  obtain ⟨_, _, ⟨rfl, rfl⟩, _, _, ⟨-, rfl⟩, _, _, ⟨-, rfl⟩, rfl⟩ := h
  exact ⟨rfl, rfl⟩

end Statements

/-! ## The invariant -/

def MailboxDeliveryAttempt.isClaimed (attempt : MailboxDeliveryAttempt) : Bool :=
  attempt.status = .claimed

def MailboxDeliveryAttempt.isAcknowledged (attempt : MailboxDeliveryAttempt) : Bool :=
  attempt.status = .acknowledged

def MailboxMessageStatus.isTerminal (status : MailboxMessageStatus) : Bool :=
  status = .acknowledged ∨ status = .failed ∨ status = .poisoned ∨ status = .expired

def Db.attemptsOf (db : Db) (messageId : Text) : List MailboxDeliveryAttempt :=
  db.attempts.filter fun attempt => attempt.messageId = messageId

/-- A message and its attempts fit together. -/
structure MessageSound (message : MailboxMessage) (attempts : List MailboxDeliveryAttempt) :
    Prop where
  count : message.attemptCount = attempts.length
  count_le : message.attemptCount ≤ message.maxAttempts
  left : message.status = .queued → message.attemptCount < message.maxAttempts
  claimed : message.status = .claimed →
    ∃ attempt, attempts.filter MailboxDeliveryAttempt.isClaimed = [attempt] ∧
      message.lastAttemptId = some attempt.attemptId ∧
        message.lease.map MailboxLease.id = some attempt.leaseId
  unclaimed : message.status ≠ .claimed →
    attempts.filter MailboxDeliveryAttempt.isClaimed = []
  acknowledged_le : (attempts.filter MailboxDeliveryAttempt.isAcknowledged).length ≤ 1
  acknowledged : attempts.filter MailboxDeliveryAttempt.isAcknowledged ≠ [] →
    message.status = .acknowledged

structure Sound (db : Db) : Prop where
  messages_nodup : (db.messages.map MailboxMessage.messageId).Nodup
  attempts_nodup : (db.attempts.map MailboxDeliveryAttempt.attemptId).Nodup
  known : ∀ attempt ∈ db.attempts, ∃ message ∈ db.messages, message.messageId = attempt.messageId
  messages : ∀ message ∈ db.messages, MessageSound message (db.attemptsOf message.messageId)

section Invariant

variable {db db' : Db}

theorem Sound.congr (h : Sound db) (hsame : SameMail db db') : Sound db' where
  messages_nodup := by rw [hsame.messages]; exact h.messages_nodup
  attempts_nodup := by rw [hsame.attempts]; exact h.attempts_nodup
  known := by rw [hsame.attempts, hsame.messages]; exact h.known
  messages := by
    unfold Db.attemptsOf
    rw [hsame.messages, hsame.attempts]
    exact h.messages

/-- A change of one message and of its attempts. -/
theorem Sound.change (h : Sound db) (messageId : Text)
    (hids : db'.messages.map MailboxMessage.messageId = db.messages.map MailboxMessage.messageId)
    (hrest : ∀ message ∈ db'.messages, message.messageId ≠ messageId → message ∈ db.messages)
    (hnodup : (db'.attempts.map MailboxDeliveryAttempt.attemptId).Nodup)
    (hknown : ∀ attempt ∈ db'.attempts, attempt.messageId ∈
      db.messages.map MailboxMessage.messageId)
    (hattempts : ∀ other, other ≠ messageId → db'.attemptsOf other = db.attemptsOf other)
    (hnew : ∀ message ∈ db'.messages, message.messageId = messageId →
      MessageSound message (db'.attemptsOf messageId)) : Sound db' where
  messages_nodup := by rw [hids]; exact h.messages_nodup
  attempts_nodup := hnodup
  known attempt hattempt := by
    have hmem := hknown attempt hattempt
    rw [← hids] at hmem
    exact List.mem_map.mp hmem
  messages message hmessage := by
    by_cases hid : message.messageId = messageId
    · rw [hid]
      exact hnew message hmessage hid
    · rw [hattempts _ hid]
      exact h.messages message (hrest message hmessage hid)

theorem Sound.eq_of_messageId_eq (h : Sound db) {a b : MailboxMessage} (ha : a ∈ db.messages)
    (hb : b ∈ db.messages) (hid : a.messageId = b.messageId) : a = b :=
  List.inj_on_of_nodup_map h.messages_nodup ha hb hid

end Invariant

/-! ## One message and its attempts -/

section Messages

variable {message message' : MailboxMessage} {attempts : List MailboxDeliveryAttempt}

theorem isAcknowledged_eq_false_of_claimed (h : MessageSound message attempts)
    (hstatus : message.status ≠ .acknowledged) :
    ∀ attempt ∈ attempts, attempt.isAcknowledged = false := by
  intro attempt hattempt
  by_contra hnot
  rw [Bool.not_eq_false] at hnot
  exact hstatus (h.acknowledged (List.ne_nil_of_mem (List.mem_filter.mpr ⟨hattempt, hnot⟩)))

/-- The end of a claim: its attempt is closed, and the message leaves the status with it. -/
theorem MessageSound.close (h : MessageSound message attempts)
    (hclaimed : message.status = .claimed) {f : MailboxDeliveryAttempt → MailboxDeliveryAttempt}
    (hclosed : ∀ attempt, (f attempt).isClaimed = false)
    (hack : ∀ attempt, (f attempt).isAcknowledged = decide (message'.status = .acknowledged))
    (hcount : message'.attemptCount = message.attemptCount)
    (hmax : message'.maxAttempts = message.maxAttempts) (hstatus : message'.status ≠ .claimed)
    (hleft : message'.status = .queued → message.attemptCount < message.maxAttempts) :
    MessageSound message'
      (Table.updateWhere MailboxDeliveryAttempt.isClaimed f attempts) := by
  obtain ⟨current, hcurrent, -, -⟩ := h.claimed hclaimed
  have hnone := isAcknowledged_eq_false_of_claimed h (by simp [hclaimed])
  have hacked : (Table.updateWhere MailboxDeliveryAttempt.isClaimed f attempts).filter
      MailboxDeliveryAttempt.isAcknowledged =
        if message'.status = .acknowledged then [f current] else [] := by
    have hsame : attempts.filter (MailboxDeliveryAttempt.isAcknowledged ∘
        fun attempt => if attempt.isClaimed then f attempt else attempt) =
        attempts.filter fun attempt =>
          attempt.isClaimed && decide (message'.status = .acknowledged) := by
      apply List.filter_congr
      intro attempt hattempt
      cases hclaim : attempt.isClaimed with
      | true => simp [hclaim, hack]
      | false => simp [hclaim, hnone attempt hattempt]
    rw [Table.updateWhere, List.filter_map, hsame]
    split_ifs with hmine
    · have hone : current.isClaimed = true :=
        (List.mem_filter.mp (hcurrent ▸ List.mem_singleton_self current)).2
      simp only [hmine, decide_true, Bool.and_true]
      rw [hcurrent]
      simp [hone]
    · simp [hmine]
  refine ⟨?_, ?_, ?_, ?_, ?_, ?_, ?_⟩
  · rw [hcount, h.count, Table.updateWhere, List.length_map]
  · rw [hcount, hmax]
    exact h.count_le
  · intro hqueued
    rw [hcount, hmax]
    exact hleft hqueued
  · intro hsame
    exact absurd hsame hstatus
  · intro _
    rw [List.filter_eq_nil_iff]
    intro attempt hattempt
    rcases Table.mem_updateWhere.mp hattempt with ⟨old, -, -, rfl⟩ | ⟨-, hfalse⟩
    · simp [hclosed]
    · simp [hfalse]
  · rw [hacked]
    split_ifs
    · exact Nat.le_refl 1
    · exact Nat.zero_le 1
  · rw [hacked]
    split_ifs with hmine
    · exact fun _ => hmine
    · simp

theorem isClaimed_eq_false_of_isAcknowledged {attempt : MailboxDeliveryAttempt}
    (h : attempt.isAcknowledged = true) : attempt.isClaimed = false := by
  have hstatus : attempt.status = .acknowledged := by
    simpa [MailboxDeliveryAttempt.isAcknowledged] using h
  simp [MailboxDeliveryAttempt.isClaimed, hstatus]

/-- The start of a claim: a new attempt is opened with its lease. -/
theorem MessageSound.open (h : MessageSound message attempts) (hqueued : message.status = .queued)
    {attempt : MailboxDeliveryAttempt} {lease : MailboxLease} {nowMs : Int}
    (hstatus : attempt.status = .claimed) (hlease : attempt.leaseId = lease.id) :
    MessageSound (claimedMessage lease attempt.attemptId nowMs message)
      (attempts ++ [attempt]) := by
  have hidle := h.unclaimed (by simp [hqueued])
  have hleft := h.left hqueued
  refine ⟨?_, ?_, ?_, ?_, ?_, ?_, ?_⟩
  · simp only [claimedMessage, h.count, List.length_append, List.length_singleton]
    omega
  · simp only [claimedMessage]
    omega
  · simp [claimedMessage]
  · intro _
    refine ⟨attempt, ?_, rfl, by simp [claimedMessage, hlease]⟩
    rw [List.filter_append, hidle]
    simp [MailboxDeliveryAttempt.isClaimed, hstatus]
  · simp [claimedMessage]
  · rw [List.filter_append]
    simp only [MailboxDeliveryAttempt.isAcknowledged, hstatus, reduceCtorEq, decide_false,
      List.filter_cons_of_neg, Bool.false_eq_true, not_false_eq_true, List.filter_nil,
      List.append_nil]
    exact h.acknowledged_le
  · rw [List.filter_append]
    intro hacked
    have hold := h.acknowledged (by
      simpa [MailboxDeliveryAttempt.isAcknowledged, hstatus] using hacked)
    simp [hqueued] at hold

/-- A message that is not delivered in time. -/
theorem MessageSound.expire (h : MessageSound message attempts) (hqueued : message.status = .queued)
    (nowMs : Int) : MessageSound (expiredMessage nowMs message) attempts where
  count := h.count
  count_le := h.count_le
  left hstatus := by simp [expiredMessage] at hstatus
  claimed hstatus := by simp [expiredMessage] at hstatus
  unclaimed _ := h.unclaimed (by simp [hqueued])
  acknowledged_le := h.acknowledged_le
  acknowledged hacked := by
    have hold := h.acknowledged hacked
    simp [hqueued] at hold

end Messages

/-! ## What an operation does to the database -/

/-- Only the message with the given id is touched. -/
structure Moves (messageId : Text) (db db' : Db) : Prop where
  sound : Sound db'
  others : ∀ message ∈ db.messages, message.messageId ≠ messageId → message ∈ db'.messages
  acknowledged : ∀ attempt ∈ db.attempts, attempt.isAcknowledged = true → attempt ∈ db'.attempts

section Operations

variable {db db' : Db} {message : MailboxMessage}

theorem mem_updateWhere_other {messageId : Text} {p : MailboxMessage → Bool}
    {f : MailboxMessage → MailboxMessage} {rows : List MailboxMessage}
    (hmem : message ∈ rows) (hne : message.messageId ≠ messageId) :
    message ∈ Table.updateWhere (fun row => row.messageId = messageId && p row) f rows :=
  Table.mem_updateWhere.mpr (.inr ⟨hmem, by simp [hne]⟩)

theorem mem_of_mem_updateWhere {messageId : Text} {p : MailboxMessage → Bool}
    {f : MailboxMessage → MailboxMessage} {rows : List MailboxMessage}
    (hf : ∀ row ∈ rows, row.messageId = messageId → (f row).messageId = messageId)
    (hmem : message ∈ Table.updateWhere (fun row => row.messageId = messageId && p row) f rows)
    (hne : message.messageId ≠ messageId) : message ∈ rows := by
  rcases Table.mem_updateWhere.mp hmem with ⟨old, hold, hcond, rfl⟩ | ⟨hrow, -⟩
  · simp only [Bool.and_eq_true, decide_eq_true_eq] at hcond
    exact absurd (hf old hold hcond.1) hne
  · exact hrow

theorem Moves.congr {messageId : Text} {db'' : Db} (h : Moves messageId db db')
    (hsame : SameMail db' db'') : Moves messageId db db'' where
  sound := h.sound.congr hsame
  others row hrow hne := by
    rw [hsame.messages]
    exact h.others row hrow hne
  acknowledged attempt hattempt hacked := by
    rw [hsame.attempts]
    exact h.acknowledged attempt hattempt hacked

/-- The attempt that a claim belongs to. -/
theorem Sound.current (h : Sound db) (hmessage : message ∈ db.messages)
    (hclaimed : message.status = .claimed) :
    ∃ current ∈ db.attempts, current.messageId = message.messageId ∧ current.isClaimed = true ∧
      message.lastAttemptId = some current.attemptId ∧
        message.lease.map MailboxLease.id = some current.leaseId ∧
          ∀ attempt ∈ db.attempts, attempt.messageId = message.messageId →
            attempt.isClaimed = true → attempt = current := by
  obtain ⟨current, honly, hlast, hlease⟩ := (h.messages message hmessage).claimed hclaimed
  have hmem : current ∈ (db.attemptsOf message.messageId).filter
      MailboxDeliveryAttempt.isClaimed := by
    rw [honly]
    exact List.mem_singleton_self current
  obtain ⟨hof, hclaim⟩ := List.mem_filter.mp hmem
  obtain ⟨hin, hid⟩ := List.mem_filter.mp hof
  refine ⟨current, hin, by simpa using hid, hclaim, hlast, hlease, ?_⟩
  intro attempt hattempt hof' hclaim'
  have hfound : attempt ∈ (db.attemptsOf message.messageId).filter
      MailboxDeliveryAttempt.isClaimed :=
    List.mem_filter.mpr ⟨List.mem_filter.mpr ⟨hattempt, by simpa using hof'⟩, hclaim'⟩
  rw [honly] at hfound
  exact List.mem_singleton.mp hfound

/-- The end of a claim, whatever statements bring it about. -/
theorem Sound.closeClaim (h : Sound db) (hmessage : message ∈ db.messages)
    (hclaimed : message.status = .claimed) {p : MailboxMessage → Bool}
    {f : MailboxMessage → MailboxMessage} {q : MailboxDeliveryAttempt → Bool}
    {g : MailboxDeliveryAttempt → MailboxDeliveryAttempt} (hp : p message = true)
    (hf : ∀ row, (f row).messageId = row.messageId)
    (hq : ∀ attempt ∈ db.attempts,
      q attempt = (decide (attempt.messageId = message.messageId) && attempt.isClaimed))
    (hg : ∀ attempt, (g attempt).messageId = attempt.messageId ∧
      (g attempt).attemptId = attempt.attemptId)
    (hclosed : ∀ attempt, (g attempt).isClaimed = false)
    (hack : ∀ attempt, (g attempt).isAcknowledged = decide ((f message).status = .acknowledged))
    (hcount : (f message).attemptCount = message.attemptCount)
    (hmax : (f message).maxAttempts = message.maxAttempts)
    (hstatus : (f message).status ≠ .claimed)
    (hleft : (f message).status = .queued → message.attemptCount < message.maxAttempts)
    (hmessages : db'.messages = Table.updateWhere
      (fun row => row.messageId = message.messageId && p row) f db.messages)
    (hattempts : db'.attempts = Table.updateWhere q g db.attempts) :
    Moves message.messageId db db' := by
  have hof : ∀ messageId, db'.attemptsOf messageId =
      Table.updateWhere q g (db.attemptsOf messageId) := by
    intro messageId
    unfold Db.attemptsOf
    rw [hattempts, Table.filter_updateWhere fun attempt => by rw [(hg attempt).1]]
  refine ⟨h.change message.messageId ?_ ?_ ?_ ?_ ?_ ?_, ?_, ?_⟩
  · rw [hmessages, Table.map_updateWhere_eq_iff]
    exact fun row _ _ => hf row
  · rw [hmessages]
    intro row hrow hne
    exact mem_of_mem_updateWhere (fun old _ hid => (hf old).trans hid) hrow hne
  · have hsame : db'.attempts.map MailboxDeliveryAttempt.attemptId =
        db.attempts.map MailboxDeliveryAttempt.attemptId := by
      rw [hattempts, Table.map_updateWhere_eq_iff]
      exact fun attempt _ _ => (hg attempt).2
    rw [hsame]
    exact h.attempts_nodup
  · rw [hattempts]
    refine Table.forall_mem_updateWhere (fun attempt hattempt => ?_) ?_
    · exact List.mem_map.mpr (h.known attempt hattempt)
    · intro attempt _ _ hold
      rw [(hg attempt).1]
      exact hold
  · intro other hne
    rw [hof, Table.updateWhere_eq_self]
    intro attempt hattempt
    obtain ⟨hin, hid⟩ := List.mem_filter.mp hattempt
    have hid' : attempt.messageId = other := by simpa using hid
    rw [hq attempt hin, hid']
    simp [hne]
  · rw [hmessages]
    intro row hrow hid
    rcases Table.mem_updateWhere.mp hrow with ⟨old, hold, hcond, rfl⟩ | ⟨hin, hcond⟩
    · have hsame : old = message := by
        simp only [Bool.and_eq_true, decide_eq_true_eq] at hcond
        exact h.eq_of_messageId_eq hold hmessage hcond.1
      subst hsame
      rw [hof, Table.updateWhere_congr (q := MailboxDeliveryAttempt.isClaimed)]
      · exact (h.messages old hold).close hclaimed hclosed hack hcount hmax hstatus hleft
      · intro attempt hattempt
        obtain ⟨hin, hid'⟩ := List.mem_filter.mp hattempt
        rw [hq attempt hin, hid', Bool.true_and]
    · have hsame := h.eq_of_messageId_eq hin hmessage hid
      rw [hsame] at hcond
      simp [hp] at hcond
  · intro row hrow hne
    rw [hmessages]
    exact mem_updateWhere_other hrow hne
  · intro attempt hattempt hacked
    rw [hattempts]
    refine Table.mem_updateWhere.mpr (.inr ⟨hattempt, ?_⟩)
    rw [hq attempt hattempt, isClaimed_eq_false_of_isAcknowledged hacked, Bool.and_false]

/-- The attempt that is closed when a lease is taken back. -/
theorem Sound.expireAttempt_eq (h : Sound db) (hmessage : message ∈ db.messages)
    (hclaimed : message.status = .claimed) {nowMs : Int} {u : Unit}
    (hrun : expireAttempt message.lastAttemptId nowMs db = (.ok u, db')) :
    ∃ q, db' = { db with attempts := Table.updateWhere q (expiredAttempt nowMs) db.attempts } ∧
      ∀ attempt ∈ db.attempts,
        q attempt = (decide (attempt.messageId = message.messageId) && attempt.isClaimed) := by
  obtain ⟨current, hcurrent, hid, hclaim, hlast, -, honly⟩ := h.current hmessage hclaimed
  rw [hlast, expireAttempt] at hrun
  refine ⟨_, updateAttempts_eq_ok hrun, ?_⟩
  intro attempt hattempt
  rw [Bool.eq_iff_iff, Bool.and_eq_true, Bool.and_eq_true, decide_eq_true_eq, decide_eq_true_eq,
    decide_eq_true_eq]
  constructor
  · rintro ⟨hsame, hstatus⟩
    have heq := List.inj_on_of_nodup_map h.attempts_nodup hattempt hcurrent hsame
    exact ⟨heq ▸ hid, heq ▸ hclaim⟩
  · rintro ⟨hof, hstatus⟩
    have heq := honly attempt hattempt hof hstatus
    exact ⟨heq ▸ rfl, by simpa [MailboxDeliveryAttempt.isClaimed] using hstatus⟩

theorem recordExpiredClaim_sameMail {redactStateString : Text → Text} {nowMs : Int} {u : Unit}
    (h : recordExpiredClaim redactStateString message nowMs db = (.ok u, db')) :
    SameMail db db' := by
  unfold recordExpiredClaim at h
  split_ifs at h
  · rcases hlast : message.lastAttemptId with _ | attemptId
    · simp only [hlast] at h
      exact insertMailboxReceipt_sameMail h
    · simp only [hlast, Exec.bind_eq_ok] at h
      obtain ⟨_, mid, hletter, hreceipt⟩ := h
      exact (insertMailboxDeadLetter_sameMail hletter).trans
        (insertMailboxReceipt_sameMail hreceipt)
  · exact insertMailboxReceipt_sameMail h

theorem statusAfterFailure_cases (message : MailboxMessage) :
    message.statusAfterFailure = .poisoned ∨
      message.statusAfterFailure = .queued ∧ message.attemptCount < message.maxAttempts := by
  unfold MailboxMessage.statusAfterFailure
  split_ifs with hspent
  · exact .inl rfl
  · exact .inr ⟨rfl, not_le.mp hspent⟩

theorem expireClaim_moves {redactStateString : Text → Text} {nowMs : Int} {u : Unit}
    (h : Sound db) (hmessage : message ∈ db.messages) (hclaimed : message.status = .claimed)
    (hrun : expireClaim redactStateString nowMs message db = (.ok u, db')) :
    Moves message.messageId db db' := by
  unfold expireClaim updateExpiredClaim at hrun
  simp only [Exec.bind_eq_ok] at hrun
  obtain ⟨_, mid, hattempt, updated, after, ⟨result, last, hupdate, hmatch⟩, hrecord⟩ := hrun
  obtain ⟨q, rfl, hq⟩ := h.expireAttempt_eq hmessage hclaimed hattempt
  obtain ⟨-, hlast⟩ := updateMessage_eq_ok hupdate
  rcases result with _ | row
  · simp at hmatch
  obtain ⟨-, rfl⟩ := Exec.pure_eq_ok.mp hmatch
  have hstatus := statusAfterFailure_cases message
  refine Moves.congr (h.closeClaim hmessage hclaimed (p := fun _ => true)
    (f := expiredClaim message.statusAfterFailure nowMs) (g := expiredAttempt nowMs) rfl
    (fun _ => rfl) hq (fun _ => ⟨rfl, rfl⟩) (fun _ => rfl) ?_ rfl rfl ?_ ?_ (by rw [hlast])
    (by rw [hlast])) (recordExpiredClaim_sameMail hrecord)
  · intro attempt
    rcases hstatus with heq | ⟨heq, -⟩
    · simp [expiredAttempt, expiredClaim, MailboxDeliveryAttempt.isAcknowledged, heq]
    · simp [expiredAttempt, expiredClaim, MailboxDeliveryAttempt.isAcknowledged, heq]
  · rcases hstatus with heq | ⟨heq, -⟩
    · simp [expiredClaim, heq]
    · simp [expiredClaim, heq]
  · rcases hstatus with heq | ⟨-, hless⟩
    · simp [expiredClaim, heq]
    · exact fun _ => hless

/-- A change of one message alone. -/
theorem Sound.updateOne (h : Sound db) (hmessage : message ∈ db.messages)
    {p : MailboxMessage → Bool} {f : MailboxMessage → MailboxMessage}
    (hf : ∀ row, (f row).messageId = row.messageId)
    (hnew : p message = true → MessageSound (f message) (db.attemptsOf message.messageId))
    (hmessages : db'.messages = Table.updateWhere
      (fun row => row.messageId = message.messageId && p row) f db.messages)
    (hattempts : db'.attempts = db.attempts) : Moves message.messageId db db' := by
  have hof : ∀ messageId, db'.attemptsOf messageId = db.attemptsOf messageId := by
    intro messageId
    unfold Db.attemptsOf
    rw [hattempts]
  refine ⟨h.change message.messageId ?_ ?_ ?_ ?_ (fun other _ => hof other) ?_, ?_, ?_⟩
  · rw [hmessages, Table.map_updateWhere_eq_iff]
    exact fun row _ _ => hf row
  · rw [hmessages]
    intro row hrow hne
    exact mem_of_mem_updateWhere (fun old _ hid => (hf old).trans hid) hrow hne
  · rw [hattempts]
    exact h.attempts_nodup
  · rw [hattempts]
    exact fun attempt hattempt => List.mem_map.mpr (h.known attempt hattempt)
  · rw [hmessages, hof]
    intro row hrow hid
    rcases Table.mem_updateWhere.mp hrow with ⟨old, hold, hcond, rfl⟩ | ⟨hin, -⟩
    · simp only [Bool.and_eq_true, decide_eq_true_eq] at hcond
      have hsame := h.eq_of_messageId_eq hold hmessage hcond.1
      subst hsame
      exact hnew hcond.2
    · rw [← hid]
      exact h.messages row hin
  · intro row hrow hne
    rw [hmessages]
    exact mem_updateWhere_other hrow hne
  · intro attempt hattempt _
    rw [hattempts]
    exact hattempt

theorem expireMessage_moves {nowMs : Int} {u : Unit} (h : Sound db)
    (hmessage : message ∈ db.messages)
    (hrun : expireMessage nowMs message db = (.ok u, db')) :
    Moves message.messageId db db' := by
  unfold expireMessage at hrun
  simp only [Exec.bind_eq_ok] at hrun
  obtain ⟨result, mid, hupdate, hreceipt⟩ := hrun
  obtain ⟨-, hmid⟩ := updateMessage_eq_ok hupdate
  have hmoves : Moves message.messageId db mid :=
    h.updateOne hmessage (p := fun row => row.status = .queued) (f := expiredMessage nowMs)
      (fun _ => rfl) (fun hqueued => (h.messages message hmessage).expire (by simpa using hqueued)
        nowMs) (by rw [hmid]) (by rw [hmid])
  refine hmoves.congr ?_
  rcases result with _ | row
  · obtain ⟨-, rfl⟩ := Exec.pure_eq_ok.mp hreceipt
    exact SameMail.refl _
  · exact insertMailboxReceipt_sameMail hreceipt

/-! ### Loops over messages -/

/-- The messages that have ended and the attempts that are acknowledged are as they were. -/
structure KeepsEnded (db db' : Db) : Prop where
  messages : ∀ message ∈ db.messages, message.status.isTerminal = true → message ∈ db'.messages
  attempts : ∀ attempt ∈ db.attempts, attempt.isAcknowledged = true → attempt ∈ db'.attempts

theorem KeepsEnded.refl (db : Db) : KeepsEnded db db :=
  ⟨fun _ hmessage _ => hmessage, fun _ hattempt _ => hattempt⟩

theorem KeepsEnded.trans {db₁ db₂ db₃ : Db} (h : KeepsEnded db₁ db₂) (h' : KeepsEnded db₂ db₃) :
    KeepsEnded db₁ db₃ where
  messages message hmessage hended :=
    h'.messages message (h.messages message hmessage hended) hended
  attempts attempt hattempt hacked :=
    h'.attempts attempt (h.attempts attempt hattempt hacked) hacked

theorem SameMail.keepsEnded (h : SameMail db db') : KeepsEnded db db' where
  messages message hmessage _ := by rw [h.messages]; exact hmessage
  attempts attempt hattempt _ := by rw [h.attempts]; exact hattempt

theorem Moves.keepsEnded (hmoves : Moves message.messageId db db') (h : Sound db)
    (hmessage : message ∈ db.messages) (hlive : message.status.isTerminal = false) :
    KeepsEnded db db' := by
  refine ⟨fun row hrow hended => hmoves.others row hrow fun hid => ?_, hmoves.acknowledged⟩
  rw [h.eq_of_messageId_eq hrow hmessage hid, hlive] at hended
  cases hended

/-- A loop over messages that are not ended yet, each touching its own. -/
theorem forEach_moves {f : MailboxMessage → Tx Unit} {P : MailboxMessage → Prop}
    (hlive : ∀ message, P message → message.status.isTerminal = false)
    (hstep : ∀ db db' message, Sound db → message ∈ db.messages → P message →
      f message db = (.ok (), db') → Moves message.messageId db db')
    {rows : List MailboxMessage} {u : Unit} (h : Sound db)
    (hrows : ∀ message ∈ rows, message ∈ db.messages ∧ P message)
    (hdistinct : (rows.map MailboxMessage.messageId).Nodup)
    (hrun : Exec.forEach f rows db = (.ok u, db')) : Sound db' ∧ KeepsEnded db db' := by
  induction rows generalizing db with
  | nil =>
      rw [Exec.forEach_nil_eq_ok] at hrun
      subst hrun
      exact ⟨h, KeepsEnded.refl db⟩
  | cons message rows ih =>
      obtain ⟨mid, hfirst, hrest⟩ := Exec.forEach_cons_eq_ok.mp hrun
      obtain ⟨hmem, hP⟩ := hrows message (List.mem_cons_self ..)
      have hmoves := hstep db mid message h hmem hP hfirst
      rw [List.map_cons, List.nodup_cons] at hdistinct
      have hothers : ∀ row ∈ rows, row ∈ mid.messages ∧ P row := by
        intro row hrow
        obtain ⟨hin, hProw⟩ := hrows row (List.mem_cons_of_mem _ hrow)
        refine ⟨hmoves.others row hin fun hid => hdistinct.1 ?_, hProw⟩
        rw [← hid]
        exact List.mem_map_of_mem hrow
      obtain ⟨hsound, hkeeps⟩ := ih hmoves.sound hothers hdistinct.2 hrest
      exact ⟨hsound, (hmoves.keepsEnded h hmem (hlive message hP)).trans hkeeps⟩

theorem nodup_filter_ids (h : Sound db) (p : MailboxMessage → Bool) :
    ((db.messages.filter p).map MailboxMessage.messageId).Nodup :=
  h.messages_nodup.sublist ((List.filter_sublist ..).map _)

theorem expireStaleMailboxLeases_sound {redactStateString : Text → Text} {nowMs : Int} {u : Unit}
    (h : Sound db) (hrun : expireStaleMailboxLeases redactStateString nowMs db = (.ok u, db')) :
    Sound db' ∧ KeepsEnded db db' := by
  simp only [expireStaleMailboxLeases, Exec.bind_eq_ok, Exec.gets_eq_ok] at hrun
  obtain ⟨rows, _, ⟨rfl, rfl⟩, hloop⟩ := hrun
  refine forEach_moves (P := fun message => message.status = .claimed) ?_ ?_ h ?_
    (nodup_filter_ids h _) hloop
  · intro message hclaimed
    simp [MailboxMessageStatus.isTerminal, hclaimed]
  · intro db db' message hsound hmem hclaimed hfirst
    exact expireClaim_moves hsound hmem hclaimed hfirst
  · intro message hmessage
    obtain ⟨hin, hstale⟩ := List.mem_filter.mp hmessage
    simp only [MailboxMessage.hasStaleLease, Bool.and_eq_true, decide_eq_true_eq] at hstale
    exact ⟨hin, hstale.1⟩

theorem expireDueMessages_sound {nowMs : Int} {u : Unit} (h : Sound db)
    (hrun : expireDueMessages nowMs db = (.ok u, db')) : Sound db' ∧ KeepsEnded db db' := by
  simp only [expireDueMessages, Exec.bind_eq_ok, Exec.gets_eq_ok] at hrun
  obtain ⟨rows, _, ⟨rfl, rfl⟩, hloop⟩ := hrun
  refine forEach_moves (P := fun message => message.status = .queued) ?_ ?_ h ?_
    (nodup_filter_ids h _) hloop
  · intro message hqueued
    simp [MailboxMessageStatus.isTerminal, hqueued]
  · intro db db' message hsound hmem _ hfirst
    exact expireMessage_moves hsound hmem hfirst
  · intro message hmessage
    obtain ⟨hin, hdue⟩ := List.mem_filter.mp hmessage
    simp only [MailboxMessage.isDueToExpire, Bool.and_eq_true, decide_eq_true_eq] at hdue
    exact ⟨hin, hdue.1⟩

/-! ### Claims -/

theorem Sound.openClaim (h : Sound db) (hmessage : message ∈ db.messages)
    (hqueued : message.status = .queued) {attempt : MailboxDeliveryAttempt} {lease : MailboxLease}
    (nowMs : Int) (hstatus : attempt.status = .claimed) (hlease : attempt.leaseId = lease.id)
    (hid : attempt.messageId = message.messageId)
    (hfresh : ∀ other ∈ db.attempts, other.attemptId ≠ attempt.attemptId)
    (hmessages : db'.messages = Table.updateWhere
      (fun row => row.messageId = message.messageId && true)
      (claimedMessage lease attempt.attemptId nowMs) db.messages)
    (hattempts : db'.attempts = db.attempts ++ [attempt]) : Moves message.messageId db db' := by
  refine ⟨h.change message.messageId ?_ ?_ ?_ ?_ ?_ ?_, ?_, ?_⟩
  · rw [hmessages, Table.map_updateWhere_eq_iff]
    exact fun row _ _ => rfl
  · rw [hmessages]
    intro row hrow hne
    exact mem_of_mem_updateWhere (f := claimedMessage lease attempt.attemptId nowMs)
      (fun _ _ hsame => hsame) hrow hne
  · rw [hattempts, List.map_append, List.map_singleton, List.nodup_append]
    refine ⟨h.attempts_nodup, List.nodup_singleton _, ?_⟩
    intro attemptId hmem other hother
    obtain ⟨old, hold, rfl⟩ := List.mem_map.mp hmem
    rw [List.mem_singleton.mp hother]
    exact hfresh old hold
  · rw [hattempts]
    intro row hrow
    rcases List.mem_append.mp hrow with hold | hnew
    · exact List.mem_map.mpr (h.known row hold)
    · rw [List.mem_singleton.mp hnew, hid]
      exact List.mem_map_of_mem hmessage
  · intro other hne
    unfold Db.attemptsOf
    rw [hattempts, List.filter_append]
    simp [hid, Ne.symm hne]
  · rw [hmessages]
    intro row hrow hsame
    have hof : db'.attemptsOf message.messageId = db.attemptsOf message.messageId ++ [attempt] := by
      unfold Db.attemptsOf
      rw [hattempts, List.filter_append]
      simp [hid]
    rcases Table.mem_updateWhere.mp hrow with ⟨old, hold, hcond, rfl⟩ | ⟨-, hcond⟩
    · rw [Bool.and_true, decide_eq_true_eq] at hcond
      have heq := h.eq_of_messageId_eq hold hmessage hcond
      subst heq
      rw [hof]
      exact (h.messages old hold).open hqueued hstatus hlease
    · simp [hsame] at hcond
  · intro row hrow hne
    rw [hmessages]
    exact mem_updateWhere_other hrow hne
  · intro other hother _
    rw [hattempts]
    exact List.mem_append_left _ hother

theorem reserveTargetFor_sameMail {params : MailboxClaimParams} {u : Unit}
    (h : reserveTargetFor params message db = (.ok u, db')) : SameMail db db' := by
  rcases hscope : params.scope with threadId | ⟨ownerId, freshAfterMs⟩
  · simp only [reserveTargetFor, hscope] at h
    obtain ⟨-, rfl⟩ := Exec.pure_eq_ok.mp h
    exact SameMail.refl db
  · simp only [reserveTargetFor, hscope, reserveMailboxTargetLease, Exec.bind_eq_ok,
      Exec.gets_eq_ok] at h
    obtain ⟨found, _, ⟨-, rfl⟩, h⟩ := h
    rcases found with _ | lease
    · simp only [Exec.bind_eq_ok, Store.constrain_eq_ok, Exec.modify_eq_ok] at h
      obtain ⟨_, _, ⟨-, rfl⟩, rfl⟩ := h
      exact ⟨rfl, rfl⟩
    · simp only [Exec.bind_eq_ok, Store.ensure_eq_ok, Store.constrain_eq_ok,
        Exec.modify_eq_ok] at h
      obtain ⟨_, _, ⟨-, rfl⟩, _, _, ⟨-, rfl⟩, rfl⟩ := h
      exact ⟨rfl, rfl⟩

theorem claimMessage_moves {redactStateString : Text → Text} {params : MailboxClaimParams}
    {claim : Option MailboxClaim} (h : Sound db) (hmessage : message ∈ db.messages)
    (hqueued : message.status = .queued)
    (hrun : claimMessage redactStateString params message.messageId db = (.ok claim, db')) :
    Moves message.messageId db db' := by
  unfold claimMessage at hrun
  simp only [Exec.bind_eq_ok] at hrun
  obtain ⟨result, mid, hupdate, hrun⟩ := hrun
  obtain ⟨hresult, rfl⟩ := updateMessage_eq_ok hupdate
  have hin : message ∈ db.messages.filter fun row =>
      row.messageId = message.messageId && true :=
    List.mem_filter.mpr ⟨hmessage, by simp⟩
  rcases result with _ | row
  · rw [eq_comm, Option.map_eq_none_iff, List.head?_eq_none_iff] at hresult
    rw [hresult] at hin
    simp at hin
  · obtain ⟨old, hold, rfl⟩ := Option.map_eq_some_iff.mp hresult.symm
    obtain ⟨-, hid⟩ := List.mem_filter.mp (List.mem_of_mem_head? hold)
    simp only [Exec.bind_eq_ok] at hrun
    obtain ⟨_, reserved, hreserve, _, inserted, hinsert, _, last, hreceipt, hpure⟩ := hrun
    obtain ⟨-, rfl⟩ := Exec.pure_eq_ok.mp hpure
    have hreserved := reserveTargetFor_sameMail hreserve
    obtain ⟨hfresh, -, hinserted⟩ := insertAttempt_eq_ok hinsert
    rw [hreserved.attempts] at hfresh
    have hmoves : Moves message.messageId db inserted := by
      have hleaseId : (params.attempt redactStateString (claimedMessage params.lease
          params.attemptId params.nowMs old)).leaseId = params.lease.id := rfl
      refine h.openClaim hmessage hqueued params.nowMs rfl hleaseId ?_ hfresh ?_ ?_
      · simpa [MailboxClaimParams.attempt, claimedMessage] using hid
      · rw [hinserted]
        exact hreserved.messages
      · rw [hinserted]
        exact congrArg (· ++ _) hreserved.attempts
    exact hmoves.congr (insertMailboxReceipt_sameMail hreceipt)

theorem dropExpiredTargetLeases_sameMail {params : MailboxClaimParams} {u : Unit}
    (h : dropExpiredTargetLeases params db = (.ok u, db')) : SameMail db db' := by
  rcases hscope : params.scope with threadId | ⟨ownerId, freshAfterMs⟩
  · simp only [dropExpiredTargetLeases, hscope] at h
    obtain ⟨-, rfl⟩ := Exec.pure_eq_ok.mp h
    exact SameMail.refl db
  · simp only [dropExpiredTargetLeases, hscope, Exec.modify_eq_ok] at h
    subst h
    exact ⟨rfl, rfl⟩

theorem nextMessage_eq_some {scope : MailboxClaimScope} {sessions : List LocalActiveSession}
    {nowMs : Int} (h : db.nextMessage scope sessions nowMs = some message) :
    message ∈ db.messages ∧ message.status = .queued := by
  have hmem := Table.mem_selectOrdered.mp (List.mem_of_mem_head? (Option.mem_def.mpr h))
  simp only [Bool.and_eq_true, MailboxMessage.isClaimable, decide_eq_true_eq] at hmem
  exact ⟨hmem.1, hmem.2.1.1.1.1⟩

theorem claimNextMessage_sound {redactStateString : Text → Text} {params : MailboxClaimParams}
    {claim : Option MailboxClaim} (h : Sound db)
    (hrun : claimNextMessage redactStateString params db = (.ok claim, db')) :
    Sound db' ∧ KeepsEnded db db' := by
  simp only [claimNextMessage, Exec.bind_eq_ok, Exec.gets_eq_ok] at hrun
  obtain ⟨_, stale, hstale, _, due, hdue, _, dropped, hdropped, next, _, ⟨hnext, rfl⟩, hrun⟩ := hrun
  obtain ⟨hsound₁, hkeeps₁⟩ := expireStaleMailboxLeases_sound h hstale
  obtain ⟨hsound₂, hkeeps₂⟩ := expireDueMessages_sound hsound₁ hdue
  have hsame := dropExpiredTargetLeases_sameMail hdropped
  have hsound₃ := hsound₂.congr hsame
  have hkeeps₃ := (hkeeps₁.trans hkeeps₂).trans hsame.keepsEnded
  rcases next with _ | message
  · obtain ⟨-, rfl⟩ := Exec.pure_eq_ok.mp hrun
    exact ⟨hsound₃, hkeeps₃⟩
  · obtain ⟨hmessage, hqueued⟩ := nextMessage_eq_some hnext
    have hmoves := claimMessage_moves hsound₃ hmessage hqueued hrun
    refine ⟨hmoves.sound, hkeeps₃.trans (hmoves.keepsEnded hsound₃ hmessage ?_)⟩
    simp [MailboxMessageStatus.isTerminal, hqueued]

/-! ### Acknowledgements and failures -/

theorem rollbackIfNone_eq_ok {A : Type} {m : Tx (Option A)} {result : Option A}
    (h : rollbackIfNone m db = (.ok result, db')) :
    db' = db ∨ ∃ a, result = some a ∧ m db = (.ok (some a), db') := by
  rcases hrun : m db with ⟨_ | _ | a, last⟩
  · simp [rollbackIfNone, hrun] at h
  · simp only [rollbackIfNone, hrun, Prod.mk.injEq] at h
    exact .inl h.2.symm
  · simp only [rollbackIfNone, hrun, Prod.mk.injEq, Except.ok.injEq] at h
    obtain ⟨rfl, rfl⟩ := h
    exact .inr ⟨a, rfl, rfl⟩

/-- A claimed attempt belongs to a claimed message. -/
theorem Sound.claimedBy (h : Sound db) {attempt : MailboxDeliveryAttempt}
    (hattempt : attempt ∈ db.attempts) (hclaim : attempt.isClaimed = true) :
    ∃ message ∈ db.messages, message.messageId = attempt.messageId ∧ message.status = .claimed ∧
      message.lease.map MailboxLease.id = some attempt.leaseId ∧
        ∀ other ∈ db.attempts, other.messageId = message.messageId → other.isClaimed = true →
          other = attempt := by
  obtain ⟨message, hmessage, hid⟩ := h.known attempt hattempt
  have hclaimed : message.status = .claimed := by
    by_contra hnot
    have hnone := (h.messages message hmessage).unclaimed hnot
    rw [List.filter_eq_nil_iff] at hnone
    exact hnone attempt (List.mem_filter.mpr ⟨hattempt, by simp [hid]⟩) hclaim
  obtain ⟨current, -, -, -, -, hlease, honly⟩ := h.current hmessage hclaimed
  have hmine := honly attempt hattempt hid.symm hclaim
  subst hmine
  exact ⟨message, hmessage, hid, hclaimed, hlease, honly⟩

/-- Closing the attempt that a reference names, and its claim with it. -/
theorem Sound.closeRef (h : Sound db) {ref : MailboxLeaseRef} {attempt : MailboxDeliveryAttempt}
    (hattempt : db.attemptForLease ref = some attempt) (hclaim : attempt.isClaimed = true)
    {f : MailboxMessage → MailboxMessage} {g : MailboxDeliveryAttempt → MailboxDeliveryAttempt}
    (hf : ∀ row, (f row).messageId = row.messageId ∧ (f row).attemptCount = row.attemptCount ∧
      (f row).maxAttempts = row.maxAttempts ∧ (f row).status ≠ .claimed ∧
        ((f row).status = .queued → row.attemptCount < row.maxAttempts))
    (hg : ∀ attempt, (g attempt).messageId = attempt.messageId ∧
      (g attempt).attemptId = attempt.attemptId ∧ (g attempt).isClaimed = false)
    (hack : ∀ attempt row, (g attempt).isAcknowledged = decide ((f row).status = .acknowledged))
    (hmessages : db'.messages = Table.updateWhere
      (fun row => row.messageId = ref.messageId && row.isClaimedWith ref.leaseId) f db.messages)
    (hattempts : db'.attempts = Table.updateWhere
      (fun attempt => attempt.isFor ref && attempt.status = .claimed) g db.attempts) :
    Sound db' ∧ KeepsEnded db db' := by
  have hin : attempt ∈ db.attempts := List.mem_of_find?_eq_some hattempt
  have hfor := List.find?_some hattempt
  simp only [MailboxDeliveryAttempt.isFor, Bool.and_eq_true, decide_eq_true_eq] at hfor
  obtain ⟨⟨hid, hattemptId⟩, hleaseId⟩ := hfor
  obtain ⟨message, hmessage, hmid, hclaimed, hlease, honly⟩ := h.claimedBy hin hclaim
  have hsame : message.messageId = ref.messageId := hmid.trans hid
  rw [← hsame] at hmessages
  have hp : message.isClaimedWith ref.leaseId = true := by
    obtain ⟨lease, hsome, hlid⟩ := Option.map_eq_some_iff.mp hlease
    simp [MailboxMessage.isClaimedWith, hsome, hlid, hleaseId, hclaimed]
  obtain ⟨-, hcount, hmax, hstatus, hleft⟩ := hf message
  have hmoves : Moves message.messageId db db' := by
    refine h.closeClaim hmessage hclaimed hp (fun row => (hf row).1) ?_
      (fun attempt => ⟨(hg attempt).1, (hg attempt).2.1⟩) (fun attempt => (hg attempt).2.2)
      (fun attempt => hack attempt message) hcount hmax hstatus hleft hmessages hattempts
    intro other hother
    rw [Bool.eq_iff_iff, Bool.and_eq_true, Bool.and_eq_true, decide_eq_true_eq, decide_eq_true_eq]
    constructor
    · rintro ⟨hfor, hstatus⟩
      simp only [MailboxDeliveryAttempt.isFor, Bool.and_eq_true, decide_eq_true_eq] at hfor
      exact ⟨hfor.1.1.trans hsame.symm, by simp [MailboxDeliveryAttempt.isClaimed, hstatus]⟩
    · rintro ⟨hof, hstatus⟩
      have heq := honly other hother hof hstatus
      subst heq
      refine ⟨?_, by simpa [MailboxDeliveryAttempt.isClaimed] using hstatus⟩
      simp [MailboxDeliveryAttempt.isFor, hid, hattemptId, hleaseId]
  exact ⟨hmoves.sound, hmoves.keepsEnded h hmessage (by
    simp [MailboxMessageStatus.isTerminal, hclaimed])⟩

theorem ackMessage_sound {ref : MailboxLeaseRef} {nowMs : Int} {result : Option MailboxMessage}
    (h : Sound db) (hrun : ackMessage ref nowMs db = (.ok result, db')) :
    Sound db' ∧ KeepsEnded db db' := by
  unfold ackMessage at hrun
  rcases rollbackIfNone_eq_ok hrun with rfl | ⟨last, -, hbody⟩
  · exact ⟨h, KeepsEnded.refl _⟩
  clear hrun
  simp only [Exec.bind_eq_ok, Exec.gets_eq_ok] at hbody
  obtain ⟨found, _, ⟨hfound, rfl⟩, hrun⟩ := hbody
  rcases found with _ | attempt
  · cases hrun
  rcases hstatus : attempt.status with _ | _ | _ | _
  · simp only [hstatus, ackClaim, closeAttempt, Exec.bind_eq_ok] at hrun
    obtain ⟨_, mid, hclose, row, after, hupdate, hrun⟩ := hrun
    have hmid := updateAttempts_eq_ok hclose
    obtain ⟨-, hafter⟩ := updateMessage_eq_ok hupdate
    rcases row with _ | row
    · cases hrun
    simp only [Exec.bind_eq_ok] at hrun
    obtain ⟨_, final, hreceipt, hpure⟩ := hrun
    obtain ⟨-, rfl⟩ := Exec.pure_eq_ok.mp hpure
    have hmail := insertMailboxReceipt_sameMail hreceipt
    refine h.closeRef hfound (by simp [MailboxDeliveryAttempt.isClaimed, hstatus])
      (f := acknowledgedMessage nowMs)
      (g := fun attempt => { attempt with status := .acknowledged, completedAtMs := some nowMs })
      (fun row => ⟨rfl, rfl, rfl, by simp [acknowledgedMessage], by simp [acknowledgedMessage]⟩)
      (fun attempt => ⟨rfl, rfl, rfl⟩) (fun attempt row => rfl) ?_ ?_
    · rw [hmail.messages, hafter, hmid]
    · rw [hmail.attempts, hafter, hmid]
  · simp only [hstatus, Exec.gets_eq_ok] at hrun
    obtain ⟨-, rfl⟩ := hrun
    exact ⟨h, KeepsEnded.refl _⟩
  · simp [hstatus] at hrun
  · simp [hstatus] at hrun

theorem recordFailure_sameMail {redactStateString : Text → Text} {ref : MailboxLeaseRef}
    {error : Text} {nowMs : Int} {result : Option MailboxMessage}
    (h : recordFailure redactStateString ref error nowMs message db = (.ok result, db')) :
    SameMail db db' := by
  unfold recordFailure at h
  rcases hstatus : message.status with _ | _ | _ | _ | _ | _ | _ <;>
    simp only [hstatus, Exec.bind_eq_ok, Exec.pure_eq_ok] at h
  case poisoned =>
    obtain ⟨_, mid, hletter, _, last, hreceipt, -, rfl⟩ := h
    exact (insertMailboxDeadLetter_sameMail hletter).trans (insertMailboxReceipt_sameMail hreceipt)
  case queued | failed =>
    obtain ⟨_, mid, hreceipt, -, rfl⟩ := h
    exact insertMailboxReceipt_sameMail hreceipt
  all_goals
    obtain ⟨-, rfl⟩ := h
    exact SameMail.refl db

/-- The row that a failure leaves, by its disposition. -/
def failedClaim (error : Text) (nowMs : Int) : MailboxFailDisposition → MailboxMessage →
    MailboxMessage
  | .retry nextAttemptAtMs => failedForRetry error nextAttemptAtMs nowMs
  | .terminal => failedTerminal error nowMs

theorem updateFailedClaim_eq (ref : MailboxLeaseRef) (error : Text) (nowMs : Int)
    (disposition : MailboxFailDisposition) :
    updateFailedClaim ref error nowMs disposition =
      updateMessage ref.messageId (MailboxMessage.isClaimedWith ref.leaseId)
        (failedClaim error nowMs disposition) := by
  cases disposition <;> rfl

theorem failedClaim_spec (error : Text) (nowMs : Int) (disposition : MailboxFailDisposition)
    (row : MailboxMessage) :
    (failedClaim error nowMs disposition row).messageId = row.messageId ∧
      (failedClaim error nowMs disposition row).attemptCount = row.attemptCount ∧
      (failedClaim error nowMs disposition row).maxAttempts = row.maxAttempts ∧
      (failedClaim error nowMs disposition row).status ≠ .claimed ∧
      (failedClaim error nowMs disposition row).status ≠ .acknowledged ∧
        ((failedClaim error nowMs disposition row).status = .queued →
          row.attemptCount < row.maxAttempts) := by
  cases disposition with
  | retry nextAttemptAtMs =>
      rcases statusAfterFailure_cases row with hstatus | ⟨hstatus, hless⟩
      · simp [failedClaim, failedForRetry, hstatus]
      · simp [failedClaim, failedForRetry, hstatus, hless]
  | terminal => simp [failedClaim, failedTerminal]

theorem failMessage_sound {redactStateString : Text → Text} {ref : MailboxLeaseRef} {error : Text}
    {disposition : MailboxFailDisposition} {nowMs : Int} {result : Option MailboxMessage}
    (h : Sound db)
    (hrun : failMessage redactStateString ref error disposition nowMs db = (.ok result, db')) :
    Sound db' ∧ KeepsEnded db db' := by
  unfold failMessage at hrun
  rcases rollbackIfNone_eq_ok hrun with rfl | ⟨last, -, hbody⟩
  · exact ⟨h, KeepsEnded.refl _⟩
  clear hrun
  simp only [Exec.bind_eq_ok, Exec.gets_eq_ok] at hbody
  obtain ⟨found, _, ⟨hfound, rfl⟩, hrun⟩ := hbody
  rcases found with _ | attempt
  · cases hrun
  rcases hstatus : attempt.status with _ | _ | _ | _
  · simp only [hstatus, failClaim, closeAttempt, updateFailedClaim_eq, Exec.bind_eq_ok] at hrun
    obtain ⟨_, mid, hclose, row, after, hupdate, hrun⟩ := hrun
    have hmid := updateAttempts_eq_ok hclose
    obtain ⟨-, hafter⟩ := updateMessage_eq_ok hupdate
    rcases row with _ | row
    · cases hrun
    have hmail := recordFailure_sameMail hrun
    refine h.closeRef hfound (by simp [MailboxDeliveryAttempt.isClaimed, hstatus])
      (f := failedClaim (redactStateString (redactStateString error)) nowMs disposition)
      (g := fun attempt =>
        { attempt with
          status := .failed
          completedAtMs := some nowMs
          error := some (redactStateString error) })
      (fun row => ?_) (fun attempt => ⟨rfl, rfl, rfl⟩) (fun attempt row => ?_) ?_ ?_
    · obtain ⟨hid, hcount, hmax, hnot, -, hleft⟩ := failedClaim_spec
        (redactStateString (redactStateString error)) nowMs disposition row
      exact ⟨hid, hcount, hmax, hnot, hleft⟩
    · have hnot := (failedClaim_spec (redactStateString (redactStateString error)) nowMs
        disposition row).2.2.2.2.1
      simp [MailboxDeliveryAttempt.isAcknowledged, hnot]
    · rw [hmail.messages, hafter, hmid]
    · rw [hmail.attempts, hafter, hmid]
  · simp [hstatus] at hrun
  · simp only [hstatus, Exec.gets_eq_ok] at hrun
    obtain ⟨-, rfl⟩ := hrun
    exact ⟨h, KeepsEnded.refl _⟩
  · simp [hstatus] at hrun

/-! ### New messages -/

theorem Sound.append (h : Sound db) {row : MailboxMessage}
    (hfresh : db.hasConflict row = false) (hchecks : row.passesChecks = true)
    (hstatus : row.status = .queued) (hcount : row.attemptCount = 0)
    (hmessages : db'.messages = db.messages ++ [row]) (hattempts : db'.attempts = db.attempts) :
    Sound db' ∧ KeepsEnded db db' := by
  have hnew : ∀ message ∈ db.messages, message.messageId ≠ row.messageId := by
    intro message hmessage hid
    rw [Db.hasConflict, List.any_eq_false] at hfresh
    exact hfresh message hmessage (by simp [hid])
  have hof : ∀ messageId, db'.attemptsOf messageId = db.attemptsOf messageId := by
    intro messageId
    unfold Db.attemptsOf
    rw [hattempts]
  have hnone : db.attemptsOf row.messageId = [] := by
    rw [Db.attemptsOf, List.filter_eq_nil_iff]
    intro attempt hattempt hid
    obtain ⟨message, hmessage, hsame⟩ := h.known attempt hattempt
    exact hnew message hmessage (hsame.trans (by simpa using hid))
  refine ⟨⟨?_, ?_, ?_, ?_⟩, ?_, ?_⟩
  · rw [hmessages, List.map_append, List.map_singleton, List.nodup_append]
    refine ⟨h.messages_nodup, List.nodup_singleton _, ?_⟩
    intro messageId hmem other hother
    obtain ⟨old, hold, rfl⟩ := List.mem_map.mp hmem
    rw [List.mem_singleton.mp hother]
    exact hnew old hold
  · rw [hattempts]
    exact h.attempts_nodup
  · rw [hattempts, hmessages]
    intro attempt hattempt
    obtain ⟨message, hmessage, hsame⟩ := h.known attempt hattempt
    exact ⟨message, List.mem_append_left _ hmessage, hsame⟩
  · rw [hmessages]
    intro message hmessage
    rw [hof]
    rcases List.mem_append.mp hmessage with hold | hadded
    · exact h.messages message hold
    · rw [List.mem_singleton.mp hadded, hnone]
      simp only [MailboxMessage.passesChecks, Bool.and_eq_true, decide_eq_true_eq] at hchecks
      refine ⟨by simp [hcount], ?_, ?_, ?_, ?_, ?_, ?_⟩
      · omega
      · intro _
        omega
      · simp [hstatus]
      · simp
      · simp
      · simp
  · intro message hmessage _
    rw [hmessages]
    exact List.mem_append_left _ hmessage
  · intro attempt hattempt _
    rw [hattempts]
    exact hattempt

theorem idempotentMessage_eq_ok {targetThreadId : ThreadId} {idempotencyKey : Option Text}
    (h : idempotentMessage targetThreadId idempotencyKey db = (.ok message, db')) : db' = db := by
  rcases idempotencyKey with _ | key
  · cases h
  simp only [idempotentMessage, Exec.bind_eq_ok, Exec.gets_eq_ok] at h
  obtain ⟨found, _, ⟨-, rfl⟩, h⟩ := h
  rcases found with _ | row
  · cases h
  · exact (Exec.pure_eq_ok.mp h).2.symm

theorem insertMessageOrIgnore_eq_ok {row : MailboxMessage} {inserted : Bool}
    (h : insertMessageOrIgnore row db = (.ok inserted, db')) :
    inserted = false ∧ db' = db ∨ inserted = true ∧ db.hasConflict row = false ∧
      row.passesChecks = true ∧ db' = { db with messages := db.messages ++ [row] } := by
  simp only [insertMessageOrIgnore, Exec.bind_eq_ok, Exec.gets_eq_ok] at h
  obtain ⟨conflict, _, ⟨hconflict, rfl⟩, h⟩ := h
  split_ifs at h with hskip
  · obtain ⟨rfl, rfl⟩ := Exec.pure_eq_ok.mp h
    exact .inl ⟨rfl, rfl⟩
  · simp only [Exec.bind_eq_ok, Exec.gets_eq_ok, Store.constrain_eq_ok, Exec.modify_eq_ok,
      Exec.pure_eq_ok] at h
    obtain ⟨_, _, ⟨-, rfl⟩, _, _, ⟨-, rfl⟩, _, _, rfl, rfl, rfl⟩ := h
    simp only [Bool.or_eq_true, Bool.not_eq_true', not_or, Bool.not_eq_true,
      Bool.not_eq_false] at hskip
    exact .inr ⟨rfl, hconflict.trans hskip.1, hskip.2, rfl⟩

theorem enqueueMessage_sound {redactStateString : Text → Text} {params : MailboxEnqueueParams}
    {messageId : Text} {nowMs : Int} {outcome : MailboxEnqueueOutcome} (h : Sound db)
    (hrun : enqueueMessage redactStateString params messageId nowMs db = (.ok outcome, db')) :
    Sound db' ∧ KeepsEnded db db' := by
  simp only [enqueueMessage, Exec.bind_eq_ok] at hrun
  obtain ⟨inserted, mid, hinsert, hrun⟩ := hrun
  rcases insertMessageOrIgnore_eq_ok hinsert with ⟨rfl, rfl⟩ | ⟨rfl, hfresh, hchecks, hmid⟩
  · simp only [Bool.false_eq_true, if_false, Exec.bind_eq_ok, Exec.pure_eq_ok] at hrun
    obtain ⟨existing, _, hfound, -, rfl⟩ := hrun
    rw [idempotentMessage_eq_ok hfound]
    exact ⟨h, KeepsEnded.refl _⟩
  · simp only [if_true, Exec.bind_eq_ok, Exec.pure_eq_ok] at hrun
    obtain ⟨_, last, hreceipt, -, rfl⟩ := hrun
    have hmail := insertMailboxReceipt_sameMail hreceipt
    refine h.append hfresh hchecks rfl rfl ?_ ?_
    · rw [hmail.messages, hmid]
    · rw [hmail.attempts, hmid]

end Operations

/-! ## Runs -/

section Runs

variable (redactStateString : Text → Text)

theorem sound_empty (threads : List ThreadId) : Sound { threads } where
  messages_nodup := List.nodup_nil
  attempts_nodup := List.nodup_nil
  known _ hattempt := absurd hattempt (List.not_mem_nil)
  messages _ hmessage := absurd hmessage (List.not_mem_nil)

/-- What a transaction keeps when it returns, it keeps. -/
theorem transaction_sound {A : Type} {m : Tx A} {db : Db} (h : Sound db)
    (hm : ∀ a db', m db = (.ok a, db') → Sound db' ∧ KeepsEnded db db') :
    Sound (Exec.transaction m db).2 ∧ KeepsEnded db (Exec.transaction m db).2 :=
  Exec.transaction_invariant (J := fun db' => Sound db' ∧ KeepsEnded db db') hm
    ⟨h, KeepsEnded.refl db⟩

theorem applyOperation_sound (operation : Operation) {db : Db} (h : Sound db) :
    Sound (applyOperation redactStateString operation db) ∧
      KeepsEnded db (applyOperation redactStateString operation db) := by
  cases operation with
  | enqueue params messageId nowMs =>
      exact transaction_sound h fun _ _ hrun => enqueueMessage_sound h hrun
  | claim params => exact transaction_sound h fun _ _ hrun => claimNextMessage_sound h hrun
  | ack ref nowMs => exact transaction_sound h fun _ _ hrun => ackMessage_sound h hrun
  | fail ref error disposition nowMs =>
      exact transaction_sound h fun _ _ hrun => failMessage_sound h hrun
  | release targetThreadId ownerId leaseId =>
      refine transaction_sound h fun _ db' hrun => ?_
      rw [releaseDispatchTargetLease, Exec.modify_eq_ok] at hrun
      subst hrun
      exact ⟨h.congr ⟨rfl, rfl⟩, SameMail.keepsEnded ⟨rfl, rfl⟩⟩

theorem Reaches.sound {threads : List ThreadId} {db : Db}
    (h : Reaches (applyOperation redactStateString) (fun _ _ => True) { threads } db) : Sound db :=
  h.invariant (sound_empty threads) fun operation _ _ hsound =>
    (applyOperation_sound redactStateString operation hsound).1

theorem Reaches.keepsEnded {db later : Db} (hsound : Sound db)
    (h : Reaches (applyOperation redactStateString) (fun _ _ => True) db later) :
    Sound later ∧ KeepsEnded db later :=
  h.invariant (J := fun later => Sound later ∧ KeepsEnded db later) ⟨hsound, KeepsEnded.refl db⟩
    fun operation _ _ hlater =>
      ⟨(applyOperation_sound redactStateString operation hlater.1).1,
        hlater.2.trans (applyOperation_sound redactStateString operation hlater.1).2⟩

/-- No message is claimed with the lease that the reference names. -/
def Db.isSuperseded (db : Db) (ref : MailboxLeaseRef) : Bool :=
  !db.messages.any fun message => message.messageId = ref.messageId &&
    message.isClaimedWith ref.leaseId

variable {redactStateString}

theorem Sound.not_claimed_of_isSuperseded {db : Db} (h : Sound db) {ref : MailboxLeaseRef}
    (hsuperseded : db.isSuperseded ref = true) {attempt : MailboxDeliveryAttempt}
    (hattempt : db.attemptForLease ref = some attempt) : attempt.status ≠ .claimed := by
  intro hstatus
  have hfor := List.find?_some hattempt
  simp only [MailboxDeliveryAttempt.isFor, Bool.and_eq_true, decide_eq_true_eq] at hfor
  obtain ⟨message, hmessage, hmid, hclaimed, hlease, -⟩ :=
    h.claimedBy (List.mem_of_find?_eq_some hattempt)
      (by simp [MailboxDeliveryAttempt.isClaimed, hstatus])
  obtain ⟨lease, hsome, hlid⟩ := Option.map_eq_some_iff.mp hlease
  rw [Db.isSuperseded, Bool.not_eq_true', List.any_eq_false] at hsuperseded
  refine hsuperseded message hmessage ?_
  simp [hmid, hfor.1.1, MailboxMessage.isClaimedWith, hsome, hlid, hfor.2, hclaimed]

/-- A reference to a lease that is not held any more finds no claim to end. -/
theorem ackMessage_eq_self {db db' : Db} (h : Sound db) {ref : MailboxLeaseRef}
    (hsuperseded : db.isSuperseded ref = true) {nowMs : Int} {result : Option MailboxMessage}
    (hrun : ackMessage ref nowMs db = (.ok result, db')) : db' = db := by
  unfold ackMessage at hrun
  rcases rollbackIfNone_eq_ok hrun with rfl | ⟨last, -, hbody⟩
  · rfl
  simp only [Exec.bind_eq_ok, Exec.gets_eq_ok] at hbody
  obtain ⟨found, _, ⟨hfound, rfl⟩, hbody⟩ := hbody
  rcases found with _ | attempt
  · cases hbody
  rcases hstatus : attempt.status with _ | _ | _ | _
  · exact absurd hstatus (h.not_claimed_of_isSuperseded hsuperseded hfound)
  · simp only [hstatus, Exec.gets_eq_ok] at hbody
    exact hbody.2.symm
  · simp [hstatus] at hbody
  · simp [hstatus] at hbody

theorem failMessage_eq_self {db db' : Db} (h : Sound db) {ref : MailboxLeaseRef}
    (hsuperseded : db.isSuperseded ref = true) {error : Text} {nowMs : Int}
    {disposition : MailboxFailDisposition} {result : Option MailboxMessage}
    (hrun : failMessage redactStateString ref error disposition nowMs db = (.ok result, db')) :
    db' = db := by
  unfold failMessage at hrun
  rcases rollbackIfNone_eq_ok hrun with rfl | ⟨last, -, hbody⟩
  · rfl
  simp only [Exec.bind_eq_ok, Exec.gets_eq_ok] at hbody
  obtain ⟨found, _, ⟨hfound, rfl⟩, hbody⟩ := hbody
  rcases found with _ | attempt
  · cases hbody
  rcases hstatus : attempt.status with _ | _ | _ | _
  · exact absurd hstatus (h.not_claimed_of_isSuperseded hsuperseded hfound)
  · simp [hstatus] at hbody
  · simp only [hstatus, Exec.gets_eq_ok] at hbody
    exact hbody.2.symm
  · simp [hstatus] at hbody

/-- A message is claimed if and only if one attempt of its own is, the last one, with its lease. -/
theorem MessageSound.claimed_iff {message : MailboxMessage}
    {attempts : List MailboxDeliveryAttempt} (h : MessageSound message attempts) :
    message.status = .claimed ↔
      ∃ attempt, attempts.filter MailboxDeliveryAttempt.isClaimed = [attempt] ∧
        message.lastAttemptId = some attempt.attemptId ∧
          message.lease.map MailboxLease.id = some attempt.leaseId := by
  constructor
  · exact h.claimed
  · rintro ⟨attempt, honly, -, -⟩
    by_contra hnot
    rw [h.unclaimed hnot] at honly
    cases honly

/-- Whatever the workers do, in whatever order and with whatever clocks. -/
theorem delivery_sound {threads : List ThreadId} {db : Db}
    (h : Reaches (applyOperation redactStateString) (fun _ _ => True) { threads } db) :
    (db.messages.map MailboxMessage.messageId).Nodup ∧
      (∀ message ∈ db.messages,
        (message.status = .claimed ↔
          ∃ attempt, (db.attemptsOf message.messageId).filter MailboxDeliveryAttempt.isClaimed =
              [attempt] ∧
            message.lastAttemptId = some attempt.attemptId ∧
              message.lease.map MailboxLease.id = some attempt.leaseId) ∧
        message.attemptCount = (db.attemptsOf message.messageId).length ∧
        message.attemptCount ≤ message.maxAttempts ∧
        (message.status = .queued → message.attemptCount < message.maxAttempts) ∧
        ((db.attemptsOf message.messageId).filter
          MailboxDeliveryAttempt.isAcknowledged).length ≤ 1) ∧
      (∀ later, Reaches (applyOperation redactStateString) (fun _ _ => True) db later →
        (∀ message ∈ db.messages, message.status.isTerminal = true →
          message ∈ later.messages ∧
            ∀ row ∈ later.messages, row.messageId = message.messageId → row = message) ∧
        ∀ attempt ∈ db.attempts, attempt.isAcknowledged = true → attempt ∈ later.attempts) ∧
      ∀ ref, db.isSuperseded ref = true → ∀ nowMs,
        applyOperation redactStateString (.ack ref nowMs) db = db ∧
          ∀ error disposition,
            applyOperation redactStateString (.fail ref error disposition nowMs) db = db := by
  have hsound := Reaches.sound redactStateString h
  refine ⟨hsound.messages_nodup, fun message hmessage => ?_, fun later hlater => ?_, ?_⟩
  · have hmine := hsound.messages message hmessage
    exact ⟨hmine.claimed_iff, hmine.count, hmine.count_le, hmine.left, hmine.acknowledged_le⟩
  · obtain ⟨hsoundLater, hkeeps⟩ := Reaches.keepsEnded redactStateString hsound hlater
    refine ⟨fun message hmessage hended => ?_, hkeeps.attempts⟩
    have hkept := hkeeps.messages message hmessage hended
    exact ⟨hkept, fun row hrow hid => hsoundLater.eq_of_messageId_eq hrow hkept hid⟩
  · intro ref hsuperseded nowMs
    constructor
    · exact Exec.transaction_invariant (J := fun db' => db' = db)
        (fun _ _ hrun => ackMessage_eq_self hsound hsuperseded hrun) rfl
    · intro error disposition
      exact Exec.transaction_invariant (J := fun db' => db' = db)
        (fun _ _ hrun => failMessage_eq_self hsound hsuperseded hrun) rfl

/-- Two workers on one message: the lease of the first expires, and it answers too late. -/
def lateWorker : List Operation :=
  let thread : ThreadId := ⟨"t".toList⟩
  let payload : MailboxPayload := ⟨"hi".toList, none, none, none, none⟩
  [.enqueue ⟨thread, none, none, none, .userInstruction, payload, "hi".toList, 0, 3, none, none⟩
      "m".toList 10,
    .claim ⟨.target thread, "first".toList, 20, 11, "l1".toList, "a1".toList, []⟩,
    .claim ⟨.target thread, "second".toList, 50, 30, "l2".toList, "a2".toList, []⟩,
    .ack ⟨"m".toList, "a1".toList, "l1".toList⟩ 31]

theorem delivery_sound_lateWorker :
    let db := runOps (applyOperation id) lateWorker { threads := [⟨"t".toList⟩] }
    (db.messages.map fun message => (message.status, message.attemptCount)) = [(.claimed, 2)] ∧
      applyOperation id (.fail ⟨"m".toList, "a1".toList, "l1".toList⟩ "late".toList .terminal 32)
        db = db := by
  intro db
  have hreach : Reaches (applyOperation id) (fun _ _ => True) { threads := [⟨"t".toList⟩] } db :=
    .of_runOps lateWorker .start
  refine ⟨by decide +kernel, ?_⟩
  exact ((delivery_sound hreach).2.2.2 ⟨"m".toList, "a1".toList, "l1".toList⟩ (by decide +kernel)
    32).2 _ _

end Runs

end Codewith.Mailbox
