import Codewith.Lib.Decimal
import Codewith.Lib.Paging
import Codewith.Lib.Result
import Codewith.Mailbox.Schema

/-!
# Listing the messages page by page

`list_mailbox_messages` of `listing.rs` and the cursors of `cursor.rs`.  The rows are ordered by
their stored time, but the cursor is made from the time of the message as it is read back, and a
stored time before 2020 is read as one in seconds.  The pages are therefore exact when no page ends
at a message whose cursor points elsewhere.

A time is the number of its milliseconds.  Which of them a date can represent is a parameter, as
dates come from a library.
-/

namespace Codewith.Mailbox

open Lib
open GoalStore (ThreadId textLe)

/-! ## Times -/

def minEpochMillis : Int := 1577836800000

def saturatingMul (a b : Int) : Int := max (-(2 ^ 63)) (min (2 ^ 63 - 1) (a * b))

/-- Older values are taken for seconds. -/
def legacyMillis (value : Int) : Int :=
  if value < minEpochMillis then saturatingMul value 1000 else value

section

variable (representable : Int → Bool)

def epochMillisToDatetime (value : Int) : Except Text Int :=
  if representable (legacyMillis value) then .ok (legacyMillis value)
  else .error ("invalid unix timestamp millis: ".toList ++ Decimal.format value)

def optionalEpochMillisToDatetime : Option Int → Except Text (Option Int)
  | none => .ok none
  | some value => (epochMillisToDatetime representable value).map some

def leaseFromRow : Option MailboxLease → Except Text (Option MailboxLease)
  | none => .ok none
  | some lease =>
      (epochMillisToDatetime representable lease.expiresAtMs).map fun expiresAtMs =>
        some { lease with expiresAtMs }

def mailboxMessageFromRow (row : MailboxMessage) : Except Text MailboxMessage := do
  let nextAttemptAtMs ← epochMillisToDatetime representable row.nextAttemptAtMs
  let lease ← leaseFromRow representable row.lease
  let expiresAtMs ← optionalEpochMillisToDatetime representable row.expiresAtMs
  let acknowledgedAtMs ← optionalEpochMillisToDatetime representable row.acknowledgedAtMs
  let terminalAtMs ← optionalEpochMillisToDatetime representable row.terminalAtMs
  let createdAtMs ← epochMillisToDatetime representable row.createdAtMs
  let updatedAtMs ← epochMillisToDatetime representable row.updatedAtMs
  pure
    { row with
      nextAttemptAtMs, lease, expiresAtMs, acknowledgedAtMs, terminalAtMs, createdAtMs,
      updatedAtMs }

end

/-! ## Cursors -/

structure MailboxCursor where
  createdAtMs : Int
  messageId : Text
  deriving DecidableEq, Repr

def encodeMailboxCursor (createdAt : Int) (messageId : Text) : Text :=
  Decimal.format createdAt ++ ':' :: messageId

/-- `split_once(':')`. -/
def splitOnceColon (s : Text) : Option (Text × Text) :=
  match s.dropWhile (· ≠ ':') with
  | [] => none
  | _ :: rest => some (s.takeWhile (· ≠ ':'), rest)

def invalidMailboxCursor : Text := "invalid mailbox cursor".toList

def decodeMailboxCursor (cursor : Text) : Except Text MailboxCursor :=
  match splitOnceColon cursor with
  | none => .error invalidMailboxCursor
  | some (createdAtMs, messageId) => do
      let createdAtMs ← Decimal.parseI64 createdAtMs
      if Text.trim messageId = [] then .error invalidMailboxCursor
      else pure { createdAtMs, messageId }

/-! ## Pages -/

def maxMailboxMessageListLimit : Nat := 100

structure MailboxMessageStoreListParams where
  targetThreadId : Option ThreadId
  statuses : List MailboxMessageStatus
  cursor : Option Text
  limit : Nat
  deriving DecidableEq, Repr

structure MailboxMessagePage where
  data : List MailboxMessage
  nextCursor : Option Text
  deriving DecidableEq, Repr

def MailboxMessageStoreListParams.pageSize (params : MailboxMessageStoreListParams) : Nat :=
  max 1 (min params.limit maxMailboxMessageListLimit)

def MailboxMessageStoreListParams.selects (params : MailboxMessageStoreListParams)
    (row : MailboxMessage) : Bool :=
  params.targetThreadId.all (row.targetThreadId = ·) &&
    (params.statuses.isEmpty || row.status ∈ params.statuses)

/-- `created_at_ms < ? OR (created_at_ms = ? AND message_id > ?)`. -/
def MailboxCursor.isBefore (cursor : MailboxCursor) (row : MailboxMessage) : Bool :=
  row.createdAtMs < cursor.createdAtMs ||
    row.createdAtMs = cursor.createdAtMs && !textLe row.messageId cursor.messageId

/-- `ORDER BY created_at_ms DESC, message_id ASC`. -/
def listsBefore (a b : MailboxMessage) : Prop :=
  b.createdAtMs < a.createdAtMs ∨ a.createdAtMs = b.createdAtMs ∧
    textLe a.messageId b.messageId = true

instance : DecidableRel listsBefore := fun _ _ => inferInstanceAs (Decidable (_ ∨ _))

def decodeOptionalCursor : Option Text → Except Text (Option MailboxCursor)
  | none => .ok none
  | some cursor => (decodeMailboxCursor cursor).map some

/-- The page of the messages that were read, of which the last one may be too many. -/
def pageOf (limit : Nat) (data : List MailboxMessage) : MailboxMessagePage :=
  if limit < data.length then
    { data := data.take limit
      nextCursor := (data.take limit).getLast?.map fun message =>
        encodeMailboxCursor message.createdAtMs message.messageId }
  else { data, nextCursor := none }

section

variable (representable : Int → Bool)

def listMailboxMessages (db : Db) (params : MailboxMessageStoreListParams) :
    Except Text MailboxMessagePage := do
  let cursor ← decodeOptionalCursor params.cursor
  let rows := Table.selectOrdered
    (fun row => params.selects row && cursor.all (·.isBefore row)) listsBefore db.messages
  let data ← (rows.take (params.pageSize + 1)).mapM (mailboxMessageFromRow representable)
  pure (pageOf params.pageSize data)

/-- Ask for page after page, each with the cursor of the one before.  The fuel bounds their
number. -/
def listAllMailboxMessages (db : Db) (params : MailboxMessageStoreListParams) :
    Nat → Option Text → Option (Except Text (List MailboxMessage))
  | 0, _ => none
  | fuel + 1, cursor =>
      match listMailboxMessages representable db { params with cursor } with
      | .error message => some (.error message)
      | .ok ⟨data, none⟩ => some (.ok data)
      | .ok ⟨data, some next⟩ =>
          (listAllMailboxMessages db params fuel (some next)).map fun more => more.map (data ++ ·)

end

/-! ## The order -/

theorem textLe_refl (s : Text) : textLe s s = true := by
  induction s with
  | nil => rfl
  | cons c s ih => simp [textLe, ih]

theorem textLe_total (s t : Text) : textLe s t = true ∨ textLe t s = true := by
  induction s generalizing t with
  | nil => simp [textLe]
  | cons c s ih =>
      cases t with
      | nil => simp [textLe]
      | cons d t =>
          rcases lt_trichotomy c.toNat d.toNat with h | h | h
          · simp [textLe, h]
          · simpa [textLe, Char.toNat_inj.1 h] using ih t
          · simp [textLe, h]

theorem textLe_trans {s t u : Text} (h : textLe s t = true) (h' : textLe t u = true) :
    textLe s u = true := by
  induction s generalizing t u with
  | nil => simp [textLe]
  | cons c s ih =>
      cases t with
      | nil => simp [textLe] at h
      | cons d t =>
          cases u with
          | nil => simp [textLe] at h'
          | cons e u =>
              simp only [textLe, Bool.or_eq_true, Bool.and_eq_true, decide_eq_true_eq] at *
              rcases h with h | ⟨rfl, h⟩
              · rcases h' with h' | ⟨rfl, -⟩
                · exact .inl (h.trans h')
                · exact .inl h
              · rcases h' with h' | ⟨rfl, h'⟩
                · exact .inl h'
                · exact .inr ⟨rfl, ih h h'⟩

theorem textLe_antisymm {s t : Text} (h : textLe s t = true) (h' : textLe t s = true) : s = t := by
  induction s generalizing t with
  | nil =>
      cases t with
      | nil => rfl
      | cons d t => simp [textLe] at h'
  | cons c s ih =>
      cases t with
      | nil => simp [textLe] at h
      | cons d t =>
          simp only [textLe, Bool.or_eq_true, Bool.and_eq_true, decide_eq_true_eq] at h h'
          rcases h with h | ⟨rfl, h⟩
          · rcases h' with h' | ⟨rfl, -⟩ <;> omega
          · rcases h' with h' | ⟨-, h'⟩
            · omega
            · rw [ih h h']

theorem listsBefore_total (a b : MailboxMessage) : listsBefore a b ∨ listsBefore b a := by
  rcases lt_trichotomy a.createdAtMs b.createdAtMs with h | h | h
  · exact .inr (.inl h)
  · rcases textLe_total a.messageId b.messageId with hid | hid
    · exact .inl (.inr ⟨h, hid⟩)
    · exact .inr (.inr ⟨h.symm, hid⟩)
  · exact .inl (.inl h)

theorem listsBefore_trans {a b c : MailboxMessage} (h : listsBefore a b) (h' : listsBefore b c) :
    listsBefore a c := by
  rcases h with h | ⟨h, hid⟩
  · rcases h' with h' | ⟨h', -⟩
    · exact .inl (h'.trans h)
    · exact .inl (h' ▸ h)
  · rcases h' with h' | ⟨h', hid'⟩
    · exact .inl (h ▸ h')
    · exact .inr ⟨h.trans h', textLe_trans hid hid'⟩

theorem messageId_eq_of_listsBefore {a b : MailboxMessage} (h : listsBefore a b)
    (h' : listsBefore b a) : a.messageId = b.messageId := by
  rcases h with h | ⟨h, hid⟩
  · rcases h' with h' | ⟨h', -⟩ <;> omega
  · rcases h' with h' | ⟨-, hid'⟩
    · omega
    · exact textLe_antisymm hid hid'

instance : Std.Total listsBefore := ⟨listsBefore_total⟩

instance : IsTrans MailboxMessage listsBefore := ⟨fun _ _ _ => listsBefore_trans⟩

theorem MailboxCursor.isBefore_iff {cursor : MailboxCursor} {row : MailboxMessage} :
    cursor.isBefore row = true ↔ row.createdAtMs < cursor.createdAtMs ∨
      row.createdAtMs = cursor.createdAtMs ∧ ¬ textLe row.messageId cursor.messageId = true := by
  simp [MailboxCursor.isBefore]

/-- What comes after a cursor is followed by what does. -/
theorem MailboxCursor.isBefore_of_listsBefore (cursor : MailboxCursor) {a b : MailboxMessage}
    (h : listsBefore a b) (ha : cursor.isBefore a = true) : cursor.isBefore b = true := by
  rw [MailboxCursor.isBefore_iff] at *
  rcases h with h | ⟨h, hid⟩
  · rcases ha with ha | ⟨ha, -⟩ <;> left <;> omega
  · rcases ha with ha | ⟨ha, hid'⟩
    · left; omega
    · exact .inr ⟨h ▸ ha, fun hle => hid' (textLe_trans hid hle)⟩

/-! ## The messages that are listed -/

section

variable {db : Db} {params : MailboxMessageStoreListParams}

/-- The messages that a filter selects, in their order. -/
def Db.listed (db : Db) (params : MailboxMessageStoreListParams) : List MailboxMessage :=
  Table.selectOrdered params.selects listsBefore db.messages

theorem listed_perm : (db.listed params).Perm (db.messages.filter params.selects) :=
  List.perm_insertionSort _ _

theorem listed_pairwise : (db.listed params).Pairwise listsBefore :=
  List.pairwise_insertionSort _ _

theorem eq_of_messageId_eq (hnodup : (db.messages.map MailboxMessage.messageId).Nodup)
    {a b : MailboxMessage} (ha : a ∈ db.messages) (hb : b ∈ db.messages)
    (h : a.messageId = b.messageId) : a = b :=
  List.inj_on_of_nodup_map hnodup ha hb h

theorem mem_messages_of_mem_listed {row : MailboxMessage} (h : row ∈ db.listed params) :
    row ∈ db.messages :=
  List.mem_of_mem_filter (listed_perm.mem_iff.1 h)

/-- Two lists in this order with the same rows of the table are equal. -/
theorem eq_of_perm_of_pairwise (hnodup : (db.messages.map MailboxMessage.messageId).Nodup)
    {rows rows' : List MailboxMessage} (hrows : ∀ row ∈ rows, row ∈ db.messages)
    (hperm : rows.Perm rows') (hpairwise : rows.Pairwise listsBefore)
    (hpairwise' : rows'.Pairwise listsBefore) : rows = rows' := by
  apply hperm.eq_of_pairwise _ hpairwise hpairwise'
  intro a b ha hb hab hba
  exact eq_of_messageId_eq hnodup (hrows a ha) (hrows b (hperm.mem_iff.2 hb))
    (messageId_eq_of_listsBefore hab hba)

/-- A query with a cursor selects among the messages that are listed. -/
theorem selectOrdered_cursor (hnodup : (db.messages.map MailboxMessage.messageId).Nodup)
    (cursor : Option MailboxCursor) :
    Table.selectOrdered (fun row => params.selects row && cursor.all (·.isBefore row)) listsBefore
      db.messages = Paging.rowsFrom MailboxCursor.isBefore (db.listed params) cursor := by
  cases cursor with
  | none => simp [Paging.rowsFrom, Db.listed]
  | some cursor =>
      have hperm : (Table.selectOrdered (fun row => params.selects row && cursor.isBefore row)
          listsBefore db.messages).Perm ((db.listed params).filter cursor.isBefore) := by
        refine (List.perm_insertionSort _ _).trans ?_
        have hand : (fun row => params.selects row && cursor.isBefore row) =
            fun row => cursor.isBefore row && params.selects row := by
          funext row
          exact Bool.and_comm _ _
        rw [hand, ← List.filter_filter]
        exact (listed_perm.filter _).symm
      apply eq_of_perm_of_pairwise hnodup _ hperm (List.pairwise_insertionSort _ _)
        (listed_pairwise.filter _)
      intro row hrow
      exact mem_messages_of_mem_listed (List.mem_of_mem_filter (hperm.mem_iff.1 hrow))

theorem listed_nodup (hnodup : (db.messages.map MailboxMessage.messageId).Nodup) :
    (db.listed params).Nodup :=
  listed_perm.nodup_iff.2 (hnodup.of_map.filter _)

def MailboxMessage.ownCursor (row : MailboxMessage) : MailboxCursor :=
  ⟨row.createdAtMs, row.messageId⟩

/-- The cursor that a page ending at a row returns. -/
def MailboxMessage.readCursor (row : MailboxMessage) : MailboxCursor :=
  ⟨legacyMillis row.createdAtMs, row.messageId⟩

theorem ownCursor_isBefore_iff {row other : MailboxMessage} :
    row.ownCursor.isBefore other = true ↔ ¬ listsBefore other row := by
  rw [MailboxCursor.isBefore_iff]
  simp only [listsBefore, MailboxMessage.ownCursor]
  constructor
  · rintro (h | ⟨h, hid⟩) (h' | ⟨h', hid'⟩)
    · omega
    · omega
    · omega
    · exact hid hid'
  · intro h
    rcases lt_trichotomy other.createdAtMs row.createdAtMs with hlt | heq | hgt
    · exact .inl hlt
    · exact .inr ⟨heq, fun hid => h (.inr ⟨heq, hid⟩)⟩
    · exact absurd (.inl hgt) h

/-- The rows after one of those listed. -/
theorem filter_ownCursor (hnodup : (db.messages.map MailboxMessage.messageId).Nodup)
    {front rest : List MailboxMessage} {row : MailboxMessage}
    (h : db.listed params = front ++ row :: rest) :
    (db.listed params).filter row.ownCursor.isBefore = rest := by
  have hpairwise : (db.listed params).Pairwise listsBefore := listed_pairwise
  have hdistinct : (db.listed params).Nodup := listed_nodup hnodup
  rw [h] at hpairwise hdistinct
  obtain ⟨-, htail, hfront⟩ := List.pairwise_append.1 hpairwise
  obtain ⟨hrest, -⟩ := List.pairwise_cons.1 htail
  have hrow : row ∉ rest := (List.nodup_cons.1 (List.nodup_append.1 hdistinct).2.1).1
  have hnone : front.filter row.ownCursor.isBefore = [] := by
    apply List.filter_eq_nil_iff.2
    intro other hother
    rw [ownCursor_isBefore_iff]
    exact not_not_intro (hfront other hother row List.mem_cons_self)
  have hself : row.ownCursor.isBefore row ≠ true := by
    rw [Ne, ownCursor_isBefore_iff]
    exact not_not_intro (.inr ⟨rfl, textLe_refl _⟩)
  have hall : rest.filter row.ownCursor.isBefore = rest := by
    apply List.filter_eq_self.2
    intro other hother
    rw [ownCursor_isBefore_iff]
    intro hback
    have hsame : other = row := by
      apply eq_of_messageId_eq hnodup _ _ (messageId_eq_of_listsBefore hback (hrest other hother))
      · exact mem_messages_of_mem_listed (h ▸ by simp [hother] : other ∈ db.listed params)
      · exact mem_messages_of_mem_listed (h ▸ by simp : row ∈ db.listed params)
    exact hrow (hsame ▸ hother)
  rw [h, List.filter_append, hnone, List.nil_append, List.filter_cons_of_neg hself, hall]

/-! ## Page ends -/

/-- A page may end at a row: its time is read back as it is, or it is one before 1970 and no listed
message lies between it and the time that is read back. -/
def MailboxMessage.MayEndPage (row : MailboxMessage) (rest : List MailboxMessage) : Prop :=
  row.createdAtMs = 0 ∨ minEpochMillis ≤ row.createdAtMs ∨
    row.createdAtMs < 0 ∧ ∀ other ∈ rest, row.readCursor.isBefore other = true

/-- Every page that has a next one ends at a row where it may. -/
def Db.PageEndsKept (db : Db) (params : MailboxMessageStoreListParams) : Prop :=
  ∀ front row rest, db.listed params = front ++ row :: rest →
    params.pageSize ∣ front.length + 1 → rest ≠ [] → row.MayEndPage rest

theorem legacyMillis_zero : legacyMillis 0 = 0 := by decide

theorem legacyMillis_of_le {value : Int} (h : minEpochMillis ≤ value) :
    legacyMillis value = value :=
  if_neg (Int.not_lt.2 h)

theorem lt_legacyMillis {value : Int} (hpos : 0 < value) (h : value < minEpochMillis) :
    value < legacyMillis value := by
  rw [legacyMillis, if_pos h, saturatingMul]
  rw [minEpochMillis] at h
  omega

theorem legacyMillis_le {value : Int} (hneg : value < 0) (hrange : Decimal.IsI64 value) :
    legacyMillis value ≤ value := by
  have hlow := hrange.1
  rw [legacyMillis, if_pos (by rw [minEpochMillis]; omega), saturatingMul]
  omega

/-- A cursor further on selects fewer rows. -/
theorem ownCursor_isBefore_of_readCursor {row other : MailboxMessage}
    (hle : legacyMillis row.createdAtMs ≤ row.createdAtMs)
    (h : row.readCursor.isBefore other = true) : row.ownCursor.isBefore other = true := by
  rw [MailboxCursor.isBefore_iff] at *
  simp only [MailboxMessage.readCursor, MailboxMessage.ownCursor] at *
  rcases h with h | ⟨h, hid⟩
  · left; omega
  · rcases Int.lt_or_eq_of_le hle with hlt | heq
    · left; omega
    · exact .inr ⟨h.trans heq, hid⟩

theorem filter_readCursor_eq_iff (hnodup : (db.messages.map MailboxMessage.messageId).Nodup)
    (hrange : ∀ row ∈ db.messages, Decimal.IsI64 row.createdAtMs)
    {front rest : List MailboxMessage} {row : MailboxMessage}
    (h : db.listed params = front ++ row :: rest) :
    (db.listed params).filter row.readCursor.isBefore = rest ↔ row.MayEndPage rest := by
  have hown := filter_ownCursor hnodup h
  have hmem : row ∈ db.listed params := h ▸ by simp
  have hsame : legacyMillis row.createdAtMs = row.createdAtMs → row.readCursor = row.ownCursor := by
    intro heq
    rw [MailboxMessage.readCursor, heq, MailboxMessage.ownCursor]
  rcases lt_trichotomy row.createdAtMs 0 with hneg | hzero | hpos
  · -- the rows that the cursor selects are among the rest
    have hle := legacyMillis_le hneg (hrange row (mem_messages_of_mem_listed hmem))
    have hsub : (db.listed params).filter row.readCursor.isBefore =
        rest.filter row.readCursor.isBefore := by
      rw [← hown, List.filter_filter]
      apply List.filter_congr
      intro other _
      rcases hread : row.readCursor.isBefore other with _ | _
      · simp
      · simp [ownCursor_isBefore_of_readCursor hle hread]
    rw [hsub, List.filter_eq_self]
    have hold : ¬ minEpochMillis ≤ row.createdAtMs := by rw [minEpochMillis]; omega
    simp only [MailboxMessage.MayEndPage, hneg.ne, hold, hneg, true_and, false_or]
  · rw [hsame (by rw [hzero, legacyMillis_zero]), hown]
    exact iff_of_true rfl (.inl hzero)
  · by_cases hnew : minEpochMillis ≤ row.createdAtMs
    · rw [hsame (legacyMillis_of_le hnew), hown]
      exact iff_of_true rfl (.inr (.inl hnew))
    · -- the row comes after its own cursor, so that the next page starts with it or before it
      have hlater := lt_legacyMillis hpos (Int.not_le.1 hnew)
      refine iff_of_false ?_ ?_
      · intro hrest
        have hagain : row ∈ rest := by
          rw [← hrest, List.mem_filter]
          exact ⟨hmem, MailboxCursor.isBefore_iff.2 (.inl hlater)⟩
        have hdistinct : (db.listed params).Nodup := listed_nodup hnodup
        rw [h] at hdistinct
        exact (List.nodup_cons.1 (List.nodup_append.1 hdistinct).2.1).1 hagain
      · rintro (hzero | hold | ⟨hneg, -⟩)
        · omega
        · exact hnew hold
        · omega

end

/-! ## Reading the cursors and the rows back -/

theorem splitOnceColon_append {s : Text} (h : ':' ∉ s) (t : Text) :
    splitOnceColon (s ++ ':' :: t) = some (s, t) := by
  have hs : ∀ c ∈ s, decide (c ≠ ':') = true := by
    intro c hc
    rw [decide_eq_true_eq]
    rintro rfl
    exact h hc
  rw [splitOnceColon, List.dropWhile_append_of_pos hs, List.takeWhile_append_of_pos hs]
  simp

theorem decodeMailboxCursor_encode {createdAtMs : Int} {messageId : Text}
    (hrange : Decimal.IsI64 createdAtMs) (hid : Text.trim messageId ≠ []) :
    decodeMailboxCursor (encodeMailboxCursor createdAtMs messageId) =
      .ok ⟨createdAtMs, messageId⟩ := by
  have hcolon : ':' ∉ Decimal.format createdAtMs :=
    Decimal.not_mem_format (by decide) (by decide) createdAtMs
  rw [decodeMailboxCursor, encodeMailboxCursor, splitOnceColon_append hcolon]
  simp only [Decimal.parseI64_format hrange]
  exact if_neg hid

theorem isI64_legacyMillis {value : Int} (h : Decimal.IsI64 value) :
    Decimal.IsI64 (legacyMillis value) := by
  have hlow := h.1
  have hhigh := h.2
  unfold legacyMillis saturatingMul Decimal.IsI64
  split
  · constructor <;> omega
  · exact h

section

variable (representable : Int → Bool)

/-- A table of messages: their ids are distinct and not blank, as they are new UUIDs, a stored time
has 64 bits, and a row can be read back, as every statement that writes one reads it back. -/
structure Db.Listable (db : Db) : Prop where
  ids_nodup : (db.messages.map MailboxMessage.messageId).Nodup
  ids_text : ∀ row ∈ db.messages, Text.trim row.messageId ≠ []
  created_range : ∀ row ∈ db.messages, Decimal.IsI64 row.createdAtMs
  readable : ∀ row ∈ db.messages, ∃ message, mailboxMessageFromRow representable row = .ok message

variable {representable} {db : Db} {params : MailboxMessageStoreListParams}

theorem epochMillisToDatetime_eq_ok {value millis : Int}
    (h : epochMillisToDatetime representable value = .ok millis) : millis = legacyMillis value := by
  unfold epochMillisToDatetime at h
  split at h
  · exact (Except.ok.inj h).symm
  · cases h

theorem mailboxMessageFromRow_eq_ok {row message : MailboxMessage}
    (h : mailboxMessageFromRow representable row = .ok message) :
    message.messageId = row.messageId ∧ message.createdAtMs = legacyMillis row.createdAtMs := by
  simp only [mailboxMessageFromRow, Result.bind_eq_ok, Result.pure_eq_ok] at h
  obtain ⟨_, -, _, -, _, -, _, -, _, -, created, hcreated, _, -, rfl⟩ := h
  exact ⟨rfl, epochMillisToDatetime_eq_ok hcreated⟩

/-- The message of a row that can be read. -/
def readRow (representable : Int → Bool) (row : MailboxMessage) : MailboxMessage :=
  (mailboxMessageFromRow representable row).toOption.getD row

theorem Db.Listable.fromRow_eq (h : db.Listable representable) {row : MailboxMessage}
    (hrow : row ∈ db.messages) :
    mailboxMessageFromRow representable row = .ok (readRow representable row) := by
  obtain ⟨message, hmessage⟩ := h.readable row hrow
  rw [readRow, hmessage]
  rfl

theorem Db.Listable.mapM_fromRow (h : db.Listable representable) {rows : List MailboxMessage}
    (hrows : ∀ row ∈ rows, row ∈ db.messages) :
    rows.mapM (mailboxMessageFromRow representable) = .ok (rows.map (readRow representable)) := by
  induction rows with
  | nil => rfl
  | cons row rows ih =>
      rw [List.mapM_cons, h.fromRow_eq (hrows row List.mem_cons_self),
        ih fun other hother => hrows other (List.mem_cons_of_mem row hother)]
      rfl

/-- The text of a cursor. -/
def MailboxCursor.encode (cursor : MailboxCursor) : Text :=
  encodeMailboxCursor cursor.createdAtMs cursor.messageId

theorem Db.Listable.encode_readRow (h : db.Listable representable) {row : MailboxMessage}
    (hrow : row ∈ db.messages) :
    encodeMailboxCursor (readRow representable row).createdAtMs
      (readRow representable row).messageId = row.readCursor.encode := by
  obtain ⟨hid, hcreated⟩ := mailboxMessageFromRow_eq_ok (h.fromRow_eq hrow)
  rw [hid, hcreated]
  rfl

/-- A cursor that a page may return. -/
def Db.IsCursor (db : Db) (cursor : Option MailboxCursor) : Prop :=
  ∀ c ∈ cursor, ∃ row ∈ db.messages, c = row.readCursor

theorem Db.Listable.decode_encode (h : db.Listable representable) {cursor : Option MailboxCursor}
    (hcursor : db.IsCursor cursor) :
    decodeOptionalCursor (cursor.map MailboxCursor.encode) = .ok cursor := by
  cases cursor with
  | none => rfl
  | some cursor =>
      obtain ⟨row, hrow, rfl⟩ := hcursor cursor rfl
      have hdecode := decodeMailboxCursor_encode (isI64_legacyMillis (h.created_range row hrow))
        (h.ids_text row hrow)
      simp only [Option.map_some, decodeOptionalCursor]
      rw [MailboxCursor.encode, MailboxMessage.readCursor, hdecode]
      rfl

theorem mem_messages_of_mem_rowsFrom {cursor : Option MailboxCursor} {row : MailboxMessage}
    (h : row ∈ Paging.rowsFrom MailboxCursor.isBefore (db.listed params) cursor) :
    row ∈ db.messages :=
  mem_messages_of_mem_listed (Paging.mem_of_mem_rowsFrom h)

/-- A page of the library, for the parameters of a listing. -/
def Db.page (db : Db) (params : MailboxMessageStoreListParams) (cursor : Option MailboxCursor) :
    List MailboxMessage × Option MailboxCursor :=
  Paging.page MailboxCursor.isBefore MailboxMessage.readCursor params.pageSize (db.listed params)
    cursor

theorem Db.isCursor_page (db : Db) (params : MailboxMessageStoreListParams)
    (cursor : Option MailboxCursor) : db.IsCursor (db.page params cursor).2 := by
  intro next hnext
  unfold Db.page Paging.page at hnext
  dsimp only at hnext
  split at hnext
  · obtain ⟨row, hrow, rfl⟩ := Option.map_eq_some_iff.1 hnext
    have hmem := List.mem_of_mem_take (List.mem_of_mem_take (List.mem_of_getLast? hrow))
    exact ⟨row, mem_messages_of_mem_rowsFrom hmem, rfl⟩
  · cases hnext

theorem Db.Listable.pageOf_eq (h : db.Listable representable) (cursor : Option MailboxCursor) :
    pageOf params.pageSize (((Paging.rowsFrom MailboxCursor.isBefore (db.listed params) cursor).take
        (params.pageSize + 1)).map (readRow representable)) =
      ⟨(db.page params cursor).1.map (readRow representable),
        (db.page params cursor).2.map MailboxCursor.encode⟩ := by
  unfold pageOf Db.page Paging.page
  dsimp only
  rw [List.length_map]
  split
  · rw [← List.map_take, List.getLast?_map, Option.map_map, Option.map_map]
    congr 1
    apply Option.map_congr
    intro row hrow
    have hmem := List.mem_of_mem_take (List.mem_of_mem_take (List.mem_of_getLast? hrow))
    exact h.encode_readRow (mem_messages_of_mem_rowsFrom hmem)
  · rfl

/-- A listing is the page of the library, read back and with its cursor as text. -/
theorem Db.Listable.listMailboxMessages_eq (h : db.Listable representable)
    {cursor : Option MailboxCursor} (hcursor : db.IsCursor cursor) :
    listMailboxMessages representable db
        { params with cursor := cursor.map MailboxCursor.encode } =
      .ok ⟨(db.page params cursor).1.map (readRow representable),
        (db.page params cursor).2.map MailboxCursor.encode⟩ := by
  have hread : ∀ row ∈ (Paging.rowsFrom MailboxCursor.isBefore (db.listed params) cursor).take
      (params.pageSize + 1), row ∈ db.messages :=
    fun row hrow => mem_messages_of_mem_rowsFrom (List.mem_of_mem_take hrow)
  rw [← h.pageOf_eq, listMailboxMessages, Result.bind_eq_ok]
  refine ⟨cursor, h.decode_encode hcursor, ?_⟩
  rw [Result.bind_eq_ok]
  refine ⟨_, ?_, rfl⟩
  rw [← h.mapM_fromRow hread, ← selectOrdered_cursor h.ids_nodup cursor]
  rfl

/-- The pages of the store are those of the library. -/
theorem Db.Listable.listAllMailboxMessages_eq (h : db.Listable representable)
    (params : MailboxMessageStoreListParams) (fuel : Nat) {cursor : Option MailboxCursor}
    (hcursor : db.IsCursor cursor) :
    listAllMailboxMessages representable db params fuel (cursor.map MailboxCursor.encode) =
      (Paging.collect MailboxCursor.isBefore MailboxMessage.readCursor params.pageSize
        (db.listed params) fuel cursor).map fun rows => .ok (rows.map (readRow representable)) := by
  induction fuel generalizing cursor with
  | zero => rfl
  | succ fuel ih =>
      have hnext := db.isCursor_page params cursor
      rw [listAllMailboxMessages, h.listMailboxMessages_eq hcursor, Paging.collect]
      have hlib : Paging.page MailboxCursor.isBefore MailboxMessage.readCursor params.pageSize
          (db.listed params) cursor = db.page params cursor := rfl
      rw [hlib]
      rcases hpage : db.page params cursor with ⟨data, _ | next⟩
      · rfl
      · rw [hpage] at hnext
        have hmore := ih hnext
        simp only [Option.map_some] at hmore ⊢
        rw [hmore, Option.map_map, Option.map_map]
        congr 1
        funext rows
        simp [Except.map]

theorem pageSize_pos (params : MailboxMessageStoreListParams) : 0 < params.pageSize := by
  unfold MailboxMessageStoreListParams.pageSize
  omega

theorem Db.Listable.keeps_iff (h : db.Listable representable) :
    Paging.Keeps MailboxCursor.isBefore MailboxMessage.readCursor params.pageSize
      (db.listed params) ↔ db.PageEndsKept params := by
  constructor
  · intro hkeeps front row rest hsplit hend hrest
    exact (filter_readCursor_eq_iff h.ids_nodup h.created_range hsplit).1
      (hkeeps front row rest hsplit hend hrest)
  · intro hkept front row rest hsplit hend hrest
    exact (filter_readCursor_eq_iff h.ids_nodup h.created_range hsplit).2
      (hkept front row rest hsplit hend hrest)

variable (representable)

/-- Asking for page after page ends, and the pages together are the messages that the filter
selects, each once and in order. -/
def Db.ListsExactly (db : Db) (params : MailboxMessageStoreListParams) : Prop :=
  ∃ (fuel : Nat) (rows messages : List MailboxMessage),
    rows.Perm (db.messages.filter params.selects) ∧
    rows.Pairwise listsBefore ∧
      rows.mapM (mailboxMessageFromRow representable) = .ok messages ∧
        listAllMailboxMessages representable db params fuel none = some (.ok messages)

variable {representable}

/-- The messages that are read tell the rows, by their ids. -/
theorem Db.Listable.eq_of_map_readRow (h : db.Listable representable)
    {rows rows' : List MailboxMessage} (hrows : ∀ row ∈ rows, row ∈ db.messages)
    (hrows' : ∀ row ∈ rows', row ∈ db.messages)
    (heq : rows.map (readRow representable) = rows'.map (readRow representable)) :
    rows = rows' := by
  induction rows generalizing rows' with
  | nil =>
      cases rows' with
      | nil => rfl
      | cons row rows' => simp at heq
  | cons row rows ih =>
      cases rows' with
      | nil => simp at heq
      | cons row' rows' =>
          obtain ⟨hhead, htail⟩ := List.cons.inj heq
          have hrow := hrows row List.mem_cons_self
          have hrow' := hrows' row' List.mem_cons_self
          have hid : row.messageId = row'.messageId := by
            rw [← (mailboxMessageFromRow_eq_ok (h.fromRow_eq hrow)).1,
              ← (mailboxMessageFromRow_eq_ok (h.fromRow_eq hrow')).1]
            exact congrArg MailboxMessage.messageId hhead
          rw [eq_of_messageId_eq h.ids_nodup hrow hrow' hid,
            ih (fun r hr => hrows r (List.mem_cons_of_mem row hr))
              (fun r hr => hrows' r (List.mem_cons_of_mem row' hr)) htail]

theorem Db.Listable.listsExactly_iff_collect (h : db.Listable representable) :
    db.ListsExactly representable params ↔
      ∃ fuel, Paging.collect MailboxCursor.isBefore MailboxMessage.readCursor params.pageSize
        (db.listed params) fuel none = some (db.listed params) := by
  have hstart : db.IsCursor none := by intro cursor hcursor; cases hcursor
  have hlisted : ∀ row ∈ db.listed params, row ∈ db.messages :=
    fun row => mem_messages_of_mem_listed
  constructor
  · rintro ⟨fuel, rows, messages, hperm, hpairwise, hread, hall⟩
    have hrows : rows = db.listed params :=
      eq_of_perm_of_pairwise h.ids_nodup
        (fun row hrow => List.mem_of_mem_filter (hperm.mem_iff.1 hrow))
        (hperm.trans listed_perm.symm) hpairwise listed_pairwise
    subst hrows
    rw [h.mapM_fromRow hlisted] at hread
    refine ⟨fuel, ?_⟩
    have hpages := h.listAllMailboxMessages_eq params fuel hstart
    rw [Option.map_none, hall] at hpages
    obtain ⟨collected, hcollected, heq⟩ := Option.map_eq_some_iff.1 hpages.symm
    have hmem : ∀ row ∈ collected, row ∈ db.messages :=
      fun row hrow => hlisted row (Paging.mem_of_mem_collect hcollected hrow)
    rw [hcollected, h.eq_of_map_readRow hlisted hmem (Except.ok.inj (hread.trans heq.symm))]
  · rintro ⟨fuel, hfuel⟩
    refine ⟨fuel, db.listed params, _, listed_perm, listed_pairwise, h.mapM_fromRow hlisted, ?_⟩
    have hpages := h.listAllMailboxMessages_eq params fuel hstart
    rw [hfuel] at hpages
    exact hpages

theorem Db.Listable.collect_iff_keeps (h : db.Listable representable) :
    (∃ fuel, Paging.collect MailboxCursor.isBefore MailboxMessage.readCursor params.pageSize
      (db.listed params) fuel none = some (db.listed params)) ↔ db.PageEndsKept params := by
  rw [← h.keeps_iff]
  apply Paging.exists_collect_eq_iff (pageSize_pos params) (listed_nodup h.ids_nodup)
  intro cursor
  exact listed_pairwise.imp fun hab => cursor.isBefore_of_listsBefore hab

/-- The pages are exact if and only if every page that has a next one ends at a row where it may. -/
theorem listAllMailboxMessages_exact_iff (representable : Int → Bool) (db : Db)
    (params : MailboxMessageStoreListParams) (h : db.Listable representable) :
    db.ListsExactly representable params ↔ db.PageEndsKept params := by
  rw [h.listsExactly_iff_collect, h.collect_iff_keeps]

/-- The milliseconds that a date can represent: the years from -262143 to 262142. -/
def inDateRange (ms : Int) : Bool := -8334601228800000 ≤ ms && ms ≤ 8210266876799999

def mailAt (messageId : Text) (createdAtMs : Int) : MailboxMessage :=
  { messageId
    targetThreadId := ⟨"t".toList⟩
    senderThreadId := none
    senderLabel := none
    idempotencyKey := none
    kind := .userInstruction
    status := .queued
    payload := { json := "null".toList }
    payloadPreview := []
    priority := 0
    maxAttempts := 10
    nextAttemptAtMs := createdAtMs
    expiresAtMs := none
    createdAtMs
    updatedAtMs := createdAtMs }

/-- Two messages, one second after the other. -/
def twoMails (createdAtMs : Int) : Db :=
  { threads := [⟨"t".toList⟩]
    messages := [mailAt "a".toList createdAtMs, mailAt "b".toList (createdAtMs + 1000)] }

def onePerPage : MailboxMessageStoreListParams :=
  { targetThreadId := none, statuses := [], cursor := none, limit := 1 }

theorem twoMails_listable {createdAtMs : Int} (hrange : Decimal.IsI64 createdAtMs)
    (hrange' : Decimal.IsI64 (createdAtMs + 1000))
    (hread : inDateRange (legacyMillis createdAtMs) = true)
    (hread' : inDateRange (legacyMillis (createdAtMs + 1000)) = true) :
    (twoMails createdAtMs).Listable inDateRange where
  ids_nodup := by
    have hids : ["a".toList, "b".toList].Nodup := by decide
    exact hids
  ids_text := by
    have ha : Text.trim "a".toList ≠ [] := by decide
    have hb : Text.trim "b".toList ≠ [] := by decide
    simp only [twoMails, List.forall_mem_cons]
    exact ⟨ha, hb, by simp⟩
  created_range := by
    simp only [twoMails, List.forall_mem_cons]
    exact ⟨hrange, hrange', by simp⟩
  readable := by
    simp only [twoMails, List.forall_mem_cons]
    refine ⟨?_, ?_, by simp⟩
    · exact ⟨_, by
        simp only [mailboxMessageFromRow, mailAt, epochMillisToDatetime, leaseFromRow,
          optionalEpochMillisToDatetime, hread, if_true]
        rfl⟩
    · exact ⟨_, by
        simp only [mailboxMessageFromRow, mailAt, epochMillisToDatetime, leaseFromRow,
          optionalEpochMillisToDatetime, hread', if_true]
        rfl⟩

/-- With a clock in 2000, the second page is the first one again. -/
theorem listAllMailboxMessages_inexact_in2000 :
    (twoMails 946684800000).Listable inDateRange ∧
      ¬ (twoMails 946684800000).ListsExactly inDateRange onePerPage := by
  have h : (twoMails 946684800000).Listable inDateRange :=
    twoMails_listable (by decide) (by decide) (by decide) (by decide)
  refine ⟨h, ?_⟩
  rw [h.listsExactly_iff_collect, h.collect_iff_keeps]
  intro hkept
  have hend := hkept [] (mailAt "b".toList 946684801000) [mailAt "a".toList 946684800000]
    (by decide +kernel) (by decide) (by simp)
  rcases hend with hzero | hnew | ⟨hneg, -⟩
  · exact absurd hzero (by decide)
  · exact absurd hnew (by decide)
  · exact absurd hneg (by decide)

theorem listAllMailboxMessages_exact_in2025 :
    (twoMails 1735689600000).Listable inDateRange ∧
      (twoMails 1735689600000).ListsExactly inDateRange onePerPage := by
  have h : (twoMails 1735689600000).Listable inDateRange :=
    twoMails_listable (by decide) (by decide) (by decide) (by decide)
  refine ⟨h, (listAllMailboxMessages_exact_iff inDateRange _ onePerPage h).2 ?_⟩
  intro front row rest hsplit _ _
  have hmem : row ∈ (twoMails 1735689600000).messages :=
    mem_messages_of_mem_listed (hsplit ▸ by simp : row ∈ (twoMails 1735689600000).listed onePerPage)
  refine .inr (.inl ?_)
  simp only [twoMails, List.mem_cons, List.not_mem_nil, or_false] at hmem
  rcases hmem with rfl | rfl
  · decide
  · decide

end

end Codewith.Mailbox
