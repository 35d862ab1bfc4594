import Mathlib.Data.Prod.Lex
import Mathlib.Order.WithBot
import Codewith.Lib.AckLog
import Codewith.RemoteControl.Split

/-!
# Output that is not acknowledged

Server events are numbered within their stream, split and put into the outbound buffer.
Acknowledgements take them out again, and what is left is sent once more after a reconnect.
-/

namespace Codewith.RemoteControl

open Lib

def u64Max : Nat := 2 ^ 64 - 1

abbrev StreamKey := ClientId × StreamId

def ServerEnvelope.streamKey (envelope : ServerEnvelope) : StreamKey :=
  (envelope.clientId, envelope.streamId)

namespace BoundedOutboundBuffer

/-- The envelopes of one stream. -/
def stream (key : StreamKey) (b : BoundedOutboundBuffer) : List ServerEnvelope :=
  (b.bufferByStream.lookup key).getD []

def insert (envelope : ServerEnvelope) (b : BoundedOutboundBuffer) : BoundedOutboundBuffer where
  bufferByStream :=
    b.bufferByStream.insert envelope.streamKey (b.stream envelope.streamKey ++ [envelope])
  used := b.used + 1

/-- The streams come in the order of the map. -/
def serverEnvelopes (b : BoundedOutboundBuffer) : List ServerEnvelope :=
  b.bufferByStream.entries.flatMap fun entry => entry.2

end BoundedOutboundBuffer

/-- Whether an envelope can be written. -/
def ServerEnvelope.serializes (toVec : MessageToVec) (envelope : ServerEnvelope) : Bool :=
  (envelope.serializedLen toVec).isOk

namespace WebsocketState

def nextSeqId (key : StreamKey) (s : WebsocketState) : Nat :=
  (s.nextSeqIdByStream.lookup key).getD 1

/-- The envelopes of a queued event that are written, or nothing if it cannot be split. -/
def envelopesFor (toVec : MessageToVec) (clientId : ClientId) (streamId : StreamId)
    (event : ServerEvent) (s : WebsocketState) : Option (List ServerEnvelope) :=
  match splitServerEnvelopeForTransport toVec
      ⟨event, clientId, streamId, s.nextSeqId (clientId, streamId)⟩ with
  | .ok envelopes => some (envelopes.filter fun envelope => envelope.serializes toVec)
  | .error _ => none

/-- Take a server event from the queue. -/
def writeServerEvent (toVec : MessageToVec) (clientId : ClientId) (streamId : StreamId)
    (event : ServerEvent) (s : WebsocketState) : WebsocketState :=
  let seqId := s.nextSeqId (clientId, streamId)
  match s.envelopesFor toVec clientId streamId event with
  | some envelopes =>
      { s with
        outboundBuffer := envelopes.foldl (fun b envelope => b.insert envelope) s.outboundBuffer
        nextSeqIdByStream :=
          s.nextSeqIdByStream.insert (clientId, streamId) (min (seqId + 1) u64Max) }
  | none =>
      { s with nextSeqIdByStream := s.nextSeqIdByStream.insert (clientId, streamId) seqId }

/-- What is sent first on a new connection. -/
def resent (toVec : MessageToVec) (s : WebsocketState) : List ServerEnvelope :=
  s.outboundBuffer.serverEnvelopes.filter fun envelope => envelope.serializes toVec

end WebsocketState

/-- What happens to the output.  Every envelope of a client that is delivered is an event, as
only some of them are acknowledgements. -/
inductive OutboundEvent
  | queued (clientId : ClientId) (streamId : StreamId) (event : ServerEvent)
  | delivered (envelope : ClientEnvelope) (key : Option (ClientMessageKey × Nat))
  | reconnected

def OutboundEvent.apply (toVec : MessageToVec) (event : OutboundEvent) (s : WebsocketState) :
    WebsocketState :=
  match event with
  | .queued clientId streamId event => s.writeServerEvent toVec clientId streamId event
  | .delivered envelope key => s.recordClientMessageDelivery envelope key
  | .reconnected => s

/-! ### What the buffer is for -/

/-- An acknowledgement of a stream. -/
structure OutboundAck where
  key : StreamKey
  seqId : Nat
  segmentId : Option Nat

/-- Where an envelope stands in its stream. -/
def ServerEnvelope.cursor (envelope : ServerEnvelope) : ℕ ×ₗ WithTop ℕ :=
  toLex (envelope.seqId, (envelope.event.segmentId.getD 0 : ℕ))

/-- How far an acknowledgement reaches.  Without a segment it reaches to the end of its
message. -/
def OutboundAck.cursor (ack : OutboundAck) : ℕ ×ₗ WithTop ℕ :=
  toLex (ack.seqId, match ack.segmentId with
    | some segmentId => (segmentId : WithTop ℕ)
    | none => ⊤)

def OutboundAck.covers (ack : OutboundAck) (envelope : ServerEnvelope) : Bool :=
  ack.key = envelope.streamKey ∧ envelope.cursor ≤ ack.cursor

abbrev OutboundLog := List (AckLogEntry ServerEnvelope OutboundAck)

/-- What an envelope of a client acknowledges. -/
def ClientEnvelope.outboundAck (envelope : ClientEnvelope) : Option OutboundAck :=
  match envelope.event, envelope.seqId, envelope.streamId with
  | .ack segmentId, some seqId, some streamId =>
      some ⟨(envelope.clientId, streamId), seqId, segmentId⟩
  | _, _, _ => none

/-- What an event adds to the log of insertions and acknowledgements. -/
def OutboundEvent.entries (toVec : MessageToVec) (event : OutboundEvent) (s : WebsocketState) :
    OutboundLog :=
  match event with
  | .queued clientId streamId event =>
      ((s.envelopesFor toVec clientId streamId event).getD []).map .inserted
  | .delivered envelope _ => envelope.outboundAck.toList.map .acked
  | .reconnected => []

/-- The state and the log after a run. -/
def outboundRun (toVec : MessageToVec) :
    List OutboundEvent → WebsocketState × OutboundLog → WebsocketState × OutboundLog
  | [], run => run
  | event :: events, (s, log) =>
      outboundRun toVec events (event.apply toVec s, log ++ event.entries toVec s)

/-! ### Single operations on the buffer -/

/-- The code compares cursors as the acknowledgement means it. -/
theorem isAcked_eq_covers {envelope : ServerEnvelope} {key : StreamKey}
    (hkey : envelope.streamKey = key) (seqId : Nat) (segmentId : Option Nat) :
    envelope.isAcked seqId segmentId = OutboundAck.covers ⟨key, seqId, segmentId⟩ envelope := by
  unfold ServerEnvelope.isAcked OutboundAck.covers ServerEnvelope.cursor OutboundAck.cursor
  rw [decide_eq_decide, Prod.Lex.toLex_le_toLex]
  cases segmentId with
  | none => simp [hkey]
  | some segmentId => simp [hkey]

namespace BoundedOutboundBuffer

variable {b : BoundedOutboundBuffer}

theorem stream_insert (envelope : ServerEnvelope) (key : StreamKey) :
    (b.insert envelope).stream key =
      if key = envelope.streamKey then b.stream key ++ [envelope] else b.stream key := by
  unfold insert stream
  split
  · rename_i hkey
    subst hkey
    rw [AList.lookup_insert]
    rfl
  · rename_i hkey
    rw [AList.lookup_insert_ne hkey]

theorem ack_of_none {clientId : ClientId} {streamId : StreamId}
    (h : b.bufferByStream.lookup (clientId, streamId) = none) (seqId : Nat)
    (segmentId : Option Nat) : b.ack clientId streamId seqId segmentId = b := by
  simp [ack, h]

theorem stream_ack (clientId : ClientId) (streamId : StreamId) (seqId : Nat)
    (segmentId : Option Nat) (key : StreamKey) :
    (b.ack clientId streamId seqId segmentId).stream key =
      if key = (clientId, streamId) then
        (b.stream key).filter fun envelope => !envelope.isAcked seqId segmentId
      else b.stream key := by
  rcases hlookup : b.bufferByStream.lookup (clientId, streamId) with _ | buffer
  · rw [ack_of_none hlookup]
    by_cases hkey : key = (clientId, streamId)
    · subst hkey
      simp [stream, hlookup]
    · rw [if_neg hkey]
  · by_cases hkey : key = (clientId, streamId)
    · subst hkey
      by_cases hnil : buffer.filter (fun envelope => !envelope.isAcked seqId segmentId) = []
      · simp [ack, stream, hlookup, hnil]
      · simp [ack, stream, hlookup, hnil]
    · by_cases hnil : buffer.filter (fun envelope => !envelope.isAcked seqId segmentId) = []
      · simp [ack, stream, hlookup, hnil, hkey, AList.lookup_erase_ne hkey]
      · simp [ack, stream, hlookup, hnil, hkey, AList.lookup_insert_ne hkey]

theorem length_flatMap_kerase {β : StreamKey → Type} (f : (Σ key, β key) → List ServerEnvelope)
    (key : StreamKey) (entries : List (Σ key, β key)) :
    ((entries.kerase key).flatMap f).length +
        ((entries.dlookup key).elim 0 fun value => (f ⟨key, value⟩).length) =
      (entries.flatMap f).length := by
  induction entries with
  | nil => rfl
  | cons entry entries ih =>
      by_cases hkey : key = entry.1
      · subst hkey
        rw [List.kerase_cons_eq rfl, List.dlookup_cons_eq, List.flatMap_cons, List.length_append]
        exact Nat.add_comm _ _
      · rw [List.kerase_cons_ne hkey, List.dlookup_cons_ne _ _ hkey, List.flatMap_cons,
          List.flatMap_cons, List.length_append, List.length_append]
        omega

theorem length_stream_add (key : StreamKey) :
    ((b.bufferByStream.erase key).entries.flatMap fun entry => entry.2).length +
      (b.stream key).length = b.serverEnvelopes.length := by
  have h := length_flatMap_kerase (fun entry => entry.2) key b.bufferByStream.entries
  unfold serverEnvelopes stream AList.lookup
  rw [← h]
  rcases List.dlookup key b.bufferByStream.entries with _ | buffer
  · rfl
  · rfl

theorem length_serverEnvelopes_set (key : StreamKey) (buffer : List ServerEnvelope) (used : Nat) :
    (serverEnvelopes ⟨b.bufferByStream.insert key buffer, used⟩).length + (b.stream key).length =
      b.serverEnvelopes.length + buffer.length := by
  have h := length_stream_add (b := b) key
  unfold serverEnvelopes at h ⊢
  rw [AList.entries_insert, List.flatMap_cons, List.length_append]
  have hentries : (b.bufferByStream.erase key).entries = b.bufferByStream.entries.kerase key := rfl
  rw [hentries] at h
  dsimp only
  omega

theorem length_serverEnvelopes_insert (envelope : ServerEnvelope) :
    (b.insert envelope).serverEnvelopes.length = b.serverEnvelopes.length + 1 := by
  have h := length_serverEnvelopes_set (b := b) envelope.streamKey
    (b.stream envelope.streamKey ++ [envelope]) (b.used + 1)
  rw [List.length_append, List.length_singleton] at h
  unfold insert
  omega

/-- As many envelopes are taken out as are no longer counted. -/
theorem length_serverEnvelopes_ack (clientId : ClientId) (streamId : StreamId) (seqId : Nat)
    (segmentId : Option Nat) (hused : b.used = b.serverEnvelopes.length) :
    (b.ack clientId streamId seqId segmentId).used =
      (b.ack clientId streamId seqId segmentId).serverEnvelopes.length := by
  rcases hlookup : b.bufferByStream.lookup (clientId, streamId) with _ | buffer
  · rw [ack_of_none hlookup]
    exact hused
  · have hstream : b.stream (clientId, streamId) = buffer := by simp [stream, hlookup]
    have hle := List.length_filter_le (fun envelope => !envelope.isAcked seqId segmentId) buffer
    have hadd := length_stream_add (b := b) (clientId, streamId)
    rw [hstream] at hadd
    by_cases hnil : buffer.filter (fun envelope => !envelope.isAcked seqId segmentId) = []
    · simp only [ack, hlookup, hnil, List.length_nil, if_true, serverEnvelopes] at hadd ⊢
      unfold serverEnvelopes at hused
      omega
    · have hset := length_serverEnvelopes_set (b := b) (clientId, streamId)
        (buffer.filter fun envelope => !envelope.isAcked seqId segmentId)
        (b.used - (buffer.length -
          (buffer.filter fun envelope => !envelope.isAcked seqId segmentId).length))
      rw [hstream] at hset
      simp only [ack, hlookup, hnil, if_false]
      omega

theorem filter_flatMap_entries {entries : List (Σ _ : StreamKey, List ServerEnvelope)}
    (hnodup : entries.NodupKeys)
    (h : ∀ entry ∈ entries, ∀ envelope ∈ entry.2, envelope.streamKey = entry.1)
    (key : StreamKey) :
    ((entries.flatMap fun entry => entry.2).filter fun envelope => envelope.streamKey = key) =
      (entries.dlookup key).getD [] := by
  induction entries with
  | nil => rfl
  | cons entry entries ih =>
      obtain ⟨other, buffer⟩ := entry
      rw [List.nodupKeys_cons] at hnodup
      have hbuffer := h ⟨other, buffer⟩ List.mem_cons_self
      have hrest := ih hnodup.2 fun entry hmem => h entry (List.mem_cons_of_mem _ hmem)
      rw [List.flatMap_cons, List.filter_append, hrest]
      by_cases hkey : key = other
      · subst hkey
        rw [List.dlookup_cons_eq, List.dlookup_eq_none.mpr hnodup.1,
          List.filter_eq_self.mpr (by simpa using hbuffer)]
        simp
      · rw [List.dlookup_cons_ne _ _ hkey, List.filter_eq_nil_iff.mpr]
        · rfl
        · intro envelope hmem
          rw [decide_eq_true_eq, hbuffer envelope hmem]
          exact fun heq => hkey heq.symm

/-- Each stream is among all envelopes in its order. -/
theorem filter_serverEnvelopes
    (h : ∀ key, ∀ envelope ∈ b.stream key, envelope.streamKey = key) (key : StreamKey) :
    (b.serverEnvelopes.filter fun envelope => envelope.streamKey = key) = b.stream key := by
  refine filter_flatMap_entries b.bufferByStream.nodupKeys ?_ key
  intro entry hentry envelope hmem
  have hlookup : b.bufferByStream.lookup entry.1 = some entry.2 :=
    (List.mem_dlookup_iff b.bufferByStream.nodupKeys).mpr hentry
  exact h entry.1 envelope (by simpa [stream, hlookup] using hmem)

/-- Insert the envelopes of one event. -/
theorem stream_foldl_insert {envelopes : List ServerEnvelope} {key : StreamKey}
    (h : ∀ envelope ∈ envelopes, envelope.streamKey = key) (other : StreamKey) :
    (envelopes.foldl (fun b envelope => b.insert envelope) b).stream other =
      if other = key then b.stream other ++ envelopes else b.stream other := by
  induction envelopes generalizing b with
  | nil => simp
  | cons envelope envelopes ih =>
      have hkey := h envelope List.mem_cons_self
      rw [List.foldl_cons, ih fun e hmem => h e (List.mem_cons_of_mem _ hmem), stream_insert, hkey]
      split
      · rw [List.append_assoc, List.singleton_append]
      · rfl

theorem used_foldl_insert (envelopes : List ServerEnvelope)
    (hused : b.used = b.serverEnvelopes.length) :
    (envelopes.foldl (fun b envelope => b.insert envelope) b).used =
      (envelopes.foldl (fun b envelope => b.insert envelope) b).serverEnvelopes.length := by
  induction envelopes generalizing b with
  | nil => exact hused
  | cons envelope envelopes ih =>
      rw [List.foldl_cons]
      apply ih
      rw [length_serverEnvelopes_insert, ← hused]
      rfl

end BoundedOutboundBuffer

/-! ### The envelopes of one event -/

theorem IsSplit.pairwise_cursor {toVec : MessageToVec} {envelope : ServerEnvelope} {raw : Bytes}
    {pieces : List Bytes} {envelopes : List ServerEnvelope}
    (h : IsSplit toVec envelope raw pieces envelopes) :
    envelopes.Pairwise fun earlier later => earlier.cursor < later.cursor := by
  rw [h.envelopes_eq, List.pairwise_map]
  have hids : (pieces.zipIdx.map Prod.snd).Pairwise (· < ·) := by
    rw [List.zipIdx_map_snd]
    exact List.pairwise_lt_range'
  rw [List.pairwise_map] at hids
  refine hids.imp ?_
  intro earlier later hlt
  refine Prod.Lex.toLex_lt_toLex.mpr (.inr ⟨rfl, ?_⟩)
  exact WithTop.coe_lt_coe.mpr hlt

/-- The envelopes of an event have its stream and its number, and stand in their order. -/
theorem WebsocketState.envelopesFor_spec {toVec : MessageToVec} {clientId : ClientId}
    {streamId : StreamId} {event : ServerEvent} {s : WebsocketState}
    {envelopes : List ServerEnvelope}
    (h : s.envelopesFor toVec clientId streamId event = some envelopes) :
    (∀ envelope ∈ envelopes, envelope.streamKey = (clientId, streamId) ∧
        envelope.seqId = s.nextSeqId (clientId, streamId) ∧ envelope.serializes toVec = true) ∧
      envelopes.Pairwise fun earlier later => earlier.cursor < later.cursor := by
  unfold envelopesFor at h
  rcases hsplit : splitServerEnvelopeForTransport toVec
      ⟨event, clientId, streamId, s.nextSeqId (clientId, streamId)⟩ with error | all
  · simp [hsplit] at h
  · simp only [hsplit, Option.some.injEq] at h
    subst h
    have hall : (∀ envelope ∈ all, envelope.streamKey = (clientId, streamId) ∧
          envelope.seqId = s.nextSeqId (clientId, streamId)) ∧
        all.Pairwise fun earlier later => earlier.cursor < later.cursor := by
      rcases splitServerEnvelopeForTransport_cases hsplit with rfl | rfl | ⟨raw, pieces, hpieces⟩
      · simp [ServerEnvelope.streamKey]
      · simp
      · refine ⟨?_, hpieces.pairwise_cursor⟩
        intro envelope hmem
        rw [hpieces.envelopes_eq] at hmem
        obtain ⟨piece, -, rfl⟩ := List.mem_map.mp hmem
        exact ⟨rfl, rfl⟩
    refine ⟨?_, hall.2.filter _⟩
    intro envelope hmem
    rw [List.mem_filter] at hmem
    exact ⟨(hall.1 envelope hmem.1).1, (hall.1 envelope hmem.1).2, hmem.2⟩

/-! ### The buffer along a run -/

/-- The buffer holds what is outstanding, stream by stream. -/
structure OutboundExact (toVec : MessageToVec) (s : WebsocketState) (log : OutboundLog) :
    Prop where
  stream_eq : ∀ key, s.outboundBuffer.stream key =
    (AckLog.outstanding OutboundAck.covers log).filter fun envelope => envelope.streamKey = key
  used_eq : s.outboundBuffer.used = s.outboundBuffer.serverEnvelopes.length
  serializes : ∀ key, ∀ envelope ∈ s.outboundBuffer.stream key, envelope.serializes toVec = true
  ordered : ∀ key, (s.outboundBuffer.stream key).Pairwise fun earlier later =>
    later.seqId < u64Max → earlier.cursor < later.cursor
  next_le : ∀ key, s.nextSeqId key ≤ u64Max
  lt_next : ∀ key, ∀ envelope ∈ s.outboundBuffer.stream key,
    envelope.seqId < s.nextSeqId key ∨ s.nextSeqId key = u64Max

namespace OutboundExact

variable {toVec : MessageToVec} {s : WebsocketState} {log : OutboundLog}

theorem start (toVec : MessageToVec) : OutboundExact toVec {} [] where
  stream_eq _ := rfl
  used_eq := rfl
  serializes _ _ hmem := by simp [BoundedOutboundBuffer.stream] at hmem
  ordered _ := by simp [BoundedOutboundBuffer.stream]
  next_le _ := by simp [WebsocketState.nextSeqId, u64Max]
  lt_next _ _ hmem := by simp [BoundedOutboundBuffer.stream] at hmem

theorem streamKey_eq (h : OutboundExact toVec s log) {key : StreamKey} {envelope : ServerEnvelope}
    (hmem : envelope ∈ s.outboundBuffer.stream key) : envelope.streamKey = key := by
  rw [h.stream_eq, List.mem_filter, decide_eq_true_eq] at hmem
  exact hmem.2

theorem nextSeqId_insert (key : StreamKey) (seqId : Nat) (other : StreamKey) :
    WebsocketState.nextSeqId other
        { s with nextSeqIdByStream := s.nextSeqIdByStream.insert key seqId } =
      if other = key then seqId else s.nextSeqId other := by
  unfold WebsocketState.nextSeqId
  split
  · rename_i hkey
    subst hkey
    rw [AList.lookup_insert]
    rfl
  · rename_i hkey
    rw [AList.lookup_insert_ne hkey]

/-- An event that cannot be split changes nothing. -/
theorem writeServerEvent_of_none (h : OutboundExact toVec s log) {clientId : ClientId}
    {streamId : StreamId} {event : ServerEvent}
    (hnone : s.envelopesFor toVec clientId streamId event = none) :
    OutboundExact toVec (s.writeServerEvent toVec clientId streamId event) log := by
  unfold WebsocketState.writeServerEvent
  rw [hnone]
  have hnext : ∀ key, WebsocketState.nextSeqId key
      { s with
        nextSeqIdByStream :=
          s.nextSeqIdByStream.insert (clientId, streamId) (s.nextSeqId (clientId, streamId)) } =
      s.nextSeqId key := by
    intro key
    rw [nextSeqId_insert]
    split
    · rename_i hkey
      rw [hkey]
    · rfl
  refine ⟨h.stream_eq, h.used_eq, h.serializes, h.ordered, ?_, ?_⟩
  · intro key
    rw [hnext]
    exact h.next_le key
  · intro key envelope hmem
    rw [hnext]
    exact h.lt_next key envelope hmem

theorem writeServerEvent_of_some (h : OutboundExact toVec s log) {clientId : ClientId}
    {streamId : StreamId} {event : ServerEvent} {envelopes : List ServerEnvelope}
    (hsome : s.envelopesFor toVec clientId streamId event = some envelopes) :
    OutboundExact toVec (s.writeServerEvent toVec clientId streamId event)
      (log ++ envelopes.map .inserted) := by
  obtain ⟨hspec, hsorted⟩ := WebsocketState.envelopesFor_spec hsome
  have hnextLe := h.next_le (clientId, streamId)
  have hkeys : ∀ envelope ∈ envelopes, envelope.streamKey = (clientId, streamId) :=
    fun envelope hmem => (hspec envelope hmem).1
  have hstream := BoundedOutboundBuffer.stream_foldl_insert (b := s.outboundBuffer) hkeys
  have hnext : ∀ key, WebsocketState.nextSeqId key (s.writeServerEvent toVec clientId streamId
      event) = if key = (clientId, streamId) then
        min (s.nextSeqId (clientId, streamId) + 1) u64Max else s.nextSeqId key := by
    intro key
    unfold WebsocketState.writeServerEvent
    rw [hsome]
    exact nextSeqId_insert _ _ key
  have hbuffer : (s.writeServerEvent toVec clientId streamId event).outboundBuffer =
      envelopes.foldl (fun b envelope => b.insert envelope) s.outboundBuffer := by
    unfold WebsocketState.writeServerEvent
    rw [hsome]
  have hnew : envelopes.Pairwise fun earlier later =>
      later.seqId < u64Max → earlier.cursor < later.cursor := by
    refine hsorted.imp ?_
    intro earlier later hlt _
    exact hlt
  refine ⟨?_, ?_, ?_, ?_, ?_, ?_⟩
  · intro key
    rw [hbuffer, hstream, AckLog.outstanding_append_inserted, List.filter_append, ← h.stream_eq]
    split
    · rename_i hkey
      rw [List.filter_eq_self.mpr (by simpa [hkey] using hkeys)]
    · rename_i hkey
      rw [List.filter_eq_nil_iff.mpr, List.append_nil]
      intro envelope hmem
      rw [decide_eq_true_eq, hkeys envelope hmem]
      exact fun heq => hkey heq.symm
  · rw [hbuffer]
    exact BoundedOutboundBuffer.used_foldl_insert envelopes h.used_eq
  · intro key envelope hmem
    rw [hbuffer, hstream] at hmem
    split at hmem
    · rcases List.mem_append.mp hmem with hold | hnew
      · exact h.serializes key envelope hold
      · exact (hspec envelope hnew).2.2
    · exact h.serializes key envelope hmem
  · intro key
    rw [hbuffer, hstream]
    split
    · rename_i hkey
      subst hkey
      refine List.pairwise_append.mpr ⟨h.ordered _, hnew, ?_⟩
      -- An older envelope has a smaller number, unless the numbers have run out.
      intro earlier hearlier later hlater hlt
      rw [(hspec later hlater).2.1] at hlt
      rcases h.lt_next _ earlier hearlier with hless | hmax
      · refine Prod.Lex.toLex_lt_toLex.mpr (.inl ?_)
        rw [(hspec later hlater).2.1]
        exact hless
      · omega
    · exact h.ordered key
  · intro key
    rw [hnext]
    split
    · exact Nat.min_le_right _ _
    · exact h.next_le key
  · intro key envelope hmem
    rw [hbuffer, hstream] at hmem
    rw [hnext]
    split
    · rename_i hkey
      subst hkey
      rw [if_pos rfl] at hmem
      rcases List.mem_append.mp hmem with hold | hnew
      · rcases h.lt_next _ envelope hold with hless | hmax
        · omega
        · omega
      · have hseq := (hspec envelope hnew).2.1
        omega
    · rename_i hkey
      rw [if_neg hkey] at hmem
      exact h.lt_next key envelope hmem

/-- An acknowledgement takes out what it covers. -/
theorem ack (h : OutboundExact toVec s log) (clientId : ClientId) (streamId : StreamId)
    (seqId : Nat) (segmentId : Option Nat) :
    OutboundExact toVec
      { s with outboundBuffer := s.outboundBuffer.ack clientId streamId seqId segmentId }
      (log ++ [.acked ⟨(clientId, streamId), seqId, segmentId⟩]) := by
  have hstream := BoundedOutboundBuffer.stream_ack (b := s.outboundBuffer) clientId streamId seqId
    segmentId
  have hsublist : ∀ key, ((s.outboundBuffer.ack clientId streamId seqId segmentId).stream
      key).Sublist (s.outboundBuffer.stream key) := by
    intro key
    rw [hstream]
    split
    · exact List.filter_sublist
    · exact List.Sublist.refl _
  refine ⟨?_, BoundedOutboundBuffer.length_serverEnvelopes_ack _ _ _ _ h.used_eq,
    fun key envelope hmem => h.serializes key envelope ((hsublist key).subset hmem),
    fun key => (h.ordered key).sublist (hsublist key), h.next_le,
    fun key envelope hmem => h.lt_next key envelope ((hsublist key).subset hmem)⟩
  intro key
  rw [AckLog.outstanding_append_acked, List.filter_comm, ← h.stream_eq, hstream]
  split
  · rename_i hkey
    refine List.filter_congr ?_
    intro envelope hmem
    rw [isAcked_eq_covers (h.streamKey_eq hmem), hkey]
  · rename_i hkey
    symm
    rw [List.filter_eq_self]
    intro envelope hmem
    have hother : ¬ (clientId, streamId) = envelope.streamKey := by
      rw [h.streamKey_eq hmem]
      exact fun heq => hkey heq.symm
    simp [OutboundAck.covers, hother]

theorem recordAck (h : OutboundExact toVec s log) (envelope : ClientEnvelope) :
    OutboundExact toVec (s.recordAck envelope)
      (log ++ envelope.outboundAck.toList.map .acked) := by
  obtain ⟨event, clientId, streamId, seqId, cursor⟩ := envelope
  have hnone : OutboundExact toVec s (log ++ []) := by
    rw [List.append_nil]
    exact h
  cases event with
  | ack segmentId =>
      rcases seqId with _ | seqId
      · exact hnone
      · rcases streamId with _ | streamId
        · exact hnone
        · exact h.ack clientId streamId seqId segmentId
  | clientMessage message => exact hnone
  | clientMessageChunk segmentId segmentCount messageSizeBytes chunk => exact hnone
  | ping => exact hnone
  | clientClosed => exact hnone

/-- Only the buffer and the numbers matter. -/
theorem of_same (h : OutboundExact toVec s log) {s' : WebsocketState}
    (hbuffer : s'.outboundBuffer = s.outboundBuffer)
    (hnext : s'.nextSeqIdByStream = s.nextSeqIdByStream) : OutboundExact toVec s' log := by
  obtain ⟨hstream, hused, hserializes, hordered, hle, hlt⟩ := h
  unfold WebsocketState.nextSeqId at hle hlt
  rw [← hbuffer] at hstream hused hserializes hordered hlt
  rw [← hnext] at hle hlt
  exact ⟨hstream, hused, hserializes, hordered, hle, hlt⟩

theorem apply (h : OutboundExact toVec s log) (event : OutboundEvent) :
    OutboundExact toVec (event.apply toVec s) (log ++ event.entries toVec s) := by
  cases event with
  | queued clientId streamId event =>
      rcases hfor : s.envelopesFor toVec clientId streamId event with _ | envelopes
      · have hentries : OutboundEvent.entries toVec (.queued clientId streamId event) s = [] := by
          simp [OutboundEvent.entries, hfor]
        rw [hentries, List.append_nil]
        exact h.writeServerEvent_of_none hfor
      · have hentries : OutboundEvent.entries toVec (.queued clientId streamId event) s =
            envelopes.map .inserted := by
          simp [OutboundEvent.entries, hfor]
        rw [hentries]
        exact h.writeServerEvent_of_some hfor
  | delivered envelope key =>
      unfold OutboundEvent.apply WebsocketState.recordClientMessageDelivery
      refine recordAck ?_ envelope
      exact h.of_same rfl rfl
  | reconnected =>
      rw [OutboundEvent.entries, List.append_nil]
      exact h

theorem run (h : OutboundExact toVec s log) (events : List OutboundEvent) :
    OutboundExact toVec (outboundRun toVec events (s, log)).1
      (outboundRun toVec events (s, log)).2 := by
  induction events generalizing s log with
  | nil => exact h
  | cons event events ih => exact ih (h.apply event)

end OutboundExact

/-- The buffer of a stream holds what was inserted and not acknowledged since, in its order.
The counter counts it and can always be taken down, and a reconnect sends it. -/
structure SurvivesReconnects (toVec : MessageToVec) (s : WebsocketState) (log : OutboundLog) :
    Prop where
  holds : ∀ key, s.outboundBuffer.stream key =
    (AckLog.outstanding OutboundAck.covers log).filter fun envelope => envelope.streamKey = key
  ordered : ∀ key, (s.outboundBuffer.stream key).Pairwise fun earlier later =>
    later.seqId < u64Max → earlier.cursor < later.cursor
  used_eq : s.outboundBuffer.used = s.outboundBuffer.serverEnvelopes.length
  acked_le_used : ∀ key seqId segmentId, ((s.outboundBuffer.stream key).filter fun envelope =>
    envelope.isAcked seqId segmentId).length ≤ s.outboundBuffer.used
  resent_eq : ∀ key, ((s.resent toVec).filter fun envelope => envelope.streamKey = key) =
    s.outboundBuffer.stream key
  length_resent : (s.resent toVec).length = s.outboundBuffer.used

theorem OutboundExact.survivesReconnects {toVec : MessageToVec} {s : WebsocketState}
    {log : OutboundLog} (h : OutboundExact toVec s log) : SurvivesReconnects toVec s log := by
  have hfilter := BoundedOutboundBuffer.filter_serverEnvelopes (b := s.outboundBuffer)
    fun key envelope hmem => h.streamKey_eq hmem
  have hresent : s.resent toVec = s.outboundBuffer.serverEnvelopes := by
    refine List.filter_eq_self.mpr fun envelope hmem => ?_
    refine h.serializes envelope.streamKey envelope ?_
    rw [← hfilter, List.mem_filter]
    exact ⟨hmem, by simp⟩
  refine ⟨h.stream_eq, h.ordered, h.used_eq, ?_, ?_, ?_⟩
  · intro key seqId segmentId
    rw [h.used_eq, ← hfilter]
    exact (List.length_filter_le _ _).trans (List.length_filter_le _ _)
  · intro key
    rw [hresent]
    exact hfilter key
  · rw [hresent, h.used_eq]

/-- Output that is not acknowledged survives reconnects, whatever happens in between. -/
theorem outboundRun_survivesReconnects (toVec : MessageToVec) (events : List OutboundEvent) :
    SurvivesReconnects toVec (outboundRun toVec events ({}, [])).1
      (outboundRun toVec events ({}, [])).2 :=
  ((OutboundExact.start toVec).run events).survivesReconnects

end Codewith.RemoteControl
