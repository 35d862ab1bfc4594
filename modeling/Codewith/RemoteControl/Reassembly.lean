import Mathlib.Data.List.Nodup
import Mathlib.Data.List.Perm.Subperm
import Codewith.RemoteControl.Segments

/-!
# What the loss of a segment costs

A client sends messages of one stream one after the other, each in segments.  Segments are
lost on the way, or arrive once more after they were sent, and the chunks of other clients
arrive in between.

A message arrives whole if none of its segments is lost.  It is then forwarded once, unless
its first segment finds the assembly of an older message that was never finished: the two are
told apart by their metadata, and both are dropped.
-/

namespace Codewith.RemoteControl

open Lib ClientSegmentReassembler

structure Segment where
  messageChunkBase64 : Text
  bytes : Bytes
  wireSizeBytes : Nat
  cursor : Option Text := none
  deriving DecidableEq, Repr

def joinBytes (segments : List Segment) : Bytes := segments.flatMap Segment.bytes

/-- A message that is split as the protocol asks for. -/
structure SegmentedMessage (codec : Codec) where
  seqId : Nat
  segments : List Segment
  message : JSONRPCMessage
  count_pos : 0 < segments.length
  count_le : segments.length ≤ remoteControlSegmentCountMax
  size_pos : 0 < (joinBytes segments).length
  size_le : (joinBytes segments).length ≤ remoteControlReassembledMaxBytes
  chunk_ne_nil : ∀ segment ∈ segments, segment.messageChunkBase64 ≠ []
  wireSize_le : ∀ segment ∈ segments, segment.wireSizeBytes ≤ remoteControlSegmentMaxBytes
  decodes : ∀ segment ∈ segments,
    codec.decodeBase64 segment.messageChunkBase64 = some segment.bytes
  parses : codec.messageFromSlice (joinBytes segments) = some message

/-- One segment of a message. -/
structure Outgoing (codec : Codec) where
  message : SegmentedMessage codec
  index : Fin message.segments.length

variable {codec : Codec}

def SegmentedMessage.metadata (m : SegmentedMessage codec) : ClientSegmentMetadata :=
  ⟨m.seqId, m.segments.length, (joinBytes m.segments).length⟩

/-- The segments of a message in their order. -/
def SegmentedMessage.outgoing (m : SegmentedMessage codec) : List (Outgoing codec) :=
  (List.finRange m.segments.length).map fun index => ⟨m, index⟩

def SegmentedMessage.first (m : SegmentedMessage codec) : Outgoing codec := ⟨m, 0, m.count_pos⟩

namespace Outgoing

def segment (x : Outgoing codec) : Segment := x.message.segments.get x.index

def seqId (x : Outgoing codec) : Nat := x.message.seqId

def envelope (clientId : ClientId) (streamId : StreamId) (x : Outgoing codec) :
    ClientEnvelope where
  event := .clientMessageChunk x.index x.message.segments.length
    (joinBytes x.message.segments).length x.segment.messageChunkBase64
  clientId := clientId
  streamId := some streamId
  seqId := some x.seqId
  cursor := x.segment.cursor

end Outgoing

def ClientEnvelope.IsChunk (envelope : ClientEnvelope) : Prop :=
  ∃ segmentId segmentCount messageSizeBytes chunk,
    envelope.event = .clientMessageChunk segmentId segmentCount messageSizeBytes chunk

/-- What happens on the way, with the time of each arrival. -/
inductive TransitEvent (codec : Codec)
  | deliver (x : Outgoing codec) (now : Nat)
  | lose (x : Outgoing codec)
  | duplicate (x : Outgoing codec) (now : Nat)
  | other (envelope : ClientEnvelope) (wireSizeBytes now : Nat)

/-- How segments that are still to be sent can arrive, after others were sent. -/
inductive Transit (others : List ClientId) :
    List (Outgoing codec) → List (Outgoing codec) → List (TransitEvent codec) → Prop
  | done (sent : List (Outgoing codec)) : Transit others sent [] []
  | deliver {sent rest : List (Outgoing codec)} {events : List (TransitEvent codec)}
      (x : Outgoing codec) (now : Nat) (h : Transit others (x :: sent) rest events) :
      Transit others sent (x :: rest) (.deliver x now :: events)
  | lose {sent rest : List (Outgoing codec)} {events : List (TransitEvent codec)}
      (x : Outgoing codec) (h : Transit others (x :: sent) rest events) :
      Transit others sent (x :: rest) (.lose x :: events)
  | duplicate {sent rest : List (Outgoing codec)} {events : List (TransitEvent codec)}
      (x : Outgoing codec) (now : Nat) (hsent : x ∈ sent) (h : Transit others sent rest events) :
      Transit others sent rest (.duplicate x now :: events)
  | other {sent rest : List (Outgoing codec)} {events : List (TransitEvent codec)}
      (envelope : ClientEnvelope) (wireSizeBytes now : Nat) (hclient : envelope.clientId ∈ others)
      (hchunk : envelope.IsChunk) (h : Transit others sent rest events) :
      Transit others sent rest (.other envelope wireSizeBytes now :: events)

/-- The websocket state after an event, and the envelope that is forwarded. -/
def observeEvent (clientId : ClientId) (streamId : StreamId) (event : TransitEvent codec)
    (s : WebsocketState) : WebsocketState × Option ClientEnvelope :=
  match event with
  | .deliver x now | .duplicate x now =>
      s.receive codec (x.envelope clientId streamId) x.segment.wireSizeBytes now
  | .lose _ => (s, none)
  | .other envelope wireSizeBytes now => s.receive codec envelope wireSizeBytes now

theorem observeEvent_deliver (clientId : ClientId) (streamId : StreamId) (x : Outgoing codec)
    (now : Nat) (s : WebsocketState) :
    observeEvent clientId streamId (.deliver x now) s =
      s.receive codec (x.envelope clientId streamId) x.segment.wireSizeBytes now :=
  rfl

theorem observeEvent_duplicate (clientId : ClientId) (streamId : StreamId) (x : Outgoing codec)
    (now : Nat) (s : WebsocketState) :
    observeEvent clientId streamId (.duplicate x now) s =
      s.receive codec (x.envelope clientId streamId) x.segment.wireSizeBytes now :=
  rfl

def stateAfter (clientId : ClientId) (streamId : StreamId) (s : WebsocketState) :
    List (TransitEvent codec) → WebsocketState
  | [] => s
  | event :: events =>
      stateAfter clientId streamId (observeEvent clientId streamId event s).1 events

def forwarded (clientId : ClientId) (streamId : StreamId) (s : WebsocketState) :
    List (TransitEvent codec) → List ClientEnvelope
  | [] => []
  | event :: events =>
      (observeEvent clientId streamId event s).2.toList ++
        forwarded clientId streamId (observeEvent clientId streamId event s).1 events

/-- Whether an envelope is that of a message of the stream. -/
def ClientEnvelope.isFor (clientId : ClientId) (streamId : StreamId) (seqId : Nat)
    (envelope : ClientEnvelope) : Bool :=
  envelope.clientId = clientId ∧ envelope.streamId = some streamId ∧ envelope.seqId = some seqId

/-- An older message of the stream is being assembled. -/
def WebsocketState.HoldsOlder (clientId : ClientId) (streamId : StreamId) (seqId : Nat)
    (s : WebsocketState) : Prop :=
  ∃ assembly, s.clientSegmentReassembler.lookup clientId = some assembly ∧
    assembly.streamId = streamId ∧ assembly.metadata.seqId < seqId

instance (clientId : ClientId) (streamId : StreamId) (seqId : Nat) (s : WebsocketState) :
    Decidable (s.HoldsOlder clientId streamId seqId) :=
  decidable_of_iff ((s.clientSegmentReassembler.lookup clientId).any fun assembly =>
    assembly.streamId = streamId ∧ assembly.metadata.seqId < seqId) (by
      simp [WebsocketState.HoldsOlder, Option.any_eq_true])

/-! ### Arrivals of other clients -/

section Receive

variable {envelope : ClientEnvelope} {wireSizeBytes now : Nat} {s : WebsocketState}

theorem receive_of_no_key (hchunk : envelope.IsChunk) (hkey : clientMessageKey envelope = none) :
    s.receive codec envelope wireSizeBytes now = (s, none) := by
  obtain ⟨segmentId, segmentCount, messageSizeBytes, chunk, hevent⟩ := hchunk
  have hseq : envelope.seqId = none := by
    rcases hseqId : envelope.seqId with _ | seqId
    · rfl
    · simp [clientMessageKey, hevent, hseqId] at hkey
  simp [WebsocketState.receive, WebsocketState.observeClientMessage, hkey,
    WebsocketState.reassemble, observe, hevent, hseq]

theorem receive_sameElsewhere (hchunk : envelope.IsChunk)
    (hfew : s.clientSegmentReassembler.keys.length < remoteControlSegmentAssemblyMaxCount) :
    SameElsewhere envelope.clientId s.clientSegmentReassembler
      (s.receive codec envelope wireSizeBytes now).1.clientSegmentReassembler := by
  rcases hkey : clientMessageKey envelope with _ | ⟨key, seqId⟩
  · rw [receive_of_no_key hchunk hkey]
    exact SameElsewhere.refl _ _
  · rcases WebsocketState.receive_cases hkey rfl with ⟨-, -, hsame | ⟨streamId, -, hsame⟩ | hsame⟩
      | ⟨-, -, -, hsame⟩
    · rw [hsame]
      exact SameElsewhere.refl _ _
    · rw [hsame]
      exact sameElsewhere_removeAssembly _ _ _
    · rw [hsame]
      exact sameElsewhere_observe codec envelope now hfew
    · rw [hsame]
      exact sameElsewhere_observe codec envelope now hfew

/-- A chunk of another client changes nothing for this one, and is forwarded for that other
client. -/
theorem receive_other {clientId : ClientId} (hchunk : envelope.IsChunk)
    (hclient : envelope.clientId ≠ clientId) (streamId : Option StreamId) :
    (s.receive codec envelope wireSizeBytes now).1.lastCompletedClientChunkSeqIdByStream.lookup
        (clientId, streamId) =
      s.lastCompletedClientChunkSeqIdByStream.lookup (clientId, streamId) ∧
    ∀ delivered, (s.receive codec envelope wireSizeBytes now).2 = some delivered →
      delivered.clientId = envelope.clientId := by
  rcases hkey : clientMessageKey envelope with _ | ⟨key, seqId⟩
  · rw [receive_of_no_key hchunk hkey]
    exact ⟨rfl, by simp⟩
  · rcases WebsocketState.receive_cases hkey rfl with ⟨hnone, hsame, -⟩ |
      ⟨⟨message, hsome⟩, -, hinsert, -⟩
    · exact ⟨by rw [hsame], by simp [hnone]⟩
    · refine ⟨?_, ?_⟩
      · rw [hinsert, AList.lookup_insert_ne]
        rintro rfl
        unfold clientMessageKey at hkey
        split at hkey
        · simp only [Option.some.injEq, Prod.mk.injEq] at hkey
          exact hclient hkey.1.1
        · simp at hkey
      · rintro delivered hdelivered
        rw [hsome, Option.some.injEq] at hdelivered
        rw [← hdelivered]

end Receive

/-! ### The segment that an assembly waits for -/

/-- The first segments of a message are in the assembly of the client. -/
def WebsocketState.Assembling (clientId : ClientId) (streamId : StreamId)
    (m : SegmentedMessage codec) (count : Nat) (s : WebsocketState) : Prop :=
  ∃ seenAt, s.clientSegmentReassembler.lookup clientId =
    some ⟨streamId, m.metadata, joinBytes (m.segments.take count), count, seenAt⟩

namespace Outgoing

variable (x : Outgoing codec)

theorem segment_mem : x.segment ∈ x.message.segments := List.get_mem _ _

theorem joinBytes_take_succ :
    joinBytes (x.message.segments.take (x.index + 1)) =
      joinBytes (x.message.segments.take x.index) ++ x.segment.bytes := by
  unfold joinBytes
  rw [List.take_succ_eq_append_getElem x.index.isLt, List.flatMap_append]
  simp [segment]

theorem length_take_add_le :
    (joinBytes (x.message.segments.take x.index)).length + x.segment.bytes.length ≤
      (joinBytes x.message.segments).length := by
  rw [← List.length_append, ← x.joinBytes_take_succ]
  conv_rhs => rw [← List.take_append_drop (x.index + 1) x.message.segments]
  unfold joinBytes
  rw [List.flatMap_append, List.length_append]
  exact Nat.le_add_right _ _

theorem not_isInvalidChunk :
    isInvalidChunk x.message.metadata x.index x.segment.messageChunkBase64 = false := by
  have hcount := x.message.count_pos
  have hcountMax := x.message.count_le
  have hsize := x.message.size_pos
  have hsizeMax := x.message.size_le
  have hindex := x.index.isLt
  have hchunk := x.message.chunk_ne_nil _ x.segment_mem
  simp only [isInvalidChunk, SegmentedMessage.metadata, hchunk, or_false, decide_eq_false_iff_not]
  omega

/-- The segment is decoded in full: the assembly has room for it. -/
theorem addChunk_eq (streamId : StreamId) (seenAt now : Nat) :
    ClientSegmentAssembly.addChunk codec
        ⟨streamId, x.message.metadata, joinBytes (x.message.segments.take x.index), x.index, seenAt⟩
        (joinBytes x.message.segments).length x.segment.messageChunkBase64 now =
      (⟨streamId, x.message.metadata, joinBytes (x.message.segments.take (x.index + 1)),
          x.index + 1, now⟩,
        if x.index + 1 < x.message.segments.length then .pending
        else .complete x.message.message) := by
  rw [ClientSegmentAssembly.addChunk_of_decodes (x.message.decodes _ x.segment_mem)
    x.length_take_add_le]
  simp only [← x.joinBytes_take_succ, ClientSegmentAssembly.afterChunk]
  by_cases hlast : (x.index : Nat) + 1 < x.message.segments.length
  · simp [SegmentedMessage.metadata, hlast]
  · have hall : x.message.segments.take (x.index + 1) = x.message.segments :=
      List.take_of_length_le (by omega)
    simp [SegmentedMessage.metadata, hlast, hall, x.message.parses]

end Outgoing

section Next

variable {clientId : ClientId} {streamId : StreamId} {x : Outgoing codec} {now : Nat}

/-- The envelope in which the message is forwarded. -/
def Outgoing.reassembled (clientId : ClientId) (streamId : StreamId) (x : Outgoing codec) :
    ClientEnvelope :=
  { x.envelope clientId streamId with event := .clientMessage x.message.message }

theorem observe_envelope (r : ClientSegmentReassembler) :
    r.observe codec (x.envelope clientId streamId) now =
      observeChunk codec (x.envelope clientId streamId) streamId x.message.metadata x.index
        x.segment.messageChunkBase64 now r :=
  rfl

theorem addToAssembly_next {r : ClientSegmentReassembler} {seenAt : Nat}
    (hlookup : r.lookup clientId = some ⟨streamId, x.message.metadata,
      joinBytes (x.message.segments.take x.index), x.index, seenAt⟩) :
    addToAssembly codec (x.envelope clientId streamId) streamId x.message.metadata x.index
        x.segment.messageChunkBase64 now r =
      (if x.index + 1 < x.message.segments.length then
        (r.insert clientId ⟨streamId, x.message.metadata,
          joinBytes (x.message.segments.take (x.index + 1)), x.index + 1, now⟩, .pending)
      else
        ((r.insert clientId ⟨streamId, x.message.metadata,
          joinBytes (x.message.segments.take (x.index + 1)), x.index + 1, now⟩).erase clientId,
          .forward (x.reassembled clientId streamId))) := by
  have hupdate := x.addChunk_eq streamId seenAt now
  have hclient : (x.envelope clientId streamId).clientId = clientId := rfl
  unfold addToAssembly
  rw [hclient, hlookup]
  simp only [ClientSegmentAssembly.update, lt_irrefl, if_false, ne_eq, not_true_eq_false]
  have hsize : x.message.metadata.messageSizeBytes = (joinBytes x.message.segments).length := rfl
  rw [hsize, hupdate]
  by_cases hlast : (x.index : Nat) + 1 < x.message.segments.length
  · simp [hlast]
  · simp only [hlast, if_false]
    congr 1
    exact removeAssembly_of_lookup (AList.lookup_insert _)

/-- The next segment of the message either leaves it in assembly with one segment more, or
completes it. -/
theorem receive_next {s : WebsocketState} {seenAt : Nat}
    (hcompleted : s.isCompleted (clientId, some streamId) x.seqId = false)
    (hignore : s.clientSegmentReassembler.shouldIgnoreChunk clientId streamId x.seqId x.index =
      false)
    (hopen : (openAssembly clientId streamId x.message.metadata now
      s.clientSegmentReassembler).lookup clientId = some ⟨streamId, x.message.metadata,
        joinBytes (x.message.segments.take x.index), x.index, seenAt⟩)
    {out : WebsocketState × Option ClientEnvelope}
    (hout : s.receive codec (x.envelope clientId streamId) x.segment.wireSizeBytes now = out) :
    (x.index + 1 < x.message.segments.length ∧ out.2 = none ∧
        out.1.lastCompletedClientChunkSeqIdByStream = s.lastCompletedClientChunkSeqIdByStream ∧
        out.1.Assembling clientId streamId x.message (x.index + 1)) ∨
      (out.2 = some (x.reassembled clientId streamId) ∧
        out.1.isCompleted (clientId, some streamId) x.seqId = true) := by
  have hwire : ¬ remoteControlSegmentMaxBytes < x.segment.wireSizeBytes := by
    have := x.message.wireSize_le _ x.segment_mem
    omega
  have hkey : clientMessageKey (x.envelope clientId streamId) =
      some ((clientId, some streamId), x.seqId) := rfl
  have hstale : s.isStale (x.envelope clientId streamId) x.seqId = false := hignore
  have hobserve : s.clientSegmentReassembler.observe codec (x.envelope clientId streamId) now =
      addToAssembly codec (x.envelope clientId streamId) streamId x.message.metadata x.index
        x.segment.messageChunkBase64 now (openAssembly clientId streamId x.message.metadata now
          s.clientSegmentReassembler) := by
    have hvalid := x.not_isInvalidChunk
    have hnot : ¬ s.clientSegmentReassembler.shouldIgnoreChunk
        (x.envelope clientId streamId).clientId streamId x.message.metadata.seqId x.index =
          true := by
      rw [Bool.not_eq_true]
      exact hignore
    rw [observe_envelope, observeChunk, if_neg hnot, if_neg (by simp [hvalid])]
    rfl
  rw [addToAssembly_next hopen] at hobserve
  subst hout
  unfold WebsocketState.receive WebsocketState.observeClientMessage WebsocketState.reassemble
  simp only [hkey, hcompleted, hstale, hwire, if_false, Bool.false_eq_true, hobserve]
  by_cases hlast : (x.index : Nat) + 1 < x.message.segments.length
  · simp only [hlast, if_true]
    exact .inl ⟨trivial, trivial, trivial, now, AList.lookup_insert _⟩
  · simp only [hlast, if_false]
    refine .inr ⟨trivial, ?_⟩
    simp [WebsocketState.isCompleted, WebsocketState.recordClientMessageDelivery_completed]

end Next

/-! ### What the state knows of the segments that were sent -/

/-- The state knows only of clients that take part and of messages that were sent. -/
structure Tracks (clientId : ClientId) (streamId : StreamId) (others : List ClientId)
    (sent : List (Outgoing codec)) (s : WebsocketState) : Prop where
  clients : ∀ client ∈ s.clientSegmentReassembler, client = clientId ∨ client ∈ others
  assembly : ∀ assembly, s.clientSegmentReassembler.lookup clientId = some assembly →
    assembly.streamId = streamId ∧ ∃ x ∈ sent, assembly.metadata.seqId = x.seqId
  completed : ∀ seqId, s.lastCompletedClientChunkSeqIdByStream.lookup (clientId, some streamId) =
    some seqId → ∃ x ∈ sent, seqId = x.seqId

section Steps

variable {clientId : ClientId} {streamId : StreamId} {others : List ClientId}
  {sent : List (Outgoing codec)} {s : WebsocketState}

theorem tracks_start : Tracks clientId streamId others ([] : List (Outgoing codec)) {} where
  clients client hmem := absurd hmem (AList.notMem_empty client)
  assembly assembly h := by simp at h
  completed seqId h := by simp at h

/-- With so few clients there is always room for one more assembly. -/
theorem Tracks.few (h : Tracks clientId streamId others sent s) (hcount : others.length < 127) :
    s.clientSegmentReassembler.keys.length < remoteControlSegmentAssemblyMaxCount := by
  have hsub : s.clientSegmentReassembler.keys ⊆ clientId :: others := by
    intro client hmem
    exact List.mem_cons.mpr (h.clients client hmem)
  have hle := (List.subperm_of_subset s.clientSegmentReassembler.keys_nodup hsub).length_le
  simp only [List.length_cons] at hle
  unfold remoteControlSegmentAssemblyMaxCount
  omega

theorem Tracks.not_isCompleted (h : Tracks clientId streamId others sent s) {seqId : Nat}
    (hsent : ∀ x ∈ sent, x.seqId < seqId) :
    s.isCompleted (clientId, some streamId) seqId = false := by
  unfold WebsocketState.isCompleted
  rcases hfind : s.lastCompletedClientChunkSeqIdByStream.lookup (clientId, some streamId) with
    _ | completed
  · rfl
  · obtain ⟨x, hx, rfl⟩ := h.completed completed hfind
    have := hsent x hx
    simp [this]

theorem isChunk_envelope (x : Outgoing codec) : (x.envelope clientId streamId).IsChunk :=
  ⟨_, _, _, _, rfl⟩

theorem Tracks.receive_own (h : Tracks clientId streamId others sent s)
    (hcount : others.length < 127) (x : Outgoing codec) (wireSizeBytes now : Nat) :
    Tracks clientId streamId others (x :: sent)
      (s.receive codec (x.envelope clientId streamId) wireSizeBytes now).1 := by
  have hkey : clientMessageKey (x.envelope clientId streamId) =
      some ((clientId, some streamId), x.seqId) := rfl
  have hsame : SameElsewhere clientId s.clientSegmentReassembler
      (s.receive codec (x.envelope clientId streamId) wireSizeBytes
        now).1.clientSegmentReassembler :=
    receive_sameElsewhere (isChunk_envelope x) (h.few hcount)
  have hold : ∀ assembly, s.clientSegmentReassembler.lookup clientId = some assembly →
      assembly.streamId = streamId ∧ ∃ y ∈ x :: sent, assembly.metadata.seqId = y.seqId := by
    intro assembly hassembly
    obtain ⟨hstream, y, hy, hseq⟩ := h.assembly assembly hassembly
    exact ⟨hstream, y, List.mem_cons_of_mem x hy, hseq⟩
  have hobserved : ∀ assembly, (s.clientSegmentReassembler.observe codec
      (x.envelope clientId streamId) now).1.lookup (x.envelope clientId streamId).clientId =
        some assembly →
      assembly.streamId = streamId ∧ ∃ y ∈ x :: sent, assembly.metadata.seqId = y.seqId := by
    intro assembly hassembly
    rw [observe_envelope] at hassembly
    rcases lookup_observeChunk_self hassembly with ⟨old, hlookup, hstream, hmetadata⟩ |
      ⟨hstream, hmetadata⟩
    · rw [hstream, hmetadata]
      exact hold old hlookup
    · exact ⟨hstream, x, List.mem_cons_self .., by rw [hmetadata]; rfl⟩
  have hdone : ∀ seqId, s.lastCompletedClientChunkSeqIdByStream.lookup (clientId, some streamId) =
      some seqId → ∃ y ∈ x :: sent, seqId = y.seqId := by
    intro seqId hseqId
    obtain ⟨y, hy, hseq⟩ := h.completed seqId hseqId
    exact ⟨y, List.mem_cons_of_mem x hy, hseq⟩
  refine ⟨?_, ?_, ?_⟩
  · intro client hmem
    rcases hsame.mem_of_mem hmem with rfl | hmem
    · exact .inl rfl
    · exact h.clients client hmem
  · rcases WebsocketState.receive_cases hkey rfl with
      ⟨-, -, heq | ⟨removed, hremoved, heq⟩ | heq⟩ | ⟨-, -, -, heq⟩
    · rw [heq]
      exact hold
    · rw [heq]
      intro assembly hassembly
      exact hold assembly (lookup_removeAssembly_self hassembly)
    · rw [heq]
      exact hobserved
    · rw [heq]
      exact hobserved
  · rcases WebsocketState.receive_cases hkey rfl with ⟨-, heq, -⟩ | ⟨-, -, heq, -⟩
    · rw [heq]
      exact hdone
    · rw [heq, AList.lookup_insert]
      rintro seqId hseqId
      exact ⟨x, List.mem_cons_self .., (Option.some.inj hseqId).symm⟩

theorem Tracks.receive_other (h : Tracks clientId streamId others sent s)
    (hcount : others.length < 127) (hother : clientId ∉ others) {envelope : ClientEnvelope}
    (hchunk : envelope.IsChunk) (hclient : envelope.clientId ∈ others) (wireSizeBytes now : Nat) :
    Tracks clientId streamId others sent (s.receive codec envelope wireSizeBytes now).1 := by
  have hne : clientId ≠ envelope.clientId := by
    rintro rfl
    exact hother hclient
  have hsame : SameElsewhere envelope.clientId s.clientSegmentReassembler
      (s.receive codec envelope wireSizeBytes now).1.clientSegmentReassembler :=
    receive_sameElsewhere hchunk (h.few hcount)
  refine ⟨?_, ?_, ?_⟩
  · intro client hmem
    rcases hsame.mem_of_mem hmem with rfl | hmem
    · exact .inr hclient
    · exact h.clients client hmem
  · rw [hsame clientId hne]
    exact h.assembly
  · rw [(RemoteControl.receive_other hchunk hne.symm (some streamId)).1]
    exact h.completed

theorem Tracks.mono (h : Tracks clientId streamId others sent s) {more : List (Outgoing codec)}
    (hsub : sent ⊆ more) : Tracks clientId streamId others more s where
  clients := h.clients
  assembly assembly hassembly := by
    obtain ⟨hstream, x, hx, hseq⟩ := h.assembly assembly hassembly
    exact ⟨hstream, x, hsub hx, hseq⟩
  completed seqId hseqId := by
    obtain ⟨x, hx, hseq⟩ := h.completed seqId hseqId
    exact ⟨x, hsub hx, hseq⟩

/-- A segment that arrives once more leaves what is known as it is. -/
theorem Tracks.receive_again (h : Tracks clientId streamId others sent s)
    (hcount : others.length < 127) {x : Outgoing codec} (hx : x ∈ sent) (wireSizeBytes now : Nat) :
    Tracks clientId streamId others sent
      (s.receive codec (x.envelope clientId streamId) wireSizeBytes now).1 :=
  (h.receive_own hcount x wireSizeBytes now).mono (List.cons_subset.mpr ⟨hx, List.Subset.refl _⟩)

theorem isCompleted_iff {key : ClientMessageKey} {seqId : Nat} :
    s.isCompleted key seqId = true ↔
      ∃ last, s.lastCompletedClientChunkSeqIdByStream.lookup key = some last ∧ seqId ≤ last := by
  simp [WebsocketState.isCompleted, Option.any_eq_true]

/-- Once a message is completed, a segment of the stream forwards only newer ones. -/
theorem receive_own_of_completed {seqId : Nat}
    (hdone : s.isCompleted (clientId, some streamId) seqId = true) (x : Outgoing codec)
    {wireSizeBytes now : Nat} {out : WebsocketState × Option ClientEnvelope}
    (hout : s.receive codec (x.envelope clientId streamId) wireSizeBytes now = out) :
    out.1.isCompleted (clientId, some streamId) seqId = true ∧
      ∀ delivered, out.2 = some delivered → delivered.isFor clientId streamId seqId = false := by
  have hkey : clientMessageKey (x.envelope clientId streamId) =
      some ((clientId, some streamId), x.seqId) := rfl
  rcases WebsocketState.receive_cases hkey hout with ⟨hnone, heq, -⟩ |
    ⟨⟨message, hsome⟩, hnot, heq, -⟩
  · refine ⟨?_, by simp [hnone]⟩
    unfold WebsocketState.isCompleted at hdone ⊢
    rw [heq]
    exact hdone
  · obtain ⟨last, hlast, hle⟩ := isCompleted_iff.mp hdone
    have hnewer : seqId < x.seqId := by
      simp only [WebsocketState.isCompleted, hlast, Option.any_some, decide_eq_false_iff_not,
        not_le] at hnot
      omega
    refine ⟨isCompleted_iff.mpr ⟨x.seqId, ?_, hnewer.le⟩, ?_⟩
    · rw [heq, AList.lookup_insert]
    · intro delivered hdelivered
      rw [hsome, Option.some.injEq] at hdelivered
      rw [← hdelivered]
      simp only [ClientEnvelope.isFor, Outgoing.envelope, Option.some.injEq, hnewer.ne', and_false,
        decide_false]

/-- A segment that the assembly is past is dropped. -/
theorem receive_own_of_assembling {m : SegmentedMessage codec} {count : Nat}
    (hassembling : s.Assembling clientId streamId m count) {x : Outgoing codec}
    (hpast : x.seqId < m.seqId ∨ x.seqId = m.seqId ∧ x.index < count) (wireSizeBytes now : Nat) :
    s.receive codec (x.envelope clientId streamId) wireSizeBytes now = (s, none) := by
  obtain ⟨seenAt, hlookup⟩ := hassembling
  have hkey : clientMessageKey (x.envelope clientId streamId) =
      some ((clientId, some streamId), x.seqId) := rfl
  have hstale : s.isStale (x.envelope clientId streamId) x.seqId = true := by
    have hignore : s.isStale (x.envelope clientId streamId) x.seqId =
        s.clientSegmentReassembler.shouldIgnoreChunk clientId streamId x.seqId x.index := rfl
    rw [hignore, shouldIgnoreChunk, hlookup]
    simpa [SegmentedMessage.metadata] using hpast
  unfold WebsocketState.receive WebsocketState.observeClientMessage
  simp only [hkey, hstale, if_true]
  split_ifs
  · rfl
  · rfl

end Steps

/-! ### Whole transits -/

section Runs

variable {clientId : ClientId} {streamId : StreamId} {others : List ClientId}
  {sent rest : List (Outgoing codec)} {events : List (TransitEvent codec)} {s : WebsocketState}
  {m : SegmentedMessage codec}

/-- The envelopes that are forwarded for one message. -/
def forwardedFor (clientId : ClientId) (streamId : StreamId) (seqId : Nat) (s : WebsocketState)
    (events : List (TransitEvent codec)) : List ClientEnvelope :=
  (forwarded clientId streamId s events).filter (ClientEnvelope.isFor clientId streamId seqId)

theorem forwardedFor_cons (seqId : Nat) (event : TransitEvent codec) :
    forwardedFor clientId streamId seqId s (event :: events) =
      (observeEvent clientId streamId event s).2.toList.filter
          (ClientEnvelope.isFor clientId streamId seqId) ++
        forwardedFor clientId streamId seqId (observeEvent clientId streamId event s).1 events := by
  simp [forwardedFor, forwarded]

theorem forwardedFor_other {envelope : ClientEnvelope} (hchunk : envelope.IsChunk)
    (hne : envelope.clientId ≠ clientId) (seqId : Nat) {wireSizeBytes now : Nat} :
    forwardedFor clientId streamId seqId s (.other envelope wireSizeBytes now :: events) =
      forwardedFor clientId streamId seqId
        (s.receive codec envelope wireSizeBytes now).1 events := by
  have hnone : (s.receive codec envelope wireSizeBytes now).2.toList.filter
      (ClientEnvelope.isFor clientId streamId seqId) = [] := by
    rw [List.filter_eq_nil_iff]
    intro delivered hmem
    have hclient := (receive_other hchunk hne (some streamId)).2 delivered (by simpa using hmem)
    simp [ClientEnvelope.isFor, hclient, hne]
  rw [forwardedFor_cons]
  exact (congrArg (· ++ _) hnone).trans (List.nil_append _)

/-- A segment of another message forwards nothing for this one. -/
theorem receive_own_of_ne {x : Outgoing codec} {seqId : Nat} (hne : x.seqId ≠ seqId)
    (wireSizeBytes now : Nat) :
    (s.receive codec (x.envelope clientId streamId) wireSizeBytes now).2.toList.filter
      (ClientEnvelope.isFor clientId streamId seqId) = [] := by
  have hkey : clientMessageKey (x.envelope clientId streamId) =
      some ((clientId, some streamId), x.seqId) := rfl
  rcases WebsocketState.receive_cases hkey rfl with ⟨hnone, -, -⟩ | ⟨⟨message, hsome⟩, -, -, -⟩
  · rw [hnone]
    rfl
  · rw [hsome]
    simp [ClientEnvelope.isFor, Outgoing.envelope, hne]

/-- A message that is completed is not forwarded again. -/
theorem forwardedFor_of_completed (hother : clientId ∉ others)
    (htransit : Transit others sent rest events) {seqId : Nat}
    (hdone : s.isCompleted (clientId, some streamId) seqId = true) :
    forwardedFor clientId streamId seqId s events = [] := by
  have hfilter : ∀ {out : Option ClientEnvelope},
      (∀ delivered, out = some delivered → delivered.isFor clientId streamId seqId = false) →
      out.toList.filter (ClientEnvelope.isFor clientId streamId seqId) = [] := by
    intro out hout
    rw [List.filter_eq_nil_iff]
    intro delivered hmem
    simp [hout delivered (by simpa using hmem)]
  induction htransit generalizing s with
  | done sent => rfl
  | deliver x now h ih =>
      obtain ⟨hkept, hnone⟩ := receive_own_of_completed hdone x rfl
      rw [forwardedFor_cons, observeEvent_deliver, ih hkept, List.append_nil]
      exact hfilter hnone
  | lose x h ih =>
      rw [forwardedFor_cons]
      exact ih hdone
  | duplicate x now hsent h ih =>
      obtain ⟨hkept, hnone⟩ := receive_own_of_completed hdone x rfl
      rw [forwardedFor_cons, observeEvent_duplicate, ih hkept, List.append_nil]
      exact hfilter hnone
  | other envelope wireSizeBytes now hclient hchunk h ih =>
      have hne : envelope.clientId ≠ clientId := by
        rintro rfl
        exact hother hclient
      obtain ⟨last, hlast, hle⟩ := isCompleted_iff.mp hdone
      rw [forwardedFor_other hchunk hne]
      refine ih (isCompleted_iff.mpr ⟨last, ?_, hle⟩)
      rw [← hlast]
      exact (receive_other hchunk hne (some streamId)).1

/-- The segments of a message from one of them on. -/
theorem outgoing_drop (m : SegmentedMessage codec) {count : Nat} (h : count < m.segments.length) :
    m.outgoing.drop count = ⟨m, count, h⟩ :: m.outgoing.drop (count + 1) := by
  have hlength : count < m.outgoing.length := by simpa [SegmentedMessage.outgoing] using h
  rw [List.drop_eq_getElem_cons hlength]
  simp [SegmentedMessage.outgoing]

/-- What is sent before the segment that an assembly waits for. -/
def SentBefore (m : SegmentedMessage codec) (count : Nat) (sent : List (Outgoing codec)) : Prop :=
  ∀ x ∈ sent, x.seqId < m.seqId ∨ x.seqId = m.seqId ∧ x.index < count

theorem SentBefore.cons {count : Nat} (h : SentBefore m count sent)
    (hlt : count < m.segments.length) : SentBefore m (count + 1) (⟨m, count, hlt⟩ :: sent) := by
  intro x hx
  rcases List.mem_cons.mp hx with rfl | hx
  · exact .inr ⟨rfl, Nat.lt_succ_self count⟩
  · rcases h x hx with hless | ⟨heq, hless⟩
    · exact .inl hless
    · exact .inr ⟨heq, by omega⟩

/-- The message is forwarded when its next segment arrives, if that is the last one, and
otherwise if it is forwarded from the assembly that the segment leaves. -/
theorem forwardedFor_deliver_next (hother : clientId ∉ others) (hcount : others.length < 127)
    {x : Outgoing codec} {now seenAt : Nat} (htransit : Transit others (x :: sent) rest events)
    (htracks : Tracks clientId streamId others sent s)
    (hcompleted : s.isCompleted (clientId, some streamId) x.seqId = false)
    (hignore : s.clientSegmentReassembler.shouldIgnoreChunk clientId streamId x.seqId x.index =
      false)
    (hopen : (openAssembly clientId streamId x.message.metadata now
      s.clientSegmentReassembler).lookup clientId = some ⟨streamId, x.message.metadata,
        joinBytes (x.message.segments.take x.index), x.index, seenAt⟩)
    (hmore : ∀ s', x.index + 1 < x.message.segments.length →
      Tracks clientId streamId others (x :: sent) s' →
      s'.Assembling clientId streamId x.message (x.index + 1) →
      s'.isCompleted (clientId, some streamId) x.seqId = false →
      ∃ envelope, forwardedFor clientId streamId x.seqId s' events = [envelope] ∧
        envelope.event = .clientMessage x.message.message) :
    ∃ envelope, forwardedFor clientId streamId x.seqId s (.deliver x now :: events) = [envelope] ∧
      envelope.event = .clientMessage x.message.message := by
  rw [forwardedFor_cons, observeEvent_deliver]
  rcases receive_next hcompleted hignore hopen rfl with ⟨hlt, hnone, hsame, hstep⟩ | ⟨hsome, hdone⟩
  · rw [hnone]
    refine hmore _ hlt (htracks.receive_own hcount x _ _) hstep ?_
    unfold WebsocketState.isCompleted at hcompleted ⊢
    rw [hsame]
    exact hcompleted
  · refine ⟨x.reassembled clientId streamId, ?_, rfl⟩
    rw [hsome, forwardedFor_of_completed hother htransit hdone]
    simp [Outgoing.reassembled, Outgoing.envelope, ClientEnvelope.isFor]

/-- A message that is in assembly is forwarded once its other segments have arrived. -/
theorem forwardedFor_of_assembling (hother : clientId ∉ others) (hcount : others.length < 127)
    (htransit : Transit others sent rest events) {later : List (Outgoing codec)} {count : Nat}
    (hlt : count < m.segments.length) (hrest : rest = m.outgoing.drop count ++ later)
    (hsent : SentBefore m count sent) (htracks : Tracks clientId streamId others sent s)
    (hassembling : s.Assembling clientId streamId m count)
    (hcompleted : s.isCompleted (clientId, some streamId) m.seqId = false)
    (harrive : ∀ index, .lose ⟨m, index⟩ ∉ events) :
    ∃ envelope, forwardedFor clientId streamId m.seqId s events = [envelope] ∧
      envelope.event = .clientMessage m.message := by
  induction htransit generalizing s count with
  | done sent =>
      rw [outgoing_drop m hlt] at hrest
      simp at hrest
  | deliver x now h ih =>
      rw [outgoing_drop m hlt, List.cons_append, List.cons.injEq] at hrest
      obtain ⟨rfl, hrest⟩ := hrest
      obtain ⟨seenAt, hlookup⟩ := hassembling
      have hopen : openAssembly clientId streamId m.metadata now s.clientSegmentReassembler =
          s.clientSegmentReassembler := by
        simp [openAssembly, hlookup]
      have hignore : s.clientSegmentReassembler.shouldIgnoreChunk clientId streamId m.seqId count =
          false := by
        simp [shouldIgnoreChunk, hlookup, SegmentedMessage.metadata]
      refine forwardedFor_deliver_next hother hcount h htracks hcompleted hignore
        (hopen ▸ hlookup) fun s' hmore htracks' hassembling' hcompleted' => ?_
      exact ih hmore hrest (hsent.cons hlt) htracks' hassembling' hcompleted'
        fun index hmem => harrive index (List.mem_cons_of_mem _ hmem)
  | lose x h ih =>
      rw [outgoing_drop m hlt, List.cons_append, List.cons.injEq] at hrest
      obtain ⟨rfl, -⟩ := hrest
      exact absurd (List.mem_cons_self ..) (harrive ⟨count, hlt⟩)
  | duplicate x now hx h ih =>
      rw [forwardedFor_cons, observeEvent_duplicate,
        receive_own_of_assembling hassembling (hsent x hx)]
      exact ih hlt hrest hsent htracks hassembling hcompleted
        fun index hmem => harrive index (List.mem_cons_of_mem _ hmem)
  | other envelope wireSizeBytes now hclient hchunk h ih =>
      have hne : clientId ≠ envelope.clientId := by
        rintro rfl
        exact hother hclient
      have hkept : (s.receive codec envelope wireSizeBytes now).1.isCompleted
          (clientId, some streamId) m.seqId = false := by
        unfold WebsocketState.isCompleted at hcompleted ⊢
        rw [(receive_other hchunk hne.symm (some streamId)).1]
        exact hcompleted
      have hstep : (s.receive codec envelope wireSizeBytes now).1.Assembling clientId streamId m
          count := by
        obtain ⟨seenAt, hlookup⟩ := hassembling
        refine ⟨seenAt, ?_⟩
        rw [receive_sameElsewhere hchunk (htracks.few hcount) clientId hne]
        exact hlookup
      rw [forwardedFor_other hchunk hne.symm]
      exact ih hlt hrest hsent (htracks.receive_other hcount hother hchunk hclient _ _) hstep hkept
        fun index hmem => harrive index (List.mem_cons_of_mem _ hmem)

/-- A message whose segments are all still to come is forwarded, if its first segment does not
find an older message in assembly. -/
theorem forwardedFor_of_waiting (hother : clientId ∉ others) (hcount : others.length < 127)
    (htransit : Transit others sent rest events) {earlier later : List (Outgoing codec)}
    (hrest : rest = earlier ++ (m.outgoing ++ later)) (hsent : ∀ x ∈ sent, x.seqId < m.seqId)
    (hearlier : ∀ x ∈ earlier, x.seqId < m.seqId)
    (htracks : Tracks clientId streamId others sent s)
    (harrive : ∀ index, .lose ⟨m, index⟩ ∉ events)
    (hfirst : ∀ before after now, events = before ++ .deliver m.first now :: after →
      ¬ (stateAfter clientId streamId s before).HoldsOlder clientId streamId m.seqId) :
    ∃ envelope, forwardedFor clientId streamId m.seqId s events = [envelope] ∧
      envelope.event = .clientMessage m.message := by
  have hdrop : m.outgoing = m.first :: m.outgoing.drop 1 := by
    have h := outgoing_drop m m.count_pos
    rwa [List.drop_zero] at h
  induction htransit generalizing s earlier with
  | done sent =>
      rw [hdrop] at hrest
      simp at hrest
  | deliver x now h ih =>
      rcases earlier with _ | ⟨y, earlier⟩
      · rw [hdrop, List.nil_append, List.cons_append, List.cons.injEq] at hrest
        obtain ⟨rfl, hrest⟩ := hrest
        have hnone : s.clientSegmentReassembler.lookup clientId = none := by
          rcases hlookup : s.clientSegmentReassembler.lookup clientId with _ | assembly
          · rfl
          · obtain ⟨hstream, y, hy, hseq⟩ := htracks.assembly assembly hlookup
            refine absurd ⟨assembly, hlookup, hstream, ?_⟩ (hfirst [] _ now rfl)
            rw [hseq]
            exact hsent y hy
        have hopen : (openAssembly clientId streamId m.metadata now
            s.clientSegmentReassembler).lookup clientId =
              some ⟨streamId, m.metadata, [], 0, now⟩ := by
          simp [openAssembly, hnone]
        have hignore : s.clientSegmentReassembler.shouldIgnoreChunk clientId streamId m.seqId 0 =
            false := by
          simp [shouldIgnoreChunk, hnone]
        have hbefore : SentBefore m 0 _ := fun y hy => .inl (hsent y hy)
        refine forwardedFor_deliver_next hother hcount h htracks (htracks.not_isCompleted hsent)
          hignore hopen fun s' hmore htracks' hassembling' hcompleted' => ?_
        exact forwardedFor_of_assembling hother hcount h hmore hrest (hbefore.cons m.count_pos)
          htracks' hassembling' hcompleted'
          fun index hmem => harrive index (List.mem_cons_of_mem _ hmem)
      · rw [List.cons_append, List.cons.injEq] at hrest
        obtain ⟨rfl, hrest⟩ := hrest
        have hx := hearlier x (List.mem_cons_self ..)
        rw [forwardedFor_cons, observeEvent_deliver, receive_own_of_ne hx.ne, List.nil_append]
        exact ih hrest (List.forall_mem_cons.mpr ⟨hx, hsent⟩)
          (fun y hy => hearlier y (List.mem_cons_of_mem _ hy)) (htracks.receive_own hcount x _ _)
          (fun index hmem => harrive index (List.mem_cons_of_mem _ hmem))
          fun before after now' hevents => hfirst (.deliver x now :: before) after now'
            (by rw [hevents, List.cons_append])
  | lose x h ih =>
      rcases earlier with _ | ⟨y, earlier⟩
      · rw [hdrop, List.nil_append, List.cons_append, List.cons.injEq] at hrest
        obtain ⟨rfl, -⟩ := hrest
        exact absurd (List.mem_cons_self ..) (harrive ⟨0, m.count_pos⟩)
      · rw [List.cons_append, List.cons.injEq] at hrest
        obtain ⟨rfl, hrest⟩ := hrest
        have hx := hearlier x (List.mem_cons_self ..)
        rw [forwardedFor_cons]
        exact ih hrest (List.forall_mem_cons.mpr ⟨hx, hsent⟩)
          (fun y hy => hearlier y (List.mem_cons_of_mem _ hy))
          (htracks.mono (List.subset_cons_self x _))
          (fun index hmem => harrive index (List.mem_cons_of_mem _ hmem))
          fun before after now' hevents => hfirst (.lose x :: before) after now'
            (by rw [hevents, List.cons_append])
  | duplicate x now hx h ih =>
      rw [forwardedFor_cons, observeEvent_duplicate, receive_own_of_ne (hsent x hx).ne,
        List.nil_append]
      exact ih hrest hsent hearlier (htracks.receive_again hcount hx _ _)
        (fun index hmem => harrive index (List.mem_cons_of_mem _ hmem))
        fun before after now' hevents => hfirst (.duplicate x now :: before) after now'
          (by rw [hevents, List.cons_append])
  | other envelope wireSizeBytes now hclient hchunk h ih =>
      have hne : envelope.clientId ≠ clientId := by
        rintro rfl
        exact hother hclient
      rw [forwardedFor_other hchunk hne]
      exact ih hrest hsent hearlier (htracks.receive_other hcount hother hchunk hclient _ _)
        (fun index hmem => harrive index (List.mem_cons_of_mem _ hmem))
        fun before after now' hevents =>
          hfirst (.other envelope wireSizeBytes now :: before) after now'
            (by rw [hevents, List.cons_append])

/-- Every message that arrives whole is forwarded once and with its bytes, in every transit of
the messages of a stream, if its first segment does not find an older message of the stream in
assembly. -/
theorem forwarded_once_of_arrives (hother : clientId ∉ others) (hcount : others.length < 127)
    {messages : List (SegmentedMessage codec)}
    (hincreasing : messages.Pairwise fun earlier later => earlier.seqId < later.seqId)
    (htransit : Transit others [] (messages.flatMap SegmentedMessage.outgoing) events)
    (hm : m ∈ messages) (harrive : ∀ index, .lose ⟨m, index⟩ ∉ events)
    (hfirst : ∀ before after now, events = before ++ .deliver m.first now :: after →
      ¬ (stateAfter clientId streamId {} before).HoldsOlder clientId streamId m.seqId) :
    ∃ envelope, forwardedFor clientId streamId m.seqId {} events = [envelope] ∧
      envelope.event = .clientMessage m.message ∧
      codec.messageFromSlice (joinBytes m.segments) = some m.message := by
  obtain ⟨before, after, rfl⟩ := List.append_of_mem hm
  have hearlier : ∀ x ∈ before.flatMap SegmentedMessage.outgoing, x.seqId < m.seqId := by
    intro x hx
    obtain ⟨m', hm', hx⟩ := List.mem_flatMap.mp hx
    obtain ⟨index, -, rfl⟩ := List.mem_map.mp hx
    exact (List.pairwise_append.mp hincreasing).2.2 m' hm' m (List.mem_cons_self ..)
  rw [List.flatMap_append, List.flatMap_cons] at htransit
  obtain ⟨envelope, hforwarded, hevent⟩ := forwardedFor_of_waiting hother hcount htransit rfl
    (fun x hx => absurd hx List.not_mem_nil) hearlier tracks_start harrive hfirst
  exact ⟨envelope, hforwarded, hevent, m.parses⟩

end Runs

/-! ### Two notifications of one stream -/

def ascii (s : String) : Bytes := s.toList.map fun c => UInt8.ofNat c.toNat

/-- The decoders on three chunks, of the notifications `a` and `b`. -/
def notificationCodec : Codec where
  decodeBase64 s :=
    if s = "eyJtZXRobw==".toList then some (ascii "\x7b\"metho")
    else if s = "ZCI6ImEifQ==".toList then some (ascii "d\":\"a\"\x7d")
    else if s = "ZCI6ImIifQ==".toList then some (ascii "d\":\"b\"\x7d")
    else none
  messageFromSlice bytes :=
    if bytes = ascii "\x7b\"method\":\"a\"\x7d" then
      some (.other "\x7b\"method\":\"a\"\x7d".toList)
    else if bytes = ascii "\x7b\"method\":\"b\"\x7d" then
      some (.other "\x7b\"method\":\"b\"\x7d".toList)
    else none
  length_decodeBase64_le {s bytes} h := by
    split_ifs at h with h₁ h₂ h₃
    · cases h
      subst h₁
      decide
    · cases h
      subst h₂
      decide
    · cases h
      subst h₃
      decide

def notificationA : SegmentedMessage notificationCodec where
  seqId := 1
  segments :=
    [⟨"eyJtZXRobw==".toList, ascii "\x7b\"metho", 200, none⟩,
      ⟨"ZCI6ImEifQ==".toList, ascii "d\":\"a\"\x7d", 200, none⟩]
  message := .other "\x7b\"method\":\"a\"\x7d".toList
  count_pos := by decide
  count_le := by decide
  size_pos := by decide
  size_le := by decide
  chunk_ne_nil := by decide
  wireSize_le := by decide
  decodes := by decide
  parses := by decide

def notificationB : SegmentedMessage notificationCodec where
  seqId := 2
  segments :=
    [⟨"eyJtZXRobw==".toList, ascii "\x7b\"metho", 200, none⟩,
      ⟨"ZCI6ImIifQ==".toList, ascii "d\":\"b\"\x7d", 200, none⟩]
  message := .other "\x7b\"method\":\"b\"\x7d".toList
  count_pos := by decide
  count_le := by decide
  size_pos := by decide
  size_le := by decide
  chunk_ne_nil := by decide
  wireSize_le := by decide
  decodes := by decide
  parses := by decide

/-- The first notification loses its first segment.  A segment of the second one arrives twice,
with the chunk of another client in between. -/
def headLost : List (TransitEvent notificationCodec) :=
  [.lose ⟨notificationA, ⟨0, by decide⟩⟩, .deliver ⟨notificationA, ⟨1, by decide⟩⟩ 1,
    .deliver ⟨notificationB, ⟨0, by decide⟩⟩ 2,
    .other ⟨.clientMessageChunk 0 2 14 "eyJtZXRobw==".toList, "other".toList,
      some "stream".toList, some 1, none⟩ 200 3,
    .duplicate ⟨notificationB, ⟨0, by decide⟩⟩ 4, .deliver ⟨notificationB, ⟨1, by decide⟩⟩ 5]

theorem forwarded_once_after_lost_head :
    ∃ envelope, forwardedFor "client".toList "stream".toList 2 {} headLost = [envelope] ∧
      envelope.event = .clientMessage notificationB.message ∧
      notificationCodec.messageFromSlice (joinBytes notificationB.segments) =
        some notificationB.message := by
  have htransit : Transit ["other".toList] []
      ([notificationA, notificationB].flatMap SegmentedMessage.outgoing) headLost :=
    .lose _ (.deliver _ _ (.deliver _ _ (.other _ _ _ (by simp) ⟨_, _, _, _, rfl⟩
      (.duplicate _ _ (by simp) (.deliver _ _ (.done _))))))
  have hlost : ∀ x, .lose x ∈ headLost → x.seqId = 1 := by
    intro x hx
    simp only [headLost, List.mem_cons, reduceCtorEq, TransitEvent.lose.injEq,
      List.not_mem_nil, or_false] at hx
    rw [hx]
    rfl
  have hnever : ∀ count < 7, ¬ (stateAfter "client".toList "stream".toList {}
      (headLost.take count)).HoldsOlder "client".toList "stream".toList 2 := by
    decide +kernel
  refine forwarded_once_of_arrives (m := notificationB) (by decide) (by decide) (by decide)
    htransit (by simp) (fun index hmem => absurd (hlost _ hmem) (show ¬ 2 = 1 by decide)) ?_
  intro before after now hevents
  have hlength : before.length < 7 := by
    have h := congrArg List.length hevents
    simp only [headLost, List.length_cons, List.length_nil, List.length_append] at h
    omega
  have hbefore : headLost.take before.length = before := by
    rw [hevents, List.take_left]
  rw [← hbefore]
  exact hnever before.length hlength

/-- The first notification loses its second segment. -/
def tailLost : List (TransitEvent notificationCodec) :=
  [.deliver ⟨notificationA, ⟨0, by decide⟩⟩ 1, .lose ⟨notificationA, ⟨1, by decide⟩⟩,
    .deliver ⟨notificationB, ⟨0, by decide⟩⟩ 2, .deliver ⟨notificationB, ⟨1, by decide⟩⟩ 3]

theorem transit_tailLost :
    Transit [] [] ([notificationA, notificationB].flatMap SegmentedMessage.outgoing) tailLost :=
  .deliver _ _ (.lose _ (.deliver _ _ (.deliver _ _ (.done _))))

/-- Both segments of the second notification arrive, and it is not forwarded. -/
theorem not_forwarded_after_lost_tail :
    ¬ ∀ (codec : Codec) (clientId : ClientId) (streamId : StreamId) (others : List ClientId)
      (messages : List (SegmentedMessage codec)) (events : List (TransitEvent codec))
      (m : SegmentedMessage codec), clientId ∉ others → others.length < 127 →
      (messages.Pairwise fun earlier later => earlier.seqId < later.seqId) →
      Transit others [] (messages.flatMap SegmentedMessage.outgoing) events →
      m ∈ messages → (∀ index, .lose ⟨m, index⟩ ∉ events) →
      ∃ envelope, forwardedFor clientId streamId m.seqId {} events = [envelope] ∧
        envelope.event = .clientMessage m.message := by
  intro h
  have hlost : ∀ x, .lose x ∈ tailLost → x.seqId = 1 := by
    intro x hx
    simp only [tailLost, List.mem_cons, reduceCtorEq, TransitEvent.lose.injEq, false_or,
      List.not_mem_nil, or_false] at hx
    rw [hx]
    rfl
  have harrive : ∀ index, .lose ⟨notificationB, index⟩ ∉ tailLost :=
    fun index hmem => absurd (hlost _ hmem) (show ¬ 2 = 1 by decide)
  obtain ⟨envelope, hforwarded, -⟩ := h notificationCodec "client".toList "stream".toList []
    [notificationA, notificationB] tailLost notificationB (by simp) (by decide) (by decide)
    transit_tailLost (by simp) harrive
  have hnone : forwardedFor "client".toList "stream".toList notificationB.seqId {} tailLost =
      [] := by
    decide +kernel
  rw [hnone] at hforwarded
  simp at hforwarded

end Codewith.RemoteControl
