import Mathlib.Data.List.AList
import Mathlib.Data.List.MinMax
import Codewith.RemoteControl.Protocol

/-!
# Segmented client messages

A client message that is too large for one envelope arrives in chunks.
`ClientSegmentReassembler` keeps one assembly for each client, and `WebsocketState` remembers
the last segmented message of each stream that was delivered.
-/

namespace Codewith.RemoteControl

open Lib

abbrev Bytes := List UInt8

def remoteControlSegmentMaxBytes : Nat := 150 * 1024

def remoteControlReassembledMaxBytes : Nat := 100 * 1024 * 1024

def remoteControlSegmentCountMax : Nat := 1024

def remoteControlSegmentAssemblyMaxCount : Nat := 128

/-- The length of a text as UTF-8. -/
def byteLength (s : Text) : Nat := (s.map Char.utf8Size).sum

/-- The estimate of the `base64` crate. -/
def decodedLenEstimate (encodedLen : Nat) : Nat :=
  (encodedLen / 4 + if encodedLen % 4 = 0 then 0 else 1) * 3

/-- The decoders that are not part of the repository.  No decoded chunk is longer than the
estimate for it. -/
structure Codec where
  decodeBase64 : Text → Option Bytes
  messageFromSlice : Bytes → Option JSONRPCMessage
  length_decodeBase64_le : ∀ {s bytes}, decodeBase64 s = some bytes →
    bytes.length ≤ decodedLenEstimate (byteLength s)

inductive DecodeSliceError
  | decodeError
  | outputSliceTooSmall
  deriving DecidableEq, Repr

/-- Decode into a slice of the given length. -/
def Codec.decodeSlice (codec : Codec) (s : Text) (sliceLen : Nat) :
    Except DecodeSliceError Bytes :=
  match codec.decodeBase64 s with
  | none => .error .decodeError
  | some bytes => if bytes.length ≤ sliceLen then .ok bytes else .error .outputSliceTooSmall

structure ClientSegmentMetadata where
  seqId : Nat
  segmentCount : Nat
  messageSizeBytes : Nat
  deriving DecidableEq, Repr

structure ClientSegmentAssembly where
  streamId : StreamId
  metadata : ClientSegmentMetadata
  raw : Bytes
  nextSegmentId : Nat
  lastChunkSeenAt : Nat
  deriving DecidableEq, Repr

abbrev ClientSegmentReassembler := AList fun _ : ClientId => ClientSegmentAssembly

inductive ClientSegmentObservation
  | forward (envelope : ClientEnvelope)
  | pending
  | dropped
  deriving DecidableEq, Repr

inductive AssemblyUpdate
  | pending
  | ignore
  | drop
  | complete (message : JSONRPCMessage)
  deriving DecidableEq, Repr

namespace ClientSegmentReassembler

def shouldIgnoreChunk (r : ClientSegmentReassembler) (clientId : ClientId) (streamId : StreamId)
    (seqId segmentId : Nat) : Bool :=
  (r.lookup clientId).any fun assembly =>
    assembly.streamId = streamId ∧
      (seqId < assembly.metadata.seqId ∨
        seqId = assembly.metadata.seqId ∧ segmentId < assembly.nextSegmentId)

def removeAssembly (clientId : ClientId) (streamId : StreamId) (r : ClientSegmentReassembler) :
    ClientSegmentReassembler :=
  if (r.lookup clientId).any fun assembly => assembly.streamId = streamId then r.erase clientId
  else r

/-- Remove the assembly that has waited longest.  Which of several is removed depends on the
order of the map. -/
def evictOldest (r : ClientSegmentReassembler) : ClientSegmentReassembler :=
  match r.entries.argmin fun entry => entry.2.lastChunkSeenAt with
  | some entry => r.erase entry.1
  | none => r

/-- One assembly is removed in each round, so the rounds are bounded by their number. -/
def evictWhileFull : Nat → ClientSegmentReassembler → ClientSegmentReassembler
  | 0, r => r
  | rounds + 1, r =>
      if remoteControlSegmentAssemblyMaxCount ≤ r.keys.length then
        evictWhileFull rounds (evictOldest r)
      else r

def evictAssembliesIfFull (r : ClientSegmentReassembler) : ClientSegmentReassembler :=
  evictWhileFull r.keys.length r

/-- Make sure that the client has an assembly for the stream. -/
def openAssembly (clientId : ClientId) (streamId : StreamId) (metadata : ClientSegmentMetadata)
    (now : Nat) (r : ClientSegmentReassembler) : ClientSegmentReassembler :=
  match r.lookup clientId with
  | some assembly =>
      if assembly.streamId ≠ streamId then r.insert clientId ⟨streamId, metadata, [], 0, now⟩
      else r
  | none => r.evictAssembliesIfFull.insert clientId ⟨streamId, metadata, [], 0, now⟩

end ClientSegmentReassembler

/-- What follows once a chunk was added to an assembly. -/
def ClientSegmentAssembly.afterChunk (codec : Codec) (assembly : ClientSegmentAssembly) :
    AssemblyUpdate :=
  if assembly.nextSegmentId < assembly.metadata.segmentCount then .pending
  else if assembly.raw.length ≠ assembly.metadata.messageSizeBytes then .drop
  else
    match codec.messageFromSlice assembly.raw with
    | some message => .complete message
    | none => .drop

/-- The room that is made for the next chunk. -/
def ClientSegmentAssembly.room (assembly : ClientSegmentAssembly) (messageSizeBytes : Nat)
    (chunk : Text) : Nat :=
  min messageSizeBytes (assembly.raw.length + decodedLenEstimate (byteLength chunk)) -
    assembly.raw.length

def ClientSegmentAssembly.addChunk (codec : Codec) (assembly : ClientSegmentAssembly)
    (messageSizeBytes : Nat) (chunk : Text) (now : Nat) :
    ClientSegmentAssembly × AssemblyUpdate :=
  match codec.decodeSlice chunk (assembly.room messageSizeBytes chunk) with
  | .ok bytes =>
      let assembly := { assembly with
        raw := assembly.raw ++ bytes
        nextSegmentId := assembly.nextSegmentId + 1
        lastChunkSeenAt := now }
      (assembly, assembly.afterChunk codec)
  | .error _ => ({ assembly with lastChunkSeenAt := now }, .drop)

/-- The assembly keeps what it had after a chunk that is not its next one.  The chunk of a
newer message is one of them: it is dropped together with the assembly. -/
def ClientSegmentAssembly.update (codec : Codec) (assembly : ClientSegmentAssembly)
    (metadata : ClientSegmentMetadata) (segmentId : Nat) (chunk : Text) (now : Nat) :
    ClientSegmentAssembly × AssemblyUpdate :=
  if metadata.seqId < assembly.metadata.seqId then (assembly, .ignore)
  else if assembly.metadata ≠ metadata then (assembly, .drop)
  else if segmentId < assembly.nextSegmentId then (assembly, .pending)
  else if segmentId ≠ assembly.nextSegmentId then (assembly, .drop)
  else assembly.addChunk codec metadata.messageSizeBytes chunk now

namespace ClientSegmentReassembler

/-- Whether a chunk is one that no sender makes. -/
def isInvalidChunk (metadata : ClientSegmentMetadata) (segmentId : Nat) (chunk : Text) : Bool :=
  metadata.segmentCount = 0 ∨ remoteControlSegmentCountMax < metadata.segmentCount ∨
    metadata.segmentCount ≤ segmentId ∨ metadata.messageSizeBytes = 0 ∨
      remoteControlReassembledMaxBytes < metadata.messageSizeBytes ∨ chunk = []

/-- Add a chunk to the assembly of its client, which is open. -/
def addToAssembly (codec : Codec) (envelope : ClientEnvelope) (streamId : StreamId)
    (metadata : ClientSegmentMetadata) (segmentId : Nat) (chunk : Text) (now : Nat)
    (r : ClientSegmentReassembler) : ClientSegmentReassembler × ClientSegmentObservation :=
  match r.lookup envelope.clientId with
  | none => (r, .dropped)
  | some assembly =>
      let updated := assembly.update codec metadata segmentId chunk now
      let r := r.insert envelope.clientId updated.1
      match updated.2 with
      | .pending => (r, .pending)
      | .ignore => (r, .dropped)
      | .drop => (removeAssembly envelope.clientId streamId r, .dropped)
      | .complete message =>
          (removeAssembly envelope.clientId streamId r,
            .forward { envelope with event := .clientMessage message })

def observeChunk (codec : Codec) (envelope : ClientEnvelope) (streamId : StreamId)
    (metadata : ClientSegmentMetadata) (segmentId : Nat) (chunk : Text) (now : Nat)
    (r : ClientSegmentReassembler) : ClientSegmentReassembler × ClientSegmentObservation :=
  if r.shouldIgnoreChunk envelope.clientId streamId metadata.seqId segmentId then (r, .dropped)
  else if isInvalidChunk metadata segmentId chunk then
    (r.removeAssembly envelope.clientId streamId, .dropped)
  else
    (r.openAssembly envelope.clientId streamId metadata now).addToAssembly codec envelope streamId
      metadata segmentId chunk now

def observe (codec : Codec) (envelope : ClientEnvelope) (now : Nat)
    (r : ClientSegmentReassembler) : ClientSegmentReassembler × ClientSegmentObservation :=
  match envelope.event with
  | .clientMessageChunk segmentId segmentCount messageSizeBytes chunk =>
      match envelope.seqId, envelope.streamId with
      | some seqId, some streamId =>
          r.observeChunk codec envelope streamId ⟨seqId, segmentCount, messageSizeBytes⟩ segmentId
            chunk now
      | _, _ => (r, .dropped)
  | _ => (r, .forward envelope)

end ClientSegmentReassembler

/-- The envelopes of each stream that were sent and are not yet acknowledged. -/
structure BoundedOutboundBuffer where
  bufferByStream : AList (fun _ : ClientId × StreamId => List ServerEnvelope) := ∅
  used : Nat := 0

/-- Whether an acknowledgement covers an envelope.  Without a segment it covers all of its
message. -/
def ServerEnvelope.isAcked (ackedSeqId : Nat) (ackedSegmentId : Option Nat)
    (envelope : ServerEnvelope) : Bool :=
  envelope.seqId < ackedSeqId ∨
    envelope.seqId = ackedSeqId ∧ ackedSegmentId.all (envelope.event.segmentId.getD 0 ≤ ·)

def BoundedOutboundBuffer.ack (clientId : ClientId) (streamId : StreamId) (ackedSeqId : Nat)
    (ackedSegmentId : Option Nat) (b : BoundedOutboundBuffer) : BoundedOutboundBuffer :=
  match b.bufferByStream.lookup (clientId, streamId) with
  | none => b
  | some buffer =>
      let kept := buffer.filter fun envelope => !envelope.isAcked ackedSeqId ackedSegmentId
      { bufferByStream :=
          if kept = [] then b.bufferByStream.erase (clientId, streamId)
          else b.bufferByStream.insert (clientId, streamId) kept
        used := b.used - (buffer.length - kept.length) }

abbrev ClientMessageKey := ClientId × Option StreamId

structure WebsocketState where
  outboundBuffer : BoundedOutboundBuffer := {}
  subscribeCursor : Option Text := none
  nextSeqIdByStream : AList (fun _ : ClientId × StreamId => Nat) := ∅
  lastCompletedClientChunkSeqIdByStream : AList (fun _ : ClientMessageKey => Nat) := ∅
  clientSegmentReassembler : ClientSegmentReassembler := ∅

def clientMessageKey (envelope : ClientEnvelope) : Option (ClientMessageKey × Nat) :=
  match envelope.event, envelope.seqId with
  | .clientMessageChunk .., some seqId => some ((envelope.clientId, envelope.streamId), seqId)
  | _, _ => none

namespace WebsocketState

/-- Whether a message is not newer than the last one that was delivered. -/
def isCompleted (s : WebsocketState) (key : ClientMessageKey) (seqId : Nat) : Bool :=
  (s.lastCompletedClientChunkSeqIdByStream.lookup key).any (seqId ≤ ·)

/-- Whether a chunk is older than what is being assembled. -/
def isStale (s : WebsocketState) (envelope : ClientEnvelope) (seqId : Nat) : Bool :=
  match envelope.streamId, envelope.event with
  | some streamId, .clientMessageChunk segmentId .. =>
      s.clientSegmentReassembler.shouldIgnoreChunk envelope.clientId streamId seqId segmentId
  | _, _ => false

def invalidateOversized (envelope : ClientEnvelope) (s : WebsocketState) : WebsocketState :=
  match envelope.streamId with
  | some streamId =>
      { s with
        clientSegmentReassembler :=
          s.clientSegmentReassembler.removeAssembly envelope.clientId streamId }
  | none => s

def reassemble (codec : Codec) (envelope : ClientEnvelope) (now : Nat) (s : WebsocketState) :
    WebsocketState × ClientSegmentObservation :=
  let observed := s.clientSegmentReassembler.observe codec envelope now
  ({ s with clientSegmentReassembler := observed.1 }, observed.2)

def observeClientMessage (codec : Codec) (envelope : ClientEnvelope) (wireSizeBytes now : Nat)
    (s : WebsocketState) : WebsocketState × ClientSegmentObservation :=
  match clientMessageKey envelope with
  | some (key, seqId) =>
      if s.isCompleted key seqId then (s, .dropped)
      else if s.isStale envelope seqId then (s, .dropped)
      else if remoteControlSegmentMaxBytes < wireSizeBytes then
        (s.invalidateOversized envelope, .dropped)
      else s.reassemble codec envelope now
  | none => s.reassemble codec envelope now

def recordAck (envelope : ClientEnvelope) (s : WebsocketState) : WebsocketState :=
  match envelope.event, envelope.seqId, envelope.streamId with
  | .ack segmentId, some seqId, some streamId =>
      { s with
        outboundBuffer := s.outboundBuffer.ack envelope.clientId streamId seqId segmentId }
  | _, _, _ => s

def recordClientMessageDelivery (envelope : ClientEnvelope)
    (key : Option (ClientMessageKey × Nat)) (s : WebsocketState) : WebsocketState :=
  recordAck envelope
    { s with
      subscribeCursor := envelope.cursor.or s.subscribeCursor
      lastCompletedClientChunkSeqIdByStream :=
        match key with
        | some (key, seqId) => s.lastCompletedClientChunkSeqIdByStream.insert key seqId
        | none => s.lastCompletedClientChunkSeqIdByStream }

/-- Receive one envelope: what is forwarded is recorded as delivered. -/
def receive (codec : Codec) (envelope : ClientEnvelope) (wireSizeBytes now : Nat)
    (s : WebsocketState) : WebsocketState × Option ClientEnvelope :=
  match s.observeClientMessage codec envelope wireSizeBytes now with
  | (s, .forward delivered) =>
      (s.recordClientMessageDelivery delivered (clientMessageKey envelope), some delivered)
  | (s, _) => (s, none)

end WebsocketState

/-! ### What one envelope can change -/

namespace ClientSegmentReassembler

/-- The assemblies of all other clients are the same. -/
def SameElsewhere (clientId : ClientId) (r r' : ClientSegmentReassembler) : Prop :=
  ∀ other, other ≠ clientId → r'.lookup other = r.lookup other

theorem SameElsewhere.refl (clientId : ClientId) (r : ClientSegmentReassembler) :
    SameElsewhere clientId r r :=
  fun _ _ => rfl

theorem SameElsewhere.trans {clientId : ClientId} {r r' r'' : ClientSegmentReassembler}
    (h : SameElsewhere clientId r r') (h' : SameElsewhere clientId r' r'') :
    SameElsewhere clientId r r'' :=
  fun other hne => (h' other hne).trans (h other hne)

theorem sameElsewhere_insert (clientId : ClientId) (assembly : ClientSegmentAssembly)
    (r : ClientSegmentReassembler) : SameElsewhere clientId r (r.insert clientId assembly) :=
  fun _ hne => AList.lookup_insert_ne hne

theorem sameElsewhere_removeAssembly (clientId : ClientId) (streamId : StreamId)
    (r : ClientSegmentReassembler) :
    SameElsewhere clientId r (removeAssembly clientId streamId r) := by
  intro other hne
  unfold removeAssembly
  split
  · exact AList.lookup_erase_ne hne
  · rfl

/-- Only the client itself can be new among the clients that have an assembly. -/
theorem SameElsewhere.mem_of_mem {clientId : ClientId} {r r' : ClientSegmentReassembler}
    (h : SameElsewhere clientId r r') {other : ClientId} (hmem : other ∈ r') :
    other = clientId ∨ other ∈ r := by
  by_cases hne : other = clientId
  · exact .inl hne
  · refine .inr (AList.lookup_isSome.mp ?_)
    rw [← h other hne]
    exact AList.lookup_isSome.mpr hmem

theorem lookup_removeAssembly_self {clientId : ClientId} {streamId : StreamId}
    {r : ClientSegmentReassembler} {assembly : ClientSegmentAssembly}
    (h : (removeAssembly clientId streamId r).lookup clientId = some assembly) :
    r.lookup clientId = some assembly := by
  unfold removeAssembly at h
  split at h
  · simp at h
  · exact h

theorem removeAssembly_of_lookup {clientId : ClientId} {r : ClientSegmentReassembler}
    {assembly : ClientSegmentAssembly} (h : r.lookup clientId = some assembly) :
    removeAssembly clientId assembly.streamId r = r.erase clientId := by
  simp [removeAssembly, h]

/-- While there are few assemblies, none is evicted. -/
theorem evictAssembliesIfFull_of_lt {r : ClientSegmentReassembler}
    (h : r.keys.length < remoteControlSegmentAssemblyMaxCount) : evictAssembliesIfFull r = r := by
  unfold evictAssembliesIfFull
  cases r.keys.length with
  | zero => rfl
  | succ rounds =>
      unfold evictWhileFull
      rw [if_neg (by omega)]

theorem sameElsewhere_openAssembly (clientId : ClientId) (streamId : StreamId)
    (metadata : ClientSegmentMetadata) (now : Nat) {r : ClientSegmentReassembler}
    (h : r.keys.length < remoteControlSegmentAssemblyMaxCount) :
    SameElsewhere clientId r (openAssembly clientId streamId metadata now r) := by
  unfold openAssembly
  rw [evictAssembliesIfFull_of_lt h]
  split
  · split
    · exact sameElsewhere_insert _ _ r
    · exact SameElsewhere.refl _ r
  · exact sameElsewhere_insert _ _ r

theorem sameElsewhere_addToAssembly (codec : Codec) (envelope : ClientEnvelope)
    (streamId : StreamId) (metadata : ClientSegmentMetadata) (segmentId : Nat) (chunk : Text)
    (now : Nat) (r : ClientSegmentReassembler) :
    SameElsewhere envelope.clientId r
      (addToAssembly codec envelope streamId metadata segmentId chunk now r).1 := by
  unfold addToAssembly
  split
  · exact SameElsewhere.refl _ r
  · dsimp only
    split
    · exact sameElsewhere_insert _ _ r
    · exact sameElsewhere_insert _ _ r
    · exact (sameElsewhere_insert _ _ r).trans (sameElsewhere_removeAssembly _ _ _)
    · exact (sameElsewhere_insert _ _ r).trans (sameElsewhere_removeAssembly _ _ _)

theorem sameElsewhere_observe (codec : Codec) (envelope : ClientEnvelope) (now : Nat)
    {r : ClientSegmentReassembler} (h : r.keys.length < remoteControlSegmentAssemblyMaxCount) :
    SameElsewhere envelope.clientId r (observe codec envelope now r).1 := by
  unfold observe
  split
  · split
    · unfold observeChunk
      split
      · exact SameElsewhere.refl _ r
      · split
        · exact sameElsewhere_removeAssembly _ _ r
        · exact (sameElsewhere_openAssembly _ _ _ _ h).trans
            (sameElsewhere_addToAssembly _ _ _ _ _ _ _ _)
    · exact SameElsewhere.refl _ r
  · exact SameElsewhere.refl _ r

end ClientSegmentReassembler

/-- A chunk that decodes is added in full: the assembly has room for it. -/
theorem ClientSegmentAssembly.addChunk_of_decodes {codec : Codec}
    {assembly : ClientSegmentAssembly} {messageSizeBytes now : Nat} {chunk : Text} {bytes : Bytes}
    (hdecode : codec.decodeBase64 chunk = some bytes)
    (hfits : assembly.raw.length + bytes.length ≤ messageSizeBytes) :
    assembly.addChunk codec messageSizeBytes chunk now =
      (⟨assembly.streamId, assembly.metadata, assembly.raw ++ bytes, assembly.nextSegmentId + 1,
          now⟩,
        afterChunk codec ⟨assembly.streamId, assembly.metadata, assembly.raw ++ bytes,
          assembly.nextSegmentId + 1, now⟩) := by
  have hestimate := codec.length_decodeBase64_le hdecode
  have hslice : codec.decodeSlice chunk (assembly.room messageSizeBytes chunk) = .ok bytes := by
    simp only [Codec.decodeSlice, hdecode]
    rw [if_pos (by simp only [ClientSegmentAssembly.room]; omega)]
  simp only [addChunk, hslice]

/-- An update leaves the stream and the message of an assembly as they are. -/
theorem ClientSegmentAssembly.update_eq (codec : Codec) (assembly : ClientSegmentAssembly)
    (metadata : ClientSegmentMetadata) (segmentId : Nat) (chunk : Text) (now : Nat) :
    (assembly.update codec metadata segmentId chunk now).1.streamId = assembly.streamId ∧
      (assembly.update codec metadata segmentId chunk now).1.metadata = assembly.metadata := by
  unfold update
  split_ifs
  · exact ⟨rfl, rfl⟩
  · exact ⟨rfl, rfl⟩
  · exact ⟨rfl, rfl⟩
  · exact ⟨rfl, rfl⟩
  · unfold addChunk
    split
    · exact ⟨rfl, rfl⟩
    · exact ⟨rfl, rfl⟩

namespace ClientSegmentReassembler

variable {codec : Codec} {envelope : ClientEnvelope} {streamId : StreamId}
  {metadata : ClientSegmentMetadata} {segmentId now : Nat} {chunk : Text}
  {r : ClientSegmentReassembler} {assembly : ClientSegmentAssembly}

theorem lookup_openAssembly_self {clientId : ClientId}
    (h : (openAssembly clientId streamId metadata now r).lookup clientId = some assembly) :
    r.lookup clientId = some assembly ∨ assembly = ⟨streamId, metadata, [], 0, now⟩ := by
  unfold openAssembly at h
  rcases hfind : r.lookup clientId with _ | old
  · simp only [hfind, AList.lookup_insert, Option.some.injEq] at h
    exact .inr h.symm
  · simp only [hfind] at h
    split at h
    · simp only [AList.lookup_insert, Option.some.injEq] at h
      exact .inr h.symm
    · exact .inl (hfind.symm.trans h)

theorem lookup_addToAssembly_self
    (h : (addToAssembly codec envelope streamId metadata segmentId chunk now r).1.lookup
      envelope.clientId = some assembly) :
    ∃ old, r.lookup envelope.clientId = some old ∧ assembly.streamId = old.streamId ∧
      assembly.metadata = old.metadata := by
  unfold addToAssembly at h
  rcases hfind : r.lookup envelope.clientId with _ | old
  · simp [hfind] at h
  · simp only [hfind] at h
    refine ⟨old, rfl, ?_⟩
    have hinsert : (r.insert envelope.clientId
        (old.update codec metadata segmentId chunk now).1).lookup envelope.clientId =
          some assembly := by
      split at h
      · exact h
      · exact h
      · exact lookup_removeAssembly_self h
      · exact lookup_removeAssembly_self h
    rw [AList.lookup_insert, Option.some.injEq] at hinsert
    rw [← hinsert]
    exact old.update_eq codec metadata segmentId chunk now

/-- The assembly of a client is for the message it was for before, or for that of the
chunk. -/
theorem lookup_observeChunk_self
    (h : (observeChunk codec envelope streamId metadata segmentId chunk now r).1.lookup
      envelope.clientId = some assembly) :
    (∃ old, r.lookup envelope.clientId = some old ∧ assembly.streamId = old.streamId ∧
      assembly.metadata = old.metadata) ∨
      assembly.streamId = streamId ∧ assembly.metadata = metadata := by
  unfold observeChunk at h
  split_ifs at h
  · exact .inl ⟨assembly, h, rfl, rfl⟩
  · exact .inl ⟨assembly, lookup_removeAssembly_self h, rfl, rfl⟩
  · obtain ⟨opened, hopened, hstream, hmetadata⟩ := lookup_addToAssembly_self h
    rcases lookup_openAssembly_self hopened with hold | rfl
    · exact .inl ⟨opened, hold, hstream, hmetadata⟩
    · exact .inr ⟨hstream, hmetadata⟩

theorem observe_eq_forward {delivered : ClientEnvelope} {key : ClientMessageKey × Nat}
    (hkey : clientMessageKey envelope = some key)
    (h : (observe codec envelope now r).2 = .forward delivered) :
    ∃ message, delivered = { envelope with event := .clientMessage message } := by
  unfold observe at h
  split at h
  · split at h
    · unfold observeChunk at h
      split_ifs at h
      unfold addToAssembly at h
      split at h
      · simp at h
      · dsimp only at h
        split at h
        · simp at h
        · simp at h
        · simp at h
        · simp only [ClientSegmentObservation.forward.injEq] at h
          exact ⟨_, h.symm⟩
    · simp at h
  · rename_i hother
    unfold clientMessageKey at hkey
    split at hkey
    · rename_i hevent _
      exact absurd hevent (hother _ _ _ _)
    · simp at hkey

end ClientSegmentReassembler

namespace WebsocketState

open ClientSegmentReassembler

variable {codec : Codec} {envelope : ClientEnvelope} {wireSizeBytes now : Nat}
  {s : WebsocketState} {key : ClientMessageKey} {seqId : Nat}

theorem recordClientMessageDelivery_reassembler (delivered : ClientEnvelope)
    (key : Option (ClientMessageKey × Nat)) (s : WebsocketState) :
    (s.recordClientMessageDelivery delivered key).clientSegmentReassembler =
      s.clientSegmentReassembler := by
  unfold recordClientMessageDelivery recordAck
  split
  · rfl
  · rfl

theorem recordClientMessageDelivery_completed (delivered : ClientEnvelope)
    (key : ClientMessageKey) (seqId : Nat) (s : WebsocketState) :
    (s.recordClientMessageDelivery delivered
        (some (key, seqId))).lastCompletedClientChunkSeqIdByStream =
      s.lastCompletedClientChunkSeqIdByStream.insert key seqId := by
  unfold recordClientMessageDelivery recordAck
  split
  · rfl
  · rfl

/-- What receiving a chunk does: it is dropped before it reaches the reassembler, it is
oversized and ends the assembly of its stream, or it is observed, and what is forwarded
becomes the last message that was delivered. -/
theorem receive_cases (hkey : clientMessageKey envelope = some (key, seqId))
    {out : WebsocketState × Option ClientEnvelope}
    (hout : s.receive codec envelope wireSizeBytes now = out) :
    (out.2 = none ∧
        out.1.lastCompletedClientChunkSeqIdByStream = s.lastCompletedClientChunkSeqIdByStream ∧
        (out.1.clientSegmentReassembler = s.clientSegmentReassembler ∨
          (∃ streamId, envelope.streamId = some streamId ∧ out.1.clientSegmentReassembler =
            removeAssembly envelope.clientId streamId s.clientSegmentReassembler) ∨
          out.1.clientSegmentReassembler =
            (s.clientSegmentReassembler.observe codec envelope now).1)) ∨
      ((∃ message, out.2 = some { envelope with event := .clientMessage message }) ∧
        s.isCompleted key seqId = false ∧
        out.1.lastCompletedClientChunkSeqIdByStream =
          s.lastCompletedClientChunkSeqIdByStream.insert key seqId ∧
        out.1.clientSegmentReassembler =
          (s.clientSegmentReassembler.observe codec envelope now).1) := by
  subst hout
  unfold receive observeClientMessage
  simp only [hkey]
  by_cases hcompleted : s.isCompleted key seqId = true
  · simp [hcompleted]
  · rw [if_neg hcompleted]
    by_cases hstale : s.isStale envelope seqId = true
    · simp [hstale]
    · rw [if_neg hstale]
      by_cases hsize : remoteControlSegmentMaxBytes < wireSizeBytes
      · rw [if_pos hsize]
        refine .inl ⟨rfl, ?_, ?_⟩
        · unfold invalidateOversized
          rcases envelope.streamId with _ | streamId
          · rfl
          · rfl
        · unfold invalidateOversized
          rcases envelope.streamId with _ | streamId
          · exact .inl rfl
          · exact .inr (.inl ⟨streamId, rfl, rfl⟩)
      · rw [if_neg hsize]
        unfold reassemble
        rcases hobserve : (s.clientSegmentReassembler.observe codec envelope now).2 with
          delivered | _ | _
        · refine .inr ⟨?_, by simpa using hcompleted, ?_, ?_⟩
          · obtain ⟨message, rfl⟩ := observe_eq_forward hkey hobserve
            exact ⟨message, by simp [hobserve]⟩
          · simp only [hobserve]
            exact recordClientMessageDelivery_completed _ _ _ _
          · simp only [hobserve]
            exact recordClientMessageDelivery_reassembler _ _ _
        · exact .inl (by simp [hobserve])
        · exact .inl (by simp [hobserve])

end WebsocketState

end Codewith.RemoteControl
