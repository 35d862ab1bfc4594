import Codewith.Lib.Base64
import Codewith.Lib.Chunks
import Codewith.Lib.JsonLength
import Codewith.RemoteControl.Segments

/-!
# Splitting server messages

A server message that is too large for one envelope is sent in chunks.  Their number is
searched for: the chunks get shorter until each fits into an envelope.  The limits are those
of the reassembler, so what is split here can be put together again there.
-/

namespace Codewith.RemoteControl

open Lib ClientSegmentReassembler

def remoteControlSegmentTargetBytes : Nat := 100 * 1024

inductive SplitError
  | other
  | invalidData (message : Text)
  deriving DecidableEq, Repr

/-- What is written for a message is not part of the repository. -/
abbrev MessageToVec := OutgoingMessage → Except SplitError Bytes

def PongStatus.name : PongStatus → Text
  | .active => "active".toList
  | .unknown => "unknown".toList

/-- The fields of an event and the lengths of their values. -/
def ServerEvent.fields (toVec : MessageToVec) : ServerEvent → Except SplitError (List (Text × Nat))
  | .serverMessage message => do
      let raw ← toVec message
      return [("type".toList, JsonLength.string "server_message".toList),
        ("message".toList, raw.length)]
  | .serverMessageChunk segmentId segmentCount messageSizeBytes messageChunkBase64 =>
      .ok [("type".toList, JsonLength.string "server_message_chunk".toList),
        ("segment_id".toList, JsonLength.number segmentId),
        ("segment_count".toList, JsonLength.number segmentCount),
        ("message_size_bytes".toList, JsonLength.number messageSizeBytes),
        ("message_chunk_base64".toList, JsonLength.string messageChunkBase64)]
  | .pong status =>
      .ok [("type".toList, JsonLength.string "pong".toList),
        ("status".toList, JsonLength.string status.name)]

/-- The event is flattened into its envelope. -/
def ServerEnvelope.serializedLen (toVec : MessageToVec) (envelope : ServerEnvelope) :
    Except SplitError Nat := do
  let fields ← envelope.event.fields toVec
  return JsonLength.object (fields ++
    [("client_id".toList, JsonLength.string envelope.clientId),
      ("stream_id".toList, JsonLength.string envelope.streamId),
      ("seq_id".toList, JsonLength.number envelope.seqId)])

/-- The envelope for a chunk of the message of another one. -/
def ServerEnvelope.withChunk (envelope : ServerEnvelope)
    (segmentId segmentCount messageSizeBytes : Nat) (chunk : Bytes) : ServerEnvelope :=
  { envelope with
    event := .serverMessageChunk segmentId segmentCount messageSizeBytes (Base64.encode chunk) }

def buildChunkEnvelope (envelope : ServerEnvelope) (segmentId segmentCount messageSizeBytes : Nat)
    (chunk : Bytes) : Except SplitError ServerEnvelope :=
  if remoteControlSegmentCountMax < segmentCount then
    .error (.invalidData "remote-control segment count exceeds maximum".toList)
  else .ok (envelope.withChunk segmentId segmentCount messageSizeBytes chunk)

def serializedChunkLen (toVec : MessageToVec) (envelope : ServerEnvelope)
    (segmentId segmentCount messageSizeBytes : Nat) (chunk : Bytes) : Except SplitError Nat := do
  let chunkEnvelope ← buildChunkEnvelope envelope segmentId segmentCount messageSizeBytes chunk
  chunkEnvelope.serializedLen toVec

/-- Whether a chunk can be sent. -/
def chunkFits (toVec : MessageToVec) (envelope : ServerEnvelope)
    (segmentId segmentCount messageSizeBytes : Nat) (chunk : Bytes) : Bool :=
  match serializedChunkLen toVec envelope segmentId segmentCount messageSizeBytes chunk with
  | .ok size => size ≤ remoteControlSegmentMaxBytes
  | .error _ => false

/-- The length of the chunks when there are to be so many. -/
def chunkSizeFor (messageSizeBytes segmentCount : Nat) : Nat :=
  max 1 (messageSizeBytes ⌈/⌉ segmentCount)

/-- How many chunks are tried after those of a length did not fit.  If one more does not make
them shorter, each byte becomes a chunk. -/
def nextSegmentCount (messageSizeBytes chunkSize : Nat) : Nat :=
  if chunkSizeFor messageSizeBytes (messageSizeBytes ⌈/⌉ chunkSize + 1) = chunkSize then
    messageSizeBytes
  else messageSizeBytes ⌈/⌉ chunkSize + 1

/-- The chunks get shorter in every round. -/
theorem chunkSizeFor_nextSegmentCount_lt {messageSizeBytes chunkSize : Nat} (hpos : 0 < chunkSize)
    (hne : chunkSize ≠ 1) :
    chunkSizeFor messageSizeBytes (nextSegmentCount messageSizeBytes chunkSize) < chunkSize := by
  unfold nextSegmentCount
  split
  · have hone : messageSizeBytes ⌈/⌉ messageSizeBytes ≤ 1 := by
      rcases Nat.eq_zero_or_pos messageSizeBytes with rfl | hsize
      · simp
      · rw [ceilDiv_le_iff_le_mul hsize, Nat.mul_one]
    unfold chunkSizeFor
    omega
  · rename_i hchanged
    have hle := ceilDiv_succ_ceilDiv_le (n := messageSizeBytes) hpos
    unfold chunkSizeFor at hchanged ⊢
    omega

theorem chunkSizeFor_pos (messageSizeBytes segmentCount : Nat) :
    0 < chunkSizeFor messageSizeBytes segmentCount :=
  Nat.lt_of_lt_of_le Nat.zero_lt_one (Nat.le_max_left _ _)

/-- The search for a number of chunks, from the number that is tried first. -/
def splitFrom (toVec : MessageToVec) (envelope : ServerEnvelope) (raw : Bytes)
    (segmentCount : Nat) : Except SplitError (List ServerEnvelope) :=
  let chunkSize := chunkSizeFor raw.length segmentCount
  let segmentCount' := raw.length ⌈/⌉ chunkSize
  if (chunks chunkSize raw).zipIdx.all fun (chunk, segmentId) =>
      chunkFits toVec envelope segmentId segmentCount' raw.length chunk then
    (chunks chunkSize raw).zipIdx.mapM fun (chunk, segmentId) =>
      buildChunkEnvelope envelope segmentId segmentCount' raw.length chunk
  else if chunkSize = 1 then .ok []
  else splitFrom toVec envelope raw (nextSegmentCount raw.length chunkSize)
termination_by chunkSizeFor raw.length segmentCount
decreasing_by exact chunkSizeFor_nextSegmentCount_lt (chunkSizeFor_pos _ _) ‹_›

/-- Split a message that is too large for one envelope. -/
def splitMessage (toVec : MessageToVec) (envelope : ServerEnvelope) (raw : Bytes) :
    Except SplitError (List ServerEnvelope) :=
  if remoteControlReassembledMaxBytes < raw.length then .ok []
  else do
    let minimalLen ← serializedChunkLen toVec envelope 0
      (min (max raw.length 1) remoteControlSegmentCountMax) raw.length (raw.take 1)
    if remoteControlSegmentMaxBytes < minimalLen then return []
    else
      splitFrom toVec envelope raw (max 2 (raw.length ⌈/⌉ remoteControlSegmentTargetBytes))

def splitServerEnvelopeForTransport (toVec : MessageToVec) (envelope : ServerEnvelope) :
    Except SplitError (List ServerEnvelope) :=
  match envelope.event with
  | .serverMessage message => do
      let envelopeSizeBytes ← envelope.serializedLen toVec
      if envelopeSizeBytes ≤ remoteControlSegmentMaxBytes then return [envelope]
      else
        let raw ← toVec message
        splitMessage toVec envelope raw
  | _ => .ok [envelope]

/-! ### Lengths of envelopes -/

/-- What an envelope with a chunk takes without its segment numbers and the text of its
chunk. -/
def ServerEnvelope.chunkBaseLen (envelope : ServerEnvelope) (messageSizeBytes : Nat) : Nat :=
  146 + JsonLength.number messageSizeBytes + JsonLength.string envelope.clientId +
    JsonLength.string envelope.streamId + JsonLength.number envelope.seqId

theorem jsonLength_encode (chunk : Bytes) :
    JsonLength.string (Base64.encode chunk) = 2 + 4 * ((chunk.length + 2) / 3) := by
  have hplain : ∀ c ∈ Base64.encode chunk, JsonLength.escaped c = 1 := by
    have halphabet : (Base64.alphabet.all fun c => JsonLength.escaped c = 1) = true := by
      decide
    intro c hc
    rcases Base64.mem_encode hc with hmem | rfl
    · exact of_decide_eq_true (List.all_eq_true.mp halphabet c hmem)
    · decide
  rw [JsonLength.string_of_plain hplain, Base64.length_encode]

section Lengths

variable {toVec : MessageToVec} {envelope : ServerEnvelope} {segmentId segmentCount : Nat}
  {messageSizeBytes : Nat} {chunk : Bytes}

theorem serializedLen_withChunk :
    (envelope.withChunk segmentId segmentCount messageSizeBytes chunk).serializedLen toVec =
      .ok (envelope.chunkBaseLen messageSizeBytes + JsonLength.number segmentId +
        JsonLength.number segmentCount + 4 * ((chunk.length + 2) / 3)) := by
  have hkeys : JsonLength.string "type".toList = 6 ∧
      JsonLength.string "server_message_chunk".toList = 22 ∧
      JsonLength.string "segment_id".toList = 12 ∧ JsonLength.string "segment_count".toList = 15 ∧
      JsonLength.string "message_size_bytes".toList = 20 ∧
      JsonLength.string "message_chunk_base64".toList = 22 ∧
      JsonLength.string "client_id".toList = 11 ∧ JsonLength.string "stream_id".toList = 11 ∧
      JsonLength.string "seq_id".toList = 8 := by decide
  obtain ⟨htype, hname, hid, hcount, hsize, hchunk, hclient, hstream, hseq⟩ := hkeys
  simp only [ServerEnvelope.serializedLen, ServerEnvelope.withChunk, ServerEvent.fields,
    JsonLength.object, ServerEnvelope.chunkBaseLen, bind, Except.bind, pure, Except.pure,
    List.map_append, List.map_cons, List.map_nil, List.sum_append, List.sum_cons, List.sum_nil,
    List.length_append, List.length_cons, List.length_nil, jsonLength_encode, htype, hname, hid,
    hcount, hsize, hchunk, hclient, hstream, hseq, Except.ok.injEq]
  omega

theorem serializedLen_serverMessage {message : OutgoingMessage} {raw : Bytes}
    (messageSizeBytes : Nat) (hevent : envelope.event = .serverMessage message)
    (hraw : toVec message = .ok raw) :
    ∃ len, envelope.serializedLen toVec = .ok len ∧
      len ≤ envelope.chunkBaseLen messageSizeBytes + raw.length := by
  have hkeys : JsonLength.string "type".toList = 6 ∧
      JsonLength.string "server_message".toList = 16 ∧
      JsonLength.string "message".toList = 9 ∧ JsonLength.string "client_id".toList = 11 ∧
      JsonLength.string "stream_id".toList = 11 ∧ JsonLength.string "seq_id".toList = 8 := by
    decide
  obtain ⟨htype, hname, hmessage, hclient, hstream, hseq⟩ := hkeys
  refine ⟨_, by simp only [ServerEnvelope.serializedLen, hevent, ServerEvent.fields, hraw, bind,
    Except.bind, pure, Except.pure]; rfl, ?_⟩
  simp only [JsonLength.object, ServerEnvelope.chunkBaseLen, List.map_append, List.map_cons,
    List.map_nil, List.sum_append, List.sum_cons, List.sum_nil, List.length_append,
    List.length_cons, List.length_nil, htype, hname, hmessage, hclient, hstream, hseq]
  omega

theorem buildChunkEnvelope_of_le (h : segmentCount ≤ remoteControlSegmentCountMax) :
    buildChunkEnvelope envelope segmentId segmentCount messageSizeBytes chunk =
      .ok (envelope.withChunk segmentId segmentCount messageSizeBytes chunk) := by
  unfold buildChunkEnvelope
  rw [if_neg (by omega)]

theorem serializedChunkLen_of_le (h : segmentCount ≤ remoteControlSegmentCountMax) :
    serializedChunkLen toVec envelope segmentId segmentCount messageSizeBytes chunk =
      (envelope.withChunk segmentId segmentCount messageSizeBytes chunk).serializedLen toVec := by
  unfold serializedChunkLen
  rw [buildChunkEnvelope_of_le h]
  rfl

/-- An envelope is short enough to be sent. -/
def ServerEnvelope.Fits (toVec : MessageToVec) (envelope : ServerEnvelope) : Prop :=
  ∃ len, envelope.serializedLen toVec = .ok len ∧ len ≤ remoteControlSegmentMaxBytes

theorem chunkFits_iff :
    chunkFits toVec envelope segmentId segmentCount messageSizeBytes chunk = true ↔
      segmentCount ≤ remoteControlSegmentCountMax ∧
        (envelope.withChunk segmentId segmentCount messageSizeBytes chunk).Fits toVec := by
  unfold chunkFits ServerEnvelope.Fits
  by_cases hcount : segmentCount ≤ remoteControlSegmentCountMax
  · rw [serializedChunkLen_of_le hcount, serializedLen_withChunk]
    simp [hcount]
  · unfold serializedChunkLen buildChunkEnvelope
    rw [if_pos (by omega)]
    simp [hcount, bind, Except.bind]

/-- A chunk of the length that is aimed at fits if the rest takes not too much. -/
theorem fits_of_length_le (hid : segmentId ≤ remoteControlSegmentCountMax)
    (hcount : segmentCount ≤ remoteControlSegmentCountMax)
    (hbase : envelope.chunkBaseLen messageSizeBytes ≤ 16 * 1024)
    (hchunk : chunk.length ≤ remoteControlSegmentTargetBytes) :
    (envelope.withChunk segmentId segmentCount messageSizeBytes chunk).Fits toVec := by
  have hdigits : JsonLength.number remoteControlSegmentCountMax = 4 := by decide
  have hidLen := JsonLength.number_mono hid
  have hcountLen := JsonLength.number_mono hcount
  refine ⟨_, serializedLen_withChunk, ?_⟩
  rw [hdigits] at hidLen hcountLen
  unfold remoteControlSegmentTargetBytes at hchunk
  unfold remoteControlSegmentMaxBytes
  omega

end Lengths

/-! ### The search -/

/-- The envelopes in which a message is sent, chunk by chunk. -/
structure IsSplit (toVec : MessageToVec) (envelope : ServerEnvelope) (raw : Bytes)
    (pieces : List Bytes) (envelopes : List ServerEnvelope) : Prop where
  flatten_eq : pieces.flatten = raw
  ne_nil : ∀ piece ∈ pieces, piece ≠ []
  count_pos : 0 < pieces.length
  count_le : pieces.length ≤ remoteControlSegmentCountMax
  envelopes_eq : envelopes = pieces.zipIdx.map fun (piece, segmentId) =>
    envelope.withChunk segmentId pieces.length raw.length piece
  fits : ∀ chunkEnvelope ∈ envelopes, chunkEnvelope.Fits toVec

section Search

variable {toVec : MessageToVec} {envelope : ServerEnvelope} {raw : Bytes}

theorem mapM_buildChunkEnvelope {segmentCount : Nat}
    (h : segmentCount ≤ remoteControlSegmentCountMax) (pieces : List (Bytes × Nat)) :
    (pieces.mapM fun (chunk, segmentId) =>
        buildChunkEnvelope envelope segmentId segmentCount raw.length chunk) =
      .ok (pieces.map fun (chunk, segmentId) =>
        envelope.withChunk segmentId segmentCount raw.length chunk) := by
  induction pieces with
  | nil => rfl
  | cons piece pieces ih =>
      rw [List.mapM_cons, ih]
      simp only [buildChunkEnvelope_of_le h]
      rfl

/-- Chunks that all fit are sent. -/
theorem isSplit_of_fits {chunkSize : Nat} (hraw : raw ≠ []) (hsize : 0 < chunkSize)
    (hfits : (chunks chunkSize raw).zipIdx.all (fun (chunk, segmentId) =>
      chunkFits toVec envelope segmentId (raw.length ⌈/⌉ chunkSize) raw.length chunk) = true) :
    ∃ envelopes, ((chunks chunkSize raw).zipIdx.mapM fun (chunk, segmentId) =>
        buildChunkEnvelope envelope segmentId (raw.length ⌈/⌉ chunkSize) raw.length chunk) =
      .ok envelopes ∧ IsSplit toVec envelope raw (chunks chunkSize raw) envelopes := by
  have hflatten := flatten_chunks hsize raw
  rw [List.all_eq_true] at hfits
  have hpos : 0 < (chunks chunkSize raw).length := by
    rw [List.length_pos_iff]
    intro hnil
    rw [hnil, List.flatten_nil] at hflatten
    exact hraw hflatten.symm
  -- The first chunk was measured, so the number of chunks is not too large.
  have hcount : raw.length ⌈/⌉ chunkSize ≤ remoteControlSegmentCountMax := by
    have hmem : ((chunks chunkSize raw).get ⟨0, hpos⟩, 0) ∈ (chunks chunkSize raw).zipIdx := by
      rw [List.mem_zipIdx_iff_getElem?]
      simp
    exact (chunkFits_iff.mp (hfits _ hmem)).1
  refine ⟨_, mapM_buildChunkEnvelope hcount _, hflatten,
    fun piece hpiece => ne_nil_of_mem_chunks hsize hpiece, hpos, ?_, ?_, ?_⟩
  · rw [length_chunks]
    exact hcount
  · rw [length_chunks]
  · intro chunkEnvelope hmem
    obtain ⟨⟨chunk, segmentId⟩, hpiece, rfl⟩ := List.mem_map.mp hmem
    exact (chunkFits_iff.mp (hfits _ hpiece)).2

theorem splitFrom_nil (segmentCount : Nat) : splitFrom toVec envelope [] segmentCount = .ok [] := by
  unfold splitFrom
  simp [chunks]
  rfl

/-- The search ends without chunks, or with chunks that fit. -/
theorem splitFrom_cases (hraw : raw ≠ []) (segmentCount : Nat) :
    splitFrom toVec envelope raw segmentCount = .ok [] ∨
      ∃ pieces envelopes, splitFrom toVec envelope raw segmentCount = .ok envelopes ∧
        IsSplit toVec envelope raw pieces envelopes := by
  fun_induction splitFrom toVec envelope raw segmentCount with
  | case1 segmentCount chunkSize segmentCount' hfits =>
      obtain ⟨envelopes, hmap, hsplit⟩ := isSplit_of_fits hraw (chunkSizeFor_pos _ _) hfits
      exact .inr ⟨_, envelopes, hmap, hsplit⟩
  | case2 segmentCount chunkSize segmentCount' hfits hone => exact .inl rfl
  | case3 segmentCount chunkSize segmentCount' hfits hne ih => exact ih

/-- If all chunks of the first length fit, they are sent. -/
theorem splitFrom_of_fits (hraw : raw ≠ []) {segmentCount : Nat}
    (hfits : ∀ chunk segmentId, (chunk, segmentId) ∈ (chunks (chunkSizeFor raw.length segmentCount)
      raw).zipIdx → chunkFits toVec envelope segmentId
        (raw.length ⌈/⌉ chunkSizeFor raw.length segmentCount) raw.length chunk = true) :
    ∃ pieces envelopes, splitFrom toVec envelope raw segmentCount = .ok envelopes ∧
      IsSplit toVec envelope raw pieces envelopes := by
  have hall : (chunks (chunkSizeFor raw.length segmentCount) raw).zipIdx.all
      (fun (chunk, segmentId) => chunkFits toVec envelope segmentId
        (raw.length ⌈/⌉ chunkSizeFor raw.length segmentCount) raw.length chunk) = true := by
    rw [List.all_eq_true]
    rintro ⟨chunk, segmentId⟩ hmem
    exact hfits chunk segmentId hmem
  obtain ⟨envelopes, hmap, hsplit⟩ := isSplit_of_fits hraw (chunkSizeFor_pos _ _) hall
  refine ⟨_, envelopes, ?_, hsplit⟩
  unfold splitFrom
  rw [if_pos hall]
  exact hmap

/-- What becomes of a message that is too large for one envelope. -/
theorem splitMessage_cases (toVec : MessageToVec) (envelope : ServerEnvelope) (raw : Bytes) :
    splitMessage toVec envelope raw = .ok [] ∨
      raw.length ≤ remoteControlReassembledMaxBytes ∧
        ∃ pieces envelopes, splitMessage toVec envelope raw = .ok envelopes ∧
          IsSplit toVec envelope raw pieces envelopes := by
  unfold splitMessage
  split
  · exact .inl rfl
  · rename_i hsize
    rw [serializedChunkLen_of_le (Nat.min_le_right _ _), serializedLen_withChunk]
    simp only [bind, Except.bind]
    split
    · exact .inl rfl
    · by_cases hraw : raw = []
      · subst hraw
        exact .inl (splitFrom_nil _)
      · rcases splitFrom_cases hraw _ with hnone | hsome
        · exact .inl hnone
        · exact .inr ⟨by omega, hsome⟩

/-- At first the chunks are not longer than aimed at, and not more than can be counted. -/
theorem chunkSizeFor_first {n : Nat} (hn : n ≤ remoteControlReassembledMaxBytes) (hpos : 0 < n) :
    chunkSizeFor n (max 2 (n ⌈/⌉ remoteControlSegmentTargetBytes)) ≤
        remoteControlSegmentTargetBytes ∧
      n ⌈/⌉ chunkSizeFor n (max 2 (n ⌈/⌉ remoteControlSegmentTargetBytes)) ≤
        remoteControlSegmentCountMax := by
  have htarget : 0 < remoteControlSegmentTargetBytes := by decide
  have hle : n ≤ remoteControlSegmentTargetBytes * (n ⌈/⌉ remoteControlSegmentTargetBytes) :=
    le_smul_ceilDiv htarget
  have hmax : n ⌈/⌉ remoteControlSegmentTargetBytes ≤ remoteControlSegmentCountMax := by
    rw [ceilDiv_le_iff_le_mul htarget]
    exact hn
  generalize hcount : max 2 (n ⌈/⌉ remoteControlSegmentTargetBytes) = count
  have hcountPos : 0 < count := by omega
  have hcountMax : count ≤ remoteControlSegmentCountMax := by
    have htwo : 2 ≤ remoteControlSegmentCountMax := by decide
    omega
  have hsize : n ⌈/⌉ count ≤ remoteControlSegmentTargetBytes := by
    rw [ceilDiv_le_iff_le_mul hcountPos, Nat.mul_comm]
    refine hle.trans (Nat.mul_le_mul_left _ ?_)
    omega
  have hsizePos : 1 ≤ n ⌈/⌉ count := by
    by_contra hzero
    have := (ceilDiv_le_iff_le_mul hcountPos).mp (Nat.le_of_not_lt hzero)
    omega
  have heq : chunkSizeFor n count = n ⌈/⌉ count := Nat.max_eq_right hsizePos
  rw [heq]
  exact ⟨hsize, (ceilDiv_ceilDiv_le hcountPos hpos).trans hcountMax⟩

/-- A message of a size that can be reassembled is not dropped when the rest of an envelope is
small. -/
theorem splitMessage_of_small (hraw : raw ≠ [])
    (hsize : raw.length ≤ remoteControlReassembledMaxBytes)
    (hbase : envelope.chunkBaseLen raw.length ≤ 16 * 1024) :
    ∃ pieces envelopes, splitMessage toVec envelope raw = .ok envelopes ∧
      IsSplit toVec envelope raw pieces envelopes := by
  have hfirst := chunkSizeFor_first hsize (List.length_pos_iff.mpr hraw)
  have hminimalFits : (envelope.withChunk 0 (min (max raw.length 1) remoteControlSegmentCountMax)
      raw.length (raw.take 1)).Fits toVec :=
    fits_of_length_le (Nat.zero_le _) (Nat.min_le_right _ _) hbase
      ((List.length_take_le _ _).trans (by decide))
  obtain ⟨minimalLen, hminimal, hminimalLe⟩ := hminimalFits
  unfold splitMessage
  rw [if_neg (by omega), serializedChunkLen_of_le (Nat.min_le_right _ _), hminimal]
  simp only [bind, Except.bind]
  rw [if_neg (by omega)]
  refine splitFrom_of_fits hraw ?_
  intro chunk segmentId hmem
  rw [chunkFits_iff]
  refine ⟨hfirst.2, fits_of_length_le ?_ hfirst.2 hbase ?_⟩
  · have hlt := List.snd_lt_of_mem_zipIdx hmem
    rw [length_chunks] at hlt
    omega
  · exact (length_le_of_mem_chunks (List.fst_mem_of_mem_zipIdx hmem)).trans hfirst.1

/-- The envelope itself is sent, nothing is sent, or the chunks of its message are. -/
theorem splitServerEnvelopeForTransport_cases {envelopes : List ServerEnvelope}
    (h : splitServerEnvelopeForTransport toVec envelope = .ok envelopes) :
    envelopes = [envelope] ∨ envelopes = [] ∨
      ∃ raw pieces, IsSplit toVec envelope raw pieces envelopes := by
  unfold splitServerEnvelopeForTransport at h
  split at h
  · rename_i message hevent
    rcases hlen : envelope.serializedLen toVec with error | len
    · simp [hlen, bind, Except.bind] at h
    simp only [hlen, bind, Except.bind] at h
    split at h
    · simp only [pure, Except.pure, Except.ok.injEq] at h
      exact .inl h.symm
    · rcases hvec : toVec message with error | raw
      · simp [hvec] at h
      simp only [hvec] at h
      rcases splitMessage_cases toVec envelope raw with hnone | ⟨-, pieces, found, hsome, hsplit⟩
      · rw [hnone, Except.ok.injEq] at h
        exact .inr (.inl h.symm)
      · rw [hsome, Except.ok.injEq] at h
        subst h
        exact .inr (.inr ⟨raw, pieces, hsplit⟩)
  · rw [Except.ok.injEq] at h
    exact .inl h.symm

end Search

/-! ### Chunks that are read back -/

/-- A chunk of the server, read as one of a client. -/
def ServerEnvelope.readAsClient (envelope : ServerEnvelope) : Option ClientEnvelope :=
  match envelope.event with
  | .serverMessageChunk segmentId segmentCount messageSizeBytes messageChunkBase64 =>
      some {
        event := .clientMessageChunk segmentId segmentCount messageSizeBytes messageChunkBase64
        clientId := envelope.clientId
        streamId := some envelope.streamId
        seqId := some envelope.seqId }
  | _ => none

/-- What is observed of envelopes that arrive one after the other, each at its time. -/
def ClientSegmentReassembler.observeAll (codec : Codec) :
    List (ClientEnvelope × Nat) → ClientSegmentReassembler → List ClientSegmentObservation
  | [], _ => []
  | (envelope, now) :: arrivals, r =>
      (r.observe codec envelope now).2 :: observeAll codec arrivals (r.observe codec envelope now).1

/-- What the reassembler makes of the bytes of a message. -/
def ServerEnvelope.reassembled (codec : Codec) (envelope : ServerEnvelope) (raw : Bytes) :
    ClientSegmentObservation :=
  match codec.messageFromSlice raw with
  | some message =>
      .forward {
        event := .clientMessage message
        clientId := envelope.clientId
        streamId := some envelope.streamId
        seqId := some envelope.seqId }
  | none => .dropped

section ReadBack

variable {codec : Codec} {toVec : MessageToVec} {envelope : ServerEnvelope} {raw : Bytes}

/-- The client envelope for one chunk. -/
def ServerEnvelope.clientChunk (envelope : ServerEnvelope)
    (segmentId segmentCount messageSizeBytes : Nat) (chunk : Bytes) : ClientEnvelope where
  event := .clientMessageChunk segmentId segmentCount messageSizeBytes (Base64.encode chunk)
  clientId := envelope.clientId
  streamId := some envelope.streamId
  seqId := some envelope.seqId

/-- The bytes before a chunk are in the assembly of the client, unless it is the first one. -/
def Awaits (envelope : ServerEnvelope) (segmentCount messageSizeBytes : Nat) (done : Bytes)
    (segmentId : Nat) (r : ClientSegmentReassembler) : Prop :=
  (segmentId = 0 ∧ done = [] ∧ r.lookup envelope.clientId = none) ∨
    ∃ seenAt, r.lookup envelope.clientId = some ⟨envelope.streamId,
      ⟨envelope.seqId, segmentCount, messageSizeBytes⟩, done, segmentId, seenAt⟩

/-- The next chunk is added to the bytes before it. -/
theorem Awaits.observe (hdecode : ∀ bytes, codec.decodeBase64 (Base64.encode bytes) = some bytes)
    {segmentCount messageSizeBytes segmentId : Nat} {done chunk : Bytes}
    {r : ClientSegmentReassembler}
    (h : Awaits envelope segmentCount messageSizeBytes done segmentId r) (now : Nat)
    (hcount : segmentCount ≤ remoteControlSegmentCountMax) (hid : segmentId < segmentCount)
    (hchunk : chunk ≠ []) (hsize : messageSizeBytes ≤ remoteControlReassembledMaxBytes)
    (hfits : done.length + chunk.length ≤ messageSizeBytes) :
    (segmentId + 1 < segmentCount ∧
        (r.observe codec (envelope.clientChunk segmentId segmentCount messageSizeBytes chunk)
          now).2 = .pending ∧
        Awaits envelope segmentCount messageSizeBytes (done ++ chunk) (segmentId + 1)
          (r.observe codec (envelope.clientChunk segmentId segmentCount messageSizeBytes chunk)
            now).1) ∨
      (segmentId + 1 = segmentCount ∧ (done.length + chunk.length = messageSizeBytes →
        (r.observe codec (envelope.clientChunk segmentId segmentCount messageSizeBytes chunk)
          now).2 = envelope.reassembled codec (done ++ chunk))) := by
  have hlength := List.length_pos_iff.mpr hchunk
  have hencoded := Base64.encode_ne_nil hchunk
  have hvalid : isInvalidChunk ⟨envelope.seqId, segmentCount, messageSizeBytes⟩ segmentId
      (Base64.encode chunk) = false := by
    simp only [isInvalidChunk, hencoded, or_false, decide_eq_false_iff_not]
    omega
  have hcurrent : shouldIgnoreChunk r envelope.clientId envelope.streamId envelope.seqId segmentId =
      false := by
    rcases h with ⟨-, -, hnone⟩ | ⟨seenAt, hsome⟩
    · simp [shouldIgnoreChunk, hnone]
    · simp [shouldIgnoreChunk, hsome]
  have hopen : ∃ seenAt, (openAssembly envelope.clientId envelope.streamId
      ⟨envelope.seqId, segmentCount, messageSizeBytes⟩ now r).lookup envelope.clientId =
        some ⟨envelope.streamId, ⟨envelope.seqId, segmentCount, messageSizeBytes⟩, done, segmentId,
          seenAt⟩ := by
    rcases h with ⟨rfl, rfl, hnone⟩ | ⟨seenAt, hsome⟩
    · exact ⟨now, by simp [openAssembly, hnone]⟩
    · exact ⟨seenAt, by simp [openAssembly, hsome]⟩
  obtain ⟨seenAt, hlookup⟩ := hopen
  generalize hopened : openAssembly envelope.clientId envelope.streamId
    ⟨envelope.seqId, segmentCount, messageSizeBytes⟩ now r = opened at hlookup
  have hobserve : r.observe codec
      (envelope.clientChunk segmentId segmentCount messageSizeBytes chunk) now =
        addToAssembly codec (envelope.clientChunk segmentId segmentCount messageSizeBytes chunk)
          envelope.streamId ⟨envelope.seqId, segmentCount, messageSizeBytes⟩ segmentId
          (Base64.encode chunk) now opened := by
    rw [← hopened]
    change observeChunk _ _ _ _ _ _ _ _ = _
    unfold observeChunk
    rw [if_neg (by rw [Bool.not_eq_true]; exact hcurrent), if_neg (by simp [hvalid])]
    rfl
  have hclient : (envelope.clientChunk segmentId segmentCount messageSizeBytes chunk).clientId =
      envelope.clientId := rfl
  unfold addToAssembly at hobserve
  rw [hclient, hlookup] at hobserve
  simp only [ClientSegmentAssembly.update, lt_irrefl, if_false, ne_eq, not_true_eq_false]
    at hobserve
  rw [ClientSegmentAssembly.addChunk_of_decodes (hdecode chunk) hfits] at hobserve
  simp only [ClientSegmentAssembly.afterChunk] at hobserve
  rcases Nat.lt_or_eq_of_le (Nat.succ_le_of_lt hid) with hlast | hlast
  · rw [if_pos hlast] at hobserve
    refine .inl ⟨hlast, by rw [hobserve], ?_⟩
    rw [hobserve]
    exact .inr ⟨now, AList.lookup_insert _⟩
  · refine .inr ⟨hlast, ?_⟩
    intro hall
    rw [if_neg (by omega), if_neg (by simp [hall])] at hobserve
    unfold ServerEnvelope.reassembled
    rcases hparse : codec.messageFromSlice (done ++ chunk) with _ | message
    · simp only [hparse] at hobserve
      rw [hobserve]
    · simp only [hparse] at hobserve
      rw [hobserve]
      rfl

/-- All chunks of a message but the last are waited on, and the last one completes it. -/
theorem observeAll_pieces
    (hdecode : ∀ bytes, codec.decodeBase64 (Base64.encode bytes) = some bytes) {count : Nat}
    (hcount : count ≤ remoteControlSegmentCountMax)
    (hsize : raw.length ≤ remoteControlReassembledMaxBytes) {rest : List Bytes}
    (hrest : rest ≠ []) (hne : ∀ piece ∈ rest, piece ≠ []) {done : Bytes} {segmentId : Nat}
    (hid : segmentId + rest.length = count) (hraw : done ++ rest.flatten = raw)
    {arrivals : List (ClientEnvelope × Nat)} {r : ClientSegmentReassembler}
    (harrivals : arrivals.map Prod.fst = (rest.zipIdx segmentId).map fun (piece, id) =>
      envelope.clientChunk id count raw.length piece)
    (h : Awaits envelope count raw.length done segmentId r) :
    observeAll codec arrivals r =
      List.replicate (rest.length - 1) .pending ++ [envelope.reassembled codec raw] := by
  induction rest generalizing done segmentId arrivals r with
  | nil => exact absurd rfl hrest
  | cons piece rest ih =>
      rcases arrivals with _ | ⟨⟨client, now⟩, arrivals⟩
      · simp at harrivals
      simp only [List.map_cons, List.zipIdx_cons, List.cons.injEq] at harrivals
      obtain ⟨rfl, harrivals⟩ := harrivals
      have hlength : done.length + piece.length ≤ raw.length := by
        rw [← hraw]
        simp only [List.flatten_cons, List.length_append]
        omega
      rw [List.flatten_cons, ← List.append_assoc] at hraw
      simp only [List.length_cons] at hid
      simp only [observeAll]
      rcases h.observe hdecode now hcount (by omega) (hne _ List.mem_cons_self) hsize hlength with
        ⟨hlast, hpending, hnext⟩ | ⟨hlast, hcomplete⟩
      · have hrestNe : rest ≠ [] := by
          rintro rfl
          simp only [List.length_nil] at hid
          omega
        have htail := ih hrestNe (fun piece hmem => hne _ (List.mem_cons_of_mem _ hmem))
          (by omega) hraw harrivals hnext
        have hpos := List.length_pos_iff.mpr hrestNe
        rw [hpending, htail, List.length_cons, Nat.add_sub_cancel, ← List.cons_append,
          ← List.replicate_succ, Nat.sub_add_cancel hpos]
      · have hnil : rest = [] := List.eq_nil_of_length_eq_zero (by omega)
        subst hnil
        simp only [List.flatten_nil, List.append_nil] at hraw
        simp only [List.zipIdx_nil, List.map_nil, List.map_eq_nil_iff] at harrivals
        subst harrivals
        have hfull : done.length + piece.length = raw.length := by
          rw [← hraw, List.length_append]
        rw [hcomplete hfull, hraw]
        rfl

end ReadBack

/-! ### The round trip -/

def ServerEvent.decodedChunk (codec : Codec) : ServerEvent → Option Bytes
  | .serverMessageChunk _ _ _ messageChunkBase64 => codec.decodeBase64 messageChunkBase64
  | _ => none

/-- The envelopes are the chunks of a message, from which the reassembler gets its bytes. -/
structure RoundTrips (codec : Codec) (toVec : MessageToVec) (envelope : ServerEnvelope)
    (raw : Bytes) (envelopes : List ServerEnvelope) : Prop where
  count_pos : 1 ≤ envelopes.length
  count_le : envelopes.length ≤ remoteControlSegmentCountMax
  ids : envelopes.map (fun chunk => chunk.event.segmentId) =
    (List.range envelopes.length).map some
  fits : ∀ chunk ∈ envelopes, chunk.Fits toVec
  decoded : ∃ pieces : List Bytes, pieces.flatten = raw ∧
    envelopes.map (fun chunk => chunk.event.decodedChunk codec) = pieces.map some
  reassembled : ∀ arrivals : List (ClientEnvelope × Nat),
    envelopes.map ServerEnvelope.readAsClient = arrivals.map (fun arrival => some arrival.1) →
      observeAll codec arrivals ∅ =
        List.replicate (envelopes.length - 1) .pending ++ [envelope.reassembled codec raw]

theorem IsSplit.roundTrips {codec : Codec} {toVec : MessageToVec} {envelope : ServerEnvelope}
    {raw : Bytes} {pieces : List Bytes} {envelopes : List ServerEnvelope}
    (hdecode : ∀ bytes, codec.decodeBase64 (Base64.encode bytes) = some bytes)
    (hsize : raw.length ≤ remoteControlReassembledMaxBytes)
    (h : IsSplit toVec envelope raw pieces envelopes) :
    RoundTrips codec toVec envelope raw envelopes := by
  have hlength : envelopes.length = pieces.length := by
    rw [h.envelopes_eq, List.length_map, List.length_zipIdx]
  refine ⟨by rw [hlength]; exact h.count_pos, by rw [hlength]; exact h.count_le, ?_, h.fits,
    ⟨pieces, h.flatten_eq, ?_⟩, ?_⟩
  · have hids : (List.range pieces.length).map some =
        pieces.zipIdx.map fun piece => some piece.2 := by
      rw [List.range_eq_range', ← List.zipIdx_map_snd 0 pieces, List.map_map]
      rfl
    rw [hlength, h.envelopes_eq, List.map_map, hids]
    rfl
  · have hpieces : pieces.map some = pieces.zipIdx.map fun piece => some piece.1 := by
      conv_lhs => rw [← List.zipIdx_map_fst 0 pieces, List.map_map]
      rfl
    rw [h.envelopes_eq, List.map_map, hpieces]
    refine List.map_congr_left ?_
    rintro ⟨piece, segmentId⟩ -
    exact hdecode piece
  · intro arrivals harrivals
    have hclients : arrivals.map Prod.fst = pieces.zipIdx.map fun (piece, id) =>
        envelope.clientChunk id pieces.length raw.length piece := by
      apply List.map_injective_iff.mpr (Option.some_injective _)
      rw [List.map_map, List.map_map, h.envelopes_eq, List.map_map] at *
      exact harrivals.symm
    rw [hlength]
    exact observeAll_pieces hdecode h.count_le hsize
      (List.length_pos_iff.mp h.count_pos) h.ne_nil (Nat.zero_add _)
      (by rw [List.nil_append]; exact h.flatten_eq) hclients
      (.inl ⟨rfl, rfl, AList.lookup_empty _⟩)

/-- A server message is sent as it is, in chunks that round trip, or not at all.  It is sent
if it can be reassembled and the envelope of a chunk leaves enough room for its text. -/
theorem splitServerEnvelopeForTransport_roundTrips (codec : Codec) (toVec : MessageToVec)
    (envelope : ServerEnvelope) {message : OutgoingMessage} {raw : Bytes}
    (hdecode : ∀ bytes, codec.decodeBase64 (Base64.encode bytes) = some bytes)
    (hevent : envelope.event = .serverMessage message) (hraw : toVec message = .ok raw) :
    ∃ len envelopes, envelope.serializedLen toVec = .ok len ∧
      splitServerEnvelopeForTransport toVec envelope = .ok envelopes ∧
      (len ≤ remoteControlSegmentMaxBytes → envelopes = [envelope]) ∧
      (remoteControlSegmentMaxBytes < len →
        envelopes = [] ∨ RoundTrips codec toVec envelope raw envelopes) ∧
      ∀ segmentId segmentCount freeLen, raw.length ≤ remoteControlReassembledMaxBytes →
        (envelope.withChunk segmentId segmentCount raw.length []).serializedLen toVec =
            .ok freeLen → freeLen ≤ 16 * 1024 → envelopes ≠ [] := by
  obtain ⟨len, hlen, hlenLe⟩ := serializedLen_serverMessage raw.length hevent hraw
  unfold splitServerEnvelopeForTransport
  simp only [hevent, hlen, hraw, bind, Except.bind]
  by_cases hshort : len ≤ remoteControlSegmentMaxBytes
  · rw [if_pos hshort]
    refine ⟨len, [envelope], rfl, rfl, fun _ => rfl, fun hlong => by omega, ?_⟩
    intro _ _ _ _ _ _
    simp
  · rw [if_neg hshort]
    have hsmall : ∀ segmentId segmentCount freeLen,
        raw.length ≤ remoteControlReassembledMaxBytes →
        (envelope.withChunk segmentId segmentCount raw.length []).serializedLen toVec =
          .ok freeLen → freeLen ≤ 16 * 1024 →
        ∃ pieces envelopes, splitMessage toVec envelope raw = .ok envelopes ∧
          IsSplit toVec envelope raw pieces envelopes := by
      intro segmentId segmentCount freeLen hsize hfree hfreeLe
      rw [serializedLen_withChunk, Except.ok.injEq] at hfree
      have hbase : envelope.chunkBaseLen raw.length ≤ 16 * 1024 := by omega
      -- The envelope of the message is long, so most of it is the message.
      have hne : raw ≠ [] := by
        rintro rfl
        simp only [List.length_nil] at hlenLe hbase
        unfold remoteControlSegmentMaxBytes at hshort
        omega
      exact splitMessage_of_small hne hsize hbase
    rcases splitMessage_cases toVec envelope raw with hnone |
      ⟨hsize, pieces, envelopes, hsome, hsplit⟩
    · refine ⟨len, [], rfl, hnone, fun h => absurd h hshort, fun _ => .inl rfl, ?_⟩
      intro segmentId segmentCount freeLen hsize hfree hfreeLe
      obtain ⟨pieces, envelopes, hsome, hsplit⟩ :=
        hsmall segmentId segmentCount freeLen hsize hfree hfreeLe
      rw [hnone, Except.ok.injEq] at hsome
      subst hsome
      exact absurd (hsplit.roundTrips hdecode hsize).count_pos (by simp)
    · have htrip := hsplit.roundTrips hdecode hsize
      refine ⟨len, envelopes, rfl, hsome, fun h => absurd h hshort, fun _ => .inr htrip, ?_⟩
      intro _ _ _ _ _ _
      exact List.length_pos_iff.mp htrip.count_pos

/-- The base64 decoder, and notifications of ASCII text. -/
def asciiCodec : Codec where
  decodeBase64 := Base64.decode
  messageFromSlice bytes := some (.other (bytes.map fun byte => Char.ofNat byte.toNat))
  length_decodeBase64_le {s bytes} h := by
    have hlength := Base64.length_of_decode h
    have hbytes : s.length ≤ byteLength s := by
      unfold byteLength
      calc s.length = (s.map fun _ => 1).sum := by simp
        _ ≤ (s.map Char.utf8Size).sum := List.sum_le_sum fun c _ => c.utf8Size_pos
    unfold decodedLenEstimate
    split_ifs <;> omega

def asciiToVec : MessageToVec := fun message =>
  .ok (message.content.map fun c => UInt8.ofNat c.toNat)

def longNotification : OutgoingMessage where
  content := "\x7b\"method\":\"".toList ++ List.replicate 200000 'a' ++ "\"\x7d".toList

theorem length_longNotification : longNotification.content.length = 200013 := by
  have hhead : "\x7b\"method\":\"".toList.length = 11 := by decide
  have htail : "\"\x7d".toList.length = 2 := by decide
  unfold longNotification
  simp only [List.length_append]
  rw [hhead, htail, List.length_replicate]

theorem splitServerEnvelopeForTransport_long :
    ∃ envelopes, splitServerEnvelopeForTransport asciiToVec
        ⟨.serverMessage longNotification, "client".toList, "stream".toList, 1⟩ = .ok envelopes ∧
      envelopes ≠ [] := by
  obtain ⟨len, envelopes, -, hsplit, -, -, hsome⟩ :=
    splitServerEnvelopeForTransport_roundTrips asciiCodec asciiToVec
      ⟨.serverMessage longNotification, "client".toList, "stream".toList, 1⟩
      Base64.decode_encode rfl rfl
  rw [List.length_map, length_longNotification] at hsome
  refine ⟨envelopes, hsplit, hsome 0 1 _ (by decide) serializedLen_withChunk ?_⟩
  decide +kernel

end Codewith.RemoteControl
