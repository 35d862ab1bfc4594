import Codewith.Lib.Saturating

/-!
# A buffer of both ends

`HeadTailBuffer` keeps the beginning and the end of a stream of bytes within a capacity and counts
what it dropped between them.  A buffer is determined by the bytes that were pushed into it, however
they were cut into chunks.
-/

namespace Codewith.Output

open Lib

structure HeadTailBuffer where
  maxBytes : Nat
  headBudget : Nat
  tailBudget : Nat
  head : List UInt8
  tail : List UInt8
  omittedBytes : Nat
deriving DecidableEq, Repr

namespace HeadTailBuffer

def new (maxBytes : Nat) : HeadTailBuffer where
  maxBytes := maxBytes
  headBudget := maxBytes / 2
  tailBudget := maxBytes - maxBytes / 2
  head := []
  tail := []
  omittedBytes := 0

/-- The lengths of two vectors do not overflow. -/
def retainedBytes (buffer : HeadTailBuffer) : Nat := buffer.head.length + buffer.tail.length

def trimTailToBudget (buffer : HeadTailBuffer) : HeadTailBuffer :=
  let excess := buffer.tail.length - buffer.tailBudget
  if 0 < excess then
    { buffer with
      tail := buffer.tail.drop excess
      omittedBytes := saturatingAdd buffer.omittedBytes excess }
  else buffer

def pushToTail (buffer : HeadTailBuffer) (chunk : List UInt8) : HeadTailBuffer :=
  if chunk = [] then buffer
  else if buffer.tailBudget = 0 then
    { buffer with omittedBytes := saturatingAdd buffer.omittedBytes chunk.length }
  else if buffer.tailBudget ≤ chunk.length then
    let start := chunk.length - buffer.tailBudget
    let kept := chunk.drop start
    let dropped := chunk.length - kept.length
    { buffer with
      tail := kept
      omittedBytes :=
        saturatingAdd (saturatingAdd buffer.omittedBytes buffer.tail.length) dropped }
  else
    { buffer with tail := buffer.tail ++ chunk }.trimTailToBudget

def pushChunk (buffer : HeadTailBuffer) (chunk : List UInt8) : HeadTailBuffer :=
  if chunk = [] then buffer
  else if buffer.maxBytes = 0 then
    { buffer with omittedBytes := saturatingAdd buffer.omittedBytes chunk.length }
  else
    let remainingHead := buffer.headBudget - buffer.head.length
    let headLen := min remainingHead chunk.length
    { buffer with head := buffer.head ++ chunk.take headLen }.pushToTail (chunk.drop headLen)

/-- What is taken out, and what stays. -/
def drain (buffer : HeadTailBuffer) : HeadTailBuffer × HeadTailBuffer :=
  (buffer, { buffer with head := [], tail := [], omittedBytes := 0 })

def pushBuffer (buffer other : HeadTailBuffer) : HeadTailBuffer :=
  let pushed := (buffer.pushChunk other.head).pushChunk other.tail
  { pushed with omittedBytes := saturatingAdd pushed.omittedBytes other.omittedBytes }

/-! ### The buffer of a stream -/

/-- The bytes of a stream that a buffer keeps. -/
def kept (maxBytes : Nat) (stream : List UInt8) : List UInt8 :=
  stream.take (maxBytes / 2) ++ (stream.drop (maxBytes / 2)).rtake (maxBytes - maxBytes / 2)

/-- The buffer of a stream, when further bytes were lost before they reached it. -/
def ofStream (maxBytes : Nat) (stream : List UInt8) (lost : Nat) : HeadTailBuffer where
  maxBytes := maxBytes
  headBudget := maxBytes / 2
  tailBudget := maxBytes - maxBytes / 2
  head := stream.take (maxBytes / 2)
  tail := (stream.drop (maxBytes / 2)).rtake (maxBytes - maxBytes / 2)
  omittedBytes := min (stream.length - maxBytes + lost) usizeMax

theorem new_eq_ofStream (maxBytes : Nat) : new maxBytes = ofStream maxBytes [] 0 := by
  simp [new, ofStream, List.rtake]

theorem drain_ofStream (maxBytes : Nat) (stream : List UInt8) (lost : Nat) :
    (ofStream maxBytes stream lost).drain =
      (ofStream maxBytes stream lost, ofStream maxBytes [] 0) := by
  simp [drain, ofStream, List.rtake]

theorem length_kept (maxBytes : Nat) (stream : List UInt8) :
    (kept maxBytes stream).length = min maxBytes stream.length := by
  rw [kept, List.length_append, List.length_take, length_rtake, List.length_drop]
  omega

theorem kept_of_length_le {maxBytes : Nat} {stream : List UInt8} (h : stream.length ≤ maxBytes) :
    kept maxBytes stream = stream := by
  rw [kept, rtake_of_length_le, List.take_append_drop]
  rw [List.length_drop]
  omega

/-- However the chunk is pushed, the tail ends with it and is cut to its budget. -/
theorem pushToTail_eq {buffer : HeadTailBuffer} (chunk : List UInt8)
    (htail : buffer.tail.length ≤ buffer.tailBudget) (homitted : buffer.omittedBytes ≤ usizeMax) :
    buffer.pushToTail chunk =
      { buffer with
        tail := (buffer.tail ++ chunk).rtake buffer.tailBudget
        omittedBytes := saturatingAdd buffer.omittedBytes
          (buffer.tail.length + chunk.length - buffer.tailBudget) } := by
  unfold pushToTail
  split
  case isTrue hnil =>
    subst hnil
    rw [List.append_nil, rtake_of_length_le htail, List.length_nil, Nat.add_zero,
      Nat.sub_eq_zero_of_le htail, saturatingAdd, Nat.add_zero, Nat.min_eq_left homitted]
  case isFalse =>
    split
    case isTrue hzero =>
      have hempty : buffer.tail = [] := List.eq_nil_of_length_eq_zero (by omega)
      rw [hzero, hempty, List.rtake_zero, List.length_nil, Nat.zero_add, Nat.sub_zero]
    case isFalse =>
      split
      case isTrue hlarge =>
        dsimp only
        rw [rtake_append_of_le_length _ hlarge, List.length_drop, rtake_eq_drop]
        congr 1
        unfold saturatingAdd
        omega
      case isFalse =>
        rw [trimTailToBudget]
        dsimp only
        rw [List.length_append, rtake_eq_drop, List.length_append]
        split
        case isTrue => rfl
        case isFalse hfits =>
          have hzero : buffer.tail.length + chunk.length - buffer.tailBudget = 0 := by omega
          rw [hzero, List.drop_zero, saturatingAdd, Nat.add_zero, Nat.min_eq_left homitted]

/-- Chunk boundaries leave no trace. -/
theorem pushChunk_ofStream (maxBytes : Nat) (stream chunk : List UInt8) (lost : Nat) :
    (ofStream maxBytes stream lost).pushChunk chunk = ofStream maxBytes (stream ++ chunk) lost := by
  unfold pushChunk
  split
  case isTrue hnil => rw [hnil, List.append_nil]
  case isFalse =>
    split
    case isTrue hzero =>
      have hmax : maxBytes = 0 := hzero
      subst hmax
      simp only [ofStream, saturatingAdd_min, List.length_append, Nat.sub_zero, Nat.zero_div,
        List.take_zero, List.drop_zero, List.rtake_zero, Nat.add_right_comm]
    case isFalse hpos =>
      have hhead : (ofStream maxBytes stream lost).headBudget -
          (ofStream maxBytes stream lost).head.length = maxBytes / 2 - stream.length := by
        dsimp only [ofStream]
        rw [List.length_take]
        omega
      dsimp only
      rw [hhead]
      rw [← List.take_eq_take_min, ← List.drop_eq_drop_min, pushToTail_eq]
      · unfold ofStream
        dsimp only
        rw [saturatingAdd_min, List.take_append, List.drop_append, rtake_rtake_append]
        congr 2
        rw [length_rtake, List.length_drop, List.length_drop, List.length_append]
        omega
      · dsimp only [ofStream]
        rw [length_rtake]
        exact Nat.min_le_left _ _
      · exact Nat.min_le_right _ _

/-- A buffer is pushed with the bytes it kept; those it dropped are added to the count. -/
theorem pushBuffer_ofStream (maxBytes otherMax : Nat) (stream other : List UInt8)
    (lost otherLost : Nat) :
    (ofStream maxBytes stream lost).pushBuffer (ofStream otherMax other otherLost) =
      ofStream maxBytes (stream ++ kept otherMax other)
        (lost + (other.length - otherMax + otherLost)) := by
  unfold pushBuffer
  have hkept : (ofStream otherMax other otherLost).head ++
      (ofStream otherMax other otherLost).tail = kept otherMax other := rfl
  rw [pushChunk_ofStream, pushChunk_ofStream, List.append_assoc, hkept]
  unfold ofStream
  dsimp only
  rw [saturatingAdd_min_min, Nat.add_assoc]

/-- Between buffers of one capacity, the bytes that were dropped would be dropped again. -/
theorem ofStream_append_kept (maxBytes : Nat) (stream other : List UInt8) (lost : Nat) :
    ofStream maxBytes (stream ++ kept maxBytes other) (lost + (other.length - maxBytes)) =
      ofStream maxBytes (stream ++ other) lost := by
  rcases Nat.le_total other.length maxBytes with hle | hlt
  · rw [kept_of_length_le hle, Nat.sub_eq_zero_of_le hle, Nat.add_zero]
  · have hhead : (stream ++ kept maxBytes other).take (maxBytes / 2) =
        (stream ++ other).take (maxBytes / 2) := by
      rw [List.take_append, List.take_append, kept, List.take_append_of_le_length, List.take_take]
      · congr 2
        omega
      · rw [List.length_take]
        omega
    have htail : ((stream ++ kept maxBytes other).drop (maxBytes / 2)).rtake
        (maxBytes - maxBytes / 2) =
        ((stream ++ other).drop (maxBytes / 2)).rtake (maxBytes - maxBytes / 2) := by
      have hlength := length_kept maxBytes other
      rw [rtake_drop_of_le (by rw [List.length_append]; omega),
        rtake_drop_of_le (by rw [List.length_append]; omega),
        rtake_append_of_le_length _ (by omega), rtake_append_of_le_length _ (by omega), kept,
        rtake_append_of_le_length, rtake_rtake, rtake_drop_of_le (by omega)]
      rw [length_rtake, List.length_drop]
      omega
    unfold ofStream
    rw [hhead, htail, List.length_append, length_kept, List.length_append]
    congr 2
    omega

/-! ### Several buffers -/

/-- What happens to buffers: one is made, a chunk is pushed, one is drained into another place, or
one is pushed into another and gone. -/
inductive BufferOp
  | create (slot maxBytes : Nat)
  | pushChunk (slot : Nat) (chunk : List UInt8)
  | drain (source slot : Nat)
  | pushBuffer (source slot : Nat)
deriving Repr

def step (pool : Nat → HeadTailBuffer) : BufferOp → Nat → HeadTailBuffer
  | .create slot maxBytes => Function.update pool slot (new maxBytes)
  | .pushChunk slot chunk => Function.update pool slot ((pool slot).pushChunk chunk)
  | .drain source slot =>
      Function.update (Function.update pool source (pool source).drain.2) slot (pool source).drain.1
  | .pushBuffer source slot =>
      Function.update (Function.update pool source (pool source).drain.2) slot
        ((pool slot).pushBuffer (pool source))

def run (ops : List BufferOp) : Nat → HeadTailBuffer := ops.foldl step fun _ => new 0

/-- What a buffer has seen since its last drain: the bytes that were pushed into it, the number of
those that pushed buffers had dropped, the stream of all of them, and whether every pushed buffer
was of its capacity. -/
structure Seen where
  maxBytes : Nat
  pushed : List UInt8 := []
  lost : Nat := 0
  stream : List UInt8 := []
  uniform : Bool := true

namespace Seen

def pushChunk (seen : Seen) (chunk : List UInt8) : Seen :=
  { seen with pushed := seen.pushed ++ chunk, stream := seen.stream ++ chunk }

def drained (seen : Seen) : Seen := { maxBytes := seen.maxBytes }

def pushBuffer (seen other : Seen) : Seen :=
  { seen with
    pushed := seen.pushed ++ kept other.maxBytes other.pushed
    lost := seen.lost + (other.pushed.length - other.maxBytes + other.lost)
    stream := seen.stream ++ other.stream
    uniform := seen.uniform && other.uniform && decide (other.maxBytes = seen.maxBytes) }

def step (pool : Nat → Seen) : BufferOp → Nat → Seen
  | .create slot maxBytes => Function.update pool slot { maxBytes }
  | .pushChunk slot chunk => Function.update pool slot ((pool slot).pushChunk chunk)
  | .drain source slot =>
      Function.update (Function.update pool source (pool source).drained) slot (pool source)
  | .pushBuffer source slot =>
      Function.update (Function.update pool source (pool source).drained) slot
        ((pool slot).pushBuffer (pool source))

def run (ops : List BufferOp) : Nat → Seen := ops.foldl step fun _ => { maxBytes := 0 }

end Seen

/-- A buffer is that of the bytes that were pushed into it, and that of the whole stream if only
buffers of its capacity were pushed. -/
structure Reflects (buffer : HeadTailBuffer) (seen : Seen) : Prop where
  eq_ofStream : buffer = ofStream seen.maxBytes seen.pushed seen.lost
  length_stream : seen.pushed.length + seen.lost = seen.stream.length
  uniform : seen.uniform = true → buffer = ofStream seen.maxBytes seen.stream 0

theorem reflects_new (maxBytes : Nat) : Reflects (new maxBytes) { maxBytes } where
  eq_ofStream := new_eq_ofStream maxBytes
  length_stream := rfl
  uniform _ := new_eq_ofStream maxBytes

variable {buffer other : HeadTailBuffer} {seen otherSeen : Seen}

theorem Reflects.pushChunk (h : Reflects buffer seen) (chunk : List UInt8) :
    Reflects (buffer.pushChunk chunk) (seen.pushChunk chunk) where
  eq_ofStream := by rw [h.eq_ofStream, pushChunk_ofStream, Seen.pushChunk]
  length_stream := by
    have hlength := h.length_stream
    dsimp only [Seen.pushChunk]
    rw [List.length_append, List.length_append]
    omega
  uniform huniform := by rw [h.uniform huniform, pushChunk_ofStream, Seen.pushChunk]

theorem Reflects.drained (h : Reflects buffer seen) : Reflects buffer.drain.2 seen.drained := by
  rw [h.eq_ofStream, drain_ofStream, ← new_eq_ofStream]
  exact reflects_new seen.maxBytes

theorem Reflects.pushBuffer (h : Reflects buffer seen) (hother : Reflects other otherSeen) :
    Reflects (buffer.pushBuffer other) (seen.pushBuffer otherSeen) where
  eq_ofStream := by rw [h.eq_ofStream, hother.eq_ofStream, pushBuffer_ofStream, Seen.pushBuffer]
  length_stream := by
    have hlength := h.length_stream
    have hotherLength := hother.length_stream
    dsimp only [Seen.pushBuffer]
    rw [List.length_append, List.length_append, length_kept]
    omega
  uniform huniform := by
    rw [Seen.pushBuffer, Bool.and_eq_true, Bool.and_eq_true, decide_eq_true_eq] at huniform
    obtain ⟨⟨hseen, hotherSeen⟩, hcapacity⟩ := huniform
    rw [h.uniform hseen, hother.uniform hotherSeen, pushBuffer_ofStream, hcapacity, Nat.add_zero,
      ofStream_append_kept, Seen.pushBuffer]

theorem reflects_step {pool : Nat → HeadTailBuffer} {seenPool : Nat → Seen}
    (h : ∀ slot, Reflects (pool slot) (seenPool slot)) (op : BufferOp) (slot : Nat) :
    Reflects (step pool op slot) (Seen.step seenPool op slot) := by
  have hupdate : ∀ {pool : Nat → HeadTailBuffer} {seenPool : Nat → Seen} {buffer : HeadTailBuffer}
      {seen : Seen} (place : Nat), (∀ slot, Reflects (pool slot) (seenPool slot)) →
      Reflects buffer seen →
      ∀ slot, Reflects (Function.update pool place buffer slot)
        (Function.update seenPool place seen slot) := by
    intro pool seenPool buffer seen place hpool hbuffer slot
    by_cases hslot : slot = place
    · subst hslot
      simpa only [Function.update_self] using hbuffer
    · simpa only [Function.update_of_ne hslot] using hpool slot
  cases op with
  | create place maxBytes => exact hupdate place h (reflects_new maxBytes) slot
  | pushChunk place chunk => exact hupdate place h ((h place).pushChunk chunk) slot
  | drain source place =>
      exact hupdate place (hupdate source h (h source).drained) (h source) slot
  | pushBuffer source place =>
      exact hupdate place (hupdate source h (h source).drained)
        ((h place).pushBuffer (h source)) slot

theorem reflects_run (ops : List BufferOp) (slot : Nat) :
    Reflects (run ops slot) (Seen.run ops slot) := by
  unfold run Seen.run
  have hstart : ∀ slot : Nat, Reflects ((fun _ => new 0) slot)
      ((fun _ => ({ maxBytes := 0 } : Seen)) slot) := fun _ => reflects_new 0
  generalize (fun _ : Nat => new 0) = pool at hstart ⊢
  generalize (fun _ : Nat => ({ maxBytes := 0 } : Seen)) = seenPool at hstart ⊢
  induction ops generalizing pool seenPool with
  | nil => exact hstart slot
  | cons op ops ih => exact ih _ _ (reflects_step hstart op)

/-- The first and the last bytes of a stream within a capacity, and the count of what is missing,
as far as it can be counted. -/
structure KeepsEnds (buffer : HeadTailBuffer) (maxBytes : Nat) (stream : List UInt8)
    (total : Nat) : Prop where
  head : buffer.head = stream.take (maxBytes / 2)
  tail : buffer.tail = (stream.drop (maxBytes / 2)).rtake (maxBytes - maxBytes / 2)
  omitted : buffer.omittedBytes = min (total - buffer.retainedBytes) usizeMax
  retained_le : buffer.retainedBytes ≤ maxBytes

theorem keepsEnds_ofStream (maxBytes : Nat) (stream : List UInt8) (lost : Nat) :
    KeepsEnds (ofStream maxBytes stream lost) maxBytes stream (stream.length + lost) := by
  have hretained : (ofStream maxBytes stream lost).retainedBytes =
      min maxBytes stream.length := by
    rw [← length_kept, kept, List.length_append]
    rfl
  refine ⟨rfl, rfl, ?_, by omega⟩
  rw [hretained]
  dsimp only [ofStream]
  congr 1
  omega

/-- In every run, each buffer keeps the ends of the bytes that were pushed into it since its last
drain, and counts the others.  If all buffers are of one capacity, these are the ends of the whole
stream, and a buffer pushed into another one gives what both streams in one piece give. -/
theorem run_keepsEnds (ops : List BufferOp) (slot : Nat) :
    KeepsEnds (run ops slot) (Seen.run ops slot).maxBytes (Seen.run ops slot).pushed
        (Seen.run ops slot).stream.length ∧
      ((Seen.run ops slot).uniform = true →
        KeepsEnds (run ops slot) (Seen.run ops slot).maxBytes (Seen.run ops slot).stream
          (Seen.run ops slot).stream.length ∧
        ∀ source, (Seen.run ops source).uniform = true →
          (Seen.run ops source).maxBytes = (Seen.run ops slot).maxBytes →
          (run ops slot).pushBuffer (run ops source).drain.1 =
            (new (Seen.run ops slot).maxBytes).pushChunk
              ((Seen.run ops slot).stream ++ (Seen.run ops source).stream)) := by
  have hslot := reflects_run ops slot
  refine ⟨?_, fun huniform => ⟨?_, fun source hsourceUniform hcapacity => ?_⟩⟩
  · rw [hslot.eq_ofStream, ← hslot.length_stream]
    exact keepsEnds_ofStream _ _ _
  · rw [hslot.uniform huniform]
    exact keepsEnds_ofStream _ _ 0
  · have hsource := (reflects_run ops source).uniform hsourceUniform
    rw [hslot.uniform huniform, hsource, drain_ofStream, pushBuffer_ofStream, hcapacity,
      Nat.add_zero, ofStream_append_kept, new_eq_ofStream, pushChunk_ofStream, List.nil_append]

/-- Two buffers of one capacity, the first of them pushed into the second and used again. -/
def uniformOps : List BufferOp :=
  [.create 0 4, .create 1 4, .pushChunk 0 [1, 2, 3, 4, 5, 6], .pushBuffer 0 1,
    .pushChunk 0 [7, 8, 9, 10, 11]]

theorem run_keepsEnds_uniform :
    KeepsEnds (run uniformOps 1) 4 [1, 2, 3, 4, 5, 6] 6 ∧
      (run uniformOps 1).pushBuffer (run uniformOps 0).drain.1 =
        (new 4).pushChunk [1, 2, 3, 4, 5, 6, 7, 8, 9, 10, 11] := by
  have huniform : (Seen.run uniformOps 1).uniform = true ∧
      (Seen.run uniformOps 0).uniform = true ∧
      (Seen.run uniformOps 0).maxBytes = (Seen.run uniformOps 1).maxBytes := by
    decide
  obtain ⟨-, hends⟩ := run_keepsEnds uniformOps 1
  obtain ⟨hkeeps, hpushed⟩ := hends huniform.1
  exact ⟨hkeeps, hpushed 0 huniform.2.1 huniform.2.2⟩

/-- The count stops at its greatest value, and a larger buffer does not get back what a smaller
one has dropped. -/
theorem run_beyond_count :
    ((run [.pushChunk 0 (List.replicate (2 ^ 63 - 1) 0),
        .pushChunk 0 (List.replicate (2 ^ 63 - 1) 0),
        .pushChunk 0 (List.replicate (2 ^ 63 - 1) 0)] 0).omittedBytes ≠
      3 * (2 ^ 63 - 1) - (run [.pushChunk 0 (List.replicate (2 ^ 63 - 1) 0),
        .pushChunk 0 (List.replicate (2 ^ 63 - 1) 0),
        .pushChunk 0 (List.replicate (2 ^ 63 - 1) 0)] 0).retainedBytes) ∧
    (run [.create 0 2, .create 1 10, .pushChunk 0 [1, 2, 3, 4], .pushBuffer 0 1] 1).head ≠
      [1, 2, 3, 4].take 5 := by
  refine ⟨?_, by decide⟩
  have hcount : ∀ chunk : List UInt8, chunk.length = 2 ^ 63 - 1 →
      (run [.pushChunk 0 chunk, .pushChunk 0 chunk, .pushChunk 0 chunk] 0).omittedBytes ≠
        3 * (2 ^ 63 - 1) -
          (run [.pushChunk 0 chunk, .pushChunk 0 chunk, .pushChunk 0 chunk] 0).retainedBytes := by
    intro chunk hchunk
    have hbuffer : run [.pushChunk 0 chunk, .pushChunk 0 chunk, .pushChunk 0 chunk] 0 =
        ofStream 0 (chunk ++ chunk ++ chunk) 0 := by
      simp [run, step, new_eq_ofStream, pushChunk_ofStream]
    rw [hbuffer]
    simp [ofStream, retainedBytes, usizeMax, hchunk]
  exact hcount _ List.length_replicate

end HeadTailBuffer

end Codewith.Output
