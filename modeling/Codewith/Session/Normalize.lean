import Codewith.Session.History

/-!
# The transcript as it is sent to the model

Before the items are sent, a call without an output gets one right after it, an output without
a call is dropped, and images that the model cannot see become text.

A missing or an orphan output of some kinds is reported as an error, which stops a debug build;
the model is that of a release build, which goes on.
-/

namespace Codewith.Session

open Lib

/-! ## Calls and outputs -/

inductive InputModality
  | text
  | image
deriving DecidableEq, Repr

inductive RequiredCall
  | function (callId : Text)
  | toolSearch (callId : Text)
  | customTool (callId : Text)
deriving DecidableEq, Repr

/-- The call an output needs.  Server-executed and id-less tool-search outputs need none. -/
def requiredCallForOutput : ResponseItem → Option RequiredCall
  | .functionCallOutput callId _ => some (.function callId)
  | .customToolCallOutput callId _ _ => some (.customTool callId)
  | .toolSearchOutput callId _ execution =>
      if execution = "server".toList then none else callId.map .toolSearch
  | _ => none

def hasFunctionCallOutput (items : List ResponseItem) (callId : Text) : Bool :=
  items.any fun
    | .functionCallOutput existing _ => existing = callId
    | _ => false

def hasToolSearchOutput (items : List ResponseItem) (callId : Text) : Bool :=
  items.any fun
    | .toolSearchOutput (some existing) _ _ => existing = callId
    | _ => false

def hasCustomToolCallOutput (items : List ResponseItem) (callId : Text) : Bool :=
  items.any fun
    | .customToolCallOutput existing _ _ => existing = callId
    | _ => false

def abortedPayload : FunctionCallOutputPayload := ⟨.text "aborted".toList, none⟩

/-- The output to insert after a call that has none. -/
def missingOutput (items : List ResponseItem) : ResponseItem → Option ResponseItem
  | .functionCall _ _ callId =>
      if hasFunctionCallOutput items callId then none
      else some (.functionCallOutput callId abortedPayload)
  | .toolSearchCall (some callId) _ =>
      if hasToolSearchOutput items callId then none
      else some (.toolSearchOutput (some callId) "completed".toList "client".toList)
  | .customToolCall callId _ _ =>
      if hasCustomToolCallOutput items callId then none
      else some (.customToolCallOutput callId none abortedPayload)
  | .localShellCall _ (some callId) =>
      if hasFunctionCallOutput items callId then none
      else some (.functionCallOutput callId abortedPayload)
  | _ => none

def missingOutputsToInsert (items : List ResponseItem) : List (Nat × ResponseItem) :=
  items.zipIdx.filterMap fun (item, idx) =>
    (missingOutput items item).map fun output => (idx, output)

/-- The outputs are inserted from the last to the first, so that the positions stay right. -/
def ensureCallOutputsPresent (items : List ResponseItem) : List ResponseItem :=
  (missingOutputsToInsert items).foldr (fun (idx, output) items => items.insertIdx (idx + 1) output)
    items

def functionCallIds (items : List ResponseItem) : List Text :=
  items.filterMap fun
    | .functionCall _ _ callId => some callId
    | _ => none

def toolSearchCallIds (items : List ResponseItem) : List Text :=
  items.filterMap fun
    | .toolSearchCall callId _ => callId
    | _ => none

def localShellCallIds (items : List ResponseItem) : List Text :=
  items.filterMap fun
    | .localShellCall _ callId => callId
    | _ => none

def customToolCallIds (items : List ResponseItem) : List Text :=
  items.filterMap fun
    | .customToolCall callId _ _ => some callId
    | _ => none

def hasMatch (items : List ResponseItem) : RequiredCall → Bool
  | .function callId => callId ∈ functionCallIds items || callId ∈ localShellCallIds items
  | .toolSearch callId => callId ∈ toolSearchCallIds items
  | .customTool callId => callId ∈ customToolCallIds items

def isOrphanOutput (items : List ResponseItem) (item : ResponseItem) : Bool :=
  match requiredCallForOutput item with
  | none => false
  | some call => !hasMatch items call

def removeOrphanOutputs (items : List ResponseItem) : List ResponseItem :=
  items.filter fun item => !isOrphanOutput items item

/-! ## Images -/

def imageContentOmittedPlaceholder : Text :=
  "image content omitted because you do not support image input".toList

def remoteImageUrlPlaceholder : Text :=
  "image content omitted because remote image URLs are not supported".toList

/-- `split_once(':')`, and the part before it is one of the two schemes. -/
def isRemoteImageUrl (imageUrl : Text) : Bool :=
  ':' ∈ imageUrl &&
    (asciiLower (imageUrl.takeWhile (· ≠ ':')) = "http".toList ||
      asciiLower (imageUrl.takeWhile (· ≠ ':')) = "https".toList)

def replaceContentImages (p : Text → Bool) (placeholder : Text) : ContentItem → ContentItem
  | .inputImage imageUrl => if p imageUrl then .inputText placeholder else .inputImage imageUrl
  | content => content

def replaceOutputImages (p : Text → Bool) (placeholder : Text) :
    FunctionCallOutputContentItem → FunctionCallOutputContentItem
  | .inputImage imageUrl => if p imageUrl then .inputText placeholder else .inputImage imageUrl
  | content => content

def FunctionCallOutputPayload.mapContentItems
    (f : FunctionCallOutputContentItem → FunctionCallOutputContentItem)
    (output : FunctionCallOutputPayload) : FunctionCallOutputPayload :=
  match output.body with
  | .text _ => output
  | .contentItems items => { output with body := .contentItems (items.map f) }

/-- Replace the images that `p` selects by text. -/
def replaceImages (p : Text → Bool) (placeholder : Text) : ResponseItem → ResponseItem
  | .message id role content => .message id role (content.map (replaceContentImages p placeholder))
  | .functionCallOutput callId output =>
      .functionCallOutput callId (output.mapContentItems (replaceOutputImages p placeholder))
  | .customToolCallOutput callId name output =>
      .customToolCallOutput callId name (output.mapContentItems (replaceOutputImages p placeholder))
  | item => item

def replaceRemoteImageWithError (item : ResponseItem) : ResponseItem :=
  replaceImages isRemoteImageUrl remoteImageUrlPlaceholder item

def replaceRemoteImagesWithError (items : List ResponseItem) : List ResponseItem :=
  items.map replaceRemoteImageWithError

/-- Also the result of an image generation is dropped. -/
def stripImages : ResponseItem → ResponseItem
  | .imageGenerationCall id status _ => .imageGenerationCall id status []
  | item => replaceImages (fun _ => true) imageContentOmittedPlaceholder item

def stripImagesWhenUnsupported (inputModalities : List InputModality)
    (items : List ResponseItem) : List ResponseItem :=
  if .image ∈ inputModalities then items else items.map stripImages

def ContextManager.normalizeHistory (inputModalities : List InputModality) (m : ContextManager) :
    ContextManager :=
  let items := ensureCallOutputsPresent m.items
  let items := removeOrphanOutputs items
  let items := stripImagesWhenUnsupported inputModalities items
  { m with items := replaceRemoteImagesWithError items }

/-! ## Calls and outputs by what they are for -/

/-- What a call with an id asks for. -/
def requestedCall : ResponseItem → Option RequiredCall
  | .functionCall _ _ callId => some (.function callId)
  | .localShellCall _ callId => callId.map .function
  | .toolSearchCall callId _ => callId.map .toolSearch
  | .customToolCall callId _ _ => some (.customTool callId)
  | _ => none

/-- The call that an output answers, whoever has executed it. -/
def answeredCall : ResponseItem → Option RequiredCall
  | .functionCallOutput callId _ => some (.function callId)
  | .customToolCallOutput callId _ _ => some (.customTool callId)
  | .toolSearchOutput callId _ _ => callId.map .toolSearch
  | _ => none

def syntheticOutput : RequiredCall → ResponseItem
  | .function callId => .functionCallOutput callId abortedPayload
  | .toolSearch callId => .toolSearchOutput (some callId) "completed".toList "client".toList
  | .customTool callId => .customToolCallOutput callId none abortedPayload

def isAnswered (items : List ResponseItem) (call : RequiredCall) : Bool :=
  items.any fun item => answeredCall item = some call

section Keys

variable {items : List ResponseItem} {item : ResponseItem} {call : RequiredCall}

theorem hasFunctionCallOutput_eq (items : List ResponseItem) (callId : Text) :
    hasFunctionCallOutput items callId = isAnswered items (.function callId) := by
  refine List.any_congr rfl fun item => ?_
  cases item <;> simp [answeredCall]

theorem hasToolSearchOutput_eq (items : List ResponseItem) (callId : Text) :
    hasToolSearchOutput items callId = isAnswered items (.toolSearch callId) := by
  refine List.any_congr rfl fun item => ?_
  rcases item with _ | _ | _ | _ | _ | _ | _ | _ | _ | ⟨_ | _, _, _⟩ <;> simp [answeredCall]

theorem hasCustomToolCallOutput_eq (items : List ResponseItem) (callId : Text) :
    hasCustomToolCallOutput items callId = isAnswered items (.customTool callId) := by
  refine List.any_congr rfl fun item => ?_
  cases item <;> simp [answeredCall]

/-- One rule for the four kinds of calls. -/
theorem missingOutput_eq (items : List ResponseItem) (item : ResponseItem) :
    missingOutput items item = (requestedCall item).bind fun call =>
      if isAnswered items call then none else some (syntheticOutput call) := by
  cases item with
  | functionCall name arguments callId =>
      rw [missingOutput, hasFunctionCallOutput_eq]
      rfl
  | customToolCall callId name input =>
      rw [missingOutput, hasCustomToolCallOutput_eq]
      rfl
  | localShellCall id callId =>
      cases callId with
      | none => rfl
      | some callId =>
          rw [missingOutput, hasFunctionCallOutput_eq]
          rfl
  | toolSearchCall callId execution =>
      cases callId with
      | none => rfl
      | some callId =>
          rw [missingOutput, hasToolSearchOutput_eq]
          rfl
  | _ => rfl

theorem missingOutput_eq_some {output : ResponseItem} :
    missingOutput items item = some output ↔ ∃ call, requestedCall item = some call ∧
      isAnswered items call = false ∧ syntheticOutput call = output := by
  rw [missingOutput_eq, Option.bind_eq_some_iff]
  simp [Option.ite_none_left_eq_some]

/-- A call is asked for by one of the items. -/
theorem hasMatch_iff :
    hasMatch items call = true ↔ ∃ item ∈ items, requestedCall item = some call := by
  cases call with
  | function callId =>
      simp only [hasMatch, functionCallIds, localShellCallIds, Bool.or_eq_true, decide_eq_true_eq,
        List.mem_filterMap]
      constructor
      · rintro (⟨item, hitem, heq⟩ | ⟨item, hitem, heq⟩) <;> refine ⟨item, hitem, ?_⟩ <;>
          cases item <;> simp_all [requestedCall]
      · rintro ⟨item, hitem, heq⟩
        cases item with
        | functionCall name arguments id =>
            exact .inl ⟨_, hitem, by simpa [requestedCall] using heq⟩
        | localShellCall id callId => exact .inr ⟨_, hitem, by simpa [requestedCall] using heq⟩
        | _ => simp [requestedCall] at heq
  | toolSearch callId =>
      simp only [hasMatch, toolSearchCallIds, decide_eq_true_eq, List.mem_filterMap]
      refine exists_congr fun item => and_congr_right fun _ => ?_
      cases item <;> simp [requestedCall]
  | customTool callId =>
      simp only [hasMatch, customToolCallIds, decide_eq_true_eq, List.mem_filterMap]
      refine exists_congr fun item => and_congr_right fun _ => ?_
      cases item <;> simp [requestedCall]

theorem isOrphanOutput_iff : isOrphanOutput items item = true ↔
    ∃ call, requiredCallForOutput item = some call ∧ hasMatch items call = false := by
  unfold isOrphanOutput
  cases requiredCallForOutput item <;> simp

theorem answeredCall_of_required (h : requiredCallForOutput item = some call) :
    answeredCall item = some call := by
  cases item with
  | functionCallOutput callId output => exact h
  | customToolCallOutput callId name output => exact h
  | toolSearchOutput callId status execution =>
      rw [requiredCallForOutput] at h
      split_ifs at h
      exact h
  | _ => cases h

theorem requestedCall_eq_none_of_required (h : requiredCallForOutput item = some call) :
    requestedCall item = none := by
  cases item with
  | functionCallOutput callId output => rfl
  | customToolCallOutput callId name output => rfl
  | toolSearchOutput callId status execution => rfl
  | _ => cases h

@[simp] theorem requiredCallForOutput_syntheticOutput (call : RequiredCall) :
    requiredCallForOutput (syntheticOutput call) = some call := by
  cases call with
  | function callId => rfl
  | customTool callId => rfl
  | toolSearch callId =>
      rw [syntheticOutput, requiredCallForOutput, if_neg (by decide)]
      rfl

@[simp] theorem answeredCall_syntheticOutput (call : RequiredCall) :
    answeredCall (syntheticOutput call) = some call :=
  answeredCall_of_required (requiredCallForOutput_syntheticOutput call)

@[simp] theorem requestedCall_syntheticOutput (call : RequiredCall) :
    requestedCall (syntheticOutput call) = none :=
  requestedCall_eq_none_of_required (requiredCallForOutput_syntheticOutput call)

theorem isAnswered_iff : isAnswered items call = true ↔
    ∃ item ∈ items, answeredCall item = some call := by
  simp [isAnswered]

end Keys

/-! ## Where the outputs are inserted -/

/-- An item with the output it is missing. -/
def withOutput (items : List ResponseItem) (item : ResponseItem) : List ResponseItem :=
  item :: (missingOutput items item).toList

theorem insertIdx_length_append {α : Type} (xs ys : List α) (a : α) :
    (xs ++ ys).insertIdx xs.length a = xs ++ a :: ys := by
  induction xs with
  | nil => rfl
  | cons x xs ih => simp [ih]

/-- Inserting from the last position down shifts nothing that is still to be inserted. -/
theorem foldr_insertIdx {α : Type} (f : α → Option α) (before rest : List α) :
    ((rest.zipIdx before.length).filterMap fun (item, idx) =>
        (f item).map fun output => (idx, output)).foldr
      (fun (idx, output) items => items.insertIdx (idx + 1) output) (before ++ rest) =
    before ++ rest.flatMap fun item => item :: (f item).toList := by
  induction rest generalizing before with
  | nil => simp
  | cons item rest ih =>
      have hrest := ih (before ++ [item])
      simp only [List.length_append, List.length_singleton, List.append_assoc,
        List.singleton_append] at hrest
      rw [List.zipIdx_cons, List.filterMap_cons]
      cases hitem : f item with
      | none => simpa [hitem] using hrest
      | some output =>
          simp only [Option.map_some, List.foldr_cons, hrest, List.flatMap_cons, hitem,
            Option.toList_some]
          simpa using insertIdx_length_append (before ++ [item])
            (rest.flatMap fun item => item :: (f item).toList) output

theorem ensureCallOutputsPresent_eq (items : List ResponseItem) :
    ensureCallOutputsPresent items = items.flatMap (withOutput items) :=
  foldr_insertIdx (missingOutput items) [] items

theorem mem_ensureCallOutputsPresent {items : List ResponseItem} {item : ResponseItem} :
    item ∈ ensureCallOutputsPresent items ↔
      item ∈ items ∨ ∃ call, (∃ source ∈ items, requestedCall source = some call) ∧
        isAnswered items call = false ∧ item = syntheticOutput call := by
  simp only [ensureCallOutputsPresent_eq, List.mem_flatMap, withOutput, List.mem_cons,
    Option.mem_toList, missingOutput_eq_some]
  constructor
  · rintro ⟨source, hsource, rfl | ⟨call, hcall, hopen, rfl⟩⟩
    · exact .inl hsource
    · exact .inr ⟨call, ⟨source, hsource, hcall⟩, hopen, rfl⟩
  · rintro (hitem | ⟨call, ⟨source, hsource, hcall⟩, hopen, rfl⟩)
    · exact ⟨item, hitem, .inl rfl⟩
    · exact ⟨source, hsource, .inr ⟨call, hcall, hopen, rfl⟩⟩

/-! ## The two passes -/

section Passes

variable {items : List ResponseItem} {item : ResponseItem} {call : RequiredCall}

/-- The first pass adds no calls. -/
theorem hasMatch_ensureCallOutputsPresent :
    hasMatch (ensureCallOutputsPresent items) call = hasMatch items call := by
  rw [Bool.eq_iff_iff, hasMatch_iff, hasMatch_iff]
  constructor
  · rintro ⟨item, hitem, hcall⟩
    rcases mem_ensureCallOutputsPresent.mp hitem with hold | ⟨other, -, -, rfl⟩
    · exact ⟨item, hold, hcall⟩
    · simp at hcall
  · rintro ⟨item, hitem, hcall⟩
    exact ⟨item, mem_ensureCallOutputsPresent.mpr (.inl hitem), hcall⟩

theorem isOrphanOutput_ensureCallOutputsPresent (item : ResponseItem) :
    isOrphanOutput (ensureCallOutputsPresent items) item = isOrphanOutput items item := by
  unfold isOrphanOutput
  cases requiredCallForOutput item with
  | none => rfl
  | some call => simp only [hasMatch_ensureCallOutputsPresent]

/-- A call is never an orphan output, and neither is what is inserted after one. -/
theorem isOrphanOutput_of_requestedCall (h : requestedCall item = some call) :
    isOrphanOutput items item = false := by
  rw [Bool.eq_false_iff, Ne, isOrphanOutput_iff]
  rintro ⟨other, hrequired, -⟩
  rw [requestedCall_eq_none_of_required hrequired] at h
  cases h

theorem isOrphanOutput_missingOutput {output : ResponseItem} (hitem : item ∈ items)
    (h : missingOutput items item = some output) : isOrphanOutput items output = false := by
  obtain ⟨call, hcall, -, rfl⟩ := missingOutput_eq_some.mp h
  rw [Bool.eq_false_iff, Ne, isOrphanOutput_iff]
  rintro ⟨other, hrequired, hnone⟩
  rw [requiredCallForOutput_syntheticOutput, Option.some_inj] at hrequired
  subst hrequired
  rw [hasMatch_iff.mpr ⟨item, hitem, hcall⟩] at hnone
  cases hnone

theorem missingOutput_eq_none_of_orphan (h : isOrphanOutput items item = true) :
    missingOutput items item = none := by
  obtain ⟨call, hrequired, -⟩ := isOrphanOutput_iff.mp h
  rw [missingOutput_eq, requestedCall_eq_none_of_required hrequired]
  rfl

theorem flatMap_eq_flatMap_filter {α β : Type} {p : α → Bool} {f g : α → List β} {l : List α}
    (h : ∀ a ∈ l, g a = if p a then f a else []) : l.flatMap g = (l.filter p).flatMap f := by
  induction l with
  | nil => rfl
  | cons a l ih =>
      have hrest := ih fun b hb => h b (List.mem_cons_of_mem _ hb)
      rw [List.flatMap_cons, h a List.mem_cons_self, hrest, List.filter_cons]
      split <;> simp

/-- The two passes together: what is not an orphan stays, with the output it was missing. -/
theorem removeOrphanOutputs_ensureCallOutputsPresent (items : List ResponseItem) :
    removeOrphanOutputs (ensureCallOutputsPresent items) =
      (items.filter fun item => !isOrphanOutput items item).flatMap (withOutput items) := by
  unfold removeOrphanOutputs
  simp only [isOrphanOutput_ensureCallOutputsPresent]
  rw [ensureCallOutputsPresent_eq, List.filter_flatMap]
  refine flatMap_eq_flatMap_filter ?_
  intro item hitem
  cases horphan : isOrphanOutput items item with
  | true => simp [withOutput, horphan, missingOutput_eq_none_of_orphan horphan]
  | false =>
      cases hmissing : missingOutput items item with
      | none => simp [withOutput, horphan, hmissing]
      | some output =>
          simp [withOutput, horphan, hmissing, isOrphanOutput_missingOutput hitem hmissing]

/-- Every call with an id is answered, and every client output answers one. -/
structure WellFormed (items : List ResponseItem) : Prop where
  answered : ∀ item ∈ items, ∀ call, requestedCall item = some call →
    ∃ output ∈ items, answeredCall output = some call
  requested : ∀ output ∈ items, ∀ call, requiredCallForOutput output = some call →
    ∃ item ∈ items, requestedCall item = some call

theorem mem_twoPasses : item ∈ removeOrphanOutputs (ensureCallOutputsPresent items) ↔
    item ∈ ensureCallOutputsPresent items ∧ isOrphanOutput items item = false := by
  simp [removeOrphanOutputs, isOrphanOutput_ensureCallOutputsPresent]

theorem wellFormed_twoPasses (items : List ResponseItem) :
    WellFormed (removeOrphanOutputs (ensureCallOutputsPresent items)) where
  answered item hitem call hcall := by
    obtain ⟨hin, -⟩ := mem_twoPasses.mp hitem
    have hsource : item ∈ items := by
      rcases mem_ensureCallOutputsPresent.mp hin with hold | ⟨other, -, -, rfl⟩
      · exact hold
      · simp at hcall
    cases hanswered : isAnswered items call with
    | true =>
        obtain ⟨output, houtput, heq⟩ := isAnswered_iff.mp hanswered
        refine ⟨output, mem_twoPasses.mpr ⟨mem_ensureCallOutputsPresent.mpr (.inl houtput), ?_⟩,
          heq⟩
        rw [Bool.eq_false_iff, Ne, isOrphanOutput_iff]
        rintro ⟨other, hrequired, hnone⟩
        rw [answeredCall_of_required hrequired, Option.some_inj] at heq
        rw [heq, hasMatch_iff.mpr ⟨item, hsource, hcall⟩] at hnone
        cases hnone
    | false =>
        have hmissing : missingOutput items item = some (syntheticOutput call) :=
          missingOutput_eq_some.mpr ⟨call, hcall, hanswered, rfl⟩
        refine ⟨syntheticOutput call, mem_twoPasses.mpr ⟨?_, ?_⟩, by simp⟩
        · exact mem_ensureCallOutputsPresent.mpr
            (.inr ⟨call, ⟨item, hsource, hcall⟩, hanswered, rfl⟩)
        · exact isOrphanOutput_missingOutput hsource hmissing
  requested output houtput call hcall := by
    obtain ⟨-, hkept⟩ := mem_twoPasses.mp houtput
    have hmatch : hasMatch items call = true := by
      by_contra hnone
      rw [Bool.not_eq_true] at hnone
      rw [isOrphanOutput_iff.mpr ⟨call, hcall, hnone⟩] at hkept
      cases hkept
    obtain ⟨item, hitem, hrequested⟩ := hasMatch_iff.mp hmatch
    exact ⟨item, mem_twoPasses.mpr ⟨mem_ensureCallOutputsPresent.mpr (.inl hitem),
      isOrphanOutput_of_requestedCall hrequested⟩, hrequested⟩

/-- A well-formed list has nothing to insert and nothing to remove. -/
theorem WellFormed.twoPasses_eq (h : WellFormed items) :
    removeOrphanOutputs (ensureCallOutputsPresent items) = items := by
  have hmissing : ∀ item ∈ items, missingOutput items item = none := by
    intro item hitem
    cases hout : missingOutput items item with
    | none => rfl
    | some output =>
        obtain ⟨call, hcall, hopen, -⟩ := missingOutput_eq_some.mp hout
        rw [isAnswered_iff.mpr (h.answered item hitem call hcall)] at hopen
        cases hopen
  have horphan : ∀ item ∈ items, isOrphanOutput items item = false := by
    intro item hitem
    rw [Bool.eq_false_iff, Ne, isOrphanOutput_iff]
    rintro ⟨call, hrequired, hnone⟩
    rw [hasMatch_iff.mpr (h.requested item hitem call hrequired)] at hnone
    cases hnone
  rw [removeOrphanOutputs_ensureCallOutputsPresent,
    List.filter_eq_self.mpr (by simpa using horphan)]
  calc items.flatMap (withOutput items)
      = items.flatMap fun item => [item] := List.flatMap_congr fun item hitem => by
        simp [withOutput, hmissing item hitem]
    _ = items := by simp

end Passes

/-! ## The passes over images -/

/-- What the last two passes do to an item. -/
def cleanImages (inputModalities : List InputModality) (item : ResponseItem) : ResponseItem :=
  replaceRemoteImageWithError (if .image ∈ inputModalities then item else stripImages item)

theorem normalizeHistory_items (inputModalities : List InputModality) (m : ContextManager) :
    (m.normalizeHistory inputModalities).items =
      (removeOrphanOutputs (ensureCallOutputsPresent m.items)).map
        (cleanImages inputModalities) := by
  simp only [ContextManager.normalizeHistory, replaceRemoteImagesWithError,
    stripImagesWhenUnsupported]
  split_ifs with himage
  · exact List.map_congr_left fun item _ => by rw [cleanImages, if_pos himage]
  · rw [List.map_map]
    exact List.map_congr_left fun item _ => by rw [cleanImages, if_neg himage]; rfl

section Images

variable {p q : Text → Bool} {placeholder other : Text}

/-- Once an image is replaced, a pass that selects no more images changes nothing. -/
theorem replaceContentImages_absorb (h : ∀ imageUrl, p imageUrl = true → q imageUrl = true)
    (content : ContentItem) :
    replaceContentImages p placeholder (replaceContentImages q other content) =
      replaceContentImages q other content := by
  cases content with
  | inputImage imageUrl =>
      by_cases hq : q imageUrl
      · simp [replaceContentImages, hq]
      · have hp : ¬p imageUrl := fun hp => hq (h imageUrl hp)
        simp [replaceContentImages, hq, hp]
  | _ => rfl

theorem replaceOutputImages_absorb (h : ∀ imageUrl, p imageUrl = true → q imageUrl = true)
    (content : FunctionCallOutputContentItem) :
    replaceOutputImages p placeholder (replaceOutputImages q other content) =
      replaceOutputImages q other content := by
  cases content with
  | inputImage imageUrl =>
      by_cases hq : q imageUrl
      · simp [replaceOutputImages, hq]
      · have hp : ¬p imageUrl := fun hp => hq (h imageUrl hp)
        simp [replaceOutputImages, hq, hp]
  | _ => rfl

theorem mapContentItems_absorb
    {f g : FunctionCallOutputContentItem → FunctionCallOutputContentItem}
    (h : ∀ content, f (g content) = g content) (output : FunctionCallOutputPayload) :
    (output.mapContentItems g).mapContentItems f = output.mapContentItems g := by
  rcases output with ⟨_ | items, success⟩
  · rfl
  · simp [FunctionCallOutputPayload.mapContentItems, h]

theorem replaceImages_absorb (h : ∀ imageUrl, p imageUrl = true → q imageUrl = true)
    (item : ResponseItem) :
    replaceImages p placeholder (replaceImages q other item) = replaceImages q other item := by
  cases item with
  | message id role content => simp [replaceImages, replaceContentImages_absorb h]
  | functionCallOutput callId output =>
      simp [replaceImages, mapContentItems_absorb (replaceOutputImages_absorb h)]
  | customToolCallOutput callId name output =>
      simp [replaceImages, mapContentItems_absorb (replaceOutputImages_absorb h)]
  | _ => rfl

theorem replaceImages_stripImages (item : ResponseItem) :
    replaceImages p placeholder (stripImages item) = stripImages item := by
  cases item with
  | imageGenerationCall id status result => rfl
  | _ =>
      simp only [stripImages]
      exact replaceImages_absorb (fun _ _ => rfl) _

theorem stripImages_idem (item : ResponseItem) :
    stripImages (stripImages item) = stripImages item := by
  cases item with
  | message id role content =>
      exact replaceImages_stripImages (p := fun _ => true) (.message id role content)
  | functionCallOutput callId output =>
      exact replaceImages_stripImages (p := fun _ => true) (.functionCallOutput callId output)
  | customToolCallOutput callId name output =>
      exact replaceImages_stripImages (p := fun _ => true)
        (.customToolCallOutput callId name output)
  | _ => rfl

theorem cleanImages_idem (inputModalities : List InputModality) (item : ResponseItem) :
    cleanImages inputModalities (cleanImages inputModalities item) =
      cleanImages inputModalities item := by
  unfold cleanImages replaceRemoteImageWithError
  split_ifs with himage
  · exact replaceImages_absorb (fun _ hp => hp) item
  · simp only [replaceImages_stripImages, stripImages_idem]

end Images

section Cleaned

variable (inputModalities : List InputModality) (item : ResponseItem) (call : RequiredCall)

@[simp] theorem requestedCall_cleanImages :
    requestedCall (cleanImages inputModalities item) = requestedCall item := by
  unfold cleanImages
  split_ifs <;> cases item <;> rfl

@[simp] theorem answeredCall_cleanImages :
    answeredCall (cleanImages inputModalities item) = answeredCall item := by
  unfold cleanImages
  split_ifs <;> cases item <;> rfl

@[simp] theorem requiredCallForOutput_cleanImages :
    requiredCallForOutput (cleanImages inputModalities item) = requiredCallForOutput item := by
  unfold cleanImages
  split_ifs <;> cases item <;> rfl

/-- What is inserted has no images. -/
@[simp] theorem cleanImages_syntheticOutput :
    cleanImages inputModalities (syntheticOutput call) = syntheticOutput call := by
  unfold cleanImages
  split_ifs <;> cases call <;> rfl

end Cleaned

/-! ## The whole pass -/

section Normalized

variable {items : List ResponseItem} (inputModalities : List InputModality)

theorem WellFormed.map_cleanImages (h : WellFormed items) :
    WellFormed (items.map (cleanImages inputModalities)) where
  answered item hitem call hcall := by
    obtain ⟨source, hsource, rfl⟩ := List.mem_map.mp hitem
    rw [requestedCall_cleanImages] at hcall
    obtain ⟨output, houtput, heq⟩ := h.answered source hsource call hcall
    exact ⟨_, List.mem_map_of_mem houtput, by rw [answeredCall_cleanImages, heq]⟩
  requested output houtput call hcall := by
    obtain ⟨source, hsource, rfl⟩ := List.mem_map.mp houtput
    rw [requiredCallForOutput_cleanImages] at hcall
    obtain ⟨item, hitem, heq⟩ := h.requested source hsource call hcall
    exact ⟨_, List.mem_map_of_mem hitem, by rw [requestedCall_cleanImages, heq]⟩

theorem wellFormed_normalizeHistory (m : ContextManager) :
    WellFormed (m.normalizeHistory inputModalities).items := by
  rw [normalizeHistory_items]
  exact (wellFormed_twoPasses m.items).map_cleanImages inputModalities

theorem normalizeHistory_idem (m : ContextManager) :
    (m.normalizeHistory inputModalities).normalizeHistory inputModalities =
      m.normalizeHistory inputModalities := by
  have hitems : ((m.normalizeHistory inputModalities).normalizeHistory inputModalities).items =
      (m.normalizeHistory inputModalities).items := by
    rw [normalizeHistory_items, (wellFormed_normalizeHistory inputModalities m).twoPasses_eq,
      normalizeHistory_items, List.map_map]
    exact List.map_congr_left fun item _ => cleanImages_idem inputModalities item
  exact congrArg (fun items => { m with items }) hitems

/-- The items that are not orphan outputs, in their order, each with the output it is missing. -/
theorem normalizeHistory_items_eq (m : ContextManager) :
    (m.normalizeHistory inputModalities).items =
      (m.items.filter fun item => !isOrphanOutput m.items item).flatMap fun item =>
        cleanImages inputModalities item :: (missingOutput m.items item).toList := by
  rw [normalizeHistory_items, removeOrphanOutputs_ensureCallOutputsPresent, List.map_flatMap]
  refine List.flatMap_congr fun item _ => ?_
  cases hmissing : missingOutput m.items item with
  | none => simp [withOutput, hmissing]
  | some output =>
      obtain ⟨call, -, -, rfl⟩ := missingOutput_eq_some.mp hmissing
      simp [withOutput, hmissing]

/-- The calls that carry an id have outputs, the client outputs have calls, and a second pass
finds nothing to do. -/
theorem normalizeHistory_spec (m : ContextManager) :
    (∀ item ∈ (m.normalizeHistory inputModalities).items, ∀ call, requestedCall item = some call →
      ∃ output ∈ (m.normalizeHistory inputModalities).items, answeredCall output = some call) ∧
    (∀ output ∈ (m.normalizeHistory inputModalities).items, ∀ call,
      requiredCallForOutput output = some call →
        ∃ item ∈ (m.normalizeHistory inputModalities).items, requestedCall item = some call) ∧
    (m.normalizeHistory inputModalities).normalizeHistory inputModalities =
      m.normalizeHistory inputModalities ∧
    (m.normalizeHistory inputModalities).items =
      (m.items.filter fun item => !isOrphanOutput m.items item).flatMap fun item =>
        cleanImages inputModalities item :: (missingOutput m.items item).toList := by
  have hformed := wellFormed_normalizeHistory inputModalities m
  exact ⟨hformed.answered, hformed.requested, normalizeHistory_idem inputModalities m,
    normalizeHistory_items_eq inputModalities m⟩

/-- A shell call without an id gets no output, and a message with an image is not kept as it is. -/
theorem normalizeHistory_idless :
    let picture : ResponseItem := .message none userRole [.inputImage "data:image/png".toList]
    let m : ContextManager := ⟨[.localShellCall none none, picture], 0, none⟩
    .localShellCall none none ∈ (m.normalizeHistory [.text]).items ∧
      (∀ item ∈ (m.normalizeHistory [.text]).items, answeredCall item = none) ∧
        picture ∉ (m.normalizeHistory [.text]).items := by
  decide

end Normalized

end Codewith.Session
