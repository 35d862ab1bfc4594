import Codewith.Lib.JsonLength
import Codewith.Output.Truncate

/-!
# Tool outputs and what they cost

The output of a tool is a text or a list of content items.  It is truncated to a budget, which
the texts of a list share in their order, and its cost is estimated from the length of its JSON:
an inline image counts as a fixed number of bytes instead of its data, and encrypted content as a
part of its length.  How large an image in original detail is, is left to the caller.
-/

namespace Codewith.Output

open Lib Lib.Text

/-! ### Outputs -/

inductive ImageDetail
  | auto
  | low
  | high
  | original
deriving DecidableEq, Repr

inductive FunctionCallOutputContentItem
  | inputText (text : Text)
  | inputImage (imageUrl : Text) (detail : Option ImageDetail)
  | encryptedContent (encryptedContent : Text)
deriving DecidableEq, Repr

inductive FunctionCallOutputBody
  | text (content : Text)
  | contentItems (items : List FunctionCallOutputContentItem)
deriving DecidableEq, Repr

structure FunctionCallOutputPayload where
  body : FunctionCallOutputBody
  success : Option Bool
deriving DecidableEq, Repr

/-! ### Truncation -/

inductive TruncationPolicy
  | bytes (limit : Nat)
  | tokens (limit : Nat)
deriving DecidableEq, Repr

namespace TruncationPolicy

def budget : TruncationPolicy → Nat
  | bytes limit => limit
  | tokens limit => limit

def withBudget (remaining : Nat) : TruncationPolicy → TruncationPolicy
  | bytes _ => bytes remaining
  | tokens _ => tokens remaining

def cost (text : Text) : TruncationPolicy → Nat
  | bytes _ => byteSize text
  | tokens _ => approxTokenCount text

end TruncationPolicy

/-- The text is cut between characters only. -/
theorem isSome_truncateWithByteEstimate (s : Text) (maxBytes : Nat) (useTokens : Bool) :
    (truncateWithByteEstimate s maxBytes useTokens).isSome = true := by
  rcases truncateWithByteEstimate_exact s maxBytes useTokens with
    ⟨-, hkept⟩ | ⟨-, front, removed, back, -, hcut⟩
  · rw [hkept]
    rfl
  · rw [hcut]
    rfl

theorem isSome_truncateMiddleWithTokenBudget (s : Text) (maxTokens : Nat) :
    (truncateMiddleWithTokenBudget s maxTokens).isSome = true := by
  unfold truncateMiddleWithTokenBudget
  split
  · rfl
  · split
    · rfl
    · rw [Option.isSome_map, isSome_truncateWithByteEstimate]

def truncateText (content : Text) : TruncationPolicy → Text
  | .bytes limit => (truncateMiddleChars content limit).get
      (isSome_truncateWithByteEstimate content limit false)
  | .tokens limit => ((truncateMiddleWithTokenBudget content limit).get
      (isSome_truncateMiddleWithTokenBudget content limit)).1

/-- The items that are kept within a budget, and the number of texts that are left out. -/
def keepItems (policy : TruncationPolicy) :
    Nat → List FunctionCallOutputContentItem → List FunctionCallOutputContentItem × Nat
  | _, [] => ([], 0)
  | remaining, .inputText text :: items =>
      if remaining = 0 then
        ((keepItems policy 0 items).1, (keepItems policy 0 items).2 + 1)
      else if policy.cost text ≤ remaining then
        let rest := keepItems policy (remaining - policy.cost text) items
        (.inputText text :: rest.1, rest.2)
      else
        let snippet := truncateText text (policy.withBudget remaining)
        let rest := keepItems policy 0 items
        if snippet = [] then (rest.1, rest.2 + 1) else (.inputText snippet :: rest.1, rest.2)
  | remaining, item :: items =>
      let rest := keepItems policy remaining items
      (item :: rest.1, rest.2)

def omittedText (omittedTextItems : Nat) : Text :=
  "[omitted ".toList ++ Nat.toDigits 10 omittedTextItems ++ " text items ...]".toList

def truncateFunctionOutputItemsWithPolicy (items : List FunctionCallOutputContentItem)
    (policy : TruncationPolicy) : List FunctionCallOutputContentItem :=
  let kept := keepItems policy policy.budget items
  if 0 < kept.2 then kept.1 ++ [.inputText (omittedText kept.2)] else kept.1

def truncateFunctionOutputPayload (output : FunctionCallOutputPayload)
    (policy : TruncationPolicy) : FunctionCallOutputPayload where
  body := match output.body with
    | .text content => .text (truncateText content policy)
    | .contentItems items => .contentItems (truncateFunctionOutputItemsWithPolicy items policy)
  success := output.success

/-! ### The estimate -/

def ImageDetail.name : ImageDetail → Text
  | auto => "auto".toList
  | low => "low".toList
  | high => "high".toList
  | original => "original".toList

def FunctionCallOutputContentItem.jsonLength : FunctionCallOutputContentItem → Nat
  | inputText text => JsonLength.object
      [("type".toList, JsonLength.string "input_text".toList),
        ("text".toList, JsonLength.string text)]
  | inputImage imageUrl detail => JsonLength.object
      ([("type".toList, JsonLength.string "input_image".toList),
        ("image_url".toList, JsonLength.string imageUrl)] ++
        detail.toList.map fun detail => ("detail".toList, JsonLength.string detail.name))
  | encryptedContent content => JsonLength.object
      [("type".toList, JsonLength.string "encrypted_content".toList),
        ("encrypted_content".toList, JsonLength.string content)]

def FunctionCallOutputBody.jsonLength : FunctionCallOutputBody → Nat
  | text content => JsonLength.string content
  | contentItems items => JsonLength.array (items.map (·.jsonLength))

def asciiLower (s : Text) : Text := s.map Char.toLower

/-- The data of an inline image. -/
def parseBase64ImageDataUrl (url : Text) : Option Text :=
  if asciiLower (url.take 5) ≠ "data:".toList then none
  else match url.dropWhile (· ≠ ',') with
    | [] => none
    | _ :: payload =>
        let metadataParts := Text.split ';' ((url.takeWhile (· ≠ ',')).drop 5)
        let mimeType := metadataParts.headD []
        let hasBase64Marker := metadataParts.tail.any (asciiLower · = "base64".toList)
        if asciiLower (mimeType.take 6) ≠ "image/".toList then none
        else if hasBase64Marker then some payload
        else none

def resizedImageBytesEstimate : Nat := 7373

section

variable (originalImageBytes : Text → Option Nat)

/-- The bytes of inline images, and what they count as. -/
def FunctionCallOutputContentItem.imageAdjustment : FunctionCallOutputContentItem → Nat × Nat
  | inputImage imageUrl detail =>
      match parseBase64ImageDataUrl imageUrl with
      | some payload => (byteSize payload,
          if detail = some .original then
            (originalImageBytes imageUrl).getD resizedImageBytesEstimate
          else resizedImageBytesEstimate)
      | none => (0, 0)
  | _ => (0, 0)

def FunctionCallOutputBody.imageDataUrlEstimateAdjustment : FunctionCallOutputBody → Nat × Nat
  | text _ => (0, 0)
  | contentItems items => (items.map (·.imageAdjustment originalImageBytes)).sum

end

def estimateEncryptedFunctionOutputLength (encodedLen : Nat) : Nat := (encodedLen * 9 + 15) / 16

/-- The bytes of encrypted content, and what they count as. -/
def FunctionCallOutputContentItem.encryptedAdjustment : FunctionCallOutputContentItem → Nat × Nat
  | encryptedContent content =>
      (byteSize content, estimateEncryptedFunctionOutputLength (byteSize content))
  | _ => (0, 0)

def FunctionCallOutputBody.encryptedAdjustment : FunctionCallOutputBody → Nat × Nat
  | text _ => (0, 0)
  | contentItems items => (items.map (·.encryptedAdjustment)).sum

/-- An item of the history, as far as it is the output of a tool. -/
inductive ResponseItem (ι : Type)
  | functionCallOutput (callId : Text) (output : FunctionCallOutputPayload)
  | customToolCallOutput (callId : Text) (name : Option Text) (output : FunctionCallOutputPayload)
  | other (item : ι)
deriving DecidableEq, Repr

namespace ResponseItem

variable {ι : Type}

def output : ResponseItem ι → Option FunctionCallOutputPayload
  | functionCallOutput _ output => some output
  | customToolCallOutput _ _ output => some output
  | other _ => none

/-- The length of the JSON of an output; no other item is asked. -/
def jsonLength : ResponseItem ι → Nat
  | functionCallOutput callId output => JsonLength.object
      [("type".toList, JsonLength.string "function_call_output".toList),
        ("call_id".toList, JsonLength.string callId), ("output".toList, output.body.jsonLength)]
  | customToolCallOutput callId name output => JsonLength.object
      ([("type".toList, JsonLength.string "custom_tool_call_output".toList),
        ("call_id".toList, JsonLength.string callId)] ++
        name.toList.map (fun name => ("name".toList, JsonLength.string name)) ++
        [("output".toList, output.body.jsonLength)])
  | other _ => 0

def encryptedFunctionOutputEstimateAdjustment : ResponseItem ι → Nat × Nat
  | functionCallOutput _ output => output.body.encryptedAdjustment
  | _ => (0, 0)

variable (originalImageBytes : Text → Option Nat)

def imageDataUrlEstimateAdjustment (item : ResponseItem ι) : Nat × Nat :=
  (item.output.map (·.body.imageDataUrlEstimateAdjustment originalImageBytes)).getD (0, 0)

def estimateModelVisibleBytes (item : ResponseItem ι) : Int :=
  let raw : Int := item.jsonLength
  let image := item.imageDataUrlEstimateAdjustment originalImageBytes
  let encrypted := item.encryptedFunctionOutputEstimateAdjustment
  raw - image.1 + image.2 - encrypted.1 + encrypted.2

def approxTokensFromByteCountI64 (bytes : Int) : Nat :=
  if bytes ≤ 0 then 0 else approxTokensFromByteCount bytes.toNat

def estimateItemTokenCount (item : ResponseItem ι) : Nat :=
  approxTokensFromByteCountI64 (item.estimateModelVisibleBytes originalImageBytes)

def headlessToolOutputTokenCount (item : ResponseItem ι) : Option Nat :=
  item.output.map fun _ => item.estimateItemTokenCount originalImageBytes

/-- The item with another output. -/
def withOutput (payload : FunctionCallOutputPayload) : ResponseItem ι → ResponseItem ι
  | functionCallOutput callId _ => functionCallOutput callId payload
  | customToolCallOutput callId name _ => customToolCallOutput callId name payload
  | other item => other item

end ResponseItem

/-! ### What the texts of an output weigh -/

/-- The bytes of a text and of the JSON around it. -/
def FunctionCallOutputContentItem.textBytes : FunctionCallOutputContentItem → Nat
  | inputText text => byteSize text + 24
  | _ => 0

def FunctionCallOutputBody.textBytes : FunctionCallOutputBody → Nat
  | text content => byteSize content + 2
  | contentItems items => (items.map (·.textBytes)).sum

theorem byteSize_le_of_parseBase64ImageDataUrl {url payload : Text}
    (h : parseBase64ImageDataUrl url = some payload) : byteSize payload ≤ byteSize url := by
  unfold parseBase64ImageDataUrl at h
  split at h
  · cases h
  · split at h
    · cases h
    · rename_i comma rest hrest
      have hsuffix : rest <:+ url := by
        have hdrop := List.dropWhile_suffix (fun c => decide (c ≠ ',')) (l := url)
        rw [hrest] at hdrop
        exact (List.suffix_cons comma rest).trans hdrop
      obtain ⟨front, hfront⟩ := hsuffix
      have hsize : byteSize url = byteSize front + byteSize rest := by
        rw [← hfront, byteSize_append]
      dsimp only at h
      split at h
      · cases h
      · split at h
        · cases h
          omega
        · cases h

/-- The JSON of a content item holds its text, its image data and its encrypted content. -/
theorem textBytes_add_le_jsonLength (originalImageBytes : Text → Option Nat)
    (item : FunctionCallOutputContentItem) :
    item.textBytes + (item.imageAdjustment originalImageBytes).1 + item.encryptedAdjustment.1 ≤
      item.jsonLength := by
  cases item with
  | inputText text =>
      have hsize := JsonLength.byteSize_le_string text
      have hnames : JsonLength.string "input_text".toList = 12 ∧
          JsonLength.string "type".toList = 6 ∧ JsonLength.string "text".toList = 6 := by decide
      simp only [FunctionCallOutputContentItem.textBytes,
        FunctionCallOutputContentItem.imageAdjustment,
        FunctionCallOutputContentItem.encryptedAdjustment,
        FunctionCallOutputContentItem.jsonLength, JsonLength.object, hnames, List.map_cons,
        List.map_nil, List.sum_cons, List.sum_nil]
      omega
  | inputImage imageUrl detail =>
      have hsize := JsonLength.byteSize_le_string imageUrl
      have hpayload : (FunctionCallOutputContentItem.imageAdjustment originalImageBytes
          (.inputImage imageUrl detail)).1 ≤ byteSize imageUrl := by
        simp only [FunctionCallOutputContentItem.imageAdjustment]
        cases hparse : parseBase64ImageDataUrl imageUrl with
        | none => exact Nat.zero_le _
        | some payload => exact byteSize_le_of_parseBase64ImageDataUrl hparse
      have hvalue : JsonLength.string imageUrl ≤
          (FunctionCallOutputContentItem.inputImage imageUrl detail).jsonLength := by
        simp only [FunctionCallOutputContentItem.jsonLength, JsonLength.object, List.map_append,
          List.map_cons, List.sum_append, List.sum_cons]
        omega
      simp only [FunctionCallOutputContentItem.textBytes,
        FunctionCallOutputContentItem.encryptedAdjustment]
      omega
  | encryptedContent content =>
      have hsize := JsonLength.byteSize_le_string content
      simp only [FunctionCallOutputContentItem.textBytes,
        FunctionCallOutputContentItem.imageAdjustment,
        FunctionCallOutputContentItem.encryptedAdjustment,
        FunctionCallOutputContentItem.jsonLength, JsonLength.object, List.map_cons, List.map_nil,
        List.sum_cons, List.sum_nil]
      omega

/-- So does the JSON of a body. -/
theorem textBytes_body_add_le_jsonLength (originalImageBytes : Text → Option Nat)
    (body : FunctionCallOutputBody) :
    body.textBytes + (body.imageDataUrlEstimateAdjustment originalImageBytes).1 +
      body.encryptedAdjustment.1 ≤ body.jsonLength := by
  cases body with
  | text content => exact JsonLength.byteSize_le_string content
  | contentItems items =>
      have harray := JsonLength.sum_le_array (items.map (·.jsonLength))
      have hitems : (items.map (·.textBytes)).sum +
          (items.map fun item : FunctionCallOutputContentItem =>
            item.imageAdjustment originalImageBytes).sum.1 +
          (items.map fun item : FunctionCallOutputContentItem =>
            item.encryptedAdjustment).sum.1 ≤
            (items.map (·.jsonLength)).sum := by
        induction items with
        | nil => exact le_rfl
        | cons item items ih =>
            have hitem := textBytes_add_le_jsonLength originalImageBytes item
            have hrest := ih (JsonLength.sum_le_array _)
            simp only [List.map_cons, List.sum_cons, Prod.fst_add]
            omega
      exact hitems.trans harray

/-- The JSON of an output holds that of its body. -/
theorem jsonLength_body_le {ι : Type} {item : ResponseItem ι} {payload : FunctionCallOutputPayload}
    (h : item.output = some payload) : payload.body.jsonLength ≤ item.jsonLength := by
  cases item with
  | functionCallOutput callId output =>
      cases h
      simp only [ResponseItem.jsonLength, JsonLength.object, List.map_cons, List.sum_cons]
      omega
  | customToolCallOutput callId name output =>
      cases h
      simp only [ResponseItem.jsonLength, JsonLength.object, List.map_append, List.map_cons,
        List.sum_append, List.sum_cons]
      omega
  | other item => cases h

theorem encryptedAdjustment_le {ι : Type} {item : ResponseItem ι}
    {payload : FunctionCallOutputPayload} (h : item.output = some payload) :
    item.encryptedFunctionOutputEstimateAdjustment.1 ≤ payload.body.encryptedAdjustment.1 := by
  cases item with
  | functionCallOutput callId output =>
      cases h
      exact le_rfl
  | customToolCallOutput callId name output => exact Nat.zero_le _
  | other item => cases h

/-- The texts of an output count in full. -/
theorem textBytes_le_estimate {ι : Type} (originalImageBytes : Text → Option Nat)
    {item : ResponseItem ι} {payload : FunctionCallOutputPayload}
    (h : item.output = some payload) :
    (payload.body.textBytes : Int) ≤ item.estimateModelVisibleBytes originalImageBytes := by
  have hbody := textBytes_body_add_le_jsonLength originalImageBytes payload.body
  have hjson := jsonLength_body_le h
  have hencrypted := encryptedAdjustment_le h
  have himage : item.imageDataUrlEstimateAdjustment originalImageBytes =
      payload.body.imageDataUrlEstimateAdjustment originalImageBytes := by
    rw [ResponseItem.imageDataUrlEstimateAdjustment, h]
    rfl
  rw [ResponseItem.estimateModelVisibleBytes, himage]
  omega

theorem lt_estimateItemTokenCount {ι : Type} (originalImageBytes : Text → Option Nat)
    {item : ResponseItem ι} {payload : FunctionCallOutputPayload} {budget : Nat}
    (h : item.output = some payload) (htext : 4 * budget < payload.body.textBytes) :
    budget < item.estimateItemTokenCount originalImageBytes := by
  have hbytes := textBytes_le_estimate originalImageBytes h
  have hpositive : ¬ item.estimateModelVisibleBytes originalImageBytes ≤ 0 := by omega
  rw [ResponseItem.estimateItemTokenCount, ResponseItem.approxTokensFromByteCountI64,
    if_neg hpositive, approxTokensFromByteCount, approxBytesPerToken]
  omega

/-! ### What truncation leaves -/

theorem byteSize_formatTruncationMarker (removed : Nat) :
    24 ≤ byteSize (formatTruncationMarker true removed) := by
  have hdigits : byteSize (Nat.toDigits 10 removed) ≠ 0 := by
    rw [Ne, byteSize_eq_zero]
    exact Nat.toDigits_ne_nil
  have hopening : byteSize "…".toList = 3 := by decide
  have hclosing : byteSize " tokens truncated…".toList = 20 := by decide
  rw [formatTruncationMarker, if_pos rfl, byteSize_append, byteSize_append, hopening, hclosing]
  omega

theorem approxBytesForTokens_eq {tokens : Nat} (h : tokens ≤ 4000) :
    approxBytesForTokens tokens = 4 * tokens := by
  unfold approxBytesForTokens approxBytesPerToken usizeMax
  omega

theorem truncateText_eq_of_some {content : Text} {limit : Nat} {result : Text × Option Nat}
    (h : truncateMiddleWithTokenBudget content limit = some result) :
    truncateText content (.tokens limit) = result.1 := by
  simp only [truncateText, h, Option.get_some]

theorem truncateText_of_fits {content : Text} {limit : Nat} (hlimit : limit ≤ 4000)
    (h : byteSize content ≤ 4 * limit) : truncateText content (.tokens limit) = content := by
  by_cases hnil : content = []
  · subst hnil
    exact truncateText_eq_of_some (if_pos rfl)
  · have hsize : byteSize content ≠ 0 := fun hzero => hnil (byteSize_eq_zero.mp hzero)
    apply @truncateText_eq_of_some content limit (content, none)
    rw [truncateMiddleWithTokenBudget, if_neg hnil, if_pos]
    rw [approxBytesForTokens_eq hlimit]
    omega

/-- A text over the budget keeps its ends. -/
theorem truncateText_of_over {content : Text} {limit : Nat} (hlimit : limit ≤ 4000)
    (h : 4 * limit < byteSize content) :
    ∃ front removed back, MiddleCut content (2 * limit) (2 * limit) front removed back ∧
      truncateText content (.tokens limit) = front ++ formatTruncationMarker true
        (approxTokensFromByteCount (byteSize content - 4 * limit)) ++ back := by
  have hnil : content ≠ [] := by
    rintro rfl
    rw [byteSize_nil] at h
    omega
  rcases truncateWithByteEstimate_exact content (4 * limit) true with
    ⟨hfits, -⟩ | ⟨-, front, removed, back, hcut, hresult⟩
  · omega
  · have hhalf : 4 * limit / 2 = 2 * limit ∧ 4 * limit - 2 * limit = 2 * limit := by omega
    rw [hhalf.1, hhalf.2] at hcut
    rw [if_pos rfl] at hresult
    refine ⟨front, removed, back, hcut, ?_⟩
    have hover : truncateMiddleWithTokenBudget content limit =
        (truncateWithByteEstimate content (4 * limit) true).map fun truncated =>
          if truncated = content then (truncated, none)
          else (truncated, some (approxTokenCount content)) := by
      rw [truncateMiddleWithTokenBudget, if_neg hnil, approxBytesForTokens_eq hlimit,
        if_neg (by omega)]
    rw [hresult, Option.map_some] at hover
    rw [truncateText_eq_of_some hover]
    split <;> rfl

/-- A text over the budget is still over it when it is truncated. -/
theorem lt_byteSize_truncateText {content : Text} {limit : Nat} (hlimit : limit ≤ 4000)
    (h : 4 * limit < byteSize content) :
    4 * limit + 18 ≤ byteSize (truncateText content (.tokens limit)) := by
  obtain ⟨front, removed, back, hcut, htext⟩ := truncateText_of_over hlimit h
  obtain ⟨hfront, hback⟩ := hcut.le_byteSize (by omega) (by omega)
  have hmarker := byteSize_formatTruncationMarker
    (approxTokensFromByteCount (byteSize content - 4 * limit))
  rw [htext, byteSize_append, byteSize_append]
  omega

theorem textBytes_append (a b : List FunctionCallOutputContentItem) :
    (FunctionCallOutputBody.contentItems (a ++ b)).textBytes =
      (FunctionCallOutputBody.contentItems a).textBytes +
        (FunctionCallOutputBody.contentItems b).textBytes := by
  simp [FunctionCallOutputBody.textBytes]

theorem textBytes_cons (item : FunctionCallOutputContentItem)
    (items : List FunctionCallOutputContentItem) :
    (FunctionCallOutputBody.contentItems (item :: items)).textBytes =
      item.textBytes + (FunctionCallOutputBody.contentItems items).textBytes := by
  simp [FunctionCallOutputBody.textBytes]

/-- Items that are no texts are kept, and count for nothing. -/
theorem keepItems_other {policy : TruncationPolicy} {remaining : Nat}
    {item : FunctionCallOutputContentItem} (h : ∀ text, item ≠ .inputText text)
    (items : List FunctionCallOutputContentItem) :
    keepItems policy remaining (item :: items) =
      (item :: (keepItems policy remaining items).1, (keepItems policy remaining items).2) ∧
      item.textBytes = 0 := by
  cases item with
  | inputText text => exact absurd rfl (h text)
  | inputImage imageUrl detail => exact ⟨by rw [keepItems]; exact h, rfl⟩
  | encryptedContent content => exact ⟨by rw [keepItems]; exact h, rfl⟩

/-- Either all items are kept, or what is kept is over the budget, counting the note about the
texts that are left out. -/
theorem keepItems_cases {limit : Nat} (items : List FunctionCallOutputContentItem) {remaining : Nat}
    (hremaining : remaining ≤ 4000) :
    keepItems (.tokens limit) remaining items = (items, 0) ∨
      4 * remaining < (FunctionCallOutputBody.contentItems
          (keepItems (.tokens limit) remaining items).1).textBytes +
        if 0 < (keepItems (.tokens limit) remaining items).2 then 24 else 0 := by
  induction items generalizing remaining with
  | nil => exact Or.inl rfl
  | cons item items ih =>
      by_cases htext : ∃ text, item = .inputText text
      · obtain ⟨text, rfl⟩ := htext
        have hbytes : (FunctionCallOutputContentItem.inputText text).textBytes =
            byteSize text + 24 := rfl
        by_cases hzero : remaining = 0
        · subst hzero
          rw [keepItems, if_pos rfl]
          right
          simp
        · by_cases hfits : TruncationPolicy.cost text (.tokens limit) ≤ remaining
          · rw [keepItems, if_neg hzero, if_pos hfits]
            dsimp only
            rcases @ih (remaining - TruncationPolicy.cost text (.tokens limit)) (by omega) with
              hkept | hover
            · left
              rw [hkept]
            · right
              rw [textBytes_cons, hbytes]
              simp only [TruncationPolicy.cost, approxTokenCount, approxBytesPerToken] at hover ⊢
              omega
          · have hcost : 4 * remaining < byteSize text := by
              simp only [TruncationPolicy.cost, approxTokenCount, approxBytesPerToken] at hfits
              omega
            have hsnippet := lt_byteSize_truncateText hremaining hcost
            have hne : truncateText text (.tokens remaining) ≠ [] := by
              intro hnil
              rw [hnil, byteSize_nil] at hsnippet
              omega
            have hkeep : keepItems (.tokens limit) remaining (.inputText text :: items) =
                (.inputText (truncateText text (.tokens remaining)) ::
                  (keepItems (.tokens limit) 0 items).1,
                  (keepItems (.tokens limit) 0 items).2) := by
              rw [keepItems, if_neg hzero, if_neg hfits]
              exact if_neg hne
            right
            rw [hkeep]
            dsimp only
            rw [textBytes_cons, FunctionCallOutputContentItem.textBytes]
            omega
      · obtain ⟨hkeep, hbytes⟩ := @keepItems_other (.tokens limit) remaining item
          (fun text h => htext ⟨text, h⟩) items
        rw [hkeep]
        rcases ih hremaining with hkept | hover
        · left
          rw [hkept]
        · right
          dsimp only
          rw [textBytes_cons, hbytes]
          omega

/-- An output that truncation changes is still over the budget. -/
theorem lt_textBytes_truncateFunctionOutputPayload {output : FunctionCallOutputPayload}
    {limit : Nat} (hlimit : limit ≤ 4000)
    (h : truncateFunctionOutputPayload output (.tokens limit) ≠ output) :
    4 * limit < (truncateFunctionOutputPayload output (.tokens limit)).body.textBytes := by
  obtain ⟨body, success⟩ := output
  cases body with
  | text content =>
      by_cases hfits : byteSize content ≤ 4 * limit
      · refine absurd ?_ h
        simp only [truncateFunctionOutputPayload, truncateText_of_fits hlimit hfits]
      · have hsize := @lt_byteSize_truncateText content limit hlimit (by omega)
        simp only [truncateFunctionOutputPayload, FunctionCallOutputBody.textBytes]
        omega
  | contentItems items =>
      have hbudget : (TruncationPolicy.tokens limit).budget = limit := rfl
      rcases @keepItems_cases limit items limit hlimit with hkept | hover
      · refine absurd ?_ h
        simp [truncateFunctionOutputPayload, truncateFunctionOutputItemsWithPolicy, hbudget, hkept]
      · simp only [truncateFunctionOutputPayload, truncateFunctionOutputItemsWithPolicy, hbudget]
        split
        · rename_i hsome
          rw [if_pos hsome] at hover
          rw [textBytes_append]
          have hnote : 24 ≤ (FunctionCallOutputBody.contentItems [.inputText
              (omittedText (keepItems (.tokens limit) limit items).2)]).textBytes := by
            simp [FunctionCallOutputBody.textBytes, FunctionCallOutputContentItem.textBytes]
          omega
        · rename_i hnone
          rw [if_neg hnone] at hover
          exact hover

end Codewith.Output
