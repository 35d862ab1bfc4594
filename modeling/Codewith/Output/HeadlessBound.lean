import Codewith.Output.FunctionOutput

/-!
# Bounding the tool outputs of a headless turn

From the newest to the oldest, the tool outputs of a history share a budget of tokens.  An output
over its part is truncated to it, or replaced by a note when nothing is left.  A truncated output
is over the same budget again, so bounding the history once more gives every output the same
budget, and truncates again what was truncated before.
-/

namespace Codewith.Output

open Lib Lib.Text

def headlessToolOutputTotalTokens : Nat := 24000

def headlessToolOutputItemTokens : Nat := 4000

def headlessToolOutputOmitted : Text := "[historical tool output omitted]".toList

def u64Max : Nat := 2 ^ 64 - 1

structure ContextManager (ι : Type) where
  /-- From the oldest to the newest. -/
  items : List (ResponseItem ι)
  historyVersion : Nat

/-- The bounded output, and whether it is another one. -/
def boundHeadlessToolOutputPayload (output : FunctionCallOutputPayload) (tokenBudget : Nat) :
    FunctionCallOutputPayload × Bool :=
  let bounded :=
    if tokenBudget = 0 then ⟨.text headlessToolOutputOmitted, output.success⟩
    else truncateFunctionOutputPayload output (.tokens tokenBudget)
  if output = bounded then (output, false) else (bounded, true)

section

variable {ι : Type}

def boundHeadlessToolOutput (item : ResponseItem ι) (tokenBudget : Nat) : ResponseItem ι × Bool :=
  match item with
  | .functionCallOutput callId output =>
      let bounded := boundHeadlessToolOutputPayload output tokenBudget
      (.functionCallOutput callId bounded.1, bounded.2)
  | .customToolCallOutput callId name output =>
      let bounded := boundHeadlessToolOutputPayload output tokenBudget
      (.customToolCallOutput callId name bounded.1, bounded.2)
  | .other item => (.other item, false)

variable (originalImageBytes : Text → Option Nat)

/-- The walk over the items, newest first, with the tokens that are left. -/
def boundFromNewest : Nat → List (ResponseItem ι) → List (ResponseItem ι) × Bool
  | _, [] => ([], false)
  | remainingTokens, item :: older =>
      match item.headlessToolOutputTokenCount originalImageBytes with
      | none =>
          let rest := boundFromNewest remainingTokens older
          (item :: rest.1, rest.2)
      | some itemTokens =>
          let itemBudget := min remainingTokens headlessToolOutputItemTokens
          if itemBudget < itemTokens then
            let bounded := boundHeadlessToolOutput item itemBudget
            let rest := boundFromNewest (remainingTokens - itemBudget) older
            (bounded.1 :: rest.1, bounded.2 || rest.2)
          else
            let rest := boundFromNewest (remainingTokens - itemTokens) older
            (item :: rest.1, rest.2)

def ContextManager.boundHeadlessTurnToolOutputs (m : ContextManager ι) : ContextManager ι × Bool :=
  let bounded := boundFromNewest originalImageBytes headlessToolOutputTotalTokens m.items.reverse
  ({ items := bounded.1.reverse
     historyVersion := if bounded.2 then min (m.historyVersion + 1) u64Max else m.historyVersion },
    bounded.2)

/-! ### Outputs over their budget -/

/-- The outputs over their budget, newest first, each with its budget. -/
def overBudgetFromNewest :
    Nat → List (ResponseItem ι) → List (FunctionCallOutputPayload × Nat)
  | _, [] => []
  | remainingTokens, item :: older =>
      match item.output with
      | none => overBudgetFromNewest remainingTokens older
      | some output =>
          let itemTokens := item.estimateItemTokenCount originalImageBytes
          let itemBudget := min remainingTokens headlessToolOutputItemTokens
          if itemBudget < itemTokens then
            (output, itemBudget) :: overBudgetFromNewest (remainingTokens - itemBudget) older
          else overBudgetFromNewest (remainingTokens - itemTokens) older

def ContextManager.overBudget (m : ContextManager ι) : List (FunctionCallOutputPayload × Nat) :=
  overBudgetFromNewest originalImageBytes headlessToolOutputTotalTokens m.items.reverse

end

def bounded (visit : FunctionCallOutputPayload × Nat) : FunctionCallOutputPayload :=
  (boundHeadlessToolOutputPayload visit.1 visit.2).1

/-- Bounded to the same budget again, the bounded output stays as it is. -/
def Settles (visit : FunctionCallOutputPayload × Nat) : Prop :=
  bounded (bounded visit, visit.2) = bounded visit

theorem boundHeadlessToolOutputPayload_eq (output : FunctionCallOutputPayload)
    (tokenBudget : Nat) : boundHeadlessToolOutputPayload output tokenBudget =
      (bounded (output, tokenBudget), decide (bounded (output, tokenBudget) ≠ output)) := by
  unfold bounded boundHeadlessToolOutputPayload
  dsimp only
  generalize (if tokenBudget = 0 then
    (⟨.text headlessToolOutputOmitted, output.success⟩ : FunctionCallOutputPayload)
    else truncateFunctionOutputPayload output (.tokens tokenBudget)) = result
  by_cases hsame : output = result
  · rw [if_pos hsame]
    simp
  · rw [if_neg hsame]
    simp [Ne.symm hsame]

theorem bounded_eq (output : FunctionCallOutputPayload) (tokenBudget : Nat) :
    bounded (output, tokenBudget) =
      if tokenBudget = 0 then ⟨.text headlessToolOutputOmitted, output.success⟩
      else truncateFunctionOutputPayload output (.tokens tokenBudget) := by
  unfold bounded boundHeadlessToolOutputPayload
  dsimp only
  generalize (if tokenBudget = 0 then
    (⟨.text headlessToolOutputOmitted, output.success⟩ : FunctionCallOutputPayload)
    else truncateFunctionOutputPayload output (.tokens tokenBudget)) = result
  by_cases hsame : output = result
  · rw [if_pos hsame]
    exact hsame
  · rw [if_neg hsame]

/-- The note settles, and so does what fits. -/
theorem settles_of_zero (output : FunctionCallOutputPayload) : Settles (output, 0) := by
  simp only [Settles, bounded_eq, if_true]

theorem settles_of_bounded_eq {visit : FunctionCallOutputPayload × Nat}
    (h : bounded visit = visit.1) : Settles visit := by
  rw [Settles, h]
  exact h

section

variable {ι : Type} {originalImageBytes : Text → Option Nat} {item : ResponseItem ι}
  {output : FunctionCallOutputPayload}

theorem boundHeadlessToolOutput_eq (h : item.output = some output) (tokenBudget : Nat) :
    boundHeadlessToolOutput item tokenBudget = (item.withOutput (bounded (output, tokenBudget)),
      decide (bounded (output, tokenBudget) ≠ output)) := by
  cases item with
  | functionCallOutput callId output =>
      cases h
      rw [boundHeadlessToolOutput, boundHeadlessToolOutputPayload_eq, ResponseItem.withOutput]
  | customToolCallOutput callId name output =>
      cases h
      rw [boundHeadlessToolOutput, boundHeadlessToolOutputPayload_eq, ResponseItem.withOutput]
  | other item => cases h

theorem output_withOutput (h : item.output = some output) (payload : FunctionCallOutputPayload) :
    (item.withOutput payload).output = some payload := by
  cases item with
  | functionCallOutput callId output => rfl
  | customToolCallOutput callId name output => rfl
  | other item => cases h

@[simp] theorem withOutput_withOutput (payload payload' : FunctionCallOutputPayload) :
    (item.withOutput payload).withOutput payload' = item.withOutput payload' := by
  cases item <;> rfl

theorem withOutput_self (h : item.output = some output) : item.withOutput output = item := by
  cases item with
  | functionCallOutput callId output =>
      cases h
      rfl
  | customToolCallOutput callId name output =>
      cases h
      rfl
  | other item => cases h

/-- An output over its budget is over it when it is bounded. -/
theorem lt_tokens_bounded (h : item.output = some output) {tokenBudget : Nat}
    (hbudget : tokenBudget ≤ 4000)
    (hover : tokenBudget < item.estimateItemTokenCount originalImageBytes) :
    tokenBudget < (item.withOutput (bounded (output, tokenBudget))).estimateItemTokenCount
      originalImageBytes := by
  by_cases hsame : bounded (output, tokenBudget) = output
  · rw [hsame, withOutput_self h]
    exact hover
  · refine lt_estimateItemTokenCount originalImageBytes (output_withOutput h _) ?_
    rw [bounded_eq] at hsame ⊢
    by_cases hzero : tokenBudget = 0
    · subst hzero
      rw [if_pos rfl, FunctionCallOutputBody.textBytes]
      omega
    · rw [if_neg hzero] at hsame ⊢
      exact lt_textBytes_truncateFunctionOutputPayload hbudget hsame

/-! ### The second walk -/

theorem headlessToolOutputTokenCount_eq :
    item.headlessToolOutputTokenCount originalImageBytes =
      item.output.map fun _ => item.estimateItemTokenCount originalImageBytes := rfl

variable {older : List (ResponseItem ι)} {remaining : Nat}

theorem boundFromNewest_other (h : item.output = none) :
    boundFromNewest originalImageBytes remaining (item :: older) =
      (item :: (boundFromNewest originalImageBytes remaining older).1,
        (boundFromNewest originalImageBytes remaining older).2) ∧
    overBudgetFromNewest originalImageBytes remaining (item :: older) =
      overBudgetFromNewest originalImageBytes remaining older := by
  rw [boundFromNewest, overBudgetFromNewest, headlessToolOutputTokenCount_eq, h]
  exact ⟨rfl, rfl⟩

/-- An output within its budget uses it up by its own tokens. -/
theorem boundFromNewest_within (h : item.output = some output)
    (hwithin : item.estimateItemTokenCount originalImageBytes ≤
      min remaining headlessToolOutputItemTokens) :
    let rest := remaining - item.estimateItemTokenCount originalImageBytes
    boundFromNewest originalImageBytes remaining (item :: older) =
      (item :: (boundFromNewest originalImageBytes rest older).1,
        (boundFromNewest originalImageBytes rest older).2) ∧
    overBudgetFromNewest originalImageBytes remaining (item :: older) =
      overBudgetFromNewest originalImageBytes rest older := by
  rw [boundFromNewest, overBudgetFromNewest, headlessToolOutputTokenCount_eq, h]
  simp only [Option.map_some, if_neg (Nat.not_lt.mpr hwithin), and_self]

/-- An output over its budget uses it up, and is bounded to it. -/
theorem boundFromNewest_over (h : item.output = some output)
    (hover : min remaining headlessToolOutputItemTokens <
      item.estimateItemTokenCount originalImageBytes) :
    let itemBudget := min remaining headlessToolOutputItemTokens
    boundFromNewest originalImageBytes remaining (item :: older) =
      (item.withOutput (bounded (output, itemBudget)) ::
          (boundFromNewest originalImageBytes (remaining - itemBudget) older).1,
        decide (bounded (output, itemBudget) ≠ output) ||
          (boundFromNewest originalImageBytes (remaining - itemBudget) older).2) ∧
    overBudgetFromNewest originalImageBytes remaining (item :: older) =
      (output, itemBudget) ::
        overBudgetFromNewest originalImageBytes (remaining - itemBudget) older := by
  rw [boundFromNewest, overBudgetFromNewest, headlessToolOutputTokenCount_eq, h]
  simp only [Option.map_some, if_pos hover, boundHeadlessToolOutput_eq h, and_self]

theorem cons_pair_eq_iff {α : Type} {a : α} {l : List α} {rest : List α × Bool} :
    (a :: rest.1, rest.2) = (a :: l, false) ↔ rest = (l, false) := by
  obtain ⟨l', changed⟩ := rest
  simp

/-- Bounding a bounded output again keeps the item when the output settles, and marks a change
otherwise. -/
theorem withOutput_bounded_eq_iff {tokenBudget : Nat} {l : List (ResponseItem ι)}
    {rest : List (ResponseItem ι) × Bool} :
    (item.withOutput (bounded (bounded (output, tokenBudget), tokenBudget)) :: rest.1,
        decide (bounded (bounded (output, tokenBudget), tokenBudget) ≠
          bounded (output, tokenBudget)) || rest.2) =
      (item.withOutput (bounded (output, tokenBudget)) :: l, false) ↔
    Settles (output, tokenBudget) ∧ rest = (l, false) := by
  constructor
  · intro heq
    obtain ⟨hitems, hchanged⟩ := Prod.mk.inj heq
    rw [Bool.or_eq_false_iff, decide_eq_false_iff_not, not_not] at hchanged
    obtain ⟨hsettles, hrest⟩ := hchanged
    exact ⟨hsettles, Prod.ext (List.cons.inj hitems).2 hrest⟩
  · rintro ⟨hsettles, rfl⟩
    rw [Settles] at hsettles
    dsimp only at hsettles
    rw [hsettles]
    simp

variable (originalImageBytes) in
/-- The second walk gives the same budgets, and changes what does not settle. -/
theorem boundFromNewest_twice (items : List (ResponseItem ι)) (remaining : Nat) :
    let first := boundFromNewest originalImageBytes remaining items
    overBudgetFromNewest originalImageBytes remaining first.1 =
        (overBudgetFromNewest originalImageBytes remaining items).map
          (fun visit => (bounded visit, visit.2)) ∧
      (boundFromNewest originalImageBytes remaining first.1 = (first.1, false) ↔
        ∀ visit ∈ overBudgetFromNewest originalImageBytes remaining items, Settles visit) := by
  induction items generalizing remaining with
  | nil => simp [boundFromNewest, overBudgetFromNewest]
  | cons item older ih =>
      dsimp only
      cases houtput : item.output with
      | none =>
          obtain ⟨hbudgets, hsettles⟩ := ih remaining
          obtain ⟨hbound, hover⟩ := @boundFromNewest_other ι originalImageBytes item older
            remaining houtput
          obtain ⟨hbound', hover'⟩ := @boundFromNewest_other ι originalImageBytes item
            (boundFromNewest originalImageBytes remaining older).1 remaining houtput
          rw [hbound, hover, hbound', hover', cons_pair_eq_iff]
          exact ⟨hbudgets, hsettles⟩
      | some output =>
          by_cases hover : min remaining headlessToolOutputItemTokens <
              item.estimateItemTokenCount originalImageBytes
          · set itemBudget := min remaining headlessToolOutputItemTokens with hbudget
            obtain ⟨hbudgets, hsettles⟩ := ih (remaining - itemBudget)
            have hover' := @lt_tokens_bounded ι originalImageBytes item output houtput itemBudget
              (Nat.min_le_right _ _) hover
            obtain ⟨hfirst, hvisits⟩ := @boundFromNewest_over ι originalImageBytes item output
              older remaining houtput hover
            obtain ⟨hsecond, hvisits'⟩ := @boundFromNewest_over ι originalImageBytes
              (item.withOutput (bounded (output, itemBudget))) _
              (boundFromNewest originalImageBytes (remaining - itemBudget) older).1 remaining
              (output_withOutput houtput _) hover'
            rw [← hbudget] at hfirst hvisits hsecond hvisits'
            rw [hfirst, hvisits, hsecond, hvisits', hbudgets, List.map_cons, withOutput_withOutput,
              withOutput_bounded_eq_iff, hsettles, List.forall_mem_cons]
            exact ⟨rfl, Iff.rfl⟩
          · have hwithin := Nat.not_lt.mp hover
            obtain ⟨hbudgets, hsettles⟩ :=
              ih (remaining - item.estimateItemTokenCount originalImageBytes)
            obtain ⟨hfirst, hvisits⟩ := @boundFromNewest_within ι originalImageBytes item output
              older remaining houtput hwithin
            obtain ⟨hsecond, hvisits'⟩ := @boundFromNewest_within ι originalImageBytes item output
              (boundFromNewest originalImageBytes
                (remaining - item.estimateItemTokenCount originalImageBytes) older).1
              remaining houtput hwithin
            rw [hfirst, hvisits, hsecond, hvisits', cons_pair_eq_iff]
            exact ⟨hbudgets, hsettles⟩

theorem boundHeadlessTurnToolOutputs_eq_iff {m : ContextManager ι} :
    m.boundHeadlessTurnToolOutputs originalImageBytes = (m, false) ↔
      boundFromNewest originalImageBytes headlessToolOutputTotalTokens m.items.reverse =
        (m.items.reverse, false) := by
  rw [ContextManager.boundHeadlessTurnToolOutputs]
  constructor
  · intro heq
    obtain ⟨hmanager, hchanged⟩ := Prod.mk.inj heq
    have hitems := congrArg ContextManager.items hmanager
    exact Prod.ext (List.reverse_eq_iff.mp hitems) hchanged
  · intro heq
    rw [heq, List.reverse_reverse]
    rfl

end

/-- A second call finds the same outputs over their budgets, which are those of the first one.  It
changes nothing, returns `false` and leaves the version as it is exactly when each of these
settles, as the omitted outputs do and those that were not changed. -/
theorem boundHeadlessTurnToolOutputs_twice {ι : Type} (originalImageBytes : Text → Option Nat)
    (m : ContextManager ι) :
    let first := m.boundHeadlessTurnToolOutputs originalImageBytes
    first.1.overBudget originalImageBytes =
        (m.overBudget originalImageBytes).map (fun visit => (bounded visit, visit.2)) ∧
      (first.1.boundHeadlessTurnToolOutputs originalImageBytes = (first.1, false) ↔
        ∀ visit ∈ m.overBudget originalImageBytes, Settles visit) ∧
      ∀ visit ∈ m.overBudget originalImageBytes,
        visit.2 = 0 ∨ bounded visit = visit.1 → Settles visit := by
  obtain ⟨hbudgets, hsettles⟩ := boundFromNewest_twice originalImageBytes m.items.reverse
    headlessToolOutputTotalTokens
  refine ⟨?_, ?_, ?_⟩
  · simpa only [ContextManager.overBudget, ContextManager.boundHeadlessTurnToolOutputs,
      List.reverse_reverse] using hbudgets
  · rw [ContextManager.overBudget, ← hsettles, boundHeadlessTurnToolOutputs_eq_iff]
    simp only [ContextManager.boundHeadlessTurnToolOutputs, List.reverse_reverse]
  · rintro ⟨output, tokenBudget⟩ - (hzero | hsame)
    · dsimp only at hzero
      subst hzero
      exact settles_of_zero output
    · exact settles_of_bounded_eq hsame

/-! ### Two texts left out -/

def longText : Text := List.replicate 16000 'a'

theorem byteSize_longText : byteSize longText = 16000 := by
  have hsize : 'a'.utf8Size = 1 := by decide
  rw [longText, byteSize, List.map_replicate, List.sum_replicate, hsize, smul_eq_mul, Nat.mul_one]

/-- A text that uses up the budget of an output, before other texts. -/
def itemsWith (rest : List FunctionCallOutputContentItem) : FunctionCallOutputPayload :=
  ⟨.contentItems (.inputText longText :: rest), none⟩

/-- The rest is left out, and counted. -/
theorem bounded_itemsWith (rest : List FunctionCallOutputContentItem) {omitted : Nat}
    (h : keepItems (.tokens 4000) 0 rest = ([], omitted + 1)) :
    bounded (itemsWith rest, 4000) = itemsWith [.inputText (omittedText (omitted + 1))] := by
  have hcost : TruncationPolicy.cost longText (.tokens 4000) = 4000 := by
    rw [TruncationPolicy.cost, approxTokenCount, byteSize_longText]
    rfl
  have hkeep : keepItems (.tokens 4000) 4000 (.inputText longText :: rest) =
      ([.inputText longText], omitted + 1) := by
    rw [keepItems, hcost, if_neg (by decide), if_pos le_rfl, Nat.sub_self, h]
  rw [bounded_eq, if_neg (by decide), truncateFunctionOutputPayload, itemsWith]
  simp [truncateFunctionOutputItemsWithPolicy, TruncationPolicy.budget, hkeep, itemsWith]

def twoLeftOut : ContextManager Unit where
  items := [.functionCallOutput [] (itemsWith [.inputText ['b'], .inputText ['c']])]
  historyVersion := 0

/-- The note of the first call is left out by the second, which counts one text. -/
theorem twoLeftOut_bounded_again :
    let first := twoLeftOut.boundHeadlessTurnToolOutputs fun _ => none
    first.1.boundHeadlessTurnToolOutputs (fun _ => none) ≠ (first.1, false) := by
  intro first hsecond
  rw [boundHeadlessTurnToolOutputs_eq_iff] at hsecond
  simp only [first, ContextManager.boundHeadlessTurnToolOutputs, List.reverse_reverse] at hsecond
  have hsettles := (boundFromNewest_twice (fun _ => none) twoLeftOut.items.reverse
    headlessToolOutputTotalTokens).2.mp hsecond
  have hover : 4000 < (ResponseItem.functionCallOutput [] (itemsWith [.inputText ['b'],
      .inputText ['c']]) : ResponseItem Unit).estimateItemTokenCount fun _ => none := by
    refine lt_estimateItemTokenCount _ rfl ?_
    rw [itemsWith, textBytes_cons, FunctionCallOutputContentItem.textBytes, byteSize_longText]
    omega
  have hvisits := (@boundFromNewest_over Unit (fun _ => none) _ _ [] headlessToolOutputTotalTokens
    rfl hover).2
  have hfirst := hsettles (itemsWith [.inputText ['b'], .inputText ['c']], 4000) (by
    rw [twoLeftOut, List.reverse_singleton, hvisits]
    exact List.mem_cons_self)
  rw [Settles, @bounded_itemsWith _ 1 (by simp [keepItems]),
    @bounded_itemsWith _ 0 (by simp [keepItems])] at hfirst
  have hnotes : omittedText 1 ≠ omittedText 2 := by decide
  simp [itemsWith, hnotes] at hfirst

end Codewith.Output
