import Codewith.StreamParser.Chunking
import Codewith.StreamParser.TaggedLine

/-!
# The text of the assistant

`AssistantTextStreamParser` takes the citations out of a streamed text and, in plan mode, splits
what is left into normal text and plan blocks.  The two parsers hold text back for different
reasons, and the end of the first is pushed through the second; the text, the citations and the
segments do not depend on the chunks.
-/

namespace Codewith.StreamParser

open Lib

/-! ## Citations -/

inductive CitationTag
  | citation
  deriving DecidableEq, Repr

def citationSpecs : List (InlineTagSpec CitationTag) :=
  [⟨.citation, "<oai-mem-citation>".toList, "</oai-mem-citation>".toList⟩]

structure CitationStreamParser where
  inner : InlineHiddenTagParser CitationTag := { specs := citationSpecs }
  deriving DecidableEq, Repr

def citationChunk (chunk : StreamTextChunk (ExtractedInlineTag CitationTag)) :
    StreamTextChunk Text :=
  ⟨chunk.visibleText, chunk.extracted.map (·.content)⟩

namespace CitationStreamParser

def pushStr (parser : CitationStreamParser) (chunk : Text) :
    CitationStreamParser × StreamTextChunk Text :=
  (⟨(parser.inner.pushStr chunk).1⟩, citationChunk (parser.inner.pushStr chunk).2)

def finish (parser : CitationStreamParser) : StreamTextChunk Text :=
  citationChunk parser.inner.finish

end CitationStreamParser

/-! ## Plans -/

inductive PlanTag
  | proposedPlan
  deriving DecidableEq, Repr

inductive ProposedPlanSegment
  | normal (text : Text)
  | proposedPlanStart
  | proposedPlanDelta (text : Text)
  | proposedPlanEnd
  deriving DecidableEq, Repr

def planSpecs : List (TagSpec PlanTag) :=
  [⟨"<proposed_plan>".toList, "</proposed_plan>".toList, .proposedPlan⟩]

structure ProposedPlanParser where
  parser : TaggedLineParser PlanTag := { specs := planSpecs }
  deriving DecidableEq, Repr

def mapSegment : TaggedLineSegment PlanTag → ProposedPlanSegment
  | .normal text => .normal text
  | .tagStart .proposedPlan => .proposedPlanStart
  | .tagDelta .proposedPlan text => .proposedPlanDelta text
  | .tagEnd .proposedPlan => .proposedPlanEnd

def normalText : ProposedPlanSegment → Text
  | .normal text => text
  | _ => []

def mapSegments (segments : List (TaggedLineSegment PlanTag)) :
    StreamTextChunk ProposedPlanSegment where
  visibleText := (segments.map mapSegment).flatMap normalText
  extracted := segments.map mapSegment

namespace ProposedPlanParser

def pushStr (plan : ProposedPlanParser) (chunk : Text) :
    ProposedPlanParser × StreamTextChunk ProposedPlanSegment :=
  (⟨(plan.parser.parse chunk).1⟩, mapSegments (plan.parser.parse chunk).2)

def finish (plan : ProposedPlanParser) : StreamTextChunk ProposedPlanSegment :=
  mapSegments plan.parser.finish.2

end ProposedPlanParser

/-! ## Both -/

@[ext]
structure AssistantTextChunk where
  visibleText : Text := []
  citations : List Text := []
  planSegments : List ProposedPlanSegment := []
  deriving DecidableEq, Repr

structure AssistantTextStreamParser where
  planMode : Bool
  citations : CitationStreamParser := {}
  plan : ProposedPlanParser := {}
  deriving DecidableEq, Repr

namespace AssistantTextStreamParser

def new (planMode : Bool) : AssistantTextStreamParser := { planMode }

def parseVisibleText (parser : AssistantTextStreamParser) (visibleText : Text) :
    AssistantTextStreamParser × AssistantTextChunk :=
  if parser.planMode then
    let next := parser.plan.pushStr visibleText
    ({ parser with plan := next.1 },
      { visibleText := next.2.visibleText, planSegments := next.2.extracted })
  else (parser, { visibleText })

def pushStr (parser : AssistantTextStreamParser) (chunk : Text) :
    AssistantTextStreamParser × AssistantTextChunk :=
  let citations := parser.citations.pushStr chunk
  let next := parseVisibleText { parser with citations := citations.1 } citations.2.visibleText
  (next.1, { next.2 with citations := citations.2.extracted })

/-- Nothing of an empty end of the plan is added, which is the same as adding it. -/
def finish (parser : AssistantTextStreamParser) : AssistantTextChunk :=
  let citations := parser.citations.finish
  let next := parser.parseVisibleText citations.visibleText
  let out :=
    if parser.planMode then
      { next.2 with
        visibleText := next.2.visibleText ++ next.1.plan.finish.visibleText
        planSegments := next.2.planSegments ++ next.1.plan.finish.extracted }
    else next.2
  { out with citations := citations.extracted }

/-- What the chunks give together, and the end after them. -/
def collectChunks (parser : AssistantTextStreamParser) : List Text → AssistantTextChunk
  | [] => parser.finish
  | chunk :: chunks =>
      let next := parser.pushStr chunk
      let rest := next.1.collectChunks chunks
      { visibleText := next.2.visibleText ++ rest.visibleText
        citations := next.2.citations ++ rest.citations
        planSegments := next.2.planSegments ++ rest.planSegments }

end AssistantTextStreamParser

/-! ## Merged segments -/

/-- Two segments of text of the same kind are one. -/
def ProposedPlanSegment.join : ProposedPlanSegment → ProposedPlanSegment →
    Option ProposedPlanSegment
  | .normal text, .normal more => some (.normal (text ++ more))
  | .proposedPlanDelta text, .proposedPlanDelta more => some (.proposedPlanDelta (text ++ more))
  | _, _ => none

def joinOnto (segment : ProposedPlanSegment) : List ProposedPlanSegment → List ProposedPlanSegment
  | [] => [segment]
  | next :: rest =>
      match segment.join next with
      | some joined => joined :: rest
      | none => segment :: next :: rest

/-- Merge adjacent segments of text of the same kind. -/
def mergeAdjacent (segments : List ProposedPlanSegment) : List ProposedPlanSegment :=
  segments.foldr joinOnto []

namespace ProposedPlanSegment

def items : ProposedPlanSegment → List (SegmentItem PlanTag)
  | .normal text => text.map .normal
  | .proposedPlanStart => [.tagStart .proposedPlan]
  | .proposedPlanDelta text => text.map (.tagDelta .proposedPlan)
  | .proposedPlanEnd => [.tagEnd .proposedPlan]

end ProposedPlanSegment

@[simp] theorem items_mapSegment (segment : TaggedLineSegment PlanTag) :
    (mapSegment segment).items = segment.items := by
  cases segment <;> rfl

/-- Put an item before segments that are merged. -/
def attach : SegmentItem PlanTag → List ProposedPlanSegment → List ProposedPlanSegment
  | .normal c, segments => joinOnto (.normal [c]) segments
  | .tagStart _, segments => .proposedPlanStart :: segments
  | .tagDelta _ c, segments => joinOnto (.proposedPlanDelta [c]) segments
  | .tagEnd _, segments => .proposedPlanEnd :: segments

theorem attach_normal (c : Char) {text : Text} (segments : List ProposedPlanSegment) :
    attach (.normal c) (joinOnto (.normal text) segments) =
      joinOnto (.normal (c :: text)) segments := by
  rcases segments with _ | ⟨_ | _ | _ | _, rest⟩ <;> rfl

theorem attach_delta (c : Char) {text : Text} (segments : List ProposedPlanSegment) :
    attach (.tagDelta .proposedPlan c) (joinOnto (.proposedPlanDelta text) segments) =
      joinOnto (.proposedPlanDelta (c :: text)) segments := by
  rcases segments with _ | ⟨_ | _ | _ | _, rest⟩ <;> rfl

/-- A segment is put before others item by item. -/
theorem foldr_attach_items {segment : ProposedPlanSegment} (h : segment.items ≠ [])
    (segments : List ProposedPlanSegment) :
    segment.items.foldr attach segments = joinOnto segment segments := by
  cases segment with
  | normal text =>
      induction text with
      | nil => simp [ProposedPlanSegment.items] at h
      | cons c text ih =>
          cases text with
          | nil => rfl
          | cons d text =>
              have hrest := ih (by simp [ProposedPlanSegment.items])
              rw [← attach_normal, ← hrest]
              rfl
  | proposedPlanDelta text =>
      induction text with
      | nil => simp [ProposedPlanSegment.items] at h
      | cons c text ih =>
          cases text with
          | nil => rfl
          | cons d text =>
              have hrest := ih (by simp [ProposedPlanSegment.items])
              rw [← attach_delta, ← hrest]
              rfl
  | proposedPlanStart => rcases segments with _ | ⟨_ | _ | _ | _, rest⟩ <;> rfl
  | proposedPlanEnd => rcases segments with _ | ⟨_ | _ | _ | _, rest⟩ <;> rfl

/-- The merged segments are put together from the items. -/
theorem mergeAdjacent_eq {segments : List ProposedPlanSegment}
    (h : ∀ segment ∈ segments, segment.items ≠ []) :
    mergeAdjacent segments = (segments.flatMap ProposedPlanSegment.items).foldr attach [] := by
  induction segments with
  | nil => rfl
  | cons segment segments ih =>
      have hrest := ih fun other hother => h other (List.mem_cons_of_mem segment hother)
      rw [List.flatMap_cons, List.foldr_append, ← hrest,
        foldr_attach_items (h segment List.mem_cons_self)]
      rfl

theorem flatMap_items_mapSegment (segments : List (TaggedLineSegment PlanTag)) :
    (segments.map mapSegment).flatMap ProposedPlanSegment.items = segmentItems segments := by
  rw [List.flatMap_map]
  simp [segmentItems]

/-- The segments of a plan, merged, depend on the items of the parser. -/
theorem mergeAdjacent_mapSegment {segments : List (TaggedLineSegment PlanTag)}
    (h : TaggedLineParser.AllPresent segments) :
    mergeAdjacent (segments.map mapSegment) = (segmentItems segments).foldr attach [] := by
  rw [mergeAdjacent_eq, flatMap_items_mapSegment]
  intro segment hsegment
  obtain ⟨source, hsource, rfl⟩ := List.mem_map.1 hsegment
  rw [items_mapSegment]
  exact h source hsource

/-- The normal characters of the items. -/
def normalChar : SegmentItem PlanTag → Option Char
  | .normal c => some c
  | _ => none

theorem normalText_eq (segment : ProposedPlanSegment) :
    normalText segment = segment.items.filterMap normalChar := by
  cases segment with
  | normal text =>
      induction text with
      | nil => rfl
      | cons c text ih => simpa [normalText, ProposedPlanSegment.items, normalChar] using ih
  | proposedPlanStart => rfl
  | proposedPlanDelta text =>
      induction text with
      | nil => rfl
      | cons c text ih => simp [normalText, ProposedPlanSegment.items, normalChar]
  | proposedPlanEnd => rfl

theorem flatMap_normalText (segments : List (TaggedLineSegment PlanTag)) :
    (segments.map mapSegment).flatMap normalText =
      (segmentItems segments).filterMap normalChar := by
  rw [← flatMap_items_mapSegment, List.filterMap_flatMap]
  congr 1
  funext segment
  exact normalText_eq segment

/-! ## Chunks -/

namespace AssistantTextStreamParser

/-- The visible texts of the chunks, and of the end. -/
def visiblePieces (inner : InlineHiddenTagParser CitationTag) : List Text → List Text
  | [] => [inner.finish.visibleText]
  | chunk :: chunks =>
      (inner.pushStr chunk).2.visibleText :: visiblePieces (inner.pushStr chunk).1 chunks

theorem flatten_visiblePieces (inner : InlineHiddenTagParser CitationTag) (chunks : List Text) :
    (visiblePieces inner chunks).flatten = (inner.collectChunks chunks).visibleText := by
  induction chunks generalizing inner with
  | nil => simp [visiblePieces, InlineHiddenTagParser.collectChunks]
  | cons chunk chunks ih =>
      rw [visiblePieces, List.flatten_cons, ih, InlineHiddenTagParser.collectChunks]
      rfl

/-- The citations of the chunks. -/
def citationTexts (inner : InlineHiddenTagParser CitationTag) (chunks : List Text) : List Text :=
  (inner.collectChunks chunks).extracted.map (·.content)

theorem citationTexts_cons (inner : InlineHiddenTagParser CitationTag) (chunk : Text)
    (chunks : List Text) :
    citationTexts inner (chunk :: chunks) = (inner.pushStr chunk).2.extracted.map (·.content) ++
      citationTexts (inner.pushStr chunk).1 chunks := by
  rw [citationTexts, InlineHiddenTagParser.collectChunks, InlineHiddenTagParser.extracted_add,
    List.map_append]
  rfl

/-- Outside plan mode the visible pieces are the text. -/
theorem collectChunks_text (inner : InlineHiddenTagParser CitationTag) (plan : ProposedPlanParser)
    (chunks : List Text) :
    collectChunks ⟨false, ⟨inner⟩, plan⟩ chunks =
      { visibleText := (visiblePieces inner chunks).flatten
        citations := citationTexts inner chunks } := by
  induction chunks generalizing inner with
  | nil => simp [collectChunks, finish, parseVisibleText, visiblePieces, citationTexts,
      CitationStreamParser.finish, citationChunk, InlineHiddenTagParser.collectChunks]
  | cons chunk chunks ih =>
      rw [collectChunks]
      simp [pushStr, parseVisibleText, CitationStreamParser.pushStr, citationChunk, ih,
        visiblePieces, citationTexts_cons]

/-- In plan mode the visible pieces are parsed for plans. -/
theorem collectChunks_plan (inner : InlineHiddenTagParser CitationTag)
    (plan : TaggedLineParser PlanTag) (chunks : List Text) :
    collectChunks ⟨true, ⟨inner⟩, ⟨plan⟩⟩ chunks =
      { visibleText :=
          ((plan.collect (visiblePieces inner chunks)).map mapSegment).flatMap normalText
        citations := citationTexts inner chunks
        planSegments := (plan.collect (visiblePieces inner chunks)).map mapSegment } := by
  induction chunks generalizing inner plan with
  | nil => simp [collectChunks, finish, parseVisibleText, visiblePieces, citationTexts,
      CitationStreamParser.finish, citationChunk, InlineHiddenTagParser.collectChunks,
      ProposedPlanParser.pushStr, ProposedPlanParser.finish, mapSegments, TaggedLineParser.collect]
  | cons chunk chunks ih =>
      rw [collectChunks]
      simp [pushStr, parseVisibleText, CitationStreamParser.pushStr, citationChunk, ih,
        visiblePieces, citationTexts_cons, ProposedPlanParser.pushStr, mapSegments,
        TaggedLineParser.collect]

theorem citationSpecs_wellFormed : InlineHiddenTagParser.WellFormed citationSpecs :=
  InlineHiddenTagParser.wellFormed_of_accepts (by decide)

/-- One delimiter is not inside itself. -/
theorem citationSpecs_not_nested : ¬ InlineHiddenTagParser.IsNested citationSpecs := by
  rintro ⟨inner, hinner, outer, houter, hinside⟩
  rw [List.mem_singleton.1 hinner, List.mem_singleton.1 houter] at hinside
  have hlength := hinside.length_le
  rw [List.length_dropLast] at hlength
  revert hlength
  decide

/-- The citations do not depend on the chunks. -/
theorem collectCitations_flatten (chunks : List Text) :
    InlineHiddenTagParser.collectChunks { specs := citationSpecs } chunks =
      InlineHiddenTagParser.collectChunks { specs := citationSpecs } [chunks.flatten] :=
  InlineHiddenTagParser.collectChunks_flatten citationSpecs_wellFormed citationSpecs_not_nested
    chunks

/-- In both modes every way of pushing a text gives the same visible text and the same citations as
pushing it whole, and the same plan segments after adjacent ones are merged. -/
theorem collectChunks_eq_whole (planMode : Bool) (chunks : List Text) :
    ((new planMode).collectChunks chunks).visibleText =
        ((new planMode).collectChunks [chunks.flatten]).visibleText ∧
      ((new planMode).collectChunks chunks).citations =
        ((new planMode).collectChunks [chunks.flatten]).citations ∧
      mergeAdjacent ((new planMode).collectChunks chunks).planSegments =
        mergeAdjacent ((new planMode).collectChunks [chunks.flatten]).planSegments := by
  have hpieces : (visiblePieces { specs := citationSpecs } chunks).flatten =
      (visiblePieces { specs := citationSpecs } [chunks.flatten]).flatten := by
    rw [flatten_visiblePieces, flatten_visiblePieces, collectCitations_flatten]
  have hcitations : citationTexts { specs := citationSpecs } chunks =
      citationTexts { specs := citationSpecs } [chunks.flatten] := by
    rw [citationTexts, citationTexts, collectCitations_flatten]
  cases planMode with
  | false =>
      simp only [new, collectChunks_text]
      exact ⟨hpieces, hcitations, trivial⟩
  | true =>
      have hitems : segmentItems (TaggedLineParser.collect { specs := planSpecs }
            (visiblePieces { specs := citationSpecs } chunks)) =
          segmentItems (TaggedLineParser.collect { specs := planSpecs }
            (visiblePieces { specs := citationSpecs } [chunks.flatten])) := by
        rw [TaggedLineParser.segmentItems_collect, TaggedLineParser.segmentItems_collect, hpieces]
      simp only [new, collectChunks_plan]
      refine ⟨?_, hcitations, ?_⟩
      · rw [flatMap_normalText, flatMap_normalText, hitems]
      · rw [mergeAdjacent_mapSegment (TaggedLineParser.allPresent_collect _ _),
          mergeAdjacent_mapSegment (TaggedLineParser.allPresent_collect _ _), hitems]

end AssistantTextStreamParser

end Codewith.StreamParser
