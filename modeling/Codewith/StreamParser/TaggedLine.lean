import Mathlib.Tactic
import Codewith.Lib.Text

/-!
# Tag blocks on lines of their own

`TaggedLineParser` splits a streamed text into normal text and the text of tag blocks.  A line is
held back until it is no tag.  A run of text that is not held back is pushed at the end of a chunk,
so that chunks only cut segments of text: item by item, one character or one tag at a time, the
segments of a text do not depend on them.
-/

namespace Codewith.StreamParser

open Lib

structure TagSpec (T : Type) where
  openTag : Text
  closeTag : Text
  tag : T
  deriving DecidableEq, Repr

inductive TaggedLineSegment (T : Type)
  | normal (text : Text)
  | tagStart (tag : T)
  | tagDelta (tag : T) (text : Text)
  | tagEnd (tag : T)
  deriving DecidableEq, Repr

structure TaggedLineParser (T : Type) where
  specs : List (TagSpec T)
  activeTag : Option T := none
  detectTag : Bool := true
  lineBuffer : Text := []
  deriving DecidableEq, Repr

variable {T : Type}

/-- A character or a tag of the segments. -/
inductive SegmentItem (T : Type)
  | normal (c : Char)
  | tagStart (tag : T)
  | tagDelta (tag : T) (c : Char)
  | tagEnd (tag : T)
  deriving DecidableEq, Repr

namespace TaggedLineSegment

def items : TaggedLineSegment T → List (SegmentItem T)
  | .normal text => text.map .normal
  | .tagStart tag => [.tagStart tag]
  | .tagDelta tag text => text.map (.tagDelta tag)
  | .tagEnd tag => [.tagEnd tag]

end TaggedLineSegment

/-- The items of a list of segments. -/
def segmentItems (segments : List (TaggedLineSegment T)) : List (SegmentItem T) :=
  segments.flatMap TaggedLineSegment.items

@[simp] theorem segmentItems_nil : segmentItems ([] : List (TaggedLineSegment T)) = [] := rfl

@[simp] theorem segmentItems_append (segments more : List (TaggedLineSegment T)) :
    segmentItems (segments ++ more) = segmentItems segments ++ segmentItems more :=
  List.flatMap_append

@[simp] theorem segmentItems_singleton (segment : TaggedLineSegment T) :
    segmentItems [segment] = segment.items := by
  simp [segmentItems]

/-- Adding text to the last segment adds its items. -/
theorem segmentItems_dropLast {segments : List (TaggedLineSegment T)}
    {last joined : TaggedLineSegment T} {more : List (SegmentItem T)}
    (hlast : segments.getLast? = some last) (hjoined : joined.items = last.items ++ more) :
    segmentItems (segments.dropLast ++ [joined]) = segmentItems segments ++ more := by
  obtain ⟨front, rfl⟩ := List.getLast?_eq_some_iff.1 hlast
  rw [List.dropLast_concat]
  simp [hjoined, List.append_assoc]

/-! ## The parser -/

variable [DecidableEq T]

/-- Text is added to a last segment of its kind, and none is not pushed. -/
def pushSegment (segments : List (TaggedLineSegment T)) :
    TaggedLineSegment T → List (TaggedLineSegment T)
  | .normal delta =>
      if delta = [] then segments
      else
        match segments.getLast? with
        | some (.normal existing) => segments.dropLast ++ [.normal (existing ++ delta)]
        | _ => segments ++ [.normal delta]
  | .tagDelta tag delta =>
      if delta = [] then segments
      else
        match segments.getLast? with
        | some (.tagDelta existingTag existing) =>
            if existingTag = tag then
              segments.dropLast ++ [.tagDelta existingTag (existing ++ delta)]
            else segments ++ [.tagDelta tag delta]
        | _ => segments ++ [.tagDelta tag delta]
  | .tagStart tag => segments ++ [.tagStart tag]
  | .tagEnd tag => segments ++ [.tagEnd tag]

namespace TaggedLineParser

def pushText (parser : TaggedLineParser T) (text : Text) (segments : List (TaggedLineSegment T)) :
    List (TaggedLineSegment T) :=
  match parser.activeTag with
  | some tag => pushSegment segments (.tagDelta tag text)
  | none => pushSegment segments (.normal text)

def isTagPrefix (parser : TaggedLineParser T) (slug : Text) : Bool :=
  parser.specs.any fun spec =>
    (Text.trimEnd slug).isPrefixOf spec.openTag || (Text.trimEnd slug).isPrefixOf spec.closeTag

def matchOpen (parser : TaggedLineParser T) (slug : Text) : Option T :=
  (parser.specs.find? fun spec => spec.openTag = slug).map (·.tag)

def matchClose (parser : TaggedLineParser T) (slug : Text) : Option T :=
  (parser.specs.find? fun spec => spec.closeTag = slug).map (·.tag)

/-- A line that is held back, at its end: a tag, or text. -/
def endLine (parser : TaggedLineParser T) (segments : List (TaggedLineSegment T)) :
    TaggedLineParser T × List (TaggedLineSegment T) :=
  let line := parser.lineBuffer
  let parser := { parser with lineBuffer := [] }
  let slug := Text.trimEnd (Text.trimStart ((Text.stripSuffixChar '\n' line).getD line))
  match (parser.matchOpen slug).filter fun _ => parser.activeTag = none with
  | some tag => ({ parser with activeTag := some tag }, pushSegment segments (.tagStart tag))
  | none =>
      match (parser.matchClose slug).filter fun tag => parser.activeTag = some tag with
      | some tag => ({ parser with activeTag := none }, pushSegment segments (.tagEnd tag))
      | none => (parser, parser.pushText line segments)

def finishLine (parser : TaggedLineParser T) (segments : List (TaggedLineSegment T)) :
    TaggedLineParser T × List (TaggedLineSegment T) :=
  let next := parser.endLine segments
  ({ next.1 with detectTag := true }, next.2)

/-- The loop of `parse`, between two characters. -/
structure Progress (T : Type) where
  parser : TaggedLineParser T
  run : Text := []
  segments : List (TaggedLineSegment T) := []

/-- A pending run is pushed. -/
def Progress.flush (progress : Progress T) : List (TaggedLineSegment T) :=
  if progress.run = [] then progress.segments
  else progress.parser.pushText progress.run progress.segments

/-- A character of a line that may be a tag. -/
def detectChar (parser : TaggedLineParser T) (segments : List (TaggedLineSegment T)) (ch : Char) :
    Progress T :=
  let parser := { parser with lineBuffer := parser.lineBuffer ++ [ch] }
  if ch = '\n' then
    let next := parser.finishLine segments
    { parser := next.1, segments := next.2 }
  else
    let slug := Text.trimStart parser.lineBuffer
    if slug.isEmpty || parser.isTagPrefix slug then { parser, segments }
    else
      let next := { parser with lineBuffer := [], detectTag := false }
      { parser := next, segments := next.pushText parser.lineBuffer segments }

def parseChar (progress : Progress T) (ch : Char) : Progress T :=
  if progress.parser.detectTag then progress.parser.detectChar progress.flush ch
  else
    let run := progress.run ++ [ch]
    if ch = '\n' then
      { parser := { progress.parser with detectTag := true }
        segments := progress.parser.pushText run progress.segments }
    else { progress with run }

def parse (parser : TaggedLineParser T) (delta : Text) :
    TaggedLineParser T × List (TaggedLineSegment T) :=
  let progress := delta.foldl parseChar { parser }
  (progress.parser, progress.flush)

def finish (parser : TaggedLineParser T) : TaggedLineParser T × List (TaggedLineSegment T) :=
  let next := if parser.lineBuffer = [] then (parser, []) else parser.endLine []
  let segments :=
    match next.1.activeTag with
    | some tag => pushSegment next.2 (.tagEnd tag)
    | none => next.2
  ({ next.1 with activeTag := none, detectTag := true }, segments)

end TaggedLineParser

/-! ## What is pushed, item by item -/

@[simp] theorem segmentItems_pushSegment (segments : List (TaggedLineSegment T))
    (segment : TaggedLineSegment T) :
    segmentItems (pushSegment segments segment) = segmentItems segments ++ segment.items := by
  cases segment with
  | normal delta =>
      rw [pushSegment]
      split
      · rename_i hnil
        simp [hnil, TaggedLineSegment.items]
      · split
        · rename_i existing hlast
          exact segmentItems_dropLast hlast (by simp [TaggedLineSegment.items])
        · simp
  | tagDelta tag delta =>
      rw [pushSegment]
      split
      · rename_i hnil
        simp [hnil, TaggedLineSegment.items]
      · split
        · rename_i existingTag existing hlast
          split
          · rename_i htag
            subst htag
            exact segmentItems_dropLast hlast (by simp [TaggedLineSegment.items])
          · simp
        · simp
  | tagStart tag => simp [pushSegment]
  | tagEnd tag => simp [pushSegment]

namespace TaggedLineParser

/-- The items of a text. -/
def textItems (parser : TaggedLineParser T) (text : Text) : List (SegmentItem T) :=
  match parser.activeTag with
  | some tag => text.map (.tagDelta tag)
  | none => text.map .normal

@[simp] theorem segmentItems_pushText (parser : TaggedLineParser T) (text : Text)
    (segments : List (TaggedLineSegment T)) :
    segmentItems (parser.pushText text segments) =
      segmentItems segments ++ parser.textItems text := by
  unfold pushText textItems
  split <;> simp [TaggedLineSegment.items]

omit [DecidableEq T] in
@[simp] theorem textItems_nil (parser : TaggedLineParser T) : parser.textItems [] = [] := by
  unfold textItems
  split <;> rfl

omit [DecidableEq T] in
theorem textItems_append (parser : TaggedLineParser T) (a b : Text) :
    parser.textItems (a ++ b) = parser.textItems a ++ parser.textItems b := by
  unfold textItems
  split <;> simp

/-- The end of a line does not depend on the segments before it, and adds its items to theirs. -/
theorem endLine_eq (parser : TaggedLineParser T) (segments : List (TaggedLineSegment T)) :
    (parser.endLine segments).1 = (parser.endLine []).1 ∧
      segmentItems (parser.endLine segments).2 =
        segmentItems segments ++ segmentItems (parser.endLine []).2 := by
  unfold endLine
  dsimp only
  split
  · simp
  · split
    · simp
    · simp

/-- The items of the loop so far. -/
def Progress.items (progress : Progress T) : List (SegmentItem T) := segmentItems progress.flush

theorem Progress.items_eq (progress : Progress T) :
    progress.items = segmentItems progress.segments ++ progress.parser.textItems progress.run := by
  unfold Progress.items Progress.flush
  split
  · rename_i hrun
    simp [hrun]
  · simp

theorem detectChar_eq (parser : TaggedLineParser T) (segments : List (TaggedLineSegment T))
    (ch : Char) :
    (parser.detectChar segments ch).parser = (parser.detectChar [] ch).parser ∧
      (parser.detectChar segments ch).items =
        segmentItems segments ++ (parser.detectChar [] ch).items := by
  simp only [Progress.items_eq]
  unfold detectChar finishLine
  dsimp only
  split
  · have h := endLine_eq { parser with lineBuffer := parser.lineBuffer ++ [ch] } segments
    simp [h.1, h.2]
  · split
    · simp
    · simp

/-- What a character does depends on the parser alone, and adds its items to those before. -/
theorem parseChar_eq (progress : Progress T) (ch : Char) :
    (parseChar progress ch).parser = (parseChar { parser := progress.parser } ch).parser ∧
      (parseChar progress ch).items =
        progress.items ++ (parseChar { parser := progress.parser } ch).items := by
  by_cases hdetect : progress.parser.detectTag = true
  · have hempty : ({ parser := progress.parser } : Progress T).flush = [] := rfl
    simp only [parseChar, hdetect, if_true, hempty]
    exact detectChar_eq progress.parser progress.flush ch
  · simp only [parseChar, hdetect, Bool.false_eq_true, if_false]
    have htext := textItems_append progress.parser progress.run [ch]
    by_cases hnewline : ch = '\n'
    · simp only [hnewline] at htext
      simp [hnewline, Progress.items_eq, htext]
    · simp [hnewline, Progress.items_eq, htext]

theorem foldl_parseChar_eq (delta : Text) (progress : Progress T) :
    (delta.foldl parseChar progress).parser =
        (delta.foldl parseChar { parser := progress.parser }).parser ∧
      (delta.foldl parseChar progress).items =
        progress.items ++ (delta.foldl parseChar { parser := progress.parser }).items := by
  induction delta generalizing progress with
  | nil => simp [Progress.items_eq]
  | cons ch delta ih =>
      obtain ⟨hparser, hitems⟩ := parseChar_eq progress ch
      have hfirst := ih (parseChar progress ch)
      have hfresh := ih (parseChar { parser := progress.parser } ch)
      rw [hparser] at hfirst
      rw [List.foldl_cons, List.foldl_cons]
      refine ⟨hfirst.1.trans hfresh.1.symm, ?_⟩
      rw [hfirst.2, hfresh.2, hitems, List.append_assoc]

/-- A text that is parsed in two pieces leaves the same parser and gives the same items. -/
theorem parse_append (parser : TaggedLineParser T) (a b : Text) :
    (parser.parse (a ++ b)).1 = ((parser.parse a).1.parse b).1 ∧
      segmentItems (parser.parse (a ++ b)).2 =
        segmentItems (parser.parse a).2 ++ segmentItems ((parser.parse a).1.parse b).2 := by
  have h := foldl_parseChar_eq b (a.foldl parseChar { parser })
  unfold parse
  rw [List.foldl_append]
  exact h

theorem parse_nil (parser : TaggedLineParser T) : parser.parse [] = (parser, []) := rfl

/-! ## No empty segments of text -/

omit [DecidableEq T] in
/-- Segments that all have items. -/
def AllPresent (segments : List (TaggedLineSegment T)) : Prop :=
  ∀ segment ∈ segments, segment.items ≠ []

theorem AllPresent.pushSegment {segments : List (TaggedLineSegment T)} (h : AllPresent segments)
    (segment : TaggedLineSegment T) : AllPresent (pushSegment segments segment) := by
  have hadd : segment.items ≠ [] → AllPresent (segments ++ [segment]) := by
    intro hsegment other hother
    rcases List.mem_append.1 hother with hother | hother
    · exact h other hother
    · rw [List.mem_singleton.1 hother]
      exact hsegment
  have hjoin : ∀ joined : TaggedLineSegment T, joined.items ≠ [] →
      AllPresent (segments.dropLast ++ [joined]) := by
    intro joined hjoined other hother
    rcases List.mem_append.1 hother with hother | hother
    · exact h other (List.mem_of_mem_dropLast hother)
    · rw [List.mem_singleton.1 hother]
      exact hjoined
  cases segment with
  | normal delta =>
      rw [StreamParser.pushSegment]
      split
      · exact h
      · rename_i hne
        split
        · exact hjoin _ (by simp [TaggedLineSegment.items, hne])
        · exact hadd (by simpa [TaggedLineSegment.items] using hne)
  | tagDelta tag delta =>
      rw [StreamParser.pushSegment]
      split
      · exact h
      · rename_i hne
        split
        · split
          · exact hjoin _ (by simp [TaggedLineSegment.items, hne])
          · exact hadd (by simpa [TaggedLineSegment.items] using hne)
        · exact hadd (by simpa [TaggedLineSegment.items] using hne)
  | tagStart tag => exact hadd (by simp [TaggedLineSegment.items])
  | tagEnd tag => exact hadd (by simp [TaggedLineSegment.items])

theorem AllPresent.pushText {segments : List (TaggedLineSegment T)} (h : AllPresent segments)
    (parser : TaggedLineParser T) (text : Text) : AllPresent (parser.pushText text segments) := by
  unfold TaggedLineParser.pushText
  split <;> exact h.pushSegment _

theorem AllPresent.endLine {segments : List (TaggedLineSegment T)} (h : AllPresent segments)
    (parser : TaggedLineParser T) : AllPresent (parser.endLine segments).2 := by
  unfold TaggedLineParser.endLine
  dsimp only
  split
  · exact h.pushSegment (.tagStart _)
  · split
    · exact h.pushSegment (.tagEnd _)
    · exact h.pushText _ _

theorem AllPresent.flush {progress : Progress T} (h : AllPresent progress.segments) :
    AllPresent progress.flush := by
  unfold Progress.flush
  split
  · exact h
  · exact h.pushText _ _

theorem AllPresent.parseChar {progress : Progress T} (h : AllPresent progress.segments)
    (ch : Char) :
    AllPresent (parseChar progress ch).segments := by
  unfold TaggedLineParser.parseChar detectChar finishLine
  dsimp only
  split
  · split
    · exact h.flush.endLine _
    · split
      · exact h.flush
      · exact h.flush.pushText _ _
  · split
    · exact h.pushText _ _
    · exact h

theorem allPresent_parse (parser : TaggedLineParser T) (delta : Text) :
    AllPresent (parser.parse delta).2 := by
  have hloop : ∀ progress : Progress T, AllPresent progress.segments →
      AllPresent (delta.foldl parseChar progress).segments := by
    induction delta with
    | nil => exact fun _ h => h
    | cons ch delta ih => exact fun progress h => ih _ (h.parseChar ch)
  exact (hloop { parser } (by simp [AllPresent])).flush

theorem allPresent_finish (parser : TaggedLineParser T) : AllPresent parser.finish.2 := by
  have hnone : AllPresent ([] : List (TaggedLineSegment T)) := by simp [AllPresent]
  have hline : AllPresent
      (if parser.lineBuffer = [] then (parser, []) else parser.endLine []).2 := by
    split
    · exact hnone
    · exact hnone.endLine parser
  unfold finish
  dsimp only
  split
  · exact hline.pushSegment _
  · exact hline

/-! ## Pieces of a text -/

/-- The segments of the pieces one after another, and of the end after them. -/
def collect (parser : TaggedLineParser T) : List Text → List (TaggedLineSegment T)
  | [] => parser.finish.2
  | piece :: pieces => (parser.parse piece).2 ++ (parser.parse piece).1.collect pieces

/-- The items depend on the text of the pieces alone. -/
theorem segmentItems_collect (parser : TaggedLineParser T) (pieces : List Text) :
    segmentItems (parser.collect pieces) = segmentItems (parser.parse pieces.flatten).2 ++
      segmentItems (parser.parse pieces.flatten).1.finish.2 := by
  induction pieces generalizing parser with
  | nil => simp [collect, parse_nil]
  | cons piece pieces ih =>
      obtain ⟨hparser, hitems⟩ := parse_append parser piece pieces.flatten
      rw [collect, segmentItems_append, ih, List.flatten_cons, hparser, hitems, List.append_assoc]

theorem allPresent_collect (parser : TaggedLineParser T) (pieces : List Text) :
    AllPresent (parser.collect pieces) := by
  induction pieces generalizing parser with
  | nil => exact allPresent_finish parser
  | cons piece pieces ih =>
      intro segment hsegment
      rcases List.mem_append.1 hsegment with hfirst | hrest
      · exact allPresent_parse parser piece segment hfirst
      · exact ih (parser.parse piece).1 segment hrest

end TaggedLineParser

end Codewith.StreamParser
