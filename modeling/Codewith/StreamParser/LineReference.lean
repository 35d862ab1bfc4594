import Codewith.StreamParser.TaggedLine

/-!
# Tag blocks line by line

What `TaggedLineParser` computes on whole lines: a line that is a tag marker, up to whitespace
around it, opens or closes a block, and any other line is text.  The parser releases the text of a
line as soon as no marker can come of it, which gives the same segments.
-/

namespace Codewith.StreamParser

open Lib

variable {T : Type} [DecidableEq T]

/-! ### Merged segments -/

omit [DecidableEq T] in
theorem segmentItems_cons (segment : TaggedLineSegment T) (segments : List (TaggedLineSegment T)) :
    segmentItems (segment :: segments) = segment.items ++ segmentItems segments :=
  List.flatMap_cons

/-- Neighbouring text of one kind is put together. -/
def mergeSegments (segments : List (TaggedLineSegment T)) : List (TaggedLineSegment T) :=
  segments.foldl pushSegment []

def SegmentItem.segment : SegmentItem T → TaggedLineSegment T
  | .normal c => .normal [c]
  | .tagStart tag => .tagStart tag
  | .tagDelta tag c => .tagDelta tag [c]
  | .tagEnd tag => .tagEnd tag

theorem pushSegment_normal_append (segments : List (TaggedLineSegment T)) (a b : Text) :
    pushSegment (pushSegment segments (.normal a)) (.normal b) =
      pushSegment segments (.normal (a ++ b)) := by
  by_cases ha : a = []
  · subst ha
    rfl
  by_cases hb : b = []
  · subst hb
    rw [List.append_nil]
    rfl
  rcases hlast : segments.getLast? with _ | (existing | other | ⟨other, existing⟩ | other) <;>
    simp [pushSegment, ha, hb, hlast]

theorem pushSegment_tagDelta_append (segments : List (TaggedLineSegment T)) (tag : T) (a b : Text) :
    pushSegment (pushSegment segments (.tagDelta tag a)) (.tagDelta tag b) =
      pushSegment segments (.tagDelta tag (a ++ b)) := by
  by_cases ha : a = []
  · subst ha
    rfl
  by_cases hb : b = []
  · subst hb
    rw [List.append_nil]
    rfl
  rcases hlast : segments.getLast? with _ | (existing | other | ⟨other, existing⟩ | other)
  case some.tagDelta =>
    by_cases htag : other = tag
    · simp [pushSegment, ha, hb, hlast, htag]
    · simp [pushSegment, ha, hb, hlast, htag]
  all_goals simp [pushSegment, ha, hb, hlast]

/-- A segment is pushed as its items are, one after another. -/
theorem pushSegment_eq_foldl (segments : List (TaggedLineSegment T))
    (segment : TaggedLineSegment T) :
    pushSegment segments segment =
      segment.items.foldl (fun segments item => pushSegment segments item.segment) segments := by
  cases segment with
  | normal text =>
      induction text generalizing segments with
      | nil => rfl
      | cons c text ih =>
          rw [← List.singleton_append, ← pushSegment_normal_append, ih]
          rfl
  | tagDelta tag text =>
      induction text generalizing segments with
      | nil => rfl
      | cons c text ih =>
          rw [← List.singleton_append, ← pushSegment_tagDelta_append, ih]
          rfl
  | tagStart tag => rfl
  | tagEnd tag => rfl

/-- The merged segments depend on the items alone. -/
theorem mergeSegments_eq (segments : List (TaggedLineSegment T)) :
    mergeSegments segments =
      (segmentItems segments).foldl (fun segments item => pushSegment segments item.segment)
        [] := by
  unfold mergeSegments segmentItems
  rw [List.foldl_flatMap]
  congr 1
  funext segments segment
  exact pushSegment_eq_foldl segments segment

/-! ### The reference -/

/-- What a line does as a tag marker, if it is one. -/
def markerLine (specs : List (TagSpec T)) (active : Option T) (line : Text) :
    Option (Option T × TaggedLineSegment T) :=
  match active with
  | none =>
      (specs.find? fun spec => spec.openTag = Text.trim line).map fun spec =>
        (some spec.tag, .tagStart spec.tag)
  | some tag =>
      if ∃ spec ∈ specs, spec.tag = tag ∧ spec.closeTag = Text.trim line then
        some (none, .tagEnd tag)
      else none

def textSegment (active : Option T) (text : Text) : TaggedLineSegment T :=
  match active with
  | none => .normal text
  | some tag => .tagDelta tag text

def referenceLine (specs : List (TagSpec T)) (active : Option T) (line ending : Text) :
    Option T × TaggedLineSegment T :=
  (markerLine specs active line).getD (active, textSegment active (line ++ ending))

/-- A block that is open at the end is closed. -/
def closing (active : Option T) : List (TaggedLineSegment T) :=
  match active with
  | none => []
  | some tag => [.tagEnd tag]

/-- The lines of a text that end, and what follows the last of them. -/
def referenceLines (specs : List (TagSpec T)) :
    Option T → List Text → Text → List (TaggedLineSegment T)
  | active, [], rest =>
      if rest = [] then closing active
      else
        (referenceLine specs active rest []).2 :: closing (referenceLine specs active rest []).1
  | active, line :: lines, rest =>
      (referenceLine specs active line ['\n']).2 ::
        referenceLines specs (referenceLine specs active line ['\n']).1 lines rest

def reference (specs : List (TagSpec T)) (text : Text) : List (TaggedLineSegment T) :=
  referenceLines specs none (Text.pieces '\n' text).1 (Text.pieces '\n' text).2

/-! ### One line -/

/-- A piece of a line from which a marker may still come. -/
def Held (specs : List (TagSpec T)) (line : Text) : Prop :=
  Text.trimStart line = [] ∨
    ∃ spec ∈ specs, Text.trimEnd (Text.trimStart line) <+: spec.openTag ∨
      Text.trimEnd (Text.trimStart line) <+: spec.closeTag

omit [DecidableEq T] in
theorem trimEnd_prefix_trimEnd_append (a b : Text) : Text.trimEnd a <+: Text.trimEnd (a ++ b) := by
  by_cases hb : Text.trimEnd b = []
  · rw [Text.trimEnd_append_of_allWhitespace a (Text.trimEnd_eq_nil_iff.mp hb)]
  · rw [Text.trimEnd_append_of_ne_nil a hb]
    exact (Text.trimEnd_prefix_self a).trans (List.prefix_append _ _)

omit [DecidableEq T] in
/-- Nothing of a marker line is released. -/
theorem held_of_marker {specs : List (TagSpec T)} {front line : Text} (hfront : front <+: line)
    {spec : TagSpec T} (hspec : spec ∈ specs)
    (hmarker : spec.openTag = Text.trim line ∨ spec.closeTag = Text.trim line) :
    Held specs front := by
  obtain ⟨back, rfl⟩ := hfront
  by_cases hblank : Text.AllWhitespace front
  · exact .inl (Text.trimStart_eq_nil_iff.mpr hblank)
  · have hprefix : Text.trimEnd (Text.trimStart front) <+: Text.trim (front ++ back) := by
      rw [Text.trim, Text.trimStart_append_of_not_allWhitespace hblank]
      exact trimEnd_prefix_trimEnd_append _ _
    refine .inr ⟨spec, hspec, ?_⟩
    rcases hmarker with hopen | hclose
    · exact .inl (hopen ▸ hprefix)
    · exact .inr (hclose ▸ hprefix)

theorem markerLine_of_not_held {specs : List (TagSpec T)} {front line : Text}
    (hfront : front <+: line) (hheld : ¬ Held specs front) (active : Option T) :
    markerLine specs active line = none := by
  unfold markerLine
  split
  · rw [Option.map_eq_none_iff, List.find?_eq_none]
    intro spec hspec hopen
    exact hheld (held_of_marker hfront hspec (.inl (of_decide_eq_true hopen)))
  · rw [if_neg]
    rintro ⟨spec, hspec, -, hclose⟩
    exact hheld (held_of_marker hfront hspec (.inr hclose))

namespace TaggedLineParser

variable (specs : List (TagSpec T)) (active : Option T)

/-- In a line that may be a marker, after some of it. -/
def detecting (buffer : Text) : TaggedLineParser T :=
  { specs, activeTag := active, lineBuffer := buffer }

/-- In a line that is text. -/
def releasing : TaggedLineParser T := { specs, activeTag := active, detectTag := false }

omit [DecidableEq T] in
theorem held_iff (buffer : Text) :
    ((Text.trimStart buffer).isEmpty ||
      (detecting specs active buffer).isTagPrefix (Text.trimStart buffer)) = true ↔
      Held specs buffer := by
  simp [isTagPrefix, Held, detecting]

theorem parse_detecting {buffer : Text} {c : Char} {progress : Progress T}
    (h : (detecting specs active buffer).detectChar [] c = progress) :
    (detecting specs active buffer).parse [c] = (progress.parser, progress.flush) := by
  have hstep : parseChar { parser := detecting specs active buffer } c =
      (detecting specs active buffer).detectChar [] c := if_pos rfl
  rw [parse, List.foldl_cons, List.foldl_nil, hstep, h]

theorem parse_held {buffer : Text} {c : Char} (hc : c ≠ '\n') (h : Held specs (buffer ++ [c])) :
    (detecting specs active buffer).parse [c] = (detecting specs active (buffer ++ [c]), []) := by
  have hheld := (held_iff specs active (buffer ++ [c])).mpr h
  have hchar : (detecting specs active buffer).detectChar [] c =
      { parser := detecting specs active (buffer ++ [c]) } := (if_neg hc).trans (if_pos hheld)
  exact parse_detecting specs active hchar

theorem parse_released {buffer : Text} {c : Char} (hc : c ≠ '\n')
    (h : ¬ Held specs (buffer ++ [c])) :
    (detecting specs active buffer).parse [c] =
      (releasing specs active, pushSegment [] (textSegment active (buffer ++ [c]))) := by
  have hheld := mt (held_iff specs active (buffer ++ [c])).mp h
  have hchar : (detecting specs active buffer).detectChar [] c =
      { parser := releasing specs active
        segments := (releasing specs active).pushText (buffer ++ [c]) [] } :=
    (if_neg hc).trans (if_neg hheld)
  rw [parse_detecting specs active hchar]
  cases active <;> rfl

theorem parse_releasing {text : Text} (htext : '\n' ∉ text) :
    ((releasing specs active).parse text).1 = releasing specs active ∧
      segmentItems ((releasing specs active).parse text).2 = (textSegment active text).items := by
  induction text with
  | nil => cases active <;> exact ⟨rfl, rfl⟩
  | cons c text ih =>
      rw [List.mem_cons, not_or] at htext
      obtain ⟨hparser, hitems⟩ := ih htext.2
      have hc : ¬ c = '\n' := fun h => htext.1 h.symm
      have hfirst : (releasing specs active).parse [c] =
          (releasing specs active, pushSegment [] (textSegment active [c])) := by
        simp only [parse, List.foldl_cons, List.foldl_nil, parseChar, releasing,
          Bool.false_eq_true, if_false, hc]
        cases active <;> rfl
      have happend := parse_append (releasing specs active) [c] text
      rw [List.singleton_append, hfirst] at happend
      refine ⟨happend.1.trans hparser, happend.2.trans ?_⟩
      rw [hitems, segmentItems_pushSegment]
      cases active <;> rfl

theorem parse_releasing_newline :
    (releasing specs active).parse ['\n'] =
      (detecting specs active [], pushSegment [] (textSegment active ['\n'])) := by
  simp only [parse, List.foldl_cons, List.foldl_nil, parseChar, releasing, Bool.false_eq_true,
    if_false, if_true]
  cases active <;> rfl

/-- The text of a line is held back as long as a marker may come of it, and else released. -/
theorem parse_line {buffer line : Text} (hline : '\n' ∉ line) :
    (((detecting specs active buffer).parse line).1 = detecting specs active (buffer ++ line) ∧
      segmentItems ((detecting specs active buffer).parse line).2 = []) ∨
    ((∃ front, front <+: buffer ++ line ∧ ¬ Held specs front) ∧
      ((detecting specs active buffer).parse line).1 = releasing specs active ∧
      segmentItems ((detecting specs active buffer).parse line).2 =
        (textSegment active (buffer ++ line)).items) := by
  induction line generalizing buffer with
  | nil => exact .inl ⟨by rw [parse_nil, List.append_nil], rfl⟩
  | cons c line ih =>
      rw [List.mem_cons, not_or] at hline
      have hc : c ≠ '\n' := fun h => hline.1 h.symm
      have happend := parse_append (detecting specs active buffer) [c] line
      rw [List.singleton_append] at happend
      have hbuffer : buffer ++ c :: line = buffer ++ [c] ++ line := by simp
      by_cases hheld : Held specs (buffer ++ [c])
      · rw [parse_held specs active hc hheld] at happend
        rcases @ih (buffer ++ [c]) hline.2 with ⟨hparser, hitems⟩ | ⟨hfront, hparser, hitems⟩
        · refine .inl ⟨hbuffer ▸ happend.1.trans hparser, happend.2.trans ?_⟩
          rw [hitems, segmentItems_nil, List.nil_append]
        · refine .inr ⟨hbuffer ▸ hfront, happend.1.trans hparser, happend.2.trans ?_⟩
          rw [hbuffer, segmentItems_nil, List.nil_append, hitems]
      · rw [parse_released specs active hc hheld] at happend
        obtain ⟨hparser, hitems⟩ := parse_releasing specs active hline.2
        refine .inr ⟨⟨buffer ++ [c], ?_, hheld⟩, happend.1.trans hparser, happend.2.trans ?_⟩
        · exact hbuffer ▸ List.prefix_append _ _
        · rw [hbuffer, hitems, segmentItems_pushSegment, segmentItems_nil, List.nil_append]
          cases active <;> simp [textSegment, TaggedLineSegment.items]

omit [DecidableEq T] in
theorem filter_matchOpen (parser : TaggedLineParser T) (slug : Text) :
    ((parser.matchOpen slug).filter fun _ => active = none) =
      match active with
      | none => parser.matchOpen slug
      | some _ => none := by
  cases active <;> cases parser.matchOpen slug <;> rfl

/-- A close marker that belongs to one block only closes the block that is open. -/
theorem filter_matchClose (parser : TaggedLineParser T)
    (hclose : (parser.specs.map TagSpec.closeTag).Nodup) (slug : Text) :
    ((parser.matchClose slug).filter fun tag => active = some tag) =
      match active with
      | none => none
      | some tag =>
          if ∃ spec ∈ parser.specs, spec.tag = tag ∧ spec.closeTag = slug then some tag
          else none := by
  unfold matchClose
  cases hfind : parser.specs.find? fun spec => spec.closeTag = slug with
  | none =>
      rw [List.find?_eq_none] at hfind
      cases active with
      | none => rfl
      | some tag =>
          dsimp only
          rw [if_neg]
          · rfl
          · rintro ⟨spec, hspec, -, hslug⟩
            exact hfind spec hspec (decide_eq_true hslug)
  | some spec =>
      have hmem := List.mem_of_find?_eq_some hfind
      have hslug : spec.closeTag = slug := by simpa using List.find?_some hfind
      cases active with
      | none => rfl
      | some tag =>
          by_cases htag : spec.tag = tag
          · have hexists : ∃ spec ∈ parser.specs, spec.tag = tag ∧ spec.closeTag = slug :=
              ⟨spec, hmem, htag, hslug⟩
            simp [htag, hexists]
          · have hnone : ¬ ∃ spec ∈ parser.specs, spec.tag = tag ∧ spec.closeTag = slug := by
              rintro ⟨other, hother, hotherTag, hotherSlug⟩
              have hsame := List.inj_on_of_nodup_map hclose hother hmem
                (hotherSlug.trans hslug.symm)
              exact htag (hsame ▸ hotherTag)
            simp [Ne.symm htag, hnone]

/-- The end of a line that was held back is that of the reference. -/
theorem endLine_eq_reference (hclose : (specs.map TagSpec.closeTag).Nodup) {line ending : Text}
    (hending : (Text.stripSuffixChar '\n' (line ++ ending)).getD (line ++ ending) = line) :
    (detecting specs active (line ++ ending)).endLine [] =
      (detecting specs (referenceLine specs active line ending).1 [],
        pushSegment [] (referenceLine specs active line ending).2) := by
  unfold endLine
  dsimp only [detecting]
  rw [hending, filter_matchOpen, filter_matchClose _ _ hclose]
  cases active with
  | none =>
      dsimp only [matchOpen, referenceLine, markerLine]
      rw [Text.trim]
      cases specs.find? fun spec => spec.openTag = Text.trimEnd (Text.trimStart line) with
      | none => simp [pushText, textSegment]
      | some spec => simp
  | some tag =>
      dsimp only [referenceLine, markerLine]
      rw [Text.trim]
      by_cases hcloses : ∃ spec ∈ specs,
          spec.tag = tag ∧ spec.closeTag = Text.trimEnd (Text.trimStart line)
      · simp [hcloses]
      · simp [hcloses, pushText, textSegment]

/-- A line that ends, from the beginning of a line. -/
theorem parse_terminated (hclose : (specs.map TagSpec.closeTag).Nodup) {line : Text}
    (hline : '\n' ∉ line) :
    ((detecting specs active []).parse (line ++ ['\n'])).1 =
        detecting specs (referenceLine specs active line ['\n']).1 [] ∧
      segmentItems ((detecting specs active []).parse (line ++ ['\n'])).2 =
        (referenceLine specs active line ['\n']).2.items := by
  obtain ⟨happendParser, happendItems⟩ := parse_append (detecting specs active []) line ['\n']
  rcases @parse_line T _ specs active [] line hline with
    ⟨hparser, hitems⟩ | ⟨⟨front, hfront, hheld⟩, hparser, hitems⟩
  · rw [List.nil_append] at hparser
    have hending : (Text.stripSuffixChar '\n' (line ++ ['\n'])).getD (line ++ ['\n']) = line := by
      simp [Text.stripSuffixChar]
    have hend := endLine_eq_reference specs active hclose hending
    have hnewline : (detecting specs active line).parse ['\n'] =
        (detecting specs (referenceLine specs active line ['\n']).1 [],
          pushSegment [] (referenceLine specs active line ['\n']).2) := by
      have hchar : (detecting specs active line).detectChar [] '\n' =
          { parser := (finishLine (detecting specs active (line ++ ['\n'])) []).1
            segments := (finishLine (detecting specs active (line ++ ['\n'])) []).2 } := by
        unfold detectChar
        exact if_pos rfl
      rw [parse_detecting specs active hchar, finishLine, hend]
      rfl
    rw [happendParser, happendItems, hparser, hnewline, hitems]
    exact ⟨rfl, by rw [List.nil_append, segmentItems_pushSegment]; rfl⟩
  · rw [List.nil_append] at hfront hitems
    rw [happendParser, happendItems, hparser, hitems, parse_releasing_newline, referenceLine,
      markerLine_of_not_held hfront hheld active]
    refine ⟨rfl, ?_⟩
    rw [segmentItems_pushSegment]
    cases active <;> simp [textSegment, TaggedLineSegment.items]

/-- The end of the text: a line that was held back, and a block that is open. -/
theorem segmentItems_finish (parser : TaggedLineParser T) :
    segmentItems parser.finish.2 =
      if parser.lineBuffer = [] then segmentItems (closing parser.activeTag)
      else segmentItems (parser.endLine []).2 ++
        segmentItems (closing (parser.endLine []).1.activeTag) := by
  simp only [finish]
  split_ifs with hline
  · cases parser.activeTag <;> simp [closing]
  · cases (parser.endLine []).1.activeTag <;> simp [closing]

/-- What follows the last end of a line. -/
theorem parse_finish_rest (hclose : (specs.map TagSpec.closeTag).Nodup) {rest : Text}
    (hrest : '\n' ∉ rest) :
    segmentItems ((detecting specs active []).parse rest).2 ++
        segmentItems ((detecting specs active []).parse rest).1.finish.2 =
      segmentItems (referenceLines specs active [] rest) := by
  by_cases hnil : rest = []
  · subst hnil
    rw [parse_nil, referenceLines, if_pos rfl, segmentItems_finish]
    rfl
  · rw [referenceLines, if_neg hnil]
    rcases @parse_line T _ specs active [] rest hrest with
      ⟨hparser, hitems⟩ | ⟨⟨front, hfront, hheld⟩, hparser, hitems⟩
    · rw [List.nil_append] at hparser
      have hending : (Text.stripSuffixChar '\n' (rest ++ [])).getD (rest ++ []) = rest := by
        have hlast : rest.getLast? ≠ some '\n' := fun h => hrest (List.mem_of_getLast? h)
        simp [Text.stripSuffixChar, hlast]
      have hend := endLine_eq_reference specs active hclose hending
      rw [List.append_nil] at hend
      rw [hparser, hitems, segmentItems_finish]
      change [] ++ (if rest = [] then _ else _) = _
      rw [if_neg hnil, hend]
      simp [detecting, segmentItems_cons]
    · rw [List.nil_append] at hfront hitems
      rw [hparser, hitems, segmentItems_finish, referenceLine,
        markerLine_of_not_held hfront hheld active]
      simp [releasing, segmentItems_cons]

theorem parse_finish_lines (hclose : (specs.map TagSpec.closeTag).Nodup) {lines : List Text}
    {rest : Text} (hlines : ∀ line ∈ lines, '\n' ∉ line) (hrest : '\n' ∉ rest) :
    segmentItems ((detecting specs active []).parse
          ((lines.map (· ++ ['\n'])).flatten ++ rest)).2 ++
        segmentItems ((detecting specs active []).parse
          ((lines.map (· ++ ['\n'])).flatten ++ rest)).1.finish.2 =
      segmentItems (referenceLines specs active lines rest) := by
  induction lines generalizing active with
  | nil => exact parse_finish_rest specs active hclose hrest
  | cons line lines ih =>
      have hline := hlines line List.mem_cons_self
      obtain ⟨hparser, hitems⟩ := parse_terminated specs active hclose hline
      obtain ⟨happendParser, happendItems⟩ := parse_append (detecting specs active [])
        (line ++ ['\n']) ((lines.map (· ++ ['\n'])).flatten ++ rest)
      have hmore := ih (referenceLine specs active line ['\n']).1
        (fun other hother => hlines other (List.mem_cons_of_mem line hother))
      rw [List.map_cons, List.flatten_cons, List.append_assoc, happendParser, happendItems, hparser,
        hitems, List.append_assoc, hmore, referenceLines, segmentItems_cons]

end TaggedLineParser

/-! ### The text of a reference -/

def TaggedLineSegment.text : TaggedLineSegment T → Text
  | .normal text => text
  | .tagStart _ => []
  | .tagDelta _ text => text
  | .tagEnd _ => []

/-- The lines of a text with their ends. -/
def splitInclusive (text : Text) : List Text :=
  (Text.pieces '\n' text).1.map (· ++ ['\n']) ++
    if (Text.pieces '\n' text).2 = [] then [] else [(Text.pieces '\n' text).2]

/-- Some of the lines of a text are markers, and the segments have the text of the others. -/
structure KeepsText (specs : List (TagSpec T)) (text : List Text)
    (segments : List (TaggedLineSegment T)) (lines : List (Text × Bool)) : Prop where
  lines_eq : lines.map Prod.fst = text
  text_eq : segments.flatMap TaggedLineSegment.text =
    ((lines.filter fun line => !line.2).map Prod.fst).flatten
  marker : ∀ line ∈ lines, line.2 = true → ∃ spec ∈ specs,
    spec.openTag = Text.trim line.1 ∨ spec.closeTag = Text.trim line.1

section Reference

variable {specs : List (TagSpec T)} {active : Option T}

theorem referenceLine_text {line ending : Text} (hending : Text.AllWhitespace ending) :
    (referenceLine specs active line ending).2.text = line ++ ending ∨
    ((referenceLine specs active line ending).2.text = [] ∧ ∃ spec ∈ specs,
      spec.openTag = Text.trim (line ++ ending) ∨ spec.closeTag = Text.trim (line ++ ending)) := by
  rw [Text.trim_append_of_allWhitespace line hending, referenceLine]
  cases hmarker : markerLine specs active line with
  | none =>
      left
      cases active <;> rfl
  | some result =>
      right
      unfold markerLine at hmarker
      split at hmarker
      · obtain ⟨spec, hfind, rfl⟩ := Option.map_eq_some_iff.mp hmarker
        have hopen : spec.openTag = Text.trim line := by simpa using List.find?_some hfind
        exact ⟨rfl, spec, List.mem_of_find?_eq_some hfind, .inl hopen⟩
      · split at hmarker
        case isTrue hexists =>
          obtain ⟨spec, hspec, -, hclose⟩ := hexists
          rw [← Option.some.inj hmarker]
          exact ⟨rfl, spec, hspec, .inr hclose⟩
        case isFalse => cases hmarker

omit [DecidableEq T] in
theorem KeepsText.cons {text : List Text} {segments : List (TaggedLineSegment T)}
    {lines : List (Text × Bool)} (h : KeepsText specs text segments lines) {line : Text}
    {segment : TaggedLineSegment T}
    (hline : segment.text = line ∨ (segment.text = [] ∧ ∃ spec ∈ specs,
      spec.openTag = Text.trim line ∨ spec.closeTag = Text.trim line)) :
    ∃ lines, KeepsText specs (line :: text) (segment :: segments) lines := by
  rcases hline with htext | ⟨htext, hmarker⟩
  · refine ⟨(line, false) :: lines, by simp [h.lines_eq], ?_, ?_⟩
    · simp [htext, h.text_eq]
    · intro other hother hmarked
      rcases List.mem_cons.mp hother with rfl | hother
      · cases hmarked
      · exact h.marker other hother hmarked
  · refine ⟨(line, true) :: lines, by simp [h.lines_eq], ?_, ?_⟩
    · simp [htext, h.text_eq]
    · intro other hother hmarked
      rcases List.mem_cons.mp hother with rfl | hother
      · exact hmarker
      · exact h.marker other hother hmarked

omit [DecidableEq T] in
theorem keepsText_closing : KeepsText specs [] (closing active) [] := by
  refine ⟨rfl, ?_, by simp⟩
  cases active <;> rfl

theorem keepsText_referenceLines (specs : List (TagSpec T)) (active : Option T) (lines : List Text)
    (rest : Text) :
    ∃ marked, KeepsText specs
      (lines.map (· ++ ['\n']) ++ if rest = [] then [] else [rest])
      (referenceLines specs active lines rest) marked := by
  induction lines generalizing active with
  | nil =>
      rw [referenceLines, List.map_nil, List.nil_append]
      split
      · exact ⟨[], keepsText_closing⟩
      · have hline := @referenceLine_text T _ specs active rest [] (by simp [Text.AllWhitespace])
        rw [List.append_nil] at hline
        exact keepsText_closing.cons hline
  | cons line lines ih =>
      obtain ⟨marked, hmarked⟩ := @ih (referenceLine specs active line ['\n']).1
      have hnewline : Text.AllWhitespace ['\n'] := by simp [Text.AllWhitespace, Text.isWhitespace]
      exact hmarked.cons (referenceLine_text hnewline)

end Reference

/-- Merging keeps the text. -/
theorem text_mergeSegments (segments : List (TaggedLineSegment T)) :
    (mergeSegments segments).flatMap TaggedLineSegment.text =
      segments.flatMap TaggedLineSegment.text := by
  have htext : ∀ segments : List (TaggedLineSegment T),
      segments.flatMap TaggedLineSegment.text =
        (segmentItems segments).flatMap fun item => item.segment.text := by
    intro segments
    induction segments with
    | nil => rfl
    | cons segment segments ih =>
        rw [List.flatMap_cons, segmentItems_cons, List.flatMap_append, ih]
        congr 1
        cases segment <;>
          simp [TaggedLineSegment.text, TaggedLineSegment.items, SegmentItem.segment,
            List.flatMap_map]
  have hitems : ∀ start : List (TaggedLineSegment T),
      segmentItems (segments.foldl pushSegment start) =
        segmentItems start ++ segmentItems segments := by
    induction segments with
    | nil => simp
    | cons segment segments ih =>
        intro start
        rw [List.foldl_cons, ih, segmentItems_pushSegment, segmentItems_cons, List.append_assoc]
  rw [htext, htext segments, mergeSegments, hitems, segmentItems_nil, List.nil_append]

/-- However a text is cut into chunks, the merged segments are those of its lines, and their text
is that of the lines that are no markers. -/
theorem collect_eq_reference (specs : List (TagSpec T))
    (hclose : (specs.map TagSpec.closeTag).Nodup) (chunks : List Text) :
    mergeSegments (({ specs } : TaggedLineParser T).collect chunks) =
        mergeSegments (reference specs chunks.flatten) ∧
      ∃ lines, KeepsText specs (splitInclusive chunks.flatten)
        (mergeSegments (({ specs } : TaggedLineParser T).collect chunks)) lines := by
  have hmerge : mergeSegments (({ specs } : TaggedLineParser T).collect chunks) =
      mergeSegments (reference specs chunks.flatten) := by
    have hlines := TaggedLineParser.parse_finish_lines specs none hclose
      (fun line hline => Text.sep_not_mem_pieces '\n' chunks.flatten |>.1 line hline)
      (Text.sep_not_mem_pieces '\n' chunks.flatten).2
    rw [Text.flatten_pieces] at hlines
    rw [mergeSegments_eq, TaggedLineParser.segmentItems_collect, mergeSegments_eq, reference,
      ← hlines]
    rfl
  refine ⟨hmerge, ?_⟩
  obtain ⟨lines, hlines⟩ := keepsText_referenceLines specs none
    (Text.pieces '\n' chunks.flatten).1 (Text.pieces '\n' chunks.flatten).2
  refine ⟨lines, hlines.lines_eq, ?_, hlines.marker⟩
  rw [hmerge, text_mergeSegments]
  exact hlines.text_eq

/-- A block whose markers are cut by the chunks, with a line in it that only begins like one. -/
theorem collect_eq_reference_plan :
    mergeSegments (({ specs := [⟨"<plan>".toList, "</plan>".toList, 1⟩] } :
        TaggedLineParser Nat).collect
        ["a\n <pl".toList, "an>\n<planned\n</".toList, "plan>".toList]) =
      mergeSegments (reference [⟨"<plan>".toList, "</plan>".toList, 1⟩]
        ["a\n <pl".toList, "an>\n<planned\n</".toList, "plan>".toList].flatten) ∧
      ∃ lines, KeepsText [⟨"<plan>".toList, "</plan>".toList, 1⟩]
        (splitInclusive ["a\n <pl".toList, "an>\n<planned\n</".toList, "plan>".toList].flatten)
        (mergeSegments (({ specs := [⟨"<plan>".toList, "</plan>".toList, 1⟩] } :
          TaggedLineParser Nat).collect
          ["a\n <pl".toList, "an>\n<planned\n</".toList, "plan>".toList])) lines :=
  collect_eq_reference _ (by decide) _

end Codewith.StreamParser
