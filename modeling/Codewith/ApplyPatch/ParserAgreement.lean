import Codewith.ApplyPatch.UpdateAgreement

/-!
# Where the two parsers agree

On a patch that the batch parser accepts, the streaming parser returns the same
hunks unless the batch parser's leniency came into play: a line break before
the first marker, an indented environment line, a blank line that the batch
parser skips inside an update hunk, a destination or a context that ends in
whitespace, or an indented end marker after an update hunk on a line of its own.
`StreamsAlike` says on the text that none of these occur.
-/

namespace Codewith.ApplyPatch

open Lib

/-! ## States between hunks -/

/-- The last hunk may be left: it is not an update without lines. -/
def Ready (s : StreamingParserState) : Prop := ensureUpdateHunkIsNotEmpty 0 s [] = .ok ()

theorem ensureUpdateHunkIsNotEmpty_cases (lineNumber : Nat) (s : StreamingParserState)
    (line : Text) :
    (Ready s ∧ ensureUpdateHunkIsNotEmpty lineNumber s line = .ok ()) ∨
      (¬ Ready s ∧ ∃ e, ensureUpdateHunkIsNotEmpty lineNumber s line = .error e) := by
  unfold Ready ensureUpdateHunkIsNotEmpty
  split
  · split
    · exact .inr ⟨by simp, _, rfl⟩
    · split
      · refine .inr ⟨by split <;> simp, ?_⟩
        split <;> exact ⟨_, rfl⟩
      · exact .inl ⟨rfl, rfl⟩
  · exact .inl ⟨rfl, rfl⟩

/-- A state in which the next hunk may start, and whether an update hunk is open. -/
inductive Between : StreamingParserState → Bool → Prop
  | started (hunks : List Hunk) : Between ⟨.startedPatch, hunks⟩ false
  | added (hunks : List Hunk) : Between ⟨.addFile, hunks⟩ false
  | deleted (hunks : List Hunk) : Between ⟨.deleteFile, hunks⟩ false
  | updated (n : Nat) (hunks : List Hunk) (path : PathBuf)
      (hunk : Option PathBuf × List UpdateFileChunk) : Between (updating n hunks path hunk) true

theorem ready_updating {n : Nat} {hunks : List Hunk} {path : PathBuf} {movePath : Option PathBuf}
    {chunks : List UpdateFileChunk} (hchunks : chunks ≠ [])
    (hfilled : lastChunkIsEmpty chunks = false) :
    Ready (updating n hunks path (movePath, chunks)) := by
  cases chunks with
  | nil => exact (hchunks rfl).elim
  | cons chunk chunks => simp [Ready, ensureUpdateHunkIsNotEmpty, updating, hfilled]

theorem ready_added (mode : StreamingParserMode) (hunks : List Hunk) (path : PathBuf)
    (contents : Text) : Ready ⟨mode, hunks ++ [.addFile path contents]⟩ := by
  simp [Ready, ensureUpdateHunkIsNotEmpty]

theorem ready_deleted (mode : StreamingParserMode) (hunks : List Hunk) (path : PathBuf) :
    Ready ⟨mode, hunks ++ [.deleteFile path]⟩ := by
  simp [Ready, ensureUpdateHunkIsNotEmpty]

theorem not_header_of_environment {line : Text} (lineNumber : Nat) (s : StreamingParserState)
    (h : environmentIdMarker <+: Text.trimStart line) :
    headerStep lineNumber s (Text.trim line) = none := by
  have hknown : "*** En".toList ++ ['v'] <+: Text.trimStart line :=
    List.IsPrefix.trans (by decide) h
  exact headerStep_eq_none (prefix_trimEnd (by decide) hknown) (by decide)

/-- A header is taken in the same way wherever a hunk may start. -/
theorem processLine_header {s s' : StreamingParserState} {inUpdate : Bool} {line : Text}
    {lineNumber : Nat} (h : Between s inUpdate)
    (hline : inUpdate = true → line.head? = some '*')
    (hstep : headerStep lineNumber s (Text.trim line) = some s') :
    (Ready s ∧ processLine lineNumber s line = .ok s') ∨
      (¬ Ready s ∧ ∃ e, processLine lineNumber s line = .error e) := by
  have hhandle : (Ready s ∧ handleHunkHeadersAndEndPatch lineNumber s (Text.trim line) =
      .ok (some s')) ∨
      (¬ Ready s ∧ ∃ e, handleHunkHeadersAndEndPatch lineNumber s (Text.trim line) =
        .error e) := by
    rw [handleHunkHeadersAndEndPatch, hstep]
    rcases ensureUpdateHunkIsNotEmpty_cases lineNumber s (Text.trim line) with
      ⟨hready, hok⟩ | ⟨hready, e, herror⟩
    · exact .inl ⟨hready, by simp only [hok]; rfl⟩
    · exact .inr ⟨hready, e, by simp only [herror]; rfl⟩
  have henvironment : ¬ environmentIdMarker <+: line := by
    intro hpre
    have hstar : line.head? = some '*' := by
      obtain ⟨rest, rfl⟩ := hpre
      rfl
    rw [← Text.trimStart_of_head hstar rfl] at hpre
    rw [not_header_of_environment lineNumber s hpre] at hstep
    cases hstep
  rcases hhandle with ⟨hready, hhandle⟩ | ⟨hready, e, hhandle⟩
  · refine .inl ⟨hready, ?_⟩
    cases h with
    | updated n hunks path hunk =>
        rw [Text.trim_of_head (hline rfl) rfl] at hhandle
        simp only [updating] at hhandle
        simp only [processLine, updating, hhandle]
        rfl
    | _ =>
        simp only [processLine, henvironment, if_false, hhandle]
        rfl
  · refine .inr ⟨hready, e, ?_⟩
    cases h with
    | updated n hunks path hunk =>
        rw [Text.trim_of_head (hline rfl) rfl] at hhandle
        simp only [updating] at hhandle
        simp only [processLine, updating, hhandle]
        rfl
    | _ =>
        simp only [processLine, henvironment, if_false, hhandle]
        rfl

/-! ## One hunk -/

def Place.inUpdate (place : Place) : Bool := place ≠ .outside

def Hunk.isUpdate : Hunk → Bool
  | .updateFile .. => true
  | _ => false

theorem headerStep_addFile (lineNumber : Nat) (s : StreamingParserState) (path : PathBuf) :
    headerStep lineNumber s (addFileMarker ++ path) =
      some ⟨.addFile, s.hunks ++ [.addFile path []]⟩ := by
  have hend : addFileMarker ++ path ≠ endPatchMarker := by
    intro heq
    exact absurd (heq ▸ List.prefix_append addFileMarker path : addFileMarker <+: endPatchMarker)
      (by decide)
  unfold headerStep
  rw [if_neg hend, stripPrefix_append]

theorem headerStep_deleteFile (lineNumber : Nat) (s : StreamingParserState) (path : PathBuf) :
    headerStep lineNumber s (deleteFileMarker ++ path) =
      some ⟨.deleteFile, s.hunks ++ [.deleteFile path]⟩ := by
  have hend : deleteFileMarker ++ path ≠ endPatchMarker := by
    intro heq
    exact absurd (heq ▸ List.prefix_append deleteFileMarker path :
      deleteFileMarker <+: endPatchMarker) (by decide)
  unfold headerStep
  rw [if_neg hend, stripPrefix_eq_none (List.prefix_append deleteFileMarker path)
    (by decide), stripPrefix_append]

theorem headerStep_updateFile (lineNumber : Nat) (s : StreamingParserState) (path : PathBuf) :
    headerStep lineNumber s (updateFileMarker ++ path) =
      some (updating lineNumber s.hunks path (none, [])) := by
  have hend : updateFileMarker ++ path ≠ endPatchMarker := by
    intro heq
    exact absurd (heq ▸ List.prefix_append updateFileMarker path :
      updateFileMarker <+: endPatchMarker) (by decide)
  unfold headerStep
  rw [if_neg hend, stripPrefix_eq_none (List.prefix_append updateFileMarker path)
    (by decide), stripPrefix_eq_none (List.prefix_append updateFileMarker path)
    (by decide), stripPrefix_append]
  rfl

/-- Two different headers cannot start one line. -/
theorem not_prefix_of_known {marker known line : Text} (hknown : known <+: line)
    (h : ¬ (marker <+: known ∨ known <+: marker)) : ¬ marker <+: line := by
  intro hmarker
  rcases Nat.le_total marker.length known.length with hle | hle
  · exact h (.inl (List.prefix_of_prefix_length_le hmarker hknown hle))
  · exact h (.inr (List.prefix_of_prefix_length_le hknown hmarker hle))

/-- Where a header stands, the scan only looks at which one it is. -/
theorem Place.next_header {place : Place} {header marker path : Text}
    (hheader : Text.trim header = marker ++ path)
    (hstar : place.inUpdate = true → header.head? = some '*')
    (hmarker : marker = addFileMarker ∨ marker = deleteFileMarker ∨ marker = updateFileMarker) :
    place.next header = some (if marker = updateFileMarker then .opened else .outside) := by
  have hother : ∀ other ∈ [moveToMarker, eofMarker],
      ¬ (other <+: marker ∨ marker <+: other) := by
    rcases hmarker with rfl | rfl | rfl <;> decide
  have hupdate : updateFileMarker <+: marker ++ path ↔ marker = updateFileMarker := by
    rcases hmarker with rfl | rfl | rfl
    · exact iff_of_false (not_prefix_of_known (List.prefix_append _ path) (by decide))
        (by decide)
    · exact iff_of_false (not_prefix_of_known (List.prefix_append _ path) (by decide))
        (by decide)
    · exact iff_of_true (List.prefix_append _ path) rfl
  by_cases hplace : place = .outside
  · subst hplace
    simp only [Place.next, if_true, hheader, hupdate]
  · have hhead : header.head? = some '*' := hstar (by simpa [Place.inUpdate] using hplace)
    have hpre : marker ++ path <+: header := by
      rw [← hheader, Text.trim_of_head hhead rfl]
      exact Text.trimEnd_prefix_self header
    have hknown : marker <+: header := (List.prefix_append marker path).trans hpre
    have hblank : Text.trim header ≠ [] := by
      rw [hheader]
      rcases hmarker with rfl | rfl | rfl <;> exact List.cons_ne_nil _ _
    have hcontext : ¬ changeContextMarker <+: header := by
      apply not_prefix_of_head_ne (c := '@') (by decide)
      intro rest hrest
      rw [hrest] at hhead
      exact absurd hhead (by simp)
    have hmove := not_prefix_of_known hknown (hother moveToMarker (by simp))
    have heof : header ≠ eofMarker := by
      rintro rfl
      exact hother eofMarker (by simp) (.inr hknown)
    rw [Place.next, if_neg hplace, if_neg hblank, if_neg hcontext, if_neg hmove]
    rcases hmarker with rfl | rfl | rfl
    · have hno : ¬ updateFileMarker <+: header := not_prefix_of_known hknown (by decide)
      rw [if_neg (by simp [hno, heof]), if_pos (.inl hknown), if_neg (by decide)]
    · have hno : ¬ updateFileMarker <+: header := not_prefix_of_known hknown (by decide)
      rw [if_neg (by simp [hno, heof]), if_pos (.inr hknown), if_neg (by decide)]
    · rw [if_pos (.inl hknown), if_pos rfl]

/-- The streaming parser reads a header and the lines of its hunk as the batch
parser did exactly if it may leave the hunk before and the scan goes through. -/
structure StreamedHunk (header : Text) (body : List Text) (hunk : Hunk) : Prop where
  of_feed : ∀ {lineNumber : Nat} {s s' : StreamingParserState} {place : Place},
    Between s place.inUpdate → (place.inUpdate = true → header.head? = some '*') →
    feedLines lineNumber s (header :: body) = .ok s' →
    Ready s ∧ Between s' hunk.isUpdate ∧ ∃ hunk', s'.hunks = s.hunks ++ [hunk'] ∧
      (hunk' = hunk → ∃ place', place.scan (header :: body) = some place')
  of_scan : ∀ (lineNumber : Nat) {s : StreamingParserState} {place place' : Place},
    Between s place.inUpdate → (place.inUpdate = true → header.head? = some '*') → Ready s →
    place.scan (header :: body) = some place' →
    place'.inUpdate = hunk.isUpdate ∧ ∃ s', feedLines lineNumber s (header :: body) = .ok s' ∧
      Between s' hunk.isUpdate ∧ Ready s' ∧ s'.hunks = s.hunks ++ [hunk]

/-- It is enough to follow the lines of the hunk from the state its header leaves. -/
theorem StreamedHunk.of_body {header marker path : Text} {body : List Text} {hunk : Hunk}
    (start : Nat → List Hunk → StreamingParserState)
    (hmarker : marker = addFileMarker ∨ marker = deleteFileMarker ∨ marker = updateFileMarker)
    (hheader : Text.trim header = marker ++ path)
    (hstep : ∀ lineNumber s,
      headerStep lineNumber s (marker ++ path) = some (start lineNumber s.hunks))
    (hfeed : ∀ {lineNumber n : Nat} {hunks : List Hunk} {s' : StreamingParserState},
      feedLines lineNumber (start n hunks) body = .ok s' →
      Between s' hunk.isUpdate ∧ ∃ hunk', s'.hunks = hunks ++ [hunk'] ∧ (hunk' = hunk →
        ∃ place', (if marker = updateFileMarker then Place.opened else .outside).scan body =
          some place'))
    (hscan : ∀ {place' : Place},
      (if marker = updateFileMarker then Place.opened else .outside).scan body = some place' →
      place'.inUpdate = hunk.isUpdate ∧ ∀ lineNumber n hunks, ∃ s',
        feedLines lineNumber (start n hunks) body = .ok s' ∧ Between s' hunk.isUpdate ∧ Ready s' ∧
          s'.hunks = hunks ++ [hunk]) :
    StreamedHunk header body hunk where
  of_feed := by
    intro lineNumber s s' place hs hstar hok
    have hfirst := processLine_header hs hstar (hheader ▸ hstep (lineNumber + 1) s)
    rcases hfirst with ⟨hready, hline⟩ | ⟨-, e, hline⟩
    · rw [feedLines_cons_ok hline] at hok
      obtain ⟨hbetween, hunk', hhunks, himp⟩ := hfeed hok
      refine ⟨hready, hbetween, hunk', hhunks, fun heq => ?_⟩
      rw [Place.scan_cons, Place.next_header hheader hstar hmarker]
      exact himp heq
    · rw [feedLines_cons_error hline] at hok
      cases hok
  of_scan := by
    intro lineNumber s place place' hs hstar hready hok
    rw [Place.scan_cons, Place.next_header hheader hstar hmarker] at hok
    obtain ⟨hplace, hbody⟩ := hscan hok
    have hfirst := processLine_header hs hstar (hheader ▸ hstep (lineNumber + 1) s)
    rcases hfirst with ⟨-, hline⟩ | ⟨hnot, -⟩
    · rw [feedLines_cons_ok hline]
      exact ⟨hplace, hbody (lineNumber + 1) (lineNumber + 1) s.hunks⟩
    · exact absurd hready hnot

theorem addedLines_spec (lines : List Text) :
    lines = (addedLines lines).map ('+' :: ·) ++ lines.drop (addedLines lines).length := by
  fun_induction addedLines lines with
  | case1 line lines ih => simpa using ih
  | case2 => rfl

theorem trim_plus (line : Text) : ∃ rest, Text.trim ('+' :: line) = '+' :: rest := by
  rw [Text.trim_of_head (c := '+') rfl rfl]
  have hpre : [] ++ ['+'] <+: Text.trimEnd ('+' :: line) :=
    prefix_trimEnd rfl (List.prefix_append ['+'] line)
  obtain ⟨rest, hrest⟩ := hpre
  exact ⟨rest, hrest.symm⟩

theorem processLine_plus (lineNumber : Nat) (hunks : List Hunk) (path : PathBuf)
    (contents line : Text) :
    processLine lineNumber ⟨.addFile, hunks ++ [.addFile path contents]⟩ ('+' :: line) =
      .ok ⟨.addFile, hunks ++ [.addFile path (contents ++ line ++ ['\n'])]⟩ := by
  obtain ⟨rest, hrest⟩ := trim_plus line
  have hstep : headerStep lineNumber ⟨.addFile, hunks ++ [.addFile path contents]⟩
      (Text.trim ('+' :: line)) = none := by
    rw [hrest]
    exact headerStep_of_head_ne (by simp)
  have hplus : Text.stripPrefix ['+'] ('+' :: line) = some line := stripPrefix_append ['+'] line
  simp only [processLine, handleHunkHeadersAndEndPatch, hstep, hplus, bind, Except.bind,
    List.getLast?_concat, List.dropLast_concat]
  rfl

theorem feedLines_added (lineNumber : Nat) (hunks : List Hunk) (path : PathBuf) (contents : Text)
    (added : List Text) :
    feedLines lineNumber ⟨.addFile, hunks ++ [.addFile path contents]⟩ (added.map ('+' :: ·)) =
      .ok ⟨.addFile, hunks ++ [.addFile path (contents ++ addedContents added)]⟩ := by
  induction added generalizing lineNumber contents with
  | nil => simp [feedLines, addedContents]
  | cons line added ih =>
      rw [List.map_cons, feedLines_cons_ok (processLine_plus _ hunks path contents line), ih]
      simp [addedContents]

theorem scan_added (added : List Text) :
    Place.outside.scan (added.map ('+' :: ·)) = some .outside := by
  induction added with
  | nil => rfl
  | cons line added ih =>
      obtain ⟨rest, hrest⟩ := trim_plus line
      have hno : ¬ updateFileMarker <+: '+' :: rest :=
        not_prefix_of_head_ne (c := '*') (by decide) (by simp)
      have hnext : Place.outside.next ('+' :: line) = some .outside := by
        rw [Place.next, if_pos rfl, hrest, if_neg hno]
      rw [List.map_cons, Place.scan_cons, hnext]
      exact ih

theorem streamedHunk_addFile {header path : Text}
    (hheader : Text.trim header = addFileMarker ++ path) (added : List Text) :
    StreamedHunk header (added.map ('+' :: ·)) (.addFile path (addedContents added)) := by
  have hfeed := fun lineNumber hunks => feedLines_added lineNumber hunks path [] added
  have hmarker : (if addFileMarker = updateFileMarker then Place.opened else .outside) =
      .outside := if_neg (by decide)
  refine StreamedHunk.of_body
    (fun _ hunks => ⟨.addFile, hunks ++ [.addFile path []]⟩) (.inl rfl) hheader
    (fun lineNumber s => headerStep_addFile lineNumber s path) ?_ ?_
  · intro lineNumber n hunks s' hok
    rw [hfeed] at hok
    cases hok
    refine ⟨.added _, _, rfl, fun _ => ?_⟩
    rw [hmarker]
    exact ⟨.outside, scan_added added⟩
  · intro place' hscan
    rw [hmarker, scan_added] at hscan
    cases hscan
    exact ⟨rfl, fun lineNumber n hunks =>
      ⟨_, hfeed lineNumber hunks, .added _, ready_added _ _ _ _, rfl⟩⟩

theorem streamedHunk_deleteFile {header path : Text}
    (hheader : Text.trim header = deleteFileMarker ++ path) :
    StreamedHunk header [] (.deleteFile path) := by
  have hmarker : (if deleteFileMarker = updateFileMarker then Place.opened else .outside) =
      .outside := if_neg (by decide)
  refine StreamedHunk.of_body
    (fun _ hunks => ⟨.deleteFile, hunks ++ [.deleteFile path]⟩) (.inr (.inl rfl)) hheader
    (fun lineNumber s => headerStep_deleteFile lineNumber s path) ?_ ?_
  · intro lineNumber n hunks s' hok
    cases hok
    exact ⟨.deleted _, _, rfl, fun _ => ⟨_, rfl⟩⟩
  · intro place' hscan
    rw [hmarker] at hscan
    cases hscan
    exact ⟨rfl, fun lineNumber n hunks => ⟨_, rfl, .deleted _, ready_deleted _ _ _, rfl⟩⟩

theorem streamedHunk_updateFile {header path : Text} {body : List Text}
    {movePath : Option PathBuf} {chunks : List UpdateFileChunk}
    (hheader : Text.trim header = updateFileMarker ++ path)
    (h : StreamedUpdate body movePath chunks) :
    StreamedHunk header body (.updateFile path movePath chunks) := by
  refine StreamedHunk.of_body
    (fun n hunks => updating n hunks path (none, [])) (.inr (.inr rfl)) hheader
    (fun lineNumber s => headerStep_updateFile lineNumber s path) ?_ ?_
  · intro lineNumber n hunks s' hok
    rw [feedLines_updating h.notHeader] at hok
    cases hfeed : feedUpdate lineNumber body (none, []) with
    | error e =>
        rw [hfeed] at hok
        cases hok
    | ok hunk' =>
        rw [hfeed] at hok
        cases hok
        refine ⟨.updated n hunks path hunk', _, rfl, fun heq => ?_⟩
        have hsame : hunk' = (movePath, chunks) := by
          cases heq
          rfl
        rw [if_pos rfl]
        exact h.scan_of_feed lineNumber (hsame ▸ hfeed)
  · intro place' hscan
    rw [if_pos rfl] at hscan
    obtain ⟨hplace, hfeed⟩ := h.feed_of_scan place' hscan
    refine ⟨by simpa [Place.inUpdate, Hunk.isUpdate] using hplace, fun lineNumber n hunks => ?_⟩
    refine ⟨updating n hunks path (movePath, chunks), ?_, .updated n hunks path _,
      ready_updating h.nonempty h.filled, rfl⟩
    rw [feedLines_updating h.notHeader, hfeed lineNumber]
    rfl

theorem parseOneHunk_streamed {header : Text} {lines : List Text} {lineNumber k : Nat} {hunk : Hunk}
    (h : parseOneHunk (header :: lines) lineNumber = .ok (hunk, k)) :
    ∃ body rest, lines = body ++ rest ∧ k = body.length + 1 ∧ StreamedHunk header body hunk ∧
      (hunk.isUpdate = true → StartsHeader rest) := by
  simp only [parseOneHunk, List.headD_cons, List.tail_cons] at h
  split at h
  · rename_i path hpath
    cases h
    refine ⟨_, _, addedLines_spec lines, by simp [Nat.add_comm],
      streamedHunk_addFile (stripPrefix_eq_some.1 hpath) _, by simp [Hunk.isUpdate]⟩
  · split at h
    · rename_i path hpath
      cases h
      exact ⟨[], lines, rfl, rfl, streamedHunk_deleteFile (stripPrefix_eq_some.1 hpath),
        by simp [Hunk.isUpdate]⟩
    · split at h
      · rename_i path hpath
        obtain ⟨body, rest, movePath, chunks, rfl, hlines, hk, hrest, hstreamed⟩ :=
          parseUpdateFile_streamed h
        exact ⟨body, rest, hlines, hk,
          streamedHunk_updateFile (stripPrefix_eq_some.1 hpath) hstreamed, fun _ => hrest⟩
      · cases h

/-! ## All hunks -/

theorem feedLines_append_ok {lineNumber : Nat} {s s' : StreamingParserState} {as : List Text}
    (h : feedLines lineNumber s as = .ok s') (bs : List Text) :
    feedLines lineNumber s (as ++ bs) = feedLines (lineNumber + as.length) s' bs := by
  rw [feedLines_append, h]
  rfl

theorem exists_of_feedLines_append {lineNumber : Nat} {s s' : StreamingParserState}
    {as bs : List Text} (h : feedLines lineNumber s (as ++ bs) = .ok s') :
    ∃ middle, feedLines lineNumber s as = .ok middle ∧
      feedLines (lineNumber + as.length) middle bs = .ok s' := by
  rw [feedLines_append] at h
  cases hmiddle : feedLines lineNumber s as with
  | error e =>
      rw [hmiddle] at h
      cases h
  | ok middle =>
      rw [hmiddle] at h
      exact ⟨middle, rfl, h⟩

/-- The hunks of a patch, one after the other. -/
theorem parseHunks_cases {bound : Nat} {lines : List Text} {lineNumber : Nat} {hunks : List Hunk}
    (h : parseHunks (bound + 1) lines lineNumber = .ok hunks) :
    (lines = [] ∧ hunks = []) ∨
      ∃ header body rest hunk more, lines = (header :: body) ++ rest ∧ hunks = hunk :: more ∧
        StreamedHunk header body hunk ∧ (hunk.isUpdate = true → StartsHeader rest) ∧
        parseHunks bound rest (lineNumber + (body.length + 1)) = .ok more := by
  cases lines with
  | nil =>
      cases h
      exact .inl ⟨rfl, rfl⟩
  | cons header lines =>
      simp only [parseHunks, bind, Except.bind] at h
      split at h
      · cases h
      · rename_i parsed hparsed
        obtain ⟨hunk, k⟩ := parsed
        obtain ⟨body, rest, rfl, rfl, hstreamed, hrest⟩ := parseOneHunk_streamed hparsed
        have hdrop : (header :: (body ++ rest)).drop (body.length + 1) = rest := by simp
        simp only [hdrop] at h
        split at h
        · cases h
        · rename_i more hmore
          cases h
          exact .inr ⟨header, body, rest, hunk, more, rfl, rfl, hstreamed, hrest, hmore⟩

/-- If the streaming parser reads the lines at all, it reads the hunks of the
batch parser only if the scan goes through. -/
theorem parseHunks_of_feed {bound : Nat} {lines : List Text} {n lineNumber : Nat}
    {hunks : List Hunk} {s s' : StreamingParserState} {place : Place}
    (h : parseHunks bound lines n = .ok hunks) (hbound : lines.length ≤ bound)
    (hs : Between s place.inUpdate) (hlines : place.inUpdate = true → StartsHeader lines)
    (hok : feedLines lineNumber s lines = .ok s') :
    ∃ hunks', s'.hunks = s.hunks ++ hunks' ∧ hunks'.length = hunks.length ∧
      ∃ inUpdate, Between s' inUpdate ∧ (hunks' = hunks → ∃ place',
        place.scan lines = some place' ∧ place'.inUpdate = inUpdate) := by
  induction bound generalizing lines n lineNumber hunks s place with
  | zero =>
      obtain rfl := List.eq_nil_of_length_eq_zero (Nat.le_zero.1 hbound)
      cases h
      cases hok
      exact ⟨[], by simp, rfl, place.inUpdate, hs, fun _ => ⟨place, rfl, rfl⟩⟩
  | succ bound ih =>
      rcases parseHunks_cases h with ⟨rfl, rfl⟩ | ⟨header, body, rest, hunk, more, rfl, rfl,
        hstreamed, hrest, hmore⟩
      · cases hok
        exact ⟨[], by simp, rfl, place.inUpdate, hs, fun _ => ⟨place, rfl, rfl⟩⟩
      · obtain ⟨middle, hfirst, hlast⟩ := exists_of_feedLines_append hok
        obtain ⟨hready, hmiddle, hunk', hhunks, hscan⟩ :=
          hstreamed.of_feed hs (fun hin => hlines hin header rfl) hfirst
        rw [List.length_append, List.length_cons] at hbound
        -- The scan goes on after this hunk, or, if it stopped, from a place of the same kind.
        obtain ⟨place₁, hplace₁, hscan₁⟩ : ∃ place₁ : Place, place₁.inUpdate = hunk.isUpdate ∧
            (hunk' = hunk → place.scan (header :: body) = some place₁) := by
          by_cases hsame : hunk' = hunk
          · obtain ⟨place₁, hscan₁⟩ := hscan hsame
            have hkind := hstreamed.of_scan 0 hs
              (fun hin => hlines hin header rfl) hready hscan₁
            exact ⟨place₁, hkind.1, fun _ => hscan₁⟩
          · cases hunk.isUpdate with
            | true => exact ⟨.opened, rfl, fun heq => absurd heq hsame⟩
            | false => exact ⟨.outside, rfl, fun heq => absurd heq hsame⟩
        obtain ⟨more', hmore', hlength, inUpdate, hs', himp⟩ :=
          ih hmore (by omega) (hplace₁ ▸ hmiddle) (fun hin => hrest (hplace₁ ▸ hin)) hlast
        refine ⟨hunk' :: more', ?_, by simp [hlength], inUpdate, hs', fun heq => ?_⟩
        · rw [hmore', hhunks]
          simp
        · obtain ⟨hsame, hmoreSame⟩ := List.cons.inj heq
          obtain ⟨place', hscan', hplace'⟩ := himp hmoreSame
          refine ⟨place', ?_, hplace'⟩
          rw [Place.scan_append, hscan₁ hsame]
          exact hscan'

/-- If the scan goes through, the streaming parser reads the hunks of the batch parser. -/
theorem parseHunks_of_scan (lineNumber : Nat) {bound : Nat} {lines : List Text} {n : Nat}
    {hunks : List Hunk} {s : StreamingParserState} {place place' : Place}
    (h : parseHunks bound lines n = .ok hunks) (hbound : lines.length ≤ bound)
    (hs : Between s place.inUpdate) (hlines : place.inUpdate = true → StartsHeader lines)
    (hready : Ready s) (hscan : place.scan lines = some place') :
    ∃ s', feedLines lineNumber s lines = .ok s' ∧ Between s' place'.inUpdate ∧ Ready s' ∧
      s'.hunks = s.hunks ++ hunks := by
  induction bound generalizing lines n lineNumber hunks s place with
  | zero =>
      obtain rfl := List.eq_nil_of_length_eq_zero (Nat.le_zero.1 hbound)
      cases h
      cases hscan
      exact ⟨s, rfl, hs, hready, by simp⟩
  | succ bound ih =>
      rcases parseHunks_cases h with ⟨rfl, rfl⟩ | ⟨header, body, rest, hunk, more, rfl, rfl,
        hstreamed, hrest, hmore⟩
      · cases hscan
        exact ⟨s, rfl, hs, hready, by simp⟩
      · rw [List.length_append, List.length_cons] at hbound
        rw [Place.scan_append, Option.bind_eq_some_iff] at hscan
        obtain ⟨place₁, hscan₁, hscan⟩ := hscan
        obtain ⟨hplace₁, middle, hfirst, hmiddle, hreadyMiddle, hhunks⟩ :=
          hstreamed.of_scan lineNumber hs (fun hin => hlines hin header rfl) hready hscan₁
        obtain ⟨s', hlast, hs', hready', hmore'⟩ :=
          ih (lineNumber + (header :: body).length) hmore (by omega) (hplace₁ ▸ hmiddle)
            (fun hin => hrest (hplace₁ ▸ hin)) hreadyMiddle hscan
        refine ⟨s', ?_, hs', hready', ?_⟩
        · rw [feedLines_append_ok hfirst]
          exact hlast
        · rw [hmore', hhunks]
          simp

/-! ## The end marker -/

/-- The last line of the patch and the whitespace after it. -/
def finishPatch (lineNumber : Nat) (s : StreamingParserState) (last trail : Text) :
    Except ParseError (List Hunk) := do
  let ending := Text.prepend last (Text.pieces '\n' trail)
  let s ← feedLines lineNumber s (ending.1.map Text.dropCarriageReturn)
  finishHunks (lineNumber + ending.1.length) s ending.2

theorem feedLines_ended (lineNumber : Nat) (hunks : List Hunk) (lines : List Text) :
    feedLines lineNumber ⟨.endedPatch, hunks⟩ lines = .ok ⟨.endedPatch, hunks⟩ := by
  induction lines generalizing lineNumber with
  | nil => rfl
  | cons line lines ih => exact ih (lineNumber + 1)

theorem finishHunks_ended (lineNumber : Nat) (hunks : List Hunk) {rest : Text}
    (h : Text.AllWhitespace rest) :
    finishHunks lineNumber ⟨.endedPatch, hunks⟩ rest = .ok hunks := by
  have hblank : Text.trim rest ≠ endPatchMarker := by
    rw [Text.trim_eq_nil_iff.2 h]
    decide
  unfold finishHunks StreamingPatchParser.finish StreamingPatchParser.finishLine
  by_cases hrest : rest = []
  · simp only [hrest, if_true]
    rfl
  · simp only [hrest, hblank, if_false]
    rfl

theorem headerStep_end (lineNumber : Nat) (s : StreamingParserState) :
    headerStep lineNumber s endPatchMarker = some { s with mode := .endedPatch } := by
  rw [headerStep, if_pos rfl]

/-- Without a line break after it, the end marker is taken wherever it stands. -/
theorem finishPatch_unterminated {lineNumber : Nat} {s : StreamingParserState} {last trail : Text}
    (hlast : Text.trim last = endPatchMarker) (htrail : Text.AllWhitespace trail)
    (hbreak : '\n' ∉ trail) (hunks : List Hunk) :
    finishPatch lineNumber s last trail = .ok hunks ↔ Ready s ∧ hunks = s.hunks := by
  have hpieces : Text.pieces '\n' trail = ([], trail) := by
    have hflat := Text.flatten_pieces '\n' trail
    rw [Text.pieces_fst_eq_nil_iff.2 hbreak] at hflat
    exact Prod.ext (Text.pieces_fst_eq_nil_iff.2 hbreak) hflat
  have htrim : Text.trim (last ++ trail) = endPatchMarker := by
    rw [Text.trim_append_of_allWhitespace _ htrail, hlast]
  have hne : last ++ trail ≠ [] := by
    intro hnil
    rw [hnil] at htrim
    exact absurd htrim (by decide)
  simp only [finishPatch, hpieces, Text.prepend, List.map_nil, feedLines, bind, Except.bind,
    finishHunks, StreamingPatchParser.finish, StreamingPatchParser.finishLine, hne, if_false,
    htrim, if_true, List.length_nil, Nat.add_zero]
  rcases ensureUpdateHunkIsNotEmpty_cases (lineNumber + 1) s endPatchMarker with
    ⟨hready, hok⟩ | ⟨hready, e, herror⟩
  · simp [hok, hready, pure, Except.pure, eq_comm]
  · simp [herror, hready]

theorem head_dropCarriageReturn {last q : Text} (hlast : Text.trim last = endPatchMarker) :
    (Text.dropCarriageReturn (last ++ q)).head? = last.head? := by
  cases last with
  | nil => exact absurd hlast (by decide)
  | cons c last =>
      rcases Text.dropCarriageReturn_eq (c :: last ++ q) with heq | heq
      · rw [← heq]
        rfl
      · cases hline : Text.dropCarriageReturn (c :: last ++ q) with
        | nil =>
            -- The line would be the carriage return alone.
            rw [hline] at heq
            have hnil : last = [] := List.append_eq_nil_iff.1 (List.cons.inj heq).2 |>.1
            rw [hnil, (List.cons.inj heq).1] at hlast
            exact absurd hlast (by decide)
        | cons d rest =>
            rw [hline] at heq
            rw [(List.cons.inj heq).1]
            rfl

theorem finishHunks_updating {lineNumber n : Nat} {hunks : List Hunk} {path : PathBuf}
    {hunk : Option PathBuf × List UpdateFileChunk} {rest : Text} (h : Text.AllWhitespace rest)
    (hunks' : List Hunk) :
    finishHunks lineNumber (updating n hunks path hunk) rest ≠ .ok hunks' := by
  have hblank : Text.trim rest = [] := Text.trim_eq_nil_iff.2 h
  have hend : ([] : Text) ≠ endPatchMarker := by decide
  unfold finishHunks StreamingPatchParser.finish StreamingPatchParser.finishLine
  by_cases hrest : rest = []
  · simp [hrest, updating, bind, Except.bind, throw, throwThe, MonadExceptOf.throw]
  · simp only [hrest, hblank, hend, if_false,
      processLine_updating _ n hunks path hunk (notHeader_of_blank hblank)]
    cases processUpdateLine (lineNumber + 1) rest hunk.1 hunk.2 with
    | error e => simp [Except.map, bind, Except.bind]
    | ok hunk' =>
        simp [Except.map, updating, bind, Except.bind, throw, throwThe, MonadExceptOf.throw]

/-- On a line of its own, an indented end marker is a context line of an open update hunk. -/
theorem finishPatch_terminated {lineNumber : Nat} {s : StreamingParserState} {inUpdate : Bool}
    {last trail : Text} (hs : Between s inUpdate) (hlast : Text.trim last = endPatchMarker)
    (htrimmed : Text.trimEnd last = last) (htrail : Text.AllWhitespace trail)
    (hbreak : '\n' ∈ trail) (hunks : List Hunk) :
    finishPatch lineNumber s last trail = .ok hunks ↔
      Ready s ∧ hunks = s.hunks ∧ (inUpdate = false ∨ last = endPatchMarker) := by
  rcases hpieces : Text.pieces '\n' trail with ⟨_ | ⟨q, more⟩, rest⟩
  · exact absurd hbreak (Text.pieces_fst_eq_nil_iff.1 (by rw [hpieces]))
  have hmem : ∀ p ∈ q :: more, Text.AllWhitespace p := by
    intro p hp c hc
    have hpiece : p ∈ (Text.pieces '\n' trail).1 := by
      rw [hpieces]
      exact hp
    exact htrail c (Text.mem_of_mem_pieces hpiece hc)
  have hrest : Text.AllWhitespace rest := by
    intro c hc
    have hflat := Text.flatten_pieces '\n' trail
    rw [hpieces] at hflat
    exact htrail c (by rw [← hflat]; exact List.mem_append_right _ hc)
  have htrim : Text.trim (Text.dropCarriageReturn (last ++ q)) = endPatchMarker := by
    rw [Text.trim_dropCarriageReturn,
      Text.trim_append_of_allWhitespace _ (hmem q List.mem_cons_self), hlast]
  simp only [finishPatch, hpieces, Text.prepend, List.map_cons]
  by_cases hplain : inUpdate = false ∨ last = endPatchMarker
  · have hstar : inUpdate = true →
        (Text.dropCarriageReturn (last ++ q)).head? = some '*' := by
      intro hin
      rw [head_dropCarriageReturn hlast, hplain.resolve_left (by simp [hin])]
      rfl
    have hstep := headerStep_end (lineNumber + 1) s
    rw [← htrim] at hstep
    rcases processLine_header hs hstar hstep with ⟨hready, hline⟩ | ⟨hready, e, hline⟩
    · rw [feedLines_cons_ok hline, feedLines_ended]
      simp only [bind, Except.bind, finishHunks_ended _ _ hrest]
      simp [hready, hplain, eq_comm]
    · rw [feedLines_cons_error hline]
      simp [bind, Except.bind, hready]
  · refine iff_of_false ?_ (fun h => hplain h.2.2)
    obtain ⟨hin, hindented⟩ := not_or.1 hplain
    cases hs with
    | updated n done path hunk =>
        have hhead : ∃ c, last.head? = some c ∧ c ≠ '*' := by
          cases last with
          | nil => exact absurd hlast (by decide)
          | cons c rest =>
              refine ⟨c, rfl, ?_⟩
              rintro rfl
              rw [Text.trim_of_head (c := '*') rfl rfl, htrimmed] at hlast
              exact hindented hlast
        obtain ⟨c, hc, hne⟩ := hhead
        have hlines : ∀ line ∈ Text.dropCarriageReturn (last ++ q) ::
            more.map Text.dropCarriageReturn, NotHeader line := by
          intro line hline
          rcases List.mem_cons.1 hline with rfl | hline
          · exact notHeader_of_head ((head_dropCarriageReturn hlast).trans hc) hne
          · obtain ⟨p, hp, rfl⟩ := List.mem_map.1 hline
            apply notHeader_of_blank
            rw [Text.trim_dropCarriageReturn]
            exact Text.trim_eq_nil_iff.2 (hmem p (List.mem_cons_of_mem q hp))
        rw [feedLines_updating hlines]
        cases feedUpdate lineNumber (Text.dropCarriageReturn (last ++ q) ::
            more.map Text.dropCarriageReturn) hunk with
        | error e => simp [Except.map, bind, Except.bind]
        | ok hunk' => exact finishHunks_updating hrest hunks
    | _ => exact (hin rfl).elim

theorem finishPatch_ok_iff {lineNumber : Nat} {s : StreamingParserState} {inUpdate : Bool}
    {last trail : Text} (hs : Between s inUpdate) (hlast : Text.trim last = endPatchMarker)
    (htrimmed : Text.trimEnd last = last) (htrail : Text.AllWhitespace trail)
    (hunks : List Hunk) :
    finishPatch lineNumber s last trail = .ok hunks ↔ Ready s ∧ hunks = s.hunks ∧
      (inUpdate = false ∨ last = endPatchMarker ∨ '\n' ∉ trail) := by
  by_cases hbreak : '\n' ∈ trail
  · rw [finishPatch_terminated hs hlast htrimmed htrail hbreak]
    simp [hbreak]
  · rw [finishPatch_unterminated hlast htrail hbreak]
    simp [hbreak]

/-! ## The whole patch -/

/-- The lines between the first and the last one. -/
def hunkLines (patch : Text) : List Text := (Text.lines (Text.trim patch)).tail.dropLast

def endLine (patch : Text) : Text := (Text.lines (Text.trim patch)).getLastD []

/-- The patch is wrapped into a shell heredoc. -/
def heredocWrapped (patch : Text) : Bool :=
  (Text.lines (Text.trim patch)).head?.any isHeredocStart

/-- Nothing in the text calls for the batch parser's leniency. -/
structure StreamsAlike (patch : Text) : Prop where
  firstLine : '\n' ∉ Text.leading patch
  environmentLine : ∀ line ∈ (hunkLines patch).head?,
    environmentIdMarker <+: Text.trimStart line → environmentIdMarker <+: line
  scan : ∃ place, Place.outside.scan (hunkLines patch) = some place ∧
    (place = .outside ∨ endLine patch = endPatchMarker ∨ '\n' ∉ Text.trailing patch)

theorem checkPatchBoundariesStrict_ok {lines : List Text} {parts : List Text × List Text}
    (h : checkPatchBoundariesStrict lines = .ok parts) :
    parts.2 = lines.tail.dropLast ∧ lines.head?.map Text.trim = some beginPatchMarker ∧
      lines.getLast?.map Text.trim = some endPatchMarker := by
  simp only [checkPatchBoundariesStrict, checkStartAndEndLinesStrict, bind, Except.bind] at h
  split at h
  · cases h
  · rename_i hcheck
    cases h
    refine ⟨rfl, ?_⟩
    split at hcheck
    · rename_i first last hfirst hlast
      split at hcheck
      · rename_i hboth
        exact ⟨hfirst.trans (by rw [hboth.1]), hlast.trans (by rw [hboth.2])⟩
      · split at hcheck <;> cases hcheck
    · split at hcheck <;> cases hcheck
    · cases hcheck

theorem checkPatchBoundariesLenient_ok {lines : List Text} {parts : List Text × List Text}
    (h : checkPatchBoundariesLenient lines = .ok parts)
    (hplain : lines.head?.any isHeredocStart = false) :
    checkPatchBoundariesStrict lines = .ok parts := by
  unfold checkPatchBoundariesLenient at h
  split at h
  · rename_i parts' hstrict
    rw [hstrict]
    exact h
  · split at h
    · rename_i first last hfirst hlast
      rw [hfirst, Option.any_some] at hplain
      rw [if_neg (by simp [hplain])] at h
      cases h
    · cases h

/-- What the batch parser accepts: the two markers around the lines of the hunks. -/
theorem parsePatch_accepted {patch : Text} {args : ApplyPatchArgs}
    (h : parsePatch patch = .ok args) (hplain : heredocWrapped patch = false) :
    ∃ first lines last, Text.pieces '\n' (Text.trim patch) = (first :: lines, last) ∧
      Text.trim first = beginPatchMarker ∧ Text.trim last = endPatchMarker ∧
      Text.trimEnd last = last ∧ endLine patch = last ∧
      hunkLines patch = lines.map Text.dropCarriageReturn ∧
      ∃ environmentId remaining n,
        parseEnvironmentIdPreamble (hunkLines patch) = .ok (environmentId, remaining, n) ∧
        parseHunks remaining.length remaining n = .ok args.hunks := by
  simp only [parsePatch, parseInStrictMode, Bool.false_eq_true, if_false, parsePatchText, bind,
    Except.bind] at h
  split at h
  · cases h
  · rename_i parts hparts
    obtain ⟨hbody, hfirst, hlast⟩ :=
      checkPatchBoundariesStrict_ok (checkPatchBoundariesLenient_ok hparts hplain)
    have hne : Text.trim patch ≠ [] := by
      intro hnil
      rw [hnil] at hfirst
      cases hfirst
    obtain ⟨hrest, htrimmed⟩ :=
      Text.pieces_snd_of_trimmed hne (Text.trimEnd_trimEnd (Text.trimStart patch))
    rcases hpieces : Text.pieces '\n' (Text.trim patch) with ⟨pieces, last⟩
    rw [hpieces] at hrest htrimmed
    have hlines : Text.lines (Text.trim patch) = pieces.map Text.dropCarriageReturn ++ [last] := by
      rw [Text.lines, hpieces]
      simp [hrest]
    rw [hlines] at hfirst hlast hbody
    rw [List.getLast?_concat, Option.map_some, Option.some.injEq] at hlast
    cases pieces with
    | nil =>
        -- One line cannot be both markers.
        have hsame : Text.trim last = beginPatchMarker := Option.some.inj hfirst
        rw [hlast] at hsame
        exact absurd hsame (by decide)
    | cons first lines =>
        have hbegin : Text.trim first = beginPatchMarker := by
          simpa using hfirst
        have hhunks : hunkLines patch = lines.map Text.dropCarriageReturn := by
          rw [hunkLines, hlines]
          simp
        have hparts2 : parts.2 = hunkLines patch := by
          rw [hbody, hunkLines, hlines]
        rw [hparts2] at h
        split at h
        · cases h
        · rename_i preamble hpreamble
          obtain ⟨environmentId, remaining, n⟩ := preamble
          simp only at h
          split at h
          · cases h
          · rename_i hunks hparsed
            cases h
            refine ⟨first, lines, last, rfl, hbegin, hlast, htrimmed, ?_, hhunks, environmentId,
              remaining, n, hpreamble, hparsed⟩
            rw [endLine, hlines, List.getLastD_eq_getLast?, List.getLast?_concat]
            rfl

theorem streamPatch_of_leading {deltas : List Text} (h : '\n' ∈ Text.leading deltas.flatten)
    (hunks : List Hunk) : streamPatch deltas ≠ .ok hunks := by
  have hsplit : Text.leading deltas.flatten ++ Text.trimStart deltas.flatten = deltas.flatten :=
    List.takeWhile_append_dropWhile
  rcases hpieces : Text.pieces '\n' (Text.leading deltas.flatten) with ⟨_ | ⟨p, more⟩, rest⟩
  · exact absurd h (Text.pieces_fst_eq_nil_iff.1 (by rw [hpieces]))
  · have hblank : Text.trim p = [] := by
      rw [Text.trim_eq_nil_iff]
      intro c hc
      have hp : p ∈ (Text.pieces '\n' (Text.leading deltas.flatten)).1 := by
        rw [hpieces]
        exact List.mem_cons_self
      exact Text.allWhitespace_leading _ c (Text.mem_of_mem_pieces hp hc)
    have hfirst : (Text.pieces '\n' deltas.flatten).1 = p :: (more ++
        (Text.prepend rest (Text.pieces '\n' (Text.trimStart deltas.flatten))).1) := by
      rw [← hsplit, Text.pieces_append, hpieces, hsplit]
      rfl
    have hline : processLine 1 ⟨.notStarted, []⟩ (Text.dropCarriageReturn p) =
        .error (.invalidPatchError firstLineMessage) := by
      simp only [processLine, Text.trim_dropCarriageReturn, hblank]
      rw [if_neg (by decide)]
    rw [streamPatch_eq, hfirst, List.map_cons, feedLines_cons_error hline]
    simp [bind, Except.bind]

/-- After the first marker, the streaming parser is fed the lines of the hunks
and then the end of the patch. -/
theorem streamPatch_of_lines {deltas : List Text} {first last : Text} {lines : List Text}
    (hpieces : Text.pieces '\n' (Text.trim deltas.flatten) = (first :: lines, last))
    (hfirst : Text.trim first = beginPatchMarker) (hne : Text.trim deltas.flatten ≠ [])
    (hlead : '\n' ∉ Text.leading deltas.flatten) :
    streamPatch deltas =
      (feedLines 1 ⟨.startedPatch, []⟩ (lines.map Text.dropCarriageReturn) >>= fun s =>
        finishPatch (1 + lines.length) s last (Text.trailing deltas.flatten)) := by
  have hall : Text.pieces '\n' deltas.flatten =
      ((Text.leading deltas.flatten ++ first) :: (lines ++
        (Text.prepend last (Text.pieces '\n' (Text.trailing deltas.flatten))).1),
        (Text.prepend last (Text.pieces '\n' (Text.trailing deltas.flatten))).2) := by
    conv_lhs => rw [← Text.leading_append_trim_append_trailing hne]
    rw [Text.pieces_append_of_not_mem hlead, Text.pieces_append, hpieces]
    rfl
  have hbegin : processLine 1 ⟨.notStarted, []⟩
      (Text.dropCarriageReturn (Text.leading deltas.flatten ++ first)) =
      .ok ⟨.startedPatch, []⟩ := by
    simp only [processLine, Text.trim_dropCarriageReturn,
      Text.trim_of_allWhitespace_append (Text.allWhitespace_leading _), hfirst, if_true]
  rw [streamPatch_eq, hall, List.map_cons, feedLines_cons_ok hbegin, List.map_append,
    feedLines_append]
  cases feedLines 1 ⟨.startedPatch, []⟩ (lines.map Text.dropCarriageReturn) with
  | error e => rfl
  | ok s =>
      simp only [finishPatch, bind, Except.bind, List.length_map, List.length_cons,
        List.length_append]
      congr 1
      funext s'
      congr 1
      omega

/-- The streaming parser takes an environment line only where it is not indented. -/
theorem environmentLine_streamed {lines remaining : List Text} {environmentId : Option Text}
    {n : Nat} (h : parseEnvironmentIdPreamble lines = .ok (environmentId, remaining, n)) :
    Place.outside.scan lines = Place.outside.scan remaining ∧
      (((∀ line ∈ lines.head?, environmentIdMarker <+: Text.trimStart line →
          environmentIdMarker <+: line) ∧ ∃ lineNumber, feedLines 1 ⟨.startedPatch, []⟩ lines =
          feedLines lineNumber ⟨.startedPatch, []⟩ remaining) ∨
        (¬ (∀ line ∈ lines.head?, environmentIdMarker <+: Text.trimStart line →
          environmentIdMarker <+: line) ∧ ∃ e, feedLines 1 ⟨.startedPatch, []⟩ lines =
          .error e)) := by
  cases lines with
  | nil =>
      cases h
      exact ⟨rfl, .inl ⟨by simp, 1, rfl⟩⟩
  | cons line rest =>
      rw [parseEnvironmentIdPreamble] at h
      split at h
      · rename_i hnone
        cases h
        refine ⟨rfl, .inl ⟨?_, 1, rfl⟩⟩
        rintro _ ⟨⟩ ⟨id, hid⟩
        rw [← hid, stripPrefix_append] at hnone
        cases hnone
      · rename_i id hid
        split at h
        · cases h
        · cases h
          have hpre : environmentIdMarker <+: Text.trimStart line :=
            ⟨id, (stripPrefix_eq_some.1 hid).symm⟩
          have hscan : Place.outside.next line = some .outside := by
            have hknown : "*** ".toList ++ ['E'] <+: Text.trim line :=
              prefix_trimEnd rfl (List.IsPrefix.trans (by decide) hpre)
            rw [Place.next, if_pos rfl, if_neg (not_prefix_of_known hknown (by decide))]
          refine ⟨by rw [Place.scan_cons, hscan]; rfl, ?_⟩
          by_cases hline : environmentIdMarker <+: line
          · have hstep :
                processLine (1 + 1) ⟨.startedPatch, []⟩ line = .ok ⟨.startedPatch, []⟩ := by
              simp only [processLine, hline, if_true]
            exact .inl ⟨by simpa using fun _ => hline, 1 + 1, feedLines_cons_ok hstep _⟩
          · refine .inr ⟨fun hall => hline (hall line rfl hpre), ?_⟩
            have hstep : processLine (1 + 1) ⟨.startedPatch, []⟩ line =
                .error (.invalidHunkError (invalidHeaderMessage (Text.trim line)) (1 + 1)) := by
              simp only [processLine, hline, if_false, handleHunkHeadersAndEndPatch,
                not_header_of_environment _ _ hpre]
              rfl
            exact ⟨_, feedLines_cons_error hstep _⟩

/-- However an accepted patch is cut into deltas, the streaming parser finishes
with the hunks of the batch parser exactly if the text is of the kind that needs
no leniency. -/
theorem streamPatch_eq_iff_streamsAlike {patch : Text} {args : ApplyPatchArgs}
    {deltas : List Text} (h : parsePatch patch = .ok args) (hplain : heredocWrapped patch = false)
    (hdeltas : deltas.flatten = patch) :
    streamPatch deltas = .ok args.hunks ↔ StreamsAlike patch := by
  obtain ⟨first, lines, last, hpieces, hfirst, hlast, htrimmed, hend, hlines, environmentId,
    remaining, n, hpreamble, hparsed⟩ := parsePatch_accepted h hplain
  have hne : Text.trim patch ≠ [] := by
    intro hnil
    rw [hnil] at hpieces
    cases hpieces
  have htrail := Text.allWhitespace_trailing patch
  have hstart : Between ⟨.startedPatch, []⟩ Place.outside.inUpdate := .started []
  have hready : Ready ⟨.startedPatch, []⟩ := rfl
  subst hdeltas
  by_cases hlead : '\n' ∈ Text.leading deltas.flatten
  · exact iff_of_false (streamPatch_of_leading hlead args.hunks) fun hs => hs.firstLine hlead
  rw [streamPatch_of_lines hpieces hfirst hne hlead, ← hlines]
  obtain ⟨hscan, ⟨henvironment, lineNumber, hfeed⟩ | ⟨henvironment, e, hfeed⟩⟩ :=
    environmentLine_streamed hpreamble
  · rw [hfeed]
    constructor
    · intro hstream
      cases hs : feedLines lineNumber ⟨.startedPatch, []⟩ remaining with
      | error e =>
          rw [hs] at hstream
          cases hstream
      | ok s =>
          rw [hs] at hstream
          obtain ⟨hunks, hhunks, -, inUpdate, hbetween, himp⟩ :=
            parseHunks_of_feed hparsed le_rfl hstart (by simp [Place.inUpdate]) hs
          obtain ⟨-, hsame, hending⟩ :=
            (finishPatch_ok_iff hbetween hlast htrimmed htrail args.hunks).1 hstream
          obtain ⟨place, hplace, hin⟩ := himp (by simpa [hhunks] using hsame.symm)
          refine ⟨hlead, henvironment, place, hscan.trans hplace, ?_⟩
          rw [hend]
          refine hending.imp_left fun hout => ?_
          simpa [Place.inUpdate] using hin.trans hout
    · rintro ⟨-, -, place, hplace, hending⟩
      obtain ⟨s, hs, hbetween, hready, hhunks⟩ :=
        parseHunks_of_scan lineNumber hparsed le_rfl hstart (by simp [Place.inUpdate]) hready
          (hscan.symm.trans hplace)
      rw [hs]
      apply (finishPatch_ok_iff hbetween hlast htrimmed htrail args.hunks).2
      rw [hend] at hending
      refine ⟨hready, by simpa using hhunks.symm, hending.imp_left fun hout => ?_⟩
      rw [hout]
      rfl
  · rw [hfeed]
    exact iff_of_false (by simp [bind, Except.bind]) fun hs => henvironment hs.environmentLine

/-- An update of one line. -/
def oneUpdate : Text :=
  "*** Begin Patch\n*** Update File: a\n@@\n-1\n+2\n*** End Patch\n".toList

def oneUpdateHunks : List Hunk := [.updateFile ['a'] none [⟨none, [['1']], [['2']], false⟩]]

theorem streamPatch_eq_iff_streamsAlike_oneUpdate :
    streamPatch [oneUpdate.take 20, oneUpdate.drop 20] = .ok oneUpdateHunks := by
  have hparsed : parsePatch oneUpdate = .ok ⟨oneUpdate.dropLast, oneUpdateHunks, none, none⟩ := by
    decide +kernel
  have hplain : heredocWrapped oneUpdate = false := by decide +kernel
  have halike : StreamsAlike oneUpdate :=
    ⟨by decide +kernel, by decide +kernel, .inChunk, by decide +kernel⟩
  exact (streamPatch_eq_iff_streamsAlike hparsed hplain (by decide +kernel)).2 halike

/-- The same update with a blank line after its header. -/
def spacedUpdate : Text :=
  "*** Begin Patch\n*** Update File: a\n\n@@\n-1\n+2\n*** End Patch\n".toList

/-- The batch parser skips the blank line; the streaming parser makes it a chunk. -/
theorem blank_line_streamed_as_chunk :
    (∃ args, parsePatch spacedUpdate = .ok args ∧ args.hunks = oneUpdateHunks) ∧
      heredocWrapped spacedUpdate = false ∧
      streamPatch [spacedUpdate] = .ok
        [.updateFile ['a'] none [⟨none, [[]], [[]], false⟩, ⟨none, [['1']], [['2']], false⟩]] ∧
      streamPatch [spacedUpdate] ≠ .ok oneUpdateHunks := by
  refine ⟨⟨⟨spacedUpdate.dropLast, oneUpdateHunks, none, none⟩, ?_, rfl⟩, ?_, ?_, ?_⟩ <;>
    decide +kernel

end Codewith.ApplyPatch
