import Codewith.ApplyPatch.UpdateLines

/-!
# Update hunks in the two parsers

What the batch parser makes of the lines of an update hunk, the streaming parser
makes of them exactly if the scan of `Place` goes through.  That it does where
the scan goes through is shown by running both.  That it does not where the scan
stops is shown by counting: the batch parser's chunks have as many kept lines and
as much context as their lines add up to only if no line was skipped and nothing
would have been trimmed.
-/

namespace Codewith.ApplyPatch

open Lib

/-! ## The body of a chunk -/

/-- The batch parser took `body` into the chunk, and the streaming parser does
the same to the last chunk of its hunk. -/
structure ChunkBody (chunk : UpdateFileChunk) (body : List Text) (chunk' : UpdateFileChunk)
    (place : Place) : Prop where
  notHeader : ∀ line ∈ body, NotHeader line
  noContext : ∀ line ∈ body, contextLine line = 0
  kept : chunk'.oldLines.length = chunk.oldLines.length + (body.map keptLine).sum
  context : chunk'.changeContext = chunk.changeContext
  filled : chunk'.isEmpty = false
  scan : Place.inChunk.scan body = some place
  feed : ∀ lineNumber movePath done,
    feedUpdate lineNumber body (movePath, done ++ [chunk]) = .ok (movePath, done ++ [chunk'])

/-- Where a chunk may end: at an end-of-file marker, or before a line that is
not one of its lines. -/
def EndsBefore (place : Place) (rest : List Text) : Prop :=
  place = .opened ∨ (place = .inChunk ∧ ∀ line ∈ rest.head?, chunkLine line = none)

theorem EndsBefore.ne_outside {place : Place} {rest : List Text} (h : EndsBefore place rest) :
    place ≠ .outside := by
  rintro rfl
  rcases h with h | ⟨h, -⟩ <;> cases h

theorem ChunkBody.nil {chunk : UpdateFileChunk} (h : chunk.isEmpty = false) :
    ChunkBody chunk [] chunk .inChunk where
  notHeader := by simp
  noContext := by simp
  kept := rfl
  context := rfl
  filled := h
  scan := rfl
  feed := fun _ _ _ => rfl

theorem ChunkBody.eof {chunk : UpdateFileChunk} (h : chunk.isEmpty = false) :
    ChunkBody chunk [eofMarker] chunk.markEndOfFile .opened where
  notHeader := by
    intro line hline
    rw [List.mem_singleton.1 hline]
    exact notHeader_eofMarker
  noContext := by
    intro line hline
    rw [List.mem_singleton.1 hline]
    decide
  kept := by
    have hzero : keptLine eofMarker = 0 := by decide
    simp [UpdateFileChunk.markEndOfFile, hzero]
  context := rfl
  filled := h
  scan := by
    rw [Place.scan_cons, Place.next_eofMarker]
    rfl
  feed := by
    intro lineNumber movePath done
    have hfilled : lastChunkIsEmpty (done ++ [chunk]) = false := by
      rw [lastChunkIsEmpty_concat, h]
    have hline := processUpdateLine_eof hfilled (lineNumber + 1) movePath
    rw [feedUpdate_cons_ok hline, mapLastChunk_concat]
    rfl

theorem ChunkBody.cons {chunk chunk' : UpdateFileChunk} {line : Text} {body : List Text}
    {place : Place} {f : UpdateFileChunk → UpdateFileChunk} (hf : chunkLine line = some f)
    (h : ChunkBody (f chunk) body chunk' place) : ChunkBody chunk (line :: body) chunk' place where
  notHeader := by
    intro l hl
    rcases List.mem_cons.1 hl with rfl | hl
    · exact notHeader_chunkLine hf
    · exact h.notHeader l hl
  noContext := by
    intro l hl
    rcases List.mem_cons.1 hl with rfl | hl
    · exact contextLine_chunkLine hf
    · exact h.noContext l hl
  kept := by
    have hold := (oldLines_chunkLine hf chunk).1
    have hkept := h.kept
    rw [List.map_cons, List.sum_cons]
    omega
  context := h.context.trans (oldLines_chunkLine hf chunk).2.1
  filled := h.filled
  scan := by
    rw [Place.scan_cons, Place.next_of_chunkLine (by decide) hf (.inl rfl)]
    exact h.scan
  feed := by
    intro lineNumber movePath done
    have hline := processUpdateLine_chunkLine hf (lineNumber + 1) movePath (done ++ [chunk])
    rw [pushChunkLine_concat] at hline
    rw [feedUpdate_cons_ok hline]
    exact h.feed (lineNumber + 1) movePath done

/-- The lines the batch parser takes into a chunk that is either just opened,
with a line to come, or has lines already. -/
theorem parseChunkLines_body {lineNumber k k' : Nat} {lines : List Text}
    {chunk chunk' : UpdateFileChunk}
    (h : parseChunkLines lineNumber lines chunk k = .ok (chunk', k'))
    (hlines : k = 0 → lines ≠ []) (hchunk : k ≠ 0 → chunk.isEmpty = false) :
    ∃ body rest place, lines = body ++ rest ∧ k' = k + body.length ∧
      ChunkBody chunk body chunk' place ∧ EndsBefore place rest := by
  induction lines generalizing chunk k with
  | nil =>
      cases h
      exact ⟨[], [], .inChunk, rfl, rfl, .nil (hchunk fun hk => hlines hk rfl),
        .inr ⟨rfl, by simp⟩⟩
  | cons line lines ih =>
      rw [parseChunkLines] at h
      split at h
      · rename_i heof
        split at h
        · cases h
        · rename_i hk
          cases h
          subst heof
          exact ⟨[eofMarker], lines, .opened, rfl, rfl, .eof (hchunk hk), .inl rfl⟩
      · split at h
        · rename_i f hf
          obtain ⟨body, rest, place, hbody, hk', hchunkBody, hend⟩ :=
            ih h (fun hk => absurd hk (Nat.succ_ne_zero k))
              (fun _ => (oldLines_chunkLine hf chunk).2.2)
          refine ⟨line :: body, rest, place, by rw [hbody]; rfl, ?_, hchunkBody.cons hf, hend⟩
          rw [List.length_cons]
          omega
        · rename_i hnone
          split at h
          · cases h
          · rename_i hk
            cases h
            exact ⟨[], line :: lines, .inChunk, rfl, rfl, .nil (hchunk hk),
              .inr ⟨rfl, by simpa using hnone⟩⟩

/-! ## The chunks of a hunk -/

/-- The batch parser turned `chunks` into `chunks'` over the lines of `body`.
The streaming parser does so too exactly if the scan goes through. -/
structure Segment (place : Place) (body : List Text) (place' : Place)
    (chunks chunks' : List UpdateFileChunk) : Prop where
  notHeader : ∀ line ∈ body, NotHeader line
  kept_le : keptLines chunks' ≤ keptLines chunks + (body.map keptLine).sum
  context_le : contextLength chunks + (body.map contextLine).sum ≤ contextLength chunks'
  scan_of_exact : keptLines chunks' = keptLines chunks + (body.map keptLine).sum →
    contextLength chunks' = contextLength chunks + (body.map contextLine).sum →
    place.scan body = some place'
  filled : lastChunkIsEmpty chunks = false → lastChunkIsEmpty chunks' = false
  feed : ∀ reached, place.scan body = some reached → reached = place' ∧
    (lastChunkIsEmpty chunks = false → ∀ lineNumber movePath,
      feedUpdate lineNumber body (movePath, chunks) = .ok (movePath, chunks'))

theorem Segment.nil (place : Place) (chunks : List UpdateFileChunk) :
    Segment place [] place chunks chunks where
  notHeader := by simp
  kept_le := le_rfl
  context_le := le_rfl
  scan_of_exact := fun _ _ => rfl
  filled := id
  feed := fun _ hreached => ⟨(Option.some.inj hreached).symm, fun _ _ _ => rfl⟩

theorem Segment.append {place place' place'' : Place} {as bs : List Text}
    {chunks chunks' chunks'' : List UpdateFileChunk} (ha : Segment place as place' chunks chunks')
    (hb : Segment place' bs place'' chunks' chunks'') :
    Segment place (as ++ bs) place'' chunks chunks'' where
  notHeader := by
    intro line hline
    rcases List.mem_append.1 hline with hline | hline
    · exact ha.notHeader line hline
    · exact hb.notHeader line hline
  kept_le := by
    have hkept := ha.kept_le
    have hkept' := hb.kept_le
    rw [List.map_append, List.sum_append]
    omega
  context_le := by
    have hcontext := ha.context_le
    have hcontext' := hb.context_le
    rw [List.map_append, List.sum_append]
    omega
  scan_of_exact := by
    intro hkept hcontext
    have hkepta := ha.kept_le
    have hkeptb := hb.kept_le
    have hcontexta := ha.context_le
    have hcontextb := hb.context_le
    rw [List.map_append, List.sum_append] at hkept hcontext
    rw [Place.scan_append, ha.scan_of_exact (by omega) (by omega)]
    exact hb.scan_of_exact (by omega) (by omega)
  filled := fun h => hb.filled (ha.filled h)
  feed := by
    intro reached hreached
    rw [Place.scan_append, Option.bind_eq_some_iff] at hreached
    obtain ⟨middle, hmiddle, hreached⟩ := hreached
    obtain ⟨rfl, hfeeda⟩ := ha.feed middle hmiddle
    obtain ⟨rfl, hfeedb⟩ := hb.feed reached hreached
    refine ⟨rfl, fun hfilled lineNumber movePath => ?_⟩
    rw [feedUpdate_append, hfeeda hfilled lineNumber movePath]
    exact hfeedb (ha.filled hfilled) (lineNumber + as.length) movePath

/-- A blank line that the batch parser skips is one too many for the streaming parser. -/
theorem Segment.skip {place : Place} {line : Text} (chunks : List UpdateFileChunk)
    (hline : Text.trim line = []) (hplace : place ≠ .outside)
    (h : place = .opened ∨ chunkLine line = none) : Segment place [line] .opened chunks chunks := by
  have hscan : place.scan [line] = none := by
    rw [Place.scan_cons, Place.next_of_blank hplace hline h]
    rfl
  have hkept : keptLine line = 1 := if_pos (.inl hline)
  exact {
    notHeader := by
      intro l hl
      rw [List.mem_singleton.1 hl]
      exact notHeader_of_blank hline
    kept_le := by simp
    context_le := by simp [contextLine_of_blank hline]
    scan_of_exact := by
      intro hexact
      simp [hkept] at hexact
    filled := id
    feed := by
      intro reached hreached
      rw [hscan] at hreached
      cases hreached }

/-- A line that opens a chunk, followed by the lines of the chunk. -/
theorem Segment.chunk {place place' : Place} {first : Text} {body : List Text}
    {chunks : List UpdateFileChunk} {opened chunk : UpdateFileChunk}
    (hbody : ChunkBody opened body chunk place') (hfirst : NotHeader first)
    (hkept : keptLine first = opened.oldLines.length)
    (hcontext : contextLine first ≤ (opened.changeContext.map (·.length + 1)).getD 0)
    (hexact : contextLine first = (opened.changeContext.map (·.length + 1)).getD 0 →
      place.next first = some .inChunk)
    (hopen : ∀ reached, place.next first = some reached → reached = .inChunk ∧
      (lastChunkIsEmpty chunks = false → ∀ lineNumber movePath,
        processUpdateLine lineNumber first movePath chunks = .ok (movePath, chunks ++ [opened]))) :
    Segment place (first :: body) place' chunks (chunks ++ [chunk]) := by
  have hold := hbody.kept
  have hnone : (body.map contextLine).sum = 0 := by
    rw [List.sum_eq_zero]
    intro n hn
    obtain ⟨line, hline, rfl⟩ := List.mem_map.1 hn
    exact hbody.noContext line hline
  exact {
    notHeader := by
      intro line hline
      rcases List.mem_cons.1 hline with rfl | hline
      · exact hfirst
      · exact hbody.notHeader line hline
    kept_le := by
      rw [keptLines_concat, List.map_cons, List.sum_cons]
      omega
    context_le := by
      rw [contextLength_concat, List.map_cons, List.sum_cons, hbody.context, hnone]
      omega
    scan_of_exact := by
      intro _ hsame
      rw [contextLength_concat, List.map_cons, List.sum_cons, hbody.context, hnone] at hsame
      rw [Place.scan_cons, hexact (by omega)]
      exact hbody.scan
    filled := fun _ => by rw [lastChunkIsEmpty_concat, hbody.filled]
    feed := by
      intro reached hreached
      rw [Place.scan_cons, Option.bind_eq_some_iff] at hreached
      obtain ⟨middle, hmiddle, hreached⟩ := hreached
      obtain ⟨rfl, hfeed⟩ := hopen middle hmiddle
      rw [hbody.scan] at hreached
      refine ⟨(Option.some.inj hreached).symm, fun hfilled lineNumber movePath => ?_⟩
      rw [feedUpdate_cons_ok (hfeed hfilled (lineNumber + 1) movePath)]
      exact hbody.feed (lineNumber + 1) movePath chunks }

theorem Segment.emptyContext {place place' : Place} {body : List Text}
    {chunks : List UpdateFileChunk} {chunk : UpdateFileChunk} (hplace : place ≠ .outside)
    (hbody : ChunkBody (.start none) body chunk place') :
    Segment place (emptyChangeContextMarker :: body) place' chunks (chunks ++ [chunk]) := by
  have hnext : place.next emptyChangeContextMarker = some .inChunk :=
    Place.next_of_no_marker hplace (by decide) (by decide) (by decide)
  have hcontext : contextLine emptyChangeContextMarker = 0 := by decide
  have hkept : keptLine emptyChangeContextMarker = 0 := by decide
  refine Segment.chunk hbody (notHeader_of_head (c := '@') rfl (by decide)) hkept hcontext.le
    (fun _ => hnext) ?_
  intro reached hreached
  rw [hnext] at hreached
  exact ⟨(Option.some.inj hreached).symm, fun hfilled lineNumber movePath =>
    processUpdateLine_emptyContext hfilled lineNumber movePath⟩

/-- Trimming can only shorten a context. -/
theorem contextLine_le (context : Text) :
    contextLine (changeContextMarker ++ context) ≤ context.length + 1 ∧
      (contextLine (changeContextMarker ++ context) = context.length + 1 →
        Text.trimEnd (changeContextMarker ++ context) = changeContextMarker ++ context) := by
  unfold contextLine
  cases htrimmed : Text.stripPrefix changeContextMarker
      (Text.trimEnd (changeContextMarker ++ context)) with
  | none => simp
  | some trimmed =>
      rw [stripPrefix_eq_some] at htrimmed
      have hpre := Text.trimEnd_prefix_self (changeContextMarker ++ context)
      have hlength := hpre.length_le
      simp only [htrimmed, List.length_append] at hlength
      refine ⟨by simpa using hlength, fun heq => hpre.eq_of_length ?_⟩
      simp only [Option.map_some, Option.getD_some] at heq
      rw [htrimmed, List.length_append, List.length_append]
      omega

theorem Segment.context {place place' : Place} {context : Text} {body : List Text}
    {chunks : List UpdateFileChunk} {chunk : UpdateFileChunk} (hplace : place ≠ .outside)
    (hbody : ChunkBody (.start (some context)) body chunk place') :
    Segment place ((changeContextMarker ++ context) :: body) place' chunks (chunks ++ [chunk]) := by
  have hat : (changeContextMarker ++ context).head? = some '@' := rfl
  have hblank : Text.trim (changeContextMarker ++ context) ≠ [] := by
    intro hnil
    exact absurd (Text.trim_eq_nil_iff.1 hnil '@' (List.mem_of_mem_head? hat)) (by decide)
  have hkept : keptLine (changeContextMarker ++ context) = 0 := by
    simp [keptLine, hblank, hat]
  have hnext := Place.next_of_context hplace hblank (List.prefix_append changeContextMarker context)
  obtain ⟨hle, hexact⟩ := contextLine_le context
  refine Segment.chunk hbody (notHeader_of_head hat (by decide)) hkept hle
    (fun heq => by rw [hnext, if_pos (hexact heq)]) ?_
  intro reached hreached
  rw [hnext] at hreached
  split at hreached
  · rename_i htrim
    exact ⟨(Option.some.inj hreached).symm, fun hfilled lineNumber movePath =>
      processUpdateLine_context hfilled htrim lineNumber movePath⟩
  · cases hreached

/-- The first chunk may start without a context line. -/
theorem Segment.headless {place place' : Place} {first : Text} {body : List Text}
    {f : UpdateFileChunk → UpdateFileChunk} {chunk : UpdateFileChunk} (hplace : place ≠ .outside)
    (hf : chunkLine first = some f) (hblank : Text.trim first ≠ [])
    (hbody : ChunkBody (f (.start none)) body chunk place') :
    Segment place (first :: body) place' [] ([] ++ [chunk]) := by
  have hnext := Place.next_of_chunkLine hplace hf (.inr hblank)
  obtain ⟨hold, hcontext, -⟩ := oldLines_chunkLine hf (.start none)
  have hkept : keptLine first = (f (.start none)).oldLines.length := by
    rw [hold]
    simp [UpdateFileChunk.start]
  refine Segment.chunk hbody (notHeader_chunkLine hf) hkept
    (by rw [contextLine_chunkLine hf]; omega) (fun _ => hnext) ?_
  intro reached hreached
  rw [hnext] at hreached
  exact ⟨(Option.some.inj hreached).symm, fun _ lineNumber movePath =>
    processUpdateLine_chunkLine hf lineNumber movePath []⟩

theorem parseUpdateFileChunk_segment {first : Text} {lines : List Text} {lineNumber k : Nat}
    {chunks : List UpdateFileChunk} {chunk : UpdateFileChunk} {place : Place}
    (h : parseUpdateFileChunk (first :: lines) lineNumber chunks.isEmpty = .ok (chunk, k))
    (hblank : Text.trim first ≠ []) (hplace : place ≠ .outside) :
    ∃ body rest place', first :: lines = (first :: body) ++ rest ∧ k = body.length + 1 ∧
      Segment place (first :: body) place' chunks (chunks ++ [chunk]) ∧ EndsBefore place' rest := by
  simp only [parseUpdateFileChunk, parseChangeContext, bind, Except.bind] at h
  split at h
  · cases h
  · rename_i header hheader
    obtain ⟨changeContext, startIndex⟩ := header
    simp only at h
    split at h
    · cases h
    · rename_i hlength
      split at h
      · cases h
      · rename_i parsed hparsed
        obtain ⟨chunk', k'⟩ := parsed
        cases h
        -- The header decides whether the first line belongs to the body.
        split at hheader
        · rename_i hempty
          cases hheader
          subst hempty
          have hlines : lines ≠ [] := by
            rintro rfl
            exact hlength (by simp)
          obtain ⟨body, rest, place', hbody, hk, hchunk, hend⟩ :=
            parseChunkLines_body hparsed (fun _ => hlines) (by simp)
          refine ⟨body, rest, place', ?_, by omega, Segment.emptyContext hplace hchunk, hend⟩
          rw [List.drop_one, List.tail_cons] at hbody
          rw [hbody]
          rfl
        · split at hheader
          · rename_i context hcontext
            cases hheader
            rw [stripPrefix_eq_some] at hcontext
            subst hcontext
            have hlines : lines ≠ [] := by
              rintro rfl
              exact hlength (by simp)
            obtain ⟨body, rest, place', hbody, hk, hchunk, hend⟩ :=
              parseChunkLines_body hparsed (fun _ => hlines) (by simp)
            refine ⟨body, rest, place', ?_, by omega, Segment.context hplace hchunk, hend⟩
            rw [List.drop_one, List.tail_cons] at hbody
            rw [hbody]
            rfl
          · split at hheader
            · rename_i hfirst
              cases hheader
              rw [List.isEmpty_iff] at hfirst
              subst hfirst
              rw [List.drop_zero, parseChunkLines] at hparsed
              split at hparsed
              · cases hparsed
              · split at hparsed
                · rename_i f hf
                  obtain ⟨body, rest, place', hbody, hk, hchunk, hend⟩ :=
                    parseChunkLines_body hparsed (by simp)
                      (fun _ => (oldLines_chunkLine hf (.start none)).2.2)
                  refine ⟨body, rest, place', by rw [hbody]; rfl, by omega,
                    Segment.headless hplace hf hblank hchunk, hend⟩
                · cases hparsed
            · cases hheader

/-- The chunks of an update hunk end at a line that starts with a star. -/
def StartsHeader (rest : List Text) : Prop := ∀ line ∈ rest.head?, line.head? = some '*'

theorem parseChunks_segment {lineNumber bound n n' : Nat} {lines : List Text}
    {chunks chunks' : List UpdateFileChunk} {place : Place}
    (h : parseChunks lineNumber bound lines n chunks = .ok (chunks', n'))
    (hbound : lines.length ≤ bound) (hplace : EndsBefore place lines) :
    ∃ body rest place', lines = body ++ rest ∧ n' = n + body.length ∧
      Segment place body place' chunks chunks' ∧ StartsHeader rest ∧ place' ≠ .outside := by
  induction bound generalizing lines n chunks place with
  | zero =>
      cases h
      obtain rfl := List.eq_nil_of_length_eq_zero (Nat.le_zero.1 hbound)
      exact ⟨[], [], place, rfl, rfl, .nil place _, by simp [StartsHeader], hplace.ne_outside⟩
  | succ bound ih =>
      cases lines with
      | nil =>
          cases h
          exact ⟨[], [], place, rfl, rfl, .nil place _, by simp [StartsHeader],
            hplace.ne_outside⟩
      | cons line lines =>
          rw [List.length_cons] at hbound
          rw [parseChunks] at h
          split at h
          · rename_i hblank
            have hskip : place = .opened ∨ chunkLine line = none := by
              rcases hplace with hopened | ⟨-, hend⟩
              · exact .inl hopened
              · exact .inr (hend line rfl)
            have hsegment := Segment.skip chunks hblank hplace.ne_outside hskip
            obtain ⟨body, rest, place', rfl, hn', hbody, hrest, hplace'⟩ :=
              ih h (by omega) (.inl rfl)
            refine ⟨line :: body, rest, place', rfl, ?_, hsegment.append hbody, hrest, hplace'⟩
            rw [List.length_cons]
            omega
          · rename_i hblank
            split at h
            · rename_i hstar
              cases h
              exact ⟨[], line :: lines, place, rfl, rfl, .nil place _,
                by simpa [StartsHeader] using hstar, hplace.ne_outside⟩
            · simp only [bind, Except.bind] at h
              split at h
              · cases h
              · rename_i parsed hparsed
                obtain ⟨chunk, k⟩ := parsed
                obtain ⟨first, rest, place₁, hlines, hk, hsegment, hend⟩ :=
                  parseUpdateFileChunk_segment hparsed hblank hplace.ne_outside
                have hdrop : (line :: lines).drop k = rest := by
                  rw [hlines, List.drop_left' (by rw [List.length_cons, hk])]
                have hlength := congrArg List.length hlines
                simp only [List.length_append, List.length_cons] at hlength
                simp only [hdrop] at h
                obtain ⟨body, rest', place', rfl, hn', hbody, hrest, hplace'⟩ :=
                  ih h (by omega) hend
                refine ⟨line :: first ++ body, rest', place', ?_, ?_, hsegment.append hbody, hrest,
                  hplace'⟩
                · rw [hlines, List.append_assoc]
                · rw [List.length_append, List.length_cons]
                  omega

/-! ## The destination -/

theorem processUpdateLine_move {path : PathBuf}
    (htrim : Text.trimEnd (moveToMarker ++ path) = moveToMarker ++ path) (lineNumber : Nat) :
    processUpdateLine lineNumber (moveToMarker ++ path) none [] = .ok (some path, []) := by
  unfold processUpdateLine
  simp only [htrim, stripPrefix_append, and_self, if_true]

/-- A destination is read as it is written only if nothing is trimmed from it. -/
theorem processUpdateLine_move_ok {path : PathBuf} {lineNumber : Nat}
    {hunk : Option PathBuf × List UpdateFileChunk}
    (h : processUpdateLine lineNumber (moveToMarker ++ path) none [] = .ok hunk) :
    hunk.2 = [] ∧ ∃ trimmed, Text.trimEnd (moveToMarker ++ path) = moveToMarker ++ trimmed ∧
      hunk.1 = some trimmed := by
  have hstar : (moveToMarker ++ path).head? = some '*' := rfl
  rcases processUpdateLine_cases h with ⟨-, hchunks, hmove⟩ | ⟨-, hcase⟩
  · exact ⟨hchunks, hmove⟩
  · exfalso
    rcases hcase with ⟨hline, -⟩ | ⟨context, hline, -⟩ | ⟨hline, -⟩ | ⟨f, hf, -⟩
    · have hat : Text.trimEnd (moveToMarker ++ path) = '@' :: ['@'] := hline
      have hhead := head_of_trimEnd hat
      rw [hstar] at hhead
      exact absurd hhead (by decide)
    · obtain ⟨tail, htail⟩ := exists_cons_of_head '@' changeContextMarker (by decide) context
      have hhead := head_of_trimEnd (hline.trans htail)
      rw [hstar] at hhead
      exact absurd hhead (by decide)
    · have hmove : "*** ".toList ++ ['M'] <+: moveToMarker ++ path :=
        List.IsPrefix.trans (by decide) (List.prefix_append moveToMarker path)
      have hpre := prefix_trimEnd (by decide) hmove
      rw [hline] at hpre
      exact absurd hpre (by decide)
    · rcases chunkLine_head hf with hnil | hhead | hhead | hhead
      · rw [hnil] at hstar
        cases hstar
      all_goals
        rw [hstar] at hhead
        exact absurd hhead (by decide)

theorem Place.next_move (path : PathBuf) :
    Place.opened.next (moveToMarker ++ path) =
      if Text.trimEnd (moveToMarker ++ path) = moveToMarker ++ path then some .opened
      else none := by
  have hstar : (moveToMarker ++ path).head? = some '*' := rfl
  have hblank : Text.trim (moveToMarker ++ path) ≠ [] := by
    intro hnil
    exact absurd (Text.trim_eq_nil_iff.1 hnil '*' (List.mem_of_mem_head? hstar)) (by decide)
  have hcontext : ¬ changeContextMarker <+: moveToMarker ++ path := by
    apply not_prefix_of_head_ne (c := '@') (by decide)
    intro rest hrest
    rw [hrest] at hstar
    exact absurd hstar (by simp)
  rw [Place.next, if_neg (by decide), if_neg hblank, if_neg hcontext,
    if_pos (List.prefix_append moveToMarker path)]

/-- The streaming parser reads the lines of an update hunk as the batch parser
did exactly if the scan goes through. -/
structure StreamedUpdate (body : List Text) (movePath : Option PathBuf)
    (chunks : List UpdateFileChunk) : Prop where
  notHeader : ∀ line ∈ body, NotHeader line
  nonempty : chunks ≠ []
  filled : lastChunkIsEmpty chunks = false
  scan_of_feed : ∀ lineNumber, feedUpdate lineNumber body (none, []) = .ok (movePath, chunks) →
    ∃ place, Place.opened.scan body = some place
  feed_of_scan : ∀ place, Place.opened.scan body = some place → place ≠ .outside ∧
    ∀ lineNumber, feedUpdate lineNumber body (none, []) = .ok (movePath, chunks)

theorem Segment.streamed {body : List Text} {place : Place} {chunks : List UpdateFileChunk}
    (h : Segment .opened body place [] chunks) (hplace : place ≠ .outside) (hchunks : chunks ≠ []) :
    StreamedUpdate body none chunks where
  notHeader := h.notHeader
  nonempty := hchunks
  filled := h.filled rfl
  scan_of_feed := by
    intro lineNumber hfeed
    obtain ⟨hkept, hcontext⟩ := feedUpdate_totals hfeed
    exact ⟨place, h.scan_of_exact hkept hcontext⟩
  feed_of_scan := by
    intro reached hreached
    obtain ⟨rfl, hfeed⟩ := h.feed reached hreached
    exact ⟨hplace, fun lineNumber => hfeed rfl lineNumber none⟩

theorem Segment.streamed_move {path : PathBuf} {body : List Text} {place : Place}
    {chunks : List UpdateFileChunk} (h : Segment .opened body place [] chunks)
    (hplace : place ≠ .outside) (hchunks : chunks ≠ []) :
    StreamedUpdate ((moveToMarker ++ path) :: body) (some path) chunks where
  notHeader := by
    intro line hline
    rcases List.mem_cons.1 hline with rfl | hline
    · exact notHeader_moveLine (List.prefix_append moveToMarker path)
    · exact h.notHeader line hline
  nonempty := hchunks
  filled := h.filled rfl
  scan_of_feed := by
    intro lineNumber hfeed
    cases hmove : processUpdateLine (lineNumber + 1) (moveToMarker ++ path) none [] with
    | error e =>
        rw [feedUpdate_cons_error hmove] at hfeed
        cases hfeed
    | ok hunk =>
        rw [feedUpdate_cons_ok hmove] at hfeed
        obtain ⟨hnil, trimmed, htrimmed, hdest⟩ := processUpdateLine_move_ok hmove
        -- The destination stays, so it is the one the batch parser read.
        have hsame : some path = some trimmed := feedUpdate_movePath hfeed hdest
        rw [← Option.some.inj hsame] at htrimmed
        obtain ⟨hkept, hcontext⟩ := feedUpdate_totals hfeed
        rw [hnil] at hkept hcontext
        refine ⟨place, ?_⟩
        rw [Place.scan_cons, Place.next_move, if_pos htrimmed]
        exact h.scan_of_exact hkept hcontext
  feed_of_scan := by
    intro reached hreached
    rw [Place.scan_cons, Place.next_move] at hreached
    split at hreached
    · rename_i htrim
      obtain ⟨rfl, hfeed⟩ := h.feed reached hreached
      refine ⟨hplace, fun lineNumber => ?_⟩
      rw [feedUpdate_cons_ok (processUpdateLine_move htrim (lineNumber + 1))]
      exact hfeed rfl (lineNumber + 1) (some path)
    · cases hreached

theorem parseUpdateFile_streamed {path : PathBuf} {lines : List Text} {lineNumber k : Nat}
    {hunk : Hunk} (h : parseUpdateFile path lines lineNumber = .ok (hunk, k)) :
    ∃ body rest movePath chunks, hunk = .updateFile path movePath chunks ∧
      lines = body ++ rest ∧ k = body.length + 1 ∧ StartsHeader rest ∧
      StreamedUpdate body movePath chunks := by
  simp only [parseUpdateFile, bind, Except.bind] at h
  split at h
  · cases h
  · rename_i parsed hparsed
    obtain ⟨chunks, n⟩ := parsed
    simp only at h
    split at h
    · cases h
    · rename_i hchunks
      cases h
      cases hmove : moveLine lines with
      | none =>
          rw [hmove] at hparsed
          obtain ⟨body, rest, place, hbody, hk, hsegment, hrest, hplace⟩ :=
            parseChunks_segment hparsed (by simp) (.inl rfl)
          refine ⟨body, rest, none, chunks, rfl, hbody, ?_, hrest,
            hsegment.streamed hplace hchunks⟩
          simp at hk
          omega
      | some path' =>
          rw [hmove] at hparsed
          cases lines with
          | nil => cases hmove
          | cons first lines =>
              have hfirst : first = moveToMarker ++ path' := stripPrefix_eq_some.1 hmove
              subst hfirst
              obtain ⟨body, rest, place, hbody, hk, hsegment, hrest, hplace⟩ :=
                parseChunks_segment hparsed (by simp) (.inl rfl)
              refine ⟨(moveToMarker ++ path') :: body, rest, some path', chunks, rfl, ?_, ?_, hrest,
                hsegment.streamed_move hplace hchunks⟩
              · simpa using hbody
              · simp at hk
                rw [List.length_cons]
                omega

end Codewith.ApplyPatch
