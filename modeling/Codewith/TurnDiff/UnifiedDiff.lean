import Mathlib.Data.Char
import Mathlib.Data.List.Lex
import Codewith.Lib.FirstSeen
import Codewith.Lib.Utf8
import Codewith.TurnDiff.Tracker

/-!
# The unified diff of a turn

The diff of a turn is put together from the maps of the tracker, in the order
of the displayed paths.  A file that moved from a path with a baseline to one
without is shown once, at its origin.  The maps are hash maps: the order in
which they are walked is a parameter.
-/

namespace Codewith.TurnDiff

open Lib ApplyPatch

def zeroOid : Text := "0000000000000000000000000000000000000000".toList

def devNull : Text := "/dev/null".toList

def regularFileMode : Text := "100644".toList

/-- The environments with a display root. -/
abbrev DisplayRoots := AList fun _ : Text => PathBuf

/-- What the two libraries compute: the SHA-1 digest of some bytes, and the
unified diff of two texts with three lines of context, under two headers. -/
structure Rendering where
  sha1 : List UInt8 → List UInt8
  unifiedDiff : (old new oldHeader newHeader : Text) → Text

def hexDigit (n : Nat) : Char := "0123456789abcdef".toList.getD n '0'

def sha1OutputToHex (output : List UInt8) : Text :=
  output.flatMap fun byte => [hexDigit (byte.toNat / 16), hexDigit (byte.toNat % 16)]

def gitBlobHeader (length : Nat) : Text :=
  "blob ".toList ++ (toString length).toList ++ [Char.ofNat 0]

def gitBlobOid (rendering : Rendering) (content : Text) : Text :=
  let data := Utf8.encode content
  sha1OutputToHex (rendering.sha1 (Utf8.encode (gitBlobHeader data.length) ++ data))

/-- `strip_prefix`: the components of the root are taken off the front.  A root
that has no component at all leaves the path as it is. -/
def stripRoot (root : PathBuf) (path : AbsolutePathBuf) : Option Text :=
  if root.isAbsolute then
    (path.parts.dropPrefix? root.comparedComponents).map (Text.joinWith '/')
  else if root.comparedComponents = [] then some path.display
  else none

/-- The orders in which the three maps are walked. -/
structure IterationOrder (tracker : TurnDiffTracker) where
  baseline : List TrackedPath
  current : List TrackedPath
  origins : List (TrackedPath × TrackedPath)
  baseline_perm : baseline.Perm tracker.baselineByPath.keys
  current_perm : current.Perm tracker.currentByPath.keys
  origins_perm : origins.Perm (tracker.originByCurrentPath.entries.map fun e => (e.1, e.2))

/-- The order in which the entries of the model stand. -/
def IterationOrder.listed (tracker : TurnDiffTracker) : IterationOrder tracker where
  baseline := tracker.baselineByPath.keys
  current := tracker.currentByPath.keys
  origins := tracker.originByCurrentPath.entries.map fun e => (e.1, e.2)
  baseline_perm := .refl _
  current_perm := .refl _
  origins_perm := .refl _

abbrev RenamePairs := AList fun _ : TrackedPath => TrackedPath

/-- The paths seen so far, and the text so far. -/
structure Aggregation where
  handled : List TrackedPath
  aggregated : Text

/-- The text of one diff ends in a line break. -/
def withNewline (diff : Text) : Text :=
  if diff.getLast? = some '\n' then diff else diff ++ ['\n']

def Aggregation.push (s : Aggregation) (diff : Option Text) : Aggregation :=
  match diff with
  | some diff => { s with aggregated := withNewline (s.aggregated ++ diff) }
  | none => s

namespace TurnDiffTracker

variable (roots : DisplayRoots) (rendering : Rendering) (tracker : TurnDiffTracker)

/-- The origin lost its file to a destination that had none. -/
def isRename (destPath originPath : TrackedPath) : Bool :=
  !(destPath = originPath || (tracker.currentByPath.lookup originPath).isSome ||
    (tracker.currentByPath.lookup destPath).isNone ||
    (tracker.baselineByPath.lookup originPath).isNone ||
    (tracker.baselineByPath.lookup destPath).isSome)

/-- Of several destinations with the same origin the last one walked is kept. -/
def renamePairs (origins : List (TrackedPath × TrackedPath)) : RenamePairs :=
  origins.foldl
    (fun pairs e => if tracker.isRename e.1 e.2 then pairs.insert e.2 e.1 else pairs) ∅

def displayPath (path : TrackedPath) : Text :=
  let display :=
    ((roots.lookup path.environmentId).bind (stripRoot · path.path)).getD path.path.display
  let display := display.map fun c => if c = '\\' then '/' else c
  if 1 < roots.keys.length ∧ path.environmentId ≠ [] then path.environmentId ++ '/' :: display
  else display

def modeLine (leftContent rightContent : Option Text) : Text :=
  match leftContent, rightContent with
  | none, some _ => "new file mode ".toList ++ regularFileMode ++ ['\n']
  | some _, none => "deleted file mode ".toList ++ regularFileMode ++ ['\n']
  | _, _ => []

def renderDiff (leftPath : TrackedPath) (leftContent : Option Text) (rightPath : TrackedPath)
    (rightContent : Option Text) : Option Text :=
  if leftContent = rightContent then none
  else
    let leftDisplay := displayPath roots leftPath
    let rightDisplay := displayPath roots rightPath
    let leftOid := leftContent.elim zeroOid (gitBlobOid rendering)
    let rightOid := rightContent.elim zeroOid (gitBlobOid rendering)
    let oldHeader := if leftContent.isSome then "a/".toList ++ leftDisplay else devNull
    let newHeader := if rightContent.isSome then "b/".toList ++ rightDisplay else devNull
    some ("diff --git a/".toList ++ leftDisplay ++ " b/".toList ++ rightDisplay ++ ['\n'] ++
      modeLine leftContent rightContent ++
      "index ".toList ++ leftOid ++ "..".toList ++ rightOid ++ ['\n'] ++
      rendering.unifiedDiff (leftContent.getD []) (rightContent.getD []) oldHeader newHeader)

def renderPathDiff (path : TrackedPath) : Option Text :=
  renderDiff roots rendering path (tracker.baselineByPath.lookup path) path
    (tracker.currentByPath.lookup path)

def renderRenameDiff (sourcePath destPath : TrackedPath) : Option Text :=
  renderDiff roots rendering sourcePath (tracker.baselineByPath.lookup sourcePath) destPath
    (tracker.currentByPath.lookup destPath)

/-- The tracked paths by their display; equal neighbours count once. -/
def sortedPaths (order : IterationOrder tracker) : List TrackedPath :=
  ((order.baseline ++ order.current).mergeSort fun p q =>
    decide (displayPath roots p ≤ displayPath roots q)).destutter (· ≠ ·)

def aggregatePath (pairs : RenamePairs) (s : Aggregation) (path : TrackedPath) : Aggregation :=
  if path ∈ s.handled then s
  else
    let s := { s with handled := path :: s.handled }
    if path ∈ pairs.entries.map (·.2) then s
    else match pairs.lookup path with
      | some dest =>
          let s := { s with handled := dest :: s.handled }
          s.push (tracker.renderRenameDiff roots rendering path dest)
      | none => s.push (tracker.renderPathDiff roots rendering path)

def getUnifiedDiff (order : IterationOrder tracker) : Option Text :=
  if tracker.valid then
    let pairs := tracker.renamePairs order.origins
    let aggregated := ((tracker.sortedPaths roots order).foldl
      (tracker.aggregatePath roots rendering pairs) ⟨[], []⟩).aggregated
    if aggregated = [] then none else some aggregated
  else none

end TurnDiffTracker

/-! ## Rename pairs -/

open TurnDiffTracker

variable {roots : DisplayRoots} {rendering : Rendering} {tracker : TurnDiffTracker}

/-- The file at the destination came from the origin, and may be paired with it. -/
def RenameCandidate (tracker : TurnDiffTracker) (origin dest : TrackedPath) : Prop :=
  tracker.originByCurrentPath.lookup dest = some origin ∧ tracker.isRename dest origin = true

theorem IterationOrder.mem_origins (order : IterationOrder tracker) {dest origin : TrackedPath} :
    (dest, origin) ∈ order.origins ↔ tracker.originByCurrentPath.lookup dest = some origin := by
  rw [order.origins_perm.mem_iff, ← Option.mem_def, AList.mem_lookup_iff, List.mem_map]
  constructor
  · rintro ⟨e, he, heq⟩
    cases heq
    exact he
  · intro he
    exact ⟨⟨dest, origin⟩, he, rfl⟩

theorem isRename_eq_true {dest origin : TrackedPath} : tracker.isRename dest origin = true ↔
    dest ≠ origin ∧ tracker.currentByPath.lookup origin = none ∧
      (∃ content, tracker.currentByPath.lookup dest = some content) ∧
      (∃ content, tracker.baselineByPath.lookup origin = some content) ∧
      tracker.baselineByPath.lookup dest = none := by
  simp [isRename, Option.isSome_iff_exists, Option.isNone_iff_eq_none, and_assoc]

theorem lookup_renamePairs_candidate (order : IterationOrder tracker) {origin dest : TrackedPath}
    (h : (tracker.renamePairs order.origins).lookup origin = some dest) :
    RenameCandidate tracker origin dest := by
  have hkept : ∀ l : List (TrackedPath × TrackedPath),
      (tracker.renamePairs l).lookup origin = some dest →
        (dest, origin) ∈ l ∧ tracker.isRename dest origin = true := by
    intro l
    induction l using List.reverseRecOn with
    | nil => simp [renamePairs]
    | append_singleton l e ih =>
        intro hlookup
        rw [renamePairs, List.foldl_append, List.foldl_cons, List.foldl_nil, ← renamePairs]
          at hlookup
        split at hlookup
        · rename_i hrename
          by_cases horigin : origin = e.2
          · subst horigin
            rw [AList.lookup_insert, Option.some.injEq] at hlookup
            subst hlookup
            exact ⟨List.mem_append_right l (List.mem_singleton.2 rfl), hrename⟩
          · rw [AList.lookup_insert_ne horigin] at hlookup
            exact (ih hlookup).imp_left (List.mem_append_left [e])
        · exact (ih hlookup).imp_left (List.mem_append_left [e])
  obtain ⟨hmem, hrename⟩ := hkept order.origins h
  exact ⟨order.mem_origins.1 hmem, hrename⟩

theorem exists_lookup_renamePairs (order : IterationOrder tracker) {origin dest : TrackedPath}
    (h : RenameCandidate tracker origin dest) :
    ∃ dest', (tracker.renamePairs order.origins).lookup origin = some dest' := by
  obtain ⟨horigin, hrename⟩ := h
  have hkept : ∀ l : List (TrackedPath × TrackedPath), (dest, origin) ∈ l →
      ∃ dest', (tracker.renamePairs l).lookup origin = some dest' := by
    intro l
    induction l using List.reverseRecOn with
    | nil => simp
    | append_singleton l e ih =>
        intro hmem
        rw [renamePairs, List.foldl_append, List.foldl_cons, List.foldl_nil, ← renamePairs]
        rcases List.mem_append.1 hmem with hmem | hmem
        · split
          · by_cases horigin : origin = e.2
            · exact ⟨e.1, by rw [horigin, AList.lookup_insert]⟩
            · rw [AList.lookup_insert_ne horigin]
              exact ih hmem
          · exact ih hmem
        · rw [← List.mem_singleton.1 hmem, if_pos hrename]
          exact ⟨dest, AList.lookup_insert _⟩
  exact hkept order.origins (order.mem_origins.2 horigin)

/-- A destination has one origin, which is no destination itself. -/
theorem RenameCandidate.origin_unique {origin origin' dest : TrackedPath}
    (h : RenameCandidate tracker origin dest) (h' : RenameCandidate tracker origin' dest) :
    origin = origin' :=
  Option.some.inj (h.1.symm.trans h'.1)

theorem RenameCandidate.not_chained {origin dest next : TrackedPath}
    (h : RenameCandidate tracker origin dest) : ¬ RenameCandidate tracker dest next := by
  intro h'
  obtain ⟨-, -, -, -, hnone⟩ := isRename_eq_true.1 h.2
  obtain ⟨-, -, -, ⟨content, hsome⟩, -⟩ := isRename_eq_true.1 h'.2
  rw [hnone] at hsome
  cases hsome

/-! ## What is put together -/

/-- The diff a path contributes, when it contributes one. -/
def shownDiff (roots : DisplayRoots) (rendering : Rendering) (tracker : TurnDiffTracker)
    (pairs : RenamePairs) (path : TrackedPath) : Option Text :=
  if path ∈ pairs.entries.map (·.2) then none
  else match pairs.lookup path with
    | some dest => tracker.renderRenameDiff roots rendering path dest
    | none => tracker.renderPathDiff roots rendering path

theorem mem_pairedDestinations {pairs : RenamePairs} {dest : TrackedPath} :
    dest ∈ pairs.entries.map (·.2) ↔ ∃ origin, pairs.lookup origin = some dest := by
  constructor
  · intro h
    obtain ⟨e, he, rfl⟩ := List.mem_map.1 h
    exact ⟨e.1, AList.mem_lookup_iff.2 he⟩
  · rintro ⟨origin, h⟩
    exact List.mem_map.2 ⟨⟨origin, dest⟩, AList.mem_lookup_iff.1 h, rfl⟩

theorem renderDiff_eq_none {left right : TrackedPath} {leftContent rightContent : Option Text} :
    renderDiff roots rendering left leftContent right rightContent = none ↔
      leftContent = rightContent := by
  unfold renderDiff
  split <;> simp_all

/-- A diff starts with the line that names both paths. -/
theorem renderDiff_eq_some {left right : TrackedPath} {leftContent rightContent : Option Text}
    {diff : Text}
    (h : renderDiff roots rendering left leftContent right rightContent = some diff) :
    ∃ rest, diff = "diff --git a/".toList ++ displayPath roots left ++ " b/".toList ++
      displayPath roots right ++ '\n' :: rest := by
  unfold renderDiff at h
  split at h
  · cases h
  · rw [Option.some.injEq] at h
    subst h
    exact ⟨_, by simp only [List.append_assoc, List.singleton_append]; rfl⟩

theorem shownDiff_ne_nil {pairs : RenamePairs} {path : TrackedPath} {diff : Text}
    (h : shownDiff roots rendering tracker pairs path = some diff) : diff ≠ [] := by
  have hrendered : ∃ right rightContent, renderDiff roots rendering path
      (tracker.baselineByPath.lookup path) right rightContent = some diff := by
    unfold shownDiff at h
    split at h
    · cases h
    · split at h
      · exact ⟨_, _, h⟩
      · exact ⟨_, _, h⟩
  obtain ⟨right, rightContent, hdiff⟩ := hrendered
  obtain ⟨rest, rfl⟩ := renderDiff_eq_some hdiff
  simp

theorem withNewline_append {diff : Text} (h : diff ≠ []) (text : Text) :
    withNewline (text ++ diff) = text ++ withNewline diff := by
  unfold withNewline
  rw [List.getLast?_append_of_ne_nil text h]
  split
  · rfl
  · exact List.append_assoc text diff _

theorem withNewline_ne_nil {diff : Text} (h : diff ≠ []) : withNewline diff ≠ [] := by
  unfold withNewline
  split
  · exact h
  · exact List.append_ne_nil_of_left_ne_nil h ['\n']

theorem aggregated_push {s : Aggregation} {diff : Option Text}
    (h : ∀ text, diff = some text → text ≠ []) :
    (s.push diff).aggregated = s.aggregated ++ (diff.toList.map withNewline).flatten ∧
      (s.push diff).handled = s.handled := by
  cases diff with
  | none => simp [Aggregation.push]
  | some text => simp [Aggregation.push, withNewline_append (h text rfl)]

theorem shownDiff_of_paired {pairs : RenamePairs} {origin dest : TrackedPath}
    (h : pairs.lookup origin = some dest) :
    shownDiff roots rendering tracker pairs dest = none :=
  if_pos (mem_pairedDestinations.2 ⟨origin, h⟩)

/-- A path that is seen for the first time adds its diff, and marks nothing else
as seen but a destination that shows no diff. -/
theorem aggregatePath_unseen (pairs : RenamePairs) {s : Aggregation} {path : TrackedPath}
    (hseen : path ∉ s.handled) :
    let s' := tracker.aggregatePath roots rendering pairs s path
    s'.aggregated = s.aggregated ++
      ((shownDiff roots rendering tracker pairs path).toList.map withNewline).flatten ∧
    (∀ p ∈ path :: s.handled, p ∈ s'.handled) ∧
    ∀ p ∈ s'.handled,
      p ∈ path :: s.handled ∨ shownDiff roots rendering tracker pairs p = none := by
  have hne := @shownDiff_ne_nil roots rendering tracker pairs path
  dsimp only
  rw [aggregatePath, if_neg hseen]
  by_cases hpaired : path ∈ pairs.entries.map (·.2)
  · rw [if_pos hpaired, shownDiff, if_pos hpaired]
    exact ⟨(List.append_nil _).symm, fun p hp => hp, fun p hp => Or.inl hp⟩
  · rw [shownDiff, if_neg hpaired] at hne ⊢
    rw [if_neg hpaired]
    cases hlookup : pairs.lookup path with
    | none =>
        simp only [hlookup] at hne
        obtain ⟨htext, hhandled⟩ :=
          @aggregated_push ⟨path :: s.handled, s.aggregated⟩ _ fun text => hne
        dsimp only
        rw [hhandled]
        exact ⟨htext, fun p hp => hp, fun p hp => Or.inl hp⟩
    | some dest =>
        simp only [hlookup] at hne
        obtain ⟨htext, hhandled⟩ :=
          @aggregated_push ⟨dest :: path :: s.handled, s.aggregated⟩ _ fun text => hne
        dsimp only
        rw [hhandled]
        refine ⟨htext, fun p hp => List.mem_cons_of_mem dest hp, fun p hp => ?_⟩
        rcases List.mem_cons.1 hp with rfl | hp
        · exact Or.inr (shownDiff_of_paired hlookup)
        · exact Or.inl hp

/-- The text is made of the diffs of the paths, each where the path is first seen. -/
theorem aggregated_foldl (pairs : RenamePairs) (paths : List TrackedPath) (s : Aggregation) :
    (paths.foldl (tracker.aggregatePath roots rendering pairs) s).aggregated =
      s.aggregated ++ (((firstSeen s.handled paths).filterMap
        (shownDiff roots rendering tracker pairs)).map withNewline).flatten := by
  induction paths generalizing s with
  | nil => simp [firstSeen]
  | cons path paths ih =>
      rw [List.foldl_cons, ih, firstSeen]
      by_cases hseen : path ∈ s.handled
      · rw [aggregatePath, if_pos hseen, if_pos hseen]
      · obtain ⟨htext, hsub, hskip⟩ :=
          @aggregatePath_unseen roots rendering tracker pairs s path hseen
        rw [if_neg hseen, htext, filterMap_firstSeen_of_skipped hsub hskip, List.append_assoc]
        cases hshown : shownDiff roots rendering tracker pairs path with
        | none => rw [List.filterMap_cons_none hshown]; simp
        | some diff => rw [List.filterMap_cons_some hshown]; simp

theorem mem_sortedPaths (order : IterationOrder tracker) {path : TrackedPath} :
    path ∈ tracker.sortedPaths roots order ↔ tracker.tracks path = true := by
  rw [sortedPaths, mem_destutter_ne, List.mem_mergeSort, List.mem_append,
    order.baseline_perm.mem_iff, order.current_perm.mem_iff, ← AList.mem_keys, ← AList.mem_keys,
    ← AList.lookup_isSome, ← AList.lookup_isSome, tracks, Bool.or_eq_true, or_comm]

theorem pairwise_sortedPaths (order : IterationOrder tracker) :
    (tracker.sortedPaths roots order).Pairwise fun p q =>
      displayPath roots p ≤ displayPath roots q :=
  (pairwise_mergeSort_key (displayPath roots) _).sublist (List.destutter_sublist _ _)

/-- The diffs in the order of the displayed paths. -/
def shownDiffs (roots : DisplayRoots) (rendering : Rendering) (order : IterationOrder tracker) :
    List Text :=
  (firstSeen [] (tracker.sortedPaths roots order)).filterMap
    (shownDiff roots rendering tracker (tracker.renamePairs order.origins))

theorem getUnifiedDiff_eq (order : IterationOrder tracker) (hvalid : tracker.valid = true) :
    tracker.getUnifiedDiff roots rendering order =
      if shownDiffs roots rendering order = [] then none
      else some ((shownDiffs roots rendering order).map withNewline).flatten := by
  rw [getUnifiedDiff, if_pos hvalid]
  dsimp only
  rw [aggregated_foldl, List.nil_append, ← shownDiffs]
  congr 1
  refine propext ⟨fun hnil => ?_, fun hnil => by rw [hnil]; rfl⟩
  refine List.eq_nil_iff_forall_not_mem.2 fun diff hdiff => ?_
  obtain ⟨path, -, hshown⟩ := List.mem_filterMap.1 hdiff
  have hempty := List.flatten_eq_nil_iff.1 hnil _ (List.mem_map_of_mem hdiff)
  exact withNewline_ne_nil (shownDiff_ne_nil hshown) hempty

/-- Nothing is shown exactly when no tracked path shows a diff. -/
theorem getUnifiedDiff_eq_none (order : IterationOrder tracker) (hvalid : tracker.valid = true) :
    tracker.getUnifiedDiff roots rendering order = none ↔ ∀ path, tracker.tracks path = true →
      shownDiff roots rendering tracker (tracker.renamePairs order.origins) path = none := by
  have hnil : shownDiffs roots rendering order = [] ↔ ∀ path, tracker.tracks path = true →
      shownDiff roots rendering tracker (tracker.renamePairs order.origins) path = none := by
    rw [shownDiffs, List.filterMap_eq_nil_iff]
    apply forall_congr'
    intro path
    rw [mem_firstSeen, mem_sortedPaths]
    simp
  rw [getUnifiedDiff_eq order hvalid, ← hnil]
  split <;> simp_all

end Codewith.TurnDiff
