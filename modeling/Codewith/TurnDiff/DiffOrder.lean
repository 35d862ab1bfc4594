import Codewith.TurnDiff.NetChange

/-!
# The diff of a turn and the order of the maps

The paths are sorted by what is displayed of them, so the order in which the
maps are walked shows only where the display does not decide: in the choice
between two destinations of one origin, and between two paths displayed alike.
-/

namespace Codewith.TurnDiff

open Lib ApplyPatch TurnDiffTracker

/-- What happens to the tracker while a turn runs. -/
inductive TurnDiffTrackerUpdate where
  | track (environmentId : Text) (delta : AppliedPatchDelta)
  | invalidate
  | none

def applyTrackerUpdate (tracker : TurnDiffTracker) : TurnDiffTrackerUpdate → TurnDiffTracker
  | .track environmentId delta => tracker.trackDelta environmentId delta
  | .invalidate => tracker.invalidate
  | .none => tracker

def trackerAfter (updates : List TurnDiffTrackerUpdate) : TurnDiffTracker :=
  updates.foldl applyTrackerUpdate .new

/-- A change as the diff shows it: the content at the start, the display of the
path the content is found at now, and the content now. -/
structure ShownChange where
  old : Option Text
  display : Text
  new : Option Text

/-- The path is no destination of a rename, and its content, followed to the
destination when there is one, is not what it was. -/
structure ShowsChange (roots : DisplayRoots) (tracker : TurnDiffTracker) (path right : TrackedPath)
    (change : ShownChange) : Prop where
  source : ∀ origin, ¬ RenameCandidate tracker origin path
  follows : RenameCandidate tracker path right ∨
    right = path ∧ ∀ dest, ¬ RenameCandidate tracker path dest
  eq : change = ⟨tracker.baselineByPath.lookup path, displayPath roots right,
    tracker.currentByPath.lookup right⟩
  ne : change.old ≠ change.new

/-- Every origin has at most one destination, and paths displayed alike do not
show different changes. -/
structure Settled (roots : DisplayRoots) (tracker : TurnDiffTracker) : Prop where
  unique : ∀ origin dest dest', RenameCandidate tracker origin dest →
    RenameCandidate tracker origin dest' → dest = dest'
  alike : ∀ path path' right right' change change',
    displayPath roots path = displayPath roots path' →
    ShowsChange roots tracker path right change → ShowsChange roots tracker path' right' change' →
      change = change'

section

variable {roots : DisplayRoots} {rendering : Rendering} {tracker : TurnDiffTracker}

theorem lookup_renamePairs_iff (hsettled : Settled roots tracker) (order : IterationOrder tracker)
    {origin dest : TrackedPath} :
    (tracker.renamePairs order.origins).lookup origin = some dest ↔
      RenameCandidate tracker origin dest := by
  constructor
  · exact lookup_renamePairs_candidate order
  · intro h
    obtain ⟨dest', hlookup⟩ := exists_lookup_renamePairs order h
    rw [hlookup, hsettled.unique origin dest' dest (lookup_renamePairs_candidate order hlookup) h]

theorem shownDiff_congr {pairs pairs' : RenamePairs}
    (h : ∀ path, pairs.lookup path = pairs'.lookup path) (path : TrackedPath) :
    shownDiff roots rendering tracker pairs path =
      shownDiff roots rendering tracker pairs' path := by
  have hpaired : path ∈ pairs.entries.map (·.2) ↔ path ∈ pairs'.entries.map (·.2) := by
    rw [mem_pairedDestinations, mem_pairedDestinations]
    simp only [h]
  rw [shownDiff, shownDiff]
  simp only [hpaired, h]

theorem renderDiff_congr {left left' right right' : TrackedPath}
    (hleft : displayPath roots left = displayPath roots left')
    (hright : displayPath roots right = displayPath roots right')
    (leftContent rightContent : Option Text) :
    renderDiff roots rendering left leftContent right rightContent =
      renderDiff roots rendering left' leftContent right' rightContent := by
  rw [renderDiff, renderDiff, hleft, hright]

theorem showsChange_of_shownDiff (hsettled : Settled roots tracker)
    (order : IterationOrder tracker) {path : TrackedPath} {diff : Text}
    (h : shownDiff roots rendering tracker (tracker.renamePairs order.origins) path = some diff) :
    ∃ right, ShowsChange roots tracker path right ⟨tracker.baselineByPath.lookup path,
        displayPath roots right, tracker.currentByPath.lookup right⟩ ∧
      renderDiff roots rendering path (tracker.baselineByPath.lookup path) right
        (tracker.currentByPath.lookup right) = some diff := by
  have hne : ∀ right, renderDiff roots rendering path (tracker.baselineByPath.lookup path) right
      (tracker.currentByPath.lookup right) = some diff →
      tracker.baselineByPath.lookup path ≠ tracker.currentByPath.lookup right := by
    intro right hdiff hsame
    rw [renderDiff_eq_none.2 hsame] at hdiff
    cases hdiff
  have hsource : ∀ origin, ¬ RenameCandidate tracker origin path := by
    intro origin hcandidate
    rw [shownDiff_of_paired ((lookup_renamePairs_iff hsettled order).2 hcandidate)] at h
    cases h
  have hpaired : path ∉ (tracker.renamePairs order.origins).entries.map (·.2) := by
    intro hmem
    obtain ⟨origin, hlookup⟩ := mem_pairedDestinations.1 hmem
    exact hsource origin (lookup_renamePairs_candidate order hlookup)
  rw [shownDiff, if_neg hpaired] at h
  cases hlookup : (tracker.renamePairs order.origins).lookup path with
  | some dest =>
      simp only [hlookup] at h
      exact ⟨dest, ⟨hsource, Or.inl (lookup_renamePairs_candidate order hlookup), rfl, hne dest h⟩,
        h⟩
  | none =>
      simp only [hlookup] at h
      have hstays : ∀ dest, ¬ RenameCandidate tracker path dest := by
        intro dest hcandidate
        rw [(lookup_renamePairs_iff hsettled order).2 hcandidate] at hlookup
        cases hlookup
      exact ⟨path, ⟨hsource, Or.inr ⟨rfl, hstays⟩, rfl, hne path h⟩, h⟩

/-- Paths displayed alike show the same diff, when both show one. -/
theorem shownDiff_alike (hsettled : Settled roots tracker) (order : IterationOrder tracker)
    {path path' : TrackedPath} {diff diff' : Text}
    (halike : displayPath roots path = displayPath roots path')
    (h : shownDiff roots rendering tracker (tracker.renamePairs order.origins) path = some diff)
    (h' : shownDiff roots rendering tracker (tracker.renamePairs order.origins) path' =
      some diff') : diff = diff' := by
  obtain ⟨right, hchange, hdiff⟩ := showsChange_of_shownDiff hsettled order h
  obtain ⟨right', hchange', hdiff'⟩ := showsChange_of_shownDiff hsettled order h'
  have hsame := hsettled.alike path path' right right' _ _ halike hchange hchange'
  rw [ShownChange.mk.injEq] at hsame
  obtain ⟨hold, hdisplay, hnew⟩ := hsame
  rw [renderDiff_congr halike hdisplay, hold, hnew, hdiff'] at hdiff
  exact (Option.some.inj hdiff).symm

theorem shownDiffs_eq (hsettled : Settled roots tracker) (order order' : IterationOrder tracker) :
    shownDiffs roots rendering order = shownDiffs roots rendering order' := by
  have hpairs : ∀ path, (tracker.renamePairs order.origins).lookup path =
      (tracker.renamePairs order'.origins).lookup path := by
    intro path
    apply Option.ext
    intro dest
    rw [lookup_renamePairs_iff hsettled order, lookup_renamePairs_iff hsettled order']
  have hshown : shownDiff roots rendering tracker (tracker.renamePairs order'.origins) =
      shownDiff roots rendering tracker (tracker.renamePairs order.origins) :=
    funext fun path => (shownDiff_congr hpairs path).symm
  have hperm : (firstSeen [] (tracker.sortedPaths roots order)).Perm
      (firstSeen [] (tracker.sortedPaths roots order')) :=
    firstSeen_perm (fun path => by rw [mem_sortedPaths, mem_sortedPaths]) []
  rw [shownDiffs, shownDiffs, hshown]
  refine filterMap_eq_of_perm hperm ((pairwise_sortedPaths order).sublist (firstSeen_sublist [] _))
    ((pairwise_sortedPaths order').sublist (firstSeen_sublist [] _)) ?_
  intro path _ path' _ halike diff diff' h h'
  exact shownDiff_alike hsettled order halike h h'

end

/-- Whatever happened in the turn, a settled tracker shows the same diff in every
order in which its maps may be walked. -/
theorem getUnifiedDiff_order_irrelevant (roots : DisplayRoots) (rendering : Rendering)
    (updates : List TurnDiffTrackerUpdate)
    (hsettled : (trackerAfter updates).valid = true → Settled roots (trackerAfter updates))
    (order order' : IterationOrder (trackerAfter updates)) :
    (trackerAfter updates).getUnifiedDiff roots rendering order =
      (trackerAfter updates).getUnifiedDiff roots rendering order' := by
  cases hvalid : (trackerAfter updates).valid with
  | false => simp [getUnifiedDiff, hvalid]
  | true =>
      rw [getUnifiedDiff_eq order hvalid, getUnifiedDiff_eq order' hvalid,
        shownDiffs_eq (hsettled hvalid) order order']

def IterationOrder.reversed (tracker : TurnDiffTracker) : IterationOrder tracker where
  baseline := tracker.baselineByPath.keys.reverse
  current := tracker.currentByPath.keys.reverse
  origins := (tracker.originByCurrentPath.entries.map fun e => (e.1, e.2)).reverse
  baseline_perm := List.reverse_perm _
  current_perm := List.reverse_perm _
  origins_perm := List.reverse_perm _

theorem exists_withNewline (diff : Text) : ∃ tail, withNewline diff = diff ++ tail := by
  unfold withNewline
  split
  · exact ⟨[], (List.append_nil diff).symm⟩
  · exact ⟨['\n'], rfl⟩

/-- A turn that adds the file `x`. -/
def addUpdates : List TurnDiffTrackerUpdate :=
  [.track [] ⟨[⟨pathX, .add "1\n".toList none⟩], true⟩]

theorem settled_addUpdates : Settled ∅ (trackerAfter addUpdates) := by
  have hcandidate : ∀ origin dest, ¬ RenameCandidate (trackerAfter addUpdates) origin dest := by
    intro origin dest hcandidate
    have hmem := AList.mem_lookup_iff.1 (Option.mem_def.2 hcandidate.1)
    rw [show (trackerAfter addUpdates).originByCurrentPath.entries = [] by decide] at hmem
    cases hmem
  have hshown : ∀ path right change, ShowsChange ∅ (trackerAfter addUpdates) path right change →
      path = ⟨[], pathX⟩ ∧ right = path := by
    intro path right change h
    have hright : right = path := (h.follows.resolve_left (hcandidate path right)).1
    refine ⟨?_, hright⟩
    by_contra hne
    refine h.ne ?_
    have hnot : ¬ (trackerAfter addUpdates).tracks path = true := by
      intro htracks
      have hcurrent : (trackerAfter addUpdates).currentByPath.keys = [⟨[], pathX⟩] := by
        decide
      have hbaseline : (trackerAfter addUpdates).baselineByPath.keys = [] := by decide
      rw [tracks, Bool.or_eq_true, AList.lookup_isSome, AList.lookup_isSome, AList.mem_keys,
        AList.mem_keys, hcurrent, hbaseline, List.mem_singleton] at htracks
      exact htracks.elim hne List.not_mem_nil
    obtain ⟨hcurrent, hbaseline⟩ := tracks_eq_false.1 (Bool.eq_false_iff.2 hnot)
    rw [h.eq, hright, hcurrent, hbaseline]
  refine ⟨fun origin dest _ h => absurd h (hcandidate origin dest), ?_⟩
  intro path path' right right' change change' _ h h'
  obtain ⟨rfl, rfl⟩ := hshown path right change h
  obtain ⟨rfl, rfl⟩ := hshown path' right' change' h'
  rw [h.eq, h'.eq]

theorem getUnifiedDiff_order_irrelevant_add :
    (trackerAfter addUpdates).getUnifiedDiff ∅ noRendering (.listed _) =
      (trackerAfter addUpdates).getUnifiedDiff ∅ noRendering (.reversed _) :=
  getUnifiedDiff_order_irrelevant ∅ noRendering addUpdates (fun _ => settled_addUpdates) _ _

/-! ### A file that moves away twice -/

section

variable {roots : DisplayRoots} {rendering : Rendering} {tracker : TurnDiffTracker}

theorem getUnifiedDiff_of_single (order : IterationOrder tracker) (hvalid : tracker.valid = true)
    {path : TrackedPath} {diff : Text} (htracks : tracker.tracks path = true)
    (h : shownDiff roots rendering tracker (tracker.renamePairs order.origins) path = some diff)
    (hother : ∀ other, tracker.tracks other = true → other ≠ path →
      shownDiff roots rendering tracker (tracker.renamePairs order.origins) other = none) :
    tracker.getUnifiedDiff roots rendering order = some (withNewline diff) := by
  have hmem : path ∈ firstSeen [] (tracker.sortedPaths roots order) :=
    mem_firstSeen.2 ⟨(mem_sortedPaths order).2 htracks, List.not_mem_nil⟩
  obtain ⟨before, after, hsplit⟩ := List.append_of_mem hmem
  have hnodup := nodup_firstSeen [] (tracker.sortedPaths roots order)
  rw [hsplit, List.nodup_middle, List.nodup_cons, List.mem_append, not_or] at hnodup
  have hnone : ∀ other ∈ firstSeen [] (tracker.sortedPaths roots order), other ≠ path →
      shownDiff roots rendering tracker (tracker.renamePairs order.origins) other = none :=
    fun other hmem => hother other ((mem_sortedPaths order).1 (mem_firstSeen.1 hmem).1)
  rw [hsplit] at hnone
  have hshown : shownDiffs roots rendering order = [diff] := by
    rw [shownDiffs, hsplit, List.filterMap_append, List.filterMap_cons_some h,
      List.filterMap_eq_nil_iff.2, List.filterMap_eq_nil_iff.2, List.nil_append]
    · intro other hafter
      exact hnone other (List.mem_append_right before (List.mem_cons_of_mem path hafter))
        fun heq => hnodup.1.2 (heq ▸ hafter)
    · intro other hbefore
      exact hnone other (List.mem_append_left (path :: after) hbefore)
        fun heq => hnodup.1.1 (heq ▸ hbefore)
  rw [getUnifiedDiff_eq order hvalid, hshown]
  simp

end

def pathY : AbsolutePathBuf := AbsolutePathBuf.root.join none "y".toList

/-- A turn that moves `a` to `x`, writes `a` again, and moves it to `y`. -/
def movedTwice : List TurnDiffTrackerUpdate :=
  [.track [] ⟨[⟨pathA, .update (some pathX) "1\n".toList none "1\n".toList⟩], true⟩,
    .track [] ⟨[⟨pathA, .add "1\n".toList none⟩], true⟩,
    .track [] ⟨[⟨pathA, .update (some pathY) "1\n".toList none "1\n".toList⟩], true⟩]

theorem tracks_movedTwice {path : TrackedPath}
    (h : (trackerAfter movedTwice).tracks path = true) :
    path = ⟨[], pathA⟩ ∨ path = ⟨[], pathX⟩ ∨ path = ⟨[], pathY⟩ := by
  have hcurrent : (trackerAfter movedTwice).currentByPath.keys = [⟨[], pathY⟩, ⟨[], pathX⟩] := by
    decide
  have hbaseline : (trackerAfter movedTwice).baselineByPath.keys = [⟨[], pathA⟩] := by
    decide
  rw [tracks, Bool.or_eq_true, AList.lookup_isSome, AList.lookup_isSome, AList.mem_keys,
    AList.mem_keys, hcurrent, hbaseline] at h
  simp only [List.mem_cons, List.not_mem_nil, or_false] at h
  rcases h with (rfl | rfl) | rfl <;> simp

/-- The destination that is not paired with `a` is shown as a new file. -/
theorem getUnifiedDiff_movedTwice (rendering : Rendering)
    (order : IterationOrder (trackerAfter movedTwice)) {chosen left : TrackedPath}
    (hpairs : ((trackerAfter movedTwice).renamePairs order.origins).entries =
      [⟨⟨[], pathA⟩, chosen⟩])
    (hends : chosen = ⟨[], pathX⟩ ∧ left = ⟨[], pathY⟩ ∨
      chosen = ⟨[], pathY⟩ ∧ left = ⟨[], pathX⟩) :
    ∃ rest, (trackerAfter movedTwice).getUnifiedDiff ∅ rendering order =
      some ("diff --git a/".toList ++ displayPath ∅ left ++ rest) := by
  have hlookup : ∀ path dest, ((trackerAfter movedTwice).renamePairs order.origins).lookup path =
      some dest ↔ path = ⟨[], pathA⟩ ∧ dest = chosen := by
    intro path dest
    rw [← Option.mem_def, AList.mem_lookup_iff, hpairs, List.mem_singleton, Sigma.mk.injEq,
      heq_eq_eq]
  have hchosen := (hlookup ⟨[], pathA⟩ chosen).2 ⟨rfl, rfl⟩
  have hdistinct : chosen ≠ ⟨[], pathA⟩ ∧ left ≠ ⟨[], pathA⟩ ∧ left ≠ chosen := by
    rcases hends with ⟨rfl, rfl⟩ | ⟨rfl, rfl⟩ <;> decide
  have horigin : shownDiff ∅ rendering (trackerAfter movedTwice)
      ((trackerAfter movedTwice).renamePairs order.origins) ⟨[], pathA⟩ = none := by
    rw [shownDiff_of_lookup (fun other h => hdistinct.1 ((hlookup _ _).1 h).2.symm) hchosen]
    apply renderDiff_eq_none.2
    rcases hends with ⟨rfl, -⟩ | ⟨rfl, -⟩ <;> decide
  have hnone : ((trackerAfter movedTwice).renamePairs order.origins).lookup left = none :=
    Option.eq_none_iff_forall_ne_some.2 fun dest h => hdistinct.2.1 ((hlookup _ _).1 h).1
  have hleft := @shownDiff_of_unpaired ∅ rendering (trackerAfter movedTwice) _ left
    (fun other h => hdistinct.2.2 ((hlookup _ _).1 h).2) hnone
  obtain ⟨diff, hdiff⟩ : ∃ diff, renderPathDiff ∅ rendering (trackerAfter movedTwice) left =
      some diff := by
    apply Option.ne_none_iff_exists'.1
    rw [renderPathDiff, Ne, renderDiff_eq_none]
    rcases hends with ⟨-, rfl⟩ | ⟨-, rfl⟩ <;> decide
  have htracked : (trackerAfter movedTwice).tracks left = true := by
    rcases hends with ⟨-, rfl⟩ | ⟨-, rfl⟩ <;> decide
  have hsingle := getUnifiedDiff_of_single order (by decide) htracked (hleft.trans hdiff)
  obtain ⟨rest, hdiffEq⟩ := renderDiff_eq_some hdiff
  obtain ⟨tail, htail⟩ := exists_withNewline diff
  refine ⟨" b/".toList ++ displayPath ∅ left ++ '\n' :: rest ++ tail, ?_⟩
  rw [hsingle, htail, hdiffEq]
  · simp only [List.append_assoc]
  · intro other htracks hne
    have hthree := tracks_movedTwice htracks
    have hends' : other = ⟨[], pathA⟩ ∨ other = chosen := by
      rcases hends with ⟨rfl, rfl⟩ | ⟨rfl, rfl⟩
      · exact hthree.imp_right fun h => h.resolve_right hne
      · exact hthree.imp_right fun h => h.resolve_left hne
    rcases hends' with rfl | rfl
    · exact horigin
    · exact shownDiff_of_paired hchosen

/-- The order of the map of origins decides which of the two files is shown. -/
theorem moved_twice_depends_on_order :
    (trackerAfter movedTwice).valid = true ∧
      ∀ rendering, (trackerAfter movedTwice).getUnifiedDiff ∅ rendering (.listed _) ≠
        (trackerAfter movedTwice).getUnifiedDiff ∅ rendering (.reversed _) := by
  refine ⟨by decide +kernel, fun rendering => ?_⟩
  obtain ⟨rest, hlisted⟩ := getUnifiedDiff_movedTwice rendering (.listed _)
    (by decide +kernel) (Or.inl ⟨rfl, rfl⟩)
  obtain ⟨rest', hreversed⟩ := getUnifiedDiff_movedTwice rendering (.reversed _)
    (by decide +kernel) (Or.inr ⟨rfl, rfl⟩)
  have hy : displayPath ∅ ⟨[], pathY⟩ = "/y".toList := by decide +kernel
  have hx : displayPath ∅ ⟨[], pathX⟩ = "/x".toList := by decide +kernel
  rw [hlisted, hreversed, hx, hy, List.append_assoc, List.append_assoc]
  intro heq
  have hrest := List.append_cancel_left (Option.some.inj heq)
  simp at hrest

end Codewith.TurnDiff
