import Codewith.Composer.Operations
import Codewith.Lib.MarkedText

/-!
# The cursor and the elements

In runs without the three operations that put an element around the cursor, no element strictly
contains it.
-/

namespace Codewith.Composer

open Lib Lib.Text

/-- What a grapheme cursor over the whole text answers at a character boundary. -/
structure Environment.Segments (env : Environment) : Prop where
  prevBoundary : ∀ s p, IsBoundary s p →
    ∃ b, env.prevBoundary s p = .ok b ∧ ∀ q ∈ b, IsBoundary s q
  nextBoundary : ∀ s p, IsBoundary s p →
    ∃ b, env.nextBoundary s p = .ok b ∧ ∀ q ∈ b, IsBoundary s q

namespace TextArea

/-- Elements are whole characters and do not overlap in part. -/
structure Tidy (t : TextArea) : Prop where
  marks : Marks t.text t.ranges
  cursor : IsBoundary t.text t.cursorPos

def CursorOutside (t : TextArea) : Prop := Outside t.ranges t.cursorPos

variable {env : Environment} {t t' : TextArea} {p : Nat}

/-! ### Clamping -/

theorem clampPosToCharBoundary_of_isBoundary (h : IsBoundary t.text p) :
    t.clampPosToCharBoundary p = p := by
  rw [clampPosToCharBoundary, min_eq_left h.le, if_pos h]

theorem isBoundary_clampPosToCharBoundary (t : TextArea) (p : Nat) :
    IsBoundary t.text (t.clampPosToCharBoundary p) := by
  rw [clampPosToCharBoundary]
  dsimp only
  split_ifs with hboundary hnear
  · exact hboundary
  · exact isBoundary_byteSize_takeBytes _ _
  · exact isBoundary_byteSize_spanBytes _ _

theorem outside_of_findElementContaining (h : t.findElementContaining p = none) :
    Outside t.ranges p := by
  intro range hrange hinside
  obtain ⟨e, he, rfl⟩ := List.mem_map.mp hrange
  exact List.find?_eq_none.mp h e he (decide_eq_true hinside)

theorem of_findElementContaining {e : TextElement} (h : t.findElementContaining p = some e) :
    e.range ∈ t.ranges ∧ e.range.Inside p := by
  rw [findElementContaining] at h
  have hinside := List.find?_some h
  exact ⟨List.mem_map_of_mem (List.mem_of_find?_eq_some h), of_decide_eq_true hinside⟩

/-- An edge of an element is a place for the cursor. -/
theorem edges_of_mem (hm : Marks t.text t.ranges) {e : Span} (he : e ∈ t.ranges) :
    (IsBoundary t.text e.start ∧ Outside t.ranges e.start) ∧
      IsBoundary t.text e.stop ∧ Outside t.ranges e.stop :=
  ⟨⟨(hm.boundaries e he).1, hm.outside_start he⟩, (hm.boundaries e he).2, hm.outside_stop he⟩

theorem clampPosToNearestBoundary_spec (hm : Marks t.text t.ranges) (p : Nat) :
    IsBoundary t.text (t.clampPosToNearestBoundary p) ∧
      Outside t.ranges (t.clampPosToNearestBoundary p) := by
  rw [clampPosToNearestBoundary]
  split
  · rename_i e hfound
    obtain ⟨hstart, hstop⟩ := edges_of_mem hm (of_findElementContaining hfound).1
    split_ifs
    · rw [clampPosToCharBoundary_of_isBoundary hstart.1]
      exact hstart
    · rw [clampPosToCharBoundary_of_isBoundary hstop.1]
      exact hstop
  · rename_i hnone
    exact ⟨isBoundary_clampPosToCharBoundary t p, outside_of_findElementContaining hnone⟩

/-- The nearest boundary is on the same side of a position outside the elements. -/
theorem clampPosToNearestBoundary_side (hm : Marks t.text t.ranges) (hp : IsBoundary t.text p)
    {a : Nat} (ha : Outside t.ranges a) :
    (p ≤ a → t.clampPosToNearestBoundary p ≤ a) ∧ (a ≤ p → a ≤ t.clampPosToNearestBoundary p) := by
  rw [clampPosToNearestBoundary, clampPosToCharBoundary_of_isBoundary hp]
  split
  · rename_i e hfound
    obtain ⟨he, hinside⟩ := of_findElementContaining hfound
    obtain ⟨hstart, hstop⟩ := edges_of_mem hm he
    have hout := ha e.range he
    rw [Span.Inside] at hinside hout
    split_ifs
    · rw [clampPosToCharBoundary_of_isBoundary hstart.1]
      omega
    · rw [clampPosToCharBoundary_of_isBoundary hstop.1]
      omega
  · exact ⟨id, id⟩

theorem clampPosToNearestBoundary_of_outside (hp : IsBoundary t.text p)
    (hout : Outside t.ranges p) : t.clampPosToNearestBoundary p = p := by
  rw [clampPosToNearestBoundary, clampPosToCharBoundary_of_isBoundary hp]
  split
  · rename_i e hfound
    obtain ⟨he, hinside⟩ := of_findElementContaining hfound
    exact absurd hinside (hout e.range he)
  · rfl

theorem clampPosForInsertion_eq (t : TextArea) (p : Nat) :
    t.clampPosForInsertion p = t.clampPosToNearestBoundary p := rfl

/-! ### Steps -/

theorem prevAtomicBoundary_spec (henv : env.Segments) (hm : Marks t.text t.ranges)
    (hp : IsBoundary t.text p) :
    IsBoundary t.text (t.prevAtomicBoundary env p) ∧
      Outside t.ranges (t.prevAtomicBoundary env p) := by
  have hzero : IsBoundary t.text 0 ∧ Outside t.ranges 0 :=
    ⟨isBoundary_zero t.text, Marks.outside_zero t.ranges⟩
  rw [prevAtomicBoundary]
  split_ifs
  · exact hzero
  · split
    · rename_i e hfound
      exact (edges_of_mem hm (List.mem_map_of_mem (List.mem_of_find?_eq_some hfound))).1
    · obtain ⟨b, hb, hboundary⟩ := henv.prevBoundary t.text p hp
      rw [hb]
      cases b with
      | none => exact hzero
      | some b =>
          dsimp only
          split
          · rename_i e hfound
            exact (edges_of_mem hm (of_findElementContaining hfound).1).1
          · rename_i hnone
            exact ⟨hboundary b rfl, outside_of_findElementContaining hnone⟩

theorem nextAtomicBoundary_spec (henv : env.Segments) (hm : Marks t.text t.ranges)
    (hp : IsBoundary t.text p) :
    IsBoundary t.text (t.nextAtomicBoundary env p) ∧
      Outside t.ranges (t.nextAtomicBoundary env p) := by
  have hlast : IsBoundary t.text (byteSize t.text) ∧ Outside t.ranges (byteSize t.text) :=
    ⟨isBoundary_byteSize t.text, hm.outside_byteSize⟩
  rw [nextAtomicBoundary]
  split_ifs
  · exact hlast
  · split
    · rename_i e hfound
      exact (edges_of_mem hm (List.mem_map_of_mem (List.mem_of_find?_eq_some hfound))).2
    · obtain ⟨b, hb, hboundary⟩ := henv.nextBoundary t.text p hp
      rw [hb]
      cases b with
      | none => exact hlast
      | some b =>
          dsimp only
          split
          · rename_i e hfound
            exact (edges_of_mem hm (of_findElementContaining hfound).1).2
          · rename_i hnone
            exact ⟨hboundary b rfl, outside_of_findElementContaining hnone⟩

theorem isBoundary_beginningOfLine {bol : Nat} (h : t.beginningOfLine p = some bol) :
    IsBoundary t.text bol := by
  obtain ⟨before, hbefore, h⟩ := Option.bind_eq_some_iff.mp h
  obtain ⟨front, after, htext, hfront, -⟩ := slice_eq_some_iff.mp hbefore
  rw [byteSize_eq_zero.mp hfront] at htext
  rw [← Option.some.inj h]
  cases hnewline : rfind (· == '\n') before with
  | none => exact isBoundary_zero t.text
  | some i =>
      obtain ⟨a, c, b, rfl, rfl, hc⟩ := exists_of_rfind hnewline
      have hsize : byteSize a + 1 = byteSize (a ++ [c]) := by
        rw [eq_of_beq hc, byteSize_append]
        rfl
      refine isBoundary_iff.mpr ⟨a ++ [c], b ++ after, ?_, hsize.symm⟩
      rw [htext]
      simp

/-! ### Replacing -/

theorem ranges_shiftElements {pos removed inserted : Nat}
    (hcross : ∀ e ∈ t.ranges, e.Apart ⟨pos, pos + removed⟩ ∨ e.Within ⟨pos, pos + removed⟩) :
    (t.shiftElements pos removed inserted).ranges ⊆
      (t.ranges.filter fun e => e.Apart ⟨pos, pos + removed⟩).map
        (past ⟨pos, pos + removed⟩ inserted) := by
  intro range hrange
  obtain ⟨moved, hmoved, rfl⟩ := List.mem_map.mp hrange
  obtain ⟨e, he, rfl⟩ := List.mem_map.mp hmoved
  obtain ⟨he, hkept⟩ := List.mem_filter.mp he
  have hmem : e.range ∈ t.ranges := List.mem_map_of_mem he
  have hapart : e.range.Apart ⟨pos, pos + removed⟩ := by
    rcases hcross e.range hmem with hapart | hwithin
    · exact hapart
    · rw [Span.Within] at hwithin
      simp [hwithin.1, hwithin.2] at hkept
  refine List.mem_map.mpr ⟨e.range, List.mem_filter.mpr ⟨hmem, decide_eq_true hapart⟩, ?_⟩
  rw [past, shiftRange, Nat.add_sub_cancel_left]
  split_ifs with hbefore hafter
  · rfl
  · rfl
  · exact absurd (hapart.resolve_left hbefore) hafter

/-- The text put in the place of a range that takes elements as a whole may be marked. -/
theorem marks_shiftElements {replaced inserted : Text} {range : Span} (hm : Marks t.text t.ranges)
    (hr : Text.replaceRange t.text range.start range.stop inserted = some replaced)
    (hcross : ∀ e ∈ t.ranges, e.Apart range ∨ e.Within range) :
    Marks replaced (⟨range.start, range.start + byteSize inserted⟩ ::
      (t.shiftElements range.start (range.stop - range.start) (byteSize inserted)).ranges) := by
  have hstop : range.start + (range.stop - range.start) = range.stop :=
    Nat.add_sub_cancel' (le_of_replaceRange hr).1
  have hshift :=
    @ranges_shiftElements t range.start (range.stop - range.start) (byteSize inserted)
  rw [hstop] at hshift
  exact (hm.replace_apart hr).subset (List.cons_subset_cons _ (hshift hcross))

theorem insertStrAt_spec {pos : Nat} {text : Text} (ht : t.Tidy)
    (h : t.insertStrAt pos text = some t') :
    Marks t'.text (⟨t.clampPosToNearestBoundary pos,
        t.clampPosToNearestBoundary pos + byteSize text⟩ :: t'.ranges) ∧
      IsBoundary t'.text t'.cursorPos ∧ (t.CursorOutside → t'.CursorOutside) := by
  obtain ⟨replaced, hreplaced, h⟩ := Option.bind_eq_some_iff.mp h
  obtain ⟨hboundary, hout⟩ := clampPosToNearestBoundary_spec ht.marks pos
  rw [clampPosForInsertion_eq] at hreplaced h
  generalize t.clampPosToNearestBoundary pos = q at hreplaced h hboundary hout ⊢
  rw [← Option.some.inj h]
  have hcross : ∀ e ∈ t.ranges, e.Apart ⟨q, q⟩ ∨ e.Within ⟨q, q⟩ :=
    fun e he => .inl (hout.apart he)
  refine ⟨?_, ?_, ?_⟩
  · have hmarks := @marks_shiftElements t replaced text ⟨q, q⟩ ht.marks hreplaced hcross
    rw [Nat.sub_self] at hmarks
    exact hmarks
  · change IsBoundary replaced
      (if q ≤ t.cursorPos then t.cursorPos + byteSize text else t.cursorPos)
    split_ifs with hafter
    · have hmoved := isBoundary_replaceRange_after hreplaced ht.cursor hafter
      rwa [Nat.sub_self, Nat.sub_zero] at hmoved
    · exact isBoundary_replaceRange_before hreplaced ht.cursor (by omega)
  · intro hcursor
    have hmoved : Outside (t.ranges.map (past ⟨q, q⟩ (byteSize text)))
        (if q ≤ t.cursorPos then t.cursorPos + byteSize text else t.cursorPos) :=
      Outside.insert hcursor hout
    apply hmoved.subset
    have hshift := @ranges_shiftElements t q 0 (byteSize text) hcross
    exact List.Subset.trans hshift (List.map_subset _ (List.filter_subset_self _))

theorem isBoundary_cursorAfterReplace {replaced inserted : Text} {range : Span} {cursor : Nat}
    (hr : Text.replaceRange t.text range.start range.stop inserted = some replaced)
    (hcursor : IsBoundary t.text cursor) :
    IsBoundary replaced
        (cursorAfterReplace cursor range.start range.stop (byteSize inserted)) := by
  rw [cursorAfterReplace]
  split_ifs
  · exact isBoundary_replaceRange_before hr hcursor (by omega)
  · exact isBoundary_replaceRange_inserted hr
  · exact isBoundary_replaceRange_after hr hcursor (by omega)

/-- A replacement that keeps the text leaves the state as it is; any other clamps the cursor, which
is not within the text put in. -/
theorem replaceRangeRaw_spec {range : Span} {text : Text} (ht : t.Tidy)
    (hcross : ∀ e ∈ t.ranges, e.Apart range ∨ e.Within range)
    (h : t.replaceRangeRaw range text = some t') :
    (t' = t ∧ byteSize text = 0 ∧
        min range.stop (byteSize t.text) - min range.start (byteSize t.text) = 0) ∨
      (t'.Tidy ∧ t'.CursorOutside ∧
        Marks t'.text (⟨range.start, range.start + byteSize text⟩ :: t'.ranges) ∧
        ¬ (⟨range.start, range.start + byteSize text⟩ : Span).Inside t'.cursorPos) := by
  rw [replaceRangeRaw] at h
  dsimp only at h
  split_ifs at h with hinverted hnothing
  · exact .inl ⟨(Option.some.inj h).symm, hnothing.2, hnothing.1⟩
  · obtain ⟨replaced, hreplaced, h⟩ := Option.bind_eq_some_iff.mp h
    obtain ⟨hle, hstart, hstop⟩ := le_of_replaceRange hreplaced
    rw [min_eq_left hstart.le, min_eq_left hstop.le] at h
    have hmarks := marks_shiftElements ht.marks hreplaced hcross
    have hcursor := isBoundary_cursorAfterReplace hreplaced ht.cursor
    rw [min_eq_left hcursor.le] at h
    have hside : cursorAfterReplace t.cursorPos range.start range.stop (byteSize text) ≤
          range.start ∨
        range.start + byteSize text ≤
          cursorAfterReplace t.cursorPos range.start range.stop (byteSize text) := by
      rw [cursorAfterReplace]
      split_ifs <;> omega
    generalize cursorAfterReplace t.cursorPos range.start range.stop (byteSize text) = cursor
      at h hcursor hside
    generalize hshifted : shiftElements _ _ _ _ = shifted at h
    have htext : shifted.text = replaced := hshifted ▸ rfl
    have hranges : shifted.ranges = (t.shiftElements range.start (range.stop - range.start)
        (byteSize text)).ranges := hshifted ▸ rfl
    rw [← hranges, ← htext] at hmarks
    rw [← htext] at hcursor
    have hkept := hmarks.subset (List.subset_cons_self _ _)
    obtain ⟨hboundary, hout⟩ := clampPosToNearestBoundary_spec hkept cursor
    have hbefore := hmarks.outside_start List.mem_cons_self
    have hafter := hmarks.outside_stop List.mem_cons_self
    rw [← Option.some.inj h]
    refine .inr ⟨⟨hkept, hboundary⟩, hout, hmarks, fun hinside => ?_⟩
    rcases hside with hside | hside
    · have hclamped := (clampPosToNearestBoundary_side hkept hcursor
        (hbefore.subset (List.subset_cons_self _ _))).1 hside
      exact absurd hinside.1 (not_lt.mpr hclamped)
    · have hclamped := (clampPosToNearestBoundary_side hkept hcursor
        (hafter.subset (List.subset_cons_self _ _))).2 hside
      exact absurd hinside.2 (not_lt.mpr hclamped)

theorem tidy_placed (hm : Marks t.text t.ranges) (p : Nat) :
    ({ t with cursorPos := t.clampPosToNearestBoundary p } : TextArea).Tidy ∧
      ({ t with cursorPos := t.clampPosToNearestBoundary p } : TextArea).CursorOutside := by
  obtain ⟨hboundary, hout⟩ := clampPosToNearestBoundary_spec hm p
  exact ⟨⟨hm, hboundary⟩, hout⟩

/-! ### Edits -/

theorem tidy_edit (henv : env.Segments) (ht : t.Tidy) (h : Edit env t t') :
    t'.Tidy ∧ (t.CursorOutside → t'.CursorOutside) := by
  cases h with
  | aside htext helements hcursor hcache =>
      have hranges : t'.ranges = t.ranges := congrArg (List.map TextElement.range) helements
      refine ⟨⟨?_, ?_⟩, ?_⟩
      · rw [htext, hranges]
        exact ht.marks
      · rw [htext, hcursor]
        exact ht.cursor
      · rw [CursorOutside, CursorOutside, hranges, hcursor]
        exact id
  | wrap width =>
      rw [wrappedLines]
      split
      · split_ifs <;> exact ⟨⟨ht.marks, ht.cursor⟩, id⟩
      · exact ⟨⟨ht.marks, ht.cursor⟩, id⟩
  | place pos =>
      obtain ⟨htidy, hout⟩ := tidy_placed ht.marks pos
      exact ⟨htidy, fun _ => hout⟩
  | left =>
      obtain ⟨hboundary, hout⟩ := prevAtomicBoundary_spec henv ht.marks ht.cursor
      exact ⟨⟨ht.marks, hboundary⟩, fun _ => hout⟩
  | right =>
      obtain ⟨hboundary, hout⟩ := nextAtomicBoundary_spec henv ht.marks ht.cursor
      exact ⟨⟨ht.marks, hboundary⟩, fun _ => hout⟩
  | first => exact ⟨⟨ht.marks, isBoundary_zero _⟩, fun _ => Marks.outside_zero _⟩
  | last => exact ⟨⟨ht.marks, isBoundary_byteSize _⟩, fun _ => ht.marks.outside_byteSize⟩
  | insert h =>
      obtain ⟨hmarks, hboundary, hout⟩ := insertStrAt_spec ht h
      exact ⟨⟨hmarks.subset (List.subset_cons_self _ _), hboundary⟩, hout⟩
  | replace hwide h =>
      rcases replaceRangeRaw_spec ht (Span.widen_spec hwide).2 h with
        ⟨rfl, -⟩ | ⟨htidy, hout, -⟩
      · exact ⟨ht, id⟩
      · exact ⟨htidy, fun _ => hout⟩

theorem tidy_edits (henv : env.Segments) (ht : t.Tidy) (h : Edits env t t') :
    t'.Tidy ∧ (t.CursorOutside → t'.CursorOutside) := by
  induction h with
  | refl => exact ⟨ht, id⟩
  | tail _ hedit ih =>
      obtain ⟨htidy, hout⟩ := tidy_edit henv ih.1 hedit
      exact ⟨htidy, hout ∘ ih.2⟩

/-! ### Elements -/

theorem ranges_sortElements (t : TextArea) (elements : List TextElement) :
    ({ t with elements := sortElements elements } : TextArea).ranges ⊆
      elements.map TextElement.range :=
  List.map_subset _ (List.perm_insertionSort _ elements).subset

theorem ranges_addElementWithId {range : Span} {name : Option Text} :
    (t.addElementWithId range name).2.ranges ⊆ range :: t.ranges := by
  intro e he
  have hmem := ranges_sortElements t.bumpElementId _ he
  rw [List.map_append, List.mem_append] at hmem
  rcases hmem with hmem | hmem
  · exact List.mem_cons_of_mem _ hmem
  · rw [List.mem_singleton.mp hmem]
    exact List.mem_cons_self

theorem marks_addElementWithId {range : Span} {name : Option Text}
    (h : Marks t.text (range :: t.ranges)) :
    Marks (t.addElementWithId range name).2.text (t.addElementWithId range name).2.ranges :=
  h.subset ranges_addElementWithId

theorem tidy_setCursor (hm : Marks t.text t.ranges) (p : Nat) :
    (t.setCursor p).Tidy ∧ (t.setCursor p).CursorOutside := by
  obtain ⟨hboundary, hout⟩ := clampPosToNearestBoundary_spec hm (min p (byteSize t.text))
  exact ⟨⟨hm, hboundary⟩, hout⟩

theorem tidy_insertElementWith {text : Text} {name : Option Text} {added : Nat × TextArea}
    (ht : t.Tidy) (h : t.insertElementWith text name = some added) :
    added.2.Tidy ∧ added.2.CursorOutside := by
  obtain ⟨inserted, hinserted, h⟩ := Option.bind_eq_some_iff.mp h
  obtain ⟨hmarks, -⟩ := insertStrAt_spec ht hinserted
  obtain ⟨hboundary, hout⟩ := clampPosToNearestBoundary_spec ht.marks t.cursorPos
  rw [clampPosForInsertion_eq] at h hmarks
  rw [clampPosToNearestBoundary_of_outside hboundary hout] at hmarks
  rw [← Option.some.inj h]
  exact tidy_setCursor (marks_addElementWithId hmarks) _

/-- An element is apart from any other, unless it has the same range. -/
theorem crosses_of_mem (hm : Marks t.text t.ranges) {e : Span} (he : e ∈ t.ranges) :
    ∀ f ∈ t.ranges, f.Apart e ∨ f.Within e := by
  intro f hf
  rcases hm.separate f hf e he with rfl | hapart
  · exact .inr ⟨le_rfl, le_rfl⟩
  · exact .inl hapart

theorem mem_ranges_of_namedElement {name : Text} {e : TextElement}
    (h : t.namedElement name = some e) :
    e.range ∈ t.ranges :=
  List.mem_map_of_mem (List.mem_of_find?_eq_some h)

theorem tidy_replaceElementById {name text : Text} {replaced : Bool × TextArea} (ht : t.Tidy)
    (h : t.replaceElementById name text = some replaced) :
    replaced.2.Tidy ∧ (t.CursorOutside → replaced.2.CursorOutside) := by
  rw [replaceElementById] at h
  split at h
  · rw [← Option.some.inj h]
    exact ⟨ht, id⟩
  · rename_i e hfound
    obtain ⟨u, hu, h⟩ := Option.bind_eq_some_iff.mp h
    rw [← Option.some.inj h]
    have hkept : u.Tidy ∧ (t.CursorOutside → u.CursorOutside) := by
      rcases replaceRangeRaw_spec ht
        (crosses_of_mem ht.marks (mem_ranges_of_namedElement hfound)) hu
        with ⟨rfl, -⟩ | ⟨htidy, hout, -⟩
      · exact ⟨ht, id⟩
      · exact ⟨htidy, fun _ => hout⟩
    have hsubset := List.map_subset TextElement.range
      (List.filter_subset_self (p := fun e : TextElement => e.name != some name) u.elements)
    exact ⟨⟨hkept.1.marks.subset hsubset, hkept.1.cursor⟩, fun h => (hkept.2 h).subset hsubset⟩

theorem tidy_updateNamedElementById {name text : Text} {updated : Bool × TextArea} (ht : t.Tidy)
    (h : t.updateNamedElementById name text = some updated) :
    updated.2.Tidy ∧ (t.CursorOutside → updated.2.CursorOutside) := by
  rw [updateNamedElementById] at h
  split at h
  · rw [← Option.some.inj h]
    exact ⟨ht, id⟩
  · rename_i e hfound
    obtain ⟨u, hu, h⟩ := Option.bind_eq_some_iff.mp h
    rw [← Option.some.inj h]
    have hmem := mem_ranges_of_namedElement hfound
    rcases replaceRangeRaw_spec ht (crosses_of_mem ht.marks hmem) hu with
      ⟨rfl, htext, hempty⟩ | ⟨htidy, hout, hmarks, hside⟩
    · have hle := ht.marks.ordered e.range hmem
      rw [min_eq_left (ht.marks.boundaries e.range hmem).1.le,
        min_eq_left (ht.marks.boundaries e.range hmem).2.le] at hempty
      have hsame : (⟨e.range.start, e.range.start + byteSize text⟩ : Span) = e.range := by
        ext
        · rfl
        · dsimp only
          omega
      rw [hsame]
      have hsubset : (u.addElementWithId e.range (some name)).2.ranges ⊆ u.ranges :=
        List.Subset.trans ranges_addElementWithId
          (List.cons_subset.mpr ⟨hmem, List.Subset.refl _⟩)
      exact ⟨⟨ht.marks.subset hsubset, ht.cursor⟩, fun h => h.subset hsubset⟩
    · exact ⟨⟨marks_addElementWithId hmarks, htidy.cursor⟩,
        fun _ => (hout.cons hside).subset ranges_addElementWithId⟩

/-! ### Renaming -/

/-- An element other than the renamed one, where it stands after the renaming. -/
theorem mem_of_shiftPast {range e : Span} {inserted : Nat} (hrange : range.start ≤ range.stop)
    (h : e.Separate range) :
    shiftPast range.start range.stop inserted e = ⟨range.start, range.start + inserted⟩ ∨
      (e.Apart range ∧ shiftPast range.start range.stop inserted e = past range inserted e) := by
  rw [shiftPast, past]
  split_ifs with hbefore hafter
  · exact .inr ⟨.inl hbefore, rfl⟩
  · exact .inr ⟨.inr hafter, rfl⟩
  · rcases h with rfl | h | h
    · left
      ext
      · exact min_self _
      · dsimp only
        omega
    · exact absurd h hbefore
    · exact absurd h hafter

/-- Without a change of length nothing moves. -/
theorem mem_of_same_length {range e : Span} {inserted : Nat} (hrange : range.start ≤ range.stop)
    (hsame : inserted = range.stop - range.start) (h : e.Separate range) :
    e = ⟨range.start, range.start + inserted⟩ ∨ (e.Apart range ∧ e = past range inserted e) := by
  rcases h with rfl | h
  · left
    ext
    · rfl
    · dsimp only
      omega
  · refine .inr ⟨h, ?_⟩
    rw [past]
    split_ifs with hbefore
    · rfl
    · rw [Span.Apart] at h
      ext <;> dsimp only <;> omega

theorem ranges_renameRange {idx inserted : Nat} {range : Span} {replaced : Text}
    (hrange : range.start ≤ range.stop) (hseparate : ∀ e ∈ t.ranges, e.Separate range) :
    (t.renameRange idx range replaced inserted).ranges ⊆
      ⟨range.start, range.start + inserted⟩ ::
        (t.ranges.filter fun e => e.Apart range).map (past range inserted) := by
  intro r hr
  obtain ⟨renamed, hrenamed, rfl⟩ := List.mem_map.mp hr
  obtain ⟨j, hj, rfl⟩ := List.mem_mapIdx.mp hrenamed
  have hmem : t.elements[j].range ∈ t.ranges := List.mem_map_of_mem (List.getElem_mem hj)
  have hkeep : ∀ r : Span, (r = ⟨range.start, range.start + inserted⟩ ∨
      (t.elements[j].range.Apart range ∧ r = past range inserted t.elements[j].range)) →
      r ∈ (⟨range.start, range.start + inserted⟩ : Span) ::
        (t.ranges.filter fun e => e.Apart range).map (past range inserted) := by
    rintro r (rfl | ⟨hapart, rfl⟩)
    · exact List.mem_cons_self
    · refine List.mem_cons_of_mem _ (List.mem_map_of_mem (List.mem_filter.mpr ⟨hmem, ?_⟩))
      exact decide_eq_true hapart
  apply hkeep
  split_ifs with hidx hsame
  · exact .inl rfl
  · exact mem_of_same_length hrange hsame (hseparate _ hmem)
  · exact mem_of_shiftPast hrange (hseparate _ hmem)

theorem tidy_sorted_placed (hm : Marks t.text t.ranges) (p : Nat) :
    ({ t with
        cursorPos := t.clampPosToNearestBoundary p
        elements := sortElements t.elements } : TextArea).Tidy ∧
      ({ t with
        cursorPos := t.clampPosToNearestBoundary p
        elements := sortElements t.elements } : TextArea).CursorOutside := by
  obtain ⟨hboundary, hout⟩ := clampPosToNearestBoundary_spec hm p
  have hsubset := ranges_sortElements t t.elements
  exact ⟨⟨hm.subset hsubset, hboundary⟩, hout.subset hsubset⟩

theorem tidy_replaceElementPayload {old text : Text} {renamed : Bool × TextArea} (ht : t.Tidy)
    (h : t.replaceElementPayload old text = some renamed) :
    renamed.2.Tidy ∧ (t.CursorOutside → renamed.2.CursorOutside) := by
  rw [replaceElementPayload] at h
  split at h
  · rw [← Option.some.inj h]
    exact ⟨ht, id⟩
  · rename_i idx hidx
    obtain ⟨e, he, h⟩ := Option.bind_eq_some_iff.mp h
    split_ifs at h with hinvalid
    · rw [← Option.some.inj h]
      exact ⟨ht, id⟩
    · obtain ⟨replaced, hreplaced, h⟩ := Option.bind_eq_some_iff.mp h
      have hmem : e.range ∈ t.ranges := List.mem_map_of_mem (List.mem_of_getElem? he)
      have hrenamed := @ranges_renameRange t idx (byteSize text) e.range replaced
        (ht.marks.ordered e.range hmem) fun f hf => ht.marks.separate f hf e.range hmem
      have hmarks : Marks (t.renameRange idx e.range replaced (byteSize text)).text
          (t.renameRange idx e.range replaced (byteSize text)).ranges :=
        (ht.marks.replace_apart hreplaced).subset hrenamed
      rw [← Option.some.inj h, renameElement]
      obtain ⟨htidy, hout⟩ := tidy_sorted_placed hmarks
        (cursorAfterReplace t.cursorPos e.range.start e.range.stop (byteSize text))
      exact ⟨htidy, fun _ => hout⟩

/-! ### Marking -/

theorem clampRange_boundaries (t : TextArea) (range : Span) :
    IsBoundary t.text (t.clampRange range).start ∧ IsBoundary t.text (t.clampRange range).stop :=
  ⟨isBoundary_clampPosToCharBoundary t _, isBoundary_clampPosToCharBoundary t _⟩

theorem tidy_addElementRange {range : Span} (ht : t.Tidy) :
    (t.addElementRange range).2.Tidy ∧
      (((t.clampRange range).Inside t.cursorPos → ∃ e ∈ t.ranges,
          (t.clampRange range).start < e.stop ∧ e.start < (t.clampRange range).stop) →
        t.CursorOutside → (t.addElementRange range).2.CursorOutside) := by
  rw [addElementRange]
  split_ifs with hempty hsame hoverlap
  · exact ⟨ht, fun _ => id⟩
  · exact ⟨ht, fun _ => id⟩
  · exact ⟨ht, fun _ => id⟩
  · have hnone : ∀ f ∈ t.ranges, ¬ ((t.clampRange range).start < f.stop ∧
        f.start < (t.clampRange range).stop) := by
      intro f hf hmeets
      obtain ⟨e, he, rfl⟩ := List.mem_map.mp hf
      apply hoverlap
      exact List.any_eq_true.mpr ⟨e, he, by simp [hmeets.1, hmeets.2]⟩
    have hmarks : Marks t.text (t.clampRange range :: t.ranges) := by
      obtain ⟨hstart, hstop⟩ := clampRange_boundaries t range
      refine ht.marks.cons (by omega) hstart hstop fun f hf => .inr ?_
      have hmeets := hnone f hf
      rw [Span.Apart]
      omega
    refine ⟨⟨marks_addElementWithId hmarks, ht.cursor⟩, fun hclear hout => ?_⟩
    apply Outside.subset _ ranges_addElementWithId
    apply Outside.cons hout
    intro hinside
    obtain ⟨e, he, hmeets⟩ := hclear hinside
    exact hnone e he hmeets

theorem tidy_removeElementRange {range : Span} (ht : t.Tidy) :
    (t.removeElementRange range).2.Tidy ∧
      (t.CursorOutside → (t.removeElementRange range).2.CursorOutside) := by
  rw [removeElementRange]
  dsimp only
  split_ifs
  · exact ⟨ht, id⟩
  · have hsubset := List.map_subset TextElement.range (List.filter_subset_self
      (p := fun e : TextElement => !decide (e.range = t.clampRange range)) t.elements)
    exact ⟨⟨ht.marks.subset hsubset, ht.cursor⟩, fun h => h.subset hsubset⟩

end TextArea

end Codewith.Composer
