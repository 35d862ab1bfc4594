import Codewith.Lib.ByteRange
import Codewith.Lib.Span

/-!
# Marked text

Spans of a text that are whole characters, and of which no two overlap in part.  A replacement that
takes spans as a whole keeps the others so.
-/

namespace Codewith.Lib.Text

structure Marks (s : Text) (spans : List Span) : Prop where
  ordered : ∀ e ∈ spans, e.start ≤ e.stop
  boundaries : ∀ e ∈ spans, IsBoundary s e.start ∧ IsBoundary s e.stop
  separate : ∀ e ∈ spans, ∀ f ∈ spans, e.Separate f

/-- A position that is in the middle of no span. -/
def Outside (spans : List Span) (p : Nat) : Prop := ∀ e ∈ spans, ¬ e.Inside p

instance (spans : List Span) (p : Nat) : Decidable (Outside spans p) :=
  inferInstanceAs (Decidable (∀ e ∈ spans, ¬ e.Inside p))

section

variable {s : Text} {spans part : List Span} {p : Nat} {e : Span}

theorem Marks.nil (s : Text) : Marks s [] where
  ordered := fun _ he => absurd he List.not_mem_nil
  boundaries := fun _ he => absurd he List.not_mem_nil
  separate := fun _ he => absurd he List.not_mem_nil

theorem Marks.subset (h : Marks s spans) (hpart : part ⊆ spans) : Marks s part where
  ordered e he := h.ordered e (hpart he)
  boundaries e he := h.boundaries e (hpart he)
  separate e he f hf := h.separate e (hpart he) f (hpart hf)

theorem Marks.cons (h : Marks s spans) (hle : e.start ≤ e.stop) (hstart : IsBoundary s e.start)
    (hstop : IsBoundary s e.stop) (hseparate : ∀ f ∈ spans, f.Separate e) :
    Marks s (e :: spans) where
  ordered := List.forall_mem_cons.mpr ⟨hle, h.ordered⟩
  boundaries := List.forall_mem_cons.mpr ⟨⟨hstart, hstop⟩, h.boundaries⟩
  separate := by
    intro f hf g hg
    rcases List.mem_cons.mp hf with rfl | hf' <;> rcases List.mem_cons.mp hg with rfl | hg'
    · exact .inl rfl
    · exact (hseparate g hg').symm
    · exact hseparate f hf'
    · exact h.separate f hf' g hg'

theorem Outside.subset (h : Outside spans p) (hpart : part ⊆ spans) : Outside part p :=
  fun e he => h e (hpart he)

theorem Outside.cons (h : Outside spans p) (he : ¬ e.Inside p) : Outside (e :: spans) p :=
  List.forall_mem_cons.mpr ⟨he, h⟩

theorem Marks.outside_start (h : Marks s spans) (he : e ∈ spans) : Outside spans e.start :=
  fun f hf => (h.separate e he f hf).not_inside_start (h.ordered e he)

theorem Marks.outside_stop (h : Marks s spans) (he : e ∈ spans) : Outside spans e.stop :=
  fun f hf => (h.separate e he f hf).not_inside_stop (h.ordered e he)

theorem Marks.outside_zero (spans : List Span) : Outside spans 0 :=
  fun _ _ hinside => absurd hinside.1 (Nat.not_lt_zero _)

theorem Marks.outside_byteSize (h : Marks s spans) : Outside spans (byteSize s) :=
  fun e he hinside => absurd (h.boundaries e he).2.le (not_le.mpr hinside.2)

/-- A cut at a position in the middle of no span leaves them all on one side or the other. -/
theorem Outside.apart (h : Outside spans p) (he : e ∈ spans) : e.Apart ⟨p, p⟩ := by
  have hnot := h e he
  rw [Span.Inside, not_and_or, not_lt, not_lt] at hnot
  exact hnot.symm

end

/-! ### Replacing -/

/-- Where a span is after a range apart from it has been replaced. -/
def past (range : Span) (inserted : Nat) (e : Span) : Span :=
  if e.stop ≤ range.start then e
  else
    ⟨e.start + inserted - (range.stop - range.start),
      e.stop + inserted - (range.stop - range.start)⟩

section

variable {s s' inserted : Text} {spans : List Span} {range e f : Span} {n c : Nat}

theorem ordered_past (hle : e.start ≤ e.stop) : (past range n e).start ≤ (past range n e).stop := by
  rw [past]
  split_ifs
  · exact hle
  · dsimp only
    omega

/-- The span that the replacement fills is apart from those that were kept. -/
theorem apart_past (hrange : range.start ≤ range.stop) (he : e.Apart range) :
    (past range n e).Apart ⟨range.start, range.start + n⟩ := by
  rw [past]
  rw [Span.Apart] at he ⊢
  split_ifs
  · exact .inl ‹_›
  · dsimp only
    omega

theorem separate_past (hrange : range.start ≤ range.stop) (he : e.Apart range)
    (hf : f.Apart range) (hef : e.Separate f) : (past range n e).Separate (past range n f) := by
  rcases hef with rfl | hef
  · exact .inl rfl
  · right
    rw [Span.Apart] at *
    rw [past, past]
    split_ifs
    · exact hef
    all_goals
      dsimp only
      omega

theorem boundaries_past (hr : replaceRange s range.start range.stop inserted = some s')
    (hle : e.start ≤ e.stop) (he : e.Apart range) (hstart : IsBoundary s e.start)
    (hstop : IsBoundary s e.stop) :
    IsBoundary s' (past range (byteSize inserted) e).start ∧
      IsBoundary s' (past range (byteSize inserted) e).stop := by
  rw [past]
  split_ifs with hbefore
  · exact ⟨isBoundary_replaceRange_before hr hstart (hle.trans hbefore),
      isBoundary_replaceRange_before hr hstop hbefore⟩
  · have hafter : range.stop ≤ e.start := he.resolve_left hbefore
    exact ⟨isBoundary_replaceRange_after hr hstart hafter,
      isBoundary_replaceRange_after hr hstop (hafter.trans hle)⟩

theorem Marks.replace (h : Marks s spans)
    (hr : replaceRange s range.start range.stop inserted = some s')
    (hapart : ∀ e ∈ spans, e.Apart range) :
    Marks s' (spans.map (past range (byteSize inserted))) where
  ordered := List.forall_mem_map.mpr fun e he => ordered_past (h.ordered e he)
  boundaries := List.forall_mem_map.mpr fun e he =>
    boundaries_past hr (h.ordered e he) (hapart e he) (h.boundaries e he).1 (h.boundaries e he).2
  separate := List.forall_mem_map.mpr fun e he => List.forall_mem_map.mpr fun f hf =>
    separate_past (le_of_replaceRange hr).1 (hapart e he) (hapart f hf) (h.separate e he f hf)

/-- The text put in the place of a span may be marked. -/
theorem Marks.replace_cons (h : Marks s spans)
    (hr : replaceRange s range.start range.stop inserted = some s')
    (hapart : ∀ e ∈ spans, e.Apart range) :
    Marks s' (⟨range.start, range.start + byteSize inserted⟩ ::
      spans.map (past range (byteSize inserted))) := by
  obtain ⟨hrange, hstart, -⟩ := le_of_replaceRange hr
  apply (h.replace hr hapart).cons (Nat.le_add_right _ _)
  · exact isBoundary_replaceRange_before hr hstart le_rfl
  · exact isBoundary_replaceRange_inserted hr
  · exact List.forall_mem_map.mpr fun e he => .inr (apart_past hrange (hapart e he))

/-- Marks that the range does not take are kept. -/
theorem Marks.replace_apart (h : Marks s spans)
    (hr : replaceRange s range.start range.stop inserted = some s') :
    Marks s' (⟨range.start, range.start + byteSize inserted⟩ ::
      (spans.filter fun e => e.Apart range).map (past range (byteSize inserted))) :=
  (h.subset (List.filter_subset_self spans)).replace_cons hr fun _ he =>
    of_decide_eq_true (List.mem_filter.mp he).2

/-- An insertion moves a position with the spans around it. -/
theorem Outside.insert {p : Nat} (hc : Outside spans c) (hp : Outside spans p) :
    Outside (spans.map (past ⟨p, p⟩ n)) (if p ≤ c then c + n else c) := by
  refine List.forall_mem_map.mpr fun e he hinside => hc e he ?_
  have hapart := hp.apart he
  rw [Span.Inside] at hinside ⊢
  rw [Span.Apart] at hapart
  rw [past] at hinside
  split_ifs at hinside <;> dsimp only at * <;> omega

end

end Codewith.Lib.Text
