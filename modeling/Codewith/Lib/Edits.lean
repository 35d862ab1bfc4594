import Mathlib.Data.List.Sort
import Mathlib.Tactic

/-!
# Edits of a list

An edit replaces a range of a list.  Edits are meant to be made all at once, at positions of
the list as it is before any of them.  Made one after the other from the last to the first,
they come to the same as long as each ends before the next one starts.
-/

namespace Codewith.Lib

/-- Replace `len` elements from `start` on. -/
structure Edit (α : Type) where
  start : Nat
  len : Nat
  items : List α

namespace Edit

variable {α : Type}

def stop (e : Edit α) : Nat := e.start + e.len

/-- The ranges share no element, and a place of insertion is not strictly inside the other
range. -/
def Apart (d e : Edit α) : Prop := d.stop ≤ e.start ∨ e.stop ≤ d.start

theorem Apart.symm {d e : Edit α} (h : Apart d e) : Apart e d := Or.symm h

/-- One edit of a list. -/
def apply (e : Edit α) (xs : List α) : List α := xs.take e.start ++ e.items ++ xs.drop e.stop

/-- The edits one after the other, the last one first. -/
def applyAll (edits : List (Edit α)) (xs : List α) : List α := edits.foldr apply xs

/-- The edits all at once: the elements before each edit are kept, its items follow, and its
range is skipped. -/
def spliceFrom (xs : List α) : Nat → List (Edit α) → List α
  | pos, [] => xs.drop pos
  | pos, e :: edits =>
      (xs.drop pos).take (e.start - pos) ++ e.items ++ spliceFrom xs (max pos e.stop) edits

def splice (xs : List α) (edits : List (Edit α)) : List α := spliceFrom xs 0 edits

theorem length_apply_ge {e : Edit α} {xs : List α} (h : e.start ≤ xs.length) :
    e.start ≤ (e.apply xs).length := by
  unfold apply
  rw [List.append_assoc, List.length_append, List.length_take]
  omega

theorem take_apply {e : Edit α} {xs : List α} {n : Nat} (hn : n ≤ e.start)
    (h : e.start ≤ xs.length) : (e.apply xs).take n = xs.take n := by
  unfold apply
  rw [List.append_assoc, List.take_append_of_le_length]
  · rw [List.take_take, Nat.min_eq_left hn]
  · rw [List.length_take]
    omega

/-- Edits leave what comes before all of them. -/
theorem take_applyAll {edits : List (Edit α)} {xs : List α} {n : Nat}
    (hedits : ∀ e ∈ edits, n ≤ e.start ∧ e.start ≤ xs.length)
    (hsorted : edits.Pairwise fun d e => d.start ≤ e.start) (hn : n ≤ xs.length) :
    n ≤ (applyAll edits xs).length ∧ (applyAll edits xs).take n = xs.take n := by
  induction edits generalizing n with
  | nil => exact ⟨hn, rfl⟩
  | cons e edits ih =>
      obtain ⟨hfirst, hrest⟩ := List.forall_mem_cons.mp hedits
      obtain ⟨hle, hsorted⟩ := List.pairwise_cons.mp hsorted
      -- the later edits leave what comes before this one
      obtain ⟨hlength, htake⟩ := ih (n := e.start) (fun d hd => ⟨hle d hd, (hrest d hd).2⟩)
        hsorted hfirst.2
      have hnext : (applyAll (e :: edits) xs) = e.apply (applyAll edits xs) := rfl
      rw [hnext]
      refine ⟨hfirst.1.trans (length_apply_ge hlength), ?_⟩
      rw [take_apply hfirst.1 hlength, ← Nat.min_eq_left hfirst.1, ← List.take_take, htake,
        List.take_take]

/-- What stands from a position before the first edit on. -/
theorem drop_applyAll_cons {e : Edit α} {edits : List (Edit α)} {xs : List α} {pos : Nat}
    (hpos : pos ≤ e.start) (hstart : e.start ≤ xs.length)
    (hedits : ∀ d ∈ edits, e.start ≤ d.start ∧ d.start ≤ xs.length)
    (hsorted : edits.Pairwise fun d e => d.start ≤ e.start) :
    (applyAll (e :: edits) xs).drop pos =
      (xs.drop pos).take (e.start - pos) ++ e.items ++ (applyAll edits xs).drop e.stop := by
  obtain ⟨-, htake⟩ := take_applyAll hedits hsorted hstart
  have hnext : (applyAll (e :: edits) xs) = e.apply (applyAll edits xs) := rfl
  rw [hnext]
  unfold apply
  rw [htake, List.append_assoc, List.drop_append_of_le_length, List.drop_take, List.append_assoc]
  rw [List.length_take]
  omega

/-- Nothing is left to be kept at the end. -/
theorem spliceFrom_length {xs : List α} {edits : List (Edit α)}
    (hedits : ∀ e ∈ edits, e.stop ≤ xs.length) :
    spliceFrom xs xs.length edits = edits.flatMap items := by
  induction edits with
  | nil => simp [spliceFrom]
  | cons e edits ih =>
      obtain ⟨hfirst, hrest⟩ := List.forall_mem_cons.mp hedits
      unfold spliceFrom
      rw [Nat.max_eq_left hfirst, ih hrest]
      simp

/-! ### Insertions around the last element -/

theorem tail_insert_eq_iff {x : α} {before after : List α} :
    (before ++ x :: after).tail = before ++ after ↔ ∀ a ∈ before, a = x := by
  induction before with
  | nil => simp
  | cons a before ih =>
      rw [List.cons_append, List.tail_cons, List.forall_mem_cons, ← ih]
      cases before with
      | nil => simp [eq_comm]
      | cons b before =>
          simp only [List.cons_append, List.cons.injEq, List.tail_cons]
          constructor
          · rintro ⟨rfl, hrest⟩
            refine ⟨?_, hrest⟩
            have hall := ih.mp (by simpa using hrest)
            exact hall b List.mem_cons_self
          · rintro ⟨rfl, hrest⟩
            have hall := ih.mp (by simpa using hrest)
            exact ⟨hall b List.mem_cons_self, hrest⟩

theorem applyAll_at_end {xs : List α} {edits : List (Edit α)}
    (hedits : ∀ e ∈ edits, e.len = 0 ∧ e.start = xs.length) :
    applyAll edits xs = xs ++ edits.flatMap items := by
  induction edits with
  | nil => simp [applyAll]
  | cons e edits ih =>
      obtain ⟨⟨hlen, hstart⟩, hrest⟩ := List.forall_mem_cons.mp hedits
      have hnext : (applyAll (e :: edits) xs) = e.apply (applyAll edits xs) := rfl
      rw [hnext, ih hrest]
      simp [apply, stop, hlen, hstart]

/-- Insertions before and after the last element. -/
theorem exists_drop_applyAll_insertions {kept : List α} {x : α} {edits : List (Edit α)}
    (hedits : ∀ e ∈ edits, e.len = 0 ∧ (e.start = kept.length ∨ e.start = kept.length + 1))
    (hsorted : edits.Pairwise fun d e => d.start ≤ e.start) :
    ∃ before after, (applyAll edits (kept ++ [x])).drop kept.length = before ++ x :: after ∧
      edits.flatMap items = before ++ after ∧
      ((∀ a ∈ before, a = x) ↔ ∀ e ∈ edits, e.start = kept.length → ∀ i ∈ e.items, i = x) := by
  induction edits with
  | nil => exact ⟨[], [], by simp [applyAll], by simp, by simp⟩
  | cons e edits ih =>
      obtain ⟨⟨hlen, hstart⟩, hrest⟩ := List.forall_mem_cons.mp hedits
      obtain ⟨hle, hsorted'⟩ := List.pairwise_cons.mp hsorted
      obtain ⟨before, after, hdrop, hitems, hall⟩ := ih hrest hsorted'
      have hlength : (kept ++ [x]).length = kept.length + 1 := by simp
      have hstop : e.stop = e.start := by simp [stop, hlen]
      have hcons : (applyAll (e :: edits) (kept ++ [x])).drop kept.length = _ :=
        drop_applyAll_cons (by omega) (by omega)
          (fun d hd => ⟨hle d hd, by have := (hrest d hd).2; omega⟩) hsorted'
      rcases hstart with hstart | hstart
      · refine ⟨e.items ++ before, after, ?_, ?_, ?_⟩
        · rw [hcons, hstop, hstart, hdrop]
          simp
        · rw [List.flatMap_cons, hitems, List.append_assoc]
        · rw [List.forall_mem_append, List.forall_mem_cons, hall]
          simp [hstart]
      · -- all that follow are at the end as well
        have hend : ∀ d ∈ edits, d.len = 0 ∧ d.start = (kept ++ [x]).length := by
          intro d hd
          have hafter := hle d hd
          obtain ⟨hd0, hd1⟩ := hrest d hd
          exact ⟨hd0, by omega⟩
        refine ⟨[], e.items ++ edits.flatMap items, ?_, by simp, ?_⟩
        · rw [hcons, hstop, hstart, applyAll_at_end hend]
          simp
        · have hstarts : ∀ d ∈ e :: edits, d.start ≠ kept.length := by
            rw [List.forall_mem_cons]
            exact ⟨by omega, fun d hd => by rw [(hend d hd).2]; omega⟩
          simp only [List.not_mem_nil, false_implies, implies_true, true_iff]
          exact fun d hd hstart => absurd hstart (hstarts d hd)

/-! ### Comparing the two -/

/-- An insertion where an edit before it in the list starts. -/
def Late (d e : Edit α) : Prop := d.start = e.start ∧ 0 < d.len ∧ e.len = 0

theorem drop_applyAll_eq_iff {edits : List (Edit α)} {xs : List α} {pos : Nat}
    (hpos : ∀ e ∈ edits, pos ≤ e.start) (hwithin : ∀ e ∈ edits, e.stop ≤ xs.length)
    (hsorted : edits.Pairwise fun d e => d.start ≤ e.start) (hapart : edits.Pairwise Apart)
    (hlate : edits.Pairwise fun d e => Late d e → d.start + 1 = xs.length) :
    (applyAll edits xs).drop pos = spliceFrom xs pos edits ↔
      edits.Pairwise fun d e => Late d e → ∀ i ∈ e.items, xs.getLast? = some i := by
  induction edits generalizing pos with
  | nil => simp [applyAll, spliceFrom]
  | cons e edits ih =>
      rw [List.forall_mem_cons] at hpos hwithin
      rw [List.pairwise_cons] at hsorted hapart hlate ⊢
      have hstart : ∀ d ∈ edits, e.start ≤ d.start ∧ d.start ≤ xs.length := by
        intro d hd
        have hstop := hwithin.2 d hd
        unfold stop at hstop
        exact ⟨hsorted.1 d hd, by omega⟩
      have hstop : e.stop = e.start + e.len := rfl
      have hmax : max pos e.stop = e.stop := by omega
      rw [drop_applyAll_cons hpos.1 (by omega) hstart hsorted.2]
      unfold spliceFrom
      rw [hmax, List.append_cancel_left_eq]
      by_cases hchain : ∀ d ∈ edits, e.stop ≤ d.start
      · rw [ih hchain hwithin.2 hsorted.2 hapart.2 hlate.2]
        simp only [iff_and_self]
        rintro - d hd ⟨hsame, hlen, -⟩
        have := hchain d hd
        omega
      · -- an insertion where this edit starts: it is an edit of the last element
        simp only [not_forall, Nat.not_le] at hchain
        obtain ⟨late, hmem, hinside⟩ := hchain
        have hlast : e.start + 1 = xs.length := by
          apply hlate.1 late hmem
          have h := hapart.1 late hmem
          have hle := hsorted.1 late hmem
          unfold Apart stop at h
          exact ⟨by omega, by omega, by omega⟩
        have hone : e.len = 1 := by
          have h := hapart.1 late hmem
          have hle := hsorted.1 late hmem
          unfold Apart at h
          unfold stop at h hinside hwithin
          omega
        obtain ⟨kept, x, rfl⟩ := List.eq_nil_or_concat' xs |>.resolve_left (by
          rintro rfl
          simp at hlast)
        have hkept : e.start = kept.length := by simpa using hlast
        have hinsertions : ∀ d ∈ edits,
            d.len = 0 ∧ (d.start = kept.length ∨ d.start = kept.length + 1) := by
          intro d hd
          have h := hapart.1 d hd
          have hle := hsorted.1 d hd
          have hwith := hwithin.2 d hd
          rw [List.length_append, List.length_singleton] at hwith
          unfold Apart stop at h
          unfold stop at hwith
          omega
        obtain ⟨before, after, hdrop, hitems, hall⟩ :=
          exists_drop_applyAll_insertions (x := x) hinsertions hsorted.2
        have hend : e.stop = (kept ++ [x]).length := by simp [hstop, hone, hkept]
        rw [hend, spliceFrom_length hwithin.2, hitems, List.length_append, List.length_singleton,
          ← List.drop_drop, hdrop, List.drop_one, tail_insert_eq_iff, hall]
        have hnone : edits.Pairwise fun d e =>
            Late d e → ∀ i ∈ e.items, (kept ++ [x]).getLast? = some i := by
          apply List.pairwise_of_forall_mem_list
          rintro d hd e he ⟨-, hpositive, -⟩
          have := (hinsertions d hd).1
          omega
        simp only [hnone, and_true]
        constructor
        · rintro h d hd ⟨hsame, -, -⟩ i hi
          rw [List.getLast?_concat, h d hd (by omega) i hi]
        · intro h d hd hsame i hi
          have := h d hd ⟨by omega, by omega, (hinsertions d hd).1⟩ i hi
          rw [List.getLast?_concat, Option.some.injEq] at this
          exact this.symm

/-- Edits that are apart come to the same, except for an insertion that takes the place of the
last element after it has been replaced. -/
theorem applyAll_eq_splice_iff {edits : List (Edit α)} {xs : List α}
    (hwithin : ∀ e ∈ edits, e.stop ≤ xs.length)
    (hsorted : edits.Pairwise fun d e => d.start ≤ e.start) (hapart : edits.Pairwise Apart)
    (hlate : edits.Pairwise fun d e => Late d e → d.start + 1 = xs.length) :
    applyAll edits xs = splice xs edits ↔
      edits.Pairwise fun d e => Late d e → ∀ i ∈ e.items, xs.getLast? = some i := by
  rw [← drop_applyAll_eq_iff (fun e _ => Nat.zero_le e.start) hwithin hsorted hapart hlate,
    List.drop_zero]
  rfl

end Edit

/-! ### A stable sort -/

section Stable

variable {α : Type} (key : α → Nat)

theorem filter_orderedInsert {a : α} {l : List α}
    (hsorted : l.Pairwise fun x y => key x ≤ key y) (k : Nat) :
    (l.orderedInsert (fun x y => key x ≤ key y) a).filter (fun x => key x = k) =
      (a :: l).filter fun x => key x = k := by
  induction l with
  | nil => rfl
  | cons b l ih =>
      rw [List.orderedInsert_cons]
      split
      · rfl
      · rename_i hlt
        have hne : ¬ (key a = k ∧ key b = k) := by omega
        rw [List.filter_cons, ih (List.pairwise_cons.mp hsorted).2]
        by_cases ha : key a = k
        · have hb : key b ≠ k := fun hb => hne ⟨ha, hb⟩
          simp [ha, hb]
        · simp [List.filter_cons, ha]

/-- The sort keeps the order of what has the same key. -/
theorem filter_insertionSort (l : List α) (k : Nat) :
    (l.insertionSort fun x y => key x ≤ key y).filter (fun x => key x = k) =
      l.filter fun x => key x = k := by
  induction l with
  | nil => rfl
  | cons a l ih =>
      have hsorted := List.pairwise_insertionSort (fun x y => key x ≤ key y) l
      rw [List.insertionSort_cons, filter_orderedInsert key hsorted, List.filter_cons,
        List.filter_cons, ih]

theorem pairwise_filter_iff {R : α → α → Prop} {l : List α} :
    (∀ k, (l.filter fun x => key x = k).Pairwise R) ↔
      l.Pairwise fun x y => key x = key y → R x y := by
  induction l with
  | nil => simp
  | cons a l ih =>
      rw [List.pairwise_cons, ← ih]
      constructor
      · intro h
        refine ⟨?_, ?_⟩
        · intro b hb hkey
          have ha := h (key a)
          rw [List.filter_cons_of_pos (by simp), List.pairwise_cons] at ha
          exact ha.1 b (List.mem_filter.mpr ⟨hb, by simp [hkey]⟩)
        · intro k
          have hk := h k
          rw [List.filter_cons] at hk
          split at hk
          · exact (List.pairwise_cons.mp hk).2
          · exact hk
      · rintro ⟨hfirst, hrest⟩ k
        rw [List.filter_cons]
        split
        · rename_i ha
          rw [List.pairwise_cons]
          refine ⟨?_, hrest k⟩
          intro b hb
          obtain ⟨hmem, hkey⟩ := List.mem_filter.mp hb
          rw [decide_eq_true_eq] at ha hkey
          exact hfirst b hmem (ha.trans hkey.symm)
        · exact hrest k

/-- What holds of elements with the same key, in their order, holds after the sort too. -/
theorem pairwise_insertionSort_iff {R : α → α → Prop} {l : List α} :
    ((l.insertionSort fun x y => key x ≤ key y).Pairwise fun x y => key x = key y → R x y) ↔
      l.Pairwise fun x y => key x = key y → R x y := by
  rw [← pairwise_filter_iff, ← pairwise_filter_iff]
  simp only [filter_insertionSort]

end Stable

end Codewith.Lib
