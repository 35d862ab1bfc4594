import Mathlib.Data.List.Sort
import Mathlib.Algebra.Order.BigOperators.Group.List
import Mathlib.Tactic

/-!
# Tables as lists of rows

The statements of a relational store, on lists of rows: an update or a deletion
of the rows that meet a condition, a sum over a selection, and a selection in a
given order.
-/

namespace Codewith.Lib.Table

variable {α β : Type}

/-- `UPDATE … SET f WHERE p`. -/
def updateWhere (p : α → Bool) (f : α → α) (rows : List α) : List α :=
  rows.map fun row => if p row then f row else row

/-- `DELETE … WHERE p`. -/
def deleteWhere (p : α → Bool) (rows : List α) : List α :=
  rows.filter fun row => !p row

/-- `SELECT COALESCE(SUM(g), 0) … WHERE p`. -/
def sumWhere (p : α → Bool) (g : α → Int) (rows : List α) : Int :=
  ((rows.filter p).map g).sum

/-- `SELECT COUNT(*) … WHERE p`. -/
def countWhere (p : α → Bool) (rows : List α) : Nat := rows.countP p

/-- `SELECT … WHERE p ORDER BY le`. -/
def selectOrdered (p : α → Bool) (le : α → α → Prop) [DecidableRel le] (rows : List α) : List α :=
  (rows.filter p).insertionSort le

/-- The values of a column in the order of their first occurrence. -/
def distinctBy [DecidableEq β] (g : α → β) (rows : List α) : List β :=
  rows.foldl (fun seen row => if g row ∈ seen then seen else seen ++ [g row]) []

/-! ## Rows after a statement -/

theorem mem_updateWhere {p : α → Bool} {f : α → α} {rows : List α} {row : α} :
    row ∈ updateWhere p f rows ↔
      (∃ old ∈ rows, p old = true ∧ row = f old) ∨ (row ∈ rows ∧ p row = false) := by
  unfold updateWhere
  constructor
  · intro h
    obtain ⟨old, hold, rfl⟩ := List.mem_map.1 h
    cases hp : p old with
    | true => exact .inl ⟨old, hold, hp, by simp⟩
    | false => exact .inr ⟨by simpa using hold, by simpa using hp⟩
  · rintro (⟨old, hold, hp, rfl⟩ | ⟨hrow, hp⟩)
    · exact List.mem_map.2 ⟨old, hold, by simp [hp]⟩
    · exact List.mem_map.2 ⟨row, hrow, by simp [hp]⟩

theorem mem_deleteWhere {p : α → Bool} {rows : List α} {row : α} :
    row ∈ deleteWhere p rows ↔ row ∈ rows ∧ p row = false := by
  simp [deleteWhere]

/-- A property of single rows survives an update that keeps it. -/
theorem forall_mem_updateWhere {p : α → Bool} {f : α → α} {rows : List α} {I : α → Prop}
    (hrows : ∀ row ∈ rows, I row) (hf : ∀ row ∈ rows, p row = true → I row → I (f row)) :
    ∀ row ∈ updateWhere p f rows, I row := by
  intro row hrow
  rcases mem_updateWhere.1 hrow with ⟨old, hold, hp, rfl⟩ | ⟨hmem, -⟩
  · exact hf old hold hp (hrows old hold)
  · exact hrows row hmem

theorem mem_selectOrdered {p : α → Bool} {le : α → α → Prop} [DecidableRel le] {rows : List α}
    {row : α} : row ∈ selectOrdered p le rows ↔ row ∈ rows ∧ p row = true := by
  unfold selectOrdered
  rw [List.mem_insertionSort, List.mem_filter]

theorem mem_distinctBy [DecidableEq β] {g : α → β} {rows : List α} {value : β} :
    value ∈ distinctBy g rows ↔ ∃ row ∈ rows, g row = value := by
  have hstep : ∀ (seen : List β) (row : α),
      value ∈ (if g row ∈ seen then seen else seen ++ [g row]) ↔ value ∈ seen ∨ g row = value := by
    intro seen row
    by_cases hmem : g row ∈ seen
    · rw [if_pos hmem]
      refine ⟨.inl, ?_⟩
      rintro (hold | rfl)
      · exact hold
      · exact hmem
    · rw [if_neg hmem, List.mem_append, List.mem_singleton, eq_comm]
  have hseen : ∀ seen : List β, value ∈ rows.foldl
      (fun seen row => if g row ∈ seen then seen else seen ++ [g row]) seen ↔
        value ∈ seen ∨ ∃ row ∈ rows, g row = value := by
    induction rows with
    | nil => simp
    | cons row rows ih =>
        intro seen
        rw [List.foldl_cons, ih, hstep, or_assoc, List.exists_mem_cons_iff]
  rw [distinctBy, hseen]
  simp

/-- The only row that meets a condition is the one found. -/
theorem find?_eq_some_of_unique {p : α → Bool} {rows : List α} {row : α} (hrow : row ∈ rows)
    (hp : p row = true) (hunique : ∀ other ∈ rows, p other = true → other = row) :
    rows.find? p = some row := by
  rcases hfind : rows.find? p with _ | found
  · exact absurd hp (List.find?_eq_none.1 hfind row hrow)
  · rw [hunique found (List.mem_of_find?_eq_some hfind) (List.find?_some hfind)]

theorem filter_eq_singleton [DecidableEq α] {p : α → Bool} {rows : List α} {row : α}
    (hrows : rows.Nodup) (hrow : row ∈ rows) (hp : ∀ other ∈ rows, p other = true ↔ other = row) :
    rows.filter p = [row] := by
  have hsame : rows.filter p = rows.filter (· == row) := by
    apply List.filter_congr
    intro other hother
    rw [Bool.eq_iff_iff, hp other hother, beq_iff_eq]
  rw [hsame, List.filter_beq, List.count_eq_one_of_mem hrows hrow]
  rfl

theorem any_updateWhere {p q : α → Bool} {f : α → α} {rows : List α}
    (h : ∀ row, q (f row) = q row) : (updateWhere p f rows).any q = rows.any q := by
  induction rows with
  | nil => rfl
  | cons row rows ih =>
      rw [updateWhere] at ih ⊢
      cases hp : p row <;> simp [ih, hp, h]

/-- What an update leaves of a column. -/
theorem map_updateWhere_eq_iff {g : α → β} {p : α → Bool} {f : α → α} {rows : List α} :
    (updateWhere p f rows).map g = rows.map g ↔ ∀ row ∈ rows, p row = true → g (f row) = g row := by
  rw [updateWhere, List.map_map, List.map_inj_left]
  constructor
  · intro h row hrow hp
    simpa [hp] using h row hrow
  · intro h row hrow
    cases hp : p row with
    | false => simp [hp]
    | true => simpa [hp] using h row hrow hp

/-- Rows that no condition selects stay as they are. -/
theorem updateWhere_eq_self {p : α → Bool} {f : α → α} {rows : List α}
    (h : ∀ row ∈ rows, p row = false) : updateWhere p f rows = rows := by
  rw [updateWhere, List.map_congr_left fun row hrow => if_neg (by simp [h row hrow]), List.map_id']

theorem updateWhere_congr {p q : α → Bool} {f : α → α} {rows : List α}
    (h : ∀ row ∈ rows, p row = q row) : updateWhere p f rows = updateWhere q f rows :=
  List.map_congr_left fun row hrow => by rw [h row hrow]

/-- A selection that the update does not affect. -/
theorem filter_updateWhere {p q : α → Bool} {f : α → α} {rows : List α}
    (hq : ∀ row, q (f row) = q row) :
    (updateWhere p f rows).filter q = updateWhere p f (rows.filter q) := by
  have hsame : q ∘ (fun row => if p row then f row else row) = q := by
    funext row
    cases hp : p row <;> simp [hp, hq]
  rw [updateWhere, updateWhere, List.filter_map, hsame]

theorem find?_updateWhere {p q : α → Bool} {f : α → α} {rows : List α}
    (hq : ∀ row, q (f row) = q row) :
    (updateWhere p f rows).find? q =
      (rows.find? q).map fun row => if p row then f row else row := by
  have hsame : q ∘ (fun row => if p row then f row else row) = q := by
    funext row
    cases hp : p row <;> simp [hp, hq]
  rw [updateWhere, List.find?_map, hsame]

/-! ## Sums after a statement -/

theorem sumWhere_append (p : α → Bool) (g : α → Int) (rows more : List α) :
    sumWhere p g (rows ++ more) = sumWhere p g rows + sumWhere p g more := by
  simp [sumWhere]

theorem sumWhere_cons (p : α → Bool) (g : α → Int) (row : α) (rows : List α) :
    sumWhere p g (row :: rows) = (if p row then g row else 0) + sumWhere p g rows := by
  cases hp : p row <;> simp [sumWhere, hp]

/-- A sum does not fall under an update that keeps the selection and lowers no
summand of it. -/
theorem sumWhere_updateWhere_le {p q : α → Bool} {f : α → α} {g : α → Int} {rows : List α}
    (hq : ∀ row ∈ rows, p row = true → q (f row) = q row)
    (hg : ∀ row ∈ rows, p row = true → q row = true → g row ≤ g (f row)) :
    sumWhere q g rows ≤ sumWhere q g (updateWhere p f rows) := by
  induction rows with
  | nil => exact le_refl _
  | cons row rows ih =>
      have hrest := ih (fun r hr => hq r (List.mem_cons_of_mem _ hr))
        (fun r hr => hg r (List.mem_cons_of_mem _ hr))
      have hhead : (if q row then g row else 0) ≤
          if q (if p row then f row else row) then g (if p row then f row else row) else 0 := by
        cases hp : p row with
        | false => simp
        | true =>
            have hsel := hq row List.mem_cons_self hp
            cases hrow : q row with
            | false => simp [hsel, hrow]
            | true => simpa [hsel, hrow] using hg row List.mem_cons_self hp hrow
      rw [updateWhere, List.map_cons, sumWhere_cons, sumWhere_cons]
      exact add_le_add hhead hrest

/-- The rows that are updated, and the others. -/
theorem sumWhere_updateWhere_eq (p q : α → Bool) (f : α → α) (g : α → Int) (rows : List α) :
    sumWhere q g (updateWhere p f rows) =
      sumWhere (fun row => q row && !p row) g rows +
        sumWhere (fun row => p row && q (f row)) (fun row => g (f row)) rows := by
  induction rows with
  | nil => rfl
  | cons row rows ih =>
      rw [updateWhere, List.map_cons, sumWhere_cons, sumWhere_cons, sumWhere_cons]
      rw [updateWhere] at ih
      rw [ih]
      cases p row <;> simp <;> omega

/-- Only one row is updated. -/
theorem sumWhere_updateWhere_single {p q : α → Bool} {f : α → α} {rows : List α} {row : α}
    (hsingle : rows.filter p = [row]) (hq : q (f row) = true) (g : α → Int) :
    sumWhere q g (updateWhere p f rows) =
      sumWhere (fun other => q other && !p other) g rows + g (f row) := by
  have hselected : rows.filter (fun other => p other && q (f other)) = [row] := by
    have hboth : rows.filter (fun other => p other && q (f other)) =
        (rows.filter p).filter fun other => q (f other) := by
      simp [List.filter_filter, Bool.and_comm]
    rw [hboth, hsingle, List.filter_singleton, hq]
    rfl
  rw [sumWhere_updateWhere_eq, sumWhere, sumWhere, hselected]
  simp

/-- One row and the others. -/
theorem sumWhere_single {p q : α → Bool} {rows : List α} {row : α}
    (hsingle : rows.filter p = [row]) (hq : q row = true) (g : α → Int) :
    sumWhere q g rows = sumWhere (fun other => q other && !p other) g rows + g row := by
  have hsame : updateWhere p id rows = rows := by simp [updateWhere]
  have hsum := sumWhere_updateWhere_single (f := id) hsingle hq g
  rwa [hsame] at hsum

/-- A selection that leaves the updated rows out, before and after, is counted alike. -/
theorem countWhere_updateWhere {p q q' : α → Bool} {f : α → α} {rows : List α}
    (hold : ∀ row ∈ rows, p row = true → q row = false ∧ q' (f row) = false)
    (hother : ∀ row ∈ rows, p row = false → q' row = q row) :
    countWhere q' (updateWhere p f rows) = countWhere q rows := by
  rw [countWhere, countWhere, updateWhere, List.countP_map]
  apply List.countP_congr
  intro row hrow
  simp only [Function.comp_apply]
  cases hp : p row with
  | true => simp [hold row hrow hp]
  | false => simp [hother row hrow hp]

/-! ## Counts -/

theorem countWhere_and (p q : α → Bool) (rows : List α) :
    countWhere (fun row => p row && q row) rows = countWhere q (rows.filter p) := by
  rw [countWhere, countWhere, List.countP_filter]
  apply List.countP_congr
  intro row _
  rw [Bool.and_comm]

theorem countWhere_add {p q : α → Bool} (h : ∀ row, p row = true → q row = false) (rows : List α) :
    countWhere p rows + countWhere q rows = countWhere (fun row => p row || q row) rows := by
  induction rows with
  | nil => rfl
  | cons row rows ih =>
      simp only [countWhere, List.countP_cons] at ih ⊢
      rw [← ih]
      cases hp : p row with
      | true => simp [h row hp]; omega
      | false => simp; omega

theorem countWhere_pos {p : α → Bool} {rows : List α} :
    0 < countWhere p rows ↔ ∃ row ∈ rows, p row = true :=
  List.countP_pos_iff

end Codewith.Lib.Table
