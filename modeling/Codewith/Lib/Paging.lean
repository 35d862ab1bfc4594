import Mathlib.Data.List.Infix
import Mathlib.Tactic

/-!
# Reading a list page by page

A page starts after a cursor and holds at most a fixed number of rows.  One row more is read to see
whether the list goes on, and then the cursor of the next page is taken from the last row of this
one.  The pages together are the list exactly when the cursor of every row that ends a page selects
the rows behind that row.
-/

namespace Codewith.Lib.Paging

variable {A K : Type*} (after : K → A → Bool) (cursorOf : A → K) (limit : Nat)

/-- The rows from a cursor on. -/
def rowsFrom (rows : List A) : Option K → List A
  | none => rows
  | some cursor => rows.filter (after cursor)

def page (rows : List A) (cursor : Option K) : List A × Option K :=
  let data := (rowsFrom after rows cursor).take (limit + 1)
  if limit < data.length then (data.take limit, (data.take limit).getLast?.map cursorOf)
  else (data, none)

/-- Ask for pages until one has no cursor.  The fuel bounds their number. -/
def collect (rows : List A) : Nat → Option K → Option (List A)
  | 0, _ => none
  | fuel + 1, cursor =>
      match page after cursorOf limit rows cursor with
      | (data, none) => some data
      | (data, some next) => (collect rows fuel (some next)).map (data ++ ·)

/-- The cursor of every row that ends a page selects the rows behind it. -/
def Keeps (rows : List A) : Prop :=
  ∀ front row rest, rows = front ++ row :: rest → limit ∣ front.length + 1 → rest ≠ [] →
    rows.filter (after (cursorOf row)) = rest

section

variable {after cursorOf limit} {rows : List A} {cursor : Option K}

theorem page_of_length_le (h : (rowsFrom after rows cursor).length ≤ limit) :
    page after cursorOf limit rows cursor = (rowsFrom after rows cursor, none) := by
  have htake : (rowsFrom after rows cursor).take (limit + 1) = rowsFrom after rows cursor :=
    List.take_of_length_le (by omega)
  simp [page, htake, Nat.not_lt.2 h]

theorem page_of_split {front rest : List A} {row : A}
    (h : rowsFrom after rows cursor = front ++ row :: rest) (hfront : front.length + 1 = limit)
    (hrest : rest ≠ []) :
    page after cursorOf limit rows cursor = (front ++ [row], some (cursorOf row)) := by
  obtain ⟨next, more, rfl⟩ := List.exists_cons_of_ne_nil hrest
  have hdata : (rowsFrom after rows cursor).take (limit + 1) = (front ++ [row]) ++ [next] := by
    have hsplit : front ++ row :: next :: more = ((front ++ [row]) ++ [next]) ++ more := by simp
    rw [h, hsplit]
    exact List.take_left' (by simp; omega)
  have htake : ((front ++ [row]) ++ [next]).take limit = front ++ [row] := by
    exact List.take_left' (by simp; omega)
  have hlong : limit < ((front ++ [row]) ++ [next]).length := by simp; omega
  simp only [page, hdata, if_pos hlong, htake]
  simp

theorem exists_split {rest : List A} (hlimit : 0 < limit) (h : limit < rest.length) :
    ∃ front row more, rest = front ++ row :: more ∧ front.length + 1 = limit ∧ more ≠ [] := by
  refine ⟨rest.take (limit - 1), rest[limit - 1], rest.drop limit, ?_, ?_, ?_⟩
  · have hdrop : rest.drop (limit - 1) = rest[limit - 1] :: rest.drop limit := by
      rw [List.drop_eq_getElem_cons (by omega), Nat.sub_add_cancel hlimit]
    rw [← hdrop, List.take_append_drop]
  · rw [List.length_take]
    omega
  · simpa using h

/-- The induction is on the rows that are left. -/
theorem exists_collect_eq (hlimit : 0 < limit) (hkeeps : Keeps after cursorOf limit rows)
    (done rest : List A) (hrows : rows = done ++ rest) (hdone : limit ∣ done.length)
    (cursor : Option K) (hrest : rowsFrom after rows cursor = rest) :
    ∃ fuel, collect after cursorOf limit rows fuel cursor = some rest := by
  induction hlength : rest.length using Nat.strong_induction_on generalizing done rest cursor with
  | _ length ih =>
      by_cases hshort : rest.length ≤ limit
      · refine ⟨1, ?_⟩
        rw [collect, page_of_length_le (by rw [hrest]; exact hshort), hrest]
      · obtain ⟨front, row, more, rfl, hfront, hmore⟩ := exists_split hlimit (Nat.not_le.1 hshort)
        have hend : limit ∣ (done ++ front).length + 1 := by
          rw [List.length_append, Nat.add_assoc, hfront]
          exact hdone.add (dvd_refl limit)
        have hnext : rowsFrom after rows (some (cursorOf row)) = more :=
          hkeeps (done ++ front) row more (by rw [hrows, List.append_assoc]) hend hmore
        obtain ⟨fuel, hfuel⟩ := ih more.length (by simp [← hlength]; omega)
          (done ++ front ++ [row]) more (by rw [hrows]; simp) (by simpa [Nat.add_assoc] using hend)
          (some (cursorOf row)) hnext rfl
        refine ⟨fuel + 1, ?_⟩
        rw [collect, page_of_split hrest hfront hmore]
        simp [hfuel]

/-- What is collected starts where the cursor says. -/
theorem head?_collect (hlimit : 0 < limit) {fuel : Nat} {out : List A}
    (h : collect after cursorOf limit rows fuel cursor = some out) :
    out.head? = (rowsFrom after rows cursor).head? := by
  cases fuel with
  | zero => simp [collect] at h
  | succ fuel =>
      by_cases hshort : (rowsFrom after rows cursor).length ≤ limit
      · rw [collect, page_of_length_le hshort] at h
        rw [← Option.some.inj h]
      · obtain ⟨front, row, more, hsplit, hfront, hmore⟩ :=
          exists_split hlimit (Nat.not_le.1 hshort)
        rw [collect, page_of_split hsplit hfront hmore] at h
        obtain ⟨tail, -, rfl⟩ := Option.map_eq_some_iff.1 h
        rw [hsplit]
        cases front <;> simp

theorem mem_of_mem_rowsFrom {row : A} (h : row ∈ rowsFrom after rows cursor) : row ∈ rows := by
  cases cursor with
  | none => exact h
  | some cursor => exact List.mem_of_mem_filter h

theorem mem_of_mem_page {data : List A} {next : Option K} {row : A}
    (h : page after cursorOf limit rows cursor = (data, next)) (hrow : row ∈ data) :
    row ∈ rows := by
  unfold page at h
  dsimp only at h
  split at h
  · obtain ⟨rfl, -⟩ := Prod.mk.inj h
    exact mem_of_mem_rowsFrom (List.mem_of_mem_take (List.mem_of_mem_take hrow))
  · obtain ⟨rfl, -⟩ := Prod.mk.inj h
    exact mem_of_mem_rowsFrom (List.mem_of_mem_take hrow)

theorem mem_of_mem_collect {fuel : Nat} {out : List A}
    (h : collect after cursorOf limit rows fuel cursor = some out) {row : A} (hrow : row ∈ out) :
    row ∈ rows := by
  induction fuel generalizing cursor out with
  | zero => simp [collect] at h
  | succ fuel ih =>
      rw [collect] at h
      rcases hpage : page after cursorOf limit rows cursor with ⟨data, _ | next⟩
      · rw [hpage] at h
        have hdata : row ∈ data := Option.some.inj h ▸ hrow
        exact mem_of_mem_page hpage hdata
      · rw [hpage] at h
        obtain ⟨tail, htail, rfl⟩ := Option.map_eq_some_iff.1 h
        rcases List.mem_append.1 hrow with hdata | hmore
        · exact mem_of_mem_page hpage hdata
        · exact ih htail hmore

theorem eq_of_cons_suffix {row : A} {tail tail' : List A} (hnodup : (row :: tail').Nodup)
    (h : row :: tail <:+ row :: tail') : row :: tail = row :: tail' := by
  rcases List.suffix_cons_iff.1 h with heq | htail
  · exact heq
  · exact absurd (htail.subset List.mem_cons_self) (List.nodup_cons.1 hnodup).1

theorem eq_of_suffix_of_head? {l l' : List A} (hnodup : rows.Nodup) (hl : l <:+ rows)
    (hl' : l' <:+ rows) (hne : l' ≠ []) (hhead : l.head? = l'.head?) : l = l' := by
  obtain ⟨row, tail', rfl⟩ := List.exists_cons_of_ne_nil hne
  obtain ⟨tail, rfl⟩ : ∃ tail, l = row :: tail := by
    cases l with
    | nil => simp at hhead
    | cons first tail => exact ⟨tail, by simpa using hhead⟩
  rcases List.suffix_or_suffix_of_suffix hl hl' with h | h
  · exact eq_of_cons_suffix (hnodup.sublist hl'.sublist) h
  · exact (eq_of_cons_suffix (hnodup.sublist hl.sublist) h).symm

/-- Pages that give the rows have kept every page end from here on.  The induction is on the pages:
the rows behind a cursor end the list, so that their first one tells which they are. -/
theorem keeps_of_collect_eq (hlimit : 0 < limit) (hnodup : rows.Nodup)
    (hsuffix : ∀ cursor, rows.filter (after cursor) <:+ rows) (fuel : Nat) (done rest : List A)
    (hrows : rows = done ++ rest) (hdone : limit ∣ done.length)
    (hrest : rowsFrom after rows cursor = rest)
    (h : collect after cursorOf limit rows fuel cursor = some rest)
    {front tail : List A} {row : A} (hsplit : rows = front ++ row :: tail)
    (hend : limit ∣ front.length + 1) (htail : tail ≠ []) (hlater : done.length ≤ front.length) :
    rows.filter (after (cursorOf row)) = tail := by
  induction fuel generalizing done rest cursor with
  | zero => simp [collect] at h
  | succ fuel ih =>
      have hlengths : done.length + rest.length = front.length + 1 + tail.length := by
        have := congrArg List.length (hrows.symm.trans hsplit)
        simp at this
        omega
      have htail' := List.length_pos_iff.2 htail
      have hfar : done.length + limit ≤ front.length + 1 := by
        have := Nat.le_of_dvd (by omega) (Nat.dvd_sub hend hdone)
        omega
      have hlong : limit < rest.length := by omega
      obtain ⟨front', row', more, rfl, hfront', hmore⟩ := exists_split hlimit hlong
      rw [collect, page_of_split hrest hfront' hmore] at h
      obtain ⟨out, hout, heq⟩ := Option.map_eq_some_iff.1 h
      have houtmore : out = more := by simpa using heq
      subst houtmore
      have hnext : rows.filter (after (cursorOf row')) = out := by
        apply eq_of_suffix_of_head? hnodup (hsuffix _) _ hmore (head?_collect hlimit hout).symm
        exact ⟨done ++ front' ++ [row'], by rw [hrows]; simp⟩
      rcases Nat.eq_or_lt_of_le hfar with hhere | hlater'
      · have hsame : (done ++ front') ++ row' :: out = front ++ row :: tail := by
          rw [← hsplit, hrows, List.append_assoc]
        obtain ⟨-, hcons⟩ := List.append_inj hsame (by simp; omega)
        obtain ⟨rfl, rfl⟩ := List.cons.inj hcons
        exact hnext
      · have hdone' : limit ∣ (done ++ front' ++ [row']).length := by
          simpa [Nat.add_assoc, hfront'] using hdone
        have hfrom : rowsFrom after rows (some (cursorOf row')) = out := hnext
        exact ih (done ++ front' ++ [row']) out (by rw [hrows]; simp) hdone' hfrom hout
          (by simp; omega)

/-- What holds from some row on selects the end of a list. -/
theorem filter_suffix {p : A → Bool} (h : rows.Pairwise fun a b => p a = true → p b = true) :
    rows.filter p <:+ rows := by
  induction rows with
  | nil => simp
  | cons row rows ih =>
      obtain ⟨hrow, hrows⟩ := List.pairwise_cons.1 h
      by_cases hp : p row = true
      · have hall : (row :: rows).filter p = row :: rows := by
          apply List.filter_eq_self.2
          intro b hb
          rcases List.mem_cons.1 hb with rfl | hb
          · exact hp
          · exact hrow b hb hp
        rw [hall]
      · rw [List.filter_cons_of_neg hp]
        exact (ih hrows).trans (List.suffix_cons row rows)

/-- The pages together are the list exactly when every page end is kept. -/
theorem exists_collect_eq_iff (hlimit : 0 < limit) (hnodup : rows.Nodup)
    (hafter : ∀ cursor, rows.Pairwise fun a b => after cursor a = true → after cursor b = true) :
    (∃ fuel, collect after cursorOf limit rows fuel none = some rows) ↔
      Keeps after cursorOf limit rows := by
  constructor
  · rintro ⟨fuel, hfuel⟩ front row rest hrows hend hrest
    exact keeps_of_collect_eq hlimit hnodup (fun cursor => filter_suffix (hafter cursor)) fuel
      [] rows (by simp) (by simp) rfl hfuel hrows hend hrest (Nat.zero_le _)
  · intro hkeeps
    exact exists_collect_eq hlimit hkeeps [] rows (by simp) (by simp) none rfl

end

end Codewith.Lib.Paging
