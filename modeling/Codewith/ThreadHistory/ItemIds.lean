import Codewith.ThreadHistory.Outline

/-!
# Generated item ids

A rollback sets the counter to the number of the items that remain.  This is enough: an item's
index is at most the number of the items in the turns up to its own, whatever else was added to
them, so the items that remain after a rollback have smaller indexes than the next one.
-/

namespace Codewith.ThreadHistory

open Lib

theorem itemId_injective {m n : Nat} (h : itemId m = itemId n) : m = n := by
  have hdigits : Nat.toDigits 10 m = Nat.toDigits 10 n := by
    simpa [itemId, Nat.toString_eq_ofList_toDigits] using h
  rw [← @Nat.ofDigitChars_ten_toDigits m, ← @Nat.ofDigitChars_ten_toDigits n, hdigits]

namespace Outline

theorem count_append (xs ys : List (List Text)) : count (xs ++ ys) = count xs + count ys := by
  simp [count]

theorem count_cons (ids : List Text) (turns : List (List Text)) :
    count (ids :: turns) = ids.length + count turns := by
  simp [count]

/-- No index in a turn is greater than the number of items up to and in it. -/
def Bounded : Nat → List (List Text) → Prop
  | _, [] => True
  | before, ids :: turns =>
      (∀ n, itemId n ∈ ids → n ≤ before + ids.length) ∧ Bounded (before + ids.length) turns

theorem bounded_append {before : Nat} {xs ys : List (List Text)} :
    Bounded before (xs ++ ys) ↔ Bounded before xs ∧ Bounded (before + count xs) ys := by
  induction xs generalizing before with
  | nil => simp [Bounded, count]
  | cons ids xs ih =>
      rw [List.cons_append, Bounded, Bounded, ih, count_cons, Nat.add_assoc, and_assoc]

theorem Bounded.mono {k l : Nat} (hle : k ≤ l) {turns : List (List Text)} (h : Bounded k turns) :
    Bounded l turns := by
  induction turns generalizing k l with
  | nil => trivial
  | cons ids turns ih =>
      refine ⟨fun n hn => (h.1 n hn).trans (Nat.add_le_add_right hle _), ?_⟩
      exact ih (Nat.add_le_add_right hle _) h.2

/-- The indexes of a bounded list are at most the number of its items. -/
theorem le_of_bounded {before n : Nat} {turns : List (List Text)} (h : Bounded before turns)
    (hn : itemId n ∈ turns.flatten) : n ≤ before + count turns := by
  induction turns generalizing before with
  | nil => simp at hn
  | cons ids turns ih =>
      rw [count_cons, ← Nat.add_assoc]
      rcases List.mem_append.mp (List.flatten_cons ▸ hn) with hhere | hlater
      · exact (h.1 n hhere).trans (Nat.le_add_right _ _)
      · exact ih h.2 hlater

/-- The invariant of the turns and of the counter. -/
structure Numbered (turns : List (List Text)) (next : Nat) : Prop where
  bounded : Bounded 0 turns
  next_le : next ≤ count turns + 1
  lt_next : ∀ n, itemId n ∈ turns.flatten → n < next
  once : ∀ n, turns.flatten.count (itemId n) ≤ 1

section Lists

variable {turns before after kept dropped : List (List Text)} {ids : List Text} {id : Text}
  {next : Nat}

theorem numbered_append_nil_iff : Numbered (turns ++ [[]]) next ↔ Numbered turns next := by
  have hflatten : (turns ++ [[]]).flatten = turns.flatten := by simp
  have hcount : count (turns ++ [[]]) = count turns := by simp [count]
  have hbounded : Bounded 0 (turns ++ [[]]) ↔ Bounded 0 turns := by
    simp [bounded_append, Bounded]
  constructor
  · rintro ⟨h₁, h₂, h₃, h₄⟩
    exact ⟨hbounded.mp h₁, hcount ▸ h₂, hflatten ▸ h₃, hflatten ▸ h₄⟩
  · rintro ⟨h₁, h₂, h₃, h₄⟩
    exact ⟨hbounded.mpr h₁, hcount.symm ▸ h₂, hflatten.symm ▸ h₃, hflatten.symm ▸ h₄⟩

theorem flatten_add_perm :
    (before ++ (ids ++ [id]) :: after).flatten.Perm (id :: (before ++ ids :: after).flatten) := by
  have hleft : (before ++ (ids ++ [id]) :: after).flatten =
      (before.flatten ++ ids) ++ id :: after.flatten := by simp
  have hright : (before ++ ids :: after).flatten = (before.flatten ++ ids) ++ after.flatten := by
    simp
  rw [hleft, hright]
  exact List.perm_middle

theorem count_add :
    count (before ++ (ids ++ [id]) :: after) = count (before ++ ids :: after) + 1 := by
  simp only [count_append, count_cons, List.length_append, List.length_singleton]
  omega

/-- An id that is not greater than the number of items with it may be added to any turn. -/
theorem bounded_add (h : Bounded 0 (before ++ ids :: after))
    (hid : ∀ n, id = itemId n → n ≤ count before + ids.length + 1) :
    Bounded 0 (before ++ (ids ++ [id]) :: after) := by
  rw [bounded_append, Bounded] at h ⊢
  obtain ⟨hbefore, hids, hafter⟩ := h
  refine ⟨hbefore, ?_, ?_⟩
  · intro n hn
    rw [List.length_append, List.length_singleton]
    rcases List.mem_append.mp hn with hold | hnew
    · exact (hids n hold).trans (by omega)
    · have := hid n (List.mem_singleton.mp hnew).symm
      omega
  · apply hafter.mono
    rw [List.length_append]
    omega

/-- An item that the builder did not number may be added to any turn. -/
theorem Numbered.add (h : Numbered (before ++ ids :: after) next) (hid : ∀ n, id ≠ itemId n) :
    Numbered (before ++ (ids ++ [id]) :: after) next where
  bounded := bounded_add h.bounded fun n hn => absurd hn (hid n)
  next_le := by
    rw [count_add]
    exact h.next_le.trans (Nat.le_succ _)
  lt_next n hn := by
    rcases List.mem_cons.mp (flatten_add_perm.mem_iff.mp hn) with hnew | hold
    · exact absurd hnew.symm (hid n)
    · exact h.lt_next n hold
  once n := by
    rw [flatten_add_perm.count_eq, List.count_cons_of_ne (hid n)]
    exact h.once n

/-- The next index goes to the last turn. -/
theorem Numbered.generate (h : Numbered (before ++ [ids]) next) :
    Numbered (before ++ [ids ++ [itemId next]]) (next + 1) where
  bounded := by
    apply bounded_add h.bounded
    intro n hn
    rw [← itemId_injective hn]
    have hnext := h.next_le
    rw [count_append, count_cons] at hnext
    simpa [count, Nat.add_assoc] using hnext
  next_le := by
    rw [count_add]
    exact Nat.succ_le_succ h.next_le
  lt_next n hn := by
    rcases List.mem_cons.mp (flatten_add_perm.mem_iff.mp hn) with hnew | hold
    · rw [itemId_injective hnew]
      exact Nat.lt_succ_self next
    · exact (h.lt_next n hold).trans (Nat.lt_succ_self next)
  once n := by
    rw [flatten_add_perm.count_eq]
    by_cases hn : n = next
    · subst hn
      have hfresh : itemId n ∉ (before ++ [ids]).flatten :=
        fun hmem => Nat.lt_irrefl n (h.lt_next n hmem)
      rw [List.count_cons_self, List.count_eq_zero.mpr hfresh]
    · rw [List.count_cons_of_ne (fun heq => hn (itemId_injective heq).symm)]
      exact h.once n

/-- A rollback to any number of turns. -/
theorem Numbered.rollback (h : Numbered (kept ++ dropped) next) :
    Numbered kept (count kept + 1) where
  bounded := (bounded_append.mp h.bounded).1
  next_le := Nat.le_refl _
  lt_next n hn := by
    have hle := le_of_bounded (bounded_append.mp h.bounded).1 hn
    omega
  once n := by
    refine le_trans (List.Sublist.count_le _ ?_) (h.once n)
    rw [List.flatten_append]
    exact List.sublist_append_left _ _

end Lists

/-! ### Runs -/

/-- The turns of an outline, the open one last. -/
def all (o : Outline) : List (List Text) := o.turns ++ (o.current.map OpenTurn.ids).toList

def IsNumbered (o : Outline) : Prop := Numbered o.all o.next

variable {isInput : Text → Prop} {o o' : Outline}

theorem IsNumbered.finish (h : o.IsNumbered) : o.finish.IsNumbered := by
  unfold Outline.finish
  unfold IsNumbered all at h ⊢
  split
  · exact h
  · rename_i turn hcurrent
    rw [hcurrent] at h
    split_ifs with hshown
    · simpa using h
    · have hids : turn.ids = [] := by
        by_contra hne
        exact hshown (.inl hne)
      simpa [hids, numbered_append_nil_iff] using h

/-- The turns with the one that is open, or would be opened. -/
theorem IsNumbered.ensure (h : o.IsNumbered) : Numbered (o.turns ++ [o.ensure.ids]) o.next := by
  unfold IsNumbered all at h
  unfold Outline.ensure
  cases hcurrent : o.current with
  | none =>
      rw [hcurrent] at h
      simpa [OpenTurn.new, numbered_append_nil_iff] using h
  | some turn =>
      rw [hcurrent] at h
      simpa using h

theorem IsNumbered.finishedTurns (h : o.IsNumbered) : Numbered o.finish.turns o.finish.next := by
  have hall := h.finish
  rw [IsNumbered, all, o.current_finish] at hall
  simpa using hall

theorem Step.isNumbered (hforeign : ∀ id, isInput id → ∀ n, id ≠ itemId n)
    (hstep : Step isInput o o') (h : o.IsNumbered) : o'.IsNumbered := by
  cases hstep with
  | finish => exact h.finish
  | openExplicitly => exact numbered_append_nil_iff.mpr h.finishedTurns
  | generate => exact h.ensure.generate
  | add id hid => exact h.ensure.add (hforeign id hid)
  | addTo before after ids id hid hturns =>
      unfold IsNumbered all at h ⊢
      rw [hturns, List.append_assoc, List.cons_append] at h
      rw [List.append_assoc, List.cons_append]
      exact h.add (hforeign id hid)
  | mark => exact h.ensure
  | rollback kept dropped hturns =>
      have hfinished := h.finishedTurns
      rw [hturns] at hfinished
      simpa [IsNumbered, all] using hfinished.rollback

theorem Steps.isNumbered (hforeign : ∀ id, isInput id → ∀ n, id ≠ itemId n)
    (hsteps : Steps isInput o o') (h : o.IsNumbered) : o'.IsNumbered := by
  induction hsteps with
  | refl => exact h
  | tail _ hstep ih => exact hstep.isNumbered hforeign ih

theorem isNumbered_initial : Outline.initial.IsNumbered where
  bounded := trivial
  next_le := Nat.le_refl _
  lt_next n hn := by simp [all, Outline.initial] at hn
  once n := by simp [all, Outline.initial]

end Outline

/-- The items of the finished turns and of the open one. -/
def ThreadHistoryBuilder.items (b : ThreadHistoryBuilder) : List ThreadItem :=
  b.turns.flatMap Turn.items ++ (b.currentTurn.map fun turn => turn.items).getD []

theorem map_id_items (b : ThreadHistoryBuilder) :
    b.items.map ThreadItem.id = b.outline.all.flatten := by
  have hturns : (b.turns.flatMap Turn.items).map ThreadItem.id =
      (b.turns.map Turn.itemIds).flatten := by
    rw [List.map_flatMap, List.flatMap_def]
    rfl
  rw [ThreadHistoryBuilder.items, List.map_append, hturns, Outline.all, List.flatten_append]
  cases hcurrent : b.currentTurn with
  | none => simp [ThreadHistoryBuilder.outline, hcurrent]
  | some turn => simp [ThreadHistoryBuilder.outline, hcurrent, PendingTurn.outline, Turn.itemIds]

/-- After any inputs, no generated id is borne by two items, if no id in the inputs has the form
of a generated one. -/
theorem generated_ids_distinct (parsers : Parsers) (inputs : List (Uuids × Input))
    (hids : ∀ input ∈ inputs, ∀ id ∈ input.2.itemIds input.1, ∀ n, id ≠ itemId n) (n : Nat) :
    ((built parsers inputs).items.map ThreadItem.id).count (itemId n) ≤ 1 := by
  rw [map_id_items]
  exact ((steps_built parsers inputs hids).isNumbered (fun _ h => h)
    Outline.isNumbered_initial).once n

/-- Two messages, a web search between them, and the second one again after a rollback. -/
def rolledBack : List (Uuids × Input) :=
  let message text := Input.event (.userMessage ⟨none, text, none, [], [], []⟩)
  [(⟨"t1".toList, []⟩, message "a".toList),
    (⟨[], []⟩, .rolloutItem (.eventMsg (.webSearchEnd "ws".toList "q".toList))),
    (⟨"t2".toList, []⟩, message "b".toList), (⟨[], []⟩, .event (.threadRolledBack 1)),
    (⟨"t3".toList, []⟩, message "b".toList)]

theorem rolledBack_ids_distinct :
    ((built ⟨fun _ => none, fun _ => none, fun _ => none, List.flatten⟩ rolledBack).items.map
      ThreadItem.id).count (itemId 3) ≤ 1 := by
  apply generated_ids_distinct
  intro input hinput id hid n
  have hmember : input.2.itemIds input.1 = [] ∨ input.2.itemIds input.1 = ["ws".toList] := by
    simp only [rolledBack, List.mem_cons, List.not_mem_nil, or_false] at hinput
    rcases hinput with rfl | rfl | rfl | rfl | rfl
    · exact .inl rfl
    · exact .inr rfl
    · exact .inl rfl
    · exact .inl rfl
    · exact .inl rfl
  rcases hmember with hnone | hsearch
  · rw [hnone] at hid
    cases hid
  · rw [hsearch, List.mem_singleton] at hid
    rw [hid]
    simp [itemId]

end Codewith.ThreadHistory
