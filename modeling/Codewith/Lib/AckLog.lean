import Mathlib.Tactic

/-!
# Items and acknowledgements

A log of items that were sent and of acknowledgements that came back.  An item is outstanding
while no acknowledgement after it covers it.
-/

namespace Codewith.Lib

inductive AckLogEntry (ι α : Type*)
  | inserted (item : ι)
  | acked (ack : α)

namespace AckLog

variable {ι α : Type*}

def acks : List (AckLogEntry ι α) → List α
  | [] => []
  | .inserted _ :: log => acks log
  | .acked ack :: log => ack :: acks log

variable (covers : α → ι → Bool)

/-- The items that no later acknowledgement covers, in the order in which they were sent. -/
def outstanding : List (AckLogEntry ι α) → List ι
  | [] => []
  | .inserted item :: log =>
      if ∀ ack ∈ acks log, covers ack item = false then item :: outstanding log
      else outstanding log
  | .acked _ :: log => outstanding log

theorem acks_append (log log' : List (AckLogEntry ι α)) :
    acks (log ++ log') = acks log ++ acks log' := by
  induction log with
  | nil => rfl
  | cons entry log ih =>
      cases entry with
      | inserted item => exact ih
      | acked ack => exact congrArg (ack :: ·) ih

theorem acks_map_inserted (items : List ι) :
    acks (items.map (AckLogEntry.inserted : ι → AckLogEntry ι α)) = [] := by
  induction items with
  | nil => rfl
  | cons item items ih => exact ih

theorem outstanding_map_inserted (items : List ι) :
    outstanding covers (items.map .inserted) = items := by
  induction items with
  | nil => rfl
  | cons item items ih =>
      simp only [List.map_cons, outstanding, acks_map_inserted, List.not_mem_nil, false_implies,
        implies_true, if_true, ih]

/-- Items that are sent become outstanding. -/
theorem outstanding_append_inserted (log : List (AckLogEntry ι α)) (items : List ι) :
    outstanding covers (log ++ items.map .inserted) = outstanding covers log ++ items := by
  induction log with
  | nil => exact outstanding_map_inserted covers items
  | cons entry log ih =>
      cases entry with
      | inserted item =>
          simp only [List.cons_append, outstanding, acks_append, acks_map_inserted,
            List.append_nil, ih]
          split
          · rfl
          · rfl
      | acked ack => exact ih

/-- An acknowledgement ends what it covers. -/
theorem outstanding_append_acked (log : List (AckLogEntry ι α)) (ack : α) :
    outstanding covers (log ++ [.acked ack]) =
      (outstanding covers log).filter fun item => !covers ack item := by
  induction log with
  | nil => rfl
  | cons entry log ih =>
      cases entry with
      | inserted item =>
          have hacks : (∀ ack' ∈ acks (log ++ [.acked ack]), covers ack' item = false) ↔
              (∀ ack' ∈ acks log, covers ack' item = false) ∧ covers ack item = false := by
            simp only [acks_append, acks, List.mem_append, List.mem_singleton]
            constructor
            · intro h
              exact ⟨fun ack' hmem => h ack' (.inl hmem), h ack (.inr rfl)⟩
            · rintro ⟨hlog, hack⟩ ack' (hmem | rfl)
              · exact hlog ack' hmem
              · exact hack
          simp only [List.cons_append, outstanding, hacks, ih]
          by_cases hlog : ∀ ack' ∈ acks log, covers ack' item = false
          · rw [if_pos hlog]
            by_cases hack : covers ack item = false
            · rw [if_pos ⟨hlog, hack⟩, List.filter_cons_of_pos (by simp [hack])]
            · rw [if_neg (fun h => hack h.2), List.filter_cons_of_neg (by simpa using hack)]
          · rw [if_neg hlog, if_neg (fun h => hlog h.1)]
      | acked ack' => exact ih

end AckLog

end Codewith.Lib
