import Codewith.Lib.ByteSize
import Codewith.Lib.Saturating

/-!
# Middle truncation

A text over its budget keeps its beginning and its end, with a marker between them that counts
what was removed.  The cut is found in one pass over the characters and their positions.
-/

namespace Codewith.Output

open Lib Lib.Text

def approxBytesPerToken : Nat := 4

/-! ### The truncation -/

/-- `char_indices()`, from a position on. -/
def charIndices : Nat → Text → List (Nat × Char)
  | _, [] => []
  | idx, c :: s => (idx, c) :: charIndices (idx + c.utf8Size) s

/-- What the pass over the characters keeps. -/
structure SplitScan where
  prefixEnd : Nat
  suffixStart : Nat
  removedChars : Nat
  suffixStarted : Bool
deriving DecidableEq, Repr

def splitStep (beginningBytes tailStartTarget : Nat) (scan : SplitScan) (entry : Nat × Char) :
    SplitScan :=
  if entry.1 + entry.2.utf8Size ≤ beginningBytes then
    { scan with prefixEnd := entry.1 + entry.2.utf8Size }
  else if tailStartTarget ≤ entry.1 then
    if scan.suffixStarted then scan
    else { scan with suffixStart := entry.1, suffixStarted := true }
  else
    { scan with removedChars := scan.removedChars + 1 }

/-- A slice at a position that is no boundary of characters panics. -/
def splitString (s : Text) (beginningBytes endBytes : Nat) : Option (Nat × Text × Text) :=
  if s = [] then some (0, [], [])
  else
    let len := byteSize s
    let tailStartTarget := len - endBytes
    let scan := (charIndices 0 s).foldl (splitStep beginningBytes tailStartTarget)
      { prefixEnd := 0, suffixStart := len, removedChars := 0, suffixStarted := false }
    let suffixStart :=
      if scan.suffixStart < scan.prefixEnd then scan.prefixEnd else scan.suffixStart
    do
      let before ← splitAtByte scan.prefixEnd s
      let after ← splitAtByte suffixStart s
      some (scan.removedChars, before.1, after.2)

def splitBudget (budget : Nat) : Nat × Nat := (budget / 2, budget - budget / 2)

def approxTokenCount (text : Text) : Nat :=
  (byteSize text + (approxBytesPerToken - 1)) / approxBytesPerToken

def approxBytesForTokens (tokens : Nat) : Nat := min (tokens * approxBytesPerToken) usizeMax

def approxTokensFromByteCount (bytes : Nat) : Nat :=
  (bytes + (approxBytesPerToken - 1)) / approxBytesPerToken

def formatTruncationMarker (useTokens : Bool) (removedCount : Nat) : Text :=
  if useTokens then "…".toList ++ Nat.toDigits 10 removedCount ++ " tokens truncated…".toList
  else "…".toList ++ Nat.toDigits 10 removedCount ++ " chars truncated…".toList

def removedUnits (useTokens : Bool) (removedBytes removedChars : Nat) : Nat :=
  if useTokens then approxTokensFromByteCount removedBytes else removedChars

def assembleTruncatedOutput (front back marker : Text) : Text := front ++ marker ++ back

def truncateWithByteEstimate (s : Text) (maxBytes : Nat) (useTokens : Bool) : Option Text :=
  if s = [] then some []
  else if maxBytes = 0 then
    some (formatTruncationMarker useTokens (removedUnits useTokens (byteSize s) s.length))
  else if byteSize s ≤ maxBytes then some s
  else
    let budgets := splitBudget maxBytes
    (splitString s budgets.1 budgets.2).map fun (removedChars, left, right) =>
      assembleTruncatedOutput left right (formatTruncationMarker useTokens
        (removedUnits useTokens (byteSize s - maxBytes) removedChars))

/-- In byte mode. -/
def truncateMiddleChars (s : Text) (maxBytes : Nat) : Option Text :=
  truncateWithByteEstimate s maxBytes false

/-- With the number of tokens before, if the text was truncated. -/
def truncateMiddleWithTokenBudget (s : Text) (maxTokens : Nat) : Option (Text × Option Nat) :=
  if s = [] then some ([], none)
  else if 0 < maxTokens ∧ byteSize s ≤ approxBytesForTokens maxTokens then some (s, none)
  else
    (truncateWithByteEstimate s (approxBytesForTokens maxTokens) true).map fun truncated =>
      if truncated = s then (truncated, none) else (truncated, some (approxTokenCount s))

/-! ### The pass -/

theorem charIndices_append (idx : Nat) (a b : Text) :
    charIndices idx (a ++ b) = charIndices idx a ++ charIndices (idx + byteSize a) b := by
  induction a generalizing idx with
  | nil => simp [charIndices]
  | cons c a ih => simp [charIndices, ih, Nat.add_assoc]

variable {beginningBytes tailStartTarget : Nat}

/-- Characters within the beginning move its end. -/
theorem foldl_splitStep_front {scan : SplitScan} {idx : Nat} {front : Text}
    (hscan : scan.prefixEnd = idx) (h : idx + byteSize front ≤ beginningBytes) :
    (charIndices idx front).foldl (splitStep beginningBytes tailStartTarget) scan =
      { scan with prefixEnd := idx + byteSize front } := by
  induction front generalizing scan idx with
  | nil => simp [charIndices, ← hscan]
  | cons c front ih =>
      rw [byteSize_cons] at h
      have hfits : idx + c.utf8Size ≤ beginningBytes := by omega
      have hstep : splitStep beginningBytes tailStartTarget scan (idx, c) =
          { scan with prefixEnd := idx + c.utf8Size } := if_pos hfits
      rw [charIndices, List.foldl_cons, hstep, ih rfl (by dsimp only; omega)]
      simp [Nat.add_assoc]

/-- Characters after the start of the end change nothing. -/
theorem foldl_splitStep_back {scan : SplitScan} {idx : Nat} {back : Text}
    (hscan : scan.suffixStarted = true) (hbeginning : beginningBytes ≤ idx)
    (htail : tailStartTarget ≤ idx) :
    (charIndices idx back).foldl (splitStep beginningBytes tailStartTarget) scan = scan := by
  induction back generalizing idx with
  | nil => rfl
  | cons c back ih =>
      have hpos := c.utf8Size_pos
      have hbeyond : ¬ idx + c.utf8Size ≤ beginningBytes := by omega
      have hstep : splitStep beginningBytes tailStartTarget scan (idx, c) = scan := by
        rw [splitStep, if_neg hbeyond, if_pos htail, if_pos hscan]
      rw [charIndices, List.foldl_cons, hstep]
      exact ih (by omega) (by omega)

/-- After the beginning, characters are removed up to the start of the end. -/
theorem foldl_splitStep_rest {scan : SplitScan} {idx : Nat} {rest : Text}
    (hstarted : scan.suffixStarted = false) (hsuffix : scan.suffixStart = idx + byteSize rest)
    (hbeyond : ∀ c ∈ rest.head?, beginningBytes < idx + c.utf8Size) :
    (charIndices idx rest).foldl (splitStep beginningBytes tailStartTarget) scan =
      { scan with
        removedChars := scan.removedChars + (spanBytes (tailStartTarget - idx) rest).1.length
        suffixStart := idx + byteSize (spanBytes (tailStartTarget - idx) rest).1
        suffixStarted := decide ((spanBytes (tailStartTarget - idx) rest).2 ≠ []) } := by
  induction rest generalizing scan idx with
  | nil =>
      obtain ⟨prefixEnd, suffixStart, removedChars, suffixStarted⟩ := scan
      subst hstarted hsuffix
      rfl
  | cons c rest ih =>
      have hbeginning : beginningBytes < idx + c.utf8Size := hbeyond c rfl
      rw [charIndices, List.foldl_cons, splitStep, if_neg (Nat.not_le.mpr hbeginning)]
      by_cases htail : tailStartTarget ≤ idx
      · rw [if_pos htail, hstarted, if_neg Bool.false_ne_true,
          foldl_splitStep_back rfl hbeginning.le (by omega)]
        simp [spanBytes, Nat.sub_eq_zero_of_le htail]
      · have hleft : tailStartTarget - idx ≠ 0 := Nat.sub_ne_zero_of_lt (Nat.lt_of_not_le htail)
        rw [if_neg htail, @ih { scan with removedChars := scan.removedChars + 1 } _ hstarted,
          spanBytes, if_neg hleft]
        · simp [Nat.sub_sub, Nat.add_assoc, Nat.add_comm 1]
        · rw [hsuffix, byteSize_cons, Nat.add_assoc]
        · intro next _
          have hpos := next.utf8Size_pos
          omega

/-! ### What is kept -/

/-- Beginning, removed middle and end of a text, for budgets of the two ends. -/
structure MiddleCut (s : Text) (left right : Nat) (front removed back : Text) : Prop where
  eq_append : s = front ++ removed ++ back
  front_le : byteSize front ≤ left
  front_longest : ∀ other, other <+: s → byteSize other ≤ left → other <+: front
  back_le : byteSize back ≤ right
  back_longest : ∀ other, other <:+ s → byteSize other ≤ right → other <:+ back

/-- What follows a shorter prefix is a longer suffix. -/
theorem suffix_of_prefix_of_append_eq {a b p q : Text} (h : a ++ b = p ++ q) (hbefore : a <+: p) :
    q <:+ b := by
  obtain ⟨mid, rfl⟩ := hbefore
  rw [List.append_assoc] at h
  exact ⟨mid, (List.append_cancel_left h).symm⟩

theorem splitString_middleCut {s : Text} {left right : Nat} (h : left + right < byteSize s) :
    ∃ front removed back, MiddleCut s left right front removed back ∧
      splitString s left right = some (removed.length, front, back) := by
  obtain ⟨rest, hrest⟩ := takeBytes_prefix left s
  set front := takeBytes left s with hfront
  set tailStart := byteSize s - right with htailStart
  have hfrontSize : byteSize front ≤ left := byteSize_takeBytes_le left s
  have hsize : byteSize s = byteSize front + byteSize rest := by
    rw [← hrest, byteSize_append]
  set removed := (spanBytes (tailStart - byteSize front) rest).1 with hremoved
  set back := (spanBytes (tailStart - byteSize front) rest).2 with hback
  have hsplit : removed ++ back = rest := spanBytes_append _ rest
  have hremovedSize : tailStart - byteSize front ≤ byteSize removed :=
    le_byteSize_spanBytes (by omega)
  have hrestSize : byteSize rest = byteSize removed + byteSize back := by
    rw [← hsplit, byteSize_append]
  have happend : s = front ++ removed ++ back := by
    rw [List.append_assoc, hsplit, hrest]
  refine ⟨front, removed, back, ⟨happend, hfrontSize, ?_, by omega, ?_⟩, ?_⟩
  · exact fun other hother hle => prefix_takeBytes hother hle
  · rintro other ⟨before, hbefore⟩ hle
    have hbeforeSize : byteSize s = byteSize before + byteSize other := by
      rw [← hbefore, byteSize_append]
    have hfrontBefore : front <+: before := by
      have hfrontPrefix : front <+: s := ⟨rest, hrest⟩
      rcases List.prefix_or_prefix_of_prefix hfrontPrefix ⟨other, hbefore⟩ with hshort | hlong
      · exact hshort
      · rw [eq_of_prefix_of_byteSize_le hlong (by omega)]
    obtain ⟨mid, rfl⟩ := hfrontBefore
    rw [byteSize_append] at hbeforeSize
    have hmid : mid ++ other = rest := by
      rw [← hrest, List.append_assoc] at hbefore
      exact List.append_cancel_left hbefore
    refine suffix_of_prefix_of_append_eq (hsplit.trans hmid.symm) ?_
    exact spanBytes_prefix ⟨other, hmid⟩ (by omega)
  · have hne : s ≠ [] := by
      rintro rfl
      rw [byteSize_nil] at h
      omega
    have hscan : (charIndices 0 s).foldl (splitStep left tailStart)
        { prefixEnd := 0, suffixStart := byteSize s, removedChars := 0, suffixStarted := false } =
        { prefixEnd := byteSize front, suffixStart := byteSize front + byteSize removed,
          removedChars := removed.length, suffixStarted := decide (back ≠ []) } := by
      conv_lhs => rw [← hrest, charIndices_append, List.foldl_append]
      rw [foldl_splitStep_front rfl (by simpa using hfrontSize), foldl_splitStep_rest rfl]
      · simp [← hremoved, ← hback]
      · simp
      · simpa using lt_of_head?_drop_takeBytes hrest
    unfold splitString
    rw [if_neg hne]
    dsimp only
    rw [← htailStart, hscan]
    dsimp only
    rw [if_neg (by omega), ← byteSize_append]
    conv_lhs => rw [happend, splitAtByte_append, List.append_assoc, splitAtByte_append]
    rfl

/-- The ends fall short of their budgets by less than one character. -/
theorem MiddleCut.le_byteSize {s : Text} {left right : Nat} {front removed back : Text}
    (h : MiddleCut s left right front removed back) (hleft : left < byteSize s)
    (hright : right < byteSize s) :
    left ≤ byteSize front + 3 ∧ right ≤ byteSize back + 3 := by
  constructor
  · have hcut := takeBytes_prefix left s
    have hfront := byteSize_le_of_prefix (h.front_longest _ hcut (byteSize_takeBytes_le left s))
    have hsize := le_byteSize_takeBytes hleft
    omega
  · have hsplit := spanBytes_append (byteSize s - right) s
    have hsize : byteSize s = byteSize (spanBytes (byteSize s - right) s).1 +
        byteSize (spanBytes (byteSize s - right) s).2 := by
      rw [← byteSize_append, hsplit]
    have hlower := @le_byteSize_spanBytes (byteSize s - right) s (by omega)
    have hupper := byteSize_spanBytes_lt (byteSize s - right) s
    obtain ⟨before, hback⟩ := h.back_longest (spanBytes (byteSize s - right) s).2
      ⟨_, hsplit⟩ (by omega)
    have hbackSize := congrArg byteSize hback
    rw [byteSize_append] at hbackSize
    omega

/-- A text that fits is kept.  From any other the longest beginning and the longest end within
their budgets are kept, which do not overlap; the marker counts what stood between them, in
characters, or else the tokens over the budget. -/
theorem truncateWithByteEstimate_exact (s : Text) (maxBytes : Nat) (useTokens : Bool) :
    (byteSize s ≤ maxBytes ∧ truncateWithByteEstimate s maxBytes useTokens = some s) ∨
    (maxBytes < byteSize s ∧ ∃ front removed back,
      MiddleCut s (maxBytes / 2) (maxBytes - maxBytes / 2) front removed back ∧
      truncateWithByteEstimate s maxBytes useTokens =
        some (front ++ formatTruncationMarker useTokens
          (if useTokens then approxTokensFromByteCount (byteSize s - maxBytes)
            else removed.length) ++ back)) := by
  unfold truncateWithByteEstimate
  by_cases hnil : s = []
  · subst hnil
    exact .inl ⟨Nat.zero_le _, rfl⟩
  have hpos : 0 < byteSize s := Nat.pos_of_ne_zero fun h => hnil (byteSize_eq_zero.mp h)
  rw [if_neg hnil]
  by_cases hzero : maxBytes = 0
  · subst hzero
    refine .inr ⟨hpos, [], s, [], ⟨by simp, le_rfl, ?_, le_rfl, ?_⟩, ?_⟩
    · intro other _ hle
      rw [byteSize_eq_zero.mp (Nat.le_zero.mp hle)]
    · intro other _ hle
      rw [byteSize_eq_zero.mp (Nat.le_zero.mp hle)]
    · simp [removedUnits]
  rw [if_neg hzero]
  by_cases hfits : byteSize s ≤ maxBytes
  · exact .inl ⟨hfits, if_pos hfits⟩
  · rw [if_neg hfits]
    have hbudgets : maxBytes / 2 + (maxBytes - maxBytes / 2) < byteSize s := by omega
    obtain ⟨front, removed, back, hcut, hresult⟩ := splitString_middleCut hbudgets
    refine .inr ⟨by omega, front, removed, back, hcut, ?_⟩
    simp [splitBudget, hresult, removedUnits, assembleTruncatedOutput]

end Codewith.Output
