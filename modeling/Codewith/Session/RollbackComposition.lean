import Codewith.Session.RollbackAgreement

/-!
# Rollbacks after one another

Two rollbacks leave the items of one rollback of as many turns.  Their reference contexts may
differ: it is cleared for a mixed bundle of developer text right before the oldest turn that a
rollback drops, but not for one before a later turn, which is dropped as well.
-/

namespace Codewith.Session

open Lib

/-! ### Ends of a list -/

section Lists

variable {α : Type*} {p : α → Bool}

theorem rdropWhile_append_cons {v : α} (h : ¬ p v = true) (a b : List α) :
    (a ++ v :: b).rdropWhile p = a ++ v :: b.rdropWhile p := by
  induction b using List.reverseRecOn with
  | nil => rw [List.rdropWhile_concat_neg p a v h, List.rdropWhile_nil]
  | append_singleton b x ih =>
      rw [← List.cons_append, ← List.append_assoc]
      by_cases hx : p x = true
      · rw [List.rdropWhile_concat_pos p _ x hx, List.rdropWhile_concat_pos p _ x hx, ih]
      · rw [List.rdropWhile_concat_neg p _ x hx, List.rdropWhile_concat_neg p _ x hx]
        simp

/-- A list at one of its hits. -/
theorem exists_split_countP {l : List α} {k : Nat} (h : k < l.countP p) :
    ∃ front hit back, l = front ++ hit :: back ∧ p hit = true ∧ front.countP p = k := by
  induction l generalizing k with
  | nil => cases h
  | cons x l ih =>
      by_cases hx : p x = true
      · cases k with
        | zero => exact ⟨[], x, l, rfl, hx, rfl⟩
        | succ k =>
            rw [List.countP_cons_of_pos hx] at h
            obtain ⟨front, hit, back, rfl, hhit, hcount⟩ := ih (Nat.lt_of_succ_lt_succ h)
            exact ⟨x :: front, hit, back, rfl, hhit, by rw [List.countP_cons_of_pos hx, hcount]⟩
      · rw [List.countP_cons_of_neg hx] at h
        obtain ⟨front, hit, back, rfl, hhit, hcount⟩ := ih h
        exact ⟨x :: front, hit, back, rfl, hhit, by rw [List.countP_cons_of_neg hx, hcount]⟩

/-- The position of a hit is the length of what stands before it. -/
theorem getElem?_positions {hit : α} (hhit : p hit = true) (front back : List α) (start : Nat) :
    (((front ++ hit :: back).zipIdx start).filterMap fun (item, idx) =>
      if p item then some idx else none)[front.countP p]? = some (start + front.length) := by
  induction front generalizing start with
  | nil => simp [List.zipIdx_cons, hhit]
  | cons x front ih =>
      rw [List.cons_append, List.zipIdx_cons, List.filterMap_cons]
      by_cases hx : p x = true
      · rw [List.countP_cons_of_pos hx]
        simp only [hx, if_true, List.getElem?_cons_succ, ih, List.length_cons]
        congr 1
        omega
      · rw [List.countP_cons_of_neg hx]
        have hskip : (if p x = true then some start else none) = none := if_neg hx
        simp only [hskip, ih, List.length_cons]
        congr 1
        omega

end Lists

variable (rules : HistoryRules)

/-! ### One rollback -/

/-- A message that a rollback trims above a turn. -/
def isContextUpdate : ResponseItem → Bool
  | .message _ role content =>
      (role = developerRole && isContextualDevMessageContent content) ||
        (role = userRole && isContextualUserMessageContent rules content)
  | _ => false

/-- Developer text with a contextual fragment and with persistent text. -/
def isMixedBundle : ResponseItem → Bool
  | .message _ role content =>
      role = developerRole && isContextualDevMessageContent content &&
        hasNonContextualDevMessageContent content
  | _ => false

theorem not_contextUpdate_of_boundary {item : ResponseItem}
    (h : isUserTurnBoundary rules item = true) : ¬ isContextUpdate rules item = true := by
  intro hupdate
  cases item with
  | message id role content =>
      rw [isContextUpdate, Bool.or_eq_true, Bool.and_eq_true, Bool.and_eq_true, decide_eq_true_eq,
        decide_eq_true_eq] at hupdate
      rcases hupdate with ⟨hrole, -⟩ | ⟨hrole, hcontextual⟩
      · rw [not_boundary_of_developer hrole] at h
        cases h
      · rw [not_boundary_of_contextual hrole hcontextual] at h
        cases h
  | _ => cases hupdate

/-- The reference context is given up for a mixed bundle among the trimmed updates. -/
def clearedFor (m : ContextManager) (trimmed : List ResponseItem) : ContextManager :=
  if trimmed.any isMixedBundle then { m with referenceContextItem := none } else m

@[simp] theorem items_clearedFor (m : ContextManager) (trimmed : List ResponseItem) :
    (clearedFor m trimmed).items = m.items := by
  unfold clearedFor
  split <;> rfl

theorem referenceContextItem_clearedFor (m : ContextManager) (trimmed : List ResponseItem) :
    (clearedFor m trimmed).referenceContextItem =
      if trimmed.any isMixedBundle then none else m.referenceContextItem := by
  unfold clearedFor
  split <;> rfl

theorem clearedFor_append (m : ContextManager) (a b : List ResponseItem) :
    clearedFor (clearedFor m a) b = clearedFor m (a ++ b) := by
  unfold clearedFor
  rw [List.any_append]
  cases a.any isMixedBundle <;> cases b.any isMixedBundle <;> rfl

theorem clearedFor_comm (m : ContextManager) (a b : List ResponseItem) :
    clearedFor m (a ++ b) = clearedFor m (b ++ a) := by
  unfold clearedFor
  rw [List.any_append, List.any_append, Bool.or_comm]

theorem trimPreTurnContextUpdates_succ (m : ContextManager) {snapshot : List ResponseItem}
    {first cutIdx : Nat} {item : ResponseItem} (hfirst : first < cutIdx + 1)
    (hitem : snapshot[cutIdx]? = some item) :
    m.trimPreTurnContextUpdates rules snapshot first (cutIdx + 1) =
      if isContextUpdate rules item = true then
        (clearedFor m [item]).trimPreTurnContextUpdates rules snapshot first cutIdx
      else (cutIdx + 1, m) := by
  rw [ContextManager.trimPreTurnContextUpdates, if_pos hfirst, hitem]
  cases item with
  | message id role content =>
      have hroles : developerRole ≠ userRole := by decide
      by_cases hdeveloper : role = developerRole ∧ isContextualDevMessageContent content = true
      · obtain ⟨rfl, hcontextual⟩ := hdeveloper
        cases hmixed : hasNonContextualDevMessageContent content <;>
          simp [isContextUpdate, clearedFor, isMixedBundle, hcontextual, hmixed]
      · have hnotMixed : clearedFor m [.message id role content] = m := by
          rw [clearedFor, if_neg]
          simp only [List.any_cons, isMixedBundle, List.any_nil, Bool.or_false, Bool.and_eq_true,
            decide_eq_true_eq]
          exact fun h => hdeveloper h.1
        have hupdate : isContextUpdate rules (.message id role content) = true ↔
            role = userRole ∧ isContextualUserMessageContent rules content = true := by
          rw [isContextUpdate, Bool.or_eq_true, Bool.and_eq_true, Bool.and_eq_true,
            decide_eq_true_eq, decide_eq_true_eq, or_iff_right hdeveloper]
        simp only [hdeveloper, if_false, hnotMixed, hupdate]
  | _ => rfl

/-- The walk back trims the updates at the end of what stays. -/
theorem trimPreTurnContextUpdates_eq (m : ContextManager) (front rest : List ResponseItem)
    {first : Nat} (hfirst : first < (front.rdropWhile (isContextUpdate rules)).length) :
    m.trimPreTurnContextUpdates rules (front ++ rest) first front.length =
      ((front.rdropWhile (isContextUpdate rules)).length,
        clearedFor m (front.rtakeWhile (isContextUpdate rules))) := by
  induction front using List.reverseRecOn generalizing m rest with
  | nil => cases hfirst
  | append_singleton front item ih =>
      have hitem : (front ++ [item] ++ rest)[front.length]? = some item := by simp
      have hlt : first < front.length + 1 := by
        have hle := (List.rdropWhile_prefix (isContextUpdate rules) (front ++ [item])).length_le
        rw [List.length_append, List.length_singleton] at hle
        omega
      rw [List.length_append, List.length_singleton,
        trimPreTurnContextUpdates_succ rules m hlt hitem]
      by_cases hupdate : isContextUpdate rules item = true
      · rw [List.rdropWhile_concat_pos _ _ _ hupdate] at hfirst ⊢
        rw [if_pos hupdate, List.rtakeWhile_concat_pos _ _ _ hupdate, clearedFor_comm,
          ← clearedFor_append, List.append_assoc]
        exact ih (clearedFor m [item]) _ hfirst
      · rw [if_neg hupdate, List.rdropWhile_concat_neg _ _ _ hupdate,
          List.rtakeWhile_concat_neg _ _ _ hupdate, List.length_append, List.length_singleton]
        rfl

/-- How many turns there are. -/
def turnCount (items : List ResponseItem) : Nat := items.countP (isUserTurnBoundary rules)

theorem length_userMessagePositions (items : List ResponseItem) :
    (ContextManager.userMessagePositions rules items).length = turnCount rules items := by
  rw [turnCount, List.countP_eq_length_filter]
  exact length_positions items 0

theorem userMessagePositions_split {front back : List ResponseItem} {turn : ResponseItem}
    (hturn : isUserTurnBoundary rules turn = true) :
    (ContextManager.userMessagePositions rules (front ++ turn :: back))[turnCount rules front]? =
      some front.length := by
  have hposition := getElem?_positions hturn front back 0
  rwa [Nat.zero_add] at hposition

theorem dropLastNUserTurns_of_no_turn (m : ContextManager) (h : turnCount rules m.items = 0)
    (numTurns : Nat) :
    (m.dropLastNUserTurns rules numTurns).items = m.items ∧
      (m.dropLastNUserTurns rules numTurns).referenceContextItem = m.referenceContextItem := by
  have hnone : ContextManager.userMessagePositions rules m.items = [] :=
    List.eq_nil_of_length_eq_zero ((length_userMessagePositions rules m.items).trans h)
  unfold ContextManager.dropLastNUserTurns
  split
  · exact ⟨rfl, rfl⟩
  · simp only [hnone, List.head?_nil]
    exact ⟨rfl, rfl⟩

/-- All turns are dropped: what stands before the first one stays, with its reference context. -/
theorem dropLastNUserTurns_all {m : ContextManager} {front back : List ResponseItem}
    {turn : ResponseItem} (hitems : m.items = front ++ turn :: back)
    (hturn : isUserTurnBoundary rules turn = true) (hfront : turnCount rules front = 0)
    {numTurns : Nat} (hpos : 0 < numTurns) (hall : turnCount rules m.items ≤ numTurns) :
    m.dropLastNUserTurns rules numTurns = m.replace front := by
  have hfirst : (ContextManager.userMessagePositions rules m.items).head? = some front.length := by
    have hposition := @userMessagePositions_split rules front back turn hturn
    rwa [hfront, ← hitems, ← List.head?_eq_getElem?] at hposition
  have htrim : m.trimPreTurnContextUpdates rules m.items front.length front.length =
      (front.length, m) := by
    cases hlength : front.length with
    | zero => rfl
    | succ cutIdx => rw [ContextManager.trimPreTurnContextUpdates, if_neg (lt_irrefl _)]
  unfold ContextManager.dropLastNUserTurns
  rw [if_neg (Nat.ne_of_gt hpos)]
  simp only [hfirst, length_userMessagePositions, if_pos hall, htrim]
  rw [hitems, List.take_left]

/-- Some turns stay: so does what stands before the dropped ones, without context updates at its
end, and the reference context goes with a mixed bundle among these. -/
theorem dropLastNUserTurns_some {m : ContextManager} {front back : List ResponseItem}
    {turn : ResponseItem} (hitems : m.items = front ++ turn :: back)
    (hturn : isUserTurnBoundary rules turn = true) (hfront : 0 < turnCount rules front) :
    m.dropLastNUserTurns rules (turnCount rules (turn :: back)) =
      (clearedFor m (front.rtakeWhile (isContextUpdate rules))).replace
        (front.rdropWhile (isContextUpdate rules)) := by
  have hpositive : 0 < turnCount rules (turn :: back) := by
    rw [turnCount, List.countP_cons_of_pos hturn]
    exact Nat.succ_pos _
  have hcount : turnCount rules m.items =
      turnCount rules front + turnCount rules (turn :: back) := by
    rw [hitems, turnCount, List.countP_append]
    rfl
  obtain ⟨before, first, between, rfl, hfirst, hbefore⟩ := exists_split_countP hfront
  have hhead : (ContextManager.userMessagePositions rules m.items).head? = some before.length := by
    have hposition :=
      @userMessagePositions_split rules before (between ++ turn :: back) first hfirst
    rwa [turnCount, hbefore, ← List.cons_append, ← List.append_assoc, ← hitems,
      ← List.head?_eq_getElem?] at hposition
  set front := before ++ first :: between with hfrontEq
  have hcut : (ContextManager.userMessagePositions rules m.items).getD
      ((ContextManager.userMessagePositions rules m.items).length -
        turnCount rules (turn :: back)) 0 = front.length := by
    have hposition := @userMessagePositions_split rules front back turn hturn
    rw [← hitems] at hposition
    rw [length_userMessagePositions, hcount, Nat.add_sub_cancel, List.getD_eq_getElem?_getD,
      hposition, Option.getD_some]
  have hkept : before.length < (front.rdropWhile (isContextUpdate rules)).length := by
    rw [hfrontEq, rdropWhile_append_cons (not_contextUpdate_of_boundary rules hfirst),
      List.length_append, List.length_cons]
    omega
  have htrim := trimPreTurnContextUpdates_eq rules m front (turn :: back) hkept
  rw [← hitems] at htrim
  have hmore : ¬ turnCount rules m.items ≤ turnCount rules (turn :: back) := by omega
  obtain ⟨trimmed, htrimmed⟩ := List.rdropWhile_prefix (isContextUpdate rules) front
  unfold ContextManager.dropLastNUserTurns
  rw [if_neg (Nat.ne_of_gt hpositive)]
  simp only [hhead, length_userMessagePositions, if_neg hmore]
  rw [← length_userMessagePositions, hcut, htrim]
  have hfrontPrefix : m.items =
      front.rdropWhile (isContextUpdate rules) ++ (trimmed ++ turn :: back) := by
    rw [hitems, ← List.append_assoc, htrimmed]
  dsimp only
  rw [hfrontPrefix, List.take_left]

/-! ### Two rollbacks -/

/-- A mixed bundle stands among the context updates right before the last turns that many rollbacks
drop. -/
def Clears (items : List ResponseItem) (numTurns : Nat) : Prop :=
  numTurns < (ContextManager.userMessagePositions rules items).length ∧
    ((items.take ((ContextManager.userMessagePositions rules items).getD
      ((ContextManager.userMessagePositions rules items).length - numTurns) 0)).rtakeWhile
        (isContextUpdate rules)).any isMixedBundle = true

instance (items : List ResponseItem) (numTurns : Nat) : Decidable (Clears rules items numTurns) :=
  inferInstanceAs (Decidable (_ ∧ _))

theorem clears_split {front back : List ResponseItem} {turn : ResponseItem}
    (hturn : isUserTurnBoundary rules turn = true) (hfront : 0 < turnCount rules front) :
    Clears rules (front ++ turn :: back) (turnCount rules (turn :: back)) ↔
      (front.rtakeWhile (isContextUpdate rules)).any isMixedBundle = true := by
  have hcount : turnCount rules (front ++ turn :: back) =
      turnCount rules front + turnCount rules (turn :: back) := List.countP_append
  have hposition := @userMessagePositions_split rules front back turn hturn
  rw [Clears, length_userMessagePositions, hcount, Nat.add_sub_cancel, List.getD_eq_getElem?_getD,
    hposition, Option.getD_some, List.take_left]
  exact and_iff_right (Nat.lt_add_of_pos_left hfront)

theorem not_clears_of_turnCount_le {items : List ResponseItem} {numTurns : Nat}
    (h : turnCount rules items ≤ numTurns) : ¬ Clears rules items numTurns := by
  rintro ⟨hlt, -⟩
  rw [length_userMessagePositions] at hlt
  omega

theorem not_clears_zero (items : List ResponseItem) : ¬ Clears rules items 0 := by
  rintro ⟨-, hmixed⟩
  rw [Nat.sub_zero, List.getD_eq_getElem?_getD, List.getElem?_eq_none le_rfl, Option.getD_none,
    List.take_zero] at hmixed
  cases hmixed

/-- Context updates are no turns. -/
theorem turnCount_rdropWhile (items : List ResponseItem) :
    turnCount rules (items.rdropWhile (isContextUpdate rules)) = turnCount rules items := by
  have hsplit : items.rdropWhile (isContextUpdate rules) ++
      items.rtakeWhile (isContextUpdate rules) = items := List.rdropWhile_append_rtakeWhile
  have htrimmed : (items.rtakeWhile (isContextUpdate rules)).countP (isUserTurnBoundary rules) =
      0 := by
    refine List.countP_eq_zero.mpr fun item hitem hturn => ?_
    exact not_contextUpdate_of_boundary rules hturn (List.mem_rtakeWhile_imp hitem)
  conv_rhs => rw [← hsplit, turnCount, List.countP_append, htrimmed, Nat.add_zero]
  rfl

/-- A rollback clears the reference context for such a bundle and keeps it otherwise. -/
theorem referenceContextItem_dropLastNUserTurns (m : ContextManager) (numTurns : Nat) :
    (m.dropLastNUserTurns rules numTurns).referenceContextItem =
      if Clears rules m.items numTurns then none else m.referenceContextItem := by
  rcases Nat.eq_zero_or_pos numTurns with rfl | hpos
  · rw [if_neg (not_clears_zero rules m.items)]
    rfl
  rcases Nat.eq_zero_or_pos (turnCount rules m.items) with hnone | hsome
  · rw [if_neg (not_clears_of_turnCount_le rules (hnone.trans_le (Nat.zero_le _)))]
    exact (dropLastNUserTurns_of_no_turn rules m hnone numTurns).2
  rcases Nat.lt_or_ge numTurns (turnCount rules m.items) with hlt | hall
  · obtain ⟨front, turn, back, hitems, hturn, hfront⟩ :=
      exists_split_countP (Nat.sub_lt hsome hpos)
    have hcount : turnCount rules m.items =
        turnCount rules front + turnCount rules (turn :: back) := by
      rw [hitems]
      exact List.countP_append
    have hback : numTurns = turnCount rules (turn :: back) := by
      change turnCount rules front = turnCount rules m.items - numTurns at hfront
      omega
    have hpositive : 0 < turnCount rules front := by
      change turnCount rules front = turnCount rules m.items - numTurns at hfront
      omega
    rw [hback, dropLastNUserTurns_some rules hitems hturn hpositive, hitems]
    simp only [clears_split rules hturn hpositive]
    exact referenceContextItem_clearedFor m _
  · obtain ⟨front, turn, back, hitems, hturn, hfront⟩ := exists_split_countP hsome
    rw [if_neg (not_clears_of_turnCount_le rules hall),
      dropLastNUserTurns_all rules hitems hturn hfront hpos hall]
    rfl

/-- The turns that a first and a second rollback drop. -/
theorem exists_two_cuts {items : List ResponseItem} {i j : Nat} (hi : 0 < i) (hj : 0 < j)
    (h : i + j < turnCount rules items) :
    ∃ front turn between later back, items = front ++ turn :: (between ++ later :: back) ∧
      isUserTurnBoundary rules turn = true ∧ isUserTurnBoundary rules later = true ∧
      0 < turnCount rules front ∧ turnCount rules (turn :: between) = j ∧
      turnCount rules (later :: back) = i := by
  obtain ⟨kept, later, back, rfl, hlater, hkept⟩ :=
    exists_split_countP (show turnCount rules items - i < turnCount rules items by omega)
  have hcount : turnCount rules (kept ++ later :: back) =
      turnCount rules kept + turnCount rules (later :: back) := List.countP_append
  change turnCount rules kept = _ at hkept
  obtain ⟨front, turn, between, rfl, hturn, hfront⟩ :=
    exists_split_countP (show turnCount rules kept - j < turnCount rules kept by omega)
  have hkeptCount : turnCount rules (front ++ turn :: between) =
      turnCount rules front + turnCount rules (turn :: between) := List.countP_append
  change turnCount rules front = _ at hfront
  refine ⟨front, turn, between, later, back, by simp, hturn, hlater, ?_, ?_, ?_⟩ <;> omega

/-- What a second rollback finds. -/
theorem compose_some (m : ContextManager) {i j : Nat} (hi : 0 < i) (hj : 0 < j)
    (h : i + j < turnCount rules m.items) :
    ((m.dropLastNUserTurns rules i).dropLastNUserTurns rules j).items =
        (m.dropLastNUserTurns rules (i + j)).items ∧
      (Clears rules (m.dropLastNUserTurns rules i).items j ↔ Clears rules m.items (i + j)) := by
  obtain ⟨front, turn, between, later, back, hitems, hturn, hlater, hfront, hbetween, hback⟩ :=
    exists_two_cuts rules hi hj h
  have honce : m.items = (front ++ turn :: between) ++ later :: back := by simp [hitems]
  have hboth : i + j = turnCount rules (turn :: (between ++ later :: back)) := by
    rw [← List.cons_append, turnCount, List.countP_append, ← turnCount, ← turnCount, hbetween,
      hback, Nat.add_comm]
  have hkept : 0 < turnCount rules (front ++ turn :: between) := by
    rw [turnCount, List.countP_append]
    exact Nat.add_pos_left hfront _
  have hfirst : (m.dropLastNUserTurns rules i).items =
      front ++ turn :: between.rdropWhile (isContextUpdate rules) := by
    rw [← hback, dropLastNUserTurns_some rules honce hlater hkept, items_replace,
      rdropWhile_append_cons (not_contextUpdate_of_boundary rules hturn)]
  have hagain : j = turnCount rules (turn :: between.rdropWhile (isContextUpdate rules)) := by
    rw [← hbetween, turnCount, turnCount, List.countP_cons_of_pos hturn,
      List.countP_cons_of_pos hturn, ← turnCount, ← turnCount, turnCount_rdropWhile]
  constructor
  · rw [hboth, dropLastNUserTurns_some rules hitems hturn hfront, items_replace, hagain,
      dropLastNUserTurns_some rules hfirst hturn hfront, items_replace]
  · rw [hfirst, hitems, hboth, clears_split rules hturn hfront, hagain,
      clears_split rules hturn hfront]

/-- The second rollback drops what is left of the turns. -/
theorem compose_all (m : ContextManager) {i j : Nat} (hi : 0 < i) (hj : 0 < j)
    (h : turnCount rules m.items ≤ i + j) :
    ((m.dropLastNUserTurns rules i).dropLastNUserTurns rules j).items =
        (m.dropLastNUserTurns rules (i + j)).items ∧
      ¬ Clears rules (m.dropLastNUserTurns rules i).items j := by
  have hij : 0 < i + j := Nat.add_pos_left hi j
  rcases Nat.eq_zero_or_pos (turnCount rules m.items) with hnone | hsome
  · obtain ⟨hfirst, -⟩ := dropLastNUserTurns_of_no_turn rules m hnone i
    obtain ⟨honce, -⟩ := dropLastNUserTurns_of_no_turn rules m hnone (i + j)
    have hagain : turnCount rules (m.dropLastNUserTurns rules i).items = 0 := hfirst.symm ▸ hnone
    obtain ⟨htwice, -⟩ := dropLastNUserTurns_of_no_turn rules _ hagain j
    refine ⟨by rw [htwice, hfirst, honce], not_clears_of_turnCount_le rules ?_⟩
    exact hagain.trans_le (Nat.zero_le j)
  rcases Nat.lt_or_ge i (turnCount rules m.items) with hlt | hall
  · obtain ⟨kept, later, back, hitems, hlater, hkept⟩ :=
      exists_split_countP (show turnCount rules m.items - i < turnCount rules m.items by omega)
    change turnCount rules kept = _ at hkept
    have hcount : turnCount rules m.items =
        turnCount rules kept + turnCount rules (later :: back) := by
      rw [hitems]
      exact List.countP_append
    have hback : i = turnCount rules (later :: back) := by omega
    have hkeptPos : 0 < turnCount rules kept := by omega
    obtain ⟨front, turn, between, rfl, hturn, hfront⟩ := exists_split_countP hkeptPos
    have hfirst : (m.dropLastNUserTurns rules i).items =
        front ++ turn :: between.rdropWhile (isContextUpdate rules) := by
      rw [hback, dropLastNUserTurns_some rules hitems hlater hkeptPos, items_replace,
        rdropWhile_append_cons (not_contextUpdate_of_boundary rules hturn)]
    have hleft : turnCount rules (m.dropLastNUserTurns rules i).items ≤ j := by
      rw [hback, dropLastNUserTurns_some rules hitems hlater hkeptPos, items_replace,
        turnCount_rdropWhile]
      omega
    refine ⟨?_, not_clears_of_turnCount_le rules hleft⟩
    have honce : m.items = front ++ turn :: (between ++ later :: back) := by simp [hitems]
    rw [dropLastNUserTurns_all rules honce hturn hfront hij h, items_replace,
      dropLastNUserTurns_all rules hfirst hturn hfront hj hleft, items_replace]
  · obtain ⟨front, turn, back, hitems, hturn, hfront⟩ := exists_split_countP hsome
    have hfirst : (m.dropLastNUserTurns rules i).items = front := by
      rw [dropLastNUserTurns_all rules hitems hturn hfront hi hall, items_replace]
    have hagain : turnCount rules (m.dropLastNUserTurns rules i).items = 0 := hfirst.symm ▸ hfront
    refine ⟨?_, not_clears_of_turnCount_le rules (hagain.trans_le (Nat.zero_le j))⟩
    rw [(dropLastNUserTurns_of_no_turn rules _ hagain j).1, hfirst,
      dropLastNUserTurns_all rules hitems hturn hfront hij h, items_replace]

/-- The items of two rollbacks are those of one. -/
theorem items_compose (m : ContextManager) (i j : Nat) :
    ((m.dropLastNUserTurns rules i).dropLastNUserTurns rules j).items =
      (m.dropLastNUserTurns rules (i + j)).items := by
  rcases Nat.eq_zero_or_pos i with rfl | hi
  · rw [Nat.zero_add]
    rfl
  rcases Nat.eq_zero_or_pos j with rfl | hj
  · rfl
  rcases Nat.lt_or_ge (i + j) (turnCount rules m.items) with hlt | hall
  · exact (compose_some rules m hi hj hlt).1
  · exact (compose_all rules m hi hj hall).1

/-- A second rollback clears what the single one does. -/
theorem clears_second_iff (m : ContextManager) (i : Nat) {j : Nat} (hj : 0 < j) :
    Clears rules (m.dropLastNUserTurns rules i).items j ↔ Clears rules m.items (i + j) := by
  rcases Nat.eq_zero_or_pos i with rfl | hi
  · rw [Nat.zero_add]
    rfl
  rcases Nat.lt_or_ge (i + j) (turnCount rules m.items) with hlt | hall
  · exact (compose_some rules m hi hj hlt).2
  · exact iff_of_false (compose_all rules m hi hj hall).2
      (not_clears_of_turnCount_le rules hall)

/-- The items of two rollbacks are those of one, and the reference context is the same exactly if
there is none to begin with, the first rollback clears none, or the single one clears it too. -/
theorem dropLastNUserTurns_compose_iff (m : ContextManager) (i j : Nat) :
    (((m.dropLastNUserTurns rules i).dropLastNUserTurns rules j).items =
        (m.dropLastNUserTurns rules (i + j)).items ∧
      ((m.dropLastNUserTurns rules i).dropLastNUserTurns rules j).referenceContextItem =
        (m.dropLastNUserTurns rules (i + j)).referenceContextItem) ↔
      (m.referenceContextItem = none ∨ ¬ Clears rules m.items i ∨
        Clears rules m.items (i + j)) := by
  rw [and_iff_right (items_compose rules m i j), referenceContextItem_dropLastNUserTurns,
    referenceContextItem_dropLastNUserTurns, referenceContextItem_dropLastNUserTurns]
  rcases Nat.eq_zero_or_pos j with rfl | hj
  · rw [if_neg (not_clears_zero rules _), Nat.add_zero]
    simp only [true_iff]
    exact .inr (Classical.em _).symm
  · simp only [clears_second_iff rules m i hj]
    by_cases hboth : Clears rules m.items (i + j)
    · simp [hboth]
    · by_cases hfirst : Clears rules m.items i
      · simp [hboth, hfirst, eq_comm]
      · simp [hboth, hfirst]

/-- Three turns, with a mixed bundle before the last one. -/
def mixedBeforeLast : ContextManager where
  items := [userMessage ['1'], userMessage ['2'],
    .message none developerRole
      [.inputText "<permissions instructions>".toList, .inputText "plugin".toList],
    userMessage ['3']]
  historyVersion := 0
  referenceContextItem := some ⟨none, ['m'], none, none⟩

/-- One rollback of two turns keeps the reference context that two of one turn clear. -/
theorem compose_mixedBeforeLast :
    ((mixedBeforeLast.dropLastNUserTurns plainRules 1).dropLastNUserTurns plainRules
        1).referenceContextItem = none ∧
      (mixedBeforeLast.dropLastNUserTurns plainRules 2).referenceContextItem ≠ none := by
  decide +kernel

end Codewith.Session
