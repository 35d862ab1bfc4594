import Codewith.Session.Normalize

/-!
# Dropping the oldest item

A transcript that is too long loses its first item, and with it the other half of a call and its
output.  When each id belongs to one call and one output of its kind, the rest does so too.
-/

namespace Codewith.Session

open Lib

/-! ### The operation -/

def isFunctionCall (callId : Text) : ResponseItem → Bool
  | .functionCall _ _ existing => existing = callId
  | _ => false

def isLocalShellCall (callId : Text) : ResponseItem → Bool
  | .localShellCall _ existing => existing = some callId
  | _ => false

def isFunctionCallOutput (callId : Text) : ResponseItem → Bool
  | .functionCallOutput existing _ => existing = callId
  | _ => false

def isToolSearchCall (callId : Text) : ResponseItem → Bool
  | .toolSearchCall existing _ => existing = some callId
  | _ => false

def isToolSearchOutput (callId : Text) : ResponseItem → Bool
  | .toolSearchOutput existing _ _ => existing = some callId
  | _ => false

def isCustomToolCall (callId : Text) : ResponseItem → Bool
  | .customToolCall existing _ _ => existing = callId
  | _ => false

def isCustomToolCallOutput (callId : Text) : ResponseItem → Bool
  | .customToolCallOutput existing _ _ => existing = callId
  | _ => false

def removeFirstMatching (items : List ResponseItem) (p : ResponseItem → Bool) :
    List ResponseItem := items.eraseP p

/-- The output of a function call may answer a call of the local shell. -/
def removeCorrespondingFor (items : List ResponseItem) : ResponseItem → List ResponseItem
  | .functionCall _ _ callId => removeFirstMatching items (isFunctionCallOutput callId)
  | .functionCallOutput callId _ =>
      if items.any (isFunctionCall callId) then removeFirstMatching items (isFunctionCall callId)
      else removeFirstMatching items (isLocalShellCall callId)
  | .toolSearchCall (some callId) _ => removeFirstMatching items (isToolSearchOutput callId)
  | .toolSearchOutput (some callId) _ _ => removeFirstMatching items (isToolSearchCall callId)
  | .customToolCall callId _ _ => removeFirstMatching items (isCustomToolCallOutput callId)
  | .customToolCallOutput callId _ _ => removeFirstMatching items (isCustomToolCall callId)
  | .localShellCall _ (some callId) => removeFirstMatching items (isFunctionCallOutput callId)
  | _ => items

def ContextManager.removeFirstItem (m : ContextManager) : ContextManager :=
  match m.items with
  | [] => m
  | removed :: items => { m with items := removeCorrespondingFor items removed }

/-! ### Calls and their outputs -/

def RequiredCall.callId : RequiredCall → Text
  | .function callId => callId
  | .toolSearch callId => callId
  | .customTool callId => callId

/-- The call that an item makes or answers. -/
def callOf (item : ResponseItem) : Option RequiredCall :=
  (requestedCall item).or (answeredCall item)

/-- Each id that occurs belongs to one call, and to one output of its kind. -/
structure Paired (items : List ResponseItem) : Prop where
  one_call : ∀ item ∈ items, ∀ call, callOf item = some call →
    items.countP (fun item => requestedCall item = some call) = 1
  one_output : ∀ item ∈ items, ∀ call, callOf item = some call →
    items.countP (fun item => answeredCall item = some call) = 1
  same_kind : ∀ a ∈ items, ∀ b ∈ items, ∀ call otherCall, callOf a = some call →
    callOf b = some otherCall → call.callId = otherCall.callId → call = otherCall

theorem answeredCall_of_requestedCall {item : ResponseItem} {call : RequiredCall}
    (h : requestedCall item = some call) : answeredCall item = none := by
  cases item <;> first | rfl | cases h

theorem requestedCall_of_answeredCall {item : ResponseItem} {call : RequiredCall}
    (h : answeredCall item = some call) : requestedCall item = none := by
  cases hrequested : requestedCall item with
  | none => rfl
  | some requested =>
      rw [answeredCall_of_requestedCall hrequested] at h
      cases h

theorem callOf_eq_some {item : ResponseItem} {call : RequiredCall} :
    callOf item = some call ↔ requestedCall item = some call ∨ answeredCall item = some call := by
  unfold callOf
  cases hrequested : requestedCall item with
  | none => simp
  | some requested => simp [answeredCall_of_requestedCall hrequested]

/-- An item and its counterpart: a call and its output, in either order. -/
def Counterparts (item partner : ResponseItem) (call : RequiredCall) : Prop :=
  (requestedCall item = some call ∧ answeredCall partner = some call) ∨
    (answeredCall item = some call ∧ requestedCall partner = some call)

/-- The only element with a property, between others without it. -/
theorem exists_only_of_countP_eq_one {α : Type*} {p : α → Bool} {l : List α}
    (h : l.countP p = 1) :
    ∃ before only after, l = before ++ only :: after ∧ p only = true ∧
      (∀ a ∈ before, ¬ p a = true) ∧ ∀ a ∈ after, ¬ p a = true := by
  obtain ⟨only, honly, hp⟩ := List.countP_pos_iff.mp (Nat.lt_of_lt_of_eq Nat.zero_lt_one h.symm)
  obtain ⟨before, after, rfl⟩ := List.append_of_mem honly
  rw [List.countP_append, List.countP_cons_of_pos hp] at h
  refine ⟨before, only, after, rfl, hp, ?_, ?_⟩
  · exact List.countP_eq_zero.mp (by omega)
  · exact List.countP_eq_zero.mp (by omega)

theorem eraseP_eq_of_only {α : Type*} {p : α → Bool} {before after : List α} {only : α}
    (honly : p only = true) (hbefore : ∀ a ∈ before, ¬ p a = true) :
    (before ++ only :: after).eraseP p = before ++ after := by
  rw [List.eraseP_append_right _ hbefore, List.eraseP_cons_of_pos honly]

section Kinds

variable {callId : Text} (item : ResponseItem)

theorem isFunctionCallOutput_iff :
    isFunctionCallOutput callId item = true ↔ answeredCall item = some (.function callId) := by
  cases item <;> simp [isFunctionCallOutput, answeredCall]

theorem isToolSearchOutput_iff :
    isToolSearchOutput callId item = true ↔ answeredCall item = some (.toolSearch callId) := by
  cases item <;> simp [isToolSearchOutput, answeredCall]

theorem isCustomToolCallOutput_iff :
    isCustomToolCallOutput callId item = true ↔ answeredCall item = some (.customTool callId) := by
  cases item <;> simp [isCustomToolCallOutput, answeredCall]

theorem isFunctionCall_or_isLocalShellCall_iff :
    (isFunctionCall callId item = true ∨ isLocalShellCall callId item = true) ↔
      requestedCall item = some (.function callId) := by
  cases item <;> simp [isFunctionCall, isLocalShellCall, requestedCall]

theorem isToolSearchCall_iff :
    isToolSearchCall callId item = true ↔ requestedCall item = some (.toolSearch callId) := by
  cases item <;> simp [isToolSearchCall, requestedCall]

theorem isCustomToolCall_iff :
    isCustomToolCall callId item = true ↔ requestedCall item = some (.customTool callId) := by
  cases item <;> simp [isCustomToolCall, requestedCall]

end Kinds

section Counterpart

variable {before after : List ResponseItem} {removed partner : ResponseItem} {call : RequiredCall}

theorem removeFirstMatching_eq {p : ResponseItem → Bool} {key : ResponseItem → Option RequiredCall}
    (hpartner : p partner = true) (hkey : ∀ item, p item = true → key item = some call)
    (hbefore : ∀ item ∈ before, ¬ key item = some call) :
    removeFirstMatching (before ++ partner :: after) p = before ++ after :=
  eraseP_eq_of_only hpartner fun item hitem hmatch => hbefore item hitem (hkey item hmatch)

/-- The counterpart of a call is the only output for it. -/
theorem removeCorrespondingFor_call (hcall : requestedCall removed = some call)
    (hpartner : answeredCall partner = some call)
    (hbefore : ∀ item ∈ before, ¬ answeredCall item = some call) :
    removeCorrespondingFor (before ++ partner :: after) removed = before ++ after := by
  have herase : ∀ p : ResponseItem → Bool,
      (∀ item, p item = true ↔ answeredCall item = some call) →
      removeFirstMatching (before ++ partner :: after) p = before ++ after :=
    fun p hp => removeFirstMatching_eq ((hp partner).mpr hpartner)
      (fun item => (hp item).mp) hbefore
  cases removed with
  | functionCall name arguments callId =>
      obtain rfl : .function callId = call := Option.some.inj hcall
      exact herase _ isFunctionCallOutput_iff
  | localShellCall id callId =>
      obtain ⟨callId, rfl, rfl⟩ := Option.map_eq_some_iff.mp hcall
      exact herase _ isFunctionCallOutput_iff
  | toolSearchCall callId execution =>
      obtain ⟨callId, rfl, rfl⟩ := Option.map_eq_some_iff.mp hcall
      exact herase _ isToolSearchOutput_iff
  | customToolCall callId name input =>
      obtain rfl : .customTool callId = call := Option.some.inj hcall
      exact herase _ isCustomToolCallOutput_iff
  | _ => cases hcall

/-- The counterpart of an output is the only call that it may answer, of whichever kind. -/
theorem removeCorrespondingFor_output (houtput : answeredCall removed = some call)
    (hpartner : requestedCall partner = some call)
    (hbefore : ∀ item ∈ before, ¬ requestedCall item = some call)
    (hafter : ∀ item ∈ after, ¬ requestedCall item = some call) :
    removeCorrespondingFor (before ++ partner :: after) removed = before ++ after := by
  cases removed with
  | functionCallOutput callId output =>
      obtain rfl : .function callId = call := Option.some.inj houtput
      have hfunction : ∀ item, isFunctionCall callId item = true →
          requestedCall item = some (.function callId) := fun item h =>
        (isFunctionCall_or_isLocalShellCall_iff item).mp (.inl h)
      have hshell : ∀ item, isLocalShellCall callId item = true →
          requestedCall item = some (.function callId) := fun item h =>
        (isFunctionCall_or_isLocalShellCall_iff item).mp (.inr h)
      rw [removeCorrespondingFor]
      rcases (isFunctionCall_or_isLocalShellCall_iff partner).mpr hpartner with hkind | hkind
      · have hany : (before ++ partner :: after).any (isFunctionCall callId) = true :=
          List.any_eq_true.mpr ⟨partner, List.mem_append_right _ List.mem_cons_self, hkind⟩
        rw [if_pos hany]
        exact removeFirstMatching_eq hkind hfunction hbefore
      · have hnone : ¬ (before ++ partner :: after).any (isFunctionCall callId) = true := by
          intro hany
          obtain ⟨item, hitem, hmatch⟩ := List.any_eq_true.mp hany
          rcases List.mem_append.mp hitem with hitem | hitem
          · exact hbefore item hitem (hfunction item hmatch)
          · rcases List.mem_cons.mp hitem with rfl | hitem
            · cases item <;> simp [isFunctionCall, isLocalShellCall] at hmatch hkind
            · exact hafter item hitem (hfunction item hmatch)
        rw [if_neg hnone]
        exact removeFirstMatching_eq hkind hshell hbefore
  | toolSearchOutput callId status execution =>
      obtain ⟨callId, rfl, rfl⟩ := Option.map_eq_some_iff.mp houtput
      exact removeFirstMatching_eq ((isToolSearchCall_iff partner).mpr hpartner)
        (fun item => (isToolSearchCall_iff item).mp) hbefore
  | customToolCallOutput callId name output =>
      obtain rfl : .customTool callId = call := Option.some.inj houtput
      exact removeFirstMatching_eq ((isCustomToolCall_iff partner).mpr hpartner)
        (fun item => (isCustomToolCall_iff item).mp) hbefore
  | _ => cases houtput

end Counterpart

/-! ### What is kept -/

theorem Paired.perm {items kept : List ResponseItem} (h : Paired items) (hperm : items.Perm kept) :
    Paired kept where
  one_call item hitem call hcall := by
    rw [← hperm.countP_eq]
    exact h.one_call item (hperm.mem_iff.mpr hitem) call hcall
  one_output item hitem call hcall := by
    rw [← hperm.countP_eq]
    exact h.one_output item (hperm.mem_iff.mpr hitem) call hcall
  same_kind a ha b hb := h.same_kind a (hperm.mem_iff.mpr ha) b (hperm.mem_iff.mpr hb)

theorem Paired.tail_of_callOf {removed : ResponseItem} {items : List ResponseItem}
    (h : Paired (removed :: items)) (hnone : callOf removed = none) : Paired items := by
  have hrequested : requestedCall removed = none := (Option.or_eq_none_iff.mp hnone).1
  have hanswered : answeredCall removed = none := (Option.or_eq_none_iff.mp hnone).2
  refine ⟨fun item hitem call hcall => ?_, fun item hitem call hcall => ?_, ?_⟩
  · have hcount := h.one_call item (List.mem_cons_of_mem _ hitem) call hcall
    rwa [List.countP_cons_of_neg (by simp [hrequested])] at hcount
  · have hcount := h.one_output item (List.mem_cons_of_mem _ hitem) call hcall
    rwa [List.countP_cons_of_neg (by simp [hanswered])] at hcount
  · exact fun a ha b hb => h.same_kind a (List.mem_cons_of_mem _ ha) b (List.mem_cons_of_mem _ hb)

/-- Without a call and its output, the rest is paired: nothing else is of this call. -/
theorem Paired.of_counterparts {call partner : ResponseItem} {items : List ResponseItem}
    {key : RequiredCall} (h : Paired (call :: partner :: items))
    (hcall : requestedCall call = some key) (hpartner : answeredCall partner = some key) :
    Paired items := by
  have hcallOutput : answeredCall call = none := answeredCall_of_requestedCall hcall
  have hpartnerCall : requestedCall partner = none := requestedCall_of_answeredCall hpartner
  have hmem : ∀ item ∈ items, item ∈ call :: partner :: items := fun item hitem =>
    List.mem_cons_of_mem _ (List.mem_cons_of_mem _ hitem)
  have hkey : callOf call = some key := callOf_eq_some.mpr (.inl hcall)
  have hother : ∀ item ∈ items, ∀ other, callOf item = some other → key ≠ other := by
    rintro item hitem other hitemCall rfl
    rcases callOf_eq_some.mp hitemCall with hrequested | hanswered
    · have hcount := h.one_call call List.mem_cons_self key hkey
      rw [List.countP_cons_of_pos (by simp [hcall]),
        List.countP_cons_of_neg (by simp [hpartnerCall])] at hcount
      have hzero := List.countP_eq_zero.mp
        (Nat.add_right_cancel (hcount.trans (Nat.zero_add 1).symm))
      exact hzero item hitem (by simp [hrequested])
    · have hcount := h.one_output call List.mem_cons_self key hkey
      rw [List.countP_cons_of_neg (by simp [hcallOutput]),
        List.countP_cons_of_pos (by simp [hpartner])] at hcount
      have hzero := List.countP_eq_zero.mp
        (Nat.add_right_cancel (hcount.trans (Nat.zero_add 1).symm))
      exact hzero item hitem (by simp [hanswered])
  refine ⟨fun item hitem other hitemCall => ?_, fun item hitem other hitemCall => ?_, ?_⟩
  · have hne := hother item hitem other hitemCall
    have hcount := h.one_call item (hmem item hitem) other hitemCall
    rwa [List.countP_cons_of_neg (by simp [hcall, hne]),
      List.countP_cons_of_neg (by simp [hpartnerCall])] at hcount
  · have hne := hother item hitem other hitemCall
    have hcount := h.one_output item (hmem item hitem) other hitemCall
    rwa [List.countP_cons_of_neg (by simp [hcallOutput]),
      List.countP_cons_of_neg (by simp [hpartner, hne])] at hcount
  · exact fun a ha b hb => h.same_kind a (hmem a ha) b (hmem b hb)

/-- The items in their order, without the first and its counterpart. -/
def WithoutFirst : List ResponseItem → List ResponseItem → Prop
  | [], kept => kept = []
  | removed :: items, kept =>
      (callOf removed = none ∧ kept = items) ∨
      ∃ call before partner after, Counterparts removed partner call ∧
        items = before ++ partner :: after ∧ kept = before ++ after

theorem removeCorrespondingFor_of_callOf_eq_none {removed : ResponseItem}
    (h : callOf removed = none) (items : List ResponseItem) :
    removeCorrespondingFor items removed = items := by
  have hrequested : requestedCall removed = none := (Option.or_eq_none_iff.mp h).1
  have hanswered : answeredCall removed = none := (Option.or_eq_none_iff.mp h).2
  cases removed with
  | functionCall name arguments callId => cases hrequested
  | customToolCall callId name input => cases hrequested
  | functionCallOutput callId output => cases hanswered
  | customToolCallOutput callId name output => cases hanswered
  | localShellCall id callId =>
      obtain rfl : callId = none := Option.map_eq_none_iff.mp hrequested
      rfl
  | toolSearchCall callId execution =>
      obtain rfl : callId = none := Option.map_eq_none_iff.mp hrequested
      rfl
  | toolSearchOutput callId status execution =>
      obtain rfl : callId = none := Option.map_eq_none_iff.mp hanswered
      rfl
  | _ => rfl

/-- Dropping the oldest item of a paired transcript leaves a paired one. -/
theorem removeFirstItem_paired (m : ContextManager) (h : Paired m.items) :
    Paired m.removeFirstItem.items ∧ WithoutFirst m.items m.removeFirstItem.items := by
  unfold ContextManager.removeFirstItem
  cases hitems : m.items with
  | nil => exact ⟨by rw [hitems] at h ⊢; exact h, hitems⟩
  | cons removed items =>
      rw [hitems] at h
      dsimp only
      cases hkey : callOf removed with
      | none =>
          rw [removeCorrespondingFor_of_callOf_eq_none hkey]
          exact ⟨h.tail_of_callOf hkey, .inl ⟨hkey, rfl⟩⟩
      | some call =>
          rcases callOf_eq_some.mp hkey with hrequested | hanswered
          · have hcount := h.one_output removed List.mem_cons_self call hkey
            rw [List.countP_cons_of_neg (by simp [answeredCall_of_requestedCall hrequested])]
              at hcount
            obtain ⟨before, partner, after, rfl, hpartner, hbefore, -⟩ :=
              exists_only_of_countP_eq_one hcount
            simp only [decide_eq_true_eq] at hpartner hbefore
            rw [removeCorrespondingFor_call hrequested hpartner hbefore]
            have hperm : (removed :: (before ++ partner :: after)).Perm
                (removed :: partner :: (before ++ after)) := List.perm_middle.cons removed
            exact ⟨(h.perm hperm).of_counterparts hrequested hpartner,
              .inr ⟨call, before, partner, after, .inl ⟨hrequested, hpartner⟩, rfl, rfl⟩⟩
          · have hcount := h.one_call removed List.mem_cons_self call hkey
            rw [List.countP_cons_of_neg (by simp [requestedCall_of_answeredCall hanswered])]
              at hcount
            obtain ⟨before, partner, after, rfl, hpartner, hbefore, hafter⟩ :=
              exists_only_of_countP_eq_one hcount
            simp only [decide_eq_true_eq] at hpartner hbefore hafter
            rw [removeCorrespondingFor_output hanswered hpartner hbefore hafter]
            have hperm : (removed :: (before ++ partner :: after)).Perm
                (partner :: removed :: (before ++ after)) :=
              (List.perm_middle.cons removed).trans (List.Perm.swap partner removed _)
            exact ⟨(h.perm hperm).of_counterparts hpartner hanswered,
              .inr ⟨call, before, partner, after, .inr ⟨hanswered, hpartner⟩, rfl, rfl⟩⟩

/-- So do repeated drops, as a compaction makes them. -/
theorem paired_iterate_removeFirstItem (m : ContextManager) (h : Paired m.items) (n : Nat) :
    Paired (ContextManager.removeFirstItem^[n] m).items := by
  induction n generalizing m with
  | zero => exact h
  | succ n ih => exact ih m.removeFirstItem (removeFirstItem_paired m h).1

/-- The output of a call of the local shell comes first, as the other half of it. -/
theorem removeFirstItem_paired_output :
    Paired (ContextManager.removeFirstItem
        ⟨[.functionCallOutput "a".toList abortedPayload, .message none userRole [],
          .localShellCall none (some "a".toList)], 0, none⟩).items ∧
      WithoutFirst [.functionCallOutput "a".toList abortedPayload, .message none userRole [],
          .localShellCall none (some "a".toList)]
        (ContextManager.removeFirstItem
          ⟨[.functionCallOutput "a".toList abortedPayload, .message none userRole [],
            .localShellCall none (some "a".toList)], 0, none⟩).items :=
  removeFirstItem_paired _
    { one_call := by simp [callOf, requestedCall, answeredCall, List.countP_cons]
      one_output := by simp [callOf, requestedCall, answeredCall, List.countP_cons]
      same_kind := by simp [callOf, requestedCall, answeredCall] }

end Codewith.Session
