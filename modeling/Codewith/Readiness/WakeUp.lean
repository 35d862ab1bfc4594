import Codewith.Readiness.Flag

/-!
# Waiting for the readiness flag

What each call contributes at the point it has reached is a `Tally`, and `Effect`
says what a step does to the flag and to the tally of its call.  The invariants are
about the flag and the tally of all calls.

A send without a receiver is lost.  It is missed by a waiter that was told before
that the flag is not ready, and that subscribes afterwards.
-/

namespace Codewith.Readiness

open Lib

/-! ## Where calls stand -/

/-- What a call contributes at the point it has reached. -/
structure Tally where
  /-- It holds the lock. -/
  lock : Nat := 0
  /-- With the lock and the flag not ready, it inserts a token or sets the flag. -/
  unready : Nat := 0
  /-- With the lock, it is about to remove the tokens of a flag that is ready. -/
  clears : Nat := 0
  /-- With the lock and no token, it is about to set the flag. -/
  swaps : Nat := 0
  /-- It has made the flag ready, and its send is still to come. -/
  willSend : Nat := 0
  /-- It is a `mark_ready` that has returned true. -/
  marked : Nat := 0
  /-- It was told that the flag is not ready, and has no receiver yet. -/
  between : Nat := 0
  /-- It holds a receiver. -/
  receivers : Nat := 0
  deriving DecidableEq

def IsReady.tally : IsReady → Tally
  | .checking => { lock := 1 }
  | .swapping => { lock := 1, swaps := 1 }
  | .unlocking wasReady => { lock := 1, willSend := if wasReady then 0 else 1 }
  | .sending => { willSend := 1 }
  | _ => {}

def Subscribe.tally : Subscribe → Tally
  | .rechecking => { lock := 1 }
  | .drawing => { lock := 1, unready := 1 }
  | _ => {}

def MarkReady.tally : MarkReady → Tally
  | .removing => { lock := 1 }
  | .storing => { lock := 1, unready := 1 }
  | .clearing => { lock := 1, clears := 1, willSend := 1 }
  | .sending => { willSend := 1 }
  | .returned (.ok true) => { marked := 1 }
  | _ => {}

def WaitReady.tally : WaitReady → Tally
  | .asking (.returned false) => { between := 1 }
  | .asking point => point.tally
  | .subscribing => { between := 1 }
  | .borrowing _ => { receivers := 1 }
  | .awaiting _ => { receivers := 1 }
  | .returned => {}

def Call.tally : Call → Tally
  | .isReady point => point.tally
  | .subscribe point => point.tally
  | .markReady _ point => point.tally
  | .waitReady point => point.tally
  | .dropped => {}

/-- The call is about to send. -/
def Call.sendsNext : Call → Bool
  | .isReady point => point = .sending
  | .markReady _ point => point = .sending
  | .waitReady point => point = .asking .sending
  | _ => false

/-- The call sleeps in `changed()`: its receiver has seen the value false, and all
that was sent. -/
def Call.isParked (flag : ReadinessFlag) : Call → Bool
  | .waitReady (.awaiting seen) => seen = flag.version && !flag.value
  | _ => false

/-! ## What a step can do -/

/-- The effect of a step on the flag and on what its call contributes. -/
inductive Effect (flag : ReadinessFlag) : Tally → ReadinessFlag → Tally → Prop
  | idle (nextId : BitVec 32) (tally : Tally) : Effect flag tally { flag with nextId } tally
  | lock (hlocked : flag.locked = false) :
      Effect flag {} { flag with locked := true } { lock := 1 }
  | unlock (willSend : Nat) :
      Effect flag { lock := 1, willSend } { flag with locked := false } { willSend }
  | recheck (hready : flag.ready = false) :
      Effect flag { lock := 1 } flag { lock := 1, unready := 1 }
  | insert (nextId : BitVec 32) (tokens : Finset Token) :
      Effect flag { lock := 1, unready := 1 } { flag with nextId, tokens, locked := false } {}
  | remove (tokens : Finset Token) (htokens : flag.tokens ≠ ∅) :
      Effect flag { lock := 1 } { flag with tokens } { lock := 1, unready := 1 }
  | store : Effect flag { lock := 1, unready := 1 } { flag with ready := true }
      { lock := 1, clears := 1, willSend := 1 }
  | clear : Effect flag { lock := 1, clears := 1, willSend := 1 }
      { flag with tokens := ∅, locked := false } { willSend := 1 }
  | empty (htokens : flag.tokens = ∅) : Effect flag { lock := 1 } flag { lock := 1, swaps := 1 }
  | swap : Effect flag { lock := 1, swaps := 1 } { flag with ready := true }
      { lock := 1, willSend := if flag.ready then 0 else 1 }
  | send (marked : Nat) (hmarked : marked ≤ 1) : Effect flag { willSend := 1 } flag.send { marked }
  | miss (hready : flag.ready = false) : Effect flag {} flag { between := 1 }
  | receive : Effect flag { between := 1 } { flag with receivers := flag.receivers + 1 }
      { receivers := 1 }
  | leave : Effect flag { receivers := 1 } { flag with receivers := flag.receivers - 1 } {}

/-- A step of `is_ready`, unless it learns that the flag is not ready. -/
theorem IsReady.next_effect {flag flag' : ReadinessFlag} {point point' : IsReady}
    (h : point.next flag = some (flag', point')) :
    Effect flag point.tally flag' point'.tally ∧
      (point' = .returned false → point.tally = {} ∧ flag' = flag ∧ flag.ready = false) := by
  cases point with
  | loading =>
      cases h
      cases hready : flag.ready
      · exact ⟨.idle flag.nextId _, by simp⟩
      · exact ⟨.idle flag.nextId _, by simp⟩
  | locking =>
      rw [next] at h
      split at h
      · cases h
        exact ⟨.idle flag.nextId _, by simp⟩
      · next hlocked =>
          cases h
          exact ⟨.lock (by simpa using hlocked), by simp⟩
  | checking =>
      rw [next] at h
      split at h
      · next htokens =>
          cases h
          exact ⟨.empty htokens, by simp⟩
      · cases h
        exact ⟨.unlock 0, by simp⟩
  | swapping =>
      cases h
      exact ⟨.swap, by simp⟩
  | unlocking wasReady =>
      cases h
      cases wasReady
      · exact ⟨.unlock 1, by simp⟩
      · exact ⟨.unlock 0, by simp⟩
  | sending =>
      cases h
      exact ⟨.send 0 (by omega), by simp⟩
  | reloading =>
      cases h
      refine ⟨.idle flag.nextId _, ?_⟩
      intro hreturned
      exact ⟨rfl, rfl, by simpa using hreturned⟩
  | returned ready => cases h

theorem Subscribe.next_effect {choice : Choice} {flag flag' : ReadinessFlag}
    {point point' : Subscribe} (h : point.next choice flag = some (flag', point')) :
    Effect flag point.tally flag' point'.tally := by
  cases point with
  | loading =>
      cases h
      cases flag.ready <;> exact .idle flag.nextId _
  | locking =>
      cases choice with
      | timeOut =>
          cases h
          exact .idle flag.nextId _
      | _ =>
          simp only [next] at h
          split at h
          · cases h
          · next hlocked =>
              cases h
              exact .lock (by simpa using hlocked)
  | rechecking =>
      simp only [next] at h
      split at h
      · cases h
        exact .unlock 0
      · next hready =>
          cases h
          exact .recheck (by simpa using hready)
  | drawing =>
      simp only [next] at h
      split at h
      · cases h
        exact .insert _ _
      · cases h
        exact .idle _ _
  | returned result => cases h

theorem MarkReady.next_effect {token : Token} {choice : Choice} {flag flag' : ReadinessFlag}
    {point point' : MarkReady} (h : point.next token choice flag = some (flag', point')) :
    Effect flag point.tally flag' point'.tally := by
  cases point with
  | loading =>
      simp only [next] at h
      split at h <;> cases h <;> exact .idle flag.nextId _
  | locking =>
      cases choice with
      | timeOut =>
          cases h
          exact .idle flag.nextId _
      | _ =>
          simp only [next] at h
          split at h
          · cases h
          · next hlocked =>
              cases h
              exact .lock (by simpa using hlocked)
  | removing =>
      simp only [next] at h
      split at h
      · next htoken =>
          cases h
          exact .remove _ (Finset.ne_empty_of_mem htoken)
      · cases h
        exact .unlock 0
  | storing =>
      cases h
      exact .store
  | clearing =>
      cases h
      exact .clear
  | sending =>
      cases h
      exact .send 1 (le_refl _)
  | returned result => cases h

theorem WaitReady.tally_asking {point : IsReady} (h : point ≠ .returned false) :
    (WaitReady.asking point).tally = point.tally := by
  rcases point with _ | _ | _ | _ | _ | _ | _ | ready
  case returned =>
    cases ready
    · exact absurd rfl h
    · rfl
  all_goals rfl

theorem WaitReady.next_effect {flag flag' : ReadinessFlag} {point point' : WaitReady}
    (h : point.next flag = some (flag', point')) : Effect flag point.tally flag' point'.tally := by
  -- Asking is a step of `is_ready`, until the answer is there.
  have hasks : ∀ isReady isReady' : IsReady, isReady ≠ .returned false →
      isReady.next flag = some (flag', isReady') →
      Effect flag (WaitReady.asking isReady).tally flag' (WaitReady.asking isReady').tally := by
    intro isReady isReady' hfirst hnext
    obtain ⟨heffect, hmiss⟩ := IsReady.next_effect hnext
    rw [tally_asking hfirst]
    by_cases hreturned : isReady' = .returned false
    · obtain ⟨htally, rfl, hready⟩ := hmiss hreturned
      rw [htally, hreturned]
      exact .miss hready
    · rw [tally_asking hreturned]
      exact heffect
  cases point with
  | asking isReady =>
      cases isReady with
      | returned ready =>
          cases h
          cases ready <;> exact .idle flag.nextId _
      | _ =>
          simp only [next, Option.map_eq_some_iff, Prod.mk.injEq] at h
          obtain ⟨⟨_, isReady'⟩, hnext, rfl, rfl⟩ := h
          exact hasks _ _ (by simp) hnext
  | subscribing =>
      cases h
      exact .receive
  | borrowing seen =>
      simp only [next] at h
      split at h
      · cases h
        exact .leave
      · cases h
        exact .idle flag.nextId _
  | awaiting seen =>
      simp only [next] at h
      split at h
      · cases h
      · cases h
        exact .idle flag.nextId _
  | returned => cases h

theorem Call.drop_effect {flag flag' : ReadinessFlag} {call call' : Call}
    (h : call.drop flag = some (flag', call')) : Effect flag call.tally flag' call'.tally := by
  unfold drop at h
  split at h <;> cases h
  · exact .idle flag.nextId _
  · exact .idle flag.nextId _
  · exact .leave

theorem Call.next_effect {choice : Choice} {flag flag' : ReadinessFlag} {call call' : Call}
    (h : call.next choice flag = some (flag', call')) :
    Effect flag call.tally flag' call'.tally := by
  unfold next at h
  split at h
  · exact drop_effect h
  · cases call with
    | isReady point =>
        obtain ⟨⟨_, point'⟩, hnext, hcall⟩ := Option.map_eq_some_iff.1 h
        cases hcall
        exact (IsReady.next_effect hnext).1
    | subscribe point =>
        obtain ⟨⟨_, point'⟩, hnext, hcall⟩ := Option.map_eq_some_iff.1 h
        cases hcall
        exact Subscribe.next_effect hnext
    | markReady token point =>
        obtain ⟨⟨_, point'⟩, hnext, hcall⟩ := Option.map_eq_some_iff.1 h
        cases hcall
        exact MarkReady.next_effect hnext
    | waitReady point =>
        obtain ⟨⟨_, point'⟩, hnext, hcall⟩ := Option.map_eq_some_iff.1 h
        cases hcall
        exact WaitReady.next_effect hnext
    | dropped => cases h

theorem Call.sendsNext_of_tally {call : Call} (h : call.tally = { willSend := 1 }) :
    call.sendsNext = true := by
  rcases call with
    point | point | ⟨_, point⟩ | ((_ | _ | _ | _ | wasReady | _ | _ | ready) | _ | _ | _ | _) | _
  case isReady => cases point <;> first | rfl | cases h
  case subscribe => cases point <;> cases h
  case markReady =>
    rcases point with _ | _ | _ | _ | _ | _ | (_ | _ | _) <;> first | rfl | cases h
  case waitReady.asking.unlocking => cases wasReady <;> cases h
  case waitReady.asking.returned => cases ready <;> cases h
  all_goals first | rfl | cases h

/-! ## Invariants -/

namespace Tally

/-- What two tallies contribute together. -/
def add (a b : Tally) : Tally where
  lock := a.lock + b.lock
  unready := a.unready + b.unready
  clears := a.clears + b.clears
  swaps := a.swaps + b.swaps
  willSend := a.willSend + b.willSend
  marked := a.marked + b.marked
  between := a.between + b.between
  receivers := a.receivers + b.receivers

instance : Add Tally := ⟨add⟩

@[simp, grind =] theorem add_lock (a b : Tally) : (a + b).lock = a.lock + b.lock := rfl

@[simp, grind =] theorem add_unready (a b : Tally) : (a + b).unready = a.unready + b.unready := rfl

@[simp, grind =] theorem add_clears (a b : Tally) : (a + b).clears = a.clears + b.clears := rfl

@[simp, grind =] theorem add_swaps (a b : Tally) : (a + b).swaps = a.swaps + b.swaps := rfl

@[simp, grind =] theorem add_willSend (a b : Tally) :
    (a + b).willSend = a.willSend + b.willSend := rfl

@[simp, grind =] theorem add_marked (a b : Tally) : (a + b).marked = a.marked + b.marked := rfl

@[simp, grind =] theorem add_between (a b : Tally) : (a + b).between = a.between + b.between := rfl

@[simp, grind =] theorem add_receivers (a b : Tally) :
    (a + b).receivers = a.receivers + b.receivers := rfl

/-- What needs the lock is done with the lock. -/
def Held (tally : Tally) : Prop := tally.unready + tally.clears + tally.swaps ≤ tally.lock

end Tally

/-- The tally of all calls. -/
def Flags.tally (pool : Flags) : Tally where
  lock := pool.total (·.tally.lock)
  unready := pool.total (·.tally.unready)
  clears := pool.total (·.tally.clears)
  swaps := pool.total (·.tally.swaps)
  willSend := pool.total (·.tally.willSend)
  marked := pool.total (·.tally.marked)
  between := pool.total (·.tally.between)
  receivers := pool.total (·.tally.receivers)

theorem Flags.tally_eq {pool : Flags} {index : Nat} {call : Call}
    (h : pool.calls[index]? = some call) :
    pool.tally = Flags.tally (pool.without index) + call.tally := by
  simp only [Flags.tally, Pool.total_eq h]
  rfl

theorem Flags.tally_run {pool : Flags} {index : Nat} {call : Call}
    (h : pool.calls[index]? = some call) (flag : ReadinessFlag) (call' : Call) :
    Flags.tally ⟨flag, pool.calls.set index call'⟩ =
      Flags.tally (pool.without index) + call'.tally := by
  simp only [Flags.tally, Pool.total_run h]
  rfl

theorem Call.tally_held (call : Call) : call.tally.Held := by
  rcases call with
    point | point | ⟨_, point⟩ | ((_ | _ | _ | _ | _ | _ | _ | ready) | _ | _ | _ | _) | _
  case isReady => cases point <;> simp [tally, IsReady.tally, Tally.Held]
  case subscribe => cases point <;> simp [tally, Subscribe.tally, Tally.Held]
  case markReady =>
    rcases point with _ | _ | _ | _ | _ | _ | (_ | _ | _) <;>
      simp [tally, MarkReady.tally, Tally.Held]
  case waitReady.asking.returned =>
    cases ready <;> simp [tally, WaitReady.tally, IsReady.tally, Tally.Held]
  all_goals simp [tally, WaitReady.tally, IsReady.tally, Tally.Held]

theorem Flags.tally_held (pool : Flags) : pool.tally.Held := by
  have hsum : pool.total (fun call => call.tally.unready + call.tally.clears + call.tally.swaps) =
      pool.total (·.tally.unready) + pool.total (·.tally.clears) + pool.total (·.tally.swaps) := by
    simp only [Pool.total, List.sum_map_add]
  have hle : pool.total (fun call => call.tally.unready + call.tally.clears + call.tally.swaps) ≤
      pool.total (·.tally.lock) := Pool.total_le Call.tally_held
  rw [hsum] at hle
  exact hle

/-- The flag and the tally of its calls fit together. -/
structure Consistent (flag : ReadinessFlag) (tally : Tally) : Prop where
  lock : tally.lock = flag.locked.toNat
  receivers : tally.receivers = flag.receivers
  /-- One call makes the flag ready. -/
  winner : tally.willSend + tally.marked ≤ flag.ready.toNat
  unready : 0 < tally.unready → flag.ready = false
  /-- A flag that is ready has no tokens, or is about to lose them. -/
  tokens : flag.tokens = ∅ ∨ flag.ready = false ∨ 0 < tally.clears
  swaps : 0 < tally.swaps → flag.tokens = ∅

theorem Consistent.effect {flag flag' : ReadinessFlag} {rest before after : Tally}
    (h : Consistent flag (rest + before)) (hrest : rest.Held)
    (heffect : Effect flag before flag' after) : Consistent flag' (rest + after) := by
  obtain ⟨hlock, hreceivers, hwinner, hunready, htokens, hswaps⟩ := h
  have hone : flag.locked.toNat ≤ 1 := Bool.toNat_le _
  rw [Tally.Held] at hrest
  simp only [Tally.add_lock, Tally.add_unready, Tally.add_clears, Tally.add_swaps,
    Tally.add_willSend, Tally.add_marked, Tally.add_receivers] at *
  cases heffect with
  | idle => constructor <;> assumption
  | lock hlocked => constructor <;> grind
  | unlock willSend => constructor <;> grind
  | recheck hready => constructor <;> grind
  | insert nextId tokens => constructor <;> grind
  | remove tokens hnonempty => constructor <;> grind
  | store => constructor <;> grind
  | clear => constructor <;> grind
  | empty hempty => constructor <;> grind
  | swap => constructor <;> grind
  | send marked hmarked => constructor <;> grind [ReadinessFlag.send]
  | miss hready => constructor <;> grind
  | receive => constructor <;> grind
  | leave => constructor <;> grind

/-- Once the send was made, no waiter is left behind. -/
def Awake (flag : ReadinessFlag) (tally : Tally) : Prop :=
  flag.ready = true → 0 < tally.willSend ∨ flag.value = true ∨
    (tally.between = 0 ∧ flag.receivers = 0)

theorem Awake.effect {flag flag' : ReadinessFlag} {rest before after : Tally}
    (h : Awake flag (rest + before)) (hconsistent : Consistent flag (rest + before))
    (hheard : before = { willSend := 1 } → flag.receivers = 0 → (rest + before).between = 0)
    (heffect : Effect flag before flag' after) : Awake flag' (rest + after) := by
  have hreceivers := hconsistent.receivers
  unfold Awake at h ⊢
  cases heffect with
  | idle => exact h
  | lock hlocked => grind
  | unlock willSend => grind
  | recheck hready => grind
  | insert nextId tokens => grind
  | remove tokens hnonempty => grind
  | store => grind
  | clear => grind
  | empty hempty => grind
  | swap => grind
  | send marked hmarked =>
      -- With a receiver the value is true from now on; without one nobody is between.
      intro hready
      by_cases hnone : flag.receivers = 0
      · have hbetween := hheard rfl hnone
        right
        right
        constructor
        · simpa using hbetween
        · simp [ReadinessFlag.send, hnone]
      · right
        left
        simp [ReadinessFlag.send, hnone]
  | miss hready => grind
  | receive => grind
  | leave => grind

theorem Effect.ready_of_ready {flag flag' : ReadinessFlag} {before after : Tally}
    (h : Effect flag before flag' after) (hready : flag.ready = true) : flag'.ready = true := by
  cases h with
  | send marked hmarked =>
      rw [ReadinessFlag.send]
      split <;> exact hready
  | store => rfl
  | swap => rfl
  | _ => exact hready

/-! ## Runs -/

/-- No call sends while there is no receiver and a waiter, told that the flag is not
ready, has yet to subscribe. -/
def Flags.sendsHeard (op : Pool.Op Call Choice) (pool : Flags) : Bool :=
  match op with
  | .start _ => true
  | .run index _ => pool.calls[index]?.all fun call =>
      !call.sendsNext || pool.shared.receivers ≠ 0 || pool.tally.between = 0

structure Flags.Sound (pool : Flags) : Prop where
  consistent : Consistent pool.shared pool.tally
  awake : Awake pool.shared pool.tally

theorem Flags.Sound.new : Flags.new.Sound := by
  refine ⟨⟨rfl, rfl, le_refl _, ?_, .inl rfl, ?_⟩, ?_⟩
  · simp [Flags.new]
  · simp [Flags.new]
  · intro hready
    cases hready

theorem Call.tally_of_begins {call : Call} (h : call.begins = true) : call.tally = {} := by
  cases call with
  | isReady point =>
      obtain rfl := of_decide_eq_true h
      rfl
  | subscribe point =>
      obtain rfl := of_decide_eq_true h
      rfl
  | markReady token point =>
      obtain rfl := of_decide_eq_true h
      rfl
  | waitReady point =>
      obtain rfl := of_decide_eq_true h
      rfl
  | dropped => cases h

theorem Flags.tally_start {pool : Flags} {call : Call} (h : call.tally = {}) :
    Flags.tally { pool with calls := pool.calls ++ [call] } = pool.tally := by
  simp only [Flags.tally, Pool.total_start, h]
  rfl

theorem Flags.Sound.step {pool : Flags} {op : Pool.Op Call Choice}
    (hguard : Flags.sendsHeard op pool = true) (h : pool.Sound) : (Flags.step op pool).Sound := by
  rcases Pool.step_cases Call.begins Call.next op pool with
    hsame | ⟨call, -, hbegins, hstart⟩ | ⟨index, choice, call, flag, call', hop, hcall, hnext, hrun⟩
  · rw [Flags.step, hsame]
    exact h
  · rw [Flags.step, hstart]
    refine ⟨?_, ?_⟩ <;> rw [Flags.tally_start (Call.tally_of_begins hbegins)]
    · exact h.consistent
    · exact h.awake
  · have heffect := Call.next_effect hnext
    have hconsistent := h.consistent
    have hawake := h.awake
    rw [Flags.tally_eq hcall] at hconsistent hawake
    have hheard : call.tally = { willSend := 1 } → pool.shared.receivers = 0 →
        (Flags.tally (pool.without index) + call.tally).between = 0 := by
      intro htally hnone
      rw [← Flags.tally_eq hcall]
      simpa [hop, Flags.sendsHeard, hcall, Call.sendsNext_of_tally htally, hnone] using hguard
    rw [Flags.step, hrun]
    refine ⟨?_, ?_⟩ <;> rw [Flags.tally_run hcall]
    · exact hconsistent.effect (Flags.tally_held _) heffect
    · exact hawake.effect hconsistent hheard heffect

theorem Flags.ready_of_ready {pool : Flags} (op : Pool.Op Call Choice)
    (hready : pool.shared.ready = true) : (Flags.step op pool).shared.ready = true := by
  rcases Pool.step_cases Call.begins Call.next op pool with
    hsame | ⟨call, -, -, hstart⟩ | ⟨index, choice, call, flag, call', -, -, hnext, hrun⟩
  · rw [Flags.step, hsame]
    exact hready
  · rw [Flags.step, hstart]
    exact hready
  · rw [Flags.step, hrun]
    exact (Call.next_effect hnext).ready_of_ready hready

/-- In a run in which no send goes unheard, a flag that is ready and has no send to
come leaves no waiter parked, one `mark_ready` at most has returned true, and the
flag stays ready. -/
theorem no_missed_wake_up {pool : Flags}
    (h : Reaches Flags.step (fun op pool => Flags.sendsHeard op pool = true) Flags.new pool) :
    (pool.shared.ready = true → pool.tally.willSend = 0 →
      ∀ call ∈ pool.calls, call.isParked pool.shared = false) ∧
    pool.tally.marked ≤ 1 ∧
    ∀ op, pool.shared.ready = true → (Flags.step op pool).shared.ready = true := by
  have hsound : pool.Sound := h.invariant Flags.Sound.new fun _ _ hguard => .step hguard
  refine ⟨?_, ?_, fun op => Flags.ready_of_ready op⟩
  · intro hready hnoSend call hcall
    rcases hsound.awake hready with hsend | hvalue | ⟨-, hnone⟩
    · omega
    · unfold Call.isParked
      split
      · simp [hvalue]
      · rfl
    · have hle : call.tally.receivers ≤ pool.tally.receivers :=
        Pool.le_total hcall (·.tally.receivers)
      rw [hsound.consistent.receivers, hnone] at hle
      unfold Call.isParked
      split
      · cases hle
      · rfl
  · have hwinner := hsound.consistent.winner
    have hone : pool.shared.ready.toNat ≤ 1 := Bool.toNat_le _
    omega

/-- A call goes on by the given number of steps. -/
def sampleSteps (index : Nat) (count : Nat) : List (Pool.Op Call Choice) :=
  List.replicate count (.run index .proceed)

/-- A waiter has its receiver when the flag is marked ready. -/
def sampleHeard : List (Pool.Op Call Choice) :=
  [.start (.subscribe .loading)] ++ sampleSteps 0 4 ++
    [.start (.waitReady (.asking .loading))] ++ sampleSteps 1 7 ++
    [.start (.markReady 1 .loading)] ++ sampleSteps 2 6

theorem no_missed_wake_up_sample :
    (runOps Flags.step sampleHeard Flags.new).shared.ready = true ∧
      ∀ call ∈ (runOps Flags.step sampleHeard Flags.new).calls,
        call.isParked (runOps Flags.step sampleHeard Flags.new).shared = false := by
  have hreaches : Reaches Flags.step (fun op pool => Flags.sendsHeard op pool = true) Flags.new
      (runOps Flags.step sampleHeard Flags.new) :=
    Reaches.of_checkedRun (fun _ _ => id) .start (by decide +kernel)
  have hready : (runOps Flags.step sampleHeard Flags.new).shared.ready = true := by decide +kernel
  exact ⟨hready, (no_missed_wake_up hreaches).1 hready (by decide +kernel)⟩

/-- The flag is marked ready just before the waiter takes its receiver. -/
def sampleMissed : List (Pool.Op Call Choice) :=
  [.start (.subscribe .loading)] ++ sampleSteps 0 4 ++
    [.start (.waitReady (.asking .loading))] ++ sampleSteps 1 4 ++
    [.start (.markReady 1 .loading)] ++ sampleSteps 2 6 ++ sampleSteps 1 3

/-- The flag is ready and nothing will be sent any more, and the waiter sleeps. -/
theorem missed_wake_up :
    (runOps Flags.step sampleMissed Flags.new).shared.ready = true ∧
      (runOps Flags.step sampleMissed Flags.new).tally.willSend = 0 ∧
      ∃ call ∈ (runOps Flags.step sampleMissed Flags.new).calls,
        call.isParked (runOps Flags.step sampleMissed Flags.new).shared = true := by
  decide +kernel

end Codewith.Readiness
