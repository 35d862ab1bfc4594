import Codewith.Lib.Exec

/-!
# Transactions and runs of operations

A transaction keeps the state it reached only if it returns.  What a command
that returns has done is stated by `Exec.Returns P m Q`, the partial-correctness
triple, with one rule for each way a command is built.

`Reaches step guard init s` says that a run of guarded operations leads from
`init` to `s`; an invariant of the guarded steps holds in all such states.
-/

namespace Codewith.Lib

namespace Exec

variable {S E A B I : Type}

/-- Undo everything when the command fails. -/
def transaction (m : Exec S E A) : Exec S E A := fun s =>
  match m s with
  | (.ok a, s') => (.ok a, s')
  | (.error e, _) => (.error e, s)

/-- Run a command only if the condition holds. -/
def onlyIf (c : Prop) [Decidable c] (m : Exec S E Unit) : Exec S E Unit :=
  if c then m else pure ()

theorem transaction_run_ok {m : Exec S E A} {a : A} {s s' : S} (h : m s = (.ok a, s')) :
    transaction m s = (.ok a, s') := by
  simp [transaction, h]

theorem transaction_run_error {m : Exec S E A} {e : E} {s s' : S} (h : m s = (.error e, s')) :
    transaction m s = (.error e, s) := by
  simp [transaction, h]

/-! ## What a returned value says about the run

Rewriting with these equivalences takes a run that returned apart, down to the
conditions it has passed and the states it went through. -/

theorem pure_eq_ok {a b : A} {s t : S} :
    (pure a : Exec S E A) s = (.ok b, t) ↔ a = b ∧ s = t := by
  simp

theorem fail_eq_ok {e : E} {b : A} {s t : S} :
    (fail e : Exec S E A) s = (.ok b, t) ↔ False := by
  simp

theorem gets_eq_ok {f : S → A} {b : A} {s t : S} :
    (gets f : Exec S E A) s = (.ok b, t) ↔ f s = b ∧ s = t := by
  simp

theorem modify_eq_ok {f : S → S} {u : Unit} {s t : S} :
    (modify f : Exec S E Unit) s = (.ok u, t) ↔ f s = t := by
  simp

theorem bind_eq_ok {m : Exec S E A} {f : A → Exec S E B} {b : B} {s t : S} :
    (m >>= f) s = (.ok b, t) ↔ ∃ a s', m s = (.ok a, s') ∧ f a s' = (.ok b, t) := by
  constructor
  · exact exists_of_bind_run_ok
  · rintro ⟨a, s', hfirst, hrest⟩
    rw [bind_run_ok hfirst, hrest]

theorem ite_run (c : Prop) [Decidable c] (m n : Exec S E A) (s : S) :
    (if c then m else n) s = if c then m s else n s := by
  split <;> rfl

theorem onlyIf_eq_ok {c : Prop} [Decidable c] {m : Exec S E Unit} {u : Unit} {s t : S} :
    onlyIf c m s = (.ok u, t) ↔ (c ∧ m s = (.ok (), t)) ∨ (¬c ∧ s = t) := by
  by_cases hc : c <;> simp [onlyIf, hc]

theorem forEach_nil_eq_ok {f : I → Exec S E Unit} {u : Unit} {s t : S} :
    forEach f [] s = (.ok u, t) ↔ s = t := by
  simp [forEach]

theorem forEach_cons_eq_ok {f : I → Exec S E Unit} {i : I} {is : List I} {u : Unit} {s t : S} :
    forEach f (i :: is) s = (.ok u, t) ↔
      ∃ s', f i s = (.ok (), s') ∧ forEach f is s' = (.ok u, t) := by
  rw [forEach_cons, bind_eq_ok]
  constructor
  · rintro ⟨⟨⟩, s', hfirst, hrest⟩
    exact ⟨s', hfirst, hrest⟩
  · rintro ⟨s', hfirst, hrest⟩
    exact ⟨(), s', hfirst, hrest⟩

/-- A relation that every iteration respects holds between the ends of a loop. -/
theorem forEach_rel {f : I → Exec S E Unit} {R : S → S → Prop} (hrefl : ∀ s, R s s)
    (htrans : ∀ a b c, R a b → R b c → R a c) {is : List I}
    (h : ∀ i ∈ is, ∀ s t, f i s = (.ok (), t) → R s t) {u : Unit} {s t : S}
    (hrun : forEach f is s = (.ok u, t)) : R s t := by
  induction is generalizing s with
  | nil =>
      rw [forEach_nil_eq_ok.1 hrun]
      exact hrefl t
  | cons i is ih =>
      obtain ⟨s', hfirst, hrest⟩ := forEach_cons_eq_ok.1 hrun
      have hstep := h i List.mem_cons_self s s' hfirst
      exact htrans s s' t hstep (ih (fun j hj => h j (List.mem_cons_of_mem _ hj)) hrest)

/-- If `m` returns from a state in `P`, the value and the state satisfy `Q`. -/
def Returns (P : S → Prop) (m : Exec S E A) (Q : A → S → Prop) : Prop :=
  ∀ s, P s → ∀ a s', m s = (.ok a, s') → Q a s'

namespace Returns

variable {P P' : S → Prop} {Q Q' : A → S → Prop} {m : Exec S E A}

theorem pure {a : A} (h : ∀ s, P s → Q a s) : Returns P (Pure.pure a : Exec S E A) Q := by
  intro s hs b t hrun
  cases hrun
  exact h s hs

theorem fail (e : E) : Returns P (Exec.fail e : Exec S E A) Q := by
  intro s _ a t hrun
  cases hrun

theorem gets {f : S → A} (h : ∀ s, P s → Q (f s) s) :
    Returns P (Exec.gets f : Exec S E A) Q := by
  intro s hs a t hrun
  cases hrun
  exact h s hs

theorem modify {f : S → S} {Q : Unit → S → Prop} (h : ∀ s, P s → Q () (f s)) :
    Returns P (Exec.modify f : Exec S E Unit) Q := by
  intro s hs a t hrun
  cases hrun
  exact h s hs

theorem bind {f : A → Exec S E B} {Q : A → S → Prop} {W : B → S → Prop} (hm : Returns P m Q)
    (hf : ∀ a, Returns (Q a) (f a) W) : Returns P (m >>= f) W := by
  intro s hs b t hrun
  obtain ⟨a, s', hfirst, hrest⟩ := exists_of_bind_run_ok hrun
  exact hf a s' (hm s hs a s' hfirst) b t hrest

theorem weaken (hm : Returns P m Q) (hP : ∀ s, P' s → P s) (hQ : ∀ a s, Q a s → Q' a s) :
    Returns P' m Q' :=
  fun s hs a t hrun => hQ a t (hm s (hP s hs) a t hrun)

theorem forEach {f : I → Exec S E Unit} {J : S → Prop} {is : List I}
    (h : ∀ i ∈ is, Returns J (f i) fun _ => J) : Returns J (Exec.forEach f is) fun _ => J := by
  induction is with
  | nil => exact Returns.pure fun _ hs => hs
  | cons i is ih =>
      rw [forEach_cons]
      have hrest := ih fun j hj => h j (List.mem_cons_of_mem _ hj)
      exact Returns.bind (h i List.mem_cons_self) fun _ => hrest

end Returns

/-- A transaction that keeps `J` whenever it returns keeps it altogether. -/
theorem transaction_invariant {m : Exec S E A} {J : S → Prop} {s : S}
    (hm : ∀ a s', m s = (.ok a, s') → J s') (hs : J s) : J (transaction m s).2 := by
  rcases hrun : m s with ⟨_ | a, s'⟩
  · rw [transaction_run_error hrun]
    exact hs
  · rw [transaction_run_ok hrun]
    exact hm a s' hrun

end Exec

/-! ## Runs of operations -/

section Runs

variable {S O : Type}

/-- The states reached from `init` by operations that meet `guard` in the state
they are applied to. -/
inductive Reaches (step : O → S → S) (guard : O → S → Prop) (init : S) : S → Prop
  | start : Reaches step guard init init
  | next {s : S} (o : O) : Reaches step guard init s → guard o s →
      Reaches step guard init (step o s)

/-- The state after a list of operations. -/
def runOps (step : O → S → S) (ops : List O) (s : S) : S :=
  ops.foldl (fun s o => step o s) s

variable {step : O → S → S} {guard : O → S → Prop} {init : S}

theorem Reaches.invariant {J : S → Prop} (hinit : J init)
    (hstep : ∀ o s, guard o s → J s → J (step o s)) {s : S}
    (h : Reaches step guard init s) : J s := by
  induction h with
  | start => exact hinit
  | next o _ hguard ih => exact hstep o _ hguard ih

theorem Reaches.weaken {guard' : O → S → Prop} (h : ∀ o s, guard o s → guard' o s) {s : S}
    (hs : Reaches step guard init s) : Reaches step guard' init s := by
  induction hs with
  | start => exact .start
  | next o _ hguard ih => exact .next o ih (h o _ hguard)

/-- Without a guard, every list of operations is a run. -/
theorem Reaches.of_runOps (ops : List O) {s : S}
    (h : Reaches step (fun _ _ => True) init s) :
    Reaches step (fun _ _ => True) init (runOps step ops s) := by
  induction ops generalizing s with
  | nil => exact h
  | cons o ops ih => exact ih (.next o h trivial)

/-- Whether each operation passes the check in the state it is applied to. -/
def checkedRun (step : O → S → S) (check : O → S → Bool) : List O → S → Bool
  | [], _ => true
  | o :: ops, s => check o s && checkedRun step check ops (step o s)

theorem Reaches.of_checkedRun {check : O → S → Bool}
    (hcheck : ∀ o s, check o s = true → guard o s) {ops : List O} {s : S}
    (hs : Reaches step guard init s) (h : checkedRun step check ops s = true) :
    Reaches step guard init (runOps step ops s) := by
  induction ops generalizing s with
  | nil => exact hs
  | cons o ops ih =>
      rw [checkedRun, Bool.and_eq_true] at h
      exact ih (.next o hs (hcheck o s h.1)) h.2

end Runs

end Codewith.Lib
