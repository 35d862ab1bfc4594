import Mathlib.Tactic

/-!
# Commands whose state survives a failure

A command reads a state, returns a value or an error, and in both cases the
state it reached.  A half-finished command therefore shows what it had already
done, which is what partial effects have to be judged by.

`Exec.Within R m` says what `m` can do to the state, and `Exec.Sim r m n` that
two commands run side by side.
-/

namespace Codewith.Lib

/-- A command over the state `S` with errors in `E`. -/
def Exec (S E A : Type) : Type := S → Except E A × S

namespace Exec

variable {S E A B I : Type}

def ret (a : A) : Exec S E A := fun s => (.ok a, s)

def fail (e : E) : Exec S E A := fun s => (.error e, s)

def andThen (m : Exec S E A) (f : A → Exec S E B) : Exec S E B := fun s =>
  match m s with
  | (.ok a, s') => f a s'
  | (.error e, s') => (.error e, s')

instance : Monad (Exec S E) where
  pure := ret
  bind := andThen

/-- Observe the state without changing it. -/
def gets (f : S → A) : Exec S E A := fun s => (.ok (f s), s)

def modify (f : S → S) : Exec S E Unit := fun s => (.ok (), f s)

/-- Turn an already computed result into a command. -/
def ofExcept (r : Except E A) : Exec S E A := fun s => (r, s)

/-- Change the error of a command. -/
def mapErr {F : Type} (f : E → F) (m : Exec S E A) : Exec S F A := fun s =>
  match m s with
  | (.ok a, s') => (.ok a, s')
  | (.error e, s') => (.error (f e), s')

/-- Hand the failure of a command to the caller as a value. -/
def attempt {F : Type} (m : Exec S E A) : Exec S F (Except E A) := fun s => (.ok (m s).1, (m s).2)

/-- Run a command on a part of a larger state. -/
def zoom {T : Type} (get : T → S) (set : T → S → T) (m : Exec S E A) : Exec T E A := fun t =>
  ((m (get t)).1, set t (m (get t)).2)

/-- Run a body over a list, stopping at the first failure. -/
def forEach (f : I → Exec S E Unit) : List I → Exec S E Unit
  | [] => ret ()
  | i :: is => andThen (f i) fun _ => forEach f is

/-- The iterations a loop starts, each with the state it starts from. -/
def entered (f : I → Exec S E Unit) : List I → S → List (I × S)
  | [], _ => []
  | i :: is, s =>
      (i, s) :: match f i s with
        | (.ok _, s') => entered f is s'
        | (.error _, _) => []

@[simp] theorem pure_run (a : A) (s : S) : (pure a : Exec S E A) s = (.ok a, s) := rfl

@[simp] theorem ret_run (a : A) (s : S) : (ret a : Exec S E A) s = (.ok a, s) := rfl

@[simp] theorem fail_run (e : E) (s : S) : (fail e : Exec S E A) s = (.error e, s) := rfl

@[simp] theorem gets_run (f : S → A) (s : S) : (gets f : Exec S E A) s = (.ok (f s), s) := rfl

@[simp] theorem modify_run (f : S → S) (s : S) :
    (modify f : Exec S E Unit) s = (.ok (), f s) := rfl

@[simp] theorem ofExcept_run (r : Except E A) (s : S) :
    (ofExcept r : Exec S E A) s = (r, s) := rfl

@[simp] theorem attempt_run {F : Type} (m : Exec S E A) (s : S) :
    (attempt m : Exec S F (Except E A)) s = (.ok (m s).1, (m s).2) := rfl

@[simp] theorem zoom_run {T : Type} (get : T → S) (set : T → S → T) (m : Exec S E A) (t : T) :
    zoom get set m t = ((m (get t)).1, set t (m (get t)).2) := rfl

@[simp] theorem mapErr_state {F : Type} (f : E → F) (m : Exec S E A) (s : S) :
    (mapErr f m s).2 = (m s).2 := by
  rcases h : m s with ⟨_ | _, _⟩ <;> simp [mapErr, h]

theorem bind_run (m : Exec S E A) (f : A → Exec S E B) (s : S) :
    (m >>= f) s = match m s with
      | (.ok a, s') => f a s'
      | (.error e, s') => (.error e, s') := rfl

theorem bind_run_ok {m : Exec S E A} {a : A} {s s' : S} (h : m s = (.ok a, s'))
    (f : A → Exec S E B) : (m >>= f) s = f a s' := by
  rw [bind_run, h]

theorem bind_run_error {m : Exec S E A} {e : E} {s s' : S} (h : m s = (.error e, s'))
    (f : A → Exec S E B) : (m >>= f) s = (.error e, s') := by
  rw [bind_run, h]

theorem mapErr_run_ok {F : Type} {m : Exec S E A} {a : A} {s s' : S} (h : m s = (.ok a, s'))
    (f : E → F) : mapErr f m s = (.ok a, s') := by
  simp only [mapErr, h]

theorem mapErr_run_error {F : Type} {m : Exec S E A} {e : E} {s s' : S}
    (h : m s = (.error e, s')) (f : E → F) : mapErr f m s = (.error (f e), s') := by
  simp only [mapErr, h]

theorem exists_of_bind_run_ok {m : Exec S E A} {f : A → Exec S E B} {b : B} {s t : S}
    (h : (m >>= f) s = (.ok b, t)) : ∃ a s', m s = (.ok a, s') ∧ f a s' = (.ok b, t) := by
  rcases hrun : m s with ⟨r, s'⟩
  cases r with
  | ok a =>
      rw [bind_run_ok hrun] at h
      exact ⟨a, s', rfl, h⟩
  | error e =>
      rw [bind_run_error hrun] at h
      cases h

theorem of_mapErr_run_ok {F : Type} {f : E → F} {m : Exec S E A} {a : A} {s s' : S}
    (h : mapErr f m s = (.ok a, s')) : m s = (.ok a, s') := by
  rcases hrun : m s with ⟨_ | _, t⟩
  · rw [mapErr_run_error hrun] at h
    cases h
  · rw [mapErr_run_ok hrun] at h
    cases h
    rfl

theorem forEach_cons (f : I → Exec S E Unit) (i : I) (is : List I) :
    forEach f (i :: is) = (f i >>= fun _ => forEach f is) := rfl

/-- A loop over more entries goes on where it ended. -/
theorem forEach_append_of_ok {f : I → Exec S E Unit} {is js : List I} {s s' : S}
    (h : forEach f is s = (.ok (), s')) : forEach f (is ++ js) s = forEach f js s' := by
  induction is generalizing s with
  | nil =>
      cases h
      rfl
  | cons i is ih =>
      rw [forEach_cons] at h
      obtain ⟨_, s₁, hfirst, hrest⟩ := exists_of_bind_run_ok h
      rw [List.cons_append, forEach_cons, bind_run_ok hfirst]
      exact ih hrest

theorem entered_cons_ok {f : I → Exec S E Unit} {i : I} {s s' : S}
    (h : f i s = (.ok (), s')) (is : List I) :
    entered f (i :: is) s = (i, s) :: entered f is s' := by
  simp [entered, h]

theorem entered_cons_error {f : I → Exec S E Unit} {i : I} {s s' : S} {e : E}
    (h : f i s = (.error e, s')) (is : List I) :
    entered f (i :: is) s = [(i, s)] := by
  simp [entered, h]

theorem mem_of_mem_entered {f : I → Exec S E Unit} {is : List I} {s : S} {e : I × S}
    (h : e ∈ entered f is s) : e.1 ∈ is := by
  induction is generalizing s with
  | nil => simp [entered] at h
  | cons i is ih =>
      rcases hrun : f i s with ⟨_ | u, s'⟩
      · rw [entered_cons_error hrun, List.mem_singleton] at h
        simp [h]
      · rw [entered_cons_ok hrun] at h
        rcases List.mem_cons.1 h with rfl | h
        · simp
        · exact List.mem_cons_of_mem i (ih h)

/-- An invariant of a loop, when every iteration that is started meets a side
condition on its item and on the state it starts from. -/
theorem forEach_invariant {f : I → Exec S E Unit} {J : S → Prop} {C : I → S → Prop}
    (hstep : ∀ i s, J s → C i s → J (f i s).2) {is : List I} {s : S} (hs : J s)
    (hside : ∀ e ∈ entered f is s, C e.1 e.2) : J (forEach f is s).2 := by
  induction is generalizing s with
  | nil => exact hs
  | cons i is ih =>
      rcases hrun : f i s with ⟨_ | u, s'⟩
      · rw [entered_cons_error hrun] at hside
        rw [forEach_cons, bind_run_error hrun]
        have hnext := hstep i s hs (hside (i, s) (by simp))
        rwa [hrun] at hnext
      · rw [entered_cons_ok hrun] at hside
        rw [forEach_cons, bind_run_ok hrun]
        have hnext := hstep i s hs (hside (i, s) (by simp))
        rw [hrun] at hnext
        exact ih hnext fun e he => hside e (List.mem_cons_of_mem _ he)

/-! ## What a command can do to the state

`Within R m` relates the state before `m` to the state after it, whether `m`
returned or failed.  Over a reflexive and transitive `R` it composes. -/

def Within (R : S → S → Prop) (m : Exec S E A) : Prop := ∀ s, R s (m s).2

namespace Within

variable {R : S → S → Prop} {m : Exec S E A}

theorem pure (hrefl : ∀ s, R s s) (a : A) : Within R (Pure.pure a : Exec S E A) :=
  fun s => hrefl s

theorem fail (hrefl : ∀ s, R s s) (e : E) : Within R (Exec.fail e : Exec S E A) :=
  fun s => hrefl s

theorem gets (hrefl : ∀ s, R s s) (f : S → A) : Within R (Exec.gets f : Exec S E A) :=
  fun s => hrefl s

theorem modify {f : S → S} (h : ∀ s, R s (f s)) : Within R (Exec.modify f : Exec S E Unit) := h

theorem attempt {F : Type} (hm : Within R m) :
    Within R (Exec.attempt m : Exec S F (Except E A)) := hm

theorem mapErr {F : Type} (f : E → F) (hm : Within R m) : Within R (Exec.mapErr f m) := by
  intro s
  rw [mapErr_state]
  exact hm s

/-- The first command already establishes `R`, and the second cannot undo it. -/
theorem bind_left {Q : S → S → Prop} (h : ∀ a b c, R a b → Q b c → R a c)
    {f : A → Exec S E B} (hm : Within R m) (hf : ∀ a, Within Q (f a)) : Within R (m >>= f) := by
  intro s
  have hfirst := hm s
  rcases hrun : m s with ⟨r, s'⟩
  rw [hrun] at hfirst
  cases r with
  | ok a =>
      rw [bind_run_ok hrun]
      exact h _ _ _ hfirst (hf a s')
  | error e =>
      rw [bind_run_error hrun]
      exact hfirst

theorem bind (htrans : ∀ a b c, R a b → R b c → R a c) {f : A → Exec S E B}
    (hm : Within R m) (hf : ∀ a, Within R (f a)) : Within R (m >>= f) :=
  bind_left htrans hm hf

/-- The first command cannot fail, and the second establishes `R`. -/
theorem bind_right {Q : S → S → Prop} (h : ∀ a b c, Q a b → R b c → R a c)
    {f : A → Exec S E B} (hm : Within Q m) (hok : ∀ s, ∃ a, (m s).1 = .ok a)
    (hf : ∀ a, Within R (f a)) : Within R (m >>= f) := by
  intro s
  have hfirst := hm s
  obtain ⟨a, ha⟩ := hok s
  rcases hrun : m s with ⟨r, s'⟩
  rw [hrun] at hfirst ha
  dsimp only at ha
  subst ha
  rw [bind_run_ok hrun]
  exact h _ _ _ hfirst (hf a s')

end Within

/-! ## Two runs side by side -/

/-- The commands return the same and keep their states related. -/
def Sim {T : Type} (r : S → T → Prop) (m : Exec S E A) (n : Exec T E A) : Prop :=
  ∀ s t, r s t → (m s).1 = (n t).1 ∧ r (m s).2 (n t).2

namespace Sim

variable {T : Type} {r : S → T → Prop} {m : Exec S E A} {n : Exec T E A}

theorem pure (a : A) : Sim r (Pure.pure a : Exec S E A) (Pure.pure a) :=
  fun _ _ h => ⟨rfl, h⟩

theorem fail (e : E) : Sim r (Exec.fail e : Exec S E A) (Exec.fail e) :=
  fun _ _ h => ⟨rfl, h⟩

theorem gets {f : S → A} {g : T → A} (h : ∀ s t, r s t → f s = g t) :
    Sim r (Exec.gets f : Exec S E A) (Exec.gets g) :=
  fun s t hst => ⟨congrArg Except.ok (h s t hst), hst⟩

theorem modify {f : S → S} {g : T → T} (h : ∀ s t, r s t → r (f s) (g t)) :
    Sim r (Exec.modify f : Exec S E Unit) (Exec.modify g) :=
  fun s t hst => ⟨rfl, h s t hst⟩

theorem bind {f : A → Exec S E B} {g : A → Exec T E B} (hm : Sim r m n)
    (hf : ∀ a, Sim r (f a) (g a)) : Sim r (m >>= f) (n >>= g) := by
  intro s t hst
  obtain ⟨hval, hstate⟩ := hm s t hst
  rcases hrun : m s with ⟨a, s'⟩
  rcases hrun' : n t with ⟨a', t'⟩
  rw [hrun, hrun'] at hval hstate
  dsimp only at hval hstate
  subst hval
  cases a with
  | ok a =>
      rw [bind_run_ok hrun, bind_run_ok hrun']
      exact hf a s' t' hstate
  | error e =>
      rw [bind_run_error hrun, bind_run_error hrun']
      exact ⟨rfl, hstate⟩

theorem attempt {F : Type} (hm : Sim r m n) :
    Sim r (Exec.attempt m : Exec S F (Except E A)) (Exec.attempt n) :=
  fun s t hst => ⟨congrArg Except.ok (hm s t hst).1, (hm s t hst).2⟩

theorem mapErr {F : Type} (f : E → F) (hm : Sim r m n) :
    Sim r (Exec.mapErr f m) (Exec.mapErr f n) := by
  intro s t hst
  obtain ⟨hval, hstate⟩ := hm s t hst
  refine ⟨?_, by simpa using hstate⟩
  rcases hrun : m s with ⟨_ | _, _⟩ <;> rcases hrun' : n t with ⟨_ | _, _⟩ <;>
    simp_all [Exec.mapErr]

theorem forEach {f : I → Exec S E Unit} {g : I → Exec T E Unit} (h : ∀ i, Sim r (f i) (g i))
    (is : List I) : Sim r (Exec.forEach f is) (Exec.forEach g is) := by
  induction is with
  | nil => exact fun _ _ hst => ⟨rfl, hst⟩
  | cons i is ih => exact bind (h i) fun _ => ih

end Sim

end Exec

end Codewith.Lib
