import Codewith.Lib.Text

/-!
# Quote removal

How a shell reads the quotes of a word: a backslash keeps the next character, single quotes
keep everything up to the next one, and between double quotes a backslash keeps only some
characters.  `removeQuotes` reads a text character by character, so that a text can be read
piece by piece.

Before it removes the quotes, a shell may make several words of one: `BraceExpansion`.
-/

namespace Codewith.Lib

inductive QuoteState
  | unquoted
  | escaped
  | single
  | double
  | doubleEscaped
  deriving DecidableEq, Repr

/-- The characters that a backslash keeps between double quotes, besides a line break. -/
def isKeptInDouble (c : Char) : Bool := c = '$' ∨ c = '\x60' ∨ c = '"' ∨ c = '\\'

namespace QuoteState

def next (state : QuoteState) (c : Char) : QuoteState :=
  match state with
  | unquoted =>
      if c = '\\' then escaped else if c = '\'' then single else if c = '"' then double
      else unquoted
  | escaped => unquoted
  | single => if c = '\'' then unquoted else single
  | double => if c = '\\' then doubleEscaped else if c = '"' then unquoted else double
  | doubleEscaped => double

/-- What is left of a character.  An escaped line break is a continuation and leaves
nothing. -/
def emit (state : QuoteState) (c : Char) : Text :=
  match state with
  | unquoted => if c = '\\' ∨ c = '\'' ∨ c = '"' then [] else [c]
  | escaped => if c = '\n' then [] else [c]
  | single => if c = '\'' then [] else [c]
  | double => if c = '\\' ∨ c = '"' then [] else [c]
  | doubleEscaped =>
      if c = '\n' then [] else if isKeptInDouble c then [c] else ['\\', c]

end QuoteState

def finalState (state : QuoteState) (s : Text) : QuoteState := s.foldl QuoteState.next state

def removeQuotes (state : QuoteState) : Text → Text
  | [] => []
  | c :: s => state.emit c ++ removeQuotes (state.next c) s

@[simp] theorem finalState_nil (state : QuoteState) : finalState state [] = state := rfl

@[simp] theorem finalState_cons (state : QuoteState) (c : Char) (s : Text) :
    finalState state (c :: s) = finalState (state.next c) s :=
  rfl

@[simp] theorem removeQuotes_nil (state : QuoteState) : removeQuotes state [] = [] := rfl

@[simp] theorem removeQuotes_cons (state : QuoteState) (c : Char) (s : Text) :
    removeQuotes state (c :: s) = state.emit c ++ removeQuotes (state.next c) s :=
  rfl

theorem removeQuotes_append (state : QuoteState) (a b : Text) :
    removeQuotes state (a ++ b) =
      removeQuotes state a ++ removeQuotes (finalState state a) b := by
  induction a generalizing state with
  | nil => rfl
  | cons c a ih => simp [ih]

theorem finalState_append (state : QuoteState) (a b : Text) :
    finalState state (a ++ b) = finalState (finalState state a) b :=
  List.foldl_append

/-! ### Texts that are read as a whole -/

/-- A text without quotes in which every backslash is followed by a character. -/
inductive WordText : Text → Prop
  | nil : WordText []
  | plain {s : Text} (c : Char) (hbackslash : c ≠ '\\') (hsingle : c ≠ '\'') (hdouble : c ≠ '"')
      (h : WordText s) : WordText (c :: s)
  | escape {s : Text} (c : Char) (h : WordText s) : WordText ('\\' :: c :: s)

/-- What can stand between double quotes. -/
inductive DoubleQuotedText : Text → Prop
  | nil : DoubleQuotedText []
  | plain {s : Text} (c : Char) (hbackslash : c ≠ '\\') (hdouble : c ≠ '"')
      (h : DoubleQuotedText s) : DoubleQuotedText (c :: s)
  | escape {s : Text} (c : Char) (h : DoubleQuotedText s) : DoubleQuotedText ('\\' :: c :: s)

/-- A backslash stands directly before a character that it keeps. -/
def HasKeptEscape (s : Text) : Prop := ∃ c, (c = '\n' ∨ isKeptInDouble c) ∧ ['\\', c] <:+: s

/-- A text and what is taken for it: the text is closed, and the two agree exactly if the
condition holds, what the shell reads being no longer otherwise. -/
structure ReadAs (s taken : Text) (condition : Prop) : Prop where
  closed : finalState .unquoted s = .unquoted
  length_le : (removeQuotes .unquoted s).length ≤ taken.length
  eq_iff : taken = removeQuotes .unquoted s ↔ condition

theorem removeQuotes_escape (c : Char) (s : Text) :
    removeQuotes .unquoted ('\\' :: c :: s) =
      QuoteState.escaped.emit c ++ removeQuotes .unquoted s :=
  rfl

theorem removeQuotes_double_escape (c : Char) (s : Text) :
    removeQuotes .double ('\\' :: c :: s) =
      QuoteState.doubleEscaped.emit c ++ removeQuotes .double s :=
  rfl

theorem length_emit_escaped_le (c : Char) : (QuoteState.escaped.emit c).length ≤ 1 := by
  unfold QuoteState.emit
  dsimp only
  split
  · exact Nat.zero_le 1
  · exact Nat.le_refl 1

theorem length_emit_doubleEscaped_le (c : Char) :
    (QuoteState.doubleEscaped.emit c).length ≤ 2 := by
  unfold QuoteState.emit
  dsimp only
  split_ifs
  · exact Nat.zero_le 2
  · exact Nat.le_succ 1
  · exact Nat.le_refl 2

theorem WordText.finalState_eq {s : Text} (h : WordText s) :
    finalState .unquoted s = .unquoted := by
  induction h with
  | nil => rfl
  | plain c hbackslash hsingle hdouble h ih =>
      simp [QuoteState.next, hbackslash, hsingle, hdouble, ih]
  | escape c h ih => simp [QuoteState.next, ih]

theorem WordText.length_le {s : Text} (h : WordText s) :
    (removeQuotes .unquoted s).length ≤ s.length := by
  induction h with
  | nil => rfl
  | plain c hbackslash hsingle hdouble h ih =>
      simpa [QuoteState.next, QuoteState.emit, hbackslash, hsingle, hdouble] using ih
  | escape c h ih =>
      have hemit := length_emit_escaped_le c
      rw [removeQuotes_escape, List.length_append, List.length_cons, List.length_cons]
      omega

/-- A word is read as it stands exactly if it has no backslash. -/
theorem WordText.readAs {s : Text} (h : WordText s) : ReadAs s s ('\\' ∉ s) := by
  refine ⟨h.finalState_eq, h.length_le, ?_⟩
  induction h with
  | nil => simp
  | plain c hbackslash hsingle hdouble h ih =>
      simp [QuoteState.next, QuoteState.emit, hbackslash, hsingle, hdouble, Ne.symm hbackslash, ih]
  | @escape s c h ih =>
      have hlength := h.length_le
      have hemit := length_emit_escaped_le c
      simp only [List.mem_cons, true_or, not_true_eq_false, iff_false]
      intro heq
      have hshort := congrArg List.length heq
      rw [removeQuotes_escape, List.length_append, List.length_cons, List.length_cons] at hshort
      omega

theorem wordText_of_plain {s : Text} (h : ∀ c ∈ s, c ≠ '\\' ∧ c ≠ '\'' ∧ c ≠ '"') :
    WordText s := by
  induction s with
  | nil => exact .nil
  | cons c s ih =>
      obtain ⟨hbackslash, hsingle, hdouble⟩ := h c (List.mem_cons_self ..)
      exact .plain c hbackslash hsingle hdouble (ih fun d hd => h d (List.mem_cons_of_mem c hd))

/-- A text without quotes and backslashes is read as it stands. -/
theorem readAs_self_of_plain {s : Text} (h : ∀ c ∈ s, c ≠ '\\' ∧ c ≠ '\'' ∧ c ≠ '"') :
    ReadAs s s True := by
  have hread := (wordText_of_plain h).readAs
  refine ⟨hread.closed, hread.length_le, iff_true_intro (hread.eq_iff.mpr ?_)⟩
  intro hmem
  exact (h _ hmem).1 rfl

theorem finalState_single {s : Text} (h : '\'' ∉ s) : finalState .single s = .single := by
  induction s with
  | nil => rfl
  | cons c s ih =>
      obtain ⟨hc, hs⟩ := List.ne_and_not_mem_of_not_mem_cons h
      simp [QuoteState.next, Ne.symm hc, ih hs]

theorem removeQuotes_single {s : Text} (h : '\'' ∉ s) : removeQuotes .single s = s := by
  induction s with
  | nil => rfl
  | cons c s ih =>
      obtain ⟨hc, hs⟩ := List.ne_and_not_mem_of_not_mem_cons h
      simp [QuoteState.next, QuoteState.emit, Ne.symm hc, ih hs]

/-- Between single quotes everything is read as it stands. -/
theorem readAs_single {s : Text} (h : '\'' ∉ s) : ReadAs ('\'' :: (s ++ ['\''])) s True := by
  have hremove : removeQuotes .unquoted ('\'' :: (s ++ ['\''])) = s := by
    simp [QuoteState.emit, QuoteState.next, removeQuotes_append, removeQuotes_single h,
      finalState_single h]
  refine ⟨?_, by rw [hremove], by simp [hremove]⟩
  simp [QuoteState.next, finalState_append, finalState_single h]

theorem DoubleQuotedText.finalState_eq {s : Text} (h : DoubleQuotedText s) :
    finalState .double s = .double := by
  induction h with
  | nil => rfl
  | plain c hbackslash hdouble h ih => simp [QuoteState.next, hbackslash, hdouble, ih]
  | escape c h ih => simp [QuoteState.next, ih]

theorem DoubleQuotedText.length_le {s : Text} (h : DoubleQuotedText s) :
    (removeQuotes .double s).length ≤ s.length := by
  induction h with
  | nil => rfl
  | plain c hbackslash hdouble h ih =>
      simpa [QuoteState.next, QuoteState.emit, hbackslash, hdouble] using ih
  | escape c h ih =>
      have hemit := length_emit_doubleEscaped_le c
      rw [removeQuotes_double_escape, List.length_append, List.length_cons, List.length_cons]
      omega

theorem hasKeptEscape_cons_of_ne {c : Char} (hc : c ≠ '\\') (s : Text) :
    HasKeptEscape (c :: s) ↔ HasKeptEscape s := by
  simp [HasKeptEscape, List.infix_cons_iff, Ne.symm hc]

/-- The first backslash that keeps its character is not itself kept by another one. -/
theorem hasKeptEscape_escape (c : Char) (s : Text) :
    HasKeptEscape ('\\' :: c :: s) ↔ (c = '\n' ∨ isKeptInDouble c) ∨ HasKeptEscape s := by
  constructor
  · rintro ⟨d, hd, hinfix⟩
    rcases List.infix_cons_iff.mp hinfix with hfirst | hrest
    · rw [List.cons_prefix_cons] at hfirst
      have hd' := (List.cons_prefix_cons.mp hfirst.2).1
      exact .inl (hd' ▸ hd)
    · by_cases hc : c = '\\'
      · exact .inl (.inr (by simp [hc, isKeptInDouble]))
      · exact .inr ((hasKeptEscape_cons_of_ne hc s).mp ⟨d, hd, hrest⟩)
  · rintro (hc | ⟨d, hd, hinfix⟩)
    · exact ⟨c, hc, List.infix_cons_iff.mpr (.inl (by simp))⟩
    · exact ⟨d, hd, hinfix.trans ((List.suffix_append ['\\', c] s).isInfix)⟩

theorem DoubleQuotedText.eq_iff {s : Text} (h : DoubleQuotedText s) :
    s = removeQuotes .double s ↔ ¬ HasKeptEscape s := by
  induction h with
  | nil => simp [HasKeptEscape]
  | plain c hbackslash hdouble h ih =>
      rw [hasKeptEscape_cons_of_ne hbackslash, ← ih]
      simp [QuoteState.next, QuoteState.emit, hbackslash, hdouble]
  | @escape s c h ih =>
      have hlength := h.length_le
      rw [hasKeptEscape_escape, removeQuotes_double_escape, not_or, ← ih]
      by_cases hkept : c = '\n' ∨ isKeptInDouble c = true
      · have hemit : (QuoteState.doubleEscaped.emit c).length ≤ 1 := by
          unfold QuoteState.emit
          dsimp only
          split_ifs
          · exact Nat.zero_le 1
          · exact Nat.le_refl 1
          · simp_all
        refine iff_of_false ?_ fun h => h.1 hkept
        intro heq
        have hshort := congrArg List.length heq
        rw [List.length_append, List.length_cons, List.length_cons] at hshort
        omega
      · rw [not_or] at hkept
        simp [QuoteState.emit, hkept.1, hkept.2]

/-- Between double quotes a text is read as it stands exactly if no backslash in it keeps a
character. -/
theorem DoubleQuotedText.readAs {s : Text} (h : DoubleQuotedText s) :
    ReadAs ('"' :: (s ++ ['"'])) s (¬ HasKeptEscape s) := by
  have hremove : removeQuotes .unquoted ('"' :: (s ++ ['"'])) = removeQuotes .double s := by
    simp [QuoteState.emit, QuoteState.next, removeQuotes_append, h.finalState_eq]
  refine ⟨?_, by rw [hremove]; exact h.length_le, by rw [hremove]; exact h.eq_iff⟩
  simp [QuoteState.next, finalState_append, h.finalState_eq]

/-- Texts that are read one after the other. -/
theorem ReadAs.append {s s' taken taken' : Text} {condition condition' : Prop}
    (h : ReadAs s taken condition) (h' : ReadAs s' taken' condition') :
    ReadAs (s ++ s') (taken ++ taken') (condition ∧ condition') := by
  have hremove : removeQuotes .unquoted (s ++ s') =
      removeQuotes .unquoted s ++ removeQuotes .unquoted s' := by
    rw [removeQuotes_append, h.closed]
  have hle := h.length_le
  have hle' := h'.length_le
  refine ⟨?_, ?_, ?_⟩
  · rw [finalState_append, h.closed, h'.closed]
  · rw [hremove, List.length_append, List.length_append]
    omega
  · rw [hremove, ← h.eq_iff, ← h'.eq_iff]
    constructor
    · intro heq
      have hlength := congrArg List.length heq
      rw [List.length_append, List.length_append] at hlength
      exact List.append_inj heq (by omega)
    · rintro ⟨heq, heq'⟩
      rw [← heq, ← heq']

theorem ReadAs.nil : ReadAs [] [] True := ⟨rfl, Nat.le_refl 0, by simp⟩

/-! ### Brace expansion -/

/-- The characters that are neither quoted nor quotes themselves. -/
def unquotedChars (state : QuoteState) : Text → Text
  | [] => []
  | c :: s => (if state = .unquoted then state.emit c else []) ++ unquotedChars (state.next c) s

/-- What a shell makes of a word by replacing its braces with each of the alternatives between
them; words that become empty are dropped.  Without an opening and a closing brace outside
quotes a word is left as it is, and a single word that replaces another has lost the braces. -/
structure BraceExpansion where
  expand : Text → List Text
  expand_of_noBraces : ∀ s,
    '\x7b' ∉ unquotedChars .unquoted s ∨ '\x7d' ∉ unquotedChars .unquoted s → expand s = [s]
  shorter_of_single : ∀ s word, expand s = [word] → word = s ∨
    (removeQuotes .unquoted word).length < (removeQuotes .unquoted s).length

/-- The words that a shell reads in the place of one. -/
def BraceExpansion.words (shell : BraceExpansion) (s : Text) : List Text :=
  (shell.expand s).map (removeQuotes .unquoted)

/-- What is taken for a text is the one word that the shell reads in its place exactly if the
shell reads the text so and expands no braces in it. -/
theorem ReadAs.words_eq_iff {s taken : Text} {condition : Prop} (h : ReadAs s taken condition)
    (shell : BraceExpansion) :
    shell.words s = [taken] ↔ condition ∧ shell.expand s = [s] := by
  constructor
  · intro hwords
    obtain ⟨word, hword, htaken⟩ := List.map_eq_singleton_iff.mp hwords
    rcases shell.shorter_of_single s word hword with rfl | hshorter
    · exact ⟨h.eq_iff.mp htaken.symm, hword⟩
    · have hle := h.length_le
      rw [← htaken] at hle
      omega
  · rintro ⟨hcondition, hexpand⟩
    rw [BraceExpansion.words, hexpand, List.map_singleton, ← h.eq_iff.mpr hcondition]

end Codewith.Lib
