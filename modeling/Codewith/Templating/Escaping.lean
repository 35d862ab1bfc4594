import Codewith.Templating.Template

/-!
# Escaping a text

A text is turned into a template of itself by doubling its pairs of braces.  The scanner reads
the escaped text back with the same look-ahead: a run of braces of one kind is a number of whole
pairs, taken from the left, and at most one brace that no pair claims.
-/

namespace Codewith.Templating

open Codewith.Lib

/-- Double the pairs of a character, taken from the left without overlap. -/
def doublePairs (d : Char) : Text → Text
  | a :: b :: rest =>
      if a = d ∧ b = d then d :: d :: d :: d :: doublePairs d rest
      else a :: doublePairs d (b :: rest)
  | rest => rest

def escape (s : Text) : Text := doublePairs '\x7d' (doublePairs '\x7b' s)

section DoublePairs

variable {d a : Char} {s : Text}

@[simp] theorem doublePairs_nil : doublePairs d [] = [] := rfl

theorem doublePairs_pair : doublePairs d (d :: d :: s) = d :: d :: d :: d :: doublePairs d s := by
  rw [doublePairs, if_pos ⟨rfl, rfl⟩]

/-- A character that begins no pair stays. -/
theorem doublePairs_cons (h : ¬(a = d ∧ s.head? = some d)) :
    doublePairs d (a :: s) = a :: doublePairs d s := by
  cases s with
  | nil => rfl
  | cons b rest =>
      rw [doublePairs, if_neg]
      simpa using h

theorem doublePairs_cons_of_ne (h : a ≠ d) : doublePairs d (a :: s) = a :: doublePairs d s :=
  doublePairs_cons fun hpair => h hpair.1

/-- Doubling does not change how a text begins. -/
theorem head?_doublePairs : (doublePairs d s).head? = s.head? := by
  cases s with
  | nil => rfl
  | cons a rest =>
      by_cases hpair : a = d ∧ rest.head? = some d
      · obtain ⟨rfl, hhead⟩ := hpair
        obtain ⟨tail, rfl⟩ := List.head?_eq_some_iff.mp hhead
        rw [doublePairs_pair]
        rfl
      · rw [doublePairs_cons hpair]
        rfl

end DoublePairs

/-! ### The three ways an escaped text begins -/

section Escape

variable {c : Char} {s : Text}

/-- The character does not begin a pair of braces in front of the text. -/
def Single (c : Char) (s : Text) : Prop :=
  ¬(c = '\x7b' ∧ s.head? = some '\x7b') ∧ ¬(c = '\x7d' ∧ s.head? = some '\x7d')

theorem head?_escape : (escape s).head? = s.head? := by
  rw [escape, head?_doublePairs, head?_doublePairs]

theorem escape_opening :
    escape ('\x7b' :: '\x7b' :: s) = '\x7b' :: '\x7b' :: '\x7b' :: '\x7b' :: escape s := by
  have hne : '\x7b' ≠ '\x7d' := by decide
  rw [escape, doublePairs_pair]
  iterate 4 rw [doublePairs_cons_of_ne hne]
  rfl

theorem escape_closing :
    escape ('\x7d' :: '\x7d' :: s) = '\x7d' :: '\x7d' :: '\x7d' :: '\x7d' :: escape s := by
  have hne : '\x7d' ≠ '\x7b' := by decide
  rw [escape, doublePairs_cons_of_ne hne, doublePairs_cons_of_ne hne, doublePairs_pair]
  rfl

theorem escape_single (h : Single c s) : escape (c :: s) = c :: escape s := by
  rw [escape, doublePairs_cons h.1, doublePairs_cons]
  · rfl
  · rw [head?_doublePairs]
    exact h.2

/-- A character that begins no pair still begins none once the rest is escaped. -/
theorem Single.escape (h : Single c s) : Single c (escape s) := by
  rw [Single, head?_escape]
  exact h

end Escape

/-! ### Templates without placeholders -/

/-- The template is a text: all its segments are literals. -/
def Template.Spells (template : Template) (s : Text) : Prop :=
  ∃ literals : List Text, template.segments = literals.map .literal ∧ literals.flatten = s

theorem Template.Spells.pushLiteral {template : Template} {s : Text} (h : template.Spells s)
    (literal : Text) : (template.pushLiteral literal).Spells (s ++ literal) := by
  obtain ⟨literals, hsegments, rfl⟩ := h
  rw [Template.Spells, Template.pushLiteral]
  dsimp only
  rw [Codewith.Templating.pushLiteral, hsegments]
  by_cases hempty : literal = []
  · rw [if_pos hempty]
    exact ⟨literals, rfl, by simp [hempty]⟩
  rw [if_neg hempty]
  cases literals using List.reverseRecOn with
  | nil => exact ⟨[literal], rfl, by simp⟩
  | append_singleton init existing =>
      refine ⟨init ++ [existing ++ literal], ?_, ?_⟩
      · simp
      · simp

/-! ### Parsing an escaped text -/

namespace Template

variable {template : Template} {cursor : Nat} {pending : Text}

theorem parseFrom_opening (rest : Text) :
    parseFrom template cursor pending ('\x7b' :: '\x7b' :: '\x7b' :: '\x7b' :: rest) =
      parseFrom ((template.pushLiteral pending).pushLiteral ['\x7b', '\x7b']) (cursor + 4) []
        rest := by
  rw [parseFrom]

theorem parseFrom_closing (rest : Text) :
    parseFrom template cursor pending ('\x7d' :: '\x7d' :: '\x7d' :: '\x7d' :: rest) =
      parseFrom ((template.pushLiteral pending).pushLiteral ['\x7d', '\x7d']) (cursor + 4) []
        rest := by
  rw [parseFrom]

/-- A character that begins no pair of braces is read into the pending literal. -/
theorem parseFrom_single {c : Char} {rest : Text} (h : Single c rest) :
    parseFrom template cursor pending (c :: rest) =
      parseFrom template (cursor + c.utf8Size) (pending ++ [c]) rest := by
  have hopen : ∀ tail, c = '\x7b' → rest = '\x7b' :: tail → False := by
    rintro tail rfl rfl
    exact h.1 ⟨rfl, rfl⟩
  have hclose : ∀ tail, c = '\x7d' → rest = '\x7d' :: tail → False := by
    rintro tail rfl rfl
    exact h.2 ⟨rfl, rfl⟩
  rw [parseFrom]
  all_goals intros
  all_goals first | exact hopen _ ‹_› ‹_› | exact hclose _ ‹_› ‹_›

/-- The scanner reads an escaped text as that text, from wherever it stands. -/
theorem parseFrom_escape (s : Text) {template : Template} {before : Text}
    (hspells : template.Spells before) (cursor : Nat) (pending : Text) :
    ∃ parsed, parseFrom template cursor pending (escape s) = .ok parsed ∧
      parsed.placeholders = template.placeholders ∧ parsed.Spells (before ++ pending ++ s) := by
  match s with
  | [] =>
      refine ⟨template.pushLiteral pending, ?_, rfl, ?_⟩
      · rw [escape, doublePairs_nil, doublePairs_nil, parseFrom]
      · rw [List.append_nil]
        exact hspells.pushLiteral pending
  | c :: rest =>
      by_cases hopen : c = '\x7b' ∧ rest.head? = some '\x7b'
      · obtain ⟨rfl, hhead⟩ := hopen
        obtain ⟨tail, rfl⟩ := List.head?_eq_some_iff.mp hhead
        have hmid := (hspells.pushLiteral pending).pushLiteral ['\x7b', '\x7b']
        obtain ⟨parsed, hparse, hnames, htext⟩ := parseFrom_escape tail hmid (cursor + 4) []
        refine ⟨parsed, ?_, hnames, ?_⟩
        · rw [escape_opening, parseFrom_opening, hparse]
        · simpa using htext
      by_cases hclose : c = '\x7d' ∧ rest.head? = some '\x7d'
      · obtain ⟨rfl, hhead⟩ := hclose
        obtain ⟨tail, rfl⟩ := List.head?_eq_some_iff.mp hhead
        have hmid := (hspells.pushLiteral pending).pushLiteral ['\x7d', '\x7d']
        obtain ⟨parsed, hparse, hnames, htext⟩ := parseFrom_escape tail hmid (cursor + 4) []
        refine ⟨parsed, ?_, hnames, ?_⟩
        · rw [escape_closing, parseFrom_closing, hparse]
        · simpa using htext
      have hsingle : Single c rest := ⟨hopen, hclose⟩
      obtain ⟨parsed, hparse, hnames, htext⟩ :=
        parseFrom_escape rest hspells (cursor + c.utf8Size) (pending ++ [c])
      refine ⟨parsed, ?_, hnames, ?_⟩
      · rw [escape_single hsingle, parseFrom_single hsingle.escape, hparse]
      · simpa using htext
termination_by s.length

/-- A template without placeholders renders without values as the text it spells. -/
theorem render_nil {s : Text} (hnames : template.placeholders = ∅) (hspells : template.Spells s) :
    template.render [] = .ok s := by
  obtain ⟨literals, hsegments, rfl⟩ := hspells
  have hfold : ∀ (map : Std.TreeMap Text Text) (before : Text),
      (literals.map Segment.literal).foldlM (renderSegment map) before =
        .ok (before ++ literals.flatten) := by
    intro map before
    clear hsegments
    induction literals generalizing before with
    | nil => simp [pure, Except.pure]
    | cons literal literals ih =>
        rw [List.map_cons, List.foldlM_cons, renderSegment]
        simpa [bind, Except.bind] using ih (before ++ literal)
  have hcheck : template.checkNames ∅ = .ok () := by
    rw [checkNames, hnames]
    rfl
  rw [render, buildVariableMap, hsegments]
  simp only [List.foldlM_nil, pure, Except.pure, bind, Except.bind, hcheck]
  exact hfold ∅ []

/-- Escaping a text gives a template that renders to it. -/
theorem render_parse_escape (s : Text) :
    ∃ template, parse (escape s) = .ok template ∧ template.render [] = .ok s := by
  have hempty : Spells { placeholders := ∅, segments := [] } [] := ⟨[], rfl, rfl⟩
  obtain ⟨template, hparse, hnames, hspells⟩ := parseFrom_escape s hempty 0 []
  exact ⟨template, hparse, render_nil hnames hspells⟩

end Template

end Codewith.Templating
