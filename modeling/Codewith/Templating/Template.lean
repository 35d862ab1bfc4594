import Codewith.Lib.ByteSize
import Codewith.Lib.Text
import Mathlib.Tactic

/-!
# Strict templates

A name between double braces stands for its value, and four braces of one kind stand for two.  A
template is parsed once and rendered with values whose names are exactly its placeholders.

The scanner's position in the source is the number of bytes read, the text between
`literal_start` and it, and the rest of the source.
-/

namespace Codewith.Templating

open Codewith.Lib

inductive TemplateParseError
  | emptyPlaceholder (start : Nat)
  | nestedPlaceholder (start : Nat)
  | unmatchedClosingDelimiter (start : Nat)
  | unterminatedPlaceholder (start : Nat)
  deriving DecidableEq, Repr

inductive TemplateRenderError
  | duplicateValue (name : Text)
  | extraValue (name : Text)
  | missingValue (name : Text)
  deriving DecidableEq, Repr

inductive TemplateError
  | parse (error : TemplateParseError)
  | render (error : TemplateRenderError)
  deriving DecidableEq, Repr

inductive Segment
  | literal (text : Text)
  | placeholder (name : Text)
  deriving DecidableEq, Repr

structure Template where
  placeholders : Std.TreeSet Text
  segments : List Segment

/-! ### Parsing -/

/-- A literal joins the one before it. -/
def pushLiteral (segments : List Segment) (literal : Text) : List Segment :=
  if literal = [] then segments
  else match segments.getLast? with
    | some (.literal existing) => segments.dropLast ++ [.literal (existing ++ literal)]
    | _ => segments ++ [.literal literal]

/-- A placeholder's name, and the position after its closing delimiter. -/
structure ParsedPlaceholder where
  name : Text
  nextCursor : Nat
  rest : Text
  deriving DecidableEq, Repr

/-- The loop of `parse_placeholder`, with the text since `placeholder_start`. -/
def parsePlaceholderFrom (start cursor : Nat) (body : Text) :
    Text → Except TemplateParseError ParsedPlaceholder
  | '\x7b' :: '\x7b' :: _ => .error (.nestedPlaceholder start)
  | '\x7d' :: '\x7d' :: rest =>
      if Text.trim body = [] then .error (.emptyPlaceholder start)
      else .ok { name := Text.trim body, nextCursor := cursor + 2, rest }
  | c :: rest => parsePlaceholderFrom start (cursor + c.utf8Size) (body ++ [c]) rest
  | [] => .error (.unterminatedPlaceholder start)

/-- `rest` is what follows the opening delimiter at `start`. -/
def parsePlaceholder (start : Nat) (rest : Text) : Except TemplateParseError ParsedPlaceholder :=
  parsePlaceholderFrom start (start + 2) [] rest

theorem parsePlaceholderFrom_length {start cursor : Nat} {body rest : Text}
    {parsed : ParsedPlaceholder} (h : parsePlaceholderFrom start cursor body rest = .ok parsed) :
    parsed.rest.length ≤ rest.length := by
  induction cursor, body, rest using parsePlaceholderFrom.induct with
  | case1 cursor body tail => simp [parsePlaceholderFrom] at h
  | case2 cursor body tail hempty => simp [parsePlaceholderFrom, hempty] at h
  | case3 cursor body tail hname =>
      rw [parsePlaceholderFrom, if_neg hname] at h
      obtain rfl := Except.ok.inj h
      simp only [List.length_cons]
      omega
  | case4 cursor body c tail hopen hclose ih =>
      rw [parsePlaceholderFrom] at h
      · exact (ih h).trans (Nat.le_succ _)
      · exact hopen
      · exact hclose
  | case5 cursor body => simp [parsePlaceholderFrom] at h

theorem parsePlaceholder_length {start : Nat} {rest : Text} {parsed : ParsedPlaceholder}
    (h : parsePlaceholder start rest = .ok parsed) : parsed.rest.length ≤ rest.length :=
  parsePlaceholderFrom_length h

namespace Template

def pushLiteral (template : Template) (literal : Text) : Template :=
  { template with segments := Codewith.Templating.pushLiteral template.segments literal }

def pushPlaceholder (template : Template) (name : Text) : Template where
  placeholders := template.placeholders.insert name
  segments := template.segments ++ [.placeholder name]

/-- The loop of `parse`.  Escaped delimiters are looked for before placeholders. -/
def parseFrom (template : Template) (cursor : Nat) (pending : Text) (rest : Text) :
    Except TemplateParseError Template :=
  match rest with
  | '\x7b' :: '\x7b' :: '\x7b' :: '\x7b' :: rest =>
      parseFrom ((template.pushLiteral pending).pushLiteral ['\x7b', '\x7b']) (cursor + 4) [] rest
  | '\x7d' :: '\x7d' :: '\x7d' :: '\x7d' :: rest =>
      parseFrom ((template.pushLiteral pending).pushLiteral ['\x7d', '\x7d']) (cursor + 4) [] rest
  | '\x7b' :: '\x7b' :: rest =>
      match hparsed : parsePlaceholder cursor rest with
      | .error error => .error error
      | .ok parsed =>
          have := parsePlaceholder_length hparsed
          parseFrom ((template.pushLiteral pending).pushPlaceholder parsed.name)
            parsed.nextCursor [] parsed.rest
  | '\x7d' :: '\x7d' :: _ => .error (.unmatchedClosingDelimiter cursor)
  | c :: rest => parseFrom template (cursor + c.utf8Size) (pending ++ [c]) rest
  | [] => .ok (template.pushLiteral pending)
termination_by rest.length
decreasing_by all_goals simp only [List.length_cons]; omega

def parse (source : Text) : Except TemplateParseError Template :=
  parseFrom { placeholders := ∅, segments := [] } 0 [] source

end Template

/-! ### Rendering -/

def insertVariable (map : Std.TreeMap Text Text) (entry : Text × Text) :
    Except TemplateRenderError (Std.TreeMap Text Text) :=
  if map.contains entry.1 then .error (.duplicateValue entry.1)
  else .ok (map.insert entry.1 entry.2)

def buildVariableMap (values : List (Text × Text)) :
    Except TemplateRenderError (Std.TreeMap Text Text) :=
  values.foldlM insertVariable ∅

def renderSegment (values : Std.TreeMap Text Text) (rendered : Text) :
    Segment → Except TemplateRenderError Text
  | .literal literal => .ok (rendered ++ literal)
  | .placeholder name => match values[name]? with
      | some value => .ok (rendered ++ value)
      | none => .error (.missingValue name)

/-- Every placeholder has a value and every value a placeholder: the first name in order that
breaks this is reported. -/
def Template.checkNames (template : Template) (values : Std.TreeMap Text Text) :
    Except TemplateRenderError Unit :=
  match template.placeholders.toList.find? fun name => !values.contains name with
  | some name => .error (.missingValue name)
  | none => match values.keys.find? fun name => !template.placeholders.contains name with
      | some name => .error (.extraValue name)
      | none => .ok ()

namespace Template

def render (template : Template) (values : List (Text × Text)) :
    Except TemplateRenderError Text := do
  let map ← buildVariableMap values
  template.checkNames map
  template.segments.foldlM (renderSegment map) []

end Template

def render (template : Text) (values : List (Text × Text)) : Except TemplateError Text := do
  let template ← (Template.parse template).mapError .parse
  (template.render values).mapError .render

end Codewith.Templating
