import Codewith.Lib.Text

/-!
# Key events and keymaps

A keymap lists the keys of every action.  Keys are compared after normalisation, since terminals
report upper case letters and control characters in more than one way.
-/

namespace Codewith.Composer

inductive KeyCode
  | backspace | enter | left | right | up | down | home | endKey | pageUp | pageDown | tab | backTab
  | delete | insert | null | esc | capsLock | scrollLock | numLock | printScreen | pause | menu
  | keypadBegin
  | f (number : Nat)
  | char (c : Char)
  | media (code : Nat)
  | modifier (code : Nat)
deriving DecidableEq, Repr

structure KeyModifiers where
  shift : Bool := false
  control : Bool := false
  alt : Bool := false
  superKey : Bool := false
  hyper : Bool := false
  metaKey : Bool := false
deriving DecidableEq, Repr

namespace KeyModifiers

def none : KeyModifiers := {}

def shiftOnly : KeyModifiers := { shift := true }

def controlOnly : KeyModifiers := { control := true }

end KeyModifiers

inductive KeyEventKind
  | press | repeat | release
deriving DecidableEq, Repr

structure KeyEvent where
  code : KeyCode
  modifiers : KeyModifiers
  kind : KeyEventKind
deriving DecidableEq, Repr

def KeyEventKind.isPressOrRepeat : KeyEventKind → Bool
  | press | .repeat => true
  | release => false

/-- `is_altgr`, which Windows reports as two modifiers. -/
def isAltgr (windows : Bool) (modifiers : KeyModifiers) : Bool :=
  windows && modifiers.alt && modifiers.control

/-! ### Bindings -/

structure KeyBinding where
  key : KeyCode
  modifiers : KeyModifiers
deriving DecidableEq, Repr

def c0ControlCharToCtrlChar (c : Char) : Option Char :=
  if c.toNat = 0 then some ' '
  else if 1 ≤ c.toNat ∧ c.toNat ≤ 0x1a then some (Char.ofNat (c.toNat - 1 + 'a'.toNat))
  else if 0x1c ≤ c.toNat ∧ c.toNat ≤ 0x1f then some (Char.ofNat (c.toNat - 0x1c + '4'.toNat))
  else none

def normalizeKeyParts (key : KeyCode) (modifiers : KeyModifiers) : KeyCode × KeyModifiers :=
  match key with
  | .backTab => (.tab, { modifiers with shift := true })
  | .char c =>
      match (if modifiers = KeyModifiers.none then c0ControlCharToCtrlChar c else none) with
      | some ctrl => (.char ctrl, { modifiers with control := true })
      | none =>
          if c.isUpper then (.char c.toLower, { modifiers with shift := true })
          else (key, modifiers)
  | _ => (key, modifiers)

def KeyBinding.isPress (binding : KeyBinding) (event : KeyEvent) : Bool :=
  normalizeKeyParts binding.key binding.modifiers == normalizeKeyParts event.code event.modifiers &&
    event.kind.isPressOrRepeat

def plain (key : KeyCode) : KeyBinding := ⟨key, KeyModifiers.none⟩

def alt (key : KeyCode) : KeyBinding := ⟨key, { alt := true }⟩

def shift (key : KeyCode) : KeyBinding := ⟨key, KeyModifiers.shiftOnly⟩

def ctrl (key : KeyCode) : KeyBinding := ⟨key, KeyModifiers.controlOnly⟩

abbrev KeyBindings := List KeyBinding

def KeyBindings.isPressed (bindings : KeyBindings) (event : KeyEvent) : Bool :=
  bindings.any fun binding => binding.isPress event

/-! ### Keymaps -/

structure EditorKeymap where
  insertNewline : KeyBindings
  moveLeft : KeyBindings
  moveRight : KeyBindings
  moveUp : KeyBindings
  moveDown : KeyBindings
  moveWordLeft : KeyBindings
  moveWordRight : KeyBindings
  moveLineStart : KeyBindings
  moveLineEnd : KeyBindings
  deleteBackward : KeyBindings
  deleteForward : KeyBindings
  deleteBackwardWord : KeyBindings
  deleteForwardWord : KeyBindings
  killLineStart : KeyBindings
  killWholeLine : KeyBindings
  killLineEnd : KeyBindings
  yank : KeyBindings
deriving DecidableEq, Repr

structure VimNormalKeymap where
  enterInsert : KeyBindings
  appendAfterCursor : KeyBindings
  appendLineEnd : KeyBindings
  insertLineStart : KeyBindings
  openLineBelow : KeyBindings
  openLineAbove : KeyBindings
  moveLeft : KeyBindings
  moveRight : KeyBindings
  moveUp : KeyBindings
  moveDown : KeyBindings
  moveWordForward : KeyBindings
  moveWordBackward : KeyBindings
  moveWordEnd : KeyBindings
  moveLineStart : KeyBindings
  moveLineEnd : KeyBindings
  deleteChar : KeyBindings
  substituteChar : KeyBindings
  deleteToLineEnd : KeyBindings
  changeToLineEnd : KeyBindings
  yankLine : KeyBindings
  pasteAfter : KeyBindings
  startDeleteOperator : KeyBindings
  startYankOperator : KeyBindings
  startChangeOperator : KeyBindings
  cancelOperator : KeyBindings
deriving DecidableEq, Repr

structure VimOperatorKeymap where
  deleteLine : KeyBindings
  yankLine : KeyBindings
  motionLeft : KeyBindings
  motionRight : KeyBindings
  motionDown : KeyBindings
  motionUp : KeyBindings
  motionWordForward : KeyBindings
  motionWordBackward : KeyBindings
  motionWordEnd : KeyBindings
  motionLineStart : KeyBindings
  motionLineEnd : KeyBindings
  selectInnerTextObject : KeyBindings
  selectAroundTextObject : KeyBindings
  cancel : KeyBindings
deriving DecidableEq, Repr

structure VimTextObjectKeymap where
  word : KeyBindings
  bigWord : KeyBindings
  parentheses : KeyBindings
  brackets : KeyBindings
  braces : KeyBindings
  doubleQuote : KeyBindings
  singleQuote : KeyBindings
  backtick : KeyBindings
  cancel : KeyBindings
deriving DecidableEq, Repr

/-- The keymaps that the text area keeps. -/
structure RuntimeKeymap where
  editor : EditorKeymap
  vimNormal : VimNormalKeymap
  vimOperator : VimOperatorKeymap
  vimTextObject : VimTextObjectKeymap
deriving DecidableEq, Repr

def EditorKeymap.defaults : EditorKeymap where
  insertNewline := [ctrl (.char 'j'), ctrl (.char 'm'), plain .enter, shift .enter, alt .enter]
  moveLeft := [plain .left, ctrl (.char 'b')]
  moveRight := [plain .right, ctrl (.char 'f')]
  moveUp := [plain .up, ctrl (.char 'p')]
  moveDown := [plain .down, ctrl (.char 'n')]
  moveWordLeft := [alt (.char 'b'), alt .left, ctrl .left]
  moveWordRight := [alt (.char 'f'), alt .right, ctrl .right]
  moveLineStart := [plain .home, ctrl (.char 'a')]
  moveLineEnd := [plain .endKey, ctrl (.char 'e')]
  deleteBackward := [plain .backspace, shift .backspace, ctrl (.char 'h')]
  deleteForward := [plain .delete, shift .delete, ctrl (.char 'd')]
  deleteBackwardWord :=
    [alt .backspace, ctrl .backspace, ⟨.backspace, { control := true, shift := true }⟩,
      ctrl (.char 'w'), ⟨.char 'h', { control := true, alt := true }⟩]
  deleteForwardWord :=
    [alt .delete, ctrl .delete, ⟨.delete, { control := true, shift := true }⟩, alt (.char 'd')]
  killLineStart := [ctrl (.char 'u')]
  killWholeLine := []
  killLineEnd := [ctrl (.char 'k')]
  yank := [ctrl (.char 'y')]

def VimNormalKeymap.defaults : VimNormalKeymap where
  enterInsert := [plain (.char 'i'), plain .insert]
  appendAfterCursor := [plain (.char 'a')]
  appendLineEnd := [shift (.char 'a'), plain (.char 'A')]
  insertLineStart := [shift (.char 'i'), plain (.char 'I')]
  openLineBelow := [plain (.char 'o')]
  openLineAbove := [shift (.char 'o'), plain (.char 'O')]
  moveLeft := [plain (.char 'h'), plain .left]
  moveRight := [plain (.char 'l'), plain .right]
  moveUp := [plain (.char 'k'), plain .up]
  moveDown := [plain (.char 'j'), plain .down]
  moveWordForward := [plain (.char 'w')]
  moveWordBackward := [plain (.char 'b')]
  moveWordEnd := [plain (.char 'e')]
  moveLineStart := [plain (.char '0')]
  moveLineEnd := [plain (.char '$'), shift (.char '$')]
  deleteChar := [plain (.char 'x')]
  substituteChar := [plain (.char 's')]
  deleteToLineEnd := [shift (.char 'd'), plain (.char 'D')]
  changeToLineEnd := [shift (.char 'c'), plain (.char 'C')]
  yankLine := [shift (.char 'y'), plain (.char 'Y')]
  pasteAfter := [plain (.char 'p')]
  startDeleteOperator := [plain (.char 'd')]
  startYankOperator := [plain (.char 'y')]
  startChangeOperator := [plain (.char 'c')]
  cancelOperator := [plain .esc]

def VimOperatorKeymap.defaults : VimOperatorKeymap where
  deleteLine := [plain (.char 'd')]
  yankLine := [plain (.char 'y')]
  motionLeft := [plain (.char 'h')]
  motionRight := [plain (.char 'l')]
  motionUp := [plain (.char 'k')]
  motionDown := [plain (.char 'j')]
  motionWordForward := [plain (.char 'w')]
  motionWordBackward := [plain (.char 'b')]
  motionWordEnd := [plain (.char 'e')]
  motionLineStart := [plain (.char '0')]
  motionLineEnd := [plain (.char '$'), shift (.char '$')]
  selectInnerTextObject := [plain (.char 'i')]
  selectAroundTextObject := [plain (.char 'a')]
  cancel := [plain .esc]

def VimTextObjectKeymap.defaults : VimTextObjectKeymap where
  word := [plain (.char 'w')]
  bigWord := [shift (.char 'w'), plain (.char 'W')]
  parentheses :=
    [plain (.char '('), shift (.char '('), plain (.char ')'), shift (.char ')'), plain (.char 'b')]
  brackets := [plain (.char '['), plain (.char ']')]
  braces :=
    [plain (.char '\x7b'), shift (.char '\x7b'), plain (.char '\x7d'), shift (.char '\x7d'),
      shift (.char 'b'), plain (.char 'B')]
  doubleQuote := [plain (.char '\x22'), shift (.char '\x22')]
  singleQuote := [plain (.char '\x27')]
  backtick := [plain (.char '\x60')]
  cancel := [plain .esc]

end Codewith.Composer
