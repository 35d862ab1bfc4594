import Codewith.Lib.Utf8
import Codewith.StreamParser.InlineHiddenTag

/-!
# Bytes for a text parser

`Utf8StreamParser` feeds a text parser from chunks of bytes that may end inside a character.  The
bytes of such a character stay buffered.  A chunk with invalid bytes is taken back as a whole.
-/

namespace Codewith.StreamParser

open Lib Lib.Utf8

inductive Utf8StreamParserError
  | invalidUtf8 (validUpTo errorLen : Nat)
  | incompleteUtf8AtEof
deriving DecidableEq, Repr

/-- What a parser of streamed text does with a chunk, and at the end. -/
class StreamTextParser (P : Type) (E : outParam Type) where
  pushStr : P → Text → P × StreamTextChunk E
  finish : P → P × StreamTextChunk E

structure Utf8StreamParser (P : Type) where
  inner : P
  pendingUtf8 : List UInt8 := []

namespace Utf8StreamParser

variable {P E : Type} [StreamTextParser P E]

def new (inner : P) : Utf8StreamParser P := { inner }

def pushBytes (parser : Utf8StreamParser P) (chunk : List UInt8) :
    Utf8StreamParser P × Except Utf8StreamParserError (StreamTextChunk E) :=
  let oldLen := parser.pendingUtf8.length
  let pending := parser.pendingUtf8 ++ chunk
  match fromUtf8 pending with
  | .ok text =>
      let (inner, out) := StreamTextParser.pushStr parser.inner text
      ({ inner, pendingUtf8 := [] }, .ok out)
  | .error err =>
      match err.errorLen with
      | some errorLen =>
          ({ parser with pendingUtf8 := pending.take oldLen },
            .error (.invalidUtf8 err.validUpTo errorLen))
      | none =>
          if err.validUpTo = 0 then ({ parser with pendingUtf8 := pending }, .ok {})
          else
            match fromUtf8 (pending.take err.validUpTo) with
            | .ok text =>
                let (inner, out) := StreamTextParser.pushStr parser.inner text
                ({ inner, pendingUtf8 := pending.drop err.validUpTo }, .ok out)
            | .error frontErr =>
                ({ parser with pendingUtf8 := pending.take oldLen },
                  .error (.invalidUtf8 frontErr.validUpTo (frontErr.errorLen.getD 0)))

def finish (parser : Utf8StreamParser P) :
    Utf8StreamParser P × Except Utf8StreamParserError (StreamTextChunk E) :=
  let close (parser : Utf8StreamParser P) (out : StreamTextChunk E) :=
    let (inner, tail) := StreamTextParser.finish parser.inner
    ({ parser with inner },
      Except.ok { visibleText := out.visibleText ++ tail.visibleText
                  extracted := out.extracted ++ tail.extracted })
  if parser.pendingUtf8 = [] then close parser {}
  else
    match fromUtf8 parser.pendingUtf8 with
    | .error { validUpTo, errorLen := some errorLen } =>
        (parser, .error (.invalidUtf8 validUpTo errorLen))
    | .error { validUpTo := _, errorLen := none } => (parser, .error .incompleteUtf8AtEof)
    | .ok text =>
        let (inner, out) := StreamTextParser.pushStr parser.inner text
        close { inner, pendingUtf8 := [] } out

/-! ### One chunk -/

/-- The texts that a parser is given, one after another. -/
def feed (inner : P) (texts : List Text) : P :=
  texts.foldl (fun inner text => (StreamTextParser.pushStr inner text).1) inner

/-- A chunk is taken back, or all characters that are complete with it are passed on. -/
theorem pushBytes_cases (parser : Utf8StreamParser P) (chunk : List UInt8) :
    (∃ texts pending, parser.pendingUtf8 ++ chunk = encode texts.flatten ++ pending ∧
      Incomplete pending ∧
      (parser.pushBytes chunk).1 = { inner := feed parser.inner texts, pendingUtf8 := pending } ∧
      ∃ out, (parser.pushBytes chunk).2 = .ok out) ∨
    (∃ error, parser.pushBytes chunk = (parser, .error error)) := by
  unfold pushBytes
  dsimp only
  rcases fromUtf8_cases (parser.pendingUtf8 ++ chunk) with
    ⟨text, hresult, hbytes⟩ | ⟨text, rest, errorLen, hbytes, -, hresult, hincomplete⟩
  · rw [hresult]
    refine .inl ⟨[text], [], ?_, incomplete_nil, rfl, _, rfl⟩
    simpa using hbytes
  · rw [hresult]
    cases errorLen with
    | some errorLen =>
        refine .inr ⟨.invalidUtf8 (encode text).length errorLen, ?_⟩
        simp
    | none =>
        dsimp only
        have hrest := hincomplete rfl
        split
        case isTrue hzero =>
          rw [List.length_eq_zero_iff] at hzero
          rw [hzero, List.nil_append] at hbytes
          exact .inl ⟨[], rest, hbytes, hrest, by rw [hbytes]; rfl, _, rfl⟩
        case isFalse =>
          rw [hbytes, List.take_left, List.drop_left, fromUtf8_encode]
          refine .inl ⟨[text], rest, ?_, hrest, rfl, _, rfl⟩
          simp

/-! ### A run -/

/-- The chunks one after another, with those that are not taken back. -/
def pushAll (parser : Utf8StreamParser P) :
    List (List UInt8) → Utf8StreamParser P × List (List UInt8)
  | [] => (parser, [])
  | chunk :: chunks =>
      match parser.pushBytes chunk with
      | (next, .ok _) => ((next.pushAll chunks).1, chunk :: (next.pushAll chunks).2)
      | (next, .error _) => next.pushAll chunks

/-- What the parser has seen: the inner one has been given the complete characters, in pieces, and
the buffer holds the bytes after them. -/
def Decoded (start : P) (bytes : List UInt8) (texts : List Text) (parser : Utf8StreamParser P) :
    Prop :=
  parser.inner = feed start texts ∧ bytes = encode texts.flatten ++ parser.pendingUtf8 ∧
    Incomplete parser.pendingUtf8

theorem decoded_new (inner : P) : Decoded inner [] [] (new inner) :=
  ⟨rfl, rfl, incomplete_nil⟩

theorem feed_append (inner : P) (a b : List Text) : feed inner (a ++ b) = feed (feed inner a) b :=
  List.foldl_append

theorem Decoded.pushBytes {start : P} {bytes chunk : List UInt8} {texts : List Text}
    {parser next : Utf8StreamParser P} {out : StreamTextChunk E}
    (h : Decoded start bytes texts parser) (hpush : parser.pushBytes chunk = (next, .ok out)) :
    ∃ more, Decoded start (bytes ++ chunk) (texts ++ more) next := by
  obtain ⟨hinner, hbytes, -⟩ := h
  rcases parser.pushBytes_cases chunk with
    ⟨more, pending, hchunk, hpending, hnext, -⟩ | ⟨error, herror⟩
  · rw [hpush] at hnext
    dsimp only at hnext
    refine ⟨more, ?_, ?_, ?_⟩
    · rw [hnext, hinner, feed_append]
    · rw [hnext, hbytes, List.append_assoc, hchunk, List.flatten_append, encode_append,
        List.append_assoc]
    · rw [hnext]
      exact hpending
  · rw [hpush] at herror
    cases herror

theorem Decoded.pushAll {start : P} {bytes : List UInt8} {texts : List Text}
    {parser : Utf8StreamParser P} (h : Decoded start bytes texts parser)
    (chunks : List (List UInt8)) :
    ∃ more, Decoded start (bytes ++ (parser.pushAll chunks).2.flatten) (texts ++ more)
      (parser.pushAll chunks).1 := by
  induction chunks generalizing bytes texts parser with
  | nil => exact ⟨[], by simpa [Utf8StreamParser.pushAll] using h⟩
  | cons chunk chunks ih =>
      rw [Utf8StreamParser.pushAll]
      split
      case h_1 next out hpush =>
        obtain ⟨first, hfirst⟩ := h.pushBytes hpush
        obtain ⟨more, hmore⟩ := ih hfirst
        refine ⟨first ++ more, ?_⟩
        simpa only [List.flatten_cons, List.append_assoc] using hmore
      case h_2 next error hpush =>
        have hnext : next = parser := by
          rcases parser.pushBytes_cases chunk with ⟨_, _, _, _, _, out, hout⟩ | ⟨_, hsame⟩
          · rw [hpush] at hout
            cases hout
          · rw [hpush, Prod.mk.injEq] at hsame
            exact hsame.1
        rw [hnext]
        exact ih h

/-- A chunk that is taken back leaves no trace. -/
def TakesBack (parser : Utf8StreamParser P) (chunk : List UInt8) : Prop :=
  ∀ error, (parser.pushBytes chunk).2 = .error error → (parser.pushBytes chunk).1 = parser

theorem takesBack (parser : Utf8StreamParser P) (chunk : List UInt8) :
    parser.TakesBack chunk := by
  intro error herror
  rcases parser.pushBytes_cases chunk with ⟨_, _, _, _, _, out, hout⟩ | ⟨_, hsame⟩
  · rw [hout] at herror
    cases herror
  · rw [hsame]

/-- After any chunks, the inner parser has been given the characters of the longest complete
beginning of those that were not taken back; what remains ends inside a character, and another
chunk that is taken back changes nothing. -/
theorem pushAll_exact (inner : P) (chunks : List (List UInt8)) :
    (∃ texts : List Text,
      ((new inner).pushAll chunks).1.inner = feed inner texts ∧
      ((new inner).pushAll chunks).2.flatten =
        encode texts.flatten ++ ((new inner).pushAll chunks).1.pendingUtf8 ∧
      ∀ text, encode text <+: ((new inner).pushAll chunks).2.flatten →
        encode text <+: encode texts.flatten) ∧
    Incomplete ((new inner).pushAll chunks).1.pendingUtf8 ∧
    ((new inner).pushAll chunks).1.pendingUtf8.length < 4 ∧
    ∀ chunk, ((new inner).pushAll chunks).1.TakesBack chunk := by
  obtain ⟨texts, hinner, hbytes, hpending⟩ := (decoded_new inner).pushAll chunks
  rw [List.nil_append] at hinner hbytes
  rw [List.nil_append] at hbytes
  refine ⟨⟨texts, hinner, hbytes, fun text htext => ?_⟩, hpending, hpending.length_lt, takesBack _⟩
  rw [hbytes] at htext
  exact encode_prefix_of_incomplete hpending htext

/-- The end is refused exactly if bytes of a character are missing. -/
theorem finish_pushAll (inner : P) (chunks : List (List UInt8)) :
    (((new inner).pushAll chunks).1.pendingUtf8 = [] ∧
      ∃ out, ((new inner).pushAll chunks).1.finish.2 = .ok out) ∨
    (((new inner).pushAll chunks).1.pendingUtf8 ≠ [] ∧
      ((new inner).pushAll chunks).1.finish =
        (((new inner).pushAll chunks).1, .error .incompleteUtf8AtEof)) := by
  obtain ⟨-, -, -, hpending⟩ := (decoded_new inner).pushAll chunks
  set parser := ((new inner).pushAll chunks).1
  unfold finish
  by_cases hnil : parser.pendingUtf8 = []
  · exact .inl ⟨hnil, by rw [if_pos hnil]; exact ⟨_, rfl⟩⟩
  · refine .inr ⟨hnil, ?_⟩
    dsimp only
    rw [if_neg hnil, fromUtf8_of_incomplete hpending hnil]

end Utf8StreamParser

end Codewith.StreamParser
