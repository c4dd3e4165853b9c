import AndroidStrings.Document.Basic

/-!
# Lines around a place

Edits keep to whole lines where they can.  A place starts its line when only spaces and tabs
stand before it, and a span has its line to itself when nothing else follows it either.
-/

namespace AndroidStrings
namespace Text

/-- The part of a text behind its last line feed. -/
def lastLine (t : Text) : Text :=
  (t.reverse.takeWhile (· != '\n')).reverse

def lineStart (t : Text) (position : Nat) : Nat :=
  let front := takeBytes position t
  front.size - front.lastLine.size

def startsLine (t : Text) (position : Nat) : Bool :=
  (takeBytes position t).lastLine.isBlank

/-- The bytes of the rest of a line up to its line feed, when nothing but blanks stand there. -/
def blankLineRest? (rest : Text) : Option Nat :=
  let line : Text := rest.takeWhile (· != '\n')
  match rest.dropWhile (· != '\n') with
  | [] => if line.isBlank then some line.size else none
  | _ :: _ => if (trimEnd (· == '\r') line).isBlank then some (line.size + 1) else none

/-- A span together with its line, when it has the line to itself. -/
def lineExtent (t : Text) (span : Span) : Span :=
  if t.startsLine span.start then
    match blankLineRest? (dropBytes span.stop t) with
    | some length => ⟨t.lineStart span.start, span.stop + length⟩
    | none => span
  else span

end Text
end AndroidStrings
