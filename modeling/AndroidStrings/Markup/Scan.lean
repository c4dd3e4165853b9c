import AndroidStrings.Markup.Event

/-!
# Scanning a text

A scan lists the events of a text with the bytes they take up, and checks on the way that every
end tag names the element opened last.  It ends with the text or at the first fault.  A mark for
the byte order at the front is skipped and takes up no bytes in the count.
-/

namespace AndroidStrings
namespace Markup

structure Located where
  event : Event
  span : Span
  deriving DecidableEq, Repr

structure Scan where
  events : List Located
  failure : Option Error
  deriving DecidableEq, Repr

/-- The names of the elements that are open after an event, innermost first. -/
def openNames (opened : List Text) : Event → Except Error (List Text)
  | .startTag content => .ok (tagName content :: opened)
  | .endTag content =>
      let name := endTagName content
      match opened with
      | [] => .error (.unmatchedEndTag name)
      | innermost :: outer =>
          if innermost = name then .ok outer
          else .error (.mismatchedEndTag innermost name)
  | _ => .ok opened

def Scan.prepend (located : Located) (scan : Scan) : Scan :=
  { scan with events := located :: scan.events }

/-- Scans from a position on, with the given elements open. -/
def scanFrom (position : Nat) (opened : List Text) (t : Text) : Scan :=
  if _ht : t = [] then ⟨[], none⟩
  else
    match _h : next t with
    | .error e => ⟨[], some e⟩
    | .ok (event, rest) =>
        match openNames opened event with
        | .error e => ⟨[], some e⟩
        | .ok names =>
            let stop := position + event.raw.size
            (scanFrom stop names rest).prepend ⟨event, ⟨position, stop⟩⟩
termination_by t.length
decreasing_by exact length_lt_of_next _ht _h

def byteOrderMark : Char :=
  '\ufeff'

def withoutByteOrderMark : Text → Text
  | [] => []
  | c :: t => if c = byteOrderMark then t else c :: t

def scan (t : Text) : Scan :=
  scanFrom 0 [] (withoutByteOrderMark t)

end Markup
end AndroidStrings
