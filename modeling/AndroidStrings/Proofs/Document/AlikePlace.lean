import AndroidStrings.Proofs.Document.Structure

/-!
# Reading from alike places

Whether an event may stand at a place depends on the elements that are open there: on their names,
and on what kind of entry they are.  It does not depend on what has been read before, or on the text
that the reader takes its values from.  So what can be read from one place can be read from any
place like it, and the places behind it are alike again.

## Main statements

- `Reader.exists_step` : one event.
- `Cursor.Alike.exists_advance`, `Cursor.Alike.exists_foldlM` : events with the names of the open
  elements.
-/

namespace AndroidStrings

open Markup

/-- Places at which the same elements are open. -/
inductive Place.Alike : Place -> Place -> Prop where
  | outside : Alike .outside .outside
  | root : Alike .root .root
  | other {name name' : Text} {start start' depth : Nat} :
      Alike (.other name start depth) (.other name' start' depth)
  | string {entry entry' : OpenEntry} {depth : Nat} :
      Alike (.string entry depth) (.string entry' depth)
  | items {entry entry' : OpenEntry} {found found' : List ItemNode} :
      entry.heading.kind = entry'.heading.kind ->
      Alike (.items entry found) (.items entry' found')
  | item {entry entry' : OpenEntry} {found found' : List ItemNode} {current current' : OpenItem}
      {depth : Nat} :
      entry.heading.kind = entry'.heading.kind ->
      Alike (.item entry found current depth) (.item entry' found' current' depth)
  | foreign {entry entry' : OpenEntry} {found found' : List ItemNode} {name name' : Text}
      {depth : Nat} :
      entry.heading.kind = entry'.heading.kind ->
      Alike (.foreign entry found name depth) (.foreign entry' found' name' depth)

theorem Place.Alike.eq_outside {place : Place} (h : Place.Alike .outside place) :
    place = .outside := by
  cases h
  rfl

theorem Place.Alike.eq_root {place : Place} (h : Place.Alike .root place) : place = .root := by
  cases h
  rfl

namespace Reader

/-- Two events that lead to alike places, or to none. -/
def LeadAlike : Except Error Reader -> Except Error Reader -> Prop
  | .ok moved, .ok moved' => moved.place.Alike moved'.place
  | .error _, .error _ => True
  | _, _ => False

variable {text text' : Text} {layout layout' : Layout} {event : Event} {span span' : Span}

theorem leadAlike_stepOutside :
    LeadAlike (stepOutside ⟨.outside, layout⟩ event span)
      (stepOutside ⟨.outside, layout'⟩ event span') := by
  cases event with
  | startTag content =>
      simp only [stepOutside]
      split
      · exact .root
      · trivial
  | emptyTag content =>
      simp only [stepOutside]
      split
      · exact .outside
      · exact .outside
  | _ => exact .outside

theorem leadAlike_stepRoot :
    LeadAlike (stepRoot ⟨.root, layout⟩ event span) (stepRoot ⟨.root, layout'⟩ event span') := by
  cases event with
  | startTag content =>
      simp only [stepRoot]
      cases EntryKind.ofTag? (tagName content) with
      | none => exact .other
      | some kind =>
          dsimp only
          cases Heading.ofTag kind content with
          | error fault => trivial
          | ok heading =>
              cases kind with
              | string => exact .string
              | _ => exact .items rfl
  | emptyTag content =>
      simp only [stepRoot]
      cases EntryKind.ofTag? (tagName content) with
      | none => exact .root
      | some kind =>
          dsimp only
          cases Heading.ofTag kind content with
          | error fault => trivial
          | ok heading => exact .root
  | endTag content => exact .outside
  | _ => exact .root

/-- What the tag of an item needs to say depends on the kind of its element. -/
theorem itemQuantity_of_kind
    {heading heading' : Heading}
    (hkind : heading.kind = heading'.kind)
    (content : Text) :
    (exists quantity : Option Quantity,
      itemQuantity heading content = .ok quantity ∧
        itemQuantity heading' content = .ok quantity) ∨
      exists fault fault' : Error,
        itemQuantity heading content = .error fault ∧
          itemQuantity heading' content = .error fault' := by
  unfold itemQuantity
  rw [← hkind]
  cases heading.kind with
  | plurals =>
      cases EntryAttributes.ofTag content with
      | error fault => exact .inr ⟨fault, fault, rfl, rfl⟩
      | ok known =>
          dsimp only
          cases known.quantity with
          | none => exact .inr ⟨_, _, rfl, rfl⟩
          | some word =>
              dsimp only
              cases Quantity.ofText? word with
              | none => exact .inr ⟨_, _, rfl, rfl⟩
              | some quantity => exact .inl ⟨_, rfl, rfl⟩
  | _ => exact .inl ⟨none, rfl, rfl⟩

theorem leadAlike_stepItems
    {entry entry' : OpenEntry} {found found' : List ItemNode}
    (hkind : entry.heading.kind = entry'.heading.kind) :
    LeadAlike (stepItems text ⟨.items entry found, layout⟩ entry found event span)
      (stepItems text' ⟨.items entry' found', layout'⟩ entry' found' event span') := by
  cases event with
  | startTag content =>
      simp only [stepItems]
      split
      · rcases itemQuantity_of_kind hkind content with ⟨quantity, hread, hread'⟩ |
          ⟨fault, fault', hread, hread'⟩
        · rw [hread, hread']
          exact .item hkind
        · rw [hread, hread']
          trivial
      · exact .foreign hkind
  | emptyTag content =>
      simp only [stepItems]
      split
      · rcases itemQuantity_of_kind hkind content with ⟨quantity, hread, hread'⟩ |
          ⟨fault, fault', hread, hread'⟩
        · rw [hread, hread']
          exact .items hkind
        · rw [hread, hread']
          trivial
      · exact .items hkind
  | endTag content => exact .root
  | _ => exact .items hkind

theorem leadAlike_step
    {reader reader' : Reader}
    (h : reader.place.Alike reader'.place) :
    LeadAlike (reader.step text ⟨event, span⟩) (reader'.step text' ⟨event, span'⟩) := by
  rcases reader with ⟨place, layout⟩
  rcases reader' with ⟨place', layout'⟩
  cases h with
  | outside => exact leadAlike_stepOutside
  | root => exact leadAlike_stepRoot
  | items hkind => exact leadAlike_stepItems hkind
  | @other _ _ _ _ depth =>
      simp only [step]
      cases bodyDepth? depth event with
      | some deeper => exact .other
      | none => exact .root
  | @string _ _ depth =>
      simp only [step]
      cases bodyDepth? depth event with
      | some deeper => exact .string
      | none => exact .root
  | @item _ _ _ _ _ _ depth hkind =>
      simp only [step]
      cases bodyDepth? depth event with
      | some deeper => exact .item hkind
      | none => exact .items hkind
  | @foreign _ _ _ _ _ _ depth hkind =>
      simp only [step]
      cases bodyDepth? depth event with
      | some deeper => exact .foreign hkind
      | none => exact .items hkind

theorem exists_step
    {reader reader' moved : Reader}
    (h : reader.place.Alike reader'.place)
    (hstep : reader.step text ⟨event, span⟩ = .ok moved)
    (text' : Text) (span' : Span) :
    exists moved' : Reader,
      reader'.step text' ⟨event, span'⟩ = .ok moved' ∧ moved.place.Alike moved'.place := by
  have hlead : LeadAlike (reader.step text ⟨event, span⟩) (reader'.step text' ⟨event, span'⟩) :=
    leadAlike_step h
  rw [hstep] at hlead
  cases hstep' : reader'.step text' ⟨event, span'⟩ with
  | error fault =>
      rw [hstep'] at hlead
      exact hlead.elim
  | ok moved' =>
      rw [hstep'] at hlead
      exact ⟨moved', rfl, hlead⟩

theorem exists_finish
    {reader reader' : Reader} {found : Layout}
    (h : reader.place.Alike reader'.place)
    (hfinish : reader.finish = .ok found) :
    reader'.finish = .ok reader'.layout := by
  rcases reader with ⟨place, layout⟩
  rcases reader' with ⟨place', layout'⟩
  cases h with
  | outside => rfl
  | root => rfl
  | _ => cases hfinish

end Reader

namespace Cursor

variable {cursor cursor' moved : Cursor} {text : Text} {event : Event}

/-- Cursors at alike places, with the same names of open elements. -/
structure Alike (cursor cursor' : Cursor) : Prop where
  opened : cursor.opened = cursor'.opened
  place : cursor.reader.place.Alike cursor'.reader.place

theorem step_of_advance
    (h : cursor.advance text event = .ok moved) :
    cursor.reader.step text ⟨event, ⟨cursor.position, cursor.position + event.raw.size⟩⟩ =
      .ok moved.reader := by
  unfold advance at h
  split at h
  · cases h
  · rcases Success.map_eq_ok_iff.mp h with ⟨reader, hstep, heq⟩
    rw [hstep, ← heq]

theorem Alike.exists_advance
    (h : cursor.Alike cursor')
    (hadvance : cursor.advance text event = .ok moved)
    (text' : Text) :
    exists moved' : Cursor,
      cursor'.advance text' event = .ok moved' ∧ moved.Alike moved' := by
  have hnames := openNames_of_advance hadvance
  rw [h.opened] at hnames
  rcases Reader.exists_step h.place (step_of_advance hadvance) text'
    ⟨cursor'.position, cursor'.position + event.raw.size⟩ with ⟨reader', hstep', hplace⟩
  have hadvance' := advance_of_openNames text' cursor'.position cursor'.reader hnames
  rw [hstep'] at hadvance'
  exact ⟨_, hadvance', rfl, hplace⟩

theorem Alike.exists_foldlM
    {events : List Event}
    (h : cursor.Alike cursor')
    (hfold : events.foldlM (advance text) cursor = .ok moved)
    (text' : Text) :
    exists moved' : Cursor,
      events.foldlM (advance text') cursor' = .ok moved' ∧ moved.Alike moved' := by
  induction events generalizing cursor cursor' with
  | nil =>
      rw [List.foldlM_nil] at hfold
      rw [← Except.ok.inj hfold]
      exact ⟨cursor', rfl, h⟩
  | cons event events ih =>
      rw [List.foldlM_cons] at hfold
      rcases Success.bind_eq_ok_iff.mp hfold with ⟨next, hadvance, hrest⟩
      rcases h.exists_advance hadvance text' with ⟨next', hadvance', hnext⟩
      rcases ih hnext hrest with ⟨moved', hrest', hmoved⟩
      refine ⟨moved', ?_, hmoved⟩
      rw [List.foldlM_cons, hadvance']
      exact hrest'

end Cursor
end AndroidStrings
