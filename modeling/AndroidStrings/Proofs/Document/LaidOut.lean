import AndroidStrings.Proofs.Document.Alone
import AndroidStrings.Proofs.Markup.Unique

/-!
# Documents laid out in rows

A document is read from a row of segments.  An edit inside the root element puts other segments
into the row, and the new row is a document if every segment of it can be read.  What a document
says is said by the segments of its row one by one, and plain text says nothing.

## Main statements

- `exists_laidOut` : every document is laid out in a row.
- `exists_laidOut_append` : what is put together inside the root element can be read.
- `LaidOut.entries_eq` : the entries of a document are those of its segments.
-/

namespace AndroidStrings

open Markup

/-!
# Plain text in a row
-/

namespace Segment

def isText : Segment -> Bool
  | outer event => event.isText
  | inner event => event.isText
  | _ => false

theorem exists_text_of_isText
    {segment : Segment}
    (h : segment.isText = true) :
    exists content : Text,
      segment = .outer (.text content) ∨ segment = .inner (.text content) := by
  cases segment with
  | outer event =>
      rcases Markup.exists_text_of_isText h with ⟨content, rfl⟩
      exact ⟨content, .inl rfl⟩
  | inner event =>
      rcases Markup.exists_text_of_isText h with ⟨content, rfl⟩
      exact ⟨content, .inr rfl⟩
  | _ => simp [isText] at h

theorem readable_of_isText
    {segment : Segment}
    (h : segment.isText = true) :
    segment.Readable := by
  rcases exists_text_of_isText h with ⟨content, rfl | rfl⟩ <;> exact ⟨{}, rfl⟩

theorem entries_of_isText
    {segment : Segment}
    (h : segment.isText = true) :
    segment.entries = [] := by
  rcases exists_text_of_isText h with ⟨content, rfl | rfl⟩ <;> rfl

theorem isText_of_isBlock
    {segment : Segment}
    (h : segment.isBlock = true) :
    segment.isText = false := by
  rcases form_of_isBlock h with ⟨_, _, _, rfl⟩ | ⟨_, rfl⟩ <;> rfl

end Segment

namespace Segments

/-- The segments of a row that are no plain text. -/
def solid (row : List Segment) : List Segment :=
  row.filter fun segment => !segment.isText

@[simp] theorem solid_append (front back : List Segment) :
    solid (front ++ back) = solid front ++ solid back :=
  List.filter_append front back

theorem solid_cons_of_isText
    {segment : Segment}
    (h : segment.isText = true)
    (row : List Segment) :
    solid (segment :: row) = solid row := by
  rw [solid, List.filter_cons_of_neg (by simp [h])]
  rfl

theorem solid_cons_of_not_isText
    {segment : Segment}
    (h : segment.isText = false)
    (row : List Segment) :
    solid (segment :: row) = segment :: solid row := by
  rw [solid, List.filter_cons_of_pos (by simp [h])]
  rfl

/-- What plain text has nothing of, a row has from its other segments. -/
theorem flatMap_solid
    {α : Type} {f : Segment -> List α}
    (h : forall segment : Segment, segment.isText = true -> f segment = [])
    (row : List Segment) :
    (solid row).flatMap f = row.flatMap f := by
  induction row with
  | nil => rfl
  | cons segment row ih =>
      cases htext : segment.isText with
      | true => rw [solid_cons_of_isText htext, ih, List.flatMap_cons, h segment htext]; rfl
      | false => rw [solid_cons_of_not_isText htext, List.flatMap_cons, ih, List.flatMap_cons]

theorem readable_of_solid
    {row row' : List Segment}
    (hsolid : solid row' = solid row)
    (h : forall segment, segment ∈ row -> segment.Readable) :
    forall segment, segment ∈ row' -> segment.Readable := by
  intro segment hsegment
  cases htext : segment.isText with
  | true => exact Segment.readable_of_isText htext
  | false =>
      have hmem : segment ∈ solid row' := List.mem_filter.mpr ⟨hsegment, by simp [htext]⟩
      rw [hsolid] at hmem
      exact h segment (List.mem_of_mem_filter hmem)

end Segments

/-!
# Rows of a document
-/

namespace Document

/-- A row of segments that a document is read from. -/
structure LaidOut (document : Document) (row : List Segment) : Prop where
  plain : PlainStart document.text
  read : parse document.text = .ok document
  fit : Segments.Fit false row
  raw : Segments.raw row = document.text

theorem exists_laidOut
    {document : Document}
    (hplain : PlainStart document.text)
    (hread : parse document.text = .ok document) :
    exists row : List Segment, document.LaidOut row := by
  rcases exists_segments_of_parse hplain hread with ⟨row, hfit, hraw⟩
  exact ⟨row, hplain, hread, hfit, hraw⟩

/-- A row can be read if every segment of it can. -/
theorem exists_laidOut_of_readable
    {row : List Segment}
    (hplain : PlainStart (Segments.raw row))
    (hfit : Segments.Fit false row)
    (hreadable : forall segment, segment ∈ row -> segment.Readable) :
    exists document : Document,
      parse (Segments.raw row) = .ok document ∧ document.LaidOut row := by
  rcases Segments.exists_layoutFrom_of_readable hreadable 0 with ⟨layout, hlayout⟩
  have hread : parse (Segments.raw row) = .ok ⟨Segments.raw row, layout⟩ := by
    rw [parse_raw hplain hfit, hlayout]
    rfl
  exact ⟨_, hread, hplain, hread, hfit, rfl⟩

section Row

variable {document : Document} {row : List Segment}

theorem LaidOut.exists_layoutFrom
    (h : document.LaidOut row) :
    exists layout : Layout,
      Segments.layoutFrom 0 row = .ok layout ∧ document.layout = layout := by
  have hread := h.read
  rw [← h.raw, parse_raw (h.raw ▸ h.plain) h.fit] at hread
  rcases Success.map_eq_ok_iff.mp hread with ⟨layout, hlayout, heq⟩
  exact ⟨layout, hlayout, by rw [← heq]⟩

theorem LaidOut.readable
    (h : document.LaidOut row) :
    forall segment, segment ∈ row -> segment.Readable := by
  rcases h.exists_layoutFrom with ⟨layout, hlayout, _⟩
  exact Segments.readable_of_layoutFrom hlayout

/-- The elements of a document are those of its segments. -/
theorem LaidOut.map_nodes_eq
    {α : Type} {f : Node -> α}
    (hf : forall (offset : Nat) (node : Node), f (node.shift offset) = f node)
    (h : document.LaidOut row) :
    document.nodes.map f = (row.flatMap Segment.nodes).map f := by
  rcases h.exists_layoutFrom with ⟨layout, hlayout, heq⟩
  rw [nodes, heq, Segments.map_nodes_of_layoutFrom hf hlayout]

/-- The entries of a document are those of its segments. -/
theorem LaidOut.entries_eq
    (h : document.LaidOut row) :
    document.entries = row.flatMap Segment.entries := by
  rw [Segments.flatMap_entries]
  exact h.map_nodes_eq fun _ _ => rfl

end Row

theorem plainStart_append
    {front back back' : Text}
    (hfront : front ≠ [])
    (h : PlainStart (front ++ back)) :
    PlainStart (front ++ back') := by
  cases front with
  | nil => exact absurd rfl hfront
  | cons c front => exact h

end Document

namespace Segments

/-- There is no way into the root element but its tag. -/
theorem mem_raw_of_leads
    {row : List Segment}
    (h : leads false row = true) :
    '<' ∈ raw row := by
  induction row with
  | nil => simp [leads] at h
  | cons segment row ih =>
      rw [raw_cons, List.mem_append]
      cases segment with
      | rootOpen content => exact .inl (by simp [Event.raw])
      | _ => exact .inr (ih h)

end Segments

namespace Document

/-- What an edit puts behind a row that leads into the root element can be read, if its segments
can. -/
theorem exists_laidOut_append
    {front back : List Segment} {tail : Text}
    (hplain : PlainStart (Segments.raw front ++ tail))
    (hfront : Segments.Fit false front)
    (hleads : Segments.leads false front = true)
    (hback : Segments.Fit true back)
    (hreadable : forall segment, segment ∈ front ++ back -> segment.Readable) :
    exists document : Document,
      parse (Segments.raw front ++ Segments.raw back) = .ok document ∧
        document.LaidOut (front ++ back) := by
  rw [← Segments.raw_append]
  apply exists_laidOut_of_readable
  · rw [Segments.raw_append]
    exact plainStart_append (List.ne_nil_of_mem (Segments.mem_raw_of_leads hleads)) hplain
  · rw [Segments.fit_append, hleads]
    exact ⟨hfront, hback⟩
  · exact hreadable

end Document
end AndroidStrings
