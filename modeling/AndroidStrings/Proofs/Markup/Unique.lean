import AndroidStrings.Proofs.Markup.Attribute
import AndroidStrings.Proofs.Markup.Spelling

/-!
# One text, one markup

Plain text may be cut into events in several ways, but the events of the markup in a text are
decided by the text alone.

## Main statement

`markup_eq_of_spell_eq` : lists of spelled events with one text have the same markup.
-/

namespace AndroidStrings
namespace Markup

def Event.isText : Event -> Bool
  | .text _ => true
  | _ => false

/-- The events of a list that are no plain text. -/
def markup (events : List Event) : List Event :=
  events.filter fun event => !event.isText

@[simp] theorem markup_nil : markup [] = [] := rfl

@[simp] theorem markup_text (content : Text) (events : List Event) :
    markup (.text content :: events) = markup events := rfl

theorem markup_cons
    {event : Event}
    (h : event.isText = false)
    (events : List Event) :
    markup (event :: events) = event :: markup events := by
  rw [markup, List.filter_cons_of_pos (by simp [h])]
  rfl

theorem exists_text_of_isText
    {event : Event}
    (h : event.isText = true) :
    exists content : Text, event = .text content := by
  cases event with
  | text content => exact ⟨content, rfl⟩
  | _ => simp [Event.isText] at h

theorem exists_raw_of_markup
    {event : Event}
    (h : event.isText = false) :
    exists t : Text, event.raw = '<' :: t := by
  cases event with
  | text content => simp [Event.isText] at h
  | _ => exact ⟨_, rfl⟩

theorem Event.Spelled.next_of_markup
    {event : Event}
    (h : event.Spelled)
    (hmarkup : event.isText = false)
    (rest : Text) :
    next (event.raw ++ rest) = .ok (event, rest) := by
  apply h.next_raw
  rintro content rfl
  simp [Event.isText] at hmarkup

/-- The first event of the markup behind plain text is decided by the text. -/
theorem eq_of_append_raw
    {lead lead' t t' : Text} {event event' : Event}
    (hlead : '<' ∉ lead)
    (hlead' : '<' ∉ lead')
    (hevent : event.isText = false)
    (hevent' : event'.isText = false)
    (hspelled : event.Spelled)
    (hspelled' : event'.Spelled)
    (h : lead ++ (event.raw ++ t) = lead' ++ (event'.raw ++ t')) :
    event = event' ∧ t = t' := by
  have hplain : forall {u : Text}, '<' ∉ u -> forall c, c ∈ u -> (c != '<') = true := by
    intro u hu c hc
    rw [bne_iff_ne]
    rintro rfl
    exact hu hc
  have hdrop : forall {u : Text} {other : Event} (s : Text), '<' ∉ u -> other.isText = false ->
      (u ++ (other.raw ++ s)).dropWhile (· != '<') = other.raw ++ s := by
    intro u other s hu hother
    rcases exists_raw_of_markup hother with ⟨inner, hraw⟩
    rw [hraw]
    exact dropWhile_append_cons (hplain hu) (by decide) _
  have hsame := congrArg (List.dropWhile (· != '<')) h
  rw [hdrop t hlead hevent, hdrop t' hlead' hevent'] at hsame
  have hnext := hspelled.next_of_markup hevent t
  rw [hsame, hspelled'.next_of_markup hevent', Except.ok.injEq, Prod.mk.injEq] at hnext
  exact ⟨hnext.1.symm, hnext.2.symm⟩

/-- Either there is no markup, or the first event of it stands behind plain text. -/
theorem exists_first_markup
    {events : List Event}
    (h : forall event, event ∈ events -> event.Spelled) :
    (markup events = [] ∧ '<' ∉ spell events) ∨
      exists (lead : Text) (event : Event) (rest : List Event),
        '<' ∉ lead ∧ event.isText = false ∧ event.Spelled ∧
          (forall other, other ∈ rest -> other.Spelled) ∧
          spell events = lead ++ (event.raw ++ spell rest) ∧
          markup events = event :: markup rest := by
  induction events with
  | nil => exact .inl ⟨rfl, by simp⟩
  | cons event events ih =>
      have hspelled := List.forall_mem_cons.mp h
      cases htext : event.isText with
      | false =>
          exact .inr ⟨[], event, events, by simp, htext, hspelled.1, hspelled.2, rfl,
            markup_cons htext events⟩
      | true =>
          rcases exists_text_of_isText htext with ⟨content, rfl⟩
          have hcontent : '<' ∉ content := hspelled.1
          rcases ih hspelled.2 with ⟨hnil, hnone⟩ |
            ⟨lead, first, rest, hlead, hfirst, hfirstSpelled, hrest, hspell, hmarkup⟩
          · exact .inl ⟨hnil, List.not_mem_append hcontent hnone⟩
          · refine .inr ⟨content ++ lead, first, rest, List.not_mem_append hcontent hlead,
              hfirst, hfirstSpelled, hrest, ?_, hmarkup⟩
            rw [spell_cons, hspell, Event.raw, List.append_assoc]

/-- Lists of spelled events with one text, apart from plain text before them, have the same
markup. -/
theorem markup_eq_of_append_spell_eq
    {lead lead' : Text} {events events' : List Event}
    (hlead : '<' ∉ lead)
    (hlead' : '<' ∉ lead')
    (hspelled : forall event, event ∈ events -> event.Spelled)
    (hspelled' : forall event, event ∈ events' -> event.Spelled)
    (h : lead ++ spell events = lead' ++ spell events') :
    markup events = markup events' := by
  induction events generalizing lead lead' events' with
  | nil =>
      rcases exists_first_markup hspelled' with ⟨hnil, _⟩ |
        ⟨between, event, rest, _, hevent, _, _, hspell, _⟩
      · rw [hnil, markup_nil]
      · rcases exists_raw_of_markup hevent with ⟨t, ht⟩
        rw [spell_nil, List.append_nil, hspell, ht] at h
        exact absurd (by simp [h]) hlead
  | cons event events ih =>
      have hevents := List.forall_mem_cons.mp hspelled
      cases htext : event.isText with
      | true =>
          rcases exists_text_of_isText htext with ⟨content, rfl⟩
          have hcontent : '<' ∉ content := hevents.1
          rw [spell_cons, Event.raw, ← List.append_assoc] at h
          rw [markup_text]
          exact ih (List.not_mem_append hlead hcontent) hlead' hevents.2 hspelled' h
      | false =>
          rcases exists_raw_of_markup htext with ⟨t, ht⟩
          rcases exists_first_markup hspelled' with ⟨_, hnone⟩ |
            ⟨between, event', rest, hbetween, hevent', hspelledEvent', hrest, hspell, hmarkup⟩
          · have hmem : '<' ∈ lead' ++ spell events' := by
              rw [← h, spell_cons, ht]
              simp
            exact absurd hmem (List.not_mem_append hlead' hnone)
          · -- Both lists go on with the event that is read at the first bracket.
            have hbefore := List.not_mem_append hlead' hbetween
            rw [spell_cons, hspell, ← List.append_assoc lead' between] at h
            rcases eq_of_append_raw hlead hbefore htext hevent' hevents.1 hspelledEvent' h with
              ⟨hsame, hbehind⟩
            have hnone : '<' ∉ ([] : Text) := by simp
            rw [markup_cons htext, hmarkup, hsame, ih hnone hnone hevents.2 hrest hbehind]

/-- Lists of spelled events with one text have the same markup. -/
theorem markup_eq_of_spell_eq
    {events events' : List Event}
    (hspelled : forall event, event ∈ events -> event.Spelled)
    (hspelled' : forall event, event ∈ events' -> event.Spelled)
    (h : spell events = spell events') :
    markup events = markup events' := by
  have hnone : '<' ∉ ([] : Text) := by simp
  exact markup_eq_of_append_spell_eq hnone hnone hspelled hspelled' h

end Markup
end AndroidStrings
