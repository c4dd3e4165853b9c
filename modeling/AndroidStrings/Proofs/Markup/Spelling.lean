import AndroidStrings.Proofs.Markup.Construct

/-!
# Spelled texts

Where a construct ends is decided by the construct alone, so every event that the reader meets is
spelled, and a text that is read to its end is spelled by its events.

## Main statement

`spelled_of_scanFrom` : a text without a fault is spelled by the events of its scan.
-/

namespace AndroidStrings
namespace Markup

theorem spelled_of_next
    {t rest : Text} {event : Event}
    (h : next t = .ok (event, rest)) :
    event.Spelled := by
  unfold next at h
  split at h
  · exact spelled_of_construct (construct_of_nextMarkup h)
  · simp only [Except.ok.injEq, Prod.mk.injEq] at h
    rw [← h.1]
    show '<' ∉ t.takeWhile (· != '<')
    intro hmem
    have hall := List.all_eq_true.mp List.all_takeWhile '<' hmem
    simp at hall

/-- A text reaches up to the next markup. -/
theorem next_of_text
    {t : Text}
    (h : t.head? ≠ some '<') :
    next t = .ok (.text (t.takeWhile (· != '<')), t.dropWhile (· != '<')) := by
  unfold next
  split
  · simp at h
  · rfl

theorem construct_of_spelled
    {event : Event}
    (h : event.Spelled)
    (hmarkup : forall content : Text, event ≠ .text content) :
    Construct event := by
  have hnext := h.next_raw hmarkup []
  rw [List.append_nil] at hnext
  have hraw : exists t : Text, event.raw = '<' :: t := by
    cases event with
    | text content => exact absurd rfl (hmarkup content)
    | _ => exact ⟨_, rfl⟩
  rcases hraw with ⟨t, ht⟩
  rw [ht] at hnext
  exact construct_of_nextMarkup hnext

theorem getLast?_raw_of_markup
    {event : Event}
    (h : forall content : Text, event ≠ .text content) :
    event.raw.getLast? = some '>' := by
  cases event with
  | text content => exact absurd rfl (h content)
  | _ => simp [Event.raw, List.getLast?_cons, List.getLast?_append]

/-!
# Lists of spelled events
-/

/-- The text of a list of events. -/
def spell (events : List Event) : Text :=
  events.flatMap Event.raw

@[simp] theorem spell_nil : spell [] = [] := rfl

@[simp] theorem spell_cons (event : Event) (events : List Event) :
    spell (event :: events) = event.raw ++ spell events := rfl

@[simp] theorem spell_append (front back : List Event) :
    spell (front ++ back) = spell front ++ spell back := by
  simp [spell]

/-- A text whose scan ends without a fault is spelled by the events of the scan. -/
theorem spelled_of_scanFrom
    {position : Nat} {opened : List Text} {t : Text}
    (h : (scanFrom position opened t).failure = none) :
    (forall event, event ∈ (scanFrom position opened t).events.map Located.event ->
      event.Spelled) ∧
        spell ((scanFrom position opened t).events.map Located.event) = t := by
  fun_induction scanFrom position opened t with
  | case1 position opened => simp
  | case2 => simp at h
  | case3 => simp at h
  | case4 position opened t ht event rest hnext names hnames stop ih =>
      rcases ih h with ⟨hspelled, hspell⟩
      constructor
      · intro e he
        rcases List.mem_cons.mp he with he | he
        · rw [he]
          exact spelled_of_next hnext
        · exact hspelled e he
      · rw [Scan.prepend, List.map_cons, spell_cons, hspell]
        exact (eq_raw_append_of_next hnext).symm

end Markup
end AndroidStrings
