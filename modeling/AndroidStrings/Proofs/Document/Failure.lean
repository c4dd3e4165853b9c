import AndroidStrings.Document.Command
import AndroidStrings.Proofs.Document.Removal
import AndroidStrings.Proofs.Document.Store

/-!
# Edits that fail

An edit reads the new text before it gives up the old document, so an edit in one step that fails
has changed nothing.  Removal takes several steps, but none of them can fail.  Forms of a plurals
element are stored one by one: a fault stops at the form that has it, and by then every value has
been validated.

## Main statements

- `not_isInvalidValue_of_parse` : no text is read with a fault of a value.
- `exists_take_of_setQuantities` : what forms before a fault leave.
- `perform_failed` : what a command that fails leaves.
-/

namespace AndroidStrings

open Markup

namespace Error

def isInvalidValue : Error -> Bool
  | invalidValue _ _ => true
  | _ => false

end Error

/-!
# Faults of a text

A fault is a fault of the markup, of the shape of the file or of an entry.
-/

theorem fault_of_foldlM
    {α β : Type} {step : β -> α -> Except Error β} {p : Error -> Prop} {items : List α}
    {start : β} {fault : Error}
    (hstep : forall (state : β) (item : α) (e : Error), step state item = .error e -> p e)
    (h : items.foldlM step start = .error fault) :
    p fault := by
  induction items generalizing start with
  | nil => simp [pure, Except.pure] at h
  | cons item items ih =>
      rw [List.foldlM_cons] at h
      cases hfirst : step start item with
      | error e =>
          simp only [hfirst, bind, Except.bind, Except.error.injEq] at h
          rw [← h]
          exact hstep start item e hfirst
      | ok next =>
          simp only [hfirst, bind, Except.bind] at h
          exact ih h

namespace EntryAttributes

theorem fault_of_add
    {known : EntryAttributes} {found : Attribute} {fault : Error}
    (h : known.add found = .error fault) :
    fault.isInvalidValue = false := by
  have hunescaped : forall {value : Text} {α : Type} {f : Text -> α},
      (unescaped value).map f = .error fault -> fault.isInvalidValue = false := by
    intro value α f hmap
    unfold unescaped at hmap
    split at hmap
    · simp [Except.map] at hmap
    · simp only [Except.map, Except.error.injEq] at hmap
      rw [← hmap]
      rfl
  unfold add at h
  repeat' split at h
  · exact hunescaped h
  · exact hunescaped h
  · exact hunescaped h
  · simp at h

theorem fault_of_ofTag
    {content : Text} {fault : Error}
    (h : ofTag content = .error fault) :
    fault.isInvalidValue = false := by
  unfold ofTag at h
  simp only at h
  split at h
  · rename_i e hfold
    rw [Except.error.injEq] at h
    rw [← h]
    exact fault_of_foldlM (fun known found e => fault_of_add) hfold
  · split at h
    · rw [Except.error.injEq] at h
      rw [← h]
      rfl
    · simp at h

end EntryAttributes

theorem fault_of_heading
    {kind : EntryKind} {content : Text} {fault : Error}
    (h : Heading.ofTag kind content = .error fault) :
    fault.isInvalidValue = false := by
  unfold Heading.ofTag at h
  split at h
  · rename_i e hattributes
    rw [Except.error.injEq] at h
    rw [← h]
    exact EntryAttributes.fault_of_ofTag hattributes
  · split at h
    · simp at h
    · rw [Except.error.injEq] at h
      rw [← h]
      rfl

theorem fault_of_itemQuantity
    {heading : Heading} {content : Text} {fault : Error}
    (h : itemQuantity heading content = .error fault) :
    fault.isInvalidValue = false := by
  unfold itemQuantity at h
  split at h
  · split at h
    · rename_i e hattributes
      rw [Except.error.injEq] at h
      rw [← h]
      exact EntryAttributes.fault_of_ofTag hattributes
    · repeat' split at h
      all_goals simp only [Except.error.injEq, reduceCtorEq] at h
      all_goals rw [← h]
      all_goals rfl
  · simp at h

namespace Reader

theorem fault_of_step
    {text : Text} {reader : Reader} {located : Located} {fault : Error}
    (h : reader.step text located = .error fault) :
    fault.isInvalidValue = false := by
  unfold step at h
  cases hplace : reader.place with
  | outside =>
      simp only [hplace, stepOutside] at h
      repeat' split at h
      all_goals simp only [Except.error.injEq, reduceCtorEq] at h
      rw [← h]
      rfl
  | root =>
      simp only [hplace, stepRoot] at h
      repeat' split at h
      all_goals simp only [Except.error.injEq, reduceCtorEq] at h
      all_goals
        rename_i e hheading
        rw [← h]
        exact fault_of_heading hheading
  | items entry found =>
      simp only [hplace, stepItems] at h
      repeat' split at h
      all_goals simp only [Except.error.injEq, reduceCtorEq] at h
      all_goals
        rename_i e hquantity
        rw [← h]
        exact fault_of_itemQuantity hquantity
  | _ =>
      simp only [hplace] at h
      split at h
      all_goals simp at h

theorem fault_of_finish
    {reader : Reader} {fault : Error}
    (h : reader.finish = .error fault) :
    fault.isInvalidValue = false := by
  unfold finish at h
  split at h
  all_goals simp only [Except.error.injEq, reduceCtorEq] at h
  all_goals rw [← h]
  all_goals rfl

end Reader

namespace Document

/-- No text is read with a fault of a value. -/
theorem not_isInvalidValue_of_parse
    {text : Text} {fault : Error}
    (h : parse text = .error fault) :
    fault.isInvalidValue = false := by
  unfold parse at h
  cases hlayout : layoutOf text (Markup.scan text) with
  | ok layout => simp [hlayout, Except.map] at h
  | error e =>
      simp only [hlayout, Except.map, Except.error.injEq] at h
      rw [← h]
      unfold layoutOf at hlayout
      split at hlayout
      · rename_i e' hfold
        rw [Except.error.injEq] at hlayout
        rw [← hlayout]
        exact fault_of_foldlM (fun reader located e => Reader.fault_of_step) hfold
      · split at hlayout
        · rw [Except.error.injEq] at hlayout
          rw [← hlayout]
          rfl
        · exact Reader.fault_of_finish hlayout

/-!
# Forms stored one by one
-/

/-- Where there is an element for it, storing a form is reading a text. -/
theorem exists_parse_of_setQuantity (document : Document) (id : Text) (quantity : Quantity)
    (stored : Text) :
    document.setQuantity id quantity stored = .error (notFound id) ∨
      exists text : Text, document.setQuantity id quantity stored = parse text := by
  unfold setQuantity
  split
  · exact .inl rfl
  · right
    split
    · split
      · exact ⟨_, rfl⟩
      · exact ⟨_, rfl⟩
    · simp only
      split
      · exact ⟨_, rfl⟩
      · exact ⟨_, rfl⟩

theorem fault_of_setQuantity
    {document : Document} {id stored : Text} {quantity : Quantity} {fault : Error}
    (h : document.setQuantity id quantity stored = .error fault) :
    fault.isInvalidValue = false := by
  rcases exists_parse_of_setQuantity document id quantity stored with hnone | ⟨text, htext⟩
  · rw [hnone, Except.error.injEq] at h
    rw [← h]
    rfl
  · exact not_isInvalidValue_of_parse (htext.symm.trans h)

/-- A fault of a form leaves what the forms before it make of the document. -/
theorem exists_take_of_setQuantities
    {document : Document} {id : Text} {items : List (Quantity × Text)} {fault : Error}
    (h : (document.setQuantities id items).result = .error fault) :
    fault.isInvalidValue = false ∧
      exists count : Nat,
        count < items.length ∧
          document.setQuantities id (items.take count) =
            ⟨(document.setQuantities id items).document, .ok .applied⟩ := by
  induction items generalizing document with
  | nil => simp [setQuantities] at h
  | cons item items ih =>
      rcases item with ⟨quantity, stored⟩
      rw [setQuantities] at h ⊢
      cases hfirst : document.setQuantity id quantity stored with
      | error e =>
          simp only [hfirst, Except.error.injEq] at h
          rw [← h]
          exact ⟨fault_of_setQuantity hfirst, 0, by simp, rfl⟩
      | ok edited =>
          simp only [hfirst] at h
          rcases ih h with ⟨hfault, count, hcount, hsame⟩
          refine ⟨hfault, count + 1, by simpa using hcount, ?_⟩
          rw [List.take_succ_cons, setQuantities, hfirst]
          exact hsame

/-- Values are validated one by one. -/
theorem storedForms_take
    {id : Text} {mode : EscapeMode} {forms items : List (Quantity × Text)}
    (h : storedForms id mode forms = .ok items)
    (count : Nat) :
    items.length = forms.length ∧
      storedForms id mode (forms.take count) = .ok (items.take count) := by
  induction forms generalizing items count with
  | nil =>
      simp only [storedForms, Except.ok.injEq] at h
      rw [← h]
      simp [storedForms]
  | cons form forms ih =>
      rcases form with ⟨quantity, value⟩
      simp only [storedForms] at h
      split at h
      · simp at h
      · rename_i stored hstored
        rcases Success.map_eq_ok_iff.mp h with ⟨others, hothers, heq⟩
        rw [← heq]
        constructor
        · simp [(ih hothers 0).1]
        · cases count with
          | zero => rfl
          | succ count =>
              rw [List.take_succ_cons, List.take_succ_cons, storedForms, hstored]
              simp only [(ih hothers count).2, Except.map]

theorem eq_of_storedValue
    {target value stored : Text} {mode : EscapeMode}
    (h : storedValue target value mode = .ok stored) :
    stored = mode.apply value := by
  unfold storedValue at h
  split at h
  · exact (Except.ok.inj h).symm
  · cases h

theorem validate_of_storedValue
    {target value stored : Text} {mode : EscapeMode}
    (h : storedValue target value mode = .ok stored) :
    Value.validate value = .ok () := by
  unfold storedValue at h
  split at h
  · rename_i hvalid
    exact hvalid
  · cases h

/-- The stored forms have what the accepted values have once they are stored. -/
theorem forall_acceptedForms
    {id : Text} {mode : EscapeMode} {forms items : List (Quantity × Text)} {p : Text -> Prop}
    (hforms : forall form, form ∈ forms ->
      Value.validate form.2 = .ok () -> p (mode.apply form.2))
    (h : storedForms id mode forms = .ok items) :
    forall item, item ∈ items -> p item.2 := by
  induction forms generalizing items with
  | nil =>
      rw [storedForms, Except.ok.injEq] at h
      simp [← h]
  | cons form forms ih =>
      rw [List.forall_mem_cons] at hforms
      simp only [storedForms] at h
      split at h
      · cases h
      · rename_i stored hstored
        rcases Success.map_eq_ok_iff.mp h with ⟨others, hothers, rfl⟩
        refine List.forall_mem_cons.mpr ⟨?_, ih hforms.2 hothers⟩
        rw [eq_of_storedValue hstored]
        exact hforms.1 (validate_of_storedValue hstored)

/-- The stored forms have what the values have once they are stored. -/
theorem forall_storedForms
    {id : Text} {mode : EscapeMode} {forms items : List (Quantity × Text)} {p : Text -> Prop}
    (hforms : forall form, form ∈ forms -> p (mode.apply form.2))
    (h : storedForms id mode forms = .ok items) :
    forall item, item ∈ items -> p item.2 :=
  forall_acceptedForms (fun form hform _ => hforms form hform) h

/-- What a document has, and what every document has that an edit may lead to, holds after the
edit. -/
theorem whole_of_forall
    {document : Document} {result : Except Error Document} {p : Document -> Prop}
    (h : p document)
    (hresult : forall new : Document, result = .ok new -> p new) :
    p (document.whole result).document := by
  cases result with
  | ok new => exact hresult new rfl
  | error fault => exact h

theorem wholeOrSkipped_of_forall
    {document : Document} {result : Except Error (Option Document)} {p : Document -> Prop}
    (h : p document)
    (hresult : forall new : Document, result = .ok (some new) -> p new) :
    p (document.wholeOrSkipped result).document := by
  cases result with
  | ok new =>
      cases new with
      | some new => exact hresult new rfl
      | none => exact h
  | error fault => exact h

theorem whole_of_error
    {document : Document} {edited : Except Error Document} {fault : Error}
    (h : (document.whole edited).result = .error fault) :
    edited = .error fault ∧ (document.whole edited).document = document := by
  unfold whole at h ⊢
  cases edited with
  | ok new => simp at h
  | error e => simpa using h

theorem wholeOrSkipped_of_error
    {document : Document} {edited : Except Error (Option Document)} {fault : Error}
    (h : (document.wholeOrSkipped edited).result = .error fault) :
    (document.wholeOrSkipped edited).document = document := by
  unfold wholeOrSkipped at h ⊢
  cases edited with
  | ok new => cases new <;> simp at h
  | error e => rfl

theorem setPlurals_failed
    {document : Document} {id : Text} {forms : List (Quantity × Text)} {mode : EscapeMode}
    {fault : Error}
    (h : (document.setPlurals id forms mode).result = .error fault) :
    (document.setPlurals id forms mode).document = document ∨
      fault.isInvalidValue = false ∧
        exists count : Nat,
          count < forms.length ∧
            document.setPlurals id (forms.take count) mode =
              ⟨(document.setPlurals id forms mode).document, .ok .applied⟩ := by
  unfold setPlurals at h ⊢
  cases hitems : storedForms id mode forms with
  | error e =>
      left
      rfl
  | ok items =>
      simp only [hitems] at h ⊢
      cases hfind : document.find? .plurals id with
      | none =>
          simp only [hfind] at h
          exact .inl (whole_of_error h).2
      | some node =>
          simp only [hfind] at h ⊢
          cases hclosed : node.selfClosing with
          | true =>
              simp only [hclosed, if_true] at h ⊢
              exact .inl (whole_of_error h).2
          | false =>
              simp only [hclosed, Bool.false_eq_true, if_false] at h ⊢
              rcases exists_take_of_setQuantities h with ⟨hfault, count, hcount, hsame⟩
              rcases storedForms_take hitems count with ⟨hlength, htake⟩
              refine .inr ⟨hfault, count, hlength ▸ hcount, ?_⟩
              rw [htake]
              exact hsame

/-!
# A document is what its text is read as
-/

/-- The document has been read from the text that it has. -/
def IsRead (document : Document) : Prop :=
  parse document.text = .ok document

theorem isRead_of_parse
    {text : Text} {document : Document}
    (h : parse text = .ok document) :
    document.IsRead := by
  rw [IsRead, text_of_parse h]
  exact h

theorem IsRead.whole
    {document : Document} {edited : Except Error Document}
    (h : document.IsRead)
    (hedited : forall new : Document, edited = .ok new -> new.IsRead) :
    (document.whole edited).document.IsRead := by
  cases edited with
  | ok new => exact hedited new rfl
  | error e => exact h

theorem IsRead.wholeOrSkipped
    {document : Document} {edited : Except Error (Option Document)}
    (h : document.IsRead)
    (hedited : forall new : Document, edited = .ok (some new) -> new.IsRead) :
    (document.wholeOrSkipped edited).document.IsRead := by
  cases edited with
  | ok new =>
      cases new with
      | some new => exact hedited new rfl
      | none => exact h
  | error e => exact h

theorem isRead_of_insertEntry
    {document edited : Document} {element : Text}
    (h : document.insertEntry element = .ok edited) :
    edited.IsRead := by
  unfold insertEntry at h
  repeat' split at h
  · simp at h
  · exact isRead_of_parse h
  · exact isRead_of_parse h

theorem isRead_of_replaceString
    {document edited : Document} {id stored : Text}
    (h : document.replaceString id stored = .ok edited) :
    edited.IsRead := by
  unfold replaceString at h
  repeat' split at h
  · simp at h
  · exact isRead_of_parse h
  · exact isRead_of_parse h

theorem isRead_of_setQuantity
    {document edited : Document} {id stored : Text} {quantity : Quantity}
    (h : document.setQuantity id quantity stored = .ok edited) :
    edited.IsRead := by
  rcases exists_parse_of_setQuantity document id quantity stored with hnone | ⟨text, htext⟩
  · rw [hnone] at h
    simp at h
  · exact isRead_of_parse (htext.symm.trans h)

theorem IsRead.setQuantities
    {document : Document}
    (h : document.IsRead)
    (id : Text) (items : List (Quantity × Text)) :
    (document.setQuantities id items).document.IsRead := by
  induction items generalizing document with
  | nil => exact h
  | cons item items ih =>
      rcases item with ⟨quantity, stored⟩
      rw [Document.setQuantities]
      split
      · exact h
      · rename_i edited hedited
        exact ih (isRead_of_setQuantity hedited)

theorem IsRead.removeNext
    {document : Document}
    (h : document.IsRead)
    (outcome : EditOutcome) (id : Text) :
    (document.removeNext outcome id).document.IsRead := by
  induction hlength : document.text.length using Nat.strongRecOn generalizing document outcome with
  | ind length ih =>
      rw [Document.removeNext]
      split
      · exact h
      · split
        · exact h
        · rename_i edited hsplice
          have hedited : edited.IsRead := isRead_of_parse hsplice
          split
          · rename_i hless
            exact ih edited.text.length (hlength ▸ hless) hedited .applied rfl
          · exact hedited

/-- Whatever a command does, the document behind it has been read from its text. -/
theorem IsRead.perform
    {document : Document}
    (h : document.IsRead)
    (command : EditCommand) :
    (document.perform command).document.IsRead := by
  cases command with
  | set id value mode =>
      apply h.whole
      intro new hnew
      exact isRead_of_replaceString (set_eq_ok_iff.mp hnew).2
  | setOrCreate id value mode =>
      apply h.whole
      intro new hnew
      unfold setOrCreate at hnew
      repeat' split at hnew
      · simp at hnew
      · exact isRead_of_replaceString hnew
      · exact isRead_of_insertEntry hnew
  | add id value mode =>
      apply h.wholeOrSkipped
      intro new hnew
      exact isRead_of_insertEntry (add?_eq_some_iff.mp hnew).2.2
  | addPlural id forms mode =>
      apply h.wholeOrSkipped
      intro new hnew
      rcases addPlural?_eq_some_iff.mp hnew with ⟨_, _, _, hinsert⟩
      exact isRead_of_insertEntry hinsert
  | setPlurals id forms mode =>
      show (document.setPlurals id forms mode).document.IsRead
      unfold setPlurals
      repeat' split
      · exact h
      · exact h.whole fun new hnew => isRead_of_insertEntry hnew
      · exact h.whole fun new hnew => isRead_of_parse hnew
      · exact h.setQuantities id _
  | remove id => exact h.removeNext .skipped id
  | sort order =>
      apply h.whole
      intro new hnew
      exact isRead_of_parse (parse_of_sort hnew)

theorem IsRead.performAll
    {document : Document}
    (h : document.IsRead)
    (commands : List EditCommand) :
    (document.performAll commands).IsRead := by
  induction commands generalizing document with
  | nil => exact h
  | cons command commands ih => exact ih (h.perform command)

/-!
# What a failure leaves
-/

/-- A command that fails leaves the document as it was or, when forms are stored one by one, as
the forms before the fault leave it.  Whatever is performed, a document is what its text is read
as. -/
theorem perform_failed
    {text : Text} {document : Document}
    (hplain : PlainStart text)
    (hparse : parse text = .ok document) :
    (forall (command : EditCommand) (fault : Error),
      (document.perform command).result = .error fault ->
        (document.perform command).document = document ∨
          exists (id : Text) (forms : List (Quantity × Text)) (mode : EscapeMode) (count : Nat),
            command = .setPlurals id forms mode ∧ fault.isInvalidValue = false ∧
              count < forms.length ∧
              document.setPlurals id (forms.take count) mode =
                ⟨(document.perform command).document, .ok .applied⟩) ∧
      forall commands : List EditCommand,
        parse (document.performAll commands).text = .ok (document.performAll commands) := by
  have hread : document.IsRead := isRead_of_parse hparse
  constructor
  · intro command fault hfault
    cases command with
    | set id value mode => exact .inl (whole_of_error hfault).2
    | setOrCreate id value mode => exact .inl (whole_of_error hfault).2
    | add id value mode => exact .inl (wholeOrSkipped_of_error hfault)
    | addPlural id forms mode => exact .inl (wholeOrSkipped_of_error hfault)
    | sort order => exact .inl (whole_of_error hfault).2
    | setPlurals id forms mode =>
        rcases setPlurals_failed hfault with hsame | ⟨hvalue, count, hcount, htake⟩
        · exact .inl hsame
        · exact .inr ⟨id, forms, mode, count, rfl, hvalue, hcount, htake⟩
    | remove id =>
        -- Removal does not fail.
        rw [← text_of_parse hparse] at hplain
        rcases exists_removeNext hplain hread id .skipped with ⟨edited, hedited, _⟩
        rw [show document.perform (.remove id) = document.removeNext .skipped id from rfl,
          hedited] at hfault
        simp at hfault
  · intro commands
    exact hread.performAll commands

/-- Two forms, of which the second one opens a comment that nothing closes. -/
def unclosedForms : List (Quantity × Text) :=
  [(.one, "y".toList), (.other, "<!--".toList)]

theorem perform_failed_unclosedForms :
    exists (document : Document) (count : Nat),
      parse ("<resources><plurals name=\"a\"><item quantity=\"one\">x</item>".toList ++
          "</plurals></resources>".toList) = .ok document ∧
        (document.perform (.setPlurals "a".toList unclosedForms .raw)).result =
          .error (.malformed .unclosedComment) ∧
        count < unclosedForms.length ∧
        document.setPlurals "a".toList (unclosedForms.take count) .raw =
          ⟨(document.perform (.setPlurals "a".toList unclosedForms .raw)).document,
            .ok .applied⟩ := by
  have hrun : (parse ("<resources><plurals name=\"a\"><item quantity=\"one\">x</item>".toList ++
      "</plurals></resources>".toList)).map (fun document =>
        let left := document.perform (.setPlurals "a".toList unclosedForms .raw)
        (left.result, decide (left.document = document))) =
        .ok (.error (.malformed .unclosedComment), false) := by
    decide +kernel
  rcases Success.map_eq_ok_iff.mp hrun with ⟨document, hparse, hleft⟩
  simp only [Prod.mk.injEq, decide_eq_false_iff_not] at hleft
  rcases (perform_failed (by decide) hparse).1 _ _ hleft.1 with
    hsame | ⟨id, forms, mode, count, hcommand, _, hcount, htake⟩
  · exact absurd hsame hleft.2
  · rw [EditCommand.setPlurals.injEq] at hcommand
    rcases hcommand with ⟨rfl, rfl, rfl⟩
    exact ⟨document, count, hparse, hleft.1, hcount, htake⟩

end Document
end AndroidStrings
