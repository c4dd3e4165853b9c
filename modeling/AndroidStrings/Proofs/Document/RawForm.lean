import AndroidStrings.Proofs.Document.Store
import AndroidStrings.Proofs.Value.Revalidation

/-!
# The raw form written back

After a value has been stored, its string is read up to the next end tag that fits, so its raw form
stands between two tags, and writing it there again changes no byte.  What may stop the second edit
is the check of the value: it is made on the stored form now, and takes the backslash in front of a
quote for the beginning of an attribute value where the quote stands behind a word and an equals
sign.

## Main statement

`set_getRaw_iff` : when the raw form that an edit leaves can be written back.
-/

namespace AndroidStrings

open Markup

namespace StringSite.Reread

variable {site : StringSite} {document edited : Document} {id : Text}

theorem find?_eq
    (found : site.Reread edited)
    (hsite : site.Locates document id) :
    edited.find? .string id =
      some { site.nodeWith found.inside with outer := found.outer } := by
  have hmatch : isString id { site.nodeWith found.inside with outer := found.outer } = true := by
    rw [← hsite.id_eq]
    simp [isString, nodeWith, Node.kind, Node.id, entryWith, Entry.kind, EntryValue.kind]
  show edited.nodes.find? (isString id) = _
  rw [found.nodes_eq, List.find?_append, hsite.first, Option.none_or,
    List.find?_cons_of_pos hmatch]

/-- The raw form is what was read between the tags. -/
theorem getRaw_eq
    (found : site.Reread edited)
    (hsite : site.Locates document id) :
    edited.getRaw id = .ok found.inside.raw := by
  have htext := found.text_eq
  rw [List.append_assoc _ _ found.back] at htext
  rw [Document.getRaw, found.find?_eq hsite]
  apply congrArg Except.ok
  apply slice_eq_of_append htext
  · simp
  · rfl

/-- What is written between the tags in its place is the text again. -/
theorem replaceString_raw
    (found : site.Reread edited)
    (hsite : site.Locates document id) :
    edited.replaceString id found.inside.raw = Document.parse edited.text := by
  rw [replaceString_of_element (found.find?_eq hsite) found.text_eq rfl rfl, ← found.text_eq]

end StringSite.Reread

namespace Document

/-- The raw form that an edit leaves can be written back exactly when it passes the check of values;
where the stored form is balanced, it is the raw form, and only an attribute without quotes may be
found in it. -/
theorem set_getRaw_iff
    {text id value : Text} {document edited : Document}
    (hplain : PlainStart text)
    (hparse : parse text = .ok document)
    (hset : document.set id value .escaped = .ok edited) :
    exists raw : Text,
      edited.getRaw id = .ok raw ∧
        (edited.set id raw .raw = .ok edited ↔ Value.validate raw = .ok ()) ∧
        (Balanced (escapeValue value) ->
          raw = escapeValue value ∧
            (edited.set id raw .raw = .ok edited ↔
              (Value.hasAngles raw = true -> Value.unquotedAttribute? raw = none))) := by
  rcases set_eq_ok_iff.mp hset with ⟨hvalid, hreplace⟩
  rcases StringSite.exists_of_contains hplain hparse (contains_of_replaceString hreplace) with
    ⟨site, hsite⟩
  have hread := hreplace
  rw [hsite.replaceString_eq] at hread
  rcases StringSite.nonempty_reread (hsite.plain _) hread with ⟨found⟩
  have hagain : edited.replaceString id found.inside.raw = .ok edited := by
    rw [found.replaceString_raw hsite, text_of_parse hread]
    exact hread
  have hwritten : edited.set id found.inside.raw .raw = .ok edited ↔
      Value.validate found.inside.raw = .ok () := by
    rw [set_eq_ok_iff]
    exact and_iff_left hagain
  refine ⟨found.inside.raw, found.getRaw_eq hsite, hwritten, ?_⟩
  intro hbalanced
  rcases hsite.exists_replaceString hbalanced with ⟨same, hsame, _, hraw⟩
  have hstored : found.inside.raw = escapeValue value := by
    rw [EscapeMode.apply] at hreplace
    rw [hreplace, Except.ok.injEq] at hsame
    rwa [← hsame, found.getRaw_eq hsite, Except.ok.injEq] at hraw
  refine ⟨hstored, ?_⟩
  rw [hwritten, hstored, Value.validate_escapeValue_iff hvalid]

/-- A tag and a quote behind it that is escaped. -/
theorem set_getRaw_iff_apostrophe :
    exists document edited : Document,
      parse "<resources><string name=\"a\"/></resources>".toList = .ok document ∧
        document.set "a".toList "<b>x</b>'s".toList .escaped = .ok edited ∧
        edited.getRaw "a".toList = .ok "<b>x</b>\\'s".toList ∧
        edited.set "a".toList "<b>x</b>\\'s".toList .raw = .ok edited := by
  have hrun : (parse "<resources><string name=\"a\"/></resources>".toList >>= fun document =>
      (document.set "a".toList "<b>x</b>'s".toList .escaped).map order) =
        .ok [(.string, "a".toList)] := by
    decide +kernel
  rcases Success.bind_eq_ok_iff.mp hrun with ⟨document, hparse, hread⟩
  rcases Success.map_eq_ok_iff.mp hread with ⟨edited, hset, _⟩
  have hescaped : escapeValue "<b>x</b>'s".toList = "<b>x</b>\\'s".toList := by decide +kernel
  have hinside : Fragment "x".toList := @Fragment.text "x".toList [] (by decide) .empty
  have hrest : Fragment "\\'s".toList := @Fragment.text "\\'s".toList [] (by decide) .empty
  have hfragment : Fragment (escapeValue "<b>x</b>'s".toList) := by
    rw [hescaped]
    exact @Fragment.element "b".toList [] "x".toList [] "\\'s".toList ⟨by decide, by decide⟩
      ⟨by simp, rfl⟩ (by simp) hinside rfl hrest
  rcases set_getRaw_iff (by decide) hparse hset with ⟨raw, hraw, _, hbalanced⟩
  rcases hbalanced (balanced_of_fragment hfragment) with ⟨hstored, hagain⟩
  rw [hstored, hescaped] at hraw hagain
  exact ⟨document, edited, hparse, hset, hraw, hagain.mpr fun _ => by decide +kernel⟩

/-- The quote behind a word and an equals sign is escaped, and its backslash is taken for an
attribute value. -/
theorem set_getRaw_assignment :
    exists document edited : Document,
      parse "<resources><string name=\"a\">x</string></resources>".toList = .ok document ∧
        document.set "a".toList "<b>x</b> y=\"z\"".toList .escaped = .ok edited ∧
        edited.getRaw "a".toList = .ok "<b>x</b> y=\\\"z\\\"".toList ∧
        edited.set "a".toList "<b>x</b> y=\\\"z\\\"".toList .raw =
          .error (.invalidValue "a".toList (.unquotedAttribute "y=\\\"z\\\"".toList)) := by
  have hrun : (parse "<resources><string name=\"a\">x</string></resources>".toList >>=
      fun document => (document.set "a".toList "<b>x</b> y=\"z\"".toList .escaped).map
        fun edited => edited.getRaw "a".toList) =
          .ok (.ok "<b>x</b> y=\\\"z\\\"".toList) := by
    decide +kernel
  have hrefused : Value.validate "<b>x</b> y=\\\"z\\\"".toList =
      .error (.unquotedAttribute "y=\\\"z\\\"".toList) := by
    decide +kernel
  rcases Success.bind_eq_ok_iff.mp hrun with ⟨document, hparse, hread⟩
  rcases Success.map_eq_ok_iff.mp hread with ⟨edited, hset, hraw⟩
  refine ⟨document, edited, hparse, hset, hraw, ?_⟩
  rw [set, storedValue, hrefused]

end Document
end AndroidStrings
