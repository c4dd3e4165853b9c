import AndroidStrings.Proofs.Document.RemovedText
import AndroidStrings.Proofs.Document.WrittenName

/-!
# Distinct quantities

An element that is written anew has one item for each form, also where two forms have one quantity,
while an element with tags of its own has its items exchanged and takes in no quantity twice.
Sorting writes every element anew, and what is no item before may be one then.  So in a row of
commands no element has two items of one quantity exactly as long as none is written that has.

## Main statements

- `EditCommand.exists_segment` : the element of a command has an item for each form.
- `LaidOut.quantityStep` : what one command does to the quantities of a document.
- `distinctQuantities_performAll_iff` : when no element has two items of one quantity.
-/

namespace AndroidStrings

open Markup

theorem Node.quantities_shift (offset : Nat) (node : Node) :
    (node.shift offset).quantities = node.quantities := by
  rw [quantities, shift, List.filterMap_map]
  rfl

namespace EditCommand

/-- The quantities of the forms that a command stores. -/
def quantities : EditCommand -> List Quantity
  | addPlural _ forms _ | setPlurals _ forms _ => forms.map Prod.fst
  | _ => []

end EditCommand

namespace Document

/-- The quantities of the items, element by element. -/
def quantities (document : Document) : List (List Quantity) :=
  document.nodes.map Node.quantities

/-- No element has two items of one quantity. -/
def DistinctQuantities (document : Document) : Prop :=
  forall node, node ∈ document.nodes -> node.quantities.Nodup

instance : DecidablePred DistinctQuantities := fun document =>
  inferInstanceAs (Decidable (forall node, node ∈ document.nodes -> node.quantities.Nodup))

/-- The quantities of the elements that a command writes.  Sorting writes every block, and each
of them is read on its own. -/
def writtenQuantities (document : Document) (command : EditCommand) : List (List Quantity) :=
  match (document.perform command).result, command with
  | .error _, _ => []
  | .ok _, .sort _ =>
      ((document.writeBlocks document.lineEnding.text 0 document.blocks).flatMap
        WrittenBlock.nodes).map Node.quantities
  | .ok _, _ => if document.writesElement command then [command.quantities] else []

theorem distinctQuantities_iff {document : Document} :
    document.DistinctQuantities ↔
      forall quantities, quantities ∈ document.quantities -> quantities.Nodup :=
  List.forall_mem_map.symm

end Document

/-!
# The quantities of a segment
-/

namespace Segment

def quantities (segment : Segment) : List (List Quantity) :=
  segment.nodes.map Node.quantities

theorem quantities_of_isText
    {segment : Segment}
    (h : segment.isText = true) :
    segment.quantities = [] := by
  rcases exists_text_of_isText h with ⟨content, rfl | rfl⟩ <;> rfl

/-- A string has no items. -/
theorem nodup_of_string
    {segment : Segment} {id : Text}
    (hkey : segment.key? = some (.string, id)) :
    forall quantities, quantities ∈ segment.quantities -> quantities.Nodup := by
  have hkind : EntryKind.ofTag? segment.tag = some .string := by
    unfold key? at hkey
    split at hkey
    · cases hkey
    · rename_i kind hkind
      split at hkey
      · rw [hkind]
        exact congrArg (Option.map Prod.fst) hkey
      · cases hkey
  rcases form_of_isBlock (isBlock_of_key? hkey) with ⟨opening, inside, closing, rfl⟩ |
    ⟨content, rfl⟩
  · rw [quantities, nodes]
    simp only [layoutAt, show EntryKind.ofTag? (tagName opening) = _ from hkind, elementNode]
    cases Heading.ofTag .string opening <;> simp [Except.map, Node.quantities]
  · rw [quantities, nodes]
    simp only [layoutAt, show EntryKind.ofTag? (tagName content) = _ from hkind]
    cases Heading.ofTag .string content <;>
      simp [Except.map, Node.quantities, Reader.Node.ofEmptyTag]

/-- A plurals element has the quantities of its forms. -/
theorem quantities_of_hasForms
    {opening closing : Text} {inside : Forest} {heading : Heading}
    {forms : List (Quantity × Text)}
    (hname : tagName opening = EntryKind.plurals.tag)
    (hheading : Heading.ofTag .plurals opening = .ok heading)
    (hforms : inside.HasForms heading forms) :
    (element opening inside closing).quantities = [forms.map Prod.fst] := by
  rcases hforms.exists_itemsFrom (0 + (Event.startTag opening).raw.size) with
    ⟨items, hread, hitems⟩
  have hquantities : (items.map ReadItem.node).filterMap ItemNode.quantity =
      forms.map Prod.fst := by
    have hfirst := congrArg (List.filterMap Prod.fst) hitems
    rw [List.filterMap_map, List.filterMap_map] at hfirst
    rw [List.filterMap_map, ← List.filterMap_eq_map]
    exact hfirst
  rw [quantities, nodes]
  simp only [layoutAt, hname, EntryKind.ofTag?_tag, elementNode, hheading, hread, Except.map,
    List.map_singleton, Node.quantities, hquantities]

theorem quantities_newString
    {id : Text}
    (hid : IsVerbatim id)
    (inside : Forest) :
    (newString id inside).quantities = [[]] := by
  rw [quantities, nodes, newString]
  simp only [layoutAt, tagName_nameTag .string hid.noQuote, EntryKind.ofTag?_tag, elementNode,
    heading_nameTag .string hid, Except.map, List.map_singleton, Node.quantities,
    List.filterMap_nil]

theorem quantities_newPlurals
    {id : Text}
    (hid : IsVerbatim id)
    (ending : LineEnding) (items : List (Quantity × Forest)) :
    (newPlurals id ending items).quantities = [items.map Prod.fst] := by
  have hforms : (itemsForest ending items).HasForms ⟨.plurals, id, true⟩
      (items.map fun item => (item.1, item.2.raw)) := by
    rcases exists_itemsFrom_itemsForest (rfl : (⟨.plurals, id, true⟩ : Heading).kind = .plurals) 0
      ending items with ⟨found, hread, hfound⟩
    exact ⟨found, hread, by rw [hfound, List.map_map]; rfl⟩
  have hquantities : (newPlurals id ending items).quantities = _ :=
    quantities_of_hasForms (tagName_nameTag .plurals hid.noQuote) (heading_nameTag .plurals hid)
      hforms
  rwa [List.map_map] at hquantities

theorem exists_string
    {id stored : Text}
    (hid : CommandLine.isValidId id = true)
    (hstored : Fragment stored) :
    exists segment : Segment,
      segment.raw = Document.stringElement id stored ∧ segment.isBlock = true ∧
        segment.Fits true ∧ segment.quantities = [[]] := by
  rcases balanced_of_fragment hstored with ⟨inside, hwell, rfl⟩
  have hverbatim := isVerbatim_of_isValidId hid
  exact ⟨newString id inside, raw_newString id inside, rfl, fits_newString hverbatim.noQuote hwell,
    quantities_newString hverbatim inside⟩

theorem exists_plurals
    {id : Text} {forms : List (Quantity × Text)} {mode : EscapeMode}
    (hid : CommandLine.isValidId id = true)
    (hforms : forall form, form ∈ forms -> Fragment (mode.apply form.2))
    (ending : LineEnding) :
    exists segment : Segment,
      segment.raw = Document.pluralsElement id
          (forms.map fun form => (form.1, mode.apply form.2)) ending ∧
        segment.isBlock = true ∧ segment.Fits true ∧
        segment.quantities = [forms.map Prod.fst] := by
  rcases EditCommand.exists_storedForests hforms with ⟨items, hitems, hwell⟩
  have hverbatim := isVerbatim_of_isValidId hid
  have hnamed := congrArg (List.map Prod.fst) hitems
  rw [List.map_map, List.map_map] at hnamed
  refine ⟨newPlurals id ending items, ?_, rfl, fits_newPlurals hverbatim.noQuote hwell, ?_⟩
  · rw [← hitems]
    exact raw_newPlurals id ending items
  · rw [quantities_newPlurals hverbatim]
    exact congrArg (· :: []) hnamed

end Segment

theorem EditCommand.Accepted.balanced
    {command : EditCommand}
    (h : command.Accepted) :
    forall stored, stored ∈ command.stored -> Balanced stored := by
  cases command with
  | set id value mode => exact List.forall_mem_singleton.mpr (balanced_of_fragment h)
  | setOrCreate id value mode => exact List.forall_mem_singleton.mpr (balanced_of_fragment h.2)
  | add id value mode => exact List.forall_mem_singleton.mpr (balanced_of_fragment h.2)
  | addPlural id forms mode =>
      exact List.forall_mem_map.mpr fun form hform => balanced_of_fragment (h.2 form hform)
  | setPlurals id forms mode =>
      exact List.forall_mem_map.mpr fun form hform => balanced_of_fragment (h.2 form hform)
  | _ => simp [stored]

/-- The element that a command writes has an item for each form. -/
theorem EditCommand.exists_segment
    {command : EditCommand} {key : EntryKind.Key}
    (hcreates : command.creates? = some key)
    (haccepted : command.Accepted)
    (ending : LineEnding) :
    exists segment : Segment,
      segment.raw = command.element ending ∧ segment.isBlock = true ∧ segment.Fits true ∧
        segment.quantities = [command.quantities] := by
  cases command with
  | setOrCreate id value mode => exact Segment.exists_string haccepted.1 haccepted.2
  | add id value mode => exact Segment.exists_string haccepted.1 haccepted.2
  | addPlural id forms mode => exact Segment.exists_plurals haccepted.1 haccepted.2 ending
  | setPlurals id forms mode => exact Segment.exists_plurals haccepted.1 haccepted.2 ending
  | _ => cases hcreates

namespace Document

open Segments

/-!
# The quantities of a row
-/

section Row

variable {document edited : Document} {row row' : List Segment} {written : List (List Quantity)}

theorem LaidOut.quantities_eq
    (h : document.LaidOut row) :
    document.quantities = row.flatMap Segment.quantities := by
  rw [quantities, h.map_nodes_eq Node.quantities_shift, List.map_flatMap]
  rfl

/-- What a step does to quantities that are apart: what is written is there behind it, and all else
has its quantities apart. -/
structure QuantityStep (document : Document) (written : List (List Quantity))
    (edited : Document) : Prop where
  laidOut : exists row : List Segment, edited.LaidOut row
  subset : forall quantities, quantities ∈ written -> quantities ∈ edited.quantities
  rest : document.DistinctQuantities ->
    forall quantities,
      quantities ∈ edited.quantities -> quantities ∈ written ∨ quantities.Nodup

theorem QuantityStep.distinctQuantities_iff
    (h : document.QuantityStep written edited)
    (hdistinct : document.DistinctQuantities) :
    edited.DistinctQuantities ↔ forall quantities, quantities ∈ written -> quantities.Nodup := by
  rw [Document.distinctQuantities_iff]
  constructor
  · exact fun hedited quantities hmem => hedited quantities (h.subset quantities hmem)
  · intro hwritten quantities hmem
    rcases h.rest hdistinct quantities hmem with hnew | hnodup
    · exact hwritten quantities hnew
    · exact hnodup

theorem LaidOut.quantityStep_self
    (h : document.LaidOut row) :
    document.QuantityStep [] document where
  laidOut := ⟨row, h⟩
  subset := by simp
  rest hdistinct quantities hmem := .inr (distinctQuantities_iff.mp hdistinct quantities hmem)

/-- A row keeps the quantities apart if every segment that is new in it does. -/
theorem LaidOut.quantityStep_of_row
    (h : document.LaidOut row)
    (hedited : edited.LaidOut row')
    (hwritten : forall quantities, quantities ∈ written -> quantities ∈ edited.quantities)
    (hrow : document.DistinctQuantities ->
      forall segment, segment ∈ solid row' ->
        segment ∈ row ∨
          forall quantities,
            quantities ∈ segment.quantities -> quantities ∈ written ∨ quantities.Nodup) :
    document.QuantityStep written edited := by
  refine ⟨⟨row', hedited⟩, hwritten, ?_⟩
  intro hdistinct quantities hmem
  rw [hedited.quantities_eq, ← flatMap_solid fun _ => Segment.quantities_of_isText,
    List.mem_flatMap] at hmem
  rcases hmem with ⟨segment, hsegment, hmem⟩
  rcases hrow hdistinct segment hsegment with hold | hnew
  · rw [distinctQuantities_iff, h.quantities_eq] at hdistinct
    exact .inr (hdistinct quantities (List.mem_flatMap.mpr ⟨segment, hold, hmem⟩))
  · exact hnew quantities hmem

end Row

/-!
# Edits in the row
-/

section Edits

variable {document edited : Document} {row : List Segment} {key : EntryKind.Key}

theorem mem_store
    {id : Text} {inside : Forest} {segment : Segment}
    (h : segment ∈ store id inside row) :
    segment ∈ row ∨ segment.key? = some (.string, id) := by
  induction row with
  | nil => cases h
  | cons first row ih =>
      unfold store at h
      split at h
      · rename_i hkey
        rcases List.mem_cons.mp h with rfl | hmem
        · exact .inr (Segment.key?_withInside hkey inside)
        · exact .inl (List.mem_cons_of_mem first hmem)
      · rcases List.mem_cons.mp h with rfl | hmem
        · exact .inl List.mem_cons_self
        · exact (ih hmem).imp_left (List.mem_cons_of_mem first)

theorem LaidOut.quantityStep_replaceString
    {id stored : Text}
    (h : document.LaidOut row)
    (hstored : Balanced stored)
    (hedit : document.replaceString id stored = .ok edited) :
    document.QuantityStep [] edited := by
  rcases hstored with ⟨inside, hwell, rfl⟩
  rcases h.exists_store (contains_of_replaceString hedit) hwell with ⟨new, hnew, hlaid, _⟩
  obtain rfl : edited = new := Except.ok.inj (hedit.symm.trans hnew)
  refine h.quantityStep_of_row hlaid (by simp) fun _ segment hsegment => ?_
  refine (mem_store (List.mem_of_mem_filter hsegment)).imp_right fun hkey quantities hmem => ?_
  exact .inr (Segment.nodup_of_string hkey quantities hmem)

/-- Forms that are merged into a plurals element do not bring a quantity twice. -/
theorem LaidOut.quantityStep_setQuantities
    {id : Text} {node : Node} {items : List (Quantity × Text)}
    (h : document.LaidOut row)
    (hfind : document.find? .plurals id = some node)
    (hopen : node.selfClosing = false)
    (hitems : forall item, item ∈ items -> Balanced item.2) :
    document.QuantityStep [] (document.setQuantities id items).document := by
  rcases h.exists_pluralsSite hfind hopen with ⟨site, inside, rfl, rfl⟩
  rcases PluralsSite.exists_reads h with ⟨_, _, forms, hreads⟩
  have hforms := hasForms_of_itemsFrom hreads.read hreads.forms_eq
  rcases PluralsSite.exists_setQuantities h hforms hitems with
    ⟨edited, inside', hedited, hlaid, hstored⟩
  rw [hedited]
  refine h.quantityStep_of_row hlaid (by simp) fun hdistinct segment hsegment => ?_
  have hmem : segment ∈ site.rowWith inside' := List.mem_of_mem_filter hsegment
  rw [PluralsSite.rowWith, List.mem_append, List.mem_cons] at hmem
  rcases hmem with hfront | rfl | hback
  · exact .inl (List.mem_append_left _ hfront)
  · right
    have hknown : (forms.map Prod.fst).Nodup := by
      apply distinctQuantities_iff.mp hdistinct
      rw [h.quantities_eq, PluralsSite.rowWith, List.flatMap_append, List.flatMap_cons,
        Segment.quantities_of_hasForms site.named site.headed hforms]
      simp
    rw [Segment.quantities_of_hasForms site.named site.headed hstored, List.forall_mem_singleton]
    exact .inr (nodup_storeForms hknown items)
  · exact .inl (List.mem_append_right _ (List.mem_cons_of_mem _ hback))

theorem LaidOut.quantityStep_remove
    (h : document.LaidOut row)
    (id : Text) :
    document.QuantityStep [] (document.remove id).document := by
  rcases h.exists_removal id with ⟨removed, edited, hremoval⟩
  rcases hremoval.exists_kept h with ⟨kept, hkept, hsolid, _⟩
  rw [remove, hremoval.removeNext_eq .skipped]
  refine h.quantityStep_of_row hkept (by simp) fun _ segment hsegment => ?_
  rw [hsolid] at hsegment
  exact .inl (List.mem_of_mem_filter (List.mem_of_mem_filter hsegment))

theorem Keeps.quantityStep
    {values : List Text}
    (h : document.Keeps key values edited)
    (hlaid : document.LaidOut row)
    (hvalues : forall value, value ∈ values -> Balanced value) :
    document.QuantityStep [] edited := by
  cases h with
  | skipped _ heq =>
      rw [heq]
      exact hlaid.quantityStep_self
  | string _ stored hstored hreplace =>
      exact hlaid.quantityStep_replaceString (hvalues stored hstored) hreplace
  | plurals _ node hfind hopen items hitems outcome hstore =>
      have hstep := hlaid.quantityStep_setQuantities hfind hopen
        fun item hitem => hvalues item.2 (hitems item hitem)
      rwa [hstore] at hstep

theorem Writes.quantityStep
    {segment : Segment}
    (h : document.Writes key segment.raw edited)
    (hlaid : document.LaidOut row)
    (hblock : segment.isBlock = true)
    (hfits : segment.Fits true) :
    document.QuantityStep segment.quantities edited := by
  rcases h.exists_row hlaid hblock hfits with ⟨row', front, old, back, hlaid', hrow, hrow', _⟩
  have hold : forall {other : Segment}, other ∈ front ++ old ++ back -> other ∈ row := by
    intro other hmem
    rw [← hrow] at hmem
    exact List.mem_of_mem_filter hmem
  refine hlaid.quantityStep_of_row hlaid' ?_ fun _ other hother => ?_
  · intro quantities hquantities
    have hmem : segment ∈ solid row' := by
      rw [hrow']
      simp
    rw [hlaid'.quantities_eq]
    exact List.mem_flatMap.mpr ⟨segment, List.mem_of_mem_filter hmem, hquantities⟩
  · rw [hrow', List.mem_append, List.mem_cons] at hother
    rcases hother with hfront | rfl | hback
    · exact .inl (hold (List.mem_append_left _ (List.mem_append_left _ hfront)))
    · exact .inr fun quantities hquantities => .inl hquantities
    · exact .inl (hold (List.mem_append_right _ hback))

end Edits

/-!
# Commands
-/

section Commands

variable {document sorted : Document} {row : List Segment} {command : EditCommand}
  {commands : List EditCommand} {outcome : EditOutcome} {fault : Error}

theorem Rooted.quantityStep_sort
    {order : List EntryKind.Key}
    (h : document.Rooted row)
    (hsort : document.sort order = .ok sorted) :
    document.QuantityStep (document.writtenQuantities (.sort order)) sorted := by
  rcases h.exists_outline hsort with ⟨rooted, outline, hreads, hrewritten, hsorted, hrooted⟩
  have hperm : sorted.quantities.Perm (document.writtenQuantities (.sort order)) := by
    have hok : (document.perform (.sort order)).result = .ok .applied := by
      rw [Document.perform, hsort]
      rfl
    unfold writtenQuantities
    rw [hok]
    exact hsorted.perm_nodes Node.quantities_shift hreads hrewritten
  exact ⟨⟨_, hrooted.toLaidOut⟩, fun _ hmem => hperm.mem_iff.mpr hmem,
    fun _ _ hmem => .inl (hperm.mem_iff.mp hmem)⟩

/-- With balanced values, a command that fails changes nothing. -/
theorem LaidOut.perform_of_error
    (h : document.LaidOut row)
    (haccepted : command.Accepted)
    (hfault : (document.perform command).result = .error fault) :
    (document.perform command).document = document := by
  cases command with
  | set id value mode => exact (whole_of_error hfault).2
  | setOrCreate id value mode => exact (whole_of_error hfault).2
  | add id value mode => exact wholeOrSkipped_of_error hfault
  | addPlural id forms mode => exact wholeOrSkipped_of_error hfault
  | sort order => exact (whole_of_error hfault).2
  | remove id =>
      rcases h.exists_removal id with ⟨removed, edited, hremoval⟩
      rw [perform, remove, hremoval.removeNext_eq .skipped] at hfault
      cases hfault
  | setPlurals id forms mode =>
      rw [perform] at hfault ⊢
      cases hitems : storedForms id mode forms with
      | error e => rw [setPlurals, hitems]
      | ok items =>
          rw [setPlurals_of_stored hitems] at hfault ⊢
          cases hfind : document.find? .plurals id with
          | none =>
              simp only [hfind] at hfault ⊢
              exact (whole_of_error hfault).2
          | some node =>
              simp only [hfind] at hfault ⊢
              rcases h.exists_storeForms hfind (isVerbatim_of_isValidId haccepted.1)
                (balanced_storedForms haccepted.2 hitems) with ⟨edited, _, hedited, _⟩
              rw [hedited] at hfault
              cases hfault

theorem writtenQuantities_of_creates
    (hcreates : command.creates? = some key)
    (hok : (document.perform command).result = .ok outcome) :
    document.writtenQuantities command =
      if document.writesElement command then [command.quantities] else [] := by
  unfold writtenQuantities
  rw [hok]
  cases command with
  | sort order => cases hcreates
  | _ => rfl

theorem writtenQuantities_remove (document : Document) (id : Text) :
    document.writtenQuantities (.remove id) = [] := by
  unfold writtenQuantities
  cases (document.perform (.remove id)).result <;> rfl

/-- What one command does to the quantities of a document. -/
theorem LaidOut.quantityStep
    (h : document.LaidOut row)
    (hroot : forall order : List EntryKind.Key, command = .sort order -> document.Rooted row)
    (haccepted : command.Accepted) :
    document.QuantityStep (document.writtenQuantities command)
      (document.perform command).document := by
  cases hresult : (document.perform command).result with
  | error fault =>
      unfold writtenQuantities
      rw [hresult, h.perform_of_error haccepted hresult]
      exact h.quantityStep_self
  | ok outcome =>
      cases hcreates : command.creates? with
      | some key =>
          rw [writtenQuantities_of_creates hcreates hresult]
          rcases writes_or_keeps hcreates hresult with ⟨hwritten, hwrites⟩ | ⟨hkept, hkeeps⟩
          · rcases EditCommand.exists_segment hcreates haccepted document.lineEnding with
              ⟨segment, hraw, hblock, hfits, hquantities⟩
            rw [← hraw] at hwrites
            rw [hwritten, if_pos rfl, ← hquantities]
            exact hwrites.quantityStep h hblock hfits
          · rw [hkept, if_neg Bool.false_ne_true]
            exact hkeeps.quantityStep h haccepted.balanced
      | none =>
          cases command with
          | set id value mode =>
              unfold writtenQuantities
              rw [hresult]
              exact h.quantityStep_replaceString (balanced_of_fragment haccepted)
                (set_eq_ok_iff.mp (eq_of_whole hresult)).2
          | remove id =>
              rw [writtenQuantities_remove]
              exact h.quantityStep_remove id
          | sort order => exact (hroot order rfl).quantityStep_sort (eq_of_whole hresult)
          | _ => cases hcreates

/-- Without sorting, a document need not have its root element. -/
theorem LaidOut.exists_performAll
    (h : document.LaidOut row)
    (haccepted : forall command, command ∈ commands -> command.Accepted)
    (hsort : forall order : List EntryKind.Key, .sort order ∉ commands) :
    exists row' : List Segment, (document.performAll commands).LaidOut row' := by
  induction commands generalizing document row with
  | nil => exact ⟨row, h⟩
  | cons command commands ih =>
      rw [List.forall_mem_cons] at haccepted
      have hstep := h.quantityStep
        (fun order heq => absurd (heq ▸ List.mem_cons_self) (hsort order)) haccepted.1
      rcases hstep.laidOut with ⟨row', hrow'⟩
      exact ih hrow' haccepted.2 fun order hmem => hsort order (List.mem_cons_of_mem _ hmem)

end Commands

/-!
# Main statement
-/

/-- Whatever comes of the commands, no element gets two items of one quantity exactly if none is
written that has: an element that is made for forms of one quantity, or a block that has other
items when it is read as sorting writes it. -/
theorem distinctQuantities_performAll_iff
    {text : Text} {document : Document} {commands : List EditCommand}
    (hplain : PlainStart text)
    (hparse : parse text = .ok document)
    (hroot : (exists order : List EntryKind.Key, .sort order ∈ commands) ->
      SingleRoot text ∨ document.layout.rootClose = none)
    (hdistinct : document.DistinctQuantities)
    (haccepted : forall command, command ∈ commands -> command.Accepted) :
    (forall count : Nat, (document.performAll (commands.take count)).DistinctQuantities) ↔
      forall (count : Nat) (command : EditCommand) (quantities : List Quantity),
        commands[count]? = some command ->
          quantities ∈ (document.performAll (commands.take count)).writtenQuantities command ->
            quantities.Nodup := by
  have hrow : forall count : Nat, exists row : List Segment,
      (document.performAll (commands.take count)).LaidOut row ∧
        ((exists order : List EntryKind.Key, .sort order ∈ commands) ->
          (document.performAll (commands.take count)).Rooted row) := by
    intro count
    have htaken : forall command, command ∈ commands.take count -> command.Accepted :=
      fun command hmem => haccepted command (List.mem_of_mem_take hmem)
    by_cases hsorts : exists order : List EntryKind.Key, .sort order ∈ commands
    · rcases exists_rooted hplain hparse (hroot hsorts) with ⟨row, hrow⟩
      rcases hrow.performAll htaken with ⟨row', hrow'⟩
      exact ⟨row', hrow'.toLaidOut, fun _ => hrow'⟩
    · rcases exists_laidOut (text_of_parse hparse ▸ hplain) (isRead_of_parse hparse) with
        ⟨row, hlaid⟩
      rcases hlaid.exists_performAll htaken fun order hmem =>
        hsorts ⟨order, List.mem_of_mem_take hmem⟩ with ⟨row', hlaid'⟩
      exact ⟨row', hlaid', fun h => absurd h hsorts⟩
  have hstep : forall (count : Nat) (command : EditCommand), commands[count]? = some command ->
      (document.performAll (commands.take count)).QuantityStep
        ((document.performAll (commands.take count)).writtenQuantities command)
        (document.performAll (commands.take (count + 1))) := by
    intro count command hcommand
    rcases hrow count with ⟨row, hlaid, hrooted⟩
    have hmem := List.mem_of_getElem? hcommand
    rw [performAll_take_succ hcommand]
    exact hlaid.quantityStep (fun order heq => hrooted ⟨order, heq ▸ hmem⟩)
      (haccepted command hmem)
  constructor
  · intro h count command quantities hcommand
    exact ((hstep count command hcommand).distinctQuantities_iff (h count)).mp (h (count + 1))
      quantities
  · intro h count
    induction count with
    | zero => exact hdistinct
    | succ count ih =>
        cases hcommand : commands[count]? with
        | none =>
            rw [List.take_add_one, hcommand]
            simpa using ih
        | some command =>
            exact ((hstep count command hcommand).distinctQuantities_iff ih).mpr
              fun quantities => h count command quantities hcommand

/-- Two forms of one quantity are merged into an element, the file is sorted, another element is
made, and the first one is removed. -/
def mergeSortAdd : List EditCommand :=
  [.setPlurals "a".toList [(.few, "y".toList), (.few, "z".toList)] .raw, .sort [],
    .addPlural "b".toList [(.one, "u".toList), (.other, "v".toList)] .raw, .remove "a".toList]

theorem distinctQuantities_performAll_mergeSortAdd :
    exists document : Document,
      parse ("<resources><plurals name=\"a\"><item quantity=\"one\">x</item></plurals>".toList ++
          "</resources>".toList) = .ok document ∧
        (document.performAll (mergeSortAdd.take 3)).quantities = [[.one, .few], [.one, .other]] ∧
        forall count : Nat,
          (document.performAll (mergeSortAdd.take count)).DistinctQuantities := by
  let text := "<resources><plurals name=\"a\"><item quantity=\"one\">x</item></plurals>".toList ++
    "</resources>".toList
  have hrun : (parse text).map (fun document =>
      decide ((document.performAll (mergeSortAdd.take 3)).quantities =
          [[.one, .few], [.one, .other]] ∧
        document.DistinctQuantities ∧
        forall count, count < 3 -> forall command, command ∈ mergeSortAdd[count]? ->
          forall quantities,
            quantities ∈
                (document.performAll (mergeSortAdd.take count)).writtenQuantities command ->
              quantities.Nodup)) = .ok true := by
    decide +kernel
  rcases Success.map_eq_ok_iff.mp hrun with ⟨document, hparse, hfacts⟩
  rcases of_decide_eq_true hfacts with ⟨hadded, hdistinct, hwritten⟩
  have hsingle : SingleRoot text :=
    ⟨[], [.startTag "plurals name=\"a\"".toList, .startTag "item quantity=\"one\"".toList,
        .text "x".toList, .endTag "item".toList, .endTag "plurals".toList], [],
      "resources".toList, "resources".toList, by decide +kernel, by decide, by decide +kernel,
      by decide⟩
  have haccepted : forall command, command ∈ mergeSortAdd -> command.Accepted := by
    have htext : forall value : Text, '<' ∉ value -> Fragment (EscapeMode.raw.apply value) :=
      fun _ hvalue => .of_text hvalue
    simp only [mergeSortAdd, List.forall_mem_cons, EditCommand.Accepted, List.not_mem_nil,
      false_implies, implies_true, and_true, true_and]
    exact ⟨⟨by decide, htext "y".toList (by decide), htext "z".toList (by decide)⟩, by decide,
      htext "u".toList (by decide), htext "v".toList (by decide)⟩
  refine ⟨document, hparse, hadded, ?_⟩
  apply (distinctQuantities_performAll_iff (by decide) hparse (fun _ => .inl hsingle) hdistinct
    haccepted).mpr
  intro count command quantities hcommand hmem
  rcases Nat.lt_or_ge count 3 with hlt | hge
  · exact hwritten count hlt command hcommand quantities hmem
  · rcases Nat.eq_or_lt_of_le hge with rfl | hgt
    · -- The loop of a removal does not evaluate, but whatever it does, it writes nothing.
      cases hcommand
      rw [writtenQuantities_remove] at hmem
      cases hmem
    · rw [List.getElem?_eq_none hgt] at hcommand
      cases hcommand

/-- Two forms of one quantity are given for a new element. -/
theorem not_distinctQuantities_addPlural :
    exists (document : Document) (forms : List (Quantity × Text)),
      parse "<resources></resources>".toList = .ok document ∧
        document.DistinctQuantities ∧
        CommandLine.parseQuantityPairs
            ["one".toList, "x".toList, "one".toList, "y".toList] = .ok forms ∧
        let added := document.perform (.addPlural "a".toList forms .escaped)
        added.result = .ok .applied ∧
          ¬ added.document.DistinctQuantities ∧
          added.document.quantities = [[.one, .one]] ∧
          added.document.entries =
            [⟨"a".toList, .plural (.ofList [(.one, "y".toList)]), true⟩] := by
  let forms : List (Quantity × Text) := [(.one, "x".toList), (.one, "y".toList)]
  have hrun : (parse "<resources></resources>".toList).map (fun document =>
      let added := document.perform (.addPlural "a".toList forms .escaped)
      decide (document.DistinctQuantities ∧ added.result = .ok .applied ∧
        ¬ added.document.DistinctQuantities ∧ added.document.quantities = [[.one, .one]] ∧
        added.document.entries =
          [⟨"a".toList, .plural (.ofList [(.one, "y".toList)]), true⟩])) = .ok true := by
    decide +kernel
  rcases Success.map_eq_ok_iff.mp hrun with ⟨document, hparse, hfacts⟩
  rcases of_decide_eq_true hfacts with ⟨hdistinct, hadded⟩
  exact ⟨document, forms, hparse, hdistinct, by decide, hadded⟩

end Document
end AndroidStrings
