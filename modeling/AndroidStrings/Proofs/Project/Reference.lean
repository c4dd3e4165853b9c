import AndroidStrings.CommandLine.Argument
import AndroidStrings.Proofs.Project.Unused
import AndroidStrings.Proofs.Text.CharClass

/-!
# References that are found

A reference is a mark and a word behind it, which goes on as far as word characters do.  No
reference has an `@` inside, so a search comes to every `@` of a text, and the references in front
of it, at it and behind it are found apart.  A name with a dot is no word, so that a reference to
it is read as one to the part in front of the dot.

## Main statements

- `StringReference.at?_eq_some_iff` : the references that are found at the front of a text.
- `StringReference.scan_append_at` : what is found on both sides of an `@`.
- `StringReference.scan_resource` : what is found around a reference of a resource.
- `SourceTree.refers_resource_iff` : what a tree refers to, around a reference in one of its files.
- `ResourceDirectory.notMem_unused_iff` : which strings with a reference are not reported.
-/

namespace AndroidStrings

open CharClass

namespace StringReference

/-!
# One reference
-/

/-- How a reference is spelled in front of a text. -/
inductive Spelled : StringReference -> Text -> Prop where
  | code {id rest : Text} :
      IsRun isWord id -> Stops isWord rest -> Spelled ⟨codeMark ++ id, id⟩ rest
  | resource {id rest : Text} :
      IsRun isWord id -> Stops isWord rest -> Spelled ⟨resourceMark ++ id, id⟩ rest
  | preference {id rest : Text} :
      IsRun isWord id -> Spelled ⟨preferenceMark ++ id ++ ['"'], id⟩ rest

theorem marked?_append
    {id rest : Text}
    (hrun : IsRun isWord id)
    (hstops : Stops isWord rest)
    (mark : Text) :
    marked? mark (mark ++ id ++ rest) = some ⟨mark ++ id, id⟩ := by
  rw [List.append_assoc, marked?, Text.stripPrefix?_eq_some_iff.mpr rfl]
  simp only [takeWhile_append_of_stops hrun.forall_mem hstops]
  cases id with
  | nil => exact absurd rfl hrun.ne_nil
  | cons c id => rfl

theorem exists_of_marked?
    {mark t : Text} {reference : StringReference}
    (h : marked? mark t = some reference) :
    exists id rest : Text, IsRun isWord id ∧ Stops isWord rest ∧
      reference = ⟨mark ++ id, id⟩ ∧ t = mark ++ id ++ rest := by
  unfold marked? at h
  split at h
  · cases h
  · rename_i rest hstrip
    split at h
    · cases h
    · rename_i id hid
      refine ⟨rest.takeWhile isWord, rest.dropWhile isWord, isRun_takeWhile hid,
        stops_dropWhile isWord rest, (Option.some.inj h).symm, ?_⟩
      rw [List.append_assoc, List.takeWhile_append_dropWhile]
      exact Text.append_of_stripPrefix? hstrip

theorem marked?_of_ne
    {c d : Char}
    (hne : c ≠ d)
    (mark t : Text) :
    marked? (d :: mark) (c :: t) = none := by
  have hstrip : Text.stripPrefix? (d :: mark) (c :: t) = none := by
    rw [Option.eq_none_iff_forall_ne_some]
    intro rest hrest
    exact hne (List.cons.inj (Text.append_of_stripPrefix? hrest)).1
  rw [marked?, hstrip]

theorem preference?_append
    {id : Text}
    (hrun : IsRun isWord id)
    (rest : Text) :
    preference? (preferenceMark ++ id ++ '"' :: rest) =
      some ⟨preferenceMark ++ id ++ ['"'], id⟩ := by
  rw [preference?, marked?_append hrun (stops_cons (by decide) rest)]
  simp only [List.drop_left, List.head?_cons, if_true]

theorem exists_of_preference?
    {t : Text} {reference : StringReference}
    (h : preference? t = some reference) :
    exists id rest : Text, IsRun isWord id ∧
      reference = ⟨preferenceMark ++ id ++ ['"'], id⟩ ∧ t = preferenceMark ++ id ++ '"' :: rest := by
  unfold preference? at h
  split at h
  · cases h
  · rename_i marked hmarked
    rcases exists_of_marked? hmarked with ⟨id, rest, hrun, _, rfl, rfl⟩
    rw [Option.ite_none_right_eq_some, List.drop_left, List.head?_eq_some_iff] at h
    rcases h with ⟨⟨after, rfl⟩, hreference⟩
    exact ⟨id, after, hrun, (Option.some.inj hreference).symm, rfl⟩

/-- A reference is found at the front of a text when it is spelled there. -/
theorem at?_eq_some_iff {t : Text} {reference : StringReference} :
    at? t = some reference ↔
      exists rest : Text, t = reference.token ++ rest ∧ Spelled reference rest := by
  constructor
  · intro h
    unfold at? at h
    split at h
    · rename_i hcode
      rw [Option.some.inj h] at hcode
      rcases exists_of_marked? hcode with ⟨id, rest, hrun, hstops, rfl, rfl⟩
      exact ⟨rest, rfl, .code hrun hstops⟩
    · split at h
      · rename_i hresource
        rw [Option.some.inj h] at hresource
        rcases exists_of_marked? hresource with ⟨id, rest, hrun, hstops, rfl, rfl⟩
        exact ⟨rest, rfl, .resource hrun hstops⟩
      · rcases exists_of_preference? h with ⟨id, rest, hrun, rfl, rfl⟩
        exact ⟨rest, by simp, .preference hrun⟩
  · rintro ⟨rest, rfl, hspelled⟩
    cases hspelled with
    | code hrun hstops => rw [at?, marked?_append hrun hstops]
    | @resource id _ hrun hstops =>
        have hcode : marked? codeMark (resourceMark ++ id ++ rest) = none :=
          marked?_of_ne (by decide) _ _
        rw [at?, hcode, marked?_append hrun hstops]
    | @preference id _ hrun =>
        have hcode : marked? codeMark (preferenceMark ++ id ++ '"' :: rest) = none :=
          marked?_of_ne (by decide) _ _
        have hresource : marked? resourceMark (preferenceMark ++ id ++ '"' :: rest) = none :=
          marked?_of_ne (by decide) _ _
        rw [List.append_assoc, List.singleton_append, at?, hcode, hresource,
          preference?_append hrun]

namespace Spelled

variable {reference : StringReference} {rest : Text}

theorem isRun (h : Spelled reference rest) : IsRun isWord reference.id := by
  cases h with
  | code hrun _ => exact hrun
  | resource hrun _ => exact hrun
  | preference hrun => exact hrun

/-- A reference has at most its first character in common with the mark of a resource. -/
theorem exists_token
    (h : Spelled reference rest) :
    exists (c : Char) (tail : Text), reference.token = c :: tail ∧ '@' ∉ tail := by
  have hid : '@' ∉ reference.id := h.isRun.not_mem (by decide)
  cases h with
  | @code id _ _ _ =>
      exact ⟨'R', ".string.".toList ++ id, rfl, List.not_mem_append (by decide) hid⟩
  | @resource id _ _ _ =>
      exact ⟨'@', "string/".toList ++ id, rfl, List.not_mem_append (by decide) hid⟩
  | @preference id _ _ =>
      exact ⟨'"', "pref_key_".toList ++ id ++ ['"'], rfl,
        List.not_mem_append (List.not_mem_append (by decide) hid) (by decide)⟩

/-- Whether a word ends in front of an `@` is seen without it. -/
theorem append_at_iff (more : Text) :
    Spelled reference (rest ++ '@' :: more) ↔ Spelled reference rest := by
  have hstops : Stops isWord (rest ++ '@' :: more) ↔ Stops isWord rest :=
    stops_append_cons_iff (by decide) more
  constructor
  · intro h
    cases h with
    | code hrun h => exact .code hrun (hstops.mp h)
    | resource hrun h => exact .resource hrun (hstops.mp h)
    | preference hrun => exact .preference hrun
  · intro h
    cases h with
    | code hrun h => exact .code hrun (hstops.mpr h)
    | resource hrun h => exact .resource hrun (hstops.mpr h)
    | preference hrun => exact .preference hrun

end Spelled

/-!
# All references of a text
-/

theorem scan_of_spelled
    {reference : StringReference} {rest : Text}
    (h : Spelled reference rest) :
    scan (reference.token ++ rest) = reference.id :: scan rest := by
  have hfound : at? (reference.token ++ rest) = some reference :=
    at?_eq_some_iff.mpr ⟨rest, rfl, h⟩
  rcases h.exists_token with ⟨c, tail, htoken, _⟩
  rw [htoken, List.cons_append] at hfound ⊢
  rw [scan, hfound]
  simp [htoken]

/-- A reference that is found in front of an `@` is found without it. -/
theorem at?_append_at
    {c : Char} {t more : Text} {reference : StringReference}
    (h : at? (c :: t ++ '@' :: more) = some reference) :
    at? (c :: t) = some reference := by
  rcases at?_eq_some_iff.mp h with ⟨rest, hsplit, hspelled⟩
  rcases hspelled.exists_token with ⟨d, tail, htoken, htail⟩
  rw [htoken, List.cons_append, List.cons_append, List.cons.injEq] at hsplit
  rcases hsplit with ⟨rfl, hsplit⟩
  rcases List.append_eq_append_iff.mp hsplit with ⟨between, hbetween, hmore⟩ | ⟨after, rfl, rfl⟩
  · cases between with
    | nil =>
        rw [List.nil_append] at hmore
        rw [List.append_nil] at hbetween
        rw [← hmore] at hspelled
        have hends : Spelled reference [] := (Spelled.append_at_iff more).mp hspelled
        exact at?_eq_some_iff.mpr ⟨[], by rw [htoken, hbetween, List.append_nil], hends⟩
    | cons e between =>
        rw [List.cons_append, List.cons.injEq] at hmore
        rw [hbetween, ← hmore.1] at htail
        exact absurd (List.mem_append_right t List.mem_cons_self) htail
  · have hends := (Spelled.append_at_iff more).mp hspelled
    exact at?_eq_some_iff.mpr ⟨after, by rw [htoken, List.cons_append], hends⟩

/-- A search comes to every `@`. -/
theorem scan_append_at (front more : Text) :
    scan (front ++ '@' :: more) = scan front ++ scan ('@' :: more) := by
  fun_induction scan front with
  | case1 => rfl
  | case2 c t reference hfound ih =>
      rcases at?_eq_some_iff.mp hfound with ⟨rest, hsplit, hspelled⟩
      have hrest : t.drop (reference.token.length - 1) = rest := by
        rcases hspelled.exists_token with ⟨d, tail, htoken, _⟩
        rw [htoken, List.cons_append, List.cons.injEq] at hsplit
        rw [htoken, hsplit.2, List.length_cons, Nat.add_sub_cancel, List.drop_left]
      rw [hrest] at ih ⊢
      rw [hsplit, List.append_assoc, scan_of_spelled ((Spelled.append_at_iff more).mpr hspelled), ih,
        List.cons_append]
  | case3 c t hnone ih =>
      have hboth : at? (c :: t ++ '@' :: more) = none := by
        rw [Option.eq_none_iff_forall_ne_some]
        intro reference hfound
        rw [at?_append_at hfound] at hnone
        cases hnone
      rw [List.cons_append] at hboth ⊢
      rw [scan, hboth, ih]

/-- A reference of a resource is read as one to the word behind its mark. -/
theorem scan_resource
    {t : Text}
    (hword : t.takeWhile isWord ≠ [])
    (front : Text) :
    scan (front ++ resourceMark ++ t) =
      scan front ++ t.takeWhile isWord :: scan (t.dropWhile isWord) := by
  have hspelled : Spelled ⟨resourceMark ++ t.takeWhile isWord, t.takeWhile isWord⟩
      (t.dropWhile isWord) :=
    .resource (isRun_takeWhile hword) (stops_dropWhile isWord t)
  have hscan := scan_of_spelled hspelled
  simp only [List.append_assoc, List.takeWhile_append_dropWhile] at hscan
  rw [List.append_assoc, ← hscan]
  exact scan_append_at front _

/-- The names that are found are words. -/
theorem isRun_of_mem_scan
    {id t : Text}
    (h : id ∈ scan t) :
    IsRun isWord id := by
  fun_induction scan t with
  | case1 => cases h
  | case2 c t reference hfound ih =>
      rcases at?_eq_some_iff.mp hfound with ⟨rest, _, hspelled⟩
      rcases List.mem_cons.mp h with rfl | hrest
      · exact hspelled.isRun
      · exact ih hrest
  | case3 c t hnone ih => exact ih h

end StringReference

/-!
# Names that are accepted
-/

namespace CommandLine

variable {id back : Text}

theorem isWord_of_isIdChar
    {c : Char}
    (h : isIdChar c = true)
    (hdot : c ≠ '.') :
    isWord c = true := by
  simp only [isIdChar, Bool.or_eq_true, beq_iff_eq] at h
  rcases h with (halphanumeric | rfl) | rfl
  · exact isWord_of_isAsciiAlphanumeric halphanumeric
  · decide
  · exact absurd rfl hdot

/-- A name that is accepted and has no dot is a word. -/
theorem forall_isWord_of_isValidId
    (h : isValidId id = true)
    (hdot : '.' ∉ id) :
    forall c : Char, c ∈ id -> isWord c = true := by
  intro c hc
  have hne : c ≠ '.' := fun heq => hdot (heq ▸ hc)
  exact isWord_of_isIdChar (forall_isIdChar_of_isValidId h c hc) hne

/-- A name that is accepted begins with a word. -/
theorem takeWhile_isWord_ne_nil
    (h : isValidId id = true) :
    (id ++ back).takeWhile isWord ≠ [] := by
  cases id with
  | nil => cases h
  | cons c t =>
      rw [isValidId, Bool.and_eq_true] at h
      have hne : c ≠ '.' := by
        rintro rfl
        exact absurd h.1 (by decide)
      have hword := isWord_of_isIdChar (isIdChar_of_isIdStart h.1) hne
      rw [List.cons_append, List.takeWhile_cons_of_pos hword]
      exact List.cons_ne_nil c _

/-- The word that a text begins with is an accepted name if the name has no dot and no word
character follows it. -/
theorem takeWhile_isWord_eq_iff
    (h : isValidId id = true)
    (hdot : '.' ∉ id) :
    (id ++ back).takeWhile isWord = id ↔ Stops isWord back := by
  have hword := forall_isWord_of_isValidId h hdot
  constructor
  · intro hsame
    rw [List.takeWhile_append_of_pos hword, List.append_right_eq_self] at hsame
    intro c hc
    rw [List.head?_eq_some_iff] at hc
    rcases hc with ⟨rest, rfl⟩
    rw [Bool.eq_false_iff]
    intro hcword
    rw [List.takeWhile_cons_of_pos hcword] at hsame
    cases hsame
  · exact takeWhile_append_of_stops hword

end CommandLine

/-!
# Strings that are not reported
-/

namespace SourceTree

/-- The names that a file refers to are words. -/
theorem notMem_dot_of_mem_references
    {tree : FileTree} {file : Path} {id : Text}
    (h : id ∈ references tree file) :
    '.' ∉ id := by
  unfold references at h
  split at h
  · exact (StringReference.isRun_of_mem_scan h).not_mem (by decide)
  · cases h

/-- What a file refers to, around a reference of a resource in it. -/
theorem mem_references_iff
    {tree : FileTree} {file : Path} {front id back : Text}
    (htext : (tree.read? file).bind Encoding.decodeStrict? =
      some (front ++ StringReference.resourceMark ++ (id ++ back)))
    (hid : CommandLine.isValidId id = true)
    (hdot : '.' ∉ id) :
    id ∈ references tree file ↔
      Stops isWord back ∨ id ∈ StringReference.scan front ∨
        id ∈ StringReference.scan (back.dropWhile isWord) := by
  simp only [references, htext]
  rw [StringReference.scan_resource (CommandLine.takeWhile_isWord_ne_nil hid), List.mem_append,
    List.mem_cons, eq_comm, CommandLine.takeWhile_isWord_eq_iff hid hdot,
    List.dropWhile_append_of_pos (CommandLine.forall_isWord_of_isValidId hid hdot), or_left_comm]

/-- Where a file that is read has a reference of a resource to an accepted name, the tree refers to
the name when it has no dot and this reference ends with it, or when some other reference is read
as one to it. -/
theorem refers_resource_iff
    {tree : FileTree} {sources front id back : Text} {files : List Path} {file : Path}
    (hid : CommandLine.isValidId id = true)
    (hfiles : SourceTree.files tree sources = .ok files)
    (hfile : file ∈ files)
    (htext : (tree.read? file).bind Encoding.decodeStrict? =
      some (front ++ StringReference.resourceMark ++ (id ++ back))) :
    Refers tree sources id ↔
      '.' ∉ id ∧
        (Stops isWord back ∨ id ∈ StringReference.scan front ∨
          id ∈ StringReference.scan (back.dropWhile isWord) ∨
          exists other, other ∈ files ∧ other ≠ file ∧ id ∈ references tree other) := by
  rw [refers_iff hfiles]
  constructor
  · rintro ⟨other, hother, hmem⟩
    have hdot := notMem_dot_of_mem_references hmem
    refine ⟨hdot, ?_⟩
    by_cases hsame : other = file
    · rw [hsame, mem_references_iff htext hid hdot] at hmem
      rcases hmem with hstops | hfront | hback
      · exact .inl hstops
      · exact .inr (.inl hfront)
      · exact .inr (.inr (.inl hback))
    · exact .inr (.inr (.inr ⟨other, hother, hsame, hmem⟩))
  · rintro ⟨hdot, hseen⟩
    have hhere := mem_references_iff htext hid hdot
    rcases hseen with hstops | hfront | hback | ⟨other, hother, _, hmem⟩
    · exact ⟨file, hfile, hhere.mpr (.inl hstops)⟩
    · exact ⟨file, hfile, hhere.mpr (.inr (.inl hfront))⟩
    · exact ⟨file, hfile, hhere.mpr (.inr (.inr hback))⟩
    · exact ⟨other, hother, hmem⟩

end SourceTree

namespace ResourceDirectory

/-- There is a report where the source file is read and the source tree is there. -/
theorem exists_unused
    {tree : FileTree} {directory : ResourceDirectory} {sources : Text}
    {source : Document} {files : List Path}
    (hsource : load tree directory Qualifier.sourceLanguage = .ok source)
    (hfiles : SourceTree.files tree sources = .ok files) :
    exists ids : List Text, directory.unused tree sources = .ok ids := by
  simp only [unused, loadSourceResource, loadResource, hsource, Except.map, hfiles]
  exact ⟨_, rfl⟩

/-- Where a file that is read has a reference of a resource to a string of the source file, the
string is not reported when its name has no dot and this reference ends with the name, or when
some other reference is read as one to it. -/
theorem notMem_unused_iff
    {tree : FileTree} {directory : ResourceDirectory} {sources front id back : Text}
    {files : List Path} {file : Path} {source : Document}
    (hsource : load tree directory Qualifier.sourceLanguage = .ok source)
    (hstring : (EntryKind.string, id) ∈ source.order)
    (hid : CommandLine.isValidId id = true)
    (hfiles : SourceTree.files tree sources = .ok files)
    (hfile : file ∈ files)
    (htext : (tree.read? file).bind Encoding.decodeStrict? =
      some (front ++ StringReference.resourceMark ++ (id ++ back))) :
    exists ids : List Text, directory.unused tree sources = .ok ids ∧
      (id ∉ ids ↔
        '.' ∉ id ∧
          (Stops isWord back ∨ id ∈ StringReference.scan front ∨
            id ∈ StringReference.scan (back.dropWhile isWord) ∨
            exists other, other ∈ files ∧ other ≠ file ∧
              id ∈ SourceTree.references tree other)) := by
  rcases exists_unused hsource hfiles with ⟨ids, hunused⟩
  rcases exists_reported_of_unused hunused with ⟨source', hsource', hreported⟩
  rw [hsource, Except.ok.injEq] at hsource'
  subst hsource'
  rcases List.mem_map.mp hstring with ⟨entry, hentry, hkey⟩
  have hnamed : exists entry, entry ∈ source.entries ∧ entry.kind = .string ∧ entry.id = id :=
    ⟨entry, hentry, congrArg Prod.fst hkey, congrArg Prod.snd hkey⟩
  have hnot : id ∉ ids ↔ SourceTree.Refers tree sources id := by
    rw [hreported, and_iff_right hnamed, not_not]
  exact ⟨ids, hunused, hnot.trans (SourceTree.refers_resource_iff hid hfiles hfile htext)⟩

/-- A source file with one string, and one layout. -/
def oneLayout (name layout : String) : FileTree :=
  ⟨[(["app".toList, "res".toList, "values".toList, fileName],
      Encoding.encode ("<resources><string name=\"" ++ name ++ "\">x</string></resources>").toList),
    (["app".toList, "main.xml".toList], Encoding.encode layout.toList)], []⟩

theorem notMem_unused_iff_layout :
    let tree := oneLayout "used" "<T a=\"@string/old.er\" b=\"@string/used\"/>"
    let directory : ResourceDirectory := ⟨"app/res".toList⟩
    let layout : Path := ["app".toList, "main.xml".toList]
    SourceTree.files tree "app".toList =
        .ok [["app".toList, "res".toList, "values".toList, fileName], layout] ∧
      (tree.read? layout).bind Encoding.decodeStrict? =
        some ("<T a=\"@string/old.er\" b=\"".toList ++ StringReference.resourceMark ++
          ("used".toList ++ "\"/>".toList)) ∧
      exists ids : List Text,
        directory.unused tree "app".toList = .ok ids ∧ "used".toList ∉ ids := by
  intro tree directory layout
  have hfiles : SourceTree.files tree "app".toList =
      .ok [["app".toList, "res".toList, "values".toList, fileName], layout] := by
    decide +kernel
  have htext : (tree.read? layout).bind Encoding.decodeStrict? =
      some ("<T a=\"@string/old.er\" b=\"".toList ++ StringReference.resourceMark ++
        ("used".toList ++ "\"/>".toList)) := by
    decide +kernel
  have horder : (load tree directory Qualifier.sourceLanguage).map Document.order =
      .ok [(.string, "used".toList)] := by
    decide +kernel
  rcases Success.map_eq_ok_iff.mp horder with ⟨source, hsource, hnames⟩
  have hstring : (EntryKind.string, "used".toList) ∈ source.order := by
    rw [hnames]
    exact List.mem_singleton_self _
  have hstops : Stops CharClass.isWord "\"/>".toList := stops_cons (by decide) _
  rcases notMem_unused_iff hsource hstring (by decide) hfiles (by decide) htext with
    ⟨ids, hunused, hkept⟩
  exact ⟨hfiles, htext, ids, hunused, hkept.mpr ⟨by decide, .inl hstops⟩⟩

/-- A name with a dot is reported, although a layout refers to it. -/
theorem unused_dottedName :
    let tree := oneLayout "a.b" "<T t=\"@string/a.b\"/>"
    let directory : ResourceDirectory := ⟨"app/res".toList⟩
    let layout : Path := ["app".toList, "main.xml".toList]
    CommandLine.isValidId "a.b".toList = true ∧
      SourceTree.files tree "app".toList =
        .ok [["app".toList, "res".toList, "values".toList, fileName], layout] ∧
      (tree.read? layout).bind Encoding.decodeStrict? =
        some ("<T t=\"".toList ++ StringReference.resourceMark ++
          ("a.b".toList ++ "\"/>".toList)) ∧
      directory.unused tree "app".toList = .ok ["a.b".toList] := by
  decide +kernel

end ResourceDirectory
end AndroidStrings
