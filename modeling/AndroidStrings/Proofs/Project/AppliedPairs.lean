import AndroidStrings.Proofs.Project.Refinement

/-!
# The pairs of a batch that are applied

A batch of strings works through its pairs one after another on one document, and a pair that
fails leaves the document to the pairs behind it as it was.  So the pairs that failed can be left
out: the others are applied again, one after another, and lead to the same files.

## Main statements

- `setStrings_appliedPairs` : the document behind the pairs that are applied.
- `setBatch_appliedPairs` : a batch without the pairs that failed.
-/

namespace AndroidStrings

namespace BatchReport

/-- The pairs that were applied, by their outcomes. -/
def appliedPairs (report : BatchReport) (pairs : List (Text × Text)) : List (Text × Text) :=
  ((pairs.zip report.outcomes).filter fun found => found.2.status.isApplied).map Prod.fst

/-- The report on pairs that are all applied. -/
def allApplied (pairs : List (Text × Text)) : BatchReport :=
  ⟨pairs.map fun pair => ⟨pair.1, .applied⟩⟩

theorem appliedPairs_cons_applied (id value : Text) (pairs : List (Text × Text))
    (outcomes : List TargetOutcome) :
    appliedPairs ⟨⟨id, .applied⟩ :: outcomes⟩ ((id, value) :: pairs) =
      (id, value) :: appliedPairs ⟨outcomes⟩ pairs :=
  rfl

theorem appliedPairs_cons_failed (id value : Text) (fault : Error) (pairs : List (Text × Text))
    (outcomes : List TargetOutcome) :
    appliedPairs ⟨⟨id, .failed fault⟩ :: outcomes⟩ ((id, value) :: pairs) =
      appliedPairs ⟨outcomes⟩ pairs :=
  rfl

end BatchReport

namespace ResourceDirectory

open BatchReport

section Strings

variable (directory : ResourceDirectory) (path : Text) (source : Option ResourceFile)
  (mode : EscapeMode) (create : Bool)

/-- What one pair of a batch makes of a document. -/
def setPair (document : Document) (pair : Text × Text) : Except Error Document :=
  if isKnown source pair.1 then
    (setOne mode create document pair.1 pair.2).mapError (locate path)
  else .error (.entryNotFound pair.1 directory.sourcePath)

variable {directory path source mode create}

theorem setStrings_cons_of_ok
    {document new : Document} {id value : Text}
    (h : setPair directory path source mode create document (id, value) = .ok new)
    (pairs : List (Text × Text)) :
    setStrings directory path source mode create document ((id, value) :: pairs) =
      ((setStrings directory path source mode create new pairs).1,
        ⟨id, .applied⟩ :: (setStrings directory path source mode create new pairs).2) := by
  rw [setPair] at h
  rw [setStrings]
  simp only [h]

theorem setStrings_cons_of_error
    {document : Document} {id value : Text} {fault : Error}
    (h : setPair directory path source mode create document (id, value) = .error fault)
    (pairs : List (Text × Text)) :
    setStrings directory path source mode create document ((id, value) :: pairs) =
      ((setStrings directory path source mode create document pairs).1,
        ⟨id, .failed fault⟩ ::
          (setStrings directory path source mode create document pairs).2) := by
  rw [setPair] at h
  rw [setStrings]
  simp only [h]

/-- Every pair is reported on, in order, and none is skipped. -/
theorem outcomes_setStrings
    {document final : Document} {pairs : List (Text × Text)} {outcomes : List TargetOutcome}
    (h : setStrings directory path source mode create document pairs = (final, outcomes)) :
    outcomes.map TargetOutcome.target = pairs.map Prod.fst ∧
      forall outcome, outcome ∈ outcomes ->
        outcome.status.isApplied = true ∨ outcome.status.isFailed = true := by
  induction pairs generalizing document outcomes with
  | nil =>
      rw [setStrings, Prod.mk.injEq] at h
      rw [← h.2]
      exact ⟨rfl, fun _ hmem => absurd hmem List.not_mem_nil⟩
  | cons pair pairs ih =>
      rcases pair with ⟨id, value⟩
      cases hpair : setPair directory path source mode create document (id, value) with
      | ok new =>
          rw [setStrings_cons_of_ok hpair, Prod.mk.injEq] at h
          rcases ih (Prod.ext h.1 rfl) with ⟨htargets, hstatuses⟩
          rw [← h.2, List.map_cons, List.map_cons, htargets]
          exact ⟨rfl, List.forall_mem_cons.mpr ⟨.inl rfl, hstatuses⟩⟩
      | error fault =>
          rw [setStrings_cons_of_error hpair, Prod.mk.injEq] at h
          rcases ih (Prod.ext h.1 rfl) with ⟨htargets, hstatuses⟩
          rw [← h.2, List.map_cons, List.map_cons, htargets]
          exact ⟨rfl, List.forall_mem_cons.mpr ⟨.inr rfl, hstatuses⟩⟩

/-- The pairs that are applied lead to the same document without the others, and are applied
again. -/
theorem setStrings_appliedPairs
    {document final : Document} {pairs : List (Text × Text)} {outcomes : List TargetOutcome}
    (h : setStrings directory path source mode create document pairs = (final, outcomes)) :
    setStrings directory path source mode create document (appliedPairs ⟨outcomes⟩ pairs) =
      (final, (allApplied (appliedPairs ⟨outcomes⟩ pairs)).outcomes) := by
  induction pairs generalizing document outcomes with
  | nil =>
      rw [setStrings, Prod.mk.injEq] at h
      rw [← h.1, ← h.2]
      rfl
  | cons pair pairs ih =>
      rcases pair with ⟨id, value⟩
      cases hpair : setPair directory path source mode create document (id, value) with
      | ok new =>
          rw [setStrings_cons_of_ok hpair, Prod.mk.injEq] at h
          have hrest := ih (Prod.ext h.1 rfl)
          rw [← h.2, appliedPairs_cons_applied, setStrings_cons_of_ok hpair, hrest]
          rfl
      | error fault =>
          -- The document that the rest starts from is the one that the failed pair started from.
          rw [setStrings_cons_of_error hpair, Prod.mk.injEq] at h
          rw [← h.2, appliedPairs_cons_failed]
          exact ih (Prod.ext h.1 rfl)

end Strings

theorem applied_allApplied (pairs : List (Text × Text)) :
    (allApplied pairs).applied = pairs.length := by
  rw [applied, count, allApplied, List.filter_eq_self.mpr, List.length_map]
  intro outcome houtcome
  rcases List.mem_map.mp houtcome with ⟨pair, _, rfl⟩
  rfl

/-- A batch counts as many outcomes as it has pairs that are applied. -/
theorem length_appliedPairs
    {pairs : List (Text × Text)} {report : BatchReport}
    (h : report.outcomes.map TargetOutcome.target = pairs.map Prod.fst) :
    (report.appliedPairs pairs).length = report.applied := by
  have hlength : report.outcomes.length ≤ pairs.length := by
    have hlengths := congrArg List.length h
    rw [List.length_map, List.length_map] at hlengths
    omega
  have hzip : (pairs.zip report.outcomes).map Prod.snd = report.outcomes :=
    List.map_snd_zip hlength
  rw [applied, count, ← hzip, List.filter_map, List.length_map, appliedPairs, List.length_map]
  rfl

/-- A batch that gives a report loads the file and the source, and reports on its pairs. -/
theorem exists_setStrings_of_setBatch
    {directory : ResourceDirectory} {tree left : FileTree} {language : Text}
    {pairs : List (Text × Text)} {mode : EscapeMode} {create : Bool} {report : BatchReport}
    (h : setBatch tree directory language pairs mode create = (.ok report, left)) :
    exists (document final : Document) (source : Option ResourceFile),
      load tree directory language = .ok document ∧
        reference tree directory language = .ok source ∧
        setStrings directory (directory.languagePath language) source mode create document pairs =
          (final, report.outcomes) ∧
        left = if 0 < report.applied then store tree directory language final else tree := by
  unfold setBatch at h
  split at h
  · cases h
  · rename_i document hload
    split at h
    · cases h
    · rename_i source hreference
      rcases hset : setStrings directory (directory.languagePath language) source mode create
        document pairs with ⟨final, outcomes⟩
      simp only [hset, Prod.mk.injEq, Except.ok.injEq] at h
      rcases h with ⟨rfl, rfl⟩
      exact ⟨document, final, source, hload, hreference, hset, rfl⟩

/-!
# Main statement
-/

/-- A batch reports on every pair in order, as applied or failed; and without the pairs that
failed, it applies all of the others and leaves the same files. -/
theorem setBatch_appliedPairs
    {directory : ResourceDirectory} {tree left : FileTree} {language : Text}
    {pairs : List (Text × Text)} {mode : EscapeMode} {create : Bool} {report : BatchReport}
    (h : setBatch tree directory language pairs mode create = (.ok report, left)) :
    report.outcomes.map TargetOutcome.target = pairs.map Prod.fst ∧
      (forall outcome, outcome ∈ report.outcomes ->
        outcome.status.isApplied = true ∨ outcome.status.isFailed = true) ∧
      setBatch tree directory language (report.appliedPairs pairs) mode create =
        (.ok (allApplied (report.appliedPairs pairs)), left) := by
  rcases exists_setStrings_of_setBatch h with
    ⟨document, final, source, hload, hreference, hset, rfl⟩
  rcases outcomes_setStrings hset with ⟨htargets, hstatuses⟩
  refine ⟨htargets, hstatuses, ?_⟩
  have happlied : (allApplied (report.appliedPairs pairs)).applied = report.applied := by
    rw [applied_allApplied, length_appliedPairs htargets]
  have hagain : setStrings directory (directory.languagePath language) source mode create document
      (report.appliedPairs pairs) =
        (final, (allApplied (report.appliedPairs pairs)).outcomes) :=
    setStrings_appliedPairs hset
  simp only [setBatch, hload, hreference, hagain]
  rw [show (⟨(allApplied (report.appliedPairs pairs)).outcomes⟩ : BatchReport) =
    allApplied (report.appliedPairs pairs) from rfl, happlied]

/-- Two values for the string of `sourceAndFrench`, between pairs that fail: a name that the source
does not have, and a value that may not be stored. -/
def mixedPairs : List (Text × Text) :=
  [("b".toList, "x".toList), ("a".toList, "y".toList), ("a".toList, "&pos;".toList),
    ("a".toList, "z".toList)]

theorem setBatch_appliedPairs_mixed :
    exists (report : BatchReport) (left : FileTree),
      setBatch sourceAndFrench ⟨"res".toList⟩ "fr".toList mixedPairs .raw true =
          (.ok report, left) ∧
        report.failed = 2 ∧
        left.readAt? "res/values-fr/strings.xml".toList =
          some (Encoding.encode "<resources><string name=\"a\">z</string></resources>".toList) ∧
        setBatch sourceAndFrench ⟨"res".toList⟩ "fr".toList
            [("a".toList, "y".toList), ("a".toList, "z".toList)] .raw true =
          (.ok (allApplied [("a".toList, "y".toList), ("a".toList, "z".toList)]), left) := by
  let done := setBatch sourceAndFrench ⟨"res".toList⟩ "fr".toList mixedPairs .raw true
  have hrun : done.1.map (fun report => (report.failed, report.appliedPairs mixedPairs)) =
      .ok (2, [("a".toList, "y".toList), ("a".toList, "z".toList)]) := by
    decide +kernel
  have hread : done.2.readAt? "res/values-fr/strings.xml".toList =
      some (Encoding.encode "<resources><string name=\"a\">z</string></resources>".toList) := by
    decide +kernel
  rcases Success.map_eq_ok_iff.mp hrun with ⟨report, hreport, hpairs⟩
  rw [Prod.mk.injEq] at hpairs
  have hdone : done = (.ok report, done.2) := Prod.ext hreport rfl
  refine ⟨report, done.2, hdone, hpairs.1, hread, ?_⟩
  rw [← hpairs.2]
  exact (setBatch_appliedPairs hdone).2.2

end ResourceDirectory
end AndroidStrings
