import AndroidStrings.Error

/-!
# Batch reports

A batch edits several files, or several entries of one file, and reports on each of them.
-/

namespace AndroidStrings

inductive FailureKind where
  | notFound
  | invalid
  | other
  deriving DecidableEq, Repr

namespace FailureKind

def ofError : Error → FailureKind
  | .fileNotFound _ => notFound
  | .entryNotFound _ _ => notFound
  | .invalidValue _ _ => invalid
  | _ => other

end FailureKind

/-- What became of one target. -/
inductive TargetStatus where
  | applied
  | skipped (reason : Text)
  | failed (cause : Error)
  deriving DecidableEq, Repr

namespace TargetStatus

def isApplied : TargetStatus → Bool
  | applied => true
  | _ => false

def isSkipped : TargetStatus → Bool
  | skipped _ => true
  | _ => false

def isFailed : TargetStatus → Bool
  | failed _ => true
  | _ => false

end TargetStatus

structure TargetOutcome where
  target : Text
  status : TargetStatus
  deriving DecidableEq, Repr

structure BatchReport where
  outcomes : List TargetOutcome
  deriving DecidableEq, Repr

namespace BatchReport

def count (report : BatchReport) (wanted : TargetStatus → Bool) : Nat :=
  (report.outcomes.filter fun outcome => wanted outcome.status).length

def applied (report : BatchReport) : Nat :=
  report.count TargetStatus.isApplied

def skipped (report : BatchReport) : Nat :=
  report.count TargetStatus.isSkipped

def failed (report : BatchReport) : Nat :=
  report.count TargetStatus.isFailed

def hasFailures (report : BatchReport) : Bool :=
  decide (0 < report.failed)

/-- The status of the first outcome for a target. -/
def statusOf? (report : BatchReport) (target : Text) : Option TargetStatus :=
  (report.outcomes.find? fun outcome => outcome.target == target).map TargetOutcome.status

end BatchReport
end AndroidStrings
