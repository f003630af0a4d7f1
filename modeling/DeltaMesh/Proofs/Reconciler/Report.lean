import DeltaMesh.Reconciler.Report

/-!
# The figures of a report

A report counts every result once: a value that was brought to a replica by what was done for it,
and a failure as such (`LocationReport.values_add_failures_ofResults`).
-/

namespace DeltaMesh

/-- The value could not be brought to the replica. -/
def ValueResult.failed (result : ValueResult) : Bool := !result.isOk

namespace LocationReport

variable (location : Id) (replicas : Nat) (results : List ValueResult)

theorem replicas_ofResults : (ofResults location replicas results).replicas = replicas := by
  suffices ∀ report : LocationReport,
      (results.foldl record report).replicas = report.replicas from this _
  induction results with
  | nil => exact fun _ => rfl
  | cons result results ih =>
    intro report
    rw [List.foldl_cons, ih]
    rcases result with why | (_ | _ | _) <;> rfl

theorem failures_ofResults :
    (ofResults location replicas results).failures = results.countP ValueResult.failed := by
  suffices ∀ report : LocationReport, (results.foldl record report).failures =
      report.failures + results.countP ValueResult.failed from (this _).trans (Nat.zero_add _)
  induction results with
  | nil => exact fun _ => rfl
  | cons result results ih =>
    intro report
    rw [List.foldl_cons, ih, List.countP_cons]
    rcases result with why | (_ | _ | _)
    case error => exact (Nat.add_assoc ..).trans (congrArg _ (Nat.add_comm ..))
    all_goals rfl

/-- The values were up to date, copied or brought by a delta. -/
theorem values_ofResults : (ofResults location replicas results).values =
    (ofResults location replicas results).upToDate + (ofResults location replicas results).copied +
      (ofResults location replicas results).synced := by
  suffices ∀ report : LocationReport,
      report.values = report.upToDate + report.copied + report.synced →
        (results.foldl record report).values = (results.foldl record report).upToDate +
          (results.foldl record report).copied + (results.foldl record report).synced from
    this _ rfl
  induction results with
  | nil => exact fun _ => id
  | cons result results ih =>
    intro report h
    refine ih (report.record result) ?_
    rcases result with why | (_ | _ | _) <;> simp only [record] <;> omega

theorem values_add_failures_ofResults :
    (ofResults location replicas results).values + (ofResults location replicas results).failures =
      results.length := by
  suffices ∀ report : LocationReport,
      (results.foldl record report).values + (results.foldl record report).failures =
        report.values + report.failures + results.length from (this _).trans (Nat.zero_add _)
  induction results with
  | nil => exact fun _ => rfl
  | cons result results ih =>
    intro report
    rw [List.foldl_cons, ih, List.length_cons]
    rcases result with why | (_ | _ | _) <;> simp only [record] <;> omega

end LocationReport

end DeltaMesh
