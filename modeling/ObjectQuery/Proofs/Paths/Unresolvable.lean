import ObjectQuery.Aliases.Resolve
import ObjectQuery.Proofs.Step.Failures

/-!
# Paths that cannot be resolved

* `CompileError.IsUnresolvable`: the errors that say so.
* `Aliases.resolve_failsWith`: a path fails with no other error.
-/

namespace ObjectQuery

open Step

/-- The error says that a path cannot be followed. -/
def CompileError.IsUnresolvable : CompileError → Prop
  | .unresolvableJoin .. => True
  | _ => False

namespace Aliases

variable {c : Catalog} {path : String} {o : Resolution}

theorem joinSegment_failsWith {P : CompileError → Prop} (cursor : Cursor) (segment : String)
    (target : Option String) : FailsWith P (joinSegment cursor segment target o) := by
  refine .bind .get fun a => ?_
  dsimp only
  split
  · exact .pure _
  · exact .bind (.modify _) fun _ => .pure _

theorem advance_failsWith (cursor : Cursor) (segment : String) :
    FailsWith CompileError.IsUnresolvable (advance c path o cursor segment) := by
  refine .bind (.ofReported _) fun property => ?_
  split
  · exact .bind (joinSegment_failsWith _ _ _) fun _ => .pure _
  · exact .fail trivial

theorem finish_failsWith {P : CompileError → Prop} (cursor : Cursor) (segment : String) :
    FailsWith P (finish c o cursor segment) := by
  refine .bind (.ofReported _) fun property => ?_
  split
  · split
    · exact .bind (joinSegment_failsWith _ _ _) fun _ => .pure _
    · exact .pure _
  · exact .pure _

theorem follow_failsWith (cursor : Cursor) (segments : List String) :
    FailsWith CompileError.IsUnresolvable (follow c path o cursor segments) := by
  match segments with
  | [] => exact .pure _
  | [last] => exact finish_failsWith cursor last
  | segment :: last :: rest =>
    have hfurther (isKey : Bool) : FailsWith CompileError.IsUnresolvable
        (if isKey then pure (cursor.aliasName, [segment, "id"])
          else do follow c path o (← advance c path o cursor segment) (last :: rest)) := by
      split
      · exact .pure _
      · exact .bind (advance_failsWith cursor segment) fun next =>
          follow_failsWith next (last :: rest)
    unfold follow
    dsimp only
    split
    · refine .bind (.ofReported _) fun property => ?_
      split
      · exact hfurther true
      · exact hfurther false
    · exact hfurther false

theorem startOf_failsWith : FailsWith CompileError.IsUnresolvable (startOf c path) := by
  refine .bind .get fun a => ?_
  dsimp only
  split
  · split
    · exact .pure _
    · exact .fail trivial
  · split
    · exact .pure _
    · exact .pure _

/-- Only a class without an alias and a segment that is no association are in the way of a path. -/
theorem resolve_failsWith : FailsWith CompileError.IsUnresolvable (resolve c path o) := by
  unfold resolve
  dsimp only
  split
  · exact .pure _
  · refine .bind startOf_failsWith fun start => ?_
    split
    · exact .pure _
    · exact .bind (follow_failsWith _ _) fun _ => .pure _

end Aliases

end ObjectQuery
