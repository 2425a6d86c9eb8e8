import SimpleCDatabase.Foundations.Traced

/-!
# Machines with outputs

A machine reads an input, gives an output and goes on in another state; some inputs are not legal in
some states. A computation that does the same step by step does the same along a run.

## Main definitions

* `Mealy.run`: the outputs of a run, and the state that it reaches.
* `Mealy.Legal`: a run on legal inputs.

## Main results

* `Mealy.legal_append`: a run in two parts.
* `Traced.runOutputs_computes`: from steps to runs.
-/

namespace Mealy

variable {A ι ο : Type} (step : A → ι → ο × A) (ok : A → ι → Prop)

/-- The outputs of a machine on a list of inputs, and the state that it reaches. -/
def run : A → List ι → List ο × A
  | a, [] => ([], a)
  | a, i :: is => ((step a i).1 :: (run (step a i).2 is).1, (run (step a i).2 is).2)

/-- Every input is legal in the state in which it is read. -/
def Legal : A → List ι → Prop
  | _, [] => True
  | a, i :: is => ok a i ∧ Legal (step a i).2 is

instance decidableLegal [∀ a i, Decidable (ok a i)] :
    ∀ (a : A) (is : List ι), Decidable (Legal step ok a is)
  | _, [] => .isTrue trivial
  | a, i :: is =>
    have := decidableLegal (step a i).2 is
    inferInstanceAs (Decidable (ok a i ∧ Legal step ok (step a i).2 is))

variable {step ok} {a : A} {is js : List ι}

theorem legal_append : Legal step ok a (is ++ js) ↔
    Legal step ok a is ∧ Legal step ok (run step a is).2 js := by
  induction is generalizing a with
  | nil => exact (and_iff_right trivial).symm
  | cons i is ih => simp only [List.cons_append, Legal, run, ih, and_assoc]

end Mealy

namespace Traced

variable {E σ ι κ ο π A : Type}

/-- **From steps to runs.** A computation whose steps, from a state that represents one of the
machine, give what the machine gives, leave a state that represents the next one and show events of
one kind, does so along every run on legal inputs. -/
theorem runOutputs_computes {step : σ → ι → Traced E (ο × σ)} {machine : A → κ → π × A}
    {ok : A → κ → Prop} {R : σ → A → Prop} {Carries : ι → κ → Prop} {Gives : ο → π → Prop}
    {P : E → Prop}
    (hstep : ∀ i k s a t, Carries i k → R s a → ok a k → (step s i).Ensures t fun r new =>
      (Gives r.1 (machine a k).1 ∧ R r.2 (machine a k).2) ∧ ∀ e ∈ new, P e)
    {is : List ι} {ks : List κ} (hcarries : List.Forall₂ Carries is ks) {s : σ} {a : A}
    (hs : R s a) (hok : Mealy.Legal machine ok a ks) (t : List E) :
    (runOutputs step s is).Ensures t fun r new =>
      (List.Forall₂ Gives r.1 (Mealy.run machine a ks).1 ∧ R r.2 (Mealy.run machine a ks).2) ∧
        ∀ e ∈ new, P e := by
  induction hcarries generalizing s a t with
  | nil => exact ⟨⟨.nil, hs⟩, fun e he => absurd he List.not_mem_nil⟩
  | @cons i k is ks hik _ ih =>
    refine (hstep i k s a t hik hs hok.1).bind ?_
    rintro ⟨o, s'⟩ new ⟨⟨hgives, hs'⟩, hnew⟩
    refine (ih hs' hok.2 _).bind ?_
    rintro ⟨os, s''⟩ new' ⟨⟨hall, hs''⟩, hnew'⟩
    refine ⟨⟨.cons hgives hall, hs''⟩, fun e he => ?_⟩
    exact (List.mem_append.mp he).elim (hnew' e) (hnew e)

end Traced
