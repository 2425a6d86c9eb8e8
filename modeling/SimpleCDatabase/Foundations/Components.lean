import Mathlib.Logic.Function.Basic
import SimpleCDatabase.Foundations.Traced

/-!
# Systems of components

A system has components that take turns: each has a state of its own, and all have one state in
common. A step is a step of one component, which sees the common state, its own state and its own
events. The transcript of the system names the component of every event. Whatever the order of
the steps, a component does not see that of the others, except through the common state.

## Main definitions

* `Traced.own`: the events, or the inputs, of one component.
* `Traced.within`: a computation of a component, in the transcript of the system.
* `Traced.interleave`: a step of the system.
* `Traced.sequential`: a step of a system whose components take an input at once.

## Main results

* `Traced.interleave_invariant`: what the steps of the components preserve is preserved by every
  run, whatever the order of the steps.
* `Traced.interleave_guarded`: the same where a guard holds of every step.
* `Traced.interleave_inputs`: the same, for what a component keeps relative to its own inputs.
* `Traced.interleave_alone`: when the steps of a component do not depend on the common state, up
  to a relation, a run of the system does to it what a run of its own inputs does.
* `Traced.interleave_simulates`: from steps that a sequential system matches to runs that it
  matches.
-/

namespace Traced

variable {ι E E' α β S L L' A : Type} [DecidableEq ι]

/-! ### Transcripts -/

/-- The events of one component, or its inputs. -/
def own (i : ι) (log : List (ι × E)) : List E :=
  log.filterMap fun e => if e.1 = i then some e.2 else none

@[simp] theorem own_nil (i : ι) : own i ([] : List (ι × E)) = [] := rfl

@[simp] theorem own_append (i : ι) (new log : List (ι × E)) :
    own i (new ++ log) = own i new ++ own i log :=
  List.filterMap_append

theorem own_cons_self (i : ι) (e : E) (log : List (ι × E)) :
    own i ((i, e) :: log) = e :: own i log := by
  simp [own]

theorem own_cons_of_ne {i j : ι} (h : j ≠ i) (e : E) (log : List (ι × E)) :
    own i ((j, e) :: log) = own i log := by
  simp [own, h]

/-- The events of a component that all its events belong to. -/
theorem own_map_self (i : ι) (new : List E) : own i (new.map (Prod.mk i)) = new := by
  induction new with
  | nil => rfl
  | cons e new ih => rw [List.map_cons, own_cons_self, ih]

/-- The events of another component. -/
theorem own_map_of_ne {i j : ι} (h : j ≠ i) (new : List E) : own i (new.map (Prod.mk j)) = [] := by
  induction new with
  | nil => rfl
  | cons e new ih => rw [List.map_cons, own_cons_of_ne h, ih]

/-- A part of every event, of one component and of the system. -/
theorem own_filterMap (i : ι) (f : E → Option β) (log : List (ι × E)) :
    own i (log.filterMap fun e => (f e.2).map (Prod.mk e.1)) = (own i log).filterMap f := by
  induction log with
  | nil => rfl
  | cons e log ih =>
    obtain ⟨j, e⟩ := e
    by_cases hj : j = i
    · subst hj
      rw [own_cons_self]
      cases h : f e with
      | none => simp only [List.filterMap_cons, h, Option.map_none, ih]
      | some b => simp only [List.filterMap_cons, h, Option.map_some, own_cons_self, ih]
    · rw [own_cons_of_ne hj]
      cases h : f e with
      | none => simp only [List.filterMap_cons, h, Option.map_none, ih]
      | some b => simp only [List.filterMap_cons, h, Option.map_some, own_cons_of_ne hj, ih]

/-- What belongs to a component, with a part of it taken. -/
theorem own_map (i : ι) (f : E → β) (log : List (ι × E)) :
    own i (log.map fun e => (e.1, f e.2)) = (own i log).map f := by
  have h := own_filterMap i (fun e => some (f e)) log
  simpa only [Option.map_some, List.filterMap_eq_map'] using h

theorem mem_own {i : ι} {e : E} {log : List (ι × E)} : e ∈ own i log ↔ (i, e) ∈ log := by
  simp [own, List.mem_filterMap]

theorem own_reverse (i : ι) (log : List (ι × E)) : own i log.reverse = (own i log).reverse :=
  List.filterMap_reverse

/-! ### Steps -/

/-- A computation of a component: it sees the events of the component, and adds to them. -/
def within (i : ι) (x : Traced E α) : Traced (ι × E) α :=
  ⟨fun log => ((x.run (own i log)).1, (x.run (own i log)).2.map (Prod.mk i))⟩

/-- A step of the system: one component takes an input. -/
def interleave (step : ι → S → L → A → Traced E (S × L)) (s : S × (ι → L)) (a : ι × A) :
    Traced (ι × E) (S × (ι → L)) := do
  let r ← within a.1 (step a.1 s.1 (s.2 a.1) a.2)
  pure (r.1, Function.update s.2 a.1 r.2)

/-- A step of the system, from the step of the component. -/
theorem interleave_ensures {step : ι → S → L → A → Traced E (S × L)} {s : S} {ls : ι → L} {i : ι}
    {a : A} {log : List (ι × E)} {Q : S × (ι → L) → List (ι × E) → Prop}
    (h : (step i s (ls i) a).Ensures (own i log) fun r new =>
      Q (r.1, Function.update ls i r.2) (new.map (Prod.mk i))) :
    (interleave step (s, ls) (i, a)).Ensures log Q :=
  h

/-! ### Runs -/

section Runs

variable {step : ι → S → L → A → Traced E (S × L)}

/-- What the step of one component preserves. -/
private theorem interleave_preserves {Common : S → List (ι × E) → Prop}
    {Local : ι → L → List E → Prop} {i : ι} {a : A} {s : S} {ls : ι → L} {log : List (ι × E)}
    (hstep : (step i s (ls i) a).Ensures (own i log) fun r new =>
      Common r.1 (new.map (Prod.mk i) ++ log) ∧ Local i r.2 (new ++ own i log))
    (hls : ∀ i, Local i (ls i) (own i log)) :
    (interleave step (s, ls) (i, a)).Ensures log fun r new =>
      Common r.1 (new ++ log) ∧ ∀ i, Local i (r.2 i) (own i (new ++ log)) := by
  obtain ⟨hcommon, hlocal⟩ := hstep
  refine interleave_ensures ⟨hcommon, fun j => ?_⟩
  by_cases hj : j = i
  · subst hj
    simpa only [Function.update_self, own_append, own_map_self] using hlocal
  · simpa only [Function.update_of_ne hj, own_append, own_map_of_ne (Ne.symm hj),
      List.nil_append] using hls j

/-- **Invariants of systems.** A property of the common state and the transcript, and one of the
state and the events of each component, that the step of a component preserves, are preserved by
every run. The properties of the components that take no step are not touched. -/
theorem interleave_invariant (Common : S → List (ι × E) → Prop) (Local : ι → L → List E → Prop)
    (as : List (ι × A))
    (hstep : ∀ i a, (i, a) ∈ as → ∀ s l log, Common s log → Local i l (own i log) →
      (step i s l a).Ensures (own i log) fun r new =>
        Common r.1 (new.map (Prod.mk i) ++ log) ∧ Local i r.2 (new ++ own i log))
    {s : S} {ls : ι → L} {log : List (ι × E)} (hs : Common s log)
    (hls : ∀ i, Local i (ls i) (own i log)) :
    (runAll (interleave step) (s, ls) as).Ensures log fun r new =>
      Common r.1 (new ++ log) ∧ ∀ i, Local i (r.2 i) (own i (new ++ log)) :=
  runAll_invariant (interleave step)
    (fun s log => Common s.1 log ∧ ∀ i, Local i (s.2 i) (own i log)) as
    (fun a hmem s log ⟨hs, hls⟩ =>
      interleave_preserves (hstep a.1 a.2 hmem s.1 (s.2 a.1) log hs (hls a.1)) hls)
    (s, ls) log ⟨hs, hls⟩

/-- **Invariants of guarded systems.** The same for what the step of a component preserves where a
guard holds, in a run that satisfies the guard throughout. -/
theorem interleave_guarded (ok : ι → S → L → List E → A → Prop)
    (Common : S → List (ι × E) → Prop) (Local : ι → L → List E → Prop)
    (hstep : ∀ i a s l log, ok i s l (own i log) a → Common s log → Local i l (own i log) →
      (step i s l a).Ensures (own i log) fun r new =>
        Common r.1 (new.map (Prod.mk i) ++ log) ∧ Local i r.2 (new ++ own i log))
    (as : List (ι × A)) {s : S} {ls : ι → L} {log : List (ι × E)}
    (hguard : Guarded (interleave step)
      (fun s log a => ok a.1 s.1 (s.2 a.1) (own a.1 log) a.2) (s, ls) log as)
    (hs : Common s log) (hls : ∀ i, Local i (ls i) (own i log)) :
    (runAll (interleave step) (s, ls) as).Ensures log fun r new =>
      Common r.1 (new ++ log) ∧ ∀ i, Local i (r.2 i) (own i (new ++ log)) :=
  runAll_guarded (interleave step) _
    (fun s log => Common s.1 log ∧ ∀ i, Local i (s.2 i) (own i log))
    (fun s log a hok ⟨hs, hls⟩ =>
      interleave_preserves (hstep a.1 a.2 s.1 (s.2 a.1) log hok hs (hls a.1)) hls)
    as (s, ls) log hguard ⟨hs, hls⟩

private theorem interleave_inputs_after (Local : ι → List A → L → List E → Prop)
    (hstep : ∀ i earlier a s l log, Local i earlier l log →
      (step i s l a).Ensures log fun r new => Local i (earlier ++ [a]) r.2 (new ++ log))
    (as : List (ι × A)) {earlier : ι → List A} {s : S} {ls : ι → L} {log : List (ι × E)}
    (hls : ∀ i, Local i (earlier i) (ls i) (own i log)) :
    (runAll (interleave step) (s, ls) as).Ensures log fun r new =>
      ∀ i, Local i (earlier i ++ own i as) (r.2 i) (own i (new ++ log)) := by
  induction as generalizing earlier s ls log with
  | nil => exact fun i => (List.append_nil (earlier i)).symm ▸ hls i
  | cons a as ih =>
    obtain ⟨i, a⟩ := a
    rw [runAll, ensures_bind]
    refine interleave_ensures ((hstep i (earlier i) a s (ls i) (own i log) (hls i)).mono
      fun r new hr => ?_)
    have hnext := @ih (Function.update earlier i (earlier i ++ [a])) r.1
      (Function.update ls i r.2) (new.map (Prod.mk i) ++ log) fun j => ?_
    · refine hnext.mono fun r' new' hr' j => ?_
      rw [List.append_assoc]
      by_cases hj : j = i
      · subst hj
        simpa only [Function.update_self, own_cons_self, List.append_assoc,
          List.singleton_append] using hr' j
      · simpa only [Function.update_of_ne hj, own_cons_of_ne (Ne.symm hj)] using hr' j
    · by_cases hj : j = i
      · subst hj
        simpa only [Function.update_self, own_append, own_map_self] using hr
      · simpa only [Function.update_of_ne hj, own_append, own_map_of_ne (Ne.symm hj),
          List.nil_append] using hls j

/-- **Inputs of components.** What the steps of a component keep, relative to the inputs that it has
taken, holds after every run relative to its own inputs, whatever the order of the steps. -/
theorem interleave_inputs (Local : ι → List A → L → List E → Prop)
    (hstep : ∀ i earlier a s l log, Local i earlier l log →
      (step i s l a).Ensures log fun r new => Local i (earlier ++ [a]) r.2 (new ++ log))
    (as : List (ι × A)) {s : S} {ls : ι → L} {log : List (ι × E)}
    (hls : ∀ i, Local i [] (ls i) (own i log)) :
    (runAll (interleave step) (s, ls) as).Ensures log fun r new =>
      ∀ i, Local i (own i as) (r.2 i) (own i (new ++ log)) :=
  interleave_inputs_after Local hstep as hls

/-- **A component in a system and on its own.** When a step of a component and a step on its own
from related states lead to related states, whatever the common state, the run of a system leaves
the component related to what a run of its own inputs leaves. -/
theorem interleave_alone (i : ι) (alone : L' → A → Traced E' L')
    (R : L → List E → L' → List E' → Prop) (as : List (ι × A))
    (hstep : ∀ a, (i, a) ∈ as → ∀ s l log l' log', R l log l' log' →
      (step i s l a).Ensures log fun r new => (alone l' a).Ensures log' fun r' new' =>
        R r.2 (new ++ log) r' (new' ++ log'))
    {s : S} {ls : ι → L} {log : List (ι × E)} {l' : L'} {log' : List E'}
    (h : R (ls i) (own i log) l' log') :
    (runAll (interleave step) (s, ls) as).Ensures log fun r new =>
      (runAll alone l' (own i as)).Ensures log' fun r' new' =>
        R (r.2 i) (own i (new ++ log)) r' (new' ++ log') := by
  induction as generalizing s ls log l' log' with
  | nil => exact h
  | cons a as ih =>
    obtain ⟨j, a⟩ := a
    have hrest (a : A) (hmem : (i, a) ∈ as) := hstep a (List.mem_cons_of_mem _ hmem)
    rw [runAll, ensures_bind]
    refine interleave_ensures ?_
    by_cases hj : j = i
    · subst hj
      have hfirst := hstep a List.mem_cons_self s (ls j) (own j log) l' log' h
      rw [own_cons_self, runAll]
      refine hfirst.mono fun r new hr => ?_
      rw [Ensures] at hr
      have hstart : R (Function.update ls j r.2 j) (own j (new.map (Prod.mk j) ++ log))
          ((alone l' a).run log').1 (((alone l' a).run log').2 ++ log') := by
        simpa only [Function.update_self, own_append, own_map_self] using hr
      refine (ih hrest hstart).mono fun r new' hr' => ?_
      simpa only [Ensures, run_bind, List.append_assoc] using hr'
    · rw [own_cons_of_ne hj]
      refine (show (step j s (ls j) a).Ensures (own j log) fun _ _ => True from trivial).mono
        fun r new _ => ?_
      have hstart :
          R (Function.update ls j r.2 i) (own i (new.map (Prod.mk j) ++ log)) l' log' := by
        simpa only [Function.update_of_ne (Ne.symm hj), own_append, own_map_of_ne hj,
          List.nil_append] using h
      refine (ih hrest hstart).mono fun r new' hr' => ?_
      simpa only [Ensures, List.append_assoc] using hr'

/-- A step of a sequential system: one component takes an input at once. -/
def sequential {W C : Type} (spec : ι → W → C → A → W × C) (v : W × (ι → C)) (a : ι × A) :
    W × (ι → C) :=
  ((spec a.1 v.1 (v.2 a.1) a.2).1, Function.update v.2 a.1 (spec a.1 v.1 (v.2 a.1) a.2).2)

/-- **Simulation by a sequential system.** When every step of a component is matched by what the
component of a sequential system makes of the input, every run is matched by a sequential one. What
is ahead of a component may be relied on, as long as it does not depend on the other components. -/
theorem interleave_simulates {W C : Type} (spec : ι → W → C → A → W × C) (Common : W → S → Prop)
    (Local : ι → C → L → List E → Prop) (Ahead : ι → C → List A → Prop)
    (hahead : ∀ i w c a as, Ahead i c (a :: as) → Ahead i (spec i w c a).2 as)
    (hstep : ∀ i a as w c s l log, Ahead i c (a :: as) → Common w s → Local i c l log →
      (step i s l a).Ensures log fun r new =>
        Common (spec i w c a).1 r.1 ∧ Local i (spec i w c a).2 r.2 (new ++ log))
    (as : List (ι × A)) {w : W} {cs : ι → C} {s : S} {ls : ι → L} {log : List (ι × E)}
    (has : ∀ i, Ahead i (cs i) (own i as)) (hs : Common w s)
    (hls : ∀ i, Local i (cs i) (ls i) (own i log)) :
    (runAll (interleave step) (s, ls) as).Ensures log fun r new =>
      Common (as.foldl (sequential spec) (w, cs)).1 r.1 ∧
        ∀ i, Local i ((as.foldl (sequential spec) (w, cs)).2 i) (r.2 i) (own i (new ++ log)) := by
  induction as generalizing w cs s ls log with
  | nil => exact ⟨hs, hls⟩
  | cons a as ih =>
    obtain ⟨i, a⟩ := a
    have hi : Ahead i (cs i) (a :: own i as) := own_cons_self i a as ▸ has i
    rw [runAll, ensures_bind]
    have hone := hstep i a (own i as) w (cs i) s (ls i) (own i log) hi hs (hls i)
    refine interleave_ensures (hone.mono fun r new hr => ?_)
    have hnext := @ih (spec i w (cs i) a).1 (Function.update cs i (spec i w (cs i) a).2) r.1
      (Function.update ls i r.2) (new.map (Prod.mk i) ++ log) (fun j => ?_) hr.1 fun j => ?_
    · refine hnext.mono fun r' new' hr' => ?_
      rw [← List.append_assoc] at hr'
      exact hr'
    · by_cases hj : j = i
      · subst hj
        rw [Function.update_self]
        exact hahead j w (cs j) a _ hi
      · rw [Function.update_of_ne hj]
        exact own_cons_of_ne (Ne.symm hj) a as ▸ has j
    · by_cases hj : j = i
      · subst hj
        simpa only [Function.update_self, own_append, own_map_self] using hr.2
      · simpa only [Function.update_of_ne hj, own_append, own_map_of_ne (Ne.symm hj),
          List.nil_append] using hls j

end Runs

end Traced
