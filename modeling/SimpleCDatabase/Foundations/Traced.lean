import Mathlib.Data.List.Basic

/-!
# Computations with a transcript

A computation that calls out to an environment is written as a function of the *transcript*, the
list of all events so far, the newest first. It returns a value together with the events it
adds. The answers of the environment are functions of the transcript, so that a statement about
every environment covers every pattern of answers, and a computation cannot remove an event.

## Main definitions

* `Traced E α`: computations with events `E` and values `α`, a monad.
* `Traced.emit`, `Traced.emits`, `Traced.answer`, `Traced.ask`: recording an event or several,
  asking the environment and recording its answer, asking it without a record.
* `Traced.Ensures`: a postcondition on the value and on the events added.
* `Traced.Alike`: two computations with the same events and related values.
* `Traced.loop`, `Traced.LoopGuarded`: a loop, and one whose iterations satisfy a condition.
* `Traced.LoopReturns`: a loop without a bound that is left.
* `Traced.runAll`: a run of a list of inputs through a step.
* `Traced.Guarded`: a run whose steps all satisfy a condition.
* `Traced.runOutputs`, `Traced.Runs`: runs with outputs, of a step and of an abstract system.

## Main results

* `Traced.ensures_bind`: the rule of composition.
* `Traced.run_loop_fuel`, `Traced.loop_returns`, `Traced.loop_guarded`: a loop ends, and what its
  iterations preserve.
* `Traced.runAll_guarded_inputs`, `Traced.runAll_guarded`, `Traced.runAll_invariant`,
  `Traced.runAll_inputs`: what every step preserves is preserved by every run.
* `Traced.runAll_lawful_iff`, `Traced.runOutputs_exact`: whether a guard holds throughout a run.
* `Traced.runAll_events_iff`: what kind of events a run adds.
* `Traced.runOutputs_simulates`: forward simulation, from steps to runs.
-/

/-- Computations that see the transcript so far, newest event first, and add events to it. -/
structure Traced (E α : Type) where
  /-- The value and the events added, newest first, from the transcript so far. -/
  run : List E → α × List E

namespace Traced

variable {E α β σ ι : Type}

instance : Monad (Traced E) where
  pure a := ⟨fun _ => (a, [])⟩
  bind x f := ⟨fun t =>
    let r := (f (x.run t).1).run ((x.run t).2 ++ t)
    (r.1, r.2 ++ (x.run t).2)⟩

/-- Record an event. -/
def emit (e : E) : Traced E Unit := ⟨fun _ => ((), [e])⟩

/-- Record events, the most recent first. -/
def emits (es : List E) : Traced E Unit := ⟨fun _ => ((), es)⟩

/-- Ask the environment, and record the event of its answer. -/
def answer (ask : List E → α) (event : α → E) : Traced E α :=
  ⟨fun t => (ask t, [event (ask t)])⟩

@[simp] theorem run_pure (a : α) (t : List E) : (pure a : Traced E α).run t = (a, []) := rfl

@[simp] theorem run_bind (x : Traced E α) (f : α → Traced E β) (t : List E) :
    (x >>= f).run t = (((f (x.run t).1).run ((x.run t).2 ++ t)).1,
      ((f (x.run t).1).run ((x.run t).2 ++ t)).2 ++ (x.run t).2) := rfl

@[simp] theorem run_emit (e : E) (t : List E) : (emit e).run t = ((), [e]) := rfl

@[simp] theorem run_answer (ask : List E → α) (event : α → E) (t : List E) :
    (answer ask event).run t = (ask t, [event (ask t)]) := rfl

/-- Look at the environment, without an event. -/
def ask (look : List E → α) : Traced E α := ⟨fun t => (look t, [])⟩

@[simp] theorem run_ask (look : List E → α) (t : List E) : (ask look).run t = (look t, []) := rfl

theorem ext {x y : Traced E α} (h : ∀ t, x.run t = y.run t) : x = y :=
  congrArg mk (funext h)

theorem run_ite (c : Prop) [Decidable c] (x y : Traced E α) (t : List E) :
    (if c then x else y).run t = if c then x.run t else y.run t := by
  split <;> rfl

/-! ### Postconditions -/

/-- From the transcript `t`, the computation returns a value and adds events that satisfy `Q`. -/
def Ensures (x : Traced E α) (t : List E) (Q : α → List E → Prop) : Prop :=
  Q (x.run t).1 (x.run t).2

theorem ensures_pure {a : α} {t : List E} {Q : α → List E → Prop} :
    (pure a : Traced E α).Ensures t Q ↔ Q a [] :=
  Iff.rfl

/-- The rule of composition: the second computation starts from the transcript that the first
one leaves. -/
theorem ensures_bind {x : Traced E α} {f : α → Traced E β} {t : List E}
    {Q : β → List E → Prop} :
    (x >>= f).Ensures t Q ↔
      x.Ensures t fun a new => (f a).Ensures (new ++ t) fun b new' => Q b (new' ++ new) :=
  Iff.rfl

theorem ensures_emit {e : E} {t : List E} {Q : Unit → List E → Prop} :
    (emit e).Ensures t Q ↔ Q () [e] :=
  Iff.rfl

theorem ensures_answer {ask : List E → α} {event : α → E} {t : List E}
    {Q : α → List E → Prop} : (answer ask event).Ensures t Q ↔ Q (ask t) [event (ask t)] :=
  Iff.rfl

theorem ensures_ask {look : List E → α} {t : List E} {Q : α → List E → Prop} :
    (ask look).Ensures t Q ↔ Q (look t) [] :=
  Iff.rfl

theorem Ensures.mono {x : Traced E α} {t : List E} {Q R : α → List E → Prop}
    (h : x.Ensures t Q) (hQR : ∀ a new, Q a new → R a new) : x.Ensures t R :=
  hQR _ _ h

theorem Ensures.bind {x : Traced E α} {f : α → Traced E β} {t : List E}
    {Q : α → List E → Prop} {R : β → List E → Prop} (h : x.Ensures t Q)
    (hf : ∀ a new, Q a new → (f a).Ensures (new ++ t) fun b new' => R b (new' ++ new)) :
    (x >>= f).Ensures t R :=
  hf _ _ h

theorem ensures_ite {c : Prop} [Decidable c] {x y : Traced E α} {t : List E}
    {Q : α → List E → Prop} (hx : c → x.Ensures t Q) (hy : ¬c → y.Ensures t Q) :
    (if c then x else y).Ensures t Q := by
  split
  · exact hx ‹_›
  · exact hy ‹_›

/-! ### Two computations -/

/-- Two computations add the same events from every transcript, and return related values. -/
def Alike (R : α → β → Prop) (x : Traced E α) (y : Traced E β) : Prop :=
  ∀ t, R (x.run t).1 (y.run t).1 ∧ (x.run t).2 = (y.run t).2

theorem alike_of_eq {x y : Traced E α} (h : x = y) : Alike Eq x y := by
  subst h
  exact fun _ => ⟨rfl, rfl⟩

theorem alike_of_ensures {x : Traced E α} {P : α → Prop} (h : ∀ t, x.Ensures t fun a _ => P a) :
    Alike (fun a b => a = b ∧ P a) x x :=
  fun t => ⟨⟨rfl, h t⟩, rfl⟩

theorem alike_pure {R : α → β → Prop} {a : α} {b : β} (h : R a b) :
    Alike R (pure a : Traced E α) (pure b) :=
  fun _ => ⟨h, rfl⟩

/-- The rule of composition for two computations. -/
theorem Alike.bind {γ δ : Type} {R : α → β → Prop} {S : γ → δ → Prop} {x : Traced E α}
    {y : Traced E β} {f : α → Traced E γ} {g : β → Traced E δ} (h : Alike R x y)
    (hfg : ∀ a b, R a b → Alike S (f a) (g b)) : Alike S (x >>= f) (y >>= g) := by
  intro t
  obtain ⟨hR, hnew⟩ := h t
  obtain ⟨hS, hnew'⟩ := hfg _ _ hR ((x.run t).2 ++ t)
  rw [run_bind, run_bind, ← hnew]
  exact ⟨hS, congrArg (· ++ (x.run t).2) hnew'⟩

theorem alike_ite {R : α → β → Prop} {c : Prop} [Decidable c] {x x' : Traced E α}
    {y y' : Traced E β} (h : c → Alike R x y) (h' : ¬c → Alike R x' y') :
    Alike R (if c then x else x') (if c then y else y') := by
  split
  · exact h ‹_›
  · exact h' ‹_›

/-! ### Loops -/

/-- A loop that its body leaves by `done`, with a bound on the number of iterations. -/
def loop (body : σ → Traced E (ForInStep σ)) : ℕ → σ → Traced E σ
  | 0, s => pure s
  | fuel + 1, s => do
    match ← body s with
    | .yield s' => loop body fuel s'
    | .done s' => pure s'

/-- Every iteration of a loop begins in a state and a transcript that satisfy `ok`. -/
def LoopGuarded (body : σ → Traced E (ForInStep σ)) (ok : σ → List E → Prop) :
    ℕ → σ → List E → Prop
  | 0, _, _ => True
  | fuel + 1, s, t =>
    ok s t ∧ ∀ s', ((body s).run t).1 = .yield s' →
      LoopGuarded body ok fuel s' (((body s).run t).2 ++ t)

instance decidableLoopGuarded (body : σ → Traced E (ForInStep σ)) (ok : σ → List E → Prop)
    [∀ s t, Decidable (ok s t)] :
    (fuel : ℕ) → (s : σ) → (t : List E) → Decidable (LoopGuarded body ok fuel s t)
  | 0, _, _ => isTrue trivial
  | fuel + 1, s, t =>
    match h : ((body s).run t).1 with
    | .done _ => decidable_of_iff (ok s t) (by simp [LoopGuarded, h])
    | .yield s' =>
      have := decidableLoopGuarded body ok fuel s' (((body s).run t).2 ++ t)
      decidable_of_iff (ok s t ∧ LoopGuarded body ok fuel s' (((body s).run t).2 ++ t))
        (by simp [LoopGuarded, h])

theorem loopGuarded_of_forall (body : σ → Traced E (ForInStep σ)) {ok : σ → List E → Prop}
    (h : ∀ s t, ok s t) (fuel : ℕ) (s : σ) (t : List E) : LoopGuarded body ok fuel s t := by
  induction fuel generalizing s t with
  | zero => trivial
  | succ fuel ih => exact ⟨h s t, fun s' _ => ih s' _⟩

/-- One iteration that goes on. -/
theorem run_loop_yield {body : σ → Traced E (ForInStep σ)} {s s' : σ} {t : List E}
    (h : ((body s).run t).1 = .yield s') (fuel : ℕ) :
    (loop body (fuel + 1) s).run t =
      (((loop body fuel s').run (((body s).run t).2 ++ t)).1,
        ((loop body fuel s').run (((body s).run t).2 ++ t)).2 ++ ((body s).run t).2) := by
  rw [loop, run_bind, h]

/-- One iteration that leaves the loop. -/
theorem run_loop_done {body : σ → Traced E (ForInStep σ)} {s s' : σ} {t : List E}
    (h : ((body s).run t).1 = .done s') (fuel : ℕ) :
    (loop body (fuel + 1) s).run t = (s', ((body s).run t).2) := by
  rw [loop, run_bind, h]
  rfl

/-- **The bound is not reached** by a loop whose iterations that go on keep an invariant and make
a measure smaller: a bound above the measure can be replaced by any other. -/
theorem run_loop_fuel {body : σ → Traced E (ForInStep σ)} (size : σ → ℕ) (Inv : σ → Prop)
    (hbody : ∀ s t s', Inv s → ((body s).run t).1 = .yield s' → Inv s' ∧ size s' < size s)
    {s : σ} (hs : Inv s) {fuel fuel' : ℕ} (h : size s < fuel) (h' : size s < fuel') (t : List E) :
    (loop body fuel s).run t = (loop body fuel' s).run t := by
  induction fuel generalizing s t fuel' with
  | zero => exact absurd h (Nat.not_lt_zero _)
  | succ fuel ih =>
    obtain _ | fuel' := fuel'
    · exact absurd h' (Nat.not_lt_zero _)
    cases hstep : ((body s).run t).1 with
    | done s' => rw [run_loop_done hstep, run_loop_done hstep]
    | yield s' =>
      obtain ⟨hs', hlt⟩ := hbody s t s' hs hstep
      rw [run_loop_yield hstep, run_loop_yield hstep,
        ih hs' (Nat.lt_of_lt_of_le hlt (Nat.le_of_lt_succ h))
          (Nat.lt_of_lt_of_le hlt (Nat.le_of_lt_succ h'))]

/-- **Invariants of guarded loops.** What every iteration that goes on preserves where the guard
holds is there at the start of the last iteration, and what that one leaves holds at the end. -/
theorem loop_guarded (body : σ → Traced E (ForInStep σ)) (ok Inv Final : σ → List E → Prop)
    (hyield : ∀ s t s', ok s t → Inv s t → ((body s).run t).1 = .yield s' →
      Inv s' (((body s).run t).2 ++ t))
    (hdone : ∀ s t s', ok s t → Inv s t → ((body s).run t).1 = .done s' →
      Final s' (((body s).run t).2 ++ t))
    (hfinal : ∀ s t, Inv s t → Final s t) (fuel : ℕ) (s : σ) (t : List E)
    (hguard : LoopGuarded body ok fuel s t) (hs : Inv s t) :
    Final ((loop body fuel s).run t).1 (((loop body fuel s).run t).2 ++ t) := by
  induction fuel generalizing s t with
  | zero => exact hfinal s t hs
  | succ fuel ih =>
    cases hstep : ((body s).run t).1 with
    | done s' =>
      rw [run_loop_done hstep]
      exact hdone s t s' hguard.1 hs hstep
    | yield s' =>
      rw [run_loop_yield hstep, List.append_assoc]
      exact ih s' _ (hguard.2 s' hstep) (hyield s t s' hguard.1 hs hstep)

/-- **Invariants of loops.** What every iteration preserves is preserved by the loop. -/
theorem loop_invariant (body : σ → Traced E (ForInStep σ)) (Inv : σ → List E → Prop)
    (hbody : ∀ s t, Inv s t → Inv ((body s).run t).1.value (((body s).run t).2 ++ t))
    (fuel : ℕ) (s : σ) (t : List E) (hs : Inv s t) :
    Inv ((loop body fuel s).run t).1 (((loop body fuel s).run t).2 ++ t) := by
  refine loop_guarded body (fun _ _ => True) Inv Inv (fun s t s' _ hInv hstep => ?_)
    (fun s t s' _ hInv hstep => ?_) (fun _ _ => id) fuel s t
    (loopGuarded_of_forall body (fun _ _ => trivial) fuel s t) hs
  · have h := hbody s t hInv
    rwa [hstep] at h
  · have h := hbody s t hInv
    rwa [hstep] at h

/-! ### Runs -/

/-- The run of a list of inputs through a step, from a state. -/
def runAll (step : σ → ι → Traced E σ) : σ → List ι → Traced E σ
  | s, [] => pure s
  | s, i :: is => do
    let s' ← step s i
    runAll step s' is

/-- A run in two parts. -/
theorem run_runAll_append (step : σ → ι → Traced E σ) (is js : List ι) (s : σ) (t : List E) :
    ((runAll step s (is ++ js)).run t).2 =
      ((runAll step ((runAll step s is).run t).1 js).run
        (((runAll step s is).run t).2 ++ t)).2 ++ ((runAll step s is).run t).2 := by
  induction is generalizing s t with
  | nil => simp only [List.nil_append, runAll, run_pure, List.append_nil]
  | cons i is ih => simp only [List.cons_append, runAll, run_bind, ih, List.append_assoc]

/-- Every step of a run is taken at a state, a transcript and an input that satisfy `ok`. -/
def Guarded (step : σ → ι → Traced E σ) (ok : σ → List E → ι → Prop) :
    σ → List E → List ι → Prop
  | _, _, [] => True
  | s, t, i :: is =>
    ok s t i ∧ Guarded step ok ((step s i).run t).1 (((step s i).run t).2 ++ t) is

instance decidableGuarded (step : σ → ι → Traced E σ) (ok : σ → List E → ι → Prop)
    [∀ s t i, Decidable (ok s t i)] :
    (s : σ) → (t : List E) → (is : List ι) → Decidable (Guarded step ok s t is)
  | _, _, [] => isTrue trivial
  | s, t, i :: is =>
    have := decidableGuarded step ok ((step s i).run t).1 (((step s i).run t).2 ++ t) is
    inferInstanceAs (Decidable (ok s t i ∧ _))

/-- **Invariants of guarded runs that mention the inputs** so far, the last one at the end. What
every step preserves where the guard holds is preserved by a run that satisfies the guard
throughout. -/
theorem runAll_guarded_inputs (step : σ → ι → Traced E σ) (ok : σ → List E → ι → Prop)
    (Inv : List ι → σ → List E → Prop)
    (hstep : ∀ js i s t, ok s t i → Inv js s t →
      Inv (js ++ [i]) ((step s i).run t).1 (((step s i).run t).2 ++ t))
    (js is : List ι) (s : σ) (t : List E) (hguard : Guarded step ok s t is) (hs : Inv js s t) :
    Inv (js ++ is) ((runAll step s is).run t).1 (((runAll step s is).run t).2 ++ t) := by
  induction is generalizing js s t with
  | nil =>
    rw [List.append_nil]
    exact hs
  | cons i is ih =>
    have hrest := ih _ _ _ hguard.2 (hstep js i s t hguard.1 hs)
    simpa only [runAll, run_bind, List.append_assoc, List.singleton_append] using hrest

/-- **Invariants of guarded runs.** A property of the state and the transcript that every step
preserves where the guard holds is preserved by a run that satisfies the guard throughout. -/
theorem runAll_guarded (step : σ → ι → Traced E σ) (ok : σ → List E → ι → Prop)
    (Inv : σ → List E → Prop)
    (hstep : ∀ s t i, ok s t i → Inv s t → Inv ((step s i).run t).1 (((step s i).run t).2 ++ t))
    (is : List ι) (s : σ) (t : List E) (hguard : Guarded step ok s t is) (hs : Inv s t) :
    Inv ((runAll step s is).run t).1 (((runAll step s is).run t).2 ++ t) :=
  runAll_guarded_inputs step ok (fun _ => Inv) (fun _ i s t => hstep s t i) [] is s t hguard hs

theorem guarded_of_forall (step : σ → ι → Traced E σ) {ok : σ → List E → ι → Prop}
    {is : List ι} (h : ∀ i ∈ is, ∀ s t, ok s t i) (s : σ) (t : List E) :
    Guarded step ok s t is := by
  induction is generalizing s t with
  | nil => trivial
  | cons i is ih =>
    exact ⟨h i List.mem_cons_self s t, ih (fun j hj => h j (List.mem_cons_of_mem i hj)) _ _⟩

/-- **Invariants of runs.** A property of the state and the transcript that every step with an
input of the list preserves is preserved by the run. -/
theorem runAll_invariant (step : σ → ι → Traced E σ) (Inv : σ → List E → Prop) (is : List ι)
    (hstep : ∀ i ∈ is, ∀ s t, Inv s t →
      Inv ((step s i).run t).1 (((step s i).run t).2 ++ t))
    (s : σ) (t : List E) (hs : Inv s t) :
    Inv ((runAll step s is).run t).1 (((runAll step s is).run t).2 ++ t) :=
  runAll_guarded step (fun _ _ i => i ∈ is) Inv (fun s t i hi => hstep i hi s t) is s t
    (guarded_of_forall step (fun _ hi _ _ => hi) s t) hs

/-- A guard may be replaced by another one that it implies where an invariant holds that it
preserves. -/
theorem Guarded.imp {step : σ → ι → Traced E σ} {ok ok' : σ → List E → ι → Prop}
    (Inv : σ → Prop) (hstep : ∀ s t i, ok s t i → Inv s → Inv ((step s i).run t).1)
    (h : ∀ s t i, ok s t i → Inv s → ok' s t i) {s : σ} (hs : Inv s) {t : List E} {is : List ι}
    (hguard : Guarded step ok s t is) : Guarded step ok' s t is := by
  induction is generalizing s t with
  | nil => trivial
  | cons i is ih =>
    exact ⟨h s t i hguard.1 hs, ih (hstep s t i hguard.1 hs) hguard.2⟩

/-- A guard may be replaced by another one that agrees with it where an invariant holds. -/
theorem guarded_congr (step : σ → ι → Traced E σ) {ok ok' : σ → List E → ι → Prop}
    (Inv : σ → Prop) (hstep : ∀ s t i, Inv s → Inv ((step s i).run t).1)
    (h : ∀ s t i, Inv s → (ok s t i ↔ ok' s t i)) {s : σ} (hs : Inv s) (t : List E)
    (is : List ι) : Guarded step ok s t is ↔ Guarded step ok' s t is :=
  ⟨.imp Inv (fun s t i _ => hstep s t i) (fun s t i hok hs => (h s t i hs).mp hok) hs,
    .imp Inv (fun s t i _ => hstep s t i) (fun s t i hok hs => (h s t i hs).mpr hok) hs⟩

/-- A run satisfies two guards exactly when it satisfies each of them. -/
theorem guarded_and (step : σ → ι → Traced E σ) (ok ok' : σ → List E → ι → Prop) (s : σ)
    (t : List E) (is : List ι) :
    Guarded step (fun s t i => ok s t i ∧ ok' s t i) s t is ↔
      Guarded step ok s t is ∧ Guarded step ok' s t is := by
  induction is generalizing s t with
  | nil => exact iff_of_true trivial ⟨trivial, trivial⟩
  | cons i is ih =>
    rw [Guarded, ih, and_and_and_comm]
    exact Iff.rfl

/-- The events of a run are of a kind exactly when those of each of its steps are. -/
theorem runAll_events_iff (step : σ → ι → Traced E σ) (P : E → Prop) (s : σ) (t : List E)
    (is : List ι) :
    (∀ e ∈ ((runAll step s is).run t).2, P e) ↔
      Guarded step (fun s t i => ∀ e ∈ ((step s i).run t).2, P e) s t is := by
  induction is generalizing s t with
  | nil => exact iff_of_true (fun e he => absurd he List.not_mem_nil) trivial
  | cons i is ih =>
    rw [runAll, run_bind, List.forall_mem_append, ih, and_comm]
    exact Iff.rfl

/-- **Invariants of runs that mention the inputs** so far, the last one at the end. -/
theorem runAll_inputs (step : σ → ι → Traced E σ) (Inv : List ι → σ → List E → Prop)
    (hstep : ∀ js i s t, Inv js s t →
      Inv (js ++ [i]) ((step s i).run t).1 (((step s i).run t).2 ++ t))
    (js is : List ι) (s : σ) (t : List E) (hs : Inv js s t) :
    Inv (js ++ is) ((runAll step s is).run t).1 (((runAll step s is).run t).2 ++ t) :=
  runAll_guarded_inputs step (fun _ _ _ => True) Inv (fun js i s t _ => hstep js i s t) js is s t
    (guarded_of_forall step (fun _ _ _ _ => trivial) s t) hs

/-- **Runs that break a law at the first step out of line.** When a step within the guard keeps an
invariant, which contains the law, and any other step breaks the law for good, the law holds at the
end of a run exactly when every step is within the guard. `en` are the steps that can be taken. -/
theorem runAll_lawful_iff (step : σ → ι → Traced E σ) (en ok : σ → List E → ι → Prop)
    (Inv : σ → List E → Prop) (Law : List E → Prop) (hlaw : ∀ s t, Inv s t → Law t)
    (hmono : ∀ new t, Law (new ++ t) → Law t)
    (hkeep : ∀ s t i, en s t i → ok s t i → Inv s t →
      Inv ((step s i).run t).1 (((step s i).run t).2 ++ t))
    (hbreak : ∀ s t i, en s t i → ¬ok s t i → Inv s t → ¬Law (((step s i).run t).2 ++ t))
    (is : List ι) (s : σ) (t : List E) (hguard : Guarded step en s t is) (hs : Inv s t) :
    Law (((runAll step s is).run t).2 ++ t) ↔ Guarded step ok s t is := by
  induction is generalizing s t with
  | nil => exact iff_of_true (hlaw s t hs) trivial
  | cons i is ih =>
    obtain ⟨hen, hguard⟩ := hguard
    simp only [runAll, run_bind, List.append_assoc, Guarded]
    by_cases hok : ok s t i
    · rw [ih _ _ hguard (hkeep s t i hen hok hs), and_iff_right hok]
    · exact iff_of_false (fun h => hbreak s t i hen hok hs (hmono _ _ h)) fun h => hok h.1

/-! ### Runs with outputs -/

variable {ο A : Type}

/-- The run of a list of inputs through a step with outputs. -/
def runOutputs (step : σ → ι → Traced E (ο × σ)) : σ → List ι → Traced E (List ο × σ)
  | s, [] => pure ([], s)
  | s, i :: is => do
    let (o, s') ← step s i
    let (os, s'') ← runOutputs step s' is
    pure (o :: os, s'')

theorem runOutputs_map {κ : Type} (step : σ → ι → Traced E (ο × σ)) (f : κ → ι) (s : σ)
    (is : List κ) :
    runOutputs step s (is.map f) = runOutputs (fun s i => step s (f i)) s is := by
  induction is generalizing s with
  | nil => rfl
  | cons i is ih => simp only [List.map_cons, runOutputs, ih]

/-- A run with outputs adds the events of the run without them. -/
theorem run_runOutputs_events (step : σ → ι → Traced E (ο × σ)) (s : σ) (t : List E)
    (is : List ι) :
    ((runOutputs step s is).run t).2 = ((runAll (fun s i => do
      let (_, s') ← step s i
      pure s') s is).run t).2 := by
  induction is generalizing s t with
  | nil => rfl
  | cons i is ih =>
    simp only [runOutputs, runAll, run_bind, run_pure, List.nil_append, ih]

/-- A property of the state and the transcript that every step with an input of the list
preserves is preserved by the run with outputs. -/
theorem runOutputs_invariant (step : σ → ι → Traced E (ο × σ)) (Inv : σ → List E → Prop)
    (is : List ι)
    (hstep : ∀ i ∈ is, ∀ s t, Inv s t → Inv ((step s i).run t).1.2 (((step s i).run t).2 ++ t))
    (s : σ) (t : List E) (hs : Inv s t) :
    Inv ((runOutputs step s is).run t).1.2 (((runOutputs step s is).run t).2 ++ t) := by
  induction is generalizing s t with
  | nil => exact hs
  | cons i is ih =>
    have hnext := hstep i List.mem_cons_self s t hs
    have hrest := ih (fun j hj => hstep j (List.mem_cons_of_mem i hj)) _ _ hnext
    simpa only [runOutputs, run_bind, run_pure, List.nil_append, List.append_assoc] using hrest

/-- **Exact invariants of runs with outputs.** When every step with an input of the list keeps
track of whether the guard holds, the run keeps track of whether it holds throughout. -/
theorem runOutputs_exact (step : σ → ι → Traced E (ο × σ)) (ok : σ → List E → ι → Prop)
    (Inv : Prop → σ → List E → Prop) (is : List ι)
    (hstep : ∀ i ∈ is, ∀ c s t, Inv c s t →
      Inv (c ∧ ok s t i) ((step s i).run t).1.2 (((step s i).run t).2 ++ t))
    (c : Prop) (s : σ) (t : List E) (hs : Inv c s t) :
    Inv (c ∧ Guarded (fun s i => do let (_, s') ← step s i; pure s') ok s t is)
      ((runOutputs step s is).run t).1.2 (((runOutputs step s is).run t).2 ++ t) := by
  induction is generalizing c s t with
  | nil => simpa only [Guarded, and_true, runOutputs, run_pure, List.nil_append] using hs
  | cons i is ih =>
    have hnext := hstep i List.mem_cons_self c s t hs
    have hrest := ih (fun j hj => hstep j (List.mem_cons_of_mem i hj)) _ _ _ hnext
    simpa only [Guarded, runOutputs, run_bind, run_pure, List.nil_append, List.append_assoc,
      and_assoc] using hrest

/-- A run of an abstract system from a state, with inputs, outputs and the state reached. -/
inductive Runs (Step : A → ι → ο → A → Prop) : A → List ι → List ο → A → Prop where
  | nil (a : A) : Runs Step a [] [] a
  | cons {a b c : A} {i : ι} {o : ο} {is : List ι} {os : List ο} (head : Step a i o b)
    (tail : Runs Step b is os c) : Runs Step a (i :: is) (o :: os) c

/-- **Forward simulation.** When every step from related states is matched by an abstract step
with the same output, every run is matched by an abstract run with the same outputs. -/
theorem runOutputs_simulates (step : σ → ι → Traced E (ο × σ)) (Step : A → ι → ο → A → Prop)
    (R : σ → A → Prop) (is : List ι)
    (hstep : ∀ i ∈ is, ∀ s t a, R s a →
      ∃ b, Step a i ((step s i).run t).1.1 b ∧ R ((step s i).run t).1.2 b)
    (s : σ) (t : List E) (a : A) (h : R s a) :
    ∃ b, Runs Step a is ((runOutputs step s is).run t).1.1 b ∧
      R ((runOutputs step s is).run t).1.2 b := by
  induction is generalizing s t a with
  | nil => exact ⟨a, .nil a, h⟩
  | cons i is ih =>
    obtain ⟨b, hb, hR⟩ := hstep i List.mem_cons_self s t a h
    obtain ⟨c, hc, hR'⟩ := ih (fun j hj => hstep j (List.mem_cons_of_mem i hj)) _ _ _ hR
    exact ⟨c, .cons hb hc, hR'⟩

end Traced
