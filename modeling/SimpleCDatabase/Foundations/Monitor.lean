import SimpleCDatabase.Foundations.Traced

/-!
# Monitors of transcripts

A monitor reads the events of a computation one by one and may refuse one. It is given by a
partial step on its states, so that a property of transcripts such as "every release is of
something held" is that no event is refused. The rules of this module show it along the structure
of the computation, from the state in which the monitor is before it.

## Main definitions

* `Traced.monitor`: the state of a monitor after a stretch of events.
* `Traced.Admits`: no event of a computation is refused, whatever the transcript before it.
* `Traced.Only`: every event of a computation is of a kind, whatever the transcript before it.

## Main results

* `Traced.Admits.bind`: the rule of composition.
* `Traced.exists_of_monitor`: where an event of a stretch was taken.
* `Traced.monitor_follows`: a monitor that follows another one on the events of a kind.
-/

namespace Traced

variable {E M α β : Type} {step : M → E → Option M} {s : M}

/-- The state of a monitor after a stretch of events, the newest first; `none` when it refused
one of them. -/
def monitor (step : M → E → Option M) (s : M) : List E → Option M
  | [] => some s
  | e :: earlier => (monitor step s earlier).bind fun s => step s e

theorem monitor_append (step : M → E → Option M) (s : M) (later earlier : List E) :
    monitor step s (later ++ earlier) =
      (monitor step s earlier).bind fun s => monitor step s later := by
  induction later with
  | nil => simp only [List.nil_append, monitor, Option.bind_fun_some]
  | cons e later ih =>
    rw [List.cons_append, monitor, ih]
    cases monitor step s earlier <;> rfl

/-- An event of a stretch that is not refused was taken in the state after those before it. -/
theorem exists_of_monitor {later earlier : List E} {e : E} {s' : M}
    (h : monitor step s (later ++ e :: earlier) = some s') :
    ∃ s₁ s₂, monitor step s earlier = some s₁ ∧ step s₁ e = some s₂ ∧
      monitor step s₂ later = some s' := by
  rw [monitor_append, Option.bind_eq_some_iff] at h
  obtain ⟨s₂, hs₂, hlater⟩ := h
  obtain ⟨s₁, hs₁, hstep⟩ := Option.bind_eq_some_iff.mp hs₂
  exact ⟨s₁, s₂, hs₁, hstep, hlater⟩

/-- The monitor in state `s` refuses no event of the computation, and the value and the state that
it leaves satisfy `Q`. -/
def Admits (step : M → E → Option M) (s : M) (x : Traced E α) (Q : α → M → Prop) : Prop :=
  ∀ t, x.Ensures t fun a new => ∃ s', monitor step s new = some s' ∧ Q a s'

variable {Q : α → M → Prop} {R : β → M → Prop} {x y : Traced E α} {f : α → Traced E β}

theorem admits_pure {a : α} (h : Q a s) : Admits step s (pure a) Q :=
  fun _ => ⟨s, rfl, h⟩

theorem Admits.mono {P : α → M → Prop} (hx : Admits step s x P) (h : ∀ a s', P a s' → Q a s') :
    Admits step s x Q :=
  fun t => (hx t).mono fun a _ ⟨s', hs', hP⟩ => ⟨s', hs', h a s' hP⟩

/-- The rule of composition: the second computation is read in the state that the first one
leaves. -/
theorem Admits.bind (hx : Admits step s x Q) (hf : ∀ a s', Q a s' → Admits step s' (f a) R) :
    Admits step s (x >>= f) R := by
  intro t
  obtain ⟨s₁, hs₁, hQ⟩ := hx t
  obtain ⟨s₂, hs₂, hR⟩ := hf _ _ hQ ((x.run t).2 ++ t)
  refine ⟨s₂, ?_, hR⟩
  rw [run_bind, monitor_append, hs₁]
  exact hs₂

theorem admits_ite {c : Prop} [Decidable c] (hx : c → Admits step s x Q)
    (hy : ¬c → Admits step s y Q) : Admits step s (if c then x else y) Q := by
  split
  · exact hx ‹_›
  · exact hy ‹_›

theorem admits_emit {e : E} {s' : M} {Q : Unit → M → Prop} (h : step s e = some s')
    (hQ : Q () s') : Admits step s (emit e) Q :=
  fun _ => ⟨s', h, hQ⟩

theorem admits_answer {ask : List E → α} {event : α → E}
    (h : ∀ a, ∃ s', step s (event a) = some s' ∧ Q a s') :
    Admits step s (answer ask event) Q :=
  fun t => h (ask t)

/-! ### Events of a kind -/

/-- Every event of the computation satisfies `P`, whatever the transcript before it. -/
def Only (P : E → Prop) (x : Traced E α) : Prop := ∀ t, x.Ensures t fun _ new => ∀ e ∈ new, P e

section Only

variable {P : E → Prop} {x y : Traced E α} {f : α → Traced E β}

theorem Only.mono {P' : E → Prop} (hx : Only P x) (h : ∀ e, P e → P' e) : Only P' x :=
  fun t e he => h e (hx t e he)

theorem only_pure (a : α) : Only P (pure a : Traced E α) :=
  fun _ _ he => absurd he List.not_mem_nil

theorem only_emit {e : E} (h : P e) : Only P (emit e) :=
  fun _ _ he => List.mem_singleton.mp he ▸ h

theorem only_answer {ask : List E → α} {event : α → E} (h : ∀ a, P (event a)) :
    Only P (answer ask event) :=
  fun t _ he => List.mem_singleton.mp he ▸ h (ask t)

theorem Only.bind (hx : Only P x) (hf : ∀ a, Only P (f a)) : Only P (x >>= f) := by
  intro t e he
  obtain he | he := List.mem_append.mp he
  · exact hf _ _ e he
  · exact hx t e he

theorem only_ite {c : Prop} [Decidable c] (hx : c → Only P x) (hy : ¬c → Only P y) :
    Only P (if c then x else y) := by
  split
  · exact hx ‹_›
  · exact hy ‹_›

theorem only_loop {σ : Type} {body : σ → Traced E (ForInStep σ)} (h : ∀ s, Only P (body s))
    (fuel : ℕ) (s : σ) : Only P (loop body fuel s) := by
  induction fuel generalizing s with
  | zero => exact only_pure s
  | succ fuel ih =>
    refine (h s).bind fun r => ?_
    cases r with
    | yield s' => exact ih s'
    | done s' => exact only_pure s'

end Only

/-- **A monitor that follows another one.** What the first one does not refuse, the second one does
not refuse either, as long as the events are of a kind on which it follows. -/
theorem monitor_follows {N : Type} {step' : N → E → Option N} {P : E → Prop} {R : M → N → Prop}
    (hstep : ∀ s n e s', P e → R s n → step s e = some s' → ∃ n', step' n e = some n' ∧ R s' n')
    {new : List E} (hnew : ∀ e ∈ new, P e) {n : N} (hR : R s n) {s' : M}
    (h : monitor step s new = some s') : ∃ n', monitor step' n new = some n' ∧ R s' n' := by
  induction new generalizing s' with
  | nil => exact ⟨n, rfl, Option.some_inj.mp h ▸ hR⟩
  | cons e earlier ih =>
    obtain ⟨s₁, hs₁, he⟩ := Option.bind_eq_some_iff.mp h
    obtain ⟨n₁, hn₁, hR₁⟩ := ih (fun e he => hnew e (List.mem_cons_of_mem _ he)) hs₁
    obtain ⟨n', hn', hR'⟩ := hstep s₁ n₁ e s' (hnew e List.mem_cons_self) hR₁ he
    exact ⟨n', by rw [monitor, hn₁]; exact hn', hR'⟩

end Traced
