import Mathlib.Data.Multiset.AddSub
import SimpleCDatabase.Foundations.Lifting

/-!
# Ownership of blocks of memory

What a computation does to the heap is recorded among its events: blocks are handed out, used and
freed. A monitor keeps the multiset of the blocks that live. It refuses to free what does not live,
and notes when such a block is used.

The triples of this module say which blocks a computation owns before and after. They hold with any
other blocks beside these, so that a computation is shown not to touch what it does not own by
showing what it owns. A block has the name of the place in the transcript where it was handed out,
so no name is given twice.

## Main definitions

* `Blocks.Op`: what an event does to the heap.
* `Blocks.live`, `Blocks.Lawful`, `Blocks.UsesLive`: the blocks that live, and the laws.
* `Blocks.Holds`: the blocks that live, as the monitor has them.
* `Blocks.Owning`: the triples.
* `Blocks.malloc`, `Blocks.free`, `Blocks.tryMalloc`, `Blocks.tryRealloc`: what a computation does
  with a pointer.

## Main results

* `Blocks.Owning.bind`, `Blocks.Owning.frame`: the rules of composition and of the frame.
* `Blocks.Holds.lawful`, `Blocks.Holds.usesLive_iff`: what the monitor says about a transcript.
-/

namespace Blocks

open Traced

/-- What an event does to the heap. `stray` frees or uses what does not point to a block. -/
inductive Op where
  | alloc (block : ℕ)
  | free (block : ℕ)
  | use (block : ℕ)
  | stray
  deriving DecidableEq, Repr

variable {E α β : Type} (op : E → Option Op)

/-! ### The laws -/

/-- The blocks that have been handed out and not been freed. -/
def live : List E → Multiset ℕ
  | [] => 0
  | e :: earlier =>
    match op e with
    | some (.alloc b) => b ::ₘ live earlier
    | some (.free b) => (live earlier).erase b
    | _ => live earlier

/-- The law of `malloc` and `free`. -/
structure Lawful (log : List E) : Prop where
  /-- No block is handed out that lives. -/
  fresh : ∀ later earlier e b, log = later ++ e :: earlier → op e = some (.alloc b) →
    b ∉ live op earlier
  /-- Each block that is freed lives. -/
  freed : ∀ later earlier e b, log = later ++ e :: earlier → op e = some (.free b) →
    b ∈ live op earlier
  /-- What is freed or used is a block. -/
  pointed : ∀ e ∈ log, op e ≠ some .stray

/-- Each block that is used lives. -/
def UsesLive (log : List E) : Prop :=
  ∀ later earlier e b, log = later ++ e :: earlier → op e = some (.use b) → b ∈ live op earlier

/-! ### The monitor -/

/-- The blocks that live, and whether a block has been used that does not. -/
structure Ledger where
  live : Multiset ℕ
  fault : Bool

/-- One operation; it is refused when it breaks the law of `malloc` and `free`. -/
def Ledger.step (s : Ledger) : Op → Option Ledger
  | .alloc b => if b ∈ s.live then none else some { s with live := b ::ₘ s.live }
  | .free b => if b ∈ s.live then some { s with live := s.live.erase b } else none
  | .use b => some { s with fault := s.fault || decide (b ∉ s.live) }
  | .stray => none

/-- One event. -/
def step (s : Ledger) (e : E) : Option Ledger :=
  match op e with
  | none => some s
  | some o => s.step o

/-- After the transcript, the blocks of `m` live, each of them handed out at its place. -/
def Holds (log : List E) (m : Multiset ℕ) (fault : Bool) : Prop :=
  monitor (step op) ⟨0, false⟩ log = some ⟨m, fault⟩ ∧ ∀ b ∈ m, b < log.length

variable {op} {log : List E} {m m' : Multiset ℕ} {fault fault' : Bool}

theorem holds_nil : Holds op [] 0 false := ⟨rfl, fun b hb => absurd hb (Multiset.notMem_zero b)⟩

/-- One event more. -/
theorem Holds.cons (h : Holds op log m fault) {e : E}
    (hstep : step op ⟨m, fault⟩ e = some ⟨m', fault'⟩) (hnew : ∀ b ∈ m', b ∈ m ∨ b = log.length) :
    Holds op (e :: log) m' fault' := by
  refine ⟨by rw [monitor, h.1]; exact hstep, fun b hb => ?_⟩
  obtain hold | rfl := hnew b hb
  · exact Nat.lt_succ_of_lt (h.2 b hold)
  · exact Nat.lt_succ_self _

/-- Events that do nothing to the heap. -/
theorem Holds.quiet (h : Holds op log m fault) {new : List E} (hnew : ∀ e ∈ new, op e = none) :
    Holds op (new ++ log) m fault := by
  induction new with
  | nil => exact h
  | cons e new ih =>
    obtain ⟨he, hrest⟩ := List.forall_mem_cons.mp hnew
    exact (ih hrest).cons (by rw [step, he]) fun b hb => .inl hb

theorem Holds.alloc (h : Holds op log m fault) {e : E} (he : op e = some (.alloc log.length)) :
    Holds op (e :: log) (log.length ::ₘ m) fault := by
  have hfresh : log.length ∉ m := fun hmem => absurd (h.2 _ hmem) (lt_irrefl _)
  refine h.cons (by simp only [step, he, Ledger.step, if_neg hfresh]) fun b hb => ?_
  exact (Multiset.mem_cons.mp hb).symm

theorem Holds.free {b : ℕ} (h : Holds op log (b ::ₘ m) fault) {e : E}
    (he : op e = some (.free b)) : Holds op (e :: log) m fault := by
  refine h.cons ?_ fun c hc => .inl (Multiset.mem_cons_of_mem hc)
  simp only [step, he, Ledger.step, if_pos (Multiset.mem_cons_self b m), Multiset.erase_cons_head]

theorem Holds.use (h : Holds op log m fault) {e : E} {b : ℕ} (he : op e = some (.use b)) :
    Holds op (e :: log) m (fault || decide (b ∉ m)) :=
  h.cons (by simp only [step, he, Ledger.step]) fun c hc => .inl hc

/-! ### What the monitor says -/

/-- What the monitor does with one event that it does not refuse. -/
private theorem step_spec {s s' : Ledger} {e : E} (h : step op s e = some s') {earlier : List E}
    (hlive : s.live = live op earlier) :
    s'.live = live op (e :: earlier) ∧ (s.live.Nodup → s'.live.Nodup) ∧
      (∀ b, op e = some (.alloc b) → b ∉ s.live) ∧ (∀ b, op e = some (.free b) → b ∈ s.live) ∧
      op e ≠ some .stray ∧
      (s'.fault = false ↔ s.fault = false ∧ ∀ b, op e = some (.use b) → b ∈ s.live) := by
  rw [step] at h
  rw [live]
  cases he : op e with
  | none =>
    rw [he] at h
    obtain rfl := Option.some_inj.mp h
    simp [hlive]
  | some o =>
    rw [he] at h
    cases o with
    | alloc b =>
      obtain ⟨hb, hs⟩ := Option.ite_none_left_eq_some.mp h
      obtain rfl := Option.some_inj.mp hs
      exact ⟨by simp [hlive], fun hnodup => Multiset.nodup_cons.mpr ⟨hb, hnodup⟩,
        by simp [hlive ▸ hb, hlive]⟩
    | free b =>
      obtain ⟨hb, hs⟩ := Option.ite_none_right_eq_some.mp h
      obtain rfl := Option.some_inj.mp hs
      exact ⟨by simp [hlive], Multiset.Nodup.erase b, by simp [hlive ▸ hb, hlive]⟩
    | use b =>
      obtain rfl := Option.some_inj.mp h
      simp [hlive]
    | stray => cases h

/-- The monitor keeps the blocks that live, and the laws hold as it says. -/
private theorem monitor_spec {s : Ledger} (h : monitor (step op) ⟨0, false⟩ log = some s) :
    s.live = live op log ∧ s.live.Nodup ∧ Lawful op log ∧
      (UsesLive op log ↔ s.fault = false) := by
  induction log generalizing s with
  | nil =>
    obtain rfl := Option.some_inj.mp h
    have hnone {later earlier : List E} {e : E} (h : [] = later ++ e :: earlier) : False := by
      simp at h
    refine ⟨rfl, Multiset.nodup_zero, ⟨fun _ _ _ _ h => (hnone h).elim,
      fun _ _ _ _ h => (hnone h).elim, nofun⟩, ?_⟩
    exact iff_of_true (fun _ _ _ _ h => (hnone h).elim) rfl
  | cons e log ih =>
    obtain ⟨s₁, hs₁, hstep⟩ := Option.bind_eq_some_iff.mp h
    obtain ⟨hlive, hnodup, hlawful, huses⟩ := ih hs₁
    obtain ⟨hlive', hnodup', hfresh, hfreed, hpointed, hfault⟩ := step_spec hstep hlive
    rw [hlive] at hfresh hfreed hfault
    have hcases {P : List E → E → Prop} (hnew : P log e)
        (hold : ∀ later earlier e', log = later ++ e' :: earlier → P earlier e')
        {later earlier : List E} {e' : E} (h : e :: log = later ++ e' :: earlier) :
        P earlier e' := by
      obtain ⟨rfl, hh⟩ | ⟨rest, rfl, hrest⟩ := List.cons_eq_append_iff.mp h
      · obtain ⟨rfl, rfl⟩ := List.cons.inj hh
        exact hnew
      · exact hold rest earlier e' hrest
    refine ⟨hlive', hnodup' hnodup, ⟨fun later earlier e' b h => hcases (P := fun earlier e' =>
      op e' = some (.alloc b) → b ∉ live op earlier) (hfresh b)
      (fun later earlier e' h => hlawful.fresh later earlier e' b h) h,
      fun later earlier e' b h => hcases (P := fun earlier e' =>
      op e' = some (.free b) → b ∈ live op earlier) (hfreed b)
      (fun later earlier e' h => hlawful.freed later earlier e' b h) h,
      List.forall_mem_cons.mpr ⟨hpointed, hlawful.pointed⟩⟩, ?_⟩
    rw [hfault, ← huses]
    constructor
    · exact fun h => ⟨fun later earlier e' b heq => h (e :: later) earlier e' b (by rw [heq]; rfl),
        fun b => h [] log e b rfl⟩
    · exact fun ⟨hold, hnew⟩ later earlier e' b h => hcases (P := fun earlier e' =>
        op e' = some (.use b) → b ∈ live op earlier) (hnew b)
        (fun later earlier e' h => hold later earlier e' b h) h

theorem Holds.nodup (h : Holds op log m fault) : m.Nodup := (monitor_spec h.1).2.1

/-- Owning the blocks of `P`, the computation keeps the law of `malloc` and `free`, touches no other
block, and returns a value and owns blocks that satisfy `Q`. -/
def Owning (op : E → Option Op) (P : Multiset ℕ) (x : Traced E α) (Q : α → Multiset ℕ → Prop) :
    Prop :=
  ∀ t frame fault, Holds op t (P + frame) fault → x.Ensures t fun a new =>
    ∃ m, Holds op (new ++ t) (m + frame) fault ∧ Q a m

variable {P F : Multiset ℕ} {x y : Traced E α} {k : α → Traced E β} {Q R : α → Multiset ℕ → Prop}
  {S : β → Multiset ℕ → Prop}

theorem owning_pure {a : α} (h : Q a P) : Owning op P (pure a) Q :=
  fun _ _ _ ht => ⟨P, ht, h⟩

theorem Owning.of_eq {P' : Multiset ℕ} (hx : Owning op P' x Q) (h : P = P') : Owning op P x Q :=
  h ▸ hx

theorem Owning.mono (hx : Owning op P x Q) (h : ∀ a m, Q a m → R a m) : Owning op P x R :=
  fun t frame fault ht => (hx t frame fault ht).mono fun a _ ⟨m, hm, hQ⟩ => ⟨m, hm, h a m hQ⟩

/-- The rule of composition. -/
theorem Owning.bind (hx : Owning op P x Q) (hk : ∀ a m, Q a m → Owning op m (k a) S) :
    Owning op P (x >>= k) S := by
  intro t frame fault ht
  refine (hx t frame fault ht).bind ?_
  rintro a new ⟨m, hm, hQ⟩
  refine (hk a m hQ _ frame fault hm).mono ?_
  rintro b new' ⟨m', hm', hS⟩
  exact ⟨m', by rwa [List.append_assoc], hS⟩

/-- What a computation does that starts with the blocks of `P` and no others. -/
theorem Owning.ensures (hx : Owning op P x Q) (h : Holds op log P fault) :
    x.Ensures log fun a new => ∃ m, Holds op (new ++ log) m fault ∧ Q a m := by
  refine (hx log 0 fault (by rwa [Multiset.add_zero])).mono ?_
  rintro a new ⟨m, hm, hQ⟩
  rw [Multiset.add_zero] at hm
  exact ⟨m, hm, hQ⟩

/-- The rule of the frame. -/
theorem Owning.frame (hx : Owning op P x Q) (F : Multiset ℕ) :
    Owning op (P + F) x fun a m => ∃ m', m = m' + F ∧ Q a m' := by
  intro t frame fault ht
  rw [Multiset.add_assoc] at ht
  refine (hx t (F + frame) fault ht).mono ?_
  rintro a new ⟨m, hm, hQ⟩
  exact ⟨m + F, by rwa [Multiset.add_assoc], m, rfl, hQ⟩

theorem owning_ite {c : Prop} [Decidable c] (hx : c → Owning op P x Q)
    (hy : ¬c → Owning op P y Q) : Owning op P (if c then x else y) Q := by
  split
  · exact hx ‹_›
  · exact hy ‹_›

/-- A computation that does nothing to the heap. -/
theorem owning_quiet (hx : Only (fun e => op e = none) x) :
    Owning op P x fun _ m => m = P :=
  fun t _ _ ht => ⟨P, ht.quiet (hx t), rfl⟩

/-! ### Pointers -/

/-- The block that a pointer points to; `none` is the null pointer. -/
def pointed : Option ℕ → Multiset ℕ
  | some b => {b}
  | none => 0

@[simp] theorem pointed_none : pointed none = 0 := rfl

@[simp] theorem pointed_some (b : ℕ) : pointed (some b) = {b} := rfl

/-- A block is handed out, named by its place in the transcript. -/
def malloc (event : Op → E) : Traced E ℕ := answer List.length fun b => event (.alloc b)

/-- `free`, which does nothing to the null pointer. -/
def free (event : Op → E) : Option ℕ → Traced E Unit
  | some b => emit (event (.free b))
  | none => pure ()

/-- `malloc`, which may be refused. -/
def tryMalloc (event : Op → E) (granted : Traced E Bool) : Traced E (Option ℕ) := do
  if ← granted then
    let b ← malloc event
    pure (some b)
  else pure none

/-- `realloc`, which may be refused, and then leaves the block as it is. -/
def tryRealloc (event : Op → E) (granted : Traced E Bool) (p : Option ℕ) :
    Traced E (Option ℕ) := do
  if ← granted then
    free event p
    let b ← malloc event
    pure (some b)
  else pure none

variable {event : Op → E}

theorem owning_malloc (hevent : ∀ o, op (event o) = some o) :
    Owning op P (malloc event) fun b m => m = b ::ₘ P := by
  intro t frame fault ht
  refine ⟨t.length ::ₘ P, ?_, rfl⟩
  rw [Multiset.cons_add]
  exact ht.alloc (hevent _)

theorem owning_free (hevent : ∀ o, op (event o) = some o) (p : Option ℕ) :
    Owning op (pointed p + P) (free event p) fun _ m => m = P := by
  cases p with
  | none => exact owning_pure (Multiset.zero_add P)
  | some b =>
    intro t frame fault ht
    rw [pointed_some, Multiset.singleton_add, Multiset.cons_add] at ht
    exact ⟨P, ht.free (hevent _), rfl⟩

theorem owning_tryMalloc (hevent : ∀ o, op (event o) = some o) {granted : Traced E Bool}
    (hquiet : Only (fun e => op e = none) granted) :
    Owning op P (tryMalloc event granted) fun p m => m = pointed p + P := by
  refine (owning_quiet hquiet).bind ?_
  rintro ok _ rfl
  refine owning_ite (fun _ => ?_) fun _ => owning_pure (Multiset.zero_add _).symm
  refine (owning_malloc hevent).bind ?_
  rintro b _ rfl
  exact owning_pure (Multiset.singleton_add b _).symm

theorem owning_tryRealloc (hevent : ∀ o, op (event o) = some o) {granted : Traced E Bool}
    (hquiet : Only (fun e => op e = none) granted) (p : Option ℕ) :
    Owning op (pointed p + P) (tryRealloc event granted p) fun q m =>
      m = pointed (q <|> p) + P := by
  refine (owning_quiet hquiet).bind ?_
  rintro ok _ rfl
  refine owning_ite (fun _ => ?_) fun _ => owning_pure rfl
  refine (owning_free hevent p).bind ?_
  rintro _ _ rfl
  refine (owning_malloc hevent).bind ?_
  rintro b _ rfl
  exact owning_pure (Multiset.singleton_add b _).symm

/-! ### The events of pointers -/

section Events

variable {K : E → Prop} (hevent : ∀ o, K (event o))

include hevent

theorem only_malloc : Only K (malloc event) := only_answer fun _ => hevent _

theorem only_free (p : Option ℕ) : Only K (free event p) := by
  cases p with
  | none => exact only_pure ()
  | some b => exact only_emit (hevent _)

theorem only_tryMalloc {granted : Traced E Bool} (h : Only K granted) :
    Only K (tryMalloc event granted) :=
  h.bind fun _ => only_ite (fun _ => (only_malloc hevent).bind fun _ => only_pure _)
    fun _ => only_pure _

theorem only_tryRealloc {granted : Traced E Bool} (h : Only K granted) (p : Option ℕ) :
    Only K (tryRealloc event granted p) :=
  h.bind fun _ => only_ite (fun _ => (only_free hevent p).bind fun _ =>
    (only_malloc hevent).bind fun _ => only_pure _) fun _ => only_pure _

end Events

section Erasure

variable {F : Type} {proj : E → Option F} (hevent : ∀ o, proj (event o) = none)
  {granted : Traced E Bool} {y : Traced F Bool}

include hevent

/-- At the level below, a request for memory is granted or not. -/
theorem erases_tryMalloc (h : Erases proj id granted y) :
    Erases proj Option.isSome (tryMalloc event granted) y := by
  refine h.bind_right fun ok => ?_
  cases ok with
  | false => exact erases_pure none
  | true => exact Erases.bind_left (only_malloc hevent) fun b => erases_pure (some b)

theorem erases_tryRealloc (h : Erases proj id granted y) (p : Option ℕ) :
    Erases proj Option.isSome (tryRealloc event granted p) y := by
  refine h.bind_right fun ok => ?_
  cases ok with
  | false => exact erases_pure none
  | true =>
    refine Erases.bind_left (only_free hevent p) fun _ => ?_
    exact Erases.bind_left (only_malloc hevent) fun b => erases_pure (some b)

end Erasure

end Blocks
