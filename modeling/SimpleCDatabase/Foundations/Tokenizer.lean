import Mathlib.Data.List.Basic

/-!
# Incremental readers

A reader of a stream that arrives in pieces looks at the bytes received so far and not yet used.
It waits for more, stops for good, or uses up a token at the front and goes on in its next mode.
Its verdict may not change when more bytes arrive, unless it was to wait. Such a reader does not
see where the stream was cut: feeding it the pieces one after the other is feeding it their
concatenation.

## Main definitions

* `Verdict`, `Tokenizer`: the readers.
* `Tokenizer.drain`: the outputs for the bytes at hand, and what is left.
* `Tokenizer.feed`, `Tokenizer.feedAll`: the arrival of one piece, of a list of pieces.
* `Tokenizer.Reads`: a list of tokens that is read without an output.

## Main results

* `Tokenizer.drain_append`, `Tokenizer.feedAll_eq`: the cuts of a stream are invisible.
* `Tokenizer.drain_reads`, `Tokenizer.drain_incomplete`: a list of tokens, and its proper prefixes.
-/

/-- What a reader in front of some bytes does: wait for more, stop after `n` bytes, or use up
`n` bytes and go on. -/
inductive Verdict (σ ο : Type) where
  | wait
  | stop (n : ℕ) (out : List ο)
  | consume (n : ℕ) (out : List ο) (next : σ)

/-- A reader of bytes `β` with modes `σ` and outputs `ο`. -/
structure Tokenizer (β σ ο : Type) where
  verdict : σ → List β → Verdict σ ο
  /-- A verdict other than to wait does not depend on the bytes to come. -/
  stable : ∀ s p q, verdict s p ≠ .wait → verdict s (p ++ q) = verdict s p
  /-- A reader that goes on has used up bytes. -/
  progress : ∀ s p n out s', verdict s p = .consume n out s' → 0 < n ∧ n ≤ p.length
  /-- A reader that stops has used up bytes at hand. -/
  within : ∀ s p n out, verdict s p = .stop n out → n ≤ p.length

namespace Tokenizer

variable {β σ ο : Type} (T : Tokenizer β σ ο)

/-- A reader between two pieces: its mode, none once it has stopped, and the bytes not used. -/
@[ext]
structure Config (β σ : Type) where
  mode : Option σ
  pending : List β

/-- Outputs made before those of a continuation. -/
def before (out : List ο) (r : List ο × Config β σ) : List ο × Config β σ := (out ++ r.1, r.2)

@[simp] theorem before_nil (r : List ο × Config β σ) : before [] r = r := rfl

@[simp] theorem before_before (out out' : List ο) (r : List ο × Config β σ) :
    before out (before out' r) = before (out ++ out') r := by
  simp only [before, List.append_assoc]

/-- The outputs for the bytes at hand, and the reader when it waits or has stopped. -/
def drain (s : σ) (p : List β) : List ο × Config β σ :=
  match _h : T.verdict s p with
  | .wait => ([], ⟨some s, p⟩)
  | .stop n out => (out, ⟨none, p.drop n⟩)
  | .consume n out s' => before out (drain s' (p.drop n))
termination_by p.length
decreasing_by
  have := T.progress s p n out s' _h
  rw [List.length_drop]
  omega

variable {T}

theorem drain_wait {s : σ} {p : List β} (h : T.verdict s p = .wait) :
    T.drain s p = ([], ⟨some s, p⟩) := by
  rw [drain]
  split <;> simp_all

theorem drain_stop {s : σ} {p : List β} {n : ℕ} {out : List ο}
    (h : T.verdict s p = .stop n out) : T.drain s p = (out, ⟨none, p.drop n⟩) := by
  rw [drain]
  split <;> simp_all

theorem drain_consume {s s' : σ} {p : List β} {n : ℕ} {out : List ο}
    (h : T.verdict s p = .consume n out s') :
    T.drain s p = before out (T.drain s' (p.drop n)) := by
  rw [drain]
  split <;> simp_all

variable (T)

/-- The arrival of a piece of the stream. A reader that has stopped leaves it unread. -/
def feed (c : Config β σ) (q : List β) : List ο × Config β σ :=
  match c.mode with
  | some s => T.drain s (c.pending ++ q)
  | none => ([], ⟨none, c.pending ++ q⟩)

/-- The arrival of the pieces of a stream. -/
def feedAll : Config β σ → List (List β) → List ο × Config β σ
  | c, [] => ([], c)
  | c, q :: qs => before (T.feed c q).1 (feedAll (T.feed c q).2 qs)

/-- A reader that has not stopped is waiting. -/
def Settled (c : Config β σ) : Prop := ∀ s, c.mode = some s → T.verdict s c.pending = .wait

theorem drain_settled (s : σ) (p : List β) : T.Settled (T.drain s p).2 := by
  induction hn : p.length using Nat.strongRecOn generalizing s p with
  | ind n ih =>
    cases hv : T.verdict s p with
    | wait =>
      rw [drain_wait hv]
      rintro s' ⟨⟩
      exact hv
    | stop k out =>
      rw [drain_stop hv]
      exact fun s' h => nomatch h
    | consume k out s' =>
      have hk := T.progress s p k out s' hv
      rw [drain_consume hv]
      exact ih (p.drop k).length (by rw [List.length_drop]; omega) s' (p.drop k) rfl

variable {T} in
/-- The arrival of nothing. -/
theorem Settled.feed_nil {c : Config β σ} (h : T.Settled c) : T.feed c [] = ([], c) := by
  obtain ⟨_ | s, p⟩ := c
  · simp only [feed, List.append_nil]
  · simp only [feed, List.append_nil]
    exact drain_wait (h s rfl)

theorem feed_settled (c : Config β σ) (q : List β) : T.Settled (T.feed c q).2 := by
  obtain ⟨_ | s, p⟩ := c
  · exact fun s h => nomatch h
  · exact T.drain_settled s (p ++ q)

/-! ### The cuts of a stream -/

/-- **A reader goes on where it left off.** -/
theorem drain_append (s : σ) (p q : List β) :
    T.drain s (p ++ q) = before (T.drain s p).1 (T.feed (T.drain s p).2 q) := by
  induction hn : p.length using Nat.strongRecOn generalizing s p with
  | ind n ih =>
    cases hv : T.verdict s p with
    | wait =>
      rw [drain_wait hv]
      rfl
    | stop k out =>
      have hq : T.verdict s (p ++ q) = .stop k out := by rw [T.stable s p q (by simp [hv]), hv]
      rw [drain_stop hv, drain_stop hq, List.drop_append_of_le_length (T.within s p k out hv)]
      simp only [feed, before, List.append_nil]
    | consume k out s' =>
      have hk := T.progress s p k out s' hv
      have hq : T.verdict s (p ++ q) = .consume k out s' := by
        rw [T.stable s p q (by simp [hv]), hv]
      have hrest := ih (p.drop k).length (by rw [List.length_drop]; omega) s' (p.drop k) rfl
      rw [drain_consume hv, drain_consume hq, List.drop_append_of_le_length hk.2, hrest]
      simp only [before_before]
      rfl

theorem drain_flatten (s : σ) (p : List β) (qs : List (List β)) :
    T.drain s (p ++ qs.flatten) = before (T.drain s p).1 (T.feedAll (T.drain s p).2 qs) := by
  induction qs generalizing s p with
  | nil => simp [feedAll, before]
  | cons q qs ih =>
    have hstep := T.drain_append s p q
    rw [List.flatten_cons, ← List.append_assoc, ih s (p ++ q), hstep, feedAll, before_before]
    rfl

/-- **The cuts of a stream are invisible** to a reader that waits for its first byte. -/
theorem feedAll_eq {s : σ} (h : T.verdict s [] = .wait) (qs : List (List β)) :
    T.feedAll ⟨some s, []⟩ qs = T.drain s qs.flatten := by
  have hflat := T.drain_flatten s [] qs
  rwa [drain_wait h, List.nil_append, before_nil, eq_comm] at hflat

/-! ### Lists of tokens -/

/-- A list of tokens that is read without an output, from one mode to another. -/
inductive Reads : σ → List (List β) → σ → Prop where
  | nil (s : σ) : Reads s [] s
  | cons {s s' s'' : σ} {tok : List β} {toks : List (List β)}
    (head : T.verdict s tok = .consume tok.length [] s') (tail : Reads s' toks s'') :
    Reads s (tok :: toks) s''

variable {T}

theorem Reads.append {s s' s'' : σ} {toks toks' : List (List β)} (h : T.Reads s toks s')
    (h' : T.Reads s' toks' s'') : T.Reads s (toks ++ toks') s'' := by
  induction h with
  | nil => exact h'
  | cons head _ ih => exact .cons head (ih h')

/-- A token in front of other bytes is read in the same way. -/
theorem drain_token {s s' : σ} {tok : List β} {out : List ο}
    (h : T.verdict s tok = .consume tok.length out s') (p : List β) :
    T.drain s (tok ++ p) = before out (T.drain s' p) := by
  have hp : T.verdict s (tok ++ p) = .consume tok.length out s' := by
    rw [T.stable s tok p (by simp [h]), h]
  rw [drain_consume hp, List.drop_left]

/-- A token at which the reader stops. -/
theorem drain_lastToken {s : σ} {tok : List β} {out : List ο}
    (h : T.verdict s tok = .stop tok.length out) (p : List β) :
    T.drain s (tok ++ p) = (out, ⟨none, p⟩) := by
  have hp : T.verdict s (tok ++ p) = .stop tok.length out := by
    rw [T.stable s tok p (by simp [h]), h]
  rw [drain_stop hp, List.drop_left]

/-- **A list of tokens is read up to its end**, whatever follows. -/
theorem drain_reads {s s' : σ} {toks : List (List β)} (h : T.Reads s toks s') (p : List β) :
    T.drain s (toks.flatten ++ p) = T.drain s' p := by
  induction h with
  | nil => rfl
  | cons head _ ih =>
    rw [List.flatten_cons, List.append_assoc, drain_token head, before_nil, ih]

/-- A proper prefix of a token does not settle anything. -/
theorem verdict_of_incomplete {s s' : σ} {tok p q : List β} {out : List ο}
    (h : T.verdict s tok = .consume tok.length out s') (htok : tok = p ++ q) (hq : q ≠ []) :
    T.verdict s p = .wait := by
  by_contra hp
  have hlen : 0 < q.length := List.length_pos_iff.mpr hq
  have heq := T.stable s p q hp
  rw [← htok, h] at heq
  have hle := (T.progress s p _ _ _ heq.symm).2
  rw [htok, List.length_append] at hle
  omega

/-- **A list of tokens that has not arrived in full is waited for.** The last token may have an
output, as long as its proper prefixes are waited for. -/
theorem drain_incomplete {s s' : σ} {toks : List (List β)} (h : T.Reads s toks s') {last : List β}
    (hlast : ∀ p q, last = p ++ q → q ≠ [] → T.verdict s' p = .wait) {p q : List β}
    (hpq : toks.flatten ++ last = p ++ q) (hq : q ≠ []) :
    ∃ m r, T.drain s p = ([], ⟨some m, r⟩) := by
  induction h generalizing p with
  | nil s => exact ⟨s, p, drain_wait (hlast p q hpq hq)⟩
  | @cons s s₁ _ tok toks head _ ih =>
    rw [List.flatten_cons, List.append_assoc] at hpq
    obtain ⟨p', rfl, hrest⟩ | ⟨q', htok, -⟩ := List.append_eq_append_iff.mp hpq
    · obtain ⟨m, r, hdrain⟩ := ih hlast hrest
      exact ⟨m, r, by rw [drain_token head, before_nil, hdrain]⟩
    · by_cases hq' : q' = []
      · subst hq'
        rw [List.append_nil] at htok
        have hempty := ih hlast (p := []) (by simpa [htok] using hpq)
        obtain ⟨m, r, hdrain⟩ := hempty
        refine ⟨m, r, ?_⟩
        rw [← htok, ← List.append_nil tok, drain_token head, before_nil, hdrain]
      · exact ⟨s, p, drain_wait (verdict_of_incomplete head htok hq')⟩

end Tokenizer
