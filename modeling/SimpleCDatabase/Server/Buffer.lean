import SimpleCDatabase.Server.Basic

/-!
# The input buffer

What the operations on the input buffer do to the bytes at hand (`ClientContext.pending`). The
stale bytes after them matter in one place only, the number of a header: `strtol` reads past the
line of the header when the line is blank.

## Main definitions

* `ClientContext.Fits`: the bytes in use fit the buffer.
* `Appended`: the outcomes of `append_to_buffer`.

## Main results

* `ClientContext.pending_shift`, `ClientContext.pending_copyIn`, `appendToBuffer_spec`.
* `findCrlf_eq_some_iff`: the line before the first `\r` that is found.
* `strtol_header`: a header line that is not blank determines its number.
-/

namespace SimpleCDatabase

open CString

namespace ClientContext

variable {ctx : ClientContext} {n : ℕ}

/-- The bytes in use fit the buffer. -/
def Fits (ctx : ClientContext) : Prop := ctx.bufferUsed ≤ ctx.bufferCapacity

/-- The bytes at hand and their bound depend on the buffer only. -/
theorem pending_of_buffer {ctx' : ClientContext} (hbuffer : ctx'.buffer = ctx.buffer)
    (hused : ctx'.bufferUsed = ctx.bufferUsed) : ctx'.pending = ctx.pending := by
  rw [pending, hbuffer, hused, pending]

theorem Fits.of_buffer {ctx' : ClientContext} (h : ctx.Fits) (hbuffer : ctx'.buffer = ctx.buffer)
    (hused : ctx'.bufferUsed = ctx.bufferUsed) : ctx'.Fits := by
  rw [Fits, bufferCapacity, hbuffer, hused]
  exact h

theorem Fits.length_pending (h : ctx.Fits) : ctx.pending.length = ctx.bufferUsed := by
  rw [pending, List.length_take]
  exact min_eq_left h

/-- A header with its line is within the bytes in use. -/
theorem Fits.header_le (h : ctx.Fits) {marker : UInt8} {line rest : List UInt8}
    (hpending : ctx.pending = marker :: (line ++ 13 :: 10 :: rest)) :
    line.length + 3 ≤ ctx.bufferUsed := by
  rw [← h.length_pending, hpending, List.length_cons, List.length_append, List.length_cons,
    List.length_cons]
  omega

theorem buffer_eq (ctx : ClientContext) :
    ctx.buffer = ctx.pending ++ ctx.buffer.drop ctx.bufferUsed :=
  (List.take_append_drop _ _).symm

theorem take_buffer (hn : n ≤ ctx.bufferUsed) : ctx.buffer.take n = ctx.pending.take n := by
  rw [pending, List.take_take, min_eq_left hn]

/-- The bytes that `memmove` moves to the front. -/
theorem Fits.length_moved (h : ctx.Fits) (hn : n ≤ ctx.bufferUsed) :
    ((ctx.buffer.drop n).take (ctx.bufferUsed - n)).length = ctx.bufferUsed - n := by
  have hfit : ctx.bufferUsed ≤ ctx.buffer.length := h
  rw [List.length_take, List.length_drop]
  omega

@[simp] theorem shift_bufferUsed : (ctx.shift n).bufferUsed = ctx.bufferUsed - n := rfl

@[simp] theorem Fits.length_shift (h : ctx.Fits) (hn : n ≤ ctx.bufferUsed) :
    (ctx.shift n).buffer.length = ctx.buffer.length := by
  have hfit : ctx.bufferUsed ≤ ctx.buffer.length := h
  have hmoved := h.length_moved hn
  rw [ClientContext.shift, List.length_append, hmoved, List.length_drop]
  omega

theorem Fits.shift (h : ctx.Fits) (hn : n ≤ ctx.bufferUsed) : (ctx.shift n).Fits := by
  rw [Fits, bufferCapacity, h.length_shift hn]
  exact (Nat.sub_le _ _).trans h

/-- **Bytes that are consumed leave the rest.** -/
theorem Fits.pending_shift (h : ctx.Fits) (hn : n ≤ ctx.bufferUsed) :
    (ctx.shift n).pending = ctx.pending.drop n := by
  have hmoved := h.length_moved hn
  rw [pending, ClientContext.shift, List.take_left' hmoved, pending, List.drop_take]

theorem Fits.length_copyIn {data : List UInt8} (h : ctx.Fits)
    (hn : ctx.bufferUsed + data.length ≤ ctx.buffer.length) :
    (ctx.copyIn data).buffer.length = ctx.buffer.length := by
  have hlen := h.length_pending
  rw [pending] at hlen
  rw [ClientContext.copyIn, List.length_append, List.length_append, hlen, List.length_drop]
  omega

/-- **Bytes that arrive stand after the bytes at hand.** -/
theorem Fits.pending_copyIn (h : ctx.Fits) (data : List UInt8) :
    (ctx.copyIn data).pending = ctx.pending ++ data := by
  have hlen : (ctx.pending ++ data).length = ctx.bufferUsed + data.length := by
    rw [List.length_append, h.length_pending]
  rw [pending, ClientContext.copyIn, ← pending]
  exact List.take_left' hlen

theorem fits_fresh (server : ServerContext) : (fresh server).Fits := Nat.le_refl 0

@[simp] theorem pending_fresh (server : ServerContext) : (fresh server).pending = [] := rfl

end ClientContext

/-! ### Growth -/

theorem length_reallocBytes (fresh : ℕ → UInt8) (old : List UInt8) (size : ℕ) :
    (reallocBytes fresh old size).length = size := by
  rw [reallocBytes, List.length_append, List.length_take, List.length_map, List.length_range]
  omega

/-- A larger block keeps the bytes of the old one. -/
theorem take_reallocBytes (fresh : ℕ → UInt8) {old : List UInt8} {size n : ℕ}
    (hn : n ≤ old.length) (hsize : old.length ≤ size) :
    (reallocBytes fresh old size).take n = old.take n := by
  rw [reallocBytes, List.take_of_length_le hsize, List.take_append_of_le_length hn]

/-- A request for memory, granted or not. -/
theorem ServerEnv.ensures_malloc (env : ServerEnv) {α : Type} {size : ℕ}
    {f : Bool → Traced ServerEvent α} {log : List ServerEvent}
    {Q : α → List ServerEvent → Prop}
    (hgranted : env.alloc log size = true →
      (f true).Ensures (.malloc size true :: log) fun r new => Q r (new ++ [.malloc size true]))
    (hdenied : env.alloc log size = false →
      (f false).Ensures (.malloc size false :: log)
        fun r new => Q r (new ++ [.malloc size false])) :
    (env.malloc size >>= f).Ensures log Q := by
  rw [ServerEnv.malloc, Traced.ensures_bind, Traced.ensures_answer]
  cases h : env.alloc log size with
  | true => exact hgranted h
  | false => exact hdenied h

/-- The outcomes of `append_to_buffer`: the bytes are appended, with the rest of the connection
unchanged, or the buffer cannot grow and the connection is closed. -/
inductive Appended (env : ServerEnv) (ctx : ClientContext) (data : List UInt8) :
    ClientContext → List ServerEvent → Prop where
  | appended {buffer : List UInt8} {new : List ServerEvent}
    (hfits : ctx.bufferUsed + data.length ≤ buffer.length)
    (hpending : buffer.take (ctx.bufferUsed + data.length) = ctx.pending ++ data)
    (hnew : new = [] ∨ ∃ size, new = [.malloc size true]) :
    Appended env ctx data
      { ctx with buffer := buffer, bufferUsed := ctx.bufferUsed + data.length } new
  | denied {log : List ServerEvent} {size : ℕ} (h : env.alloc log size = false) :
    Appended env ctx data { ctx with closing := true } [.close, .malloc size false]

private theorem appended_copyIn {env : ServerEnv} {ctx : ClientContext} {data buffer : List UInt8}
    {new : List ServerEvent} (hkeep : buffer.take ctx.bufferUsed = ctx.pending)
    (hfits : ctx.bufferUsed + data.length ≤ buffer.length)
    (hnew : new = [] ∨ ∃ size, new = [.malloc size true]) :
    Appended env ctx data (({ ctx with buffer := buffer }).copyIn data) new := by
  have hgrown : ClientContext.Fits { ctx with buffer := buffer } := by
    show ctx.bufferUsed ≤ buffer.length
    omega
  refine .appended ?_ ?_ hnew
  · exact hfits.trans (hgrown.length_copyIn hfits).ge
  · exact (hgrown.pending_copyIn data).trans (congrArg (· ++ data) hkeep)

/-- **The outcomes of `append_to_buffer`.** -/
theorem appendToBuffer_spec (env : ServerEnv) {ctx : ClientContext} (h : ctx.Fits)
    (data : List UInt8) (log : List ServerEvent) :
    (appendToBuffer env ctx data).Ensures log (Appended env ctx data) := by
  have hcap : ctx.bufferUsed ≤ ctx.buffer.length := h
  refine Traced.ensures_ite (fun hfull => ?_) fun hroom => ?_
  · set doubled := if ctx.bufferCapacity = 0 then 1024 else ctx.bufferCapacity * 2
    set size := if doubled < ctx.bufferUsed + data.length then ctx.bufferUsed + data.length
      else doubled with hsize
    have hneeded : ctx.bufferUsed + data.length ≤ size := by
      rw [hsize]
      split <;> omega
    have hgrows : ctx.buffer.length ≤ size := by
      have : ctx.buffer.length < ctx.bufferUsed + data.length := hfull
      omega
    refine env.ensures_malloc (fun _ => ?_) fun hdenied => ?_
    · have hkeep := take_reallocBytes (env.memory (.malloc size true :: log)) hcap hgrows
      exact appended_copyIn hkeep (hneeded.trans (length_reallocBytes ..).ge)
        (.inr ⟨size, rfl⟩)
    · exact .denied hdenied
  · exact appended_copyIn rfl (Nat.not_lt.mp hroom) (.inl rfl)

/-! ### Header lines -/

private theorem idxOf_line {line : List UInt8} (h : 13 ∉ line) (tail : List UInt8) :
    (line ++ 13 :: tail).idxOf 13 = line.length := by
  rw [List.idxOf_append_of_notMem h, List.idxOf_cons_self, Nat.add_zero]

/-- **The line that is found** ends at the first `\r`, and `\n` follows. -/
theorem findCrlf_eq_some_iff {p : List UInt8} {i : ℕ} :
    findCrlf p = some i ↔ ∃ line rest, p = line ++ 13 :: 10 :: rest ∧ 13 ∉ line ∧
      line.length = i := by
  constructor
  · intro h
    simp only [findCrlf, Option.ite_none_right_eq_some, Option.some.injEq] at h
    obtain ⟨⟨hlt, hlf⟩, rfl⟩ := h
    have hmem : 13 ∈ p := List.idxOf_lt_length_iff.mp (Nat.lt_of_succ_lt hlt)
    obtain ⟨line, tail, rfl, hcr⟩ := List.eq_append_cons_of_mem hmem
    rw [idxOf_line hcr] at hlt hlf ⊢
    obtain _ | ⟨c, rest⟩ := tail
    · simp at hlt
    · have hc : c = 10 := by simpa using hlf
      exact ⟨line, rest, by rw [hc], hcr, rfl⟩
  · rintro ⟨line, rest, rfl, hcr, rfl⟩
    simp [findCrlf, idxOf_line hcr]

theorem findCrlf_line {line : List UInt8} (h : 13 ∉ line) (rest : List UInt8) :
    findCrlf (line ++ 13 :: 10 :: rest) = some line.length :=
  findCrlf_eq_some_iff.mpr ⟨line, rest, rfl, h, rfl⟩

/-- A marker in front of a line. -/
theorem findCrlf_cons {c : UInt8} (hc : c ≠ 13) (p : List UInt8) :
    findCrlf (c :: p) = (findCrlf p).map (· + 1) := by
  have hidx : (c :: p).idxOf 13 = p.idxOf 13 + 1 := List.idxOf_cons_ne _ hc
  simp only [findCrlf, hidx, List.length_cons, List.getD_cons_succ, Nat.add_lt_add_iff_right]
  split <;> rfl

/-- **A header line that is not blank determines its number**, whatever stands after it in the
buffer and past its end. -/
theorem strtol_header {line : List UInt8} (h : ¬Blank line) (rest : List UInt8) :
    strtol (line ++ 13 :: rest) = strtol line :=
  strtol_append_cons h rfl rest

end SimpleCDatabase
