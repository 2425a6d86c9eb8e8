import SimpleCDatabase.Hashtable.Lifecycle
import SimpleCDatabase.Server.Steps

/-!
# Bounds of the parser state

The arguments of a command are stored in arrays that are allocated for the count in its header.
The parser is not reset after a command, so when the data of another argument follows, that one
is stored past the end of the arrays. Along the runs in which this never happens the stores are
within the arrays, and the counters of the parser within their bounds, whatever bytes arrive and
whatever the environment refuses.

## Main definitions

* `ServerEvent.InBounds`: a store is within its array.
* `ClientContext.Bounded`, `ClientContext.Parsing`: the bounds of the counters, and what holds at
  the start of every iteration of the parser.
* `ClientContext.Spent`, `ReadGuarded`: an iteration stores one argument too many; a read in which
  none does.

## Main results

* `parseStep_bounds`: one iteration keeps the bounds.
* `connection_bounds`: so does every run in which no iteration begins spent.
* `parseStep_spent`: an iteration that begins spent stores past the end of the arrays.
-/

namespace SimpleCDatabase

open Hashtable

/-- A store of an argument or of its length is below the count of arguments, which is the number
of elements of its array. -/
def ServerEvent.InBounds : ServerEvent → Prop
  | .argvStore index total size | .lengthsStore index total size => index < total ∧ total = size
  | _ => True

namespace ClientContext

variable {ctx : ClientContext}

/-- The bounds of the parser state. -/
structure Bounded (ctx : ClientContext) : Prop where
  parsed : ctx.argsParsed ≤ ctx.argsTotal
  total : ctx.argsTotal ≤ MAX_ARGS
  data : ctx.dataToRead ≤ MAX_BULK_LENGTH
  fits : ctx.bufferUsed ≤ ctx.bufferCapacity

/-- What holds at the start of an iteration: the bounds, an argument is missing when a length is
expected, and the arrays have their size once an argument is stored. -/
structure Parsing (ctx : ClientContext) : Prop extends Bounded ctx where
  missing : ctx.state = .expectLength → ctx.argsParsed < ctx.argsTotal
  arrays : ctx.argsParsed ≠ 0 →
    ctx.tempArgv.length = ctx.argsTotal ∧ ctx.tempArgLengths.length = ctx.argsTotal

/-- The data of an argument is there, and every argument has been stored. -/
def Spent (ctx : ClientContext) : Prop :=
  ctx.state = .expectData ∧ ctx.argsParsed = ctx.argsTotal ∧
    ctx.dataToRead + 2 ≤ ctx.bufferUsed

instance (ctx : ClientContext) : Decidable ctx.Spent := inferInstanceAs (Decidable (_ ∧ _))

theorem parsing_fresh (server : ServerContext) : (fresh server).Parsing where
  parsed := Nat.le_refl 0
  total := Nat.zero_le _
  data := Nat.zero_le _
  fits := Nat.le_refl 0
  missing := by simp [fresh]
  arrays := by simp [fresh]

theorem Parsing.shift {n : ℕ} (h : ctx.Parsing) (hn : n ≤ ctx.bufferUsed) :
    (ctx.shift n).Parsing :=
  ⟨⟨h.parsed, h.total, h.data, Fits.shift h.fits hn⟩, h.missing, h.arrays⟩

theorem Parsing.length_withArguments (h : ctx.Parsing) :
    ctx.withArguments.tempArgv.length = ctx.argsTotal ∧
      ctx.withArguments.tempArgLengths.length = ctx.argsTotal := by
  by_cases h0 : ctx.argsParsed = 0
  · simp [withArguments, h0]
  · simpa [withArguments, h0] using h.arrays h0

theorem Parsing.stored (h : ctx.Parsing) (hlt : ctx.argsParsed < ctx.argsTotal)
    (hused : ctx.dataToRead + 2 ≤ ctx.bufferUsed) (hdata : ctx.state = .expectData) :
    ctx.withArguments.stored.Parsing := by
  have hlen := h.length_withArguments
  refine Parsing.shift (n := ctx.dataToRead + 2) ⟨⟨hlt, h.total, h.data, h.fits⟩, ?_, fun _ => ?_⟩
    hused
  · rw [show ctx.withArguments.state = ctx.state from rfl, hdata]
    exact fun hstate => nomatch hstate
  · rw [List.length_set, List.length_set]
    exact hlen

/-- What holds between two reads: the bounds, and the invariant of the iterations as long as the
connection is open. -/
def Settled (ctx : ClientContext) : Prop := ctx.Bounded ∧ (ctx.closing = false → ctx.Parsing)

theorem Parsing.settled (h : ctx.Parsing) : ctx.Settled := ⟨h.toBounded, fun _ => h⟩

theorem Bounded.settled (h : ctx.Bounded) (hclosing : ctx.closing = true) : ctx.Settled :=
  ⟨h, fun hopen => absurd (hclosing.symm.trans hopen) (by decide)⟩

end ClientContext

/-! ### One iteration -/

/-- What an iteration leaves for the next one, or at the end of the loop. -/
def Kept : ForInStep ClientContext → Prop
  | .yield ctx => ctx.Parsing
  | .done ctx => ctx.Settled

section Iteration

variable (tables : Env (Event DataEntry)) (env : ServerEnv) {ctx : ClientContext}
  (log : List ServerEvent)

private theorem HeaderRead.bounds {marker : UInt8} {least greatest : ℤ}
    {next : ℕ → ClientContext} {r : ForInStep ClientContext} {new : List ServerEvent}
    (hread : HeaderRead ctx marker least greatest next r new) (h : ctx.Parsing)
    (hused : ∀ n, (next n).bufferUsed = ctx.bufferUsed)
    (hnext : ∀ n : ℕ, least ≤ n → n ≤ greatest → (next n).Parsing) :
    (∀ e ∈ new, e.InBounds) ∧ Kept r := by
  cases hread with
  | starved | unended => exact ⟨by simp, h.settled⟩
  | unmarked | refused =>
    exact ⟨by simp [ServerEvent.InBounds], ClientContext.Bounded.settled
      ⟨h.parsed, h.total, h.data, h.fits⟩ rfl⟩
  | @accepted line rest stale n hpending _ _ hleast hgreatest =>
    have hlen := ClientContext.Fits.header_le h.fits hpending
    exact ⟨by simp [ServerEvent.InBounds], (hnext n hleast hgreatest).shift (by rwa [hused])⟩

private theorem allocEvents_inBounds : ∀ e ∈ allocEvents ctx, e.InBounds := fun e he => by
  rw [eq_malloc_of_mem_allocEvents he]
  trivial

private theorem storeEvents_inBounds (h : ctx.Parsing) (hlt : ctx.argsParsed < ctx.argsTotal) :
    ∀ e ∈ storeEvents ctx, e.InBounds := by
  obtain ⟨hargv, hlengths⟩ := h.length_withArguments
  simpa [storeEvents, ServerEvent.InBounds, hargv, hlengths, hlt] using allocEvents_inBounds

private theorem Dispatched.bounds {r : ForInStep ClientContext} {new : List ServerEvent}
    (hdispatched : Dispatched tables env ctx r new) (h : ctx.Parsing) :
    (∀ e ∈ new, e.InBounds) ∧ Kept r := by
  cases hdispatched with
  | overflow =>
    exact ⟨by simp [ServerEvent.InBounds],
      ClientContext.Bounded.settled ⟨h.parsed, h.total, h.data, h.fits⟩ rfl⟩
  | answered =>
    exact ⟨by simp [ServerEvent.InBounds],
      ⟨⟨h.parsed, h.total, h.data, h.fits⟩, h.missing, h.arrays⟩⟩
  | unanswered _ hnew =>
    refine ⟨fun e he => ?_,
      ClientContext.Bounded.settled ⟨h.parsed, h.total, h.data, h.fits⟩ rfl⟩
    simp only [List.mem_cons, List.mem_append, List.not_mem_nil, or_false] at he
    obtain rfl | he | rfl := he
    · trivial
    · obtain ⟨size, granted, rfl⟩ | ⟨index, size, rfl⟩ := hnew e he <;> trivial
    · trivial

private theorem DataRead.bounds {r : ForInStep ClientContext} {new : List ServerEvent}
    (hread : DataRead tables env ctx r new) (h : ctx.Parsing) (hdata : ctx.state = .expectData)
    (hspent : ¬ctx.Spent) : (∀ e ∈ new, e.InBounds) ∧ Kept r := by
  have hlt (hused : ctx.dataToRead + 2 ≤ ctx.bufferUsed) : ctx.argsParsed < ctx.argsTotal :=
    lt_of_le_of_ne h.parsed fun heq => hspent ⟨hdata, heq, hused⟩
  have habandoned : Kept (.done ctx.abandoned) :=
    ClientContext.Bounded.settled ⟨h.parsed, h.total, h.data, h.fits⟩ rfl
  cases hread with
  | starved => exact ⟨by simp, h.settled⟩
  | unallocated => exact ⟨by simp [ServerEvent.InBounds], habandoned⟩
  | unstored hused =>
    refine ⟨?_, habandoned⟩
    simpa [ServerEvent.InBounds, h.length_withArguments.1, hlt hused] using allocEvents_inBounds
  | stored hused hne =>
    have hstored := h.stored (hlt hused) hused hdata
    refine ⟨storeEvents_inBounds h (hlt hused), ⟨⟨hstored.parsed, hstored.total, hstored.data,
      hstored.fits⟩, fun _ => ?_, hstored.arrays⟩⟩
    exact lt_of_le_of_ne hstored.parsed hne
  | completed hused _ hdispatched =>
    obtain ⟨hnew, hkept⟩ := hdispatched.bounds tables env (h.stored (hlt hused) hused hdata)
    refine ⟨fun e he => ?_, hkept⟩
    obtain he | he := List.mem_append.mp he
    · exact hnew e he
    · exact storeEvents_inBounds h (hlt hused) e he

/-- **An iteration that does not begin spent keeps the bounds**, and its stores are within the
arrays. -/
theorem parseStep_bounds (h : ctx.Parsing) (hspent : ¬ctx.Spent) :
    (parseStep tables env ctx).Ensures log fun r new => (∀ e ∈ new, e.InBounds) ∧ Kept r := by
  refine parseStep_cases tables env log (fun _ => ?_) (fun _ => ?_) fun hdata => ?_
  · refine (expectType_spec env log h.fits).mono ?_
    rintro r _ ⟨new, hread, rfl⟩
    have htrimmed : ctx.trimmed.Parsing := h.shift (leadingWhitespace_le h.fits)
    obtain ⟨hnew, hkept⟩ := hread.bounds htrimmed (fun _ => rfl) fun n hpos hmax =>
      ⟨⟨Nat.zero_le n, by exact_mod_cast hmax, htrimmed.data, htrimmed.fits⟩,
        fun _ => by exact_mod_cast hpos, fun h0 => absurd rfl h0⟩
    refine ⟨fun e he => ?_, hkept⟩
    obtain he | he := List.mem_append.mp he
    · exact hnew e he
    · split at he <;> simp_all [ServerEvent.InBounds]
  · exact (expectLength_spec env log h.fits).mono fun r new hread =>
      hread.bounds h (fun _ => rfl) fun n _ hmax =>
        ⟨⟨h.parsed, h.total, by exact_mod_cast hmax, h.fits⟩, by simp, h.arrays⟩
  · exact (expectData_spec tables env ctx log).mono fun r new hread =>
      hread.bounds tables env h hdata hspent

/-- **An iteration that begins spent stores one element past the arrays**, whatever the
environment answers. -/
theorem parseStep_spent (h : ctx.Parsing) (hparsed : 0 < ctx.argsParsed) (hspent : ctx.Spent) :
    (parseStep tables env ctx).Ensures log fun _ new =>
      .argvStore ctx.argsTotal ctx.argsTotal ctx.argsTotal ∈ new := by
  obtain ⟨hdata, heq, hused⟩ := hspent
  have hlen := h.length_withArguments.1
  refine parseStep_cases tables env log (by simp [hdata]) (by simp [hdata]) fun _ => ?_
  refine (expectData_spec tables env ctx log).mono fun r new hread => ?_
  have hstored : .argvStore ctx.argsTotal ctx.argsTotal ctx.argsTotal ∈ storeEvents ctx := by
    simp [storeEvents, heq, hlen]
  cases hread with
  | starved hstarved => exact absurd hused (Nat.not_le.mpr hstarved)
  | unallocated _ h0 => exact absurd h0 hparsed.ne'
  | unstored => simp [heq, hlen]
  | stored => exact hstored
  | completed => exact List.mem_append_right _ hstored

end Iteration

/-! ### Runs -/

/-- No iteration of the parser begins spent in the read of these bytes. -/
def ReadGuarded (tables : Env (Event DataEntry)) (env : ServerEnv) (ctx : ClientContext)
    (log : List ServerEvent) (data : List UInt8) : Prop :=
  ctx.closing = false → data ≠ [] →
    let r := (appendToBuffer env ctx data).run ([.timerStart] ++ log)
    Traced.LoopGuarded (parseStep tables env) (fun ctx _ => ¬ctx.Spent) (r.1.bufferUsed + 1) r.1
      (r.2 ++ ([.timerStart] ++ log))

instance (tables : Env (Event DataEntry)) (env : ServerEnv) (ctx : ClientContext)
    (log : List ServerEvent) (data : List UInt8) :
    Decidable (ReadGuarded tables env ctx log data) :=
  inferInstanceAs (Decidable (_ → _ → _))

section Runs

variable (tables : Env (Event DataEntry)) (env : ServerEnv)

/-- The bytes that are appended leave the counters as they are. -/
theorem appendToBuffer_bounds {ctx : ClientContext} (h : ctx.Parsing) (data : List UInt8)
    (log : List ServerEvent) : (appendToBuffer env ctx data).Ensures log fun ctx' new =>
      (∀ e ∈ new, e.InBounds) ∧ ctx'.Parsing := by
  refine (appendToBuffer_spec env h.fits data log).mono fun ctx' new happended => ?_
  cases happended with
  | appended hfits _ hnew =>
    refine ⟨?_, ⟨⟨h.parsed, h.total, h.data, hfits⟩, h.missing, h.arrays⟩⟩
    obtain rfl | ⟨size, rfl⟩ := hnew <;> simp [ServerEvent.InBounds]
  | denied =>
    exact ⟨by simp [ServerEvent.InBounds],
      ⟨⟨h.parsed, h.total, h.data, h.fits⟩, h.missing, h.arrays⟩⟩

/-- **A read in which no iteration begins spent keeps the bounds.** -/
theorem receive_bounds {ctx : ClientContext} {log : List ServerEvent} {data : List UInt8}
    (hguard : ReadGuarded tables env ctx log data) (h : ctx.Settled)
    (hlog : ∀ e ∈ log, e.InBounds) :
    (receive tables env ctx data).Ensures log fun ctx' new =>
      ctx'.Settled ∧ ∀ e ∈ new ++ log, e.InBounds := by
  refine receive_cases tables env log (fun _ => ⟨h, hlog⟩) (fun _ => ⟨h, hlog⟩)
    fun hopen hdata => ?_
  obtain ⟨hnew, hparsing⟩ := appendToBuffer_bounds env (h.2 hopen) data ([.timerStart] ++ log)
  set r := (appendToBuffer env ctx data).run ([.timerStart] ++ log) with hr
  have hlog' : ∀ e ∈ r.2 ++ ([.timerStart] ++ log), e.InBounds := by
    simp only [List.mem_append, List.mem_singleton]
    rintro e (he | rfl | he)
    · exact hnew e he
    · trivial
    · exact hlog e he
  have hstep (ctx : ClientContext) (t : List ServerEvent) (hspent : ¬ctx.Spent)
      (hInv : ctx.Parsing ∧ ∀ e ∈ t, e.InBounds) :
      Kept ((parseStep tables env ctx).run t).1 ∧
        ∀ e ∈ ((parseStep tables env ctx).run t).2 ++ t, e.InBounds := by
    obtain ⟨hnew, hkept⟩ := parseStep_bounds tables env t hInv.1 hspent
    exact ⟨hkept, fun e he => (List.mem_append.mp he).elim (hnew e) (hInv.2 e)⟩
  have hloop := Traced.loop_guarded (parseStep tables env) (fun ctx _ => ¬ctx.Spent)
    (fun ctx log => ctx.Parsing ∧ ∀ e ∈ log, e.InBounds)
    (fun ctx log => ctx.Settled ∧ ∀ e ∈ log, e.InBounds)
    (fun s t s' hs hInv hyield => by
      have hkept := hstep s t hs hInv
      rw [hyield] at hkept
      exact hkept)
    (fun s t s' hs hInv hdone => by
      have hkept := hstep s t hs hInv
      rw [hdone] at hkept
      exact hkept)
    (fun s t hInv => ⟨hInv.1.settled, hInv.2⟩) (r.1.bufferUsed + 1) r.1 _ (hguard hopen hdata)
    ⟨hparsing, hlog'⟩
  simp only [Traced.Ensures, List.append_assoc] at hloop ⊢
  exact hloop

/-- **Bounds of the parser state.** In every run of reads in which no iteration of the parser
begins with all arguments stored and the data of another one at hand, every argument is stored
below the count of arguments, for which the arrays were allocated, and the parser state is within
its bounds after the reads. -/
theorem connection_bounds (server : ServerContext) (reads : List (List UInt8))
    (hguard : Traced.Guarded (receive tables env) (ReadGuarded tables env)
      (ClientContext.fresh server) [] reads) :
    let r := (connection tables env server reads).run []
    (∀ e ∈ r.2, e.InBounds) ∧ r.1.argsParsed ≤ r.1.argsTotal ∧ r.1.argsTotal ≤ MAX_ARGS ∧
      r.1.dataToRead ≤ MAX_BULK_LENGTH ∧ r.1.bufferUsed ≤ r.1.bufferCapacity := by
  have hrun := Traced.runAll_guarded (receive tables env) (ReadGuarded tables env)
    (fun ctx log => ctx.Settled ∧ ∀ e ∈ log, e.InBounds)
    (fun ctx log data hok hInv => receive_bounds tables env hok hInv.1 hInv.2) reads _ []
    hguard ⟨(ClientContext.parsing_fresh server).settled, by simp⟩
  obtain ⟨⟨hbounded, -⟩, hlog⟩ := hrun
  rw [List.append_nil] at hlog
  exact ⟨hlog, hbounded.parsed, hbounded.total, hbounded.data, hbounded.fits⟩

end Runs

/-- A command in two reads, and bytes after it that are too few for another argument. -/
theorem connection_bounds_command :
    let r := (connection Env.granting .granting ⟨fresh 1, []⟩
      [bytes "*1\r\n$5\r\nCO", bytes "UNT\r\n*1\r\n"]).run []
    (∀ e ∈ r.2, e.InBounds) ∧ r.1.argsParsed ≤ r.1.argsTotal ∧ r.1.argsTotal ≤ MAX_ARGS ∧
      r.1.dataToRead ≤ MAX_BULK_LENGTH ∧ r.1.bufferUsed ≤ r.1.bufferCapacity :=
  connection_bounds Env.granting .granting ⟨fresh 1, []⟩ _ (by decide +kernel)

/-- After a command with an empty argument, two more bytes are stored past its arrays. -/
theorem argument_stored_past_arrays :
    ¬∀ (tables : Env (Event DataEntry)) (env : ServerEnv) (server : ServerContext)
      (reads : List (List UInt8)), ∀ e ∈ ((connection tables env server reads).run []).2,
        e.InBounds := by
  intro h
  have hstore : .argvStore 1 1 1 ∈ ((connection Env.granting .granting ⟨fresh 1, []⟩
      [bytes "*1\r\n$0\r\n\r\n\r\n"]).run []).2 := by
    decide +kernel
  exact absurd (h _ _ _ _ _ hstore).1 (lt_irrefl 1)

end SimpleCDatabase
