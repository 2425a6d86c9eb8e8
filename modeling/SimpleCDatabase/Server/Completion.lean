import SimpleCDatabase.Server.Grammar
import SimpleCDatabase.Server.Sessions

/-!
# What the parser waits for

When `parse_buffer` leaves its loop and the connection stays open, it waits for more bytes: for the
first one of a header, for the rest of a header line, or for the rest of the data of an argument.
The first and the last always come to a command. A header line that has begun does when it can be
completed with a number within the bounds.

## Main definitions

* `ClientContext.Waiting`: the states in which the loop is left.
* `Completable`: the beginnings of a header line that bytes to come can complete.
* `ClientContext.Viable`: the waiting states from which a command can still be executed.

## Main results

* `connection_waiting`: a connection is closed or waiting between reads.
* `executes_of_viable`: from a viable state a command can be executed.
-/

namespace SimpleCDatabase

open CString

/-! ### Waiting -/

namespace ClientContext

/-- Nothing is at hand, or a header line has begun and has not ended. -/
def AwaitsLine (ctx : ClientContext) (marker : UInt8) : Prop :=
  ctx.pending = [] ∨ ∃ q, ctx.pending = marker :: q ∧ findCrlf q = none

/-- The states in which the loop of the parser is left for want of bytes. -/
def Waiting (ctx : ClientContext) : Prop :=
  match ctx.state with
  | .expectType => ctx.AwaitsLine 42
  | .expectLength => ctx.AwaitsLine 36
  | .expectData => ctx.bufferUsed < ctx.dataToRead + 2

theorem waiting_fresh (server : ServerContext) : (fresh server).Waiting := .inl rfl

end ClientContext

section Waiting

variable (tables : Env (Event DataEntry)) (env : ServerEnv) {ctx : ClientContext}
  (log : List ServerEvent)

private theorem HeaderRead.awaitsLine {marker : UInt8} {least greatest : ℤ}
    {next : ℕ → ClientContext} {ctx' : ClientContext} {new : List ServerEvent}
    (h : HeaderRead ctx marker least greatest next (.done ctx') new) :
    ctx'.closing = true ∨ ctx' = ctx ∧ ctx.AwaitsLine marker := by
  cases h with
  | starved h => exact .inr ⟨rfl, .inl h⟩
  | unmarked | refused => exact .inl rfl
  | unended h hp => exact .inr ⟨rfl, .inr ⟨_, h, hp⟩⟩

private theorem DataRead.awaitsData {ctx' : ClientContext} {new : List ServerEvent}
    (h : DataRead tables env ctx (.done ctx') new) :
    ctx'.closing = true ∨ ctx' = ctx ∧ ctx.bufferUsed < ctx.dataToRead + 2 := by
  cases h with
  | starved h => exact .inr ⟨rfl, h⟩
  | unallocated | unstored => exact .inl rfl
  | completed _ _ hdispatched =>
    cases hdispatched with
    | overflow | unanswered => exact .inl rfl

/-- **The loop is left** when the connection has been closed or more bytes are needed. -/
theorem parseStep_waiting (h : ctx.Fits) :
    (parseStep tables env ctx).Ensures log fun r _ =>
      ∀ ctx', r = .done ctx' → ctx'.closing = true ∨ ctx'.Waiting := by
  refine parseStep_cases tables env log (fun hstate => ?_) (fun hstate => ?_) fun hstate => ?_
  · refine (expectType_spec env log h).mono ?_
    rintro _ _ ⟨new, hread, rfl⟩ ctx' rfl
    refine hread.awaitsLine.imp_right ?_
    rintro ⟨rfl, hawaits⟩
    rw [ClientContext.Waiting, show ctx.trimmed.state = .expectType from hstate]
    exact hawaits
  · refine (expectLength_spec env log h).mono ?_
    rintro _ new hread ctx' rfl
    refine hread.awaitsLine.imp_right ?_
    rintro ⟨rfl, hawaits⟩
    rw [ClientContext.Waiting, hstate]
    exact hawaits
  · refine (expectData_spec tables env ctx log).mono ?_
    rintro _ new hread ctx' rfl
    refine (hread.awaitsData tables env).imp_right ?_
    rintro ⟨rfl, hawaits⟩
    rw [ClientContext.Waiting, hstate]
    exact hawaits

/-- Bytes are appended when memory is granted. -/
theorem appendToBuffer_granted (hgrants : env.Grants) (h : ctx.Fits) (data : List UInt8) :
    (appendToBuffer env ctx data).Ensures log fun ctx' new =>
      ctx'.Fits ∧ ctx'.pending = ctx.pending ++ data ∧ executed new = [] ∧
        ∃ buffer, ctx' =
          { ctx with buffer := buffer, bufferUsed := ctx.bufferUsed + data.length } := by
  refine (appendToBuffer_spec env h data log).mono fun ctx' new happended => ?_
  cases happended with
  | denied hfalse => exact absurd (hfalse.symm.trans (hgrants _ _)) (by decide)
  | appended hfits hpending hnew =>
    refine ⟨hfits, hpending, ?_, _, rfl⟩
    obtain rfl | ⟨size, rfl⟩ := hnew
    · rfl
    · rfl

/-- **Between reads** a connection is closed or waiting. -/
theorem receive_waiting (hgrants : env.Grants) {data : List UInt8} (h : ctx.Fits)
    (hwaiting : ctx.closing = true ∨ ctx.Waiting) :
    (receive tables env ctx data).Ensures log fun ctx' _ =>
      ctx'.Fits ∧ (ctx'.closing = true ∨ ctx'.Waiting) := by
  refine receive_cases tables env log (fun _ => ⟨h, hwaiting⟩) (fun _ => ⟨h, hwaiting⟩)
    fun _ _ => ?_
  refine (appendToBuffer_granted env _ hgrants h data).mono fun ctx' new happended => ?_
  refine parseBuffer_ensures tables env _ (fun ctx _ => ctx.Fits)
    (fun ctx _ => ctx.Fits ∧ (ctx.closing = true ∨ ctx.Waiting)) (fun _ _ hs => hs)
    (fun s t s' hs hyield => ?_) (fun s t s' hs hdone => ?_) happended.1
  · have hfits := (parseStep_progress tables env t hs).1
    rwa [hyield] at hfits
  · have hfits := (parseStep_progress tables env t hs).1
    rw [hdone] at hfits
    exact ⟨hfits, parseStep_waiting tables env t hs s' hdone⟩

theorem connection_waiting (hgrants : env.Grants) (server : ServerContext)
    (reads : List (List UInt8)) :
    (connection tables env server reads).Ensures [] fun ctx _ =>
      ctx.closing = true ∨ ctx.Waiting :=
  (Traced.runAll_invariant (receive tables env)
    (fun ctx _ => ctx.Fits ∧ (ctx.closing = true ∨ ctx.Waiting)) reads
    (fun _ _ _ log hs => receive_waiting tables env log hgrants hs.1 hs.2)
    (ClientContext.fresh server) [] ⟨ClientContext.fits_fresh server,
      .inr (ClientContext.waiting_fresh server)⟩).2

end Waiting

/-! ### Header lines that can be completed -/

/-- What follows the marker of a header that bytes to come can complete, with a number within the
bounds. -/
inductive Completable (least greatest : ℤ) : List UInt8 → Prop where
  | growing {line : List UInt8} (hcr : 13 ∉ line)
    (h : (least ≤ strtol line ∧ strtol line ≤ greatest) ∨ Zeros line) :
    Completable least greatest line
  | ending {line : List UInt8} (hcr : 13 ∉ line)
    (h : least ≤ strtol line ∧ strtol line ≤ greatest) :
    Completable least greatest (line ++ [13])

section Completable

variable {least greatest : ℤ} {q : List UInt8}

/-- The line that completes a header, unless only `\n` is missing after a blank one. -/
theorem Completable.announces (h : Completable least greatest q) (hleast : 0 ≤ least)
    (hone : least ≤ 1) (hgreatest : 1 ≤ greatest) :
    (∃ line more n, q ++ more = line ++ [13, 10] ∧ Announces line n ∧ least ≤ n ∧ n ≤ greatest) ∨
      ∃ line, q = line ++ [13] ∧ 13 ∉ line ∧ Blank line ∧ least ≤ 0 := by
  have hannounces {line : List UInt8} (hcr : 13 ∉ line) (hb : ¬Blank line)
      (hwithin : least ≤ strtol line ∧ strtol line ≤ greatest) :
      ∃ n : ℕ, Announces line n ∧ least ≤ n ∧ n ≤ greatest := by
    obtain ⟨n, hn⟩ := Int.eq_ofNat_of_zero_le (hleast.trans hwithin.1)
    exact ⟨n, ⟨hcr, hb, hn⟩, hn ▸ hwithin.1, hn ▸ hwithin.2⟩
  cases h with
  | growing hcr h =>
    left
    by_cases hzeros : Zeros q
    · obtain ⟨hb, hnumber⟩ := hzeros.strtol_append_one
      obtain ⟨n, hline, hn⟩ := hannounces (by simp [hcr]) hb (hnumber ▸ ⟨hone, hgreatest⟩)
      exact ⟨q ++ [49], [49, 13, 10], n, by simp, hline, hn⟩
    · have hb : ¬Blank q := fun hb => hzeros (zeros_of_blank hb)
      obtain ⟨n, hline, hn⟩ := hannounces hcr hb (h.resolve_right hzeros)
      exact ⟨q, [13, 10], n, rfl, hline, hn⟩
  | @ending line hcr h =>
    by_cases hb : Blank line
    · exact .inr ⟨line, rfl, hcr, hb, strtol_blank hb ▸ h.1⟩
    · obtain ⟨n, hline, hn⟩ := hannounces hcr hb h
      exact .inl ⟨line, [10], n, by simp, hline, hn⟩

end Completable

/-! ### Completions of a command -/

/-- A command is executed, and no blank header line is met. -/
def Executes (out : List Output) : Prop :=
  (∃ request, .command request ∈ out) ∧ .blankHeader ∉ out

section Executes

variable {tables : Env (Event DataEntry)} {server : ServerContext} {total : ℕ}

/-- The last argument is at hand. -/
private theorem executes_last {args : List (List UInt8)} (htotal : args.length + 1 = total)
    {len : ℕ} {p : List UInt8} (hp : p.length = len + 2) :
    Executes ((reader tables).drain (.data total args len, server) p).1 := by
  have hseen := reader_data_seen tables server total args len p
  generalize hv : (reader tables).verdict (.data total args len, server) p = v at hseen
  cases hseen with
  | starved hshort => exact absurd hp hshort.ne
  | more _ hne => exact absurd htotal hne
  | answered =>
    rw [Tokenizer.drain_consume hv, ← hp, List.drop_length,
      Tokenizer.drain_wait (reader_verdict_short (Nat.succ_pos _))]
    exact ⟨⟨_, List.mem_cons_self⟩, by simp [Tokenizer.before]⟩
  | unanswered =>
    rw [Tokenizer.drain_stop hv]
    exact ⟨⟨_, List.mem_cons_self⟩, by simp⟩

/-- The data of an argument has begun; `k` arguments are to come after it. -/
private theorem executes_data {k : ℕ} {args : List (List UInt8)}
    (htotal : args.length + k + 1 = total) {len : ℕ} {p : List UInt8} (hp : p.length ≤ len + 2) :
    ∃ data, Executes ((reader tables).drain (.data total args len, server) (p ++ data)).1 := by
  induction k generalizing args len p with
  | zero =>
    refine ⟨List.replicate (len + 2 - p.length) 120, executes_last htotal ?_⟩
    rw [List.length_append, List.length_replicate]
    omega
  | succ k ih =>
    set full := p ++ List.replicate (len + 2 - p.length) 120 with hfull
    have hlen : full.length = len + 2 := by
      rw [hfull, List.length_append, List.length_replicate]
      omega
    obtain ⟨arg, a, b, hsplit, rfl⟩ : ∃ arg a b, full = arg ++ [a, b] ∧ arg.length = len := by
      refine ⟨full.take len, full[len], full[len + 1], ?_, by rw [List.length_take]; omega⟩
      rw [← List.drop_eq_nil_of_le hlen.le, ← List.drop_eq_getElem_cons,
        ← List.drop_eq_getElem_cons, List.take_append_drop]
    have hroom : (args ++ [arg]).length + k + 1 = total := by
      rw [List.length_append, List.length_singleton]
      omega
    obtain ⟨data, hdata⟩ := @ih (args ++ [arg]) hroom 0 [] (Nat.zero_le _)
    have hline : Announces [48] 0 := ⟨by decide, by decide, by decide⟩
    refine ⟨List.replicate (arg.length + 2 - p.length) 120 ++ 36 :: ([48] ++ 13 :: 10 :: data), ?_⟩
    rw [← List.append_assoc, ← hfull, hsplit, List.append_assoc, List.cons_append,
      List.cons_append, List.nil_append, drain_argument (by omega),
      drain_bulkHeader hline (Nat.zero_le _)]
    exact hdata

/-- A bulk header has ended. -/
private theorem executes_bulkHeader {args : List (List UInt8)} (hroom : args.length < total)
    {line : List UInt8} {n : ℕ} (hline : Announces line n) (hn : n ≤ MAX_BULK_LENGTH) :
    ∃ data, Executes ((reader tables).drain (.bulk total args, server)
      (36 :: (line ++ 13 :: 10 :: data))).1 := by
  obtain ⟨k, rfl⟩ := Nat.exists_eq_add_of_lt hroom
  obtain ⟨data, hdata⟩ := @executes_data tables server _ k args rfl n [] (Nat.zero_le _)
  exact ⟨data, by rwa [drain_bulkHeader hline hn]⟩

/-- An array header has ended. -/
private theorem executes_arrayHeader {line : List UInt8} {n : ℕ} (hline : Announces line n)
    (hpos : 0 < n) (hn : n ≤ MAX_ARGS) :
    ∃ data, Executes ((reader tables).drain (.header, server)
      (42 :: (line ++ 13 :: 10 :: data))).1 := by
  have hzero : Announces [48] 0 := ⟨by decide, by decide, by decide⟩
  obtain ⟨data, hdata⟩ := @executes_bulkHeader tables server n [] hpos [48] 0 hzero (Nat.zero_le _)
  exact ⟨_, by rwa [drain_arrayHeader hline hpos hn]⟩

end Executes

/-! ### Header lines that have ended -/

section Lines

variable (env : ServerEnv) {ctx : ClientContext} (log : List ServerEvent) {marker : UInt8}
  {least greatest : ℤ} {next : ℕ → ClientContext} {line rest : List UInt8}

/-- The line of a header is what stands before the first `\r`. -/
private theorem line_inj {line' rest' : List UInt8}
    (h : line ++ 13 :: 10 :: rest = line' ++ 13 :: 10 :: rest') (hcr : 13 ∉ line)
    (hcr' : 13 ∉ line') : line = line' ∧ rest = rest' := by
  have hlen : some line.length = some line'.length := by
    rw [← findCrlf_line hcr rest, h, findCrlf_line hcr']
  obtain ⟨hline, hrest⟩ := List.append_inj h (Option.some.inj hlen)
  exact ⟨hline, by simpa using hrest⟩

/-- The outcomes in front of a header line that has ended. -/
private theorem HeaderRead.ended {r : ForInStep ClientContext} {new : List ServerEvent}
    (h : HeaderRead ctx marker least greatest next r new)
    (hpending : ctx.pending = marker :: (line ++ 13 :: 10 :: rest)) (hcr : 13 ∉ line) :
    ∃ stale, (r = .done { ctx with closing := true } ∧ new = [.close] ∧
        ¬(least ≤ strtol (line ++ 13 :: 10 :: (rest ++ stale)) ∧
          strtol (line ++ 13 :: 10 :: (rest ++ stale)) ≤ greatest)) ∨
      ∃ n : ℕ, strtol (line ++ 13 :: 10 :: (rest ++ stale)) = n ∧ least ≤ n ∧ n ≤ greatest ∧
        r = .yield ((next n).shift (line.length + 3)) ∧
        new = [.consumed (ctx.buffer.take (line.length + 3))] := by
  cases h with
  | starved h => exact absurd (h.symm.trans hpending) (List.cons_ne_nil _ _).symm
  | unmarked h hc => exact absurd (List.cons.inj (h.symm.trans hpending)).1 hc
  | unended h hp =>
    rw [(List.cons.inj (h.symm.trans hpending)).2, findCrlf_line hcr] at hp
    exact nomatch hp
  | @refused line' rest' stale h hcr' hn =>
    obtain ⟨rfl, rfl⟩ := line_inj (List.cons.inj (h.symm.trans hpending)).2 hcr' hcr
    exact ⟨stale, .inl ⟨rfl, rfl, hn⟩⟩
  | @accepted line' rest' stale n h hcr' hn hleast hgreatest =>
    obtain ⟨rfl, rfl⟩ := line_inj (List.cons.inj (h.symm.trans hpending)).2 hcr' hcr
    exact ⟨stale, .inr ⟨n, hn, hleast, hgreatest, rfl, rfl⟩⟩

/-- In front of a byte that is not the marker the connection is closed. -/
theorem HeaderRead.closes {r : ForInStep ClientContext} {new : List ServerEvent}
    (h : HeaderRead ctx marker least greatest next r new) {c : UInt8} {p : List UInt8}
    (hpending : ctx.pending = c :: p) (hc : c ≠ marker) :
    r = .done { ctx with closing := true } ∧ new = [.close] := by
  have hother {p' : List UInt8} (h : ctx.pending = marker :: p') : False :=
    hc (List.cons.inj (hpending.symm.trans h)).1
  cases h with
  | starved h => exact absurd (h.symm.trans hpending) (List.cons_ne_nil _ _).symm
  | unended h | refused h | accepted h => exact (hother h).elim
  | unmarked => exact ⟨rfl, rfl⟩

/-- An array header that has ended is accepted exactly when the number read is within bounds. -/
theorem parseStep_yields_iff (tables : Env (Event DataEntry)) (hstate : ctx.state = .expectType)
    (hpending : ctx.pending = 42 :: (line ++ 13 :: 10 :: rest)) (hcr : 13 ∉ line) :
    (∃ ctx', ((parseStep tables env ctx).run log).1 = .yield ctx') ↔
      1 ≤ ((headerNumber env ctx).run log).1 ∧
        ((headerNumber env ctx).run log).1 ≤ (MAX_ARGS : ℤ) := by
  obtain ⟨hhead, hused⟩ := head_of_pending hpending
  have hlead : ¬0 < leadingWhitespace ctx := (leadingWhitespace_marked hpending).not_gt
  have hline : findCrlf ctx.pending = some (line.length + 1) := by
    rw [hpending, findCrlf_cons (by decide), findCrlf_line hcr]
    rfl
  have hempty : ¬ctx.bufferUsed < 1 := by omega
  simp only [parseStep, hstate, expectType, if_neg hlead, Traced.run_bind, Traced.run_pure,
    arrayHeader, hline, hhead, if_neg hempty, ne_eq, not_true_eq_false, if_false, List.nil_append]
  generalize ((headerNumber env ctx).run log).1 = n
  by_cases hout : n ≤ 0 ∨ (MAX_ARGS : ℤ) < n
  · rw [if_pos hout]
    constructor
    · rintro ⟨ctx', h⟩
      cases h
    · intro h
      omega
  · rw [if_neg hout, longToSizet_of_nonneg (by omega)]
    exact ⟨fun _ => by omega, fun _ => ⟨_, rfl⟩⟩

end Lines

/-! ### Viable states -/

namespace ClientContext

/-- The number that is read from the header line at hand when `\n` arrives next. -/
def numberAfterNewline (env : ServerEnv) (ctx : ClientContext) (log : List ServerEvent) : ℤ :=
  let r := (appendToBuffer env ctx [10]).run ([.timerStart] ++ log)
  ((headerNumber env r.1).run (r.2 ++ ([.timerStart] ++ log))).1

/-- Only `\n` is missing after a blank array header, and what memory holds after it begins with a
number within the bounds. -/
def CountsMemory (env : ServerEnv) (ctx : ClientContext) (log : List ServerEvent) : Prop :=
  (∃ line, ctx.pending = 42 :: (line ++ [13]) ∧ 13 ∉ line ∧ Blank line) ∧
    1 ≤ ctx.numberAfterNewline env log ∧ ctx.numberAfterNewline env log ≤ (MAX_ARGS : ℤ)

/-- The waiting states from which a command can still be executed. -/
def Viable (env : ServerEnv) (ctx : ClientContext) (log : List ServerEvent) : Prop :=
  match ctx.state with
  | .expectType => ∀ q, ctx.pending = 42 :: q →
    Completable 1 MAX_ARGS q ∨ ctx.CountsMemory env log
  | .expectLength => ∀ q, ctx.pending = 36 :: q → Completable 0 MAX_BULK_LENGTH q
  | .expectData => True

end ClientContext

section Viable

variable {tables : Env (Event DataEntry)} {env : ServerEnv} {ctx : ClientContext}
  {log : List ServerEvent} {mode : Mode} {server : ServerContext} {p : List UInt8}

/-- A connection that waits represents a reader that waits. -/
private theorem settled_of_waiting (hrep : ctx.Represents (mode, server) p)
    (hwaiting : ctx.Waiting) : (reader tables).Settled ⟨some (mode, server), p⟩ := by
  rintro _ ⟨⟩
  show readerVerdict tables (mode, server) p = .wait
  have hpending := hrep.pending
  have hmode := hrep.mode
  rw [ClientContext.Waiting] at hwaiting
  cases mode with
  | header =>
    rw [show ctx.state = .expectType from hmode] at hwaiting
    obtain hnil | ⟨q, hq, hopen⟩ := hwaiting
    · obtain rfl : p = [] := hpending.symm.trans hnil
      rfl
    · obtain rfl : p = 42 :: q := hpending.symm.trans hq
      exact (readerVerdict_header tables server (by simp) (by simp)).trans
        (headerVerdict_open hopen)
  | bulk total args =>
    rw [show ctx.state = .expectLength from hmode.1] at hwaiting
    obtain hnil | ⟨q, hq, hopen⟩ := hwaiting
    · obtain rfl : p = [] := hpending.symm.trans hnil
      rfl
    · obtain rfl : p = 36 :: q := hpending.symm.trans hq
      exact (readerVerdict_bulk tables server total args _).trans (headerVerdict_open hopen)
  | data total args len =>
    rw [show ctx.state = .expectData from hmode.1, show ctx.dataToRead = len from hmode.2.1,
      ← hrep.length] at hwaiting
    exact reader_verdict_short hwaiting

private theorem executed_ne_nil {new : List ServerEvent} {out : List Output}
    (hobserve : observe new = out) (h : Executes out) : executed new ≠ [] := by
  obtain ⟨⟨request, hmem⟩, -⟩ := h
  have hrequest : request ∈ executed new :=
    List.mem_filterMap.mpr ⟨.command request, hobserve ▸ hmem, rfl⟩
  exact List.ne_nil_of_mem hrequest

/-- One more read, after which the reader executes a command. -/
private theorem receive_executes (hgrants : env.Grants) (hrep : ctx.Represents (mode, server) p)
    (hwaiting : ctx.Waiting) {data : List UInt8}
    (h : Executes ((reader tables).drain (mode, server) (p ++ data)).1) :
    (receive tables env ctx data).Ensures log fun _ new => executed new ≠ [] :=
  (receive_refines hgrants (c := ⟨some (mode, server), p⟩) hrep (settled_of_waiting hrep hwaiting)
    data log h.2).mono fun _ _ hr => executed_ne_nil hr.2 h

/-- The bytes at hand after a read. -/
private theorem represents_grown {data : List UInt8} (hrep : ctx.Represents (mode, server) p)
    {ctx' : ClientContext} (hfits : ctx'.Fits) (hpending : ctx'.pending = ctx.pending ++ data)
    (hctx' : ∃ buffer, ctx' =
      { ctx with buffer := buffer, bufferUsed := ctx.bufferUsed + data.length }) :
    ctx'.Represents (mode, server) (p ++ data) := by
  obtain ⟨buffer, rfl⟩ := hctx'
  exact ⟨hfits, hrep.opened, hrep.server, hrep.mode.of_buffer, by rw [hpending, hrep.pending]⟩

/-- The bytes at hand after a header line has been consumed. -/
private theorem represents_afterLine {s : Mode × ServerContext} {marker : UInt8}
    {line rest : List UInt8} (h : ctx.Represents s (marker :: (line ++ 13 :: 10 :: rest))) :
    (ctx.shift (line.length + 3)).Represents s rest := by
  have hshift := h.shift (n := line.length + 3) (by simp)
  rwa [drop_line] at hshift

theorem strtol_blank_line {line : List UInt8} (hb : Blank line) (rest : List UInt8) :
    strtol (line ++ 13 :: 10 :: rest) = strtol rest := by
  have hblank : Blank (line ++ [13, 10]) := by
    intro c hc
    rcases List.mem_append.mp hc with hc | hc
    · exact hb c hc
    · simp only [List.mem_cons, List.not_mem_nil, or_false] at hc
      rcases hc with rfl | rfl <;> rfl
  rw [← strtol_blank_append hblank rest, List.append_assoc]
  rfl

/-- Only `\n` is missing after a blank bulk header: with bytes that begin no number after it, the
argument is empty. -/
private theorem receive_executes_blank (hgrants : env.Grants) {total : ℕ}
    {args : List (List UInt8)} {line : List UInt8}
    (hrep : ctx.Represents (.bulk total args, server) (36 :: (line ++ [13])))
    (hcr : 13 ∉ line) (hb : Blank line) (hroom : args.length < total) :
    ∃ data, (receive tables env ctx data).Ensures log fun _ new => executed new ≠ [] := by
  obtain ⟨k, rfl⟩ := Nat.exists_eq_add_of_lt hroom
  obtain ⟨data, hdata⟩ := @executes_data tables server _ k args rfl 0 [120, 120] le_rfl
  refine ⟨10 :: 120 :: 120 :: data, ?_⟩
  rw [receive_eq tables env hrep.opened (List.cons_ne_nil _ _), Traced.ensures_bind,
    Traced.ensures_emit]
  refine (appendToBuffer_granted env _ hgrants hrep.fits _).bind fun ctx₁ new happended => ?_
  obtain ⟨hfits, hpending, -, hctx₁⟩ := happended
  have hrep₁ := represents_grown hrep hfits hpending hctx₁
  rw [List.cons_append, List.append_assoc, List.singleton_append] at hrep₁
  set log₁ := new ++ ([.timerStart] ++ log)
  have hread := parseStep_expectLength tables env log₁ hfits hrep₁.mode.1
  have hnumber (stale : List UInt8) :
      strtol (line ++ 13 :: 10 :: (120 :: 120 :: data ++ stale)) = 0 := by
    rw [strtol_blank_line hb]
    exact strtol_cons_of_other rfl rfl (by decide) (by decide) _
  obtain ⟨stale, ⟨-, -, hout⟩ | ⟨n, hn, -, -, hyield, -⟩⟩ := hread.ended hrep₁.pending hcr
  · rw [hnumber stale] at hout
    exact absurd ⟨le_rfl, Int.natCast_nonneg _⟩ hout
  · obtain rfl : n = 0 := by
      rw [hnumber stale] at hn
      exact_mod_cast hn.symm
    have hnext : ClientContext.Represents { ctx₁ with dataToRead := 0, state := .expectData }
        (.data (args.length + k + 1) args 0, server)
        (36 :: (line ++ 13 :: 10 :: 120 :: 120 :: data)) :=
      ⟨hfits, hrep₁.opened, hrep₁.server, hrep₁.mode.announced 0, hrep₁.pending⟩
    rw [Traced.Ensures, run_parseBuffer_yield tables env log₁ hfits hyield]
    have hloop := parseBuffer_refines hgrants (represents_afterLine hnext)
      (((parseStep tables env ctx₁).run log₁).2 ++ log₁) hdata.2
    have hexecuted := executed_ne_nil hloop.2 hdata
    rw [executed_append, executed_append]
    simp [hexecuted]

/-- Only `\n` is missing after a blank array header, and memory holds a number. -/
private theorem receive_counts (hgrants : env.Grants)
    (hrep : ctx.Represents (.header, server) p) (h : ctx.CountsMemory env log) :
    (receive tables env ctx [10]).Ensures log fun ctx' _ =>
      ∃ n, 0 < n ∧ ctx'.Represents (.bulk n [], server) [] := by
  obtain ⟨⟨line, hline, hcr, -⟩, hnumber⟩ := h
  obtain rfl : p = 42 :: (line ++ [13]) := hrep.pending.symm.trans hline
  rw [receive_eq tables env hrep.opened (List.cons_ne_nil _ _), Traced.ensures_bind,
    Traced.ensures_emit, Traced.ensures_bind]
  obtain ⟨hfits, hpending, -, hctx₁⟩ :=
    appendToBuffer_granted env ([.timerStart] ++ log) hgrants hrep.fits [10]
  rw [ClientContext.numberAfterNewline] at hnumber
  set r := (appendToBuffer env ctx [10]).run ([.timerStart] ++ log)
  have hrep₁ := represents_grown hrep hfits hpending hctx₁
  rw [List.cons_append, List.append_assoc, List.singleton_append] at hrep₁
  set log₁ := r.2 ++ ([.timerStart] ++ log)
  obtain ⟨ctx₂, hyield⟩ :=
    (parseStep_yields_iff env log₁ tables hrep₁.mode hrep₁.pending hcr).mpr hnumber
  have hread := parseStep_expectType tables env log₁ hfits hrep₁.mode
    (leadingWhitespace_marked hrep₁.pending)
  rw [Traced.Ensures, hyield] at hread
  obtain ⟨stale, ⟨hdone, -⟩ | ⟨n, -, hpos, hmax, hnext, -⟩⟩ := hread.ended hrep₁.pending hcr
  · cases hdone
  · obtain rfl := ForInStep.yield.inj hnext
    have hpos : 0 < n := by exact_mod_cast hpos
    have hrep₂ : ClientContext.Represents
        { r.1 with argsTotal := n, argsParsed := 0, state := .expectLength } (.bulk n [], server)
        (42 :: (line ++ 13 :: 10 :: [])) :=
      ⟨hfits, hrep₁.opened, hrep₁.server,
        ClientContext.inMode_counted _ (by exact_mod_cast hmax), hrep₁.pending⟩
    have hwait : (reader tables).verdict (.bulk n [], server) [] = .wait := rfl
    have hloop := parseBuffer_refines hgrants (represents_afterLine hrep₂)
      (((parseStep tables env r.1).run log₁).2 ++ log₁) (by rw [Tokenizer.drain_wait hwait]; simp)
    rw [Tokenizer.drain_wait hwait] at hloop
    have hbuffer : (parseBuffer tables env r.1).Ensures log₁ fun ctx' _ =>
        ∃ n, 0 < n ∧ ctx'.Represents (.bulk n [], server) [] := by
      rw [Traced.Ensures, run_parseBuffer_yield tables env log₁ hfits hyield]
      exact ⟨n, hpos, hloop.1⟩
    exact hbuffer

/-- A run of one read. -/
private theorem runAll_singleton {data : List UInt8} {Q : ClientContext → List ServerEvent → Prop}
    (h : (receive tables env ctx data).Ensures log Q) :
    (Traced.runAll (receive tables env) ctx [data]).Ensures log Q :=
  h.bind fun _ _ hq => hq

/-- In front of a header that has begun, the line that completes it and what follows. -/
private theorem complete_line {marker : UInt8} {q line more : List UInt8}
    (h : q ++ more = line ++ [13, 10]) (data : List UInt8) :
    marker :: q ++ (more ++ data) = marker :: (line ++ 13 :: 10 :: data) := by
  rw [List.cons_append, ← List.append_assoc, h, List.append_assoc]
  rfl

/-- Reads that come to a command from in front of a bulk header. -/
private theorem executes_of_bulk (hgrants : env.Grants) {total : ℕ} {args : List (List UInt8)}
    (hrep : ctx.Represents (.bulk total args, server) p) (hroom : args.length < total)
    (hawaits : ctx.AwaitsLine 36)
    (hviable : ∀ q, ctx.pending = 36 :: q → Completable 0 MAX_BULK_LENGTH q) :
    ∃ more, (Traced.runAll (receive tables env) ctx more).Ensures log fun _ new =>
      executed new ≠ [] := by
  have hwaiting : ctx.Waiting := by
    rw [ClientContext.Waiting, hrep.mode.1]
    exact hawaits
  obtain hnil | ⟨q, hq, -⟩ := hawaits
  · obtain rfl : p = [] := hrep.pending.symm.trans hnil
    have hline : Announces [48] 0 := ⟨by decide, by decide, by decide⟩
    obtain ⟨data, hdata⟩ := executes_bulkHeader hroom hline (Nat.zero_le _)
    exact ⟨[_], runAll_singleton (receive_executes hgrants hrep hwaiting hdata)⟩
  · obtain rfl : p = 36 :: q := hrep.pending.symm.trans hq
    obtain ⟨line, more, n, hmore, hline, -, hmax⟩ | ⟨line, rfl, hcr, hb, -⟩ :=
      (hviable q hq).announces le_rfl zero_le_one (by decide)
    · obtain ⟨data, hdata⟩ := executes_bulkHeader hroom hline (by exact_mod_cast hmax)
      rw [← complete_line hmore] at hdata
      exact ⟨[_], runAll_singleton (receive_executes hgrants hrep hwaiting hdata)⟩
    · obtain ⟨data, hdata⟩ := receive_executes_blank hgrants hrep hcr hb hroom
      exact ⟨[data], runAll_singleton hdata⟩

/-- **From a viable state a command can be executed.** -/
theorem executes_of_viable (hgrants : env.Grants) {stream : List UInt8}
    (h : Spelling stream mode ctx log) (hopen : ctx.closing = false) (hwaiting : ctx.Waiting)
    (hviable : ctx.Viable env log) :
    ∃ more, (Traced.runAll (receive tables env) ctx more).Ensures log fun _ new =>
      executed new ≠ [] := by
  have hrep : ctx.Represents (mode, ctx.serverCtx) ctx.pending :=
    ⟨h.fits, hopen, rfl, h.inMode, rfl⟩
  have hspells := h.spells
  have hmode := h.inMode
  have hawaits := hwaiting
  rw [ClientContext.Waiting] at hawaits
  rw [ClientContext.Viable] at hviable
  cases mode with
  | header =>
    rw [show ctx.state = .expectType from hmode] at hawaits hviable
    obtain hnil | ⟨q, hq, -⟩ := hawaits
    · have hline : Announces [49] 1 := ⟨by decide, by decide, by decide⟩
      obtain ⟨data, hdata⟩ := executes_arrayHeader hline one_pos (by decide)
      rw [hnil] at hrep
      exact ⟨[_], runAll_singleton (receive_executes hgrants hrep hwaiting hdata)⟩
    · obtain hcompletable | hcounts := hviable q hq
      · obtain ⟨line, more, n, hmore, hline, hpos, hmax⟩ | ⟨-, -, -, -, habsurd⟩ :=
          hcompletable.announces zero_le_one le_rfl (by decide)
        · obtain ⟨data, hdata⟩ :=
            executes_arrayHeader hline (by exact_mod_cast hpos) (by exact_mod_cast hmax)
          rw [hq] at hrep
          rw [← complete_line hmore] at hdata
          exact ⟨[_], runAll_singleton (receive_executes hgrants hrep hwaiting hdata)⟩
        · exact absurd habsurd (by decide)
      · obtain ⟨n, hpos, hrep'⟩ :=
          @receive_counts tables env ctx log ctx.serverCtx ctx.pending hgrants hrep hcounts
        have hbulk : ∃ more, (Traced.runAll (receive tables env) _ more).Ensures
            (((receive tables env ctx [10]).run log).2 ++ log) fun _ new => executed new ≠ [] :=
          executes_of_bulk hgrants hrep' hpos (.inl hrep'.pending) fun q hq =>
            absurd (hrep'.pending.symm.trans hq) (List.cons_ne_nil _ _).symm
        obtain ⟨more, hmore⟩ := hbulk
        refine ⟨[10] :: more, ?_⟩
        have hrest : (Traced.runAll (receive tables env) _ more).Ensures _ fun _ new =>
            executed (new ++ ((receive tables env ctx [10]).run log).2) ≠ [] :=
          hmore.mono fun _ new hnew => by simp [hnew]
        exact hrest
  | bulk total args =>
    rw [show ctx.state = .expectLength from hmode.1] at hawaits hviable
    exact executes_of_bulk hgrants hrep hspells.1 hawaits hviable
  | data total args len =>
    rw [show ctx.state = .expectData from hmode.1, show ctx.dataToRead = len from hmode.2.1,
      ← h.fits.length_pending] at hawaits
    obtain ⟨k, rfl⟩ := Nat.exists_eq_add_of_lt hspells.1
    obtain ⟨data, hdata⟩ := @executes_data tables ctx.serverCtx _ k args rfl len _ hawaits.le
    exact ⟨[_], runAll_singleton (receive_executes hgrants hrep hwaiting hdata)⟩

end Viable

end SimpleCDatabase
