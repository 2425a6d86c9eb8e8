import SimpleCDatabase.Server.Completion

/-!
# Waiting in vain

A header line that has begun need not come to an end: its `\r` may be followed by another byte than
`\n`, and its number may be out of bounds whatever follows. The parser waits all the same. From
such a state no reads come to a command, so a connection that waits can still come to one exactly
when its state is viable.

## Main definitions

* `Dead`: the connection is closed, or waits in a state that is not viable.

## Main results

* `Dead.run`: no reads bring a dead connection to a command.
* `waits_viable_iff`: what can come of waiting, for every run of reads that executes nothing.
-/

namespace SimpleCDatabase

open CString

/-! ### Lines that cannot be completed -/

section Dead

variable {least greatest : ℤ} {q data : List UInt8}

private theorem outside_append (hleast : 0 ≤ least) (hone : least ≤ 1) (hgreatest : 0 ≤ greatest)
    (h : ¬Completable least greatest q) {more : List UInt8} (hcr : 13 ∉ q ++ more) :
    ¬((least ≤ strtol (q ++ more) ∧ strtol (q ++ more) ≤ greatest) ∨ Zeros (q ++ more)) := by
  have hq : 13 ∉ q := fun hmem => hcr (List.mem_append_left _ hmem)
  have hnot : ¬((least ≤ strtol q ∧ strtol q ≤ greatest) ∨ Zeros q) :=
    fun hwithin => h (.growing hq hwithin)
  rw [not_or] at hnot ⊢
  exact ⟨strtol_append_outside hnot.2 hleast hone hgreatest hnot.1 more,
    fun hzeros => hnot.2 hzeros.of_append⟩

/-- Bytes that end in `\r` are what was there before with bytes that end in it. -/
private theorem exists_of_append_eq_snoc {line : List UInt8} (hdata : data ≠ [])
    (h : q ++ data = line ++ [13]) : ∃ more, q ++ more = line := by
  obtain ⟨more, c, rfl⟩ := (List.eq_nil_or_concat' data).resolve_left hdata
  rw [← List.append_assoc] at h
  exact ⟨more, (List.append_inj' h rfl).1⟩

/-- **A line that cannot be completed** stays so while it does not end. -/
private theorem not_completable_append (hleast : 0 ≤ least) (hone : least ≤ 1)
    (hgreatest : 0 ≤ greatest) (h : ¬Completable least greatest q) (hdata : data ≠ []) :
    ¬Completable least greatest (q ++ data) ∧
      ∀ line, q ++ data = line ++ [13] → 13 ∉ line → ¬Blank line := by
  refine ⟨fun hcompletable => ?_, fun line hline hcr hb => ?_⟩
  · generalize hwhole : q ++ data = whole at hcompletable
    cases hcompletable with
    | growing hcr hwithin =>
      subst hwhole
      exact outside_append hleast hone hgreatest h hcr hwithin
    | ending hcr hwithin =>
      obtain ⟨more, rfl⟩ := exists_of_append_eq_snoc hdata hwhole
      exact outside_append hleast hone hgreatest h hcr (.inl hwithin)
  · obtain ⟨more, rfl⟩ := exists_of_append_eq_snoc hdata hline
    exact outside_append hleast hone hgreatest h hcr (.inr (zeros_of_blank hb))

/-- Where a line ends that had begun. -/
private theorem line_begun {line rest : List UInt8} (hopen : findCrlf q = none)
    (h : q ++ data = line ++ 13 :: 10 :: rest) (hcr : 13 ∉ line) :
    (∃ more, line = q ++ more) ∨ q = line ++ [13] ∧ data = 10 :: rest := by
  obtain ⟨more, hline, -⟩ | ⟨more, rfl, hmore⟩ := List.append_eq_append_iff.mp h
  · exact .inl ⟨more, hline⟩
  · match more with
    | [] => exact .inl ⟨[], by simp⟩
    | [c] =>
      obtain ⟨rfl, hdata⟩ := List.cons.inj hmore
      exact .inr ⟨rfl, hdata.symm⟩
    | c :: d :: more =>
      obtain ⟨hc, hmore⟩ := List.cons.inj hmore
      rw [← hc, ← (List.cons.inj hmore).1, findCrlf_line hcr] at hopen
      exact nomatch hopen

/-- More bytes in front of a header that cannot be completed: the line stays as it is or the
connection is closed, unless `\n` ends a blank line. -/
private theorem HeaderRead.dead {ctx : ClientContext} {marker : UInt8} {next : ℕ → ClientContext}
    {r : ForInStep ClientContext} {new : List ServerEvent}
    (h : HeaderRead ctx marker least greatest next r new) (hleast : 0 ≤ least) (hone : least ≤ 1)
    (hgreatest : 0 ≤ greatest) (hpending : ctx.pending = marker :: (q ++ data))
    (hopen : findCrlf q = none) (hq : ¬Completable least greatest q) :
    (∃ ctx', r = .done ctx' ∧ executed new = [] ∧
      (ctx'.closing = true ∨ ctx' = ctx ∧ findCrlf (q ++ data) = none)) ∨
    ∃ (line rest stale : List UInt8) (n : ℕ), q = line ++ [13] ∧ data = 10 :: rest ∧
      Blank line ∧ 13 ∉ line ∧ 0 < least ∧ strtol (rest ++ stale) = n ∧ least ≤ n ∧
      r = .yield ((next n).shift (line.length + 3)) ∧ executed new = [] := by
  cases h with
  | starved h => exact absurd (h.symm.trans hpending) (List.cons_ne_nil _ _).symm
  | unmarked | refused => exact .inl ⟨_, rfl, rfl, .inl rfl⟩
  | unended h hp =>
    obtain rfl := (List.cons.inj (h.symm.trans hpending)).2
    exact .inl ⟨_, rfl, rfl, .inr ⟨rfl, hp⟩⟩
  | @accepted line rest stale n h hcr hn hmin hmax =>
    right
    have hwhole := (List.cons.inj (hpending.symm.trans h)).2
    obtain ⟨more, rfl⟩ | ⟨rfl, rfl⟩ := line_begun hopen hwhole hcr
    · -- The number of the whole line would be within the bounds.
      have hout := outside_append hleast hone hgreatest hq hcr
      have hb : ¬Blank (q ++ more) := fun hb => hout (.inr (zeros_of_blank hb))
      rw [strtol_header hb] at hn
      exact absurd (.inl ⟨hn ▸ hmin, hn ▸ hmax⟩) hout
    · by_cases hb : Blank line
      · have hout : ¬least ≤ 0 := fun hzero => hq (.ending hcr (by
          rw [strtol_blank hb]
          exact ⟨hzero, hgreatest⟩))
        rw [strtol_blank_line hb] at hn
        exact ⟨line, rest, stale, n, rfl, rfl, hb, hcr, not_le.mp hout, hn, hmin, rfl, rfl⟩
      · rw [strtol_header hb] at hn
        exact absurd (.ending hcr ⟨hn ▸ hmin, hn ▸ hmax⟩) hq

/-! ### Dead connections -/

/-- The connection is closed, or waits in a state that is not viable. -/
def Dead (env : ServerEnv) (ctx : ClientContext) (log : List ServerEvent) : Prop :=
  ctx.Fits ∧ (ctx.closing = true ∨ ctx.Waiting ∧ ¬ctx.Viable env log)

variable {tables : Env (Event DataEntry)} {env : ServerEnv} {ctx : ClientContext}
  {log : List ServerEvent}

/-- The loop in front of a bulk header that cannot be completed. -/
private theorem parseBuffer_deadBulk (hfits : ctx.Fits) (hstate : ctx.state = .expectLength)
    (hpending : ctx.pending = 36 :: (q ++ data)) (hopen : findCrlf q = none)
    (hq : ¬Completable 0 MAX_BULK_LENGTH q) (hdata : data ≠ []) :
    (parseBuffer tables env ctx).Ensures log fun ctx' new =>
      Dead env ctx' (new ++ log) ∧ executed new = [] := by
  have hfits' := (parseStep_progress tables env log hfits).1
  have hread := parseStep_expectLength tables env log hfits hstate
  obtain ⟨ctx', hdone, hquiet, hend⟩ | ⟨-, -, -, -, -, -, -, -, habsurd, -⟩ :=
    hread.dead le_rfl zero_le_one (by decide) hpending hopen hq
  · rw [hdone] at hfits'
    rw [Traced.Ensures, run_parseBuffer_done tables env log hdone]
    refine ⟨⟨hfits', hend.imp_right ?_⟩, hquiet⟩
    rintro ⟨rfl, hopen'⟩
    rw [ClientContext.Waiting, ClientContext.Viable, hstate]
    exact ⟨.inr ⟨_, hpending, hopen'⟩, fun hviable =>
      (not_completable_append le_rfl zero_le_one (by decide) hq hdata).1 (hviable _ hpending)⟩
  · exact absurd habsurd (lt_irrefl 0)

/-- The loop in front of a byte that begins no bulk header. -/
private theorem parseBuffer_deadUnmarked (hfits : ctx.Fits) (hstate : ctx.state = .expectLength)
    {c : UInt8} {p : List UInt8} (hpending : ctx.pending = c :: p) (hc : c ≠ 36) :
    (parseBuffer tables env ctx).Ensures log fun ctx' new =>
      Dead env ctx' (new ++ log) ∧ executed new = [] := by
  have hread := parseStep_expectLength tables env log hfits hstate
  obtain ⟨hdone, hnew⟩ := hread.closes hpending hc
  rw [Traced.Ensures, run_parseBuffer_done tables env log hdone, hnew]
  exact ⟨⟨hfits, .inl rfl⟩, rfl⟩

/-- The loop in front of a blank line that `\n` has ended and that a byte follows: the number is
that of what follows, and no `$` begins it. -/
private theorem parseBuffer_deadBlank (hfits : ctx.Fits) {line rest stale : List UInt8}
    {c : UInt8} {n : ℕ} (hpending : ctx.pending = 42 :: (line ++ 13 :: 10 :: c :: rest))
    (hn : strtol (c :: (rest ++ stale)) = n) (hpos : 1 ≤ (n : ℤ))
    (hyield : ((parseStep tables env ctx).run log).1 = .yield (ClientContext.shift { ctx with
      argsTotal := n, argsParsed := 0, state := .expectLength } (line.length + 3)))
    (hquiet : executed ((parseStep tables env ctx).run log).2 = []) :
    (parseBuffer tables env ctx).Ensures log fun ctx' new =>
      Dead env ctx' (new ++ log) ∧ executed new = [] := by
  have hc : c ≠ 36 := by
    rintro rfl
    rw [strtol_cons_of_other rfl rfl (by decide) (by decide)] at hn
    omega
  have hfits' := (parseStep_progress tables env log hfits).1
  rw [hyield] at hfits'
  have hnext : ClientContext.Fits { ctx with
    argsTotal := n, argsParsed := 0, state := .expectLength } := hfits
  have hafter := hnext.pending_shift (hfits.header_le hpending)
  rw [show ClientContext.pending { ctx with
    argsTotal := n, argsParsed := 0, state := .expectLength } = _ from hpending,
    drop_line] at hafter
  obtain ⟨hdead, hnone⟩ := @parseBuffer_deadUnmarked tables env _
    (((parseStep tables env ctx).run log).2 ++ log) hfits' rfl c rest hafter hc
  rw [Traced.Ensures, run_parseBuffer_yield tables env log hfits hyield]
  refine ⟨?_, ?_⟩
  · rw [List.append_assoc]
    exact hdead
  · rw [executed_append, hquiet]
    exact hnone

/-- The loop in front of an array header that cannot be completed. -/
private theorem parseBuffer_deadArray (hfits : ctx.Fits) (hstate : ctx.state = .expectType)
    (hpending : ctx.pending = 42 :: (q ++ data)) (hopen : findCrlf q = none)
    (hq : ¬Completable 1 MAX_ARGS q) (hdata : data ≠ [])
    (hmemory : data = [10] → ∀ line, q = line ++ [13] → 13 ∉ line → Blank line →
      ¬(1 ≤ ((headerNumber env ctx).run log).1 ∧
        ((headerNumber env ctx).run log).1 ≤ (MAX_ARGS : ℤ))) :
    (parseBuffer tables env ctx).Ensures log fun ctx' new =>
      Dead env ctx' (new ++ log) ∧ executed new = [] := by
  have hfits' := (parseStep_progress tables env log hfits).1
  have hread := parseStep_expectType tables env log hfits hstate
    (leadingWhitespace_marked hpending)
  obtain ⟨ctx', hdone, hquiet, hend⟩ |
      ⟨line, rest, stale, n, rfl, rfl, hb, hcr, -, hn, hpos, hyield, hquiet⟩ :=
    hread.dead zero_le_one le_rfl (by decide) hpending hopen hq
  · rw [hdone] at hfits'
    rw [Traced.Ensures, run_parseBuffer_done tables env log hdone]
    refine ⟨⟨hfits', hend.imp_right ?_⟩, hquiet⟩
    rintro ⟨rfl, hopen'⟩
    rw [ClientContext.Waiting, ClientContext.Viable, hstate]
    have hnot := not_completable_append zero_le_one le_rfl (by decide) hq hdata
    refine ⟨.inr ⟨_, hpending, hopen'⟩, fun hviable => ?_⟩
    obtain hcompletable | ⟨⟨line, hline, hcr, hb⟩, -⟩ := hviable _ hpending
    · exact hnot.1 hcompletable
    · exact hnot.2 line (List.cons.inj (hpending.symm.trans hline)).2 hcr hb
  · rw [List.append_assoc, List.singleton_append] at hpending
    cases rest with
    | nil =>
      have hcount := (parseStep_yields_iff env log tables hstate hpending hcr).mp ⟨_, hyield⟩
      exact absurd hcount (hmemory rfl line rfl hcr hb)
    | cons c rest => exact parseBuffer_deadBlank hfits hpending hn hpos hyield hquiet

/-- **A dead connection stays dead**, and executes nothing. -/
private theorem receive_dead (hgrants : env.Grants) (data : List UInt8) (h : Dead env ctx log) :
    (receive tables env ctx data).Ensures log fun ctx' new =>
      Dead env ctx' (new ++ log) ∧ executed new = [] := by
  refine receive_cases tables env log (fun _ => ⟨h, rfl⟩) (fun _ => ⟨h, rfl⟩)
    fun hclosing hdata => ?_
  obtain ⟨hfits, hend⟩ := h
  obtain ⟨hwaiting, hviable⟩ := hend.resolve_left (Bool.eq_false_iff.mp hclosing)
  obtain ⟨hfits', hpending', hquiet, buffer, hctx'⟩ :=
    appendToBuffer_granted env ([.timerStart] ++ log) hgrants hfits data
  set r := (appendToBuffer env ctx data).run ([.timerStart] ++ log) with hr
  have hloop : (parseBuffer tables env r.1).Ensures (r.2 ++ ([.timerStart] ++ log))
      fun ctx' new => Dead env ctx' (new ++ (r.2 ++ ([.timerStart] ++ log))) ∧
        executed new = [] := by
    have hstate' : r.1.state = ctx.state := by rw [hctx']
    rw [ClientContext.Viable] at hviable
    rw [ClientContext.Waiting] at hwaiting
    cases hstate : ctx.state with
    | expectData =>
      rw [hstate] at hviable
      exact absurd trivial hviable
    | expectLength =>
      rw [hstate] at hviable hwaiting
      simp only [not_forall] at hviable
      obtain ⟨q, hq, hnot⟩ := hviable
      obtain ⟨q', hq', hopen⟩ := hwaiting.resolve_left fun hnil =>
        absurd (hnil.symm.trans hq) (List.cons_ne_nil _ _).symm
      obtain rfl := (List.cons.inj (hq.symm.trans hq')).2
      exact parseBuffer_deadBulk hfits' (hstate'.trans hstate)
        (hpending'.trans (by rw [hq, List.cons_append])) hopen hnot hdata
    | expectType =>
      rw [hstate] at hviable hwaiting
      simp only [not_forall, not_or] at hviable
      obtain ⟨q, hq, hnot, hmemory⟩ := hviable
      obtain ⟨q', hq', hopen⟩ := hwaiting.resolve_left fun hnil =>
        absurd (hnil.symm.trans hq) (List.cons_ne_nil _ _).symm
      obtain rfl := (List.cons.inj (hq.symm.trans hq')).2
      refine parseBuffer_deadArray hfits' (hstate'.trans hstate)
        (hpending'.trans (by rw [hq, List.cons_append])) hopen hnot hdata ?_
      rintro rfl line rfl hcr hb hcount
      exact hmemory ⟨⟨line, hq, hcr, hb⟩, hcount⟩
  have hread : (parseBuffer tables env r.1).Ensures (r.2 ++ ([.timerStart] ++ log))
      fun ctx' new => Dead env ctx' (new ++ r.2 ++ [.timerStart] ++ log) ∧
        executed (new ++ r.2 ++ [.timerStart]) = [] := by
    refine hloop.mono fun ctx' new hnew => ⟨?_, ?_⟩
    · simpa only [List.append_assoc] using hnew.1
    · rw [executed_append, executed_append, hquiet, hnew.2]
      rfl
  exact hread

/-- **No reads bring a dead connection to a command.** -/
theorem Dead.run (hgrants : env.Grants) (more : List (List UInt8)) (h : Dead env ctx log) :
    (Traced.runAll (receive tables env) ctx more).Ensures log fun _ new => executed new = [] := by
  induction more generalizing ctx log with
  | nil => rfl
  | cons data more ih =>
    refine (receive_dead hgrants data h).bind fun ctx' new hread => ?_
    refine (ih hread.1).mono fun _ new' hnew' => ?_
    rw [executed_append, hread.2, hnew']
    rfl

end Dead

/-! ### Runs -/

/-- After reads in which nothing is executed, what is executed is what more reads execute. -/
private theorem executed_more {tables : Env (Event DataEntry)} {env : ServerEnv}
    {server : ServerContext} {reads : List (List UInt8)}
    (hnone : executed ((connection tables env server reads).run []).2 = [])
    (more : List (List UInt8)) :
    executed ((connection tables env server (reads ++ more)).run []).2 =
      executed ((Traced.runAll (receive tables env)
        ((connection tables env server reads).run []).1 more).run
          ((connection tables env server reads).run []).2).2 := by
  rw [connection, Traced.run_runAll_append, executed_append, ← connection, hnone,
    List.append_nil]
  rfl

/-- **What can come of waiting.** When memory is granted and a connection has executed nothing and
is open after some reads, more reads can bring it to a command exactly when the state in which the
parser waits is viable. -/
theorem waits_viable_iff {tables : Env (Event DataEntry)} {env : ServerEnv}
    (hgrants : env.Grants) (server : ServerContext) (reads : List (List UInt8))
    (hnone : executed ((connection tables env server reads).run []).2 = [])
    (hopen : ((connection tables env server reads).run []).1.closing = false) :
    (∃ more, executed ((connection tables env server (reads ++ more)).run []).2 ≠ []) ↔
      ((connection tables env server reads).run []).1.Viable env
        ((connection tables env server reads).run []).2 := by
  have hbetween := connection_between tables env server reads
  have hwaiting : ((connection tables env server reads).run []).1.Waiting :=
    (connection_waiting tables env hgrants server reads).resolve_left
      (Bool.eq_false_iff.mp hopen)
  simp only [executed_more hnone]
  constructor
  · rintro ⟨more, hexecuted⟩
    by_contra hviable
    exact hexecuted (Dead.run hgrants more ⟨hbetween.1, .inr ⟨hwaiting, hviable⟩⟩)
  · intro hviable
    obtain ⟨args, before, hfirst, -⟩ | ⟨mode, hspelling⟩ := (hbetween.2.1 hopen).2
    · rw [firstExecution_eq_none_iff.mpr hnone] at hfirst
      exact nomatch hfirst
    · exact executes_of_viable hgrants hspelling hopen hwaiting hviable

/-- A command whose last argument has begun can be completed. -/
theorem waits_for_argument :
    ∃ more, executed ((connection Env.granting .granting ⟨Hashtable.fresh 1, []⟩
      ([bytes "*1\r\n$5\r\nCO"] ++ more)).run []).2 ≠ [] := by
  refine (waits_viable_iff ServerEnv.granting_grants _ _ (by decide +kernel)
    (by decide +kernel)).mpr ?_
  have hstate : ((connection Env.granting .granting ⟨Hashtable.fresh 1, []⟩
      [bytes "*1\r\n$5\r\nCO"]).run []).1.state = .expectData := by decide +kernel
  rw [ClientContext.Viable, hstate]
  trivial

/-- After `\r` and another byte than `\n` the parser waits for ever. -/
theorem waits_in_vain :
    ¬∀ (tables : Env (Event DataEntry)) (env : ServerEnv), env.Grants →
      ∀ (server : ServerContext) (reads : List (List UInt8)),
        executed ((connection tables env server reads).run []).2 = [] →
        ((connection tables env server reads).run []).1.closing = false →
        ∃ more, executed ((connection tables env server (reads ++ more)).run []).2 ≠ [] := by
  intro h
  have hnone : executed ((connection Env.granting .granting ⟨Hashtable.fresh 1, []⟩
      [bytes "*1\rX"]).run []).2 = [] := by decide +kernel
  obtain ⟨more, hmore⟩ := h Env.granting .granting ServerEnv.granting_grants
    ⟨Hashtable.fresh 1, []⟩ [bytes "*1\rX"] hnone (by decide +kernel)
  rw [executed_more hnone] at hmore
  refine hmore (Dead.run ServerEnv.granting_grants more ?_)
  have hstate : ((connection Env.granting .granting ⟨Hashtable.fresh 1, []⟩
      [bytes "*1\rX"]).run []).1.state = .expectType := by decide +kernel
  have hpending : ((connection Env.granting .granting ⟨Hashtable.fresh 1, []⟩
      [bytes "*1\rX"]).run []).1.pending = 42 :: [49, 13, 88] := by decide +kernel
  have hsnoc (line : List UInt8) : [49, 13, 88] ≠ line ++ [13] := fun hline =>
    absurd (congrArg List.getLast? hline) (by simp)
  refine ⟨(connection_between _ _ _ _).1, .inr ⟨(connection_waiting _ _
    ServerEnv.granting_grants _ _).resolve_left (by decide +kernel), fun hviable => ?_⟩⟩
  rw [ClientContext.Viable, hstate] at hviable
  obtain hcompletable | ⟨⟨line, hline, -⟩, -⟩ := hviable _ hpending
  · have hnot (q : List UInt8) (hq : [49, 13, 88] = q) : ¬Completable 1 MAX_ARGS q := by
      rintro (hcr | ⟨hcr, -⟩)
      · exact hcr (by rw [← hq]; decide)
      · exact hsnoc _ hq
    exact hnot _ rfl hcompletable
  · exact hsnoc line (List.cons.inj (hpending.symm.trans hline)).2

end SimpleCDatabase
