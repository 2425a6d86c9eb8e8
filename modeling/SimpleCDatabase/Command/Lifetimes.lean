import SimpleCDatabase.Command.Keys

/-!
# Lifetimes of value blocks

A block that a command allocates is stored, destroyed or lost. It is lost when the operation that
it is handed to refuses it, since no caller looks at the code to release it, and the copy that
`GET` is given is lost always. Along a run the blocks that were created are accounted for: they are
stored, destroyed or lost, and what is lost stays so.

## Main definitions

* `NoneLost`: every block that lives is the value of a slot in use.
* `Request.LosesNothing`: the commands that lose no block.
* `Accounted`: the blocks of a run are stored, destroyed or lost.

## Main results

* `execute_accounted`: what one command adds to the account.
* `runDatabase_accounted_iff`, `runDatabase_noneLost_iff`: no block is lost in a run exactly when
  none of its commands loses one; that no lock outside the array is used is part of the law.
-/

namespace SimpleCDatabase

open Buckets CString Hashtable PowerOfTwo

/-- Every block that was created and not destroyed is the value of a slot in use. -/
def NoneLost (t : Hashtable DataEntry) (log : List (Event DataEntry)) : Prop :=
  ∀ b ∈ created log, b ∉ destroyed log → b ∈ t.values

/-- The commands that lose no block: a storing command whose block is granted is accepted by the
table, and a `GET` is given no copy. -/
def Request.LosesNothing (env : Env (Event DataEntry)) (t : Hashtable DataEntry)
    (log : List (Event DataEntry)) (req : Request) : Prop :=
  (∀ s : Store, req.tag = some s.command.tag → req.argc = 2 → ¬req.ValueRefused env log →
    (s.call (arg req.argv 0) (some (req.valueBlock log))).Accepted env t
      (req.valueEvents log ++ log)) ∧
  (req.tag = some .GET → req.argc = 1 → isKeyValid (arg req.argv 0) = true →
    ¬CopyGranted env t log (arg req.argv 0) stdValueSizer)

/-! ### One command -/

section Commands

variable {env : Env (Event DataEntry)} {t : Hashtable DataEntry} {log : List (Event DataEntry)}
  {req : Request}

/-- What a command adds to the account: the block it creates, and what it loses. -/
def Adds (env : Env (Event DataEntry)) (t : Hashtable DataEntry) (log : List (Event DataEntry))
    (req : Request) (t' : Hashtable DataEntry) (new : List (Event DataEntry)) : Prop :=
  ∃ (c : Option (Block DataEntry)) (lost : Multiset (Block DataEntry)),
    created new = c.toList ∧
    (∀ b, c = some b → log.length ≤ b.ident ∧ b.ident < (new ++ log).length) ∧
    (lost = 0 ↔ req.LosesNothing env t log) ∧
    t'.values + lost + (destroyed new : Multiset (Block DataEntry)) =
      t.values + (c.toList : Multiset (Block DataEntry))

/-- What moves no block but from the slots to the destroyed ones. -/
def Moves (t t' : Hashtable DataEntry) (new : List (Event DataEntry)) : Prop :=
  created new = [] ∧ t'.values + (destroyed new : Multiset (Block DataEntry)) = t.values

theorem moves_of_effects {new : List (Event DataEntry)} (heff : Effects new [] [] 0) :
    Moves t t new :=
  ⟨heff.created, by rw [heff.destroyed, Multiset.coe_nil, add_zero]⟩

theorem Moves.adds {t' : Hashtable DataEntry} {new : List (Event DataEntry)}
    (h : Moves t t' new) (hloses : req.LosesNothing env t log) : Adds env t log req t' new := by
  refine ⟨none, 0, h.1, nofun, iff_of_true rfl hloses, ?_⟩
  rw [add_zero, h.2]
  exact (add_zero _).symm

/-- A command that neither stores nor looks up loses nothing. -/
theorem Request.losesNothing_of_tag (hstore : ∀ s : Store, req.tag ≠ some s.command.tag)
    (hget : req.tag ≠ some .GET) : req.LosesNothing env t log :=
  ⟨fun s htag => absurd htag (hstore s), fun htag => absurd htag hget⟩

/-! ### The commands that create no block -/

/-- A procedure that moves no block but from the slots to the destroyed ones. -/
def MovesOnly (t : Hashtable DataEntry) (proc : Action (CommandResult × Hashtable DataEntry)) :
    Prop :=
  ∀ log, proc.Ensures log fun r new => Moves t r.2 new

private theorem movesOnly_error : MovesOnly t (pure (.error, t)) :=
  fun _ => moves_of_effects Effects.nil

private theorem movesOnly_ite {c : Prop} [Decidable c]
    {proc proc' : Action (CommandResult × Hashtable DataEntry)} (h : MovesOnly t proc)
    (h' : MovesOnly t proc') : MovesOnly t (if c then proc else proc') :=
  fun log => Traced.ensures_ite (fun _ => h log) fun _ => h' log

private theorem movesOnly_of_silent {β : Type} {op : Action β} (hop : Silent op)
    (report : β → CommandResult) :
    MovesOnly t (do
      let b ← op
      pure (report b, t)) := by
  intro log
  exact (hop log).bind fun _ _ heff => moves_of_effects heff

/-- A procedure that makes one call and is handed no value. -/
private theorem movesOnly_of_performs {call : TableCall DataEntry}
    {op : Action (ℤ × Hashtable DataEntry)} (hop : Performs env t call op)
    (hdropped : ∀ {code t' ds}, Outcome env t call code t' ds → handed call.destroys ds = ds)
    (hstores : call.stores = none) (hbounded : call.Bounded) (ht : t.WellFormed)
    (report : ℤ → CommandResult) :
    MovesOnly t (do
      let (code, context) ← op
      pure (report code, context)) := by
  intro log
  refine (hop log).bind ?_
  rintro ⟨code, t'⟩ new ⟨ds, hout, heff⟩
  have hlaw := hout.conservation hbounded ht
  rw [hstores, Option.toList_none, Multiset.coe_nil, ite_self, add_zero] at hlaw
  rw [hdropped hout] at heff
  have hmoves : Moves t t' new := ⟨heff.created, heff.destroyed ▸ hlaw⟩
  exact hmoves

/-- The commands of the table that create no block. -/
private theorem commandTable_movesOnly {cmd : Command} (hcmd : cmd ∈ commandTable)
    (hstore : ∀ s : Store, cmd.tag ≠ s.command.tag) (hget : cmd.tag ≠ .GET)
    {input : CommandData} (hsize : input.newSize.toNat ≤ 2 ^ 63) (ht : t.WellFormed) :
    MovesOnly t (cmd.proc env t input) := by
  simp only [commandTable, List.mem_cons, List.not_mem_nil, or_false] at hcmd
  rcases hcmd with rfl | rfl | rfl | rfl | rfl | rfl | rfl | rfl | rfl | rfl
  · exact absurd rfl (hstore .ADD)
  · exact movesOnly_of_performs (tableClear_spec env t true) (fun _ => rfl) rfl trivial ht .clear
  · change MovesOnly t (cmdCount env t input)
    rw [cmdCount]
    split
    · exact movesOnly_of_silent (tableOccupiedBucketCounter_silent env t) _
    · exact fun _ => moves_of_effects Effects.nil
    · exact movesOnly_of_silent (tableMemoryUsage_silent env t (some stdValueSizer)) _
    · exact fun _ => moves_of_effects Effects.nil
  · exact movesOnly_ite movesOnly_error (movesOnly_of_performs
      (tableDelete_spec env t input.key true) (fun _ => rfl) rfl trivial ht
      fun code => if code = 0 then .del code else .error)
  · exact movesOnly_ite movesOnly_error
      (movesOnly_of_silent (tableExist_silent env t input.key) .exist)
  · exact absurd rfl hget
  · exact fun _ => moves_of_effects Effects.nil
  · exact absurd rfl (hstore .REPLACE)
  · exact movesOnly_ite movesOnly_error (movesOnly_of_performs
      (tableResize_spec env t input.newSize) (fun h => by cases h <;> rfl) rfl hsize ht
      fun code => if code ≠ 0 then .error else .resize 0)
  · exact absurd rfl (hstore .SET)

/-- The arguments of the commands that store no value are decoded without an event. -/
private theorem buildCommandData_quiet {tag : CmdFunctionType}
    (hstore : ∀ s : Store, tag ≠ s.command.tag) (argv : List (List UInt8))
    (argsLengths : List ℕ) :
    (buildCommandData env tag argv argsLengths).Ensures log fun _ new => new = [] := by
  cases tag with
  | SET => exact absurd rfl (hstore .SET)
  | ADD => exact absurd rfl (hstore .ADD)
  | REPLACE => exact absurd rfl (hstore .REPLACE)
  | GET => exact Traced.ensures_ite (fun _ => rfl) fun _ => rfl
  | DEL => exact Traced.ensures_ite (fun _ => rfl) fun _ => rfl
  | EXIST => exact Traced.ensures_ite (fun _ => rfl) fun _ => rfl
  | RESIZE => exact Traced.ensures_ite (fun _ => rfl) fun _ => rfl
  | COUNT =>
    rw [buildCommandData]
    split
    · rfl
    · rfl
  | _ => rfl

/-- A command that creates no block. -/
private theorem perform_moves {cmd : Command} (hfind : findCommand req.commandName = some cmd)
    (hstore : ∀ s : Store, cmd.tag ≠ s.command.tag) (hget : cmd.tag ≠ .GET)
    (hreq : req.Bounded) (ht : t.WellFormed) :
    (req.perform env t).Ensures log fun p new => Moves t (tableAfter t p) new := by
  rw [Request.perform, hfind]
  refine Traced.ensures_ite (fun _ => moves_of_effects Effects.nil) fun _ => ?_
  have hbuild : (buildCommandData env cmd.tag req.argv req.argsLengths).Ensures log
      fun r new => new = [] ∧ ∀ input, r = some input → input.newSize.toNat ≤ 2 ^ 63 := by
    refine ⟨buildCommandData_quiet hstore _ _, fun input hinput => ?_⟩
    rcases ((buildCommandData_ensures env log _ _ _).2 input hinput).newSize with hzero | hsize
    · rw [hzero]
      exact Nat.zero_le _
    · rw [hsize.2]
      exact hreq cmd hfind hsize.1
  refine hbuild.bind ?_
  rintro (_ | input) new ⟨rfl, hsize⟩
  · exact moves_of_effects Effects.nil
  · refine (commandTable_movesOnly (mem_commandTable hfind) hstore hget (hsize input rfl) ht
      _).bind ?_
    intro r new hmoves
    simpa only [Traced.ensures_pure, List.append_nil, List.nil_append, tableAfter] using hmoves

/-! ### The commands that create a block -/

/-- A storing command that is given its block loses nothing exactly when it is accepted. -/
private theorem Store.losesNothing_iff {s : Store} (htag : req.tag = some s.command.tag)
    (hargc : req.argc = 2) (h : ¬req.ValueRefused env log) :
    req.LosesNothing env t log ↔
      (s.call (arg req.argv 0) (some (req.valueBlock log))).Accepted env t
        (req.valueEvents log ++ log) := by
  refine ⟨fun hloses => hloses.1 s htag hargc h, fun haccepted => ⟨?_, ?_⟩⟩
  · intro s' htag' _ _
    obtain rfl := Store.tag_injective (Option.some_inj.mp (htag.symm.trans htag'))
    exact haccepted
  · intro hget
    have hne : s.command.tag ≠ .GET := by cases s <;> decide
    exact absurd (Option.some_inj.mp (htag.symm.trans hget)) hne

/-- A storing command loses the block that the table refuses. -/
private theorem Store.perform_adds (s : Store)
    (hfind : findCommand req.commandName = some s.command) (ht : t.WellFormed) :
    (req.perform env t).Ensures log fun p new => Adds env t log req (tableAfter t p) new := by
  have htag : req.tag = some s.command.tag := by rw [Request.tag, hfind, Option.map_some]
  by_cases h : req.argc ≠ 2 ∨ req.ValueRefused env log
  · refine (s.perform_refused hfind h).mono ?_
    rintro _ new ⟨⟨e, rfl, -⟩, heff⟩
    refine (moves_of_effects heff).adds ⟨fun _ _ hargc hvalue => ?_, fun hget => ?_⟩
    · exact absurd h (not_or.mpr ⟨not_not.mpr hargc, hvalue⟩)
    · have hne : s.command.tag ≠ .GET := by cases s <;> decide
      exact absurd (Option.some_inj.mp (htag.symm.trans hget)) hne
  obtain ⟨hargc, hvalue⟩ := not_or.mp h
  have hargc := not_not.mp hargc
  refine (s.perform_called hfind hargc hvalue).mono ?_
  rintro _ _ ⟨result, t', new, rfl, rfl, hcalled⟩
  obtain ⟨code, ds, hout, heff, hcode⟩ := hcalled.outcome
  have hevents := effects_valueEvents log req
  have hstores : (s.call (arg req.argv 0) (some (req.valueBlock log))).stores =
      some (req.valueBlock log) := by cases s <;> rfl
  have hlaw := hout.conservation (by cases s <;> trivial) ht
  rw [hstores] at hlaw
  refine ⟨some (req.valueBlock log), if code = 0 then 0 else {req.valueBlock log}, ?_, ?_, ?_, ?_⟩
  · rw [created_append, heff.created, hevents.created]
    rfl
  · rintro b ⟨⟩
    simp only [Request.valueBlock, Request.valueEvents, List.length_append, List.length_cons,
      List.length_nil]
    omega
  · rw [Store.losesNothing_iff htag hargc hvalue, ← hcode]
    by_cases hzero : code = 0
    · simp [hzero]
    · simp [hzero]
  · rw [destroyed_append, heff.destroyed, hevents.destroyed, List.append_nil, tableAfter]
    split at hlaw
    · rw [if_pos ‹_›, add_zero, hlaw]
    · rw [if_neg ‹_›, add_right_comm, hlaw, add_zero]
      rfl

/-- `GET` loses the copy that it is given. -/
private theorem get_perform_adds
    (hfind : findCommand req.commandName = some ⟨bytes "GET", .GET, cmdGet, 1⟩) :
    (req.perform env t).Ensures log fun p new => Adds env t log req (tableAfter t p) new := by
  have htag : req.tag = some .GET := by rw [Request.tag, hfind, Option.map_some]
  have hiff : req.LosesNothing env t log ↔ (req.argc = 1 → isKeyValid (arg req.argv 0) = true →
      ¬CopyGranted env t log (arg req.argv 0) stdValueSizer) := by
    refine ⟨fun h => h.2 htag, fun h => ⟨fun s hs => ?_, fun _ => h⟩⟩
    have hne : s.command.tag ≠ .GET := by cases s <;> decide
    exact absurd (Option.some_inj.mp (htag.symm.trans hs)).symm hne
  rw [Request.perform, hfind]
  refine Traced.ensures_ite (fun hargc => ?_) fun hargc => ?_
  · exact (moves_of_effects Effects.nil).adds (hiff.mpr fun h => absurd h.symm hargc)
  have hargc : req.argc = 1 := (not_not.mp hargc).symm
  have hbuild : (buildCommandData env .GET req.argv req.argsLengths).Ensures log fun r new =>
      new = [] ∧ (isKeyValid (arg req.argv 0) = false ∧ r = none ∨
        isKeyValid (arg req.argv 0) = true ∧ r = some { key := arg req.argv 0 }) :=
    Traced.ensures_ite (fun h => ⟨rfl, .inl ⟨h, rfl⟩⟩)
      fun h => ⟨rfl, .inr ⟨eq_true_of_ne_false h, rfl⟩⟩
  refine hbuild.bind ?_
  rintro _ _ ⟨rfl, ⟨hvalid, rfl⟩ | ⟨hvalid, rfl⟩⟩
  · refine (moves_of_effects Effects.nil).adds (hiff.mpr fun _ h => ?_)
    exact absurd (hvalid.symm.trans h) Bool.false_ne_true
  have hproc : (cmdGet env t { key := arg req.argv 0 }).Ensures log fun r new =>
      Adds env t log req r.2 new := by
    refine Traced.ensures_ite (fun h => absurd (h.symm.trans hvalid) Bool.false_ne_true) fun _ => ?_
    refine (tableGet_ensures env t log (arg req.argv 0) stdValueSizer).bind ?_
    rintro copy new ⟨heff, hfresh, hgranted⟩
    have hadds : Adds env t log req t new := by
      refine ⟨copy, copy.toList, heff.created, hfresh, ?_, ?_⟩
      · rw [hiff, ← hgranted]
        cases copy with
        | none => simp
        | some b => simp [hargc, hvalid]
      · rw [heff.destroyed, Multiset.coe_nil, add_zero]
    cases copy with
    | none => exact hadds
    | some b => exact hadds
  refine hproc.bind fun r new hadds => ?_
  simpa only [Traced.ensures_pure, List.append_nil, List.nil_append, tableAfter] using hadds

/-- What the work of one command adds to the account. -/
theorem perform_adds (hreq : req.Bounded) (ht : t.WellFormed) :
    (req.perform env t).Ensures log fun p new => Adds env t log req (tableAfter t p) new := by
  cases hfind : findCommand req.commandName with
  | none =>
    have htag : req.tag = none := by rw [Request.tag, hfind, Option.map_none]
    rw [Request.perform, hfind]
    refine (moves_of_effects Effects.nil).adds (Request.losesNothing_of_tag ?_ ?_)
    · exact fun s h => Option.some_ne_none _ (h.symm.trans htag)
    · exact fun h => Option.some_ne_none _ (h.symm.trans htag)
  | some cmd =>
    have htag : req.tag = some cmd.tag := by rw [Request.tag, hfind, Option.map_some]
    by_cases hstore : ∃ s : Store, cmd.tag = s.command.tag
    · obtain ⟨s, hs⟩ := hstore
      rw [hs] at htag
      refine s.perform_adds ?_ ht
      cases s with
      | SET => exact findCommand_of_tag 9 rfl htag
      | ADD => exact findCommand_of_tag 0 rfl htag
      | REPLACE => exact findCommand_of_tag 7 rfl htag
    by_cases hget : cmd.tag = .GET
    · rw [hget] at htag
      exact get_perform_adds (findCommand_of_tag 5 rfl htag)
    have hstore := not_exists.mp hstore
    refine (perform_moves hfind hstore hget hreq ht).mono fun p new hmoves => hmoves.adds ?_
    refine Request.losesNothing_of_tag (fun s h => hstore s ?_) fun h => hget ?_
    · exact Option.some_inj.mp (htag.symm.trans h)
    · exact Option.some_inj.mp (htag.symm.trans h)

/-- What one command adds to the account. -/
theorem execute_adds (hreq : req.Bounded) (ht : t.WellFormed) :
    (req.execute env t).Ensures log fun r new => Adds env t log req r.2 new := by
  rw [execute_eq]
  refine (perform_adds hreq ht).bind ?_
  rintro p new ⟨c, lost, hcreated, hfresh, hlost, hlaw⟩
  refine (respond_ensures env t _ p).mono ?_
  rintro ⟨r, t'⟩ new' ⟨rfl, heff⟩
  refine ⟨c, lost, ?_, fun b hb => ?_, hlost, ?_⟩
  · rw [created_append, heff.created, List.nil_append, hcreated]
  · have hfresh := hfresh b hb
    simp only [List.length_append] at hfresh ⊢
    omega
  · rw [destroyed_append, heff.destroyed, List.nil_append]
    exact hlaw

end Commands

/-! ### Runs -/

/-- The account of a run: its blocks are stored, lost or destroyed, each in one way. -/
structure Accounted (t : Hashtable DataEntry) (log : List (Event DataEntry))
    (lost : Multiset (Block DataEntry)) : Prop where
  wellFormed : t.WellFormed
  owned : Owned (t.values + lost) (destroyed log) log.length
  balance : (created log : Multiset (Block DataEntry)) =
    t.values + lost + (destroyed log : Multiset (Block DataEntry))

/-- **One command in the account.** It adds to the lost blocks, and adds none exactly when it
loses nothing. -/
theorem execute_accounted (env : Env (Event DataEntry)) {t : Hashtable DataEntry}
    {log : List (Event DataEntry)} {lost : Multiset (Block DataEntry)}
    (h : Accounted t log lost) {req : Request} (hreq : req.Bounded) :
    (req.execute env t).Ensures log fun r new => ∃ lost',
      Accounted r.2 (new ++ log) (lost + lost') ∧
        (lost' = 0 ↔ req.LosesNothing env t log) := by
  have hboth : (req.execute env t).Ensures log fun r new => Adds env t log req r.2 new ∧
      Executed env t req log r.1 r.2 new :=
    ⟨execute_adds hreq h.wellFormed, execute_spec env t req log⟩
  refine hboth.mono ?_
  rintro ⟨r, t'⟩ new ⟨⟨c, lost', hcreated, hfresh, hlost, hlaw⟩, hexec⟩
  have hlen : log.length ≤ (new ++ log).length := by
    rw [List.length_append]
    exact Nat.le_add_left _ _
  have hlaw' : t'.values + (lost + lost') + (destroyed new : Multiset (Block DataEntry)) =
      t.values + lost + (c.toList : Multiset (Block DataEntry)) := by
    calc t'.values + (lost + lost') + (destroyed new : Multiset (Block DataEntry))
        = t'.values + lost' + (destroyed new : Multiset (Block DataEntry)) + lost := by abel
      _ = t.values + lost + (c.toList : Multiset (Block DataEntry)) := by
        rw [hlaw]
        abel
  refine ⟨lost', ⟨hexec.wellFormed hreq h.wellFormed, ?_, ?_⟩, hlost⟩
  · rw [destroyed_append]
    exact h.owned.step hlaw' hfresh hlen
  · rw [created_append, destroyed_append, hcreated, ← Multiset.coe_add, ← Multiset.coe_add,
      h.balance]
    calc (c.toList : Multiset (Block DataEntry)) +
          (t.values + lost + (destroyed log : Multiset (Block DataEntry)))
        = t.values + lost + (c.toList : Multiset (Block DataEntry)) +
          (destroyed log : Multiset (Block DataEntry)) := by abel
      _ = _ := by rw [← hlaw', add_assoc]

/-- Nothing is lost exactly when no block is in the account of the lost ones. -/
theorem Accounted.noneLost_iff {t : Hashtable DataEntry} {log : List (Event DataEntry)}
    {lost : Multiset (Block DataEntry)} (h : Accounted t log lost) :
    NoneLost t log ↔ lost = 0 := by
  have hmem (b : Block DataEntry) : b ∈ created log ↔
      (b ∈ t.values ∨ b ∈ lost) ∨ b ∈ destroyed log := by
    rw [← Multiset.mem_coe, h.balance, Multiset.mem_add, Multiset.mem_add, Multiset.mem_coe]
  have hnodup := Multiset.Nodup.of_map _ h.owned.nodup
  obtain ⟨hkept, -, hdestroyed⟩ := Multiset.nodup_add.mp hnodup
  constructor
  · intro hnone
    refine Multiset.eq_zero_of_forall_notMem fun b hb => ?_
    have hlive : b ∉ destroyed log := fun hd => Multiset.disjoint_left.mp hdestroyed
      (Multiset.mem_add.mpr (.inr hb)) (Multiset.mem_coe.mpr hd)
    have hstored := hnone b ((hmem b).mpr (.inl (.inr hb))) hlive
    exact Multiset.disjoint_left.mp (Multiset.nodup_add.mp hkept).2.2 hstored hb
  · rintro rfl b hb hlive
    exact (((hmem b).mp hb).resolve_right hlive).resolve_right (Multiset.notMem_zero b)

/-- What is accounted for in a run of bounded commands: no block is lost exactly when none of its
commands loses one. -/
theorem runDatabase_accounted_iff (env : Env (Event DataEntry)) (n₀ : UInt64)
    (requests : List Request) (hn₀ : n₀.toNat ≤ 2 ^ 63)
    (hreq : ∀ req ∈ requests, req.Bounded) (rs : List ExecuteResult) (t : Hashtable DataEntry)
    (log : List (Event DataEntry))
    (hrun : (runDatabase env n₀ requests).run [] = (some (rs, t), log)) :
    NoneLost t log ↔ DatabaseGuarded env (Request.LosesNothing env) n₀ requests [] := by
  obtain ⟨t₀, hcreated, hvalue, hevents⟩ := runDatabase_run (congrArg Prod.fst hrun)
  obtain ⟨heff, hspec⟩ := tableCreate_spec env n₀ []
  obtain ⟨hpos, ht₀, hbytes⟩ := hspec t₀ hcreated
  have hfresh : Accounted t₀ (((tableCreate env n₀).run []).2 ++ []) 0 := by
    have hempty : t₀.values = 0 := by rw [ht₀, values, entries_fresh]; rfl
    rw [List.append_nil]
    refine ⟨ht₀ ▸ wellFormed_fresh (roundCapacity_spec hpos hn₀).1 hbytes, ?_, ?_⟩
    · rw [hempty, heff.destroyed]
      exact ⟨Multiset.nodup_zero, fun b hb => absurd hb (Multiset.notMem_zero b)⟩
    · rw [hempty, heff.destroyed, heff.created]
      rfl
  have hstep : ∀ req ∈ requests, ∀ (c : Prop) (t : Hashtable DataEntry)
      (log : List (Event DataEntry)), (∃ lost, Accounted t log lost ∧ (c ↔ lost = 0)) →
        ∃ lost, Accounted ((req.execute env t).run log).1.2
          (((req.execute env t).run log).2 ++ log) lost ∧
            (c ∧ req.LosesNothing env t log ↔ lost = 0) := by
    rintro req hmem c t log ⟨lost, haccounted, hlost⟩
    obtain ⟨lost', haccounted', hlost'⟩ := execute_accounted env haccounted (hreq req hmem)
    refine ⟨lost + lost', haccounted', ?_⟩
    rw [hlost, ← hlost', add_eq_zero]
  obtain ⟨lost, haccounted, hlost⟩ := Traced.runOutputs_exact (Request.execute env)
    (Request.LosesNothing env) (fun c t log => ∃ lost, Accounted t log lost ∧ (c ↔ lost = 0))
    requests hstep True t₀ _ ⟨0, hfresh, iff_of_true trivial rfl⟩
  rw [hrun] at hevents
  rw [hvalue, ← List.append_assoc, ← hevents, List.append_nil] at haccounted
  rw [databaseGuarded_iff hcreated, haccounted.noneLost_iff, ← hlost, true_and]

/-- **No block is lost**, and no lock outside the array is used, in a run of bounded commands
exactly when none of its commands loses a block, and each of them finds its locks in the array. -/
theorem runDatabase_noneLost_iff (env : Env (Event DataEntry)) (n₀ : UInt64)
    (requests : List Request) (hn₀ : n₀.toNat ≤ 2 ^ 63)
    (hreq : ∀ req ∈ requests, req.Bounded) (rs : List ExecuteResult) (t : Hashtable DataEntry)
    (log : List (Event DataEntry))
    (hrun : (runDatabase env n₀ requests).run [] = (some (rs, t), log)) :
    NoneLost t log ∧ LocksInside t.lockCount.toNat log ↔
      DatabaseGuarded env (fun t log req => req.LosesNothing env t log ∧ req.HasLocks env t log) n₀
        requests [] := by
  have hlocks := runDatabase_locksInside_iff env n₀ requests [] rs t (congrArg Prod.fst hrun)
  rw [hrun] at hlocks
  rw [databaseGuarded_and, runDatabase_accounted_iff env n₀ requests hn₀ hreq rs t log hrun, hlocks]

/-- A value that is stored, and replaced. -/
theorem runDatabase_noneLost_iff_replaced :
    ∃ rs t log, (runDatabase Env.granting 1
        [⟨bytes "SET", 2, [bytes "k", bytes "a"], [1, 1]⟩,
         ⟨bytes "REPLACE", 2, [bytes "k", bytes "b"], [1, 1]⟩]).run [] = (some (rs, t), log) ∧
      (NoneLost t log ∧ LocksInside t.lockCount.toNat log ↔ DatabaseGuarded Env.granting
        (fun t log req => req.LosesNothing Env.granting t log ∧ req.HasLocks Env.granting t log) 1
        [⟨bytes "SET", 2, [bytes "k", bytes "a"], [1, 1]⟩,
         ⟨bytes "REPLACE", 2, [bytes "k", bytes "b"], [1, 1]⟩] []) := by
  have hsome : ((runDatabase Env.granting 1
      [⟨bytes "SET", 2, [bytes "k", bytes "a"], [1, 1]⟩,
       ⟨bytes "REPLACE", 2, [bytes "k", bytes "b"], [1, 1]⟩]).run []).1.isSome := by
    decide +kernel
  obtain ⟨⟨rs, t⟩, hrun⟩ := Option.isSome_iff_exists.mp hsome
  refine ⟨rs, t, _, Prod.ext hrun rfl, ?_⟩
  refine runDatabase_noneLost_iff Env.granting 1 _ (by decide) ?_ rs t _ (Prod.ext hrun rfl)
  simp only [List.mem_cons, List.not_mem_nil, or_false, forall_eq_or_imp, forall_eq]
  exact ⟨Request.bounded_of_tag (by decide), Request.bounded_of_tag (by decide)⟩

/-- A block that lives and whose identity is in no slot in use is lost. -/
private theorem not_noneLost {env : Env (Event DataEntry)} {n₀ : UInt64}
    {requests : List Request} (h : (((runDatabase env n₀ requests).run []).1.any fun r =>
      decide (∃ b ∈ created ((runDatabase env n₀ requests).run []).2,
        b ∉ destroyed ((runDatabase env n₀ requests).run []).2 ∧ b.ident ∉ r.2.idents)) = true) :
    ∃ rs t log, (runDatabase env n₀ requests).run [] = (some (rs, t), log) ∧
      ¬NoneLost t log := by
  obtain ⟨⟨rs, t⟩, hrun, hlost⟩ := (Option.any_eq_true _ _).mp h
  obtain ⟨b, hcreated, hlive, hident⟩ := of_decide_eq_true hlost
  refine ⟨rs, t, _, Prod.ext hrun rfl, fun hnone => hident ?_⟩
  rw [← Multiset.mem_coe, coe_idents]
  exact Multiset.mem_map_of_mem _ (hnone b hcreated hlive)

/-- A second `ADD` of a key is refused, and its block is lost; so is the copy of a `GET`. -/
theorem refused_block_lost :
    (∃ rs t log, (runDatabase Env.granting 1
        [⟨bytes "ADD", 2, [bytes "k", bytes "a"], [1, 1]⟩,
         ⟨bytes "ADD", 2, [bytes "k", bytes "b"], [1, 1]⟩]).run [] = (some (rs, t), log) ∧
      ¬NoneLost t log) ∧
    ∃ rs t log, (runDatabase Env.granting 1
        [⟨bytes "ADD", 2, [bytes "k", bytes "a"], [1, 1]⟩,
         ⟨bytes "GET", 1, [bytes "k"], [1]⟩]).run [] = (some (rs, t), log) ∧
      ¬NoneLost t log :=
  ⟨not_noneLost (by decide +kernel), not_noneLost (by decide +kernel)⟩

end SimpleCDatabase
