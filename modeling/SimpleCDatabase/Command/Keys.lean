import SimpleCDatabase.Command.Refinement

/-!
# Keys of commands

A key reaches the database as bytes with a length, but every function that handles it reads it up
to its first `NUL`. Commands on keys that differ before it do not interfere, and commands on keys
that agree up to it are about the same entry. A key that `ADD` accepts is found under its bytes
when it fits the array of the stored keys, which `ADD` does not check.

## Main definitions

* `Request.key`, `Request.WritesKey`, `Request.LooksUp`: the key of a command, the commands that
  write under it and those that look it up.
* `StoredUnder`: what commands answer that find a value under a key.

## Main results

* `keys_independent`: a write under one key does not change what is answered about another.
* `add_stored_iff`: what `ADD` accepts is stored exactly for keys that fit, under a lock of the
  array.
-/

namespace SimpleCDatabase

open CString Hashtable

/-- The key of a command, its first argument. -/
def Request.key (req : Request) : List UInt8 := arg req.argv 0

section Keys

variable {env : Env (Event DataEntry)} {t : Hashtable DataEntry} {log : List (Event DataEntry)}

theorem buildKeyValue_key (argv : List (List UInt8)) (argsLengths : List ℕ) :
    (buildKeyValue env argv argsLengths).Ensures log fun r _ =>
      ∀ input, r = some input → input.key = arg argv 0 := by
  refine Traced.ensures_ite (fun _ _ h => nomatch h) fun _ => ?_
  refine (malloc_ensures env _ log).bind fun ok new _ => ?_
  refine Traced.ensures_ite (fun _ => ?_) fun _ _ h => nomatch h
  rintro input ⟨⟩
  rfl

/-- The argument of a command with one argument is its key. -/
private theorem buildKey_key {tag : CmdFunctionType} {argv : List (List UInt8)}
    {argsLengths : List ℕ} (htag : buildCommandData env tag argv argsLengths =
      if isKeyValid (arg argv 0) = false then pure none else pure (some { key := arg argv 0 })) :
    (buildCommandData env tag argv argsLengths).Ensures log fun r _ =>
      ∀ input, r = some input → input.key = arg argv 0 := by
  rw [htag]
  refine Traced.ensures_ite (fun _ _ h => nomatch h) fun _ => ?_
  rintro input ⟨⟩
  rfl

/-- The key that a command on a key is decoded to. -/
private theorem buildCommandData_key {tag : CmdFunctionType} (htag : tag ∈ keyedCommands)
    (argv : List (List UInt8)) (argsLengths : List ℕ) :
    (buildCommandData env tag argv argsLengths).Ensures log fun r _ =>
      ∀ input, r = some input → input.key = arg argv 0 := by
  cases tag with
  | SET | ADD | REPLACE => exact buildKeyValue_key argv argsLengths
  | GET | DEL | EXIST => exact buildKey_key rfl
  | RESIZE | CLEAR | LOADFACTOR | COUNT | ERROR | EMPTY => exact absurd htag (by decide)

/-- A command on a key takes the lock of the bucket of the key. -/
theorem Request.hasLocks_of_key {req : Request} (htag : req.tag ∈ keyedCommands.map some)
    (hkey : t.keyBucket req.key < t.lockCount.toNat) : req.HasLocks env t log := by
  obtain ⟨tag, hkeyed, htag⟩ := List.mem_map.mp htag
  obtain ⟨cmd, hfind, rfl⟩ : ∃ cmd, findCommand req.commandName = some cmd ∧ cmd.tag = tag :=
    Option.map_eq_some_iff.mp htag.symm
  have hinput : (buildCommandData env cmd.tag req.argv req.argsLengths).Ensures log fun r _ =>
    ∀ input, r = some input → input.key = req.key := buildCommandData_key hkeyed _ _
  intro call hcall
  rw [Request.call, hfind, Option.bind_some] at hcall
  split at hcall
  · exact absurd hcall (Option.not_mem_none call)
  obtain ⟨input, hdecoded, hmade⟩ := Option.bind_eq_some_iff.mp hcall
  obtain ⟨c, hc, rfl⟩ := Option.map_eq_some_iff.mp hmade
  have hlock := (hinput input hdecoded).symm ▸ hkey
  generalize cmd.tag = tag at hkeyed hc
  cases tag with
  | SET => exact Option.some_inj.mp hc ▸ .inr hlock
  | ADD | REPLACE | GET | DEL | EXIST => exact Option.some_inj.mp hc ▸ hlock
  | RESIZE | CLEAR | LOADFACTOR | COUNT | ERROR | EMPTY => exact absurd hkeyed (by decide)

/-- A command that writes under its key. -/
def Request.WritesKey (req : Request) : Prop :=
  req.tag ∈ [some .SET, some .ADD, some .REPLACE, some .DEL]

/-- A command that looks its key up. -/
def Request.LooksUp (req : Request) : Prop := req.tag ∈ [some .GET, some .EXIST]

instance (req : Request) : Decidable req.WritesKey := inferInstanceAs (Decidable (_ ∈ _))

instance (req : Request) : Decidable req.LooksUp := inferInstanceAs (Decidable (_ ∈ _))

/-- A table after a call that writes under `key`, or after none. -/
def WrittenUnder (env : Env (Event DataEntry)) (t : Hashtable DataEntry) (key : List UInt8)
    (t' : Hashtable DataEntry) : Prop :=
  t' = t ∨ ∃ call code ds, TableCall.Targets key call ∧ Outcome env t call code t' ds

private theorem writtenUnder_of_performs {key : List UInt8} {call : TableCall DataEntry}
    {op : Action (ℤ × Hashtable DataEntry)} (hop : Performs env t call op)
    (hcall : call.Targets key) (c : Prop) [Decidable c] (report : ℤ → CommandResult) :
    Traced.Ensures (if c then pure (CommandResult.error, t) else do
      let (code, context) ← op
      pure (report code, context)) log fun r _ => WrittenUnder env t key r.2 := by
  refine Traced.ensures_ite (fun _ => .inl rfl) fun _ => ?_
  refine (hop log).bind ?_
  rintro ⟨code, t'⟩ new ⟨ds, hout, -⟩
  exact .inr ⟨call, code, ds, hcall, hout⟩

/-- The four writes write under their key. -/
theorem perform_writtenUnder {req : Request} (hreq : req.WritesKey) :
    (req.perform env t).Ensures log fun p _ =>
      WrittenUnder env t req.key (tableAfter t p) := by
  have hrule (cmd : Command) (hfind : findCommand req.commandName = some cmd)
      (hkey : (buildCommandData env cmd.tag req.argv req.argsLengths).Ensures log
        fun r _ => ∀ input, r = some input → input.key = req.key)
      (hproc : ∀ input log, input.key = req.key → (cmd.proc env t input).Ensures log
        fun r _ => WrittenUnder env t req.key r.2) :
      (req.perform env t).Ensures log fun p _ =>
        WrittenUnder env t req.key (tableAfter t p) := by
    rw [Request.perform, hfind]
    refine Traced.ensures_ite (fun _ => .inl rfl) fun _ => ?_
    refine hkey.bind ?_
    rintro (_ | input) new hinput
    · exact .inl rfl
    · exact (hproc input _ (hinput input rfl)).bind fun r _ h => h
  simp only [Request.WritesKey, List.mem_cons, List.not_mem_nil, or_false] at hreq
  rcases hreq with htag | htag | htag | htag
  · refine hrule ⟨bytes "SET", .SET, cmdSet, 2⟩ (findCommand_of_tag 9 rfl htag)
      (buildKeyValue_key _ _) fun input log hkey => ?_
    exact writtenUnder_of_performs (tableSet_spec env t input.key input.value true) hkey _ .set
  · refine hrule ⟨bytes "ADD", .ADD, cmdAdd, 2⟩ (findCommand_of_tag 0 rfl htag)
      (buildKeyValue_key _ _) fun input log hkey => ?_
    exact writtenUnder_of_performs (tableAdd_spec env t input.key input.value) hkey _ .add
  · refine hrule ⟨bytes "REPLACE", .REPLACE, cmdReplace, 2⟩ (findCommand_of_tag 7 rfl htag)
      (buildKeyValue_key _ _) fun input log hkey => ?_
    exact writtenUnder_of_performs (tableReplace_spec env t input.key input.value true) hkey _
      fun code => if code ≠ 0 then .error else .replace 0
  · refine hrule ⟨bytes "DEL", .DEL, cmdDel, 1⟩ (findCommand_of_tag 3 rfl htag)
      (buildKey_key rfl) fun input log hkey => ?_
    exact writtenUnder_of_performs (tableDelete_spec env t input.key true) hkey _
      fun code => if code = 0 then .del code else .error

/-- The same answer, with the same events, on two tables. -/
private def AnsweredAlike (p p' : Except (ℤ × List UInt8) (CommandResult × Hashtable DataEntry)) :
    Prop :=
  p.map Prod.fst = p'.map Prod.fst

private theorem respond_alike {t t' : Hashtable DataEntry}
    {p p' : Except (ℤ × List UInt8) (CommandResult × Hashtable DataEntry)}
    (h : AnsweredAlike p p') :
    Traced.Alike (fun r r' => r.1 = r'.1) (respond env t p) (respond env t' p') := by
  rcases p with e | ⟨result, u⟩ <;> rcases p' with e' | ⟨result', u'⟩
  · obtain rfl : e = e' := Except.error.inj h
    exact (Traced.alike_of_eq rfl).bind fun r r' hr => Traced.alike_pure hr
  · exact nomatch h
  · exact nomatch h
  · obtain rfl : result = result' := Except.ok.inj h
    exact (Traced.alike_of_eq rfl).bind fun r r' hr => Traced.alike_pure hr

/-- A lookup is answered alike on two tables in which the searches find the same. -/
theorem lookup_alike {t' : Hashtable DataEntry} {req : Request}
    (hreq : req.LooksUp) (h : SameUnder t t' req.key) :
    Traced.Alike (fun r r' => r.1 = r'.1) (req.execute env t') (req.execute env t) := by
  have hrule (cmd : Command) (hfind : findCommand req.commandName = some cmd)
      (hkey : ∀ log, (buildCommandData env cmd.tag req.argv req.argsLengths).Ensures log
        fun r _ => ∀ input, r = some input → input.key = req.key)
      (hproc : ∀ input, input.key = req.key →
        Traced.Alike (fun r r' => r.1 = r'.1) (cmd.proc env t' input) (cmd.proc env t input)) :
      Traced.Alike (fun r r' => r.1 = r'.1) (req.execute env t') (req.execute env t) := by
    rw [execute_eq, execute_eq]
    refine Traced.Alike.bind (R := AnsweredAlike) ?_ fun p p' hp => respond_alike hp
    rw [Request.perform, Request.perform, hfind]
    refine Traced.alike_ite (fun _ => Traced.alike_pure rfl) fun _ => ?_
    refine (Traced.alike_of_ensures hkey).bind ?_
    rintro (_ | input) _ ⟨rfl, hinput⟩
    · exact Traced.alike_pure rfl
    · refine (hproc input (hinput input rfl)).bind fun r r' hr => Traced.alike_pure ?_
      exact congrArg Except.ok hr
  simp only [Request.LooksUp, List.mem_cons, List.not_mem_nil, or_false] at hreq
  rcases hreq with htag | htag
  · refine hrule ⟨bytes "GET", .GET, cmdGet, 1⟩ (findCommand_of_tag 5 rfl htag)
      (fun _ => buildKey_key rfl) fun input hkey => ?_
    refine Traced.alike_ite (fun _ => Traced.alike_pure rfl) fun _ => ?_
    refine (Traced.alike_of_eq (tableGet_eq_of_sameUnder (hkey ▸ h) _)).bind ?_
    rintro (_ | value) _ rfl
    · exact Traced.alike_pure rfl
    · exact Traced.alike_pure rfl
  · refine hrule ⟨bytes "EXIST", .EXIST, cmdExist, 1⟩ (findCommand_of_tag 4 rfl htag)
      (fun _ => buildKey_key rfl) fun input hkey => ?_
    refine Traced.alike_ite (fun _ => Traced.alike_pure rfl) fun _ => ?_
    refine (Traced.alike_of_eq (tableExist_eq_of_sameUnder (hkey ▸ h))).bind ?_
    rintro existence _ rfl
    exact Traced.alike_pure rfl

end Keys

/-- The table after a write under one key looks the same under another. -/
theorem execute_sameUnder {env : Env (Event DataEntry)} {t : Hashtable DataEntry}
    {log : List (Event DataEntry)} {req : Request} (hreq : req.WritesKey)
    (hkey : (cstr req.key).length < KEY_MAX_LEN) {key' : List UInt8}
    (hne : cstr req.key ≠ cstr key') :
    (req.execute env t).Ensures log fun r _ => SameUnder t r.2 key' := by
  rw [execute_eq]
  refine (perform_writtenUnder hreq).bind ?_
  intro p new hp
  refine (respond_ensures env t _ p).mono ?_
  rintro r new' ⟨hr, -⟩
  rw [hr]
  rcases hp with heq | ⟨call, code, ds, hcall, hout⟩
  · rw [heq]
    exact .refl t key'
  · exact hout.sameUnder hcall hkey hne

/-- **Keys that differ before their first `NUL` do not interfere.** On a table with a lock for each
bucket, a write under a key of at most 254 bytes, whatever it answers, does not change what is
answered to a lookup of another key; and none of them uses a lock outside the array. -/
theorem keys_independent (env : Env (Event DataEntry)) (t : Hashtable DataEntry)
    (hbuckets : t.bucketsCount ≠ 0) (hlocks : t.bucketsCount ≤ t.lockCount)
    (log : List (Event DataEntry)) (req : Request) (hreq : req.WritesKey)
    (hkey : req.key.length < KEY_MAX_LEN) (env' : Env (Event DataEntry)) (req' : Request)
    (hreq' : req'.LooksUp) (hne : cstr req.key ≠ cstr req'.key)
    (log' : List (Event DataEntry)) :
    let write := (req.execute env t).run log
    let before := (req'.execute env' t).run log'
    let after := (req'.execute env' write.1.2).run log'
    after.1.1 = before.1.1 ∧ LocksInside t.lockCount.toNat write.2 ∧
      LocksInside t.lockCount.toNat before.2 ∧ LocksInside t.lockCount.toNat after.2 := by
  intro write before after
  obtain ⟨hanswer, hevents⟩ := lookup_alike hreq'
    (execute_sameUnder hreq ((length_cstr_le _).trans_lt hkey) hne) log'
  have hinside (env : Env (Event DataEntry)) (log : List (Event DataEntry)) (req : Request) :
      LocksInside t.lockCount.toNat ((req.execute env t).run log).2 :=
    (execute_locksInside_iff env t log req).mpr (req.hasLocks_of_le hbuckets hlocks)
  exact ⟨hanswer, hinside env log req, hinside env' log' req', hevents ▸ hinside env' log' req'⟩

/-- Two buckets with a value under `a`. -/
private def storedTable : Hashtable DataEntry :=
  ((Request.execute .granting (.fresh 2)
    ⟨bytes "SET", 2, [bytes "a", bytes "w"], [1, 1]⟩).run []).1.2

/-- A value is stored under `b` too, which a lookup of `a` does not see. -/
theorem keys_independent_set :
    let get := fun t : Hashtable DataEntry =>
      ((Request.execute .granting t ⟨bytes "GET", 1, [bytes "a"], [1]⟩).run []).1.1
    let write := (Request.execute .granting storedTable
      ⟨bytes "SET", 2, [bytes "b", bytes "v"], [1, 1]⟩).run []
    get write.1.2 = get storedTable ∧ (get storedTable).answer = some (bytes "w") ∧
      LocksInside 2 write.2 := by
  obtain ⟨hanswer, hinside, -⟩ := keys_independent .granting storedTable (by decide +kernel)
    (by decide +kernel) [] ⟨bytes "SET", 2, [bytes "b", bytes "v"], [1, 1]⟩ (by decide) (by decide)
    .granting ⟨bytes "GET", 1, [bytes "a"], [1]⟩ (by decide) (by decide) []
  exact ⟨hanswer, by decide +kernel, hinside⟩

/-- Two keys that are different byte strings, and one entry: they agree before their `NUL`. A value
stored under the first is the answer to a lookup of the second, which was not there before. -/
theorem keys_with_nul_interfere :
    ((tableCreate Env.granting 1).run ([] : List (Event DataEntry))).1 =
        some (Hashtable.fresh 1) ∧
      ([97, 0, 98] : List UInt8) ≠ [97, 0, 99] ∧
      ((Request.execute Env.granting (Hashtable.fresh 1)
        ⟨bytes "GET", 1, [[97, 0, 99]], [3]⟩).run []).1.1.statusCode = 404 ∧
      ((Request.execute Env.granting ((Request.execute Env.granting (Hashtable.fresh 1)
        ⟨bytes "SET", 2, [[97, 0, 98], bytes "v"], [3, 1]⟩).run []).1.2
        ⟨bytes "GET", 1, [[97, 0, 99]], [3]⟩).run []).1.1.statusCode = 200 :=
  ⟨rfl, by decide, by decide +kernel, by decide +kernel⟩

/-! ### Added keys -/

/-- What the commands on `key` answer about a table in which `value` is stored under it, and how
many elements the table has without it. The bucket of the key and its lock are in the arrays. -/
structure StoredUnder (env : Env (Event DataEntry)) (t : Hashtable DataEntry)
    (key value : List UInt8) (elemCount : UInt64) : Prop where
  exist : ∀ log, (((MapCommand.exist key).toRequest.execute env t).run log).1.1.statusCode = 200 ∧
    (((MapCommand.exist key).toRequest.execute env t).run log).1.1.answer = some (bytes "1")
  get : ∀ log, (((MapCommand.get key).toRequest.execute env t).run log).1.1.statusCode = 200 ∧
    (((MapCommand.get key).toRequest.execute env t).run log).1.1.answer = some value
  add : ∀ value' log,
    (((MapCommand.add key value').toRequest.execute env t).run log).1.1.statusCode ≠ 200
  del : ∀ log, (((MapCommand.del key).toRequest.execute env t).run log).1.1.statusCode = 200 ∧
    (((MapCommand.del key).toRequest.execute env t).run log).1.2.elemCount = elemCount
  bucket : t.keyBucket key < t.bucketsCount.toNat
  locks : ∀ req : Request, req.key = key → req.tag ∈ keyedCommands.map some → ∀ log,
    LocksInside t.lockCount.toNat ((req.execute env t).run log).2

/-- When an `ADD` is not refused: its block is granted, and so is the lock of the bucket, the key
is not there and the bucket is not full. -/
def AddAccepted (env : Env (Event DataEntry)) (t : Hashtable DataEntry)
    (log : List (Event DataEntry)) (key value : List UInt8) : Prop :=
  ¬(MapCommand.add key value).toRequest.ValueRefused env log ∧
    (TableCall.add key (some ((MapCommand.add key value).toRequest.valueBlock log))).Accepted env t
      ((MapCommand.add key value).toRequest.valueEvents log ++ log)

/-- An `ADD` answers 200 exactly when it is accepted, and then it inserts an entry. -/
theorem execute_add_iff (env : Env (Event DataEntry)) (t : Hashtable DataEntry)
    (key value : List UInt8) (log : List (Event DataEntry)) :
    ((MapCommand.add key value).toRequest.execute env t).Ensures log fun r _ =>
      (r.1.statusCode = 200 ↔ AddAccepted env t log key value) ∧
        (r.1.statusCode = 200 → ∃ j b, b.val.data = value ∧ t.Missing key ∧
          r.2 = t.insertAt key j (some b)) := by
  by_cases hrefused : (MapCommand.add key value).toRequest.ValueRefused env log
  · refine (Store.ADD.execute_refused rfl (.inr hrefused)).mono fun r _ hr => ?_
    exact ⟨iff_of_false hr fun h => h.1 hrefused, fun h => absurd h hr⟩
  · refine (Store.ADD.execute_called rfl rfl hrefused).mono ?_
    rintro ⟨r, t'⟩ _ ⟨⟨code, ds, hout, hcode⟩, hstatus⟩
    refine ⟨hstatus.trans (and_iff_right hrefused).symm, fun h => ?_⟩
    cases hout with
    | refused hrefusal => exact absurd (hcode.mp h) hrefusal.code_ne_zero
    | read hread => exact absurd hread Bool.false_ne_true
    | addInserted hmiss hfree => exact ⟨_, _, List.take_left' rfl, hmiss, rfl⟩

section Added

variable {env : Env (Event DataEntry)} {t : Hashtable DataEntry} {key : List UInt8}
  (hnul : 0 ∉ key) (hpos : key ≠ [])

include hnul hpos

theorem isKeyValid_of_nul_free : isKeyValid key = true := by
  rw [isKeyValid_iff, cstr_of_zero_notMem hnul]
  exact hpos

variable (henv : env.Succeeds) {j : Fin BUCKET_CAPACITY}

include henv

/-- An inserted key that fits is stored. -/
theorem storedUnder_insertAt (hbuckets : t.bucketsCount ≠ 0) (hkey : key.length < KEY_MAX_LEN)
    (hlock : t.keyBucket key < t.lockCount.toNat) (hmiss : t.Missing key) (b : Block DataEntry) :
    StoredUnder env (t.insertAt key j (some b)) key b.val.data t.elemCount := by
  have hvalid := isKeyValid_of_nul_free hnul hpos
  have hfound : (t.insertAt key j (some b)).Found key j :=
    found_insertAt ((length_cstr_le key).trans_lt hkey) (some b)
  refine ⟨fun log => ?_, fun log => ?_, fun value' log hadd => ?_, fun log => ?_,
    keyBucket_lt hbuckets key, fun req hreq htag log => ?_⟩
  · obtain ⟨-, hstatus, found, hiff, hanswer⟩ := execute_exist_answer env
      (t.insertAt key j (some b)) (MapCommand.exist key).toRequest log henv rfl hvalid rfl
    obtain rfl : found = true := hiff.mpr fun hmissing => hmissing j hfound
    exact ⟨hstatus, hanswer⟩
  · obtain ⟨-, v, hv, hr⟩ := execute_get_answer env (t.insertAt key j (some b))
      (MapCommand.get key).toRequest log henv rfl hvalid rfl
    have hvalue : v = some b := by
      rcases hv with ⟨i, hi, rfl⟩ | ⟨hmissing, -⟩
      · have hij : i = j := eq_of_found_insertAt hmiss hi
        subst hij
        exact congrArg Slot.value (slotAt_insertAt_self (some b))
      · exact absurd hfound (hmissing j)
    rw [hvalue] at hr
    exact hr
  · have haccepted := ((execute_add_iff env _ key value' log).1.mp hadd).2
    exact haccepted.2.1 j hfound
  · obtain ⟨code, ds, hout, hstatus⟩ := execute_del_reports env
      (t.insertAt key j (some b)) (MapCommand.del key).toRequest log rfl rfl hvalid
    generalize (((MapCommand.del key).toRequest.execute env
      (t.insertAt key j (some b))).run log).1 = r at hout hstatus
    obtain ⟨r, t'⟩ := r
    cases hout with
    | refused hrefusal =>
      cases hrefusal with
      | lock log' i hlock => exact absurd (hlock.symm.trans (henv.lock log' i)) Bool.false_ne_true
      | deleteMissing hmissing => exact absurd hfound (hmissing j)
    | read hread => exact absurd hread Bool.false_ne_true
    | deleted _ => exact ⟨hstatus.mpr rfl, UInt64.add_sub_cancel t.elemCount 1⟩
  · exact (execute_locksInside_iff env _ log req).mpr (req.hasLocks_of_key htag (hreq ▸ hlock))

/-- An inserted key that does not fit is not. -/
theorem not_storedUnder_insertAt (hkey : KEY_MAX_LEN ≤ key.length) (hmiss : t.Missing key)
    (b : Block DataEntry) :
    ¬StoredUnder env (t.insertAt key j (some b)) key b.val.data t.elemCount := by
  intro hstored
  obtain ⟨-, -, found, hiff, hanswer⟩ := execute_exist_answer env
    (t.insertAt key j (some b)) (MapCommand.exist key).toRequest [] henv rfl
    (isKeyValid_of_nul_free hnul hpos) rfl
  have hmissing : (t.insertAt key j (some b)).Missing key :=
    missing_insertAt (by rwa [cstr_of_zero_notMem hnul]) hmiss (some b)
  have hfalse : found = false := Bool.eq_false_iff.mpr fun h => hiff.mp h hmissing
  have hone := hanswer.symm.trans (hstored.exist []).2
  rw [hfalse] at hone
  exact absurd hone (by decide)

end Added

/-- An `ADD` takes the lock of the bucket of its key, unless its block is refused. -/
theorem hasLocks_add_iff (env : Env (Event DataEntry)) (t : Hashtable DataEntry)
    (key value : List UInt8) (log : List (Event DataEntry)) :
    (MapCommand.add key value).toRequest.HasLocks env t log ↔
      (MapCommand.add key value).toRequest.ValueRefused env log ∨
        t.keyBucket key < t.lockCount.toNat := by
  set req := (MapCommand.add key value).toRequest with hreq
  have hcall : req.call env log =
      (((buildKeyValue env req.argv req.argsLengths).run log).1.bind fun input =>
        (CmdFunctionType.ADD.call input).map fun call =>
          (call, ((buildKeyValue env req.argv req.argsLengths).run log).2 ++ log)) := rfl
  by_cases hrefused : req.ValueRefused env log
  · refine iff_of_true (fun call hmem => ?_) (.inl hrefused)
    rw [hcall, (buildKeyValue_of_refused env log req hrefused).1] at hmem
    exact absurd hmem (Option.not_mem_none call)
  · rw [or_iff_right hrefused, Request.HasLocks, hcall,
      buildKeyValue_of_granted env log req hrefused]
    exact ⟨fun h => h _ rfl, fun h call hmem => Option.some_inj.mp hmem ▸ h⟩

/-- **What `ADD` accepts is stored under its key exactly when the key fits** the array of the
stored keys. The lock of its bucket has to be in the array too, unless the block of the value is
refused before. The other commands are asked when nothing fails. A table without buckets has none
for the key; a command on it reads outside the array of buckets. -/
theorem add_stored_iff (env : Env (Event DataEntry)) (t : Hashtable DataEntry)
    (hbuckets : t.bucketsCount ≠ 0) (key value : List UInt8) (hnul : 0 ∉ key) (hpos : key ≠ [])
    (log : List (Event DataEntry)) (env' : Env (Event DataEntry)) (henv' : env'.Succeeds) :
    let added := ((MapCommand.add key value).toRequest.execute env t).run log
    ((added.1.1.statusCode = 200 → StoredUnder env' added.1.2 key value t.elemCount) ∧
        LocksInside t.lockCount.toNat added.2) ↔
      (MapCommand.add key value).toRequest.ValueRefused env log ∨
        t.keyBucket key < t.lockCount.toNat ∧
          (key.length < KEY_MAX_LEN ∨ ¬AddAccepted env t log key value) := by
  intro added
  obtain ⟨hiff, hinserted⟩ := execute_add_iff env t key value log
  rw [execute_locksInside_iff, hasLocks_add_iff]
  by_cases hrefused : (MapCommand.add key value).toRequest.ValueRefused env log
  · exact iff_of_true ⟨fun h => absurd hrefused (hiff.mp h).1, .inl hrefused⟩ (.inl hrefused)
  rw [or_iff_right hrefused, or_iff_right hrefused, and_comm]
  refine and_congr_right fun hlock => ?_
  by_cases haccepted : AddAccepted env t log key value
  · obtain ⟨j, b, rfl, hmiss, htable⟩ := hinserted (hiff.mpr haccepted)
    rw [or_iff_left (not_not.mpr haccepted), imp_iff_right (hiff.mpr haccepted), htable]
    refine ⟨fun h => ?_, fun hkey => ?_⟩
    · by_contra hkey
      exact not_storedUnder_insertAt hnul hpos henv' (not_lt.mp hkey) hmiss b h
    · exact storedUnder_insertAt hnul hpos henv' hbuckets hkey hlock hmiss b
  · exact iff_of_true (fun h => absurd (hiff.mp h) haccepted) (.inr haccepted)

/-- The longest key that fits. -/
private def longestKey : List UInt8 := List.replicate 254 98

/-- A value is added under it to a table that holds another. -/
theorem add_stored_iff_longest :
    StoredUnder Env.granting (((MapCommand.add longestKey (bytes "v")).toRequest.execute
      Env.granting storedTable).run []).1.2 longestKey (bytes "v") 1 := by
  have hnul : 0 ∉ longestKey := fun h => absurd (List.eq_of_mem_replicate h) (by decide)
  have hkey : longestKey.length < KEY_MAX_LEN := by
    rw [longestKey, List.length_replicate]
    decide
  exact ((add_stored_iff Env.granting storedTable (by decide +kernel) longestKey (bytes "v") hnul
    (by decide) [] Env.granting Env.granting_succeeds).mpr
      (.inr ⟨by decide +kernel, .inl hkey⟩)).1 (by decide +kernel)

/-- A key of 255 bytes is accepted, and not found. -/
theorem long_key_added_not_found :
    ((tableCreate Env.granting 1).run ([] : List (Event DataEntry))).1 =
        some (Hashtable.fresh 1) ∧
      (((MapCommand.add (List.replicate 255 97) (bytes "v")).toRequest.execute
        Env.granting (Hashtable.fresh 1)).run []).1.1.statusCode = 200 ∧
      (((MapCommand.exist (List.replicate 255 97)).toRequest.execute Env.granting
        (((MapCommand.add (List.replicate 255 97) (bytes "v")).toRequest.execute
          Env.granting (Hashtable.fresh 1)).run []).1.2).run []).1.1.answer ≠ some (bytes "1") :=
  ⟨rfl, by decide +kernel, by decide +kernel⟩

end SimpleCDatabase
