import SimpleCDatabase.Command.Numerals
import SimpleCDatabase.Command.Rendering
import SimpleCDatabase.Command.Strings

/-!
# The database is the machine

In an environment in which nothing fails, the execution of a command on a table that represents an
abstract state gives the answer of the machine, byte by byte, and leaves a table that represents the
state that the machine leaves. So along a run the table is known by its map and its number of
buckets alone: how the entries came to lie where they do is never seen.

## Main definitions

* `Ask.command`, `CommandData.Fills`: the command of the table that carries out what is asked for,
  and the arguments it needs.
* `Carries`: a request that carries a line.

## Main results

* `buildCommandData_decodes`: the arguments are decoded as the machine decodes them.
* `Represents.proc_meets`: a command procedure.
* `Represents.execute_answer`: one command.

## References

* `src/command.c`, `execute_command`.
-/

namespace SimpleCDatabase

open Buckets CString Hashtable PowerOfTwo

/-! ### Requests -/

/-- The entry of the command table that carries out what is asked for. -/
def Ask.command : Ask → Command
  | .get _ => ⟨bytes "GET", .GET, cmdGet, 1⟩
  | .exist _ => ⟨bytes "EXIST", .EXIST, cmdExist, 1⟩
  | .write w .. => w.command
  | .loadFactor => ⟨bytes "LOADFACTOR", .LOADFACTOR, cmdLoadFactor, 0⟩
  | .count _ => ⟨bytes "COUNT", .COUNT, cmdCount, 1⟩

namespace CommandData

/-- The decoded key: not empty, and without a `NUL`. -/
structure Keyed (input : CommandData) (key : List UInt8) : Prop where
  eq : input.key = key
  ne_nil : key ≠ []
  nul : 0 ∉ key

/-- The decoded arguments are those of what is asked for. -/
def Fills (input : CommandData) : Ask → Prop
  | .get key | .exist key | .write .DEL key _ _ => input.Keyed key
  | .write .SET key value _ | .write .ADD key value _ | .write .REPLACE key value _ =>
    input.Keyed key ∧ ∃ b, input.value = some b ∧ b.val.data = value
  | .write .RESIZE _ _ size => input.newSize = size
  | .write .CLEAR .. | .loadFactor => True
  | .count type => input.countType = type

theorem Keyed.valid {input : CommandData} {key : List UInt8} (h : input.Keyed key) :
    isKeyValid input.key = true := by
  rw [isKeyValid_iff, h.eq, cstr_of_zero_notMem h.nul]
  exact h.ne_nil

end CommandData

/-- A request that carries a line: its name and its first argument are those of the line as strings,
and the value of a storing command is the one of the line. -/
structure Carries (req : Request) (line : List (List UInt8)) : Prop where
  name : cstr req.commandName = cstr (line.headD [])
  argc : req.argc = (line.length - 1 : ℕ)
  first : cstr (arg req.argv 0) = cstr (arg line.tail 0)
  value : line.length = 3 → memcpy (arg req.argv 1) req.valueSize = arg line.tail 1

/-- The request with the words of a line, and their lengths. -/
def Request.ofLine (line : List (List UInt8)) : Request :=
  ⟨line.headD [], (line.length - 1 : ℕ), line.tail, line.tail.map List.length⟩

theorem carries_ofLine (line : List (List UInt8)) : Carries (.ofLine line) line := by
  refine ⟨rfl, rfl, rfl, fun hlength => ?_⟩
  obtain ⟨name, key, value, rfl⟩ := List.length_eq_three.mp hlength
  exact List.take_left' rfl

theorem carries_map_ofLine (lines : List (List (List UInt8))) :
    List.Forall₂ Carries (lines.map Request.ofLine) lines :=
  List.forall₂_map_left_iff.mpr (List.forall₂_same.mpr fun line _ => carries_ofLine line)

/-- The lookup of a name is a scan of the table. -/
theorem findCommand_eq_find? (name : List UInt8) :
    findCommand name = commandTable.find? fun cmd => cmd.name = cstr name := by
  rw [findCommand, findCommandIndex_eq_scan, List.find?_eq_bind_findIdx?_getElem?]

/-! ### Decoding -/

/-- A size ends at the terminator exactly when nothing is left. -/
theorem strtoul_rest {s : List UInt8} (h : 0 ∉ s) :
    (strtoul s).2.headD 0 ≠ 0 ↔ (strtoul s).2 ≠ [] := by
  have hrest : ∀ c ∈ (strtoul s).2, c ∈ s := by
    cases hscan : scanNumeral s with
    | none =>
      have hall : (strtoul s).2 = s := by rw [strtoul, hscan]
      exact fun c hc => hall ▸ hc
    | some r =>
      rw [(strtoul_of_scanNumeral hscan).1]
      exact fun c hc => (scanNumeral_eq_some_iff.mp hscan).mem_of_mem_rest hc
  cases hcases : (strtoul s).2 with
  | nil => exact iff_of_false (not_not.mpr rfl) (not_not.mpr rfl)
  | cons c rest =>
    refine iff_of_true (fun hzero => h ?_) (List.cons_ne_nil _ _)
    exact hzero ▸ hrest c (hcases ▸ List.mem_cons_self)

/-- What the arguments decode to is what is asked for, or nothing when they are refused. -/
def Decodes (r : Option CommandData) : Except Reply Ask → Prop
  | .error reply => r = none ∧ reply = .invalid
  | .ok ask => ∃ input, r = some input ∧ input.Fills ask

section Decoding

variable {env : Env (Event DataEntry)} (henv : env.Succeeds) (log : List (Event DataEntry))
  {key : List UInt8}

theorem isKeyValid_eq_false_iff (hnul : 0 ∉ key) : isKeyValid key = false ↔ key = [] := by
  rw [← Bool.not_eq_true, isKeyValid_iff, cstr_of_zero_notMem hnul, not_not]

/-- The key of a command is decoded, unless it is empty. -/
private theorem key_decodes (hnul : 0 ∉ key) {ask : Ask}
    (hfills : ({ key := key } : CommandData).Keyed key → CommandData.Fills { key := key } ask) :
    (if isKeyValid key = false then pure none
      else pure (some { key := key }) : Action (Option CommandData)).Ensures log fun r _ =>
        Decodes r (keyed key ask) := by
  refine Traced.ensures_ite (fun hinvalid => ?_) fun hvalid => ?_
  · rw [keyed, if_pos ((isKeyValid_eq_false_iff hnul).mp hinvalid)]
    exact ⟨rfl, rfl⟩
  · have hne := mt (isKeyValid_eq_false_iff hnul).mpr hvalid
    rw [keyed, if_neg hne]
    exact ⟨_, rfl, hfills ⟨rfl, hne, hnul⟩⟩

include henv

/-- The key and the value of a storing command are decoded, unless the key is empty. -/
private theorem store_decodes {argv : List (List UInt8)} {argsLengths : List ℕ}
    (hnul : 0 ∉ arg argv 0) {ask : Ask}
    (hfills : ∀ input : CommandData, input.Keyed (arg argv 0) →
      (∃ b, input.value = some b ∧
        b.val.data = memcpy (arg argv 1) (argsLengths.getD 1 0)) → input.Fills ask) :
    (buildKeyValue env argv argsLengths).Ensures log fun r _ =>
      Decodes r (keyed (arg argv 0) ask) := by
  refine Traced.ensures_ite (fun hinvalid => ?_) fun hvalid => ?_
  · rw [keyed, if_pos ((isKeyValid_eq_false_iff hnul).mp hinvalid)]
    exact ⟨rfl, rfl⟩
  have hne := mt (isKeyValid_eq_false_iff hnul).mpr hvalid
  rw [keyed, if_neg hne]
  have hmalloc : (malloc env (SIZEOF_DATA_ENTRY + argsLengths.getD 1 0)).Ensures log
      fun granted _ => granted = true := henv.alloc _ _
  refine hmalloc.bind ?_
  rintro _ new rfl
  refine (newBlock_ensures _ _).bind ?_
  rintro b new' ⟨hb, -⟩
  refine ⟨_, rfl, hfills _ ⟨rfl, hne, hnul⟩ ⟨b, rfl, ?_⟩⟩
  rw [hb]

/-- **The arguments are decoded as the machine decodes them.** -/
theorem buildCommandData_decodes {req : Request} {line : List (List UInt8)} (h : Carries req line)
    {cmd : Command} (hcmd : cmd ∈ commandTable) (harity : cmd.arity = (line.length - 1 : ℕ)) :
    (buildCommandData env cmd.tag req.cut.argv req.argsLengths).Ensures log fun r _ =>
      Decodes r (decodeArgs cmd.tag line.tail) := by
  have hfirst : arg req.cut.argv 0 = cstr (arg line.tail 0) :=
    (arg_cutFirst_zero req.argv).trans h.first
  have hnul : 0 ∉ cstr (arg line.tail 0) := zero_notMem_cstr _
  have hvalue (htwo : cmd.arity = 2) :
      memcpy (arg req.cut.argv 1) (req.argsLengths.getD 1 0) = arg line.tail 1 := by
    rw [Request.cut, arg_cutFirst_one]
    exact h.value (by omega)
  have hkey {ask : Ask} (hfills : ∀ input : CommandData,
      input.Keyed (cstr (arg line.tail 0)) → input.Fills ask) :
      (if isKeyValid (arg req.cut.argv 0) = false then pure none
        else pure (some { key := arg req.cut.argv 0 }) : Action (Option CommandData)).Ensures log
          fun r _ => Decodes r (keyed (cstr (arg line.tail 0)) ask) := by
    rw [hfirst]
    exact key_decodes log hnul (hfills _)
  have hstore (htwo : cmd.arity = 2) {ask : Ask} (hfills : ∀ input : CommandData,
      input.Keyed (cstr (arg line.tail 0)) →
      (∃ b, input.value = some b ∧ b.val.data = arg line.tail 1) → input.Fills ask) :
      (buildKeyValue env req.cut.argv req.argsLengths).Ensures log fun r _ =>
        Decodes r (keyed (cstr (arg line.tail 0)) ask) := by
    refine (store_decodes henv log (hfirst ▸ hnul) ?_).mono fun r _ hr => hfirst ▸ hr
    rw [hfirst, hvalue htwo]
    exact hfills
  simp only [commandTable, List.mem_cons, List.not_mem_nil, or_false] at hcmd
  rcases hcmd with rfl | rfl | rfl | rfl | rfl | rfl | rfl | rfl | rfl | rfl
  · exact hstore rfl fun _ hkeyed hb => ⟨hkeyed, hb⟩
  · exact ⟨_, rfl, trivial⟩
  · rw [buildCommandData, hfirst, decodeArgs]
    cases stocmdcount (cstr (arg line.tail 0)) with
    | none => exact ⟨rfl, rfl⟩
    | some type => exact ⟨_, rfl, rfl⟩
  · exact hkey fun _ hkeyed => hkeyed
  · exact hkey fun _ hkeyed => hkeyed
  · exact hkey fun _ hkeyed => hkeyed
  · exact ⟨_, rfl, trivial⟩
  · exact hstore rfl fun _ hkeyed hb => ⟨hkeyed, hb⟩
  · rw [buildCommandData, hfirst, decodeArgs]
    simp only [strtoul_rest hnul]
    refine Traced.ensures_ite (fun hbad => ?_) fun hgood => ?_
    · rw [if_pos hbad]
      exact ⟨rfl, rfl⟩
    · rw [if_neg hgood]
      exact ⟨_, rfl, rfl⟩
  · exact hstore rfl fun _ hkeyed hb => ⟨hkeyed, hb⟩

end Decoding

/-! ### Procedures -/

/-- The result of a command is rendered as the answer of the machine, and the table represents the
state that it leaves, with the locks that it had. -/
structure Meets (t : Hashtable DataEntry) (result : CommandResult) (t' : Hashtable DataEntry)
    (next : Reply × MapState) : Prop where
  short : result.Short
  reply : result.reply = next.1
  represents : Represents t' next.2
  lockCount : t'.lockCount = t.lockCount

namespace Write

variable (w : Write) (code : ℤ)

/-- A report is rendered by the code, and by whether the command hands it on. -/
theorem reply_report : (w.report code).reply =
    if code = 0 then .ok else if w.HandsOn then .refused else .internal := by
  by_cases hcode : code = 0
  · subst hcode
    cases w <;> rfl
  · cases w <;> simp [report, CommandResult.reply, HandsOn, hcode]

theorem short_report : (w.report code).Short := by
  cases w with
  | SET | ADD | CLEAR => trivial
  | DEL | REPLACE | RESIZE =>
    rw [report]
    split <;> trivial

end Write

namespace Represents

variable {env : Env (Event DataEntry)} {t : Hashtable DataEntry} {s : MapState}
  (h : Represents t s) (henv : env.Succeeds) (log : List (Event DataEntry))
  {input : CommandData} {key : List UInt8}

include h henv

private theorem get_meets (hkey : input.Keyed key) :
    (cmdGet env t input).Ensures log fun r _ =>
      Meets t r.1 r.2 (s.reply t.lockCount.toNat (.get key)) := by
  refine Traced.ensures_ite
    (fun hinvalid => absurd hkey.valid (Bool.eq_false_iff.mp hinvalid)) fun _ => ?_
  refine (tableGet_succeeds env t log henv input.key).bind ?_
  rw [hkey.eq]
  rintro r new ⟨v, ⟨j, hfound, rfl⟩ | ⟨hmiss, rfl⟩, hdata⟩
  · obtain ⟨b, hb, hlookup⟩ := h.lookup_of_hit hkey.nul hkey.ne_nil hfound
    rw [hb] at hdata
    obtain ⟨copy, rfl, hcopy⟩ := Option.map_eq_some_iff.mp hdata
    have hreply : s.reply t.lockCount.toNat (.get key) = (⟨200, b.val.data⟩, s) := by
      rw [MapState.reply, hlookup]
    rw [hreply]
    exact ⟨trivial, congrArg (Reply.mk 200) hcopy, h, rfl⟩
  · obtain rfl := Option.map_eq_none_iff.mp hdata
    have hlookup := Finmap.lookup_eq_none.mpr ((h.missing_iff_notMem hkey.nul hkey.ne_nil).mp hmiss)
    have hreply : s.reply t.lockCount.toNat (.get key) = (.absent, s) := by
      rw [MapState.reply, hlookup]
    rw [hreply]
    exact ⟨trivial, rfl, h, rfl⟩

private theorem exist_meets (hkey : input.Keyed key) :
    (cmdExist env t input).Ensures log fun r _ =>
      Meets t r.1 r.2 (s.reply t.lockCount.toNat (.exist key)) := by
  refine Traced.ensures_ite
    (fun hinvalid => absurd hkey.valid (Bool.eq_false_iff.mp hinvalid)) fun _ => ?_
  refine (tableExist_succeeds env t log henv input.key).bind ?_
  rw [hkey.eq, h.missing_iff_notMem hkey.nul hkey.ne_nil, not_not]
  rintro found new hfound
  have hreply : s.reply t.lockCount.toNat (.exist key) =
      (⟨200, if found then TCP_TRUE else TCP_FALSE⟩, s) := by
    simp only [MapState.reply, hfound]
  rw [hreply]
  exact ⟨trivial, rfl, h, rfl⟩

/-- The operation of a write accepts and refuses as the machine does. -/
private theorem operation_wrote (w : Write) {value : List UInt8} {size : UInt64}
    (hfills : input.Fills (.write w key value size)) (hchecked : w.Checked input)
    (hbreaks : ¬s.AskBreaks t.lockCount.toNat (.write w key value size)) :
    (w.operation env t input).Ensures log fun r _ =>
      Wrote s r.1 r.2 (s.written key value size w) ∧ r.2.lockCount = t.lockCount := by
  obtain ⟨ds, hout, -⟩ := w.performs env t input log
  have hoperation : (w.operation env t input).Ensures log fun r _ =>
      (¬w.HandsOn → (r.1 = 0 ↔ w.Suits t input)) ∧
        ∃ ds, Outcome env t (w.call input) r.1 r.2 ds :=
    ⟨fun hw => Write.code_eq_zero_iff henv hw hchecked log, ds, hout⟩
  refine hoperation.mono ?_
  rintro ⟨code, t'⟩ _ ⟨hcode, ds, hout⟩
  refine ⟨?_, hout.counts.1⟩
  cases w with
  | SET =>
    obtain ⟨⟨rfl, hne, hnul⟩, b, hb, rfl⟩ := hfills
    rw [Write.call, hb] at hout
    exact h.set_wrote henv hnul hne hout size
  | ADD =>
    obtain ⟨⟨rfl, hne, hnul⟩, b, hb, rfl⟩ := hfills
    rw [Write.call, hb] at hout
    exact h.add_wrote henv hnul hne hout size hbreaks
  | REPLACE =>
    obtain ⟨⟨rfl, hne, hnul⟩, b, hb, rfl⟩ := hfills
    rw [Write.call, hb] at hout
    exact h.replace_wrote henv hnul hne hout size
  | DEL =>
    obtain ⟨rfl, hne, hnul⟩ := hfills
    exact h.delete_wrote henv hnul hne hout value size
  | RESIZE =>
    obtain rfl : input.newSize = size := hfills
    exact h.resize_wrote hout hchecked (hcode (by decide)) fun hzero => hbreaks (.inl hzero)
  | CLEAR =>
    obtain ⟨s', hrep, rfl, rfl⟩ := h.clear_outcome henv hout
    exact ⟨rfl, hrep⟩

private theorem write_meets (w : Write) {value : List UInt8} {size : UInt64}
    (hfills : input.Fills (.write w key value size))
    (hbreaks : ¬s.AskBreaks t.lockCount.toNat (.write w key value size)) :
    (w.command.proc env t input).Ensures log fun r _ =>
      Meets t r.1 r.2 (s.reply t.lockCount.toNat (.write w key value size)) := by
  by_cases hchecked : w.Checked input
  · rw [w.proc_eq hchecked]
    refine (h.operation_wrote henv log w hfills hchecked hbreaks).bind ?_
    rintro ⟨code, t'⟩ new ⟨hwrote, hlocks⟩
    rw [MapState.reply]
    cases hnext : s.written key value size w with
    | none =>
      rw [hnext] at hwrote
      obtain ⟨hcode, hrep⟩ := hwrote
      exact ⟨w.short_report code, (w.reply_report code).trans (if_neg hcode), hrep, hlocks⟩
    | some next =>
      rw [hnext] at hwrote
      obtain ⟨hcode, hrep⟩ := hwrote
      exact ⟨w.short_report code, (w.reply_report code).trans (if_pos hcode), hrep, hlocks⟩
  · -- Only a size can fail the check: the keys and values are decoded already.
    obtain ⟨rfl, hsize⟩ : w = .RESIZE ∧ size = 0 := by
      cases w with
      | SET | ADD | REPLACE =>
        obtain ⟨hkey, b, hb, -⟩ := hfills
        exact absurd ⟨hkey.valid, hb.trans_ne (Option.some_ne_none b)⟩ hchecked
      | DEL => exact absurd (CommandData.Keyed.valid hfills) hchecked
      | RESIZE => exact ⟨rfl, Eq.trans (Eq.symm hfills) (not_not.mp hchecked)⟩
      | CLEAR => exact absurd trivial hchecked
    rw [Write.proc_of_not_checked _ hchecked]
    have hreply : s.reply t.lockCount.toNat (.write .RESIZE key value size) = (.internal, s) := by
      rw [MapState.reply, MapState.written, MapState.resized, if_pos hsize]
      rfl
    rw [hreply]
    exact ⟨trivial, rfl, h, rfl⟩

omit henv in
private theorem loadFactor_meets (env : Env (Event DataEntry)) (input : CommandData) :
    (cmdLoadFactor env t input).Ensures log fun r _ =>
    Meets t r.1 r.2 (s.reply t.lockCount.toNat .loadFactor) := by
  have hload : tableLoadFactor t = Double.round s.load := by
    have hconsistent : t.Consistent := .inl h.wellFormed
    rw [hconsistent.loadFactor_eq, MapState.load, ← hconsistent.elemCount_eq, h.count_eq,
      h.bucketsCount]
  have hspec : (cmdLoadFactor env t input).Ensures log fun r _ =>
      r = (.loadFactor (Double.round s.load), t) := by
    rw [← hload]
    rfl
  refine hspec.mono ?_
  rintro _ _ rfl
  exact ⟨h.length_load, rfl, h, rfl⟩

/-- The number that `COUNT` prints. -/
private theorem printed_eq (type : CmdCount) :
    decimal (type.printed env t log).toNat = s.measured t.lockCount.toNat type := by
  have hconsistent : t.Consistent := .inl h.wellFormed
  cases type with
  | CAPACITY =>
    rw [MapState.measured, ← h.bucketsCount]
    exact congrArg decimal hconsistent.tableCapacity_toNat
  | TOTAL_ELEM => exact congrArg decimal h.count_eq
  | MEMORY_USAGE =>
    have hlocks : ReadLocksGranted env log t.bucketsCount.toNat := fun _ _ => henv.lock _ _
    rw [CmdCount.printed, tableMemoryUsage_toNat, if_pos hlocks, h.memory_eq]
    rfl
  | OCCUPIED_BUCKET =>
    have hbuckets : t.bucketsCount ≠ 0 := fun hzero =>
      absurd (congrArg UInt64.toNat hzero) h.wellFormed.pos.ne'
    have hsmall := h.occupied_le.trans h.wellFormed.bucketsCount_le
    rw [CmdCount.printed, tableOccupiedBucketCounter_value env t henv.lock hbuckets, h.occupied_eq,
      doubleDiv_exact hsmall h.wellFormed.pow, h.bucketsCount]
    rfl

private theorem count_meets {type : CmdCount} (htype : input.countType = type) :
    (cmdCount env t input).Ensures log fun r _ =>
      Meets t r.1 r.2 (s.reply t.lockCount.toNat (.count type)) := by
  refine (cmdCount_ensures htype).mono ?_
  rintro ⟨result, t'⟩ _ ⟨rfl, c, rfl, hc⟩
  refine ⟨rfl, ?_, h, rfl⟩
  rw [MapState.reply, ← h.printed_eq henv log, ← hc]
  rfl

/-- **The procedure of a command** does what is asked for. -/
theorem proc_meets {ask : Ask} (hfills : input.Fills ask)
    (hbreaks : ¬s.AskBreaks t.lockCount.toNat ask) :
    (ask.command.proc env t input).Ensures log fun r _ =>
      Meets t r.1 r.2 (s.reply t.lockCount.toNat ask) := by
  cases ask with
  | get key => exact h.get_meets henv log hfills
  | exist key => exact h.exist_meets henv log hfills
  | write w key value size => exact h.write_meets henv log w hfills hbreaks
  | loadFactor => exact h.loadFactor_meets log env input
  | count type => exact h.count_meets henv log hfills

end Represents

/-! ### Commands -/

/-- The arguments of a command ask for that command. -/
theorem command_of_decodeArgs {cmd : Command} (hcmd : cmd ∈ commandTable)
    {args : List (List UInt8)} {ask : Ask} (h : decodeArgs cmd.tag args = .ok ask) :
    ask.command = cmd := by
  simp only [commandTable, List.mem_cons, List.not_mem_nil, or_false] at hcmd
  rcases hcmd with rfl | rfl | rfl | rfl | rfl | rfl | rfl | rfl | rfl | rfl
  · rw [← keyed_eq_ok h]; rfl
  · cases h; rfl
  · rw [decodeArgs] at h
    split at h <;> cases h
    rfl
  · rw [← keyed_eq_ok h]; rfl
  · rw [← keyed_eq_ok h]; rfl
  · rw [← keyed_eq_ok h]; rfl
  · cases h; rfl
  · rw [← keyed_eq_ok h]; rfl
  · simp only [decodeArgs] at h
    split at h
    · cases h
    · rw [← Except.ok.inj h]
      rfl
  · rw [← keyed_eq_ok h]; rfl

/-- **One command.** A request that carries a line is answered with the status and the text of the
machine, and the table that is left represents the state that the machine leaves. -/
theorem Represents.execute_answer {env : Env (Event DataEntry)} {t : Hashtable DataEntry}
    {s : MapState} (h : Represents t s) (henv : env.Succeeds) (log : List (Event DataEntry))
    {req : Request} {line : List (List UInt8)} (hcarries : Carries req line)
    (hbreaks : ¬s.Breaks t.lockCount.toNat line) :
    (req.execute env t).Ensures log fun r _ =>
      r.1.Gives (s.answer t.lockCount.toNat line).1 ∧
        Represents r.2 (s.answer t.lockCount.toNat line).2 ∧ r.2.lockCount = t.lockCount := by
  have hfind : findCommand req.cut.commandName =
      commandTable.find? fun cmd => cmd.name = cstr (line.headD []) := by
    rw [findCommand_eq_find?, Request.cut, cstr_cstr, hcarries.name]
  have hrefused (reply : Reply) (htext : cstr reply.text = reply.text)
      (hdecode : decode line = .error reply) (log : List (Event DataEntry)) :
      Traced.Ensures (do
        let response ← createErrorResponse env reply.status reply.text
        pure (response, t)) log fun r _ => r.1.Gives (s.answer t.lockCount.toNat line).1 ∧
          Represents r.2 (s.answer t.lockCount.toNat line).2 ∧ r.2.lockCount = t.lockCount := by
    rw [MapState.answer, hdecode]
    exact (createErrorResponse_gives henv log reply htext).bind fun r _ hr => ⟨hr, h, rfl⟩
  rw [← execute_cut, Request.execute, executeCommand, hfind]
  cases hcase : commandTable.find? fun cmd => cmd.name = cstr (line.headD []) with
  | none => exact hrefused .unknown rfl (by rw [decode, hcase]) log
  | some cmd =>
    have hmem := List.mem_of_find?_eq_some hcase
    refine Traced.ensures_ite (fun hne => ?_) fun heq => ?_
    · refine hrefused .miscounted rfl ?_ log
      rw [decode, hcase]
      exact if_pos (hcarries.argc ▸ hne)
    have harity : cmd.arity = (line.length - 1 : ℕ) := hcarries.argc ▸ not_not.mp heq
    have hdecode : decode line = decodeArgs cmd.tag line.tail := by
      rw [decode, hcase]
      exact if_neg (not_not.mpr harity)
    refine (buildCommandData_decodes henv log hcarries hmem harity).bind ?_
    intro r new hdecodes
    cases hargs : decodeArgs cmd.tag line.tail with
    | error reply =>
      rw [hargs] at hdecodes
      obtain ⟨rfl, rfl⟩ := hdecodes
      exact hrefused .invalid rfl (hdecode.trans hargs) _
    | ok ask =>
      rw [hargs] at hdecodes
      obtain ⟨input, rfl, hfills⟩ := hdecodes
      have hanswer : s.answer t.lockCount.toNat line = s.reply t.lockCount.toNat ask := by
        rw [MapState.answer, hdecode, hargs]
      rw [hanswer, ← command_of_decodeArgs hmem hargs]
      have hbreaks' : ¬s.AskBreaks t.lockCount.toNat ask :=
        fun hask => hbreaks ⟨ask, hdecode.trans hargs, hask⟩
      refine (h.proc_meets henv _ hfills hbreaks').bind ?_
      rintro ⟨result, t'⟩ new' hmeets
      refine (finalResult_gives henv _ hmeets.short).bind fun r _ hr => ?_
      exact ⟨hmeets.reply ▸ hr, hmeets.represents, hmeets.lockCount⟩

/-! ### Runs -/

/-- A created table, with the number of its locks, represents the empty map. -/
theorem tableCreate_represents {env : Env (Event DataEntry)} {n₀ : UInt64}
    (hn₀ : n₀.toNat ≤ 2 ^ 63) (log : List (Event DataEntry)) :
    (tableCreate (α := DataEntry) env n₀).Ensures log fun r _ => ∀ t, r = some t →
      Represents t ⟨∅, roundCapacity n₀⟩ ∧ t.lockCount = roundCapacity n₀ := by
  refine (tableCreate_spec env n₀ log).mono ?_
  rintro r new ⟨-, hcreated⟩ t hr
  obtain ⟨hpos, rfl, hbytes⟩ := hcreated t hr
  exact ⟨.fresh (roundCapacity_spec hpos hn₀).1 hbytes, rfl⟩

/-- A command on a table with a lock for each bucket uses the locks of the table only. -/
theorem Represents.execute_locksInside {t : Hashtable DataEntry} {s : MapState}
    (h : Represents t s) (hwithin : s.bucketsCount.toNat ≤ t.lockCount.toNat)
    (env : Env (Event DataEntry)) (log : List (Event DataEntry)) (req : Request) :
    LocksInside t.lockCount.toNat ((req.execute env t).run log).2 := by
  rw [← h.bucketsCount, ← UInt64.le_iff_toNat_le] at hwithin
  exact (execute_locksInside_iff env t log req).mpr
    (req.hasLocks_of_le h.wellFormed.bucketsCount_ne_zero hwithin)

/-- **A run of commands**, from a table that represents a state and has a lock for each bucket: the
answers are those of the machine, one by one, the table at the end represents its state, and no lock
outside the array is used. -/
theorem Represents.run_answers {env : Env (Event DataEntry)} {t : Hashtable DataEntry}
    {s : MapState} (h : Represents t s) (henv : env.Succeeds) {locks : ℕ}
    (hlocks : t.lockCount.toNat = locks) (hwithin : s.bucketsCount.toNat ≤ locks)
    {reqs : List Request} {lines : List (List (List UInt8))}
    (hcarries : List.Forall₂ Carries reqs lines) (hbreaks : s.Unbroken locks lines)
    (log : List (Event DataEntry)) :
    (Traced.runOutputs (Request.execute env) t reqs).Ensures log fun r new =>
      (List.Forall₂ ExecuteResult.Gives r.1 (s.run locks lines).1 ∧
        Represents r.2 (s.run locks lines).2) ∧ LocksInside locks new := by
  have hstep : ∀ req line t' s' log', Carries req line →
      (Represents t' s' ∧ t'.lockCount.toNat = locks ∧ s'.bucketsCount.toNat ≤ locks) →
      ¬s'.Breaks locks line → (req.execute env t').Ensures log' fun r new =>
        (r.1.Gives (s'.answer locks line).1 ∧ Represents r.2 (s'.answer locks line).2 ∧
          r.2.lockCount.toNat = locks ∧ (s'.answer locks line).2.bucketsCount.toNat ≤ locks) ∧
        ∀ e ∈ new, ∀ i ∈ e.usedLock, i < locks := by
    rintro req line t' s' log' hline ⟨hrep, rfl, hle⟩ hunbroken
    obtain ⟨hgives, hnext, heq⟩ := hrep.execute_answer henv log' hline hunbroken
    exact ⟨⟨hgives, hnext, congrArg UInt64.toNat heq,
      MapState.bucketsCount_answer_le hle hunbroken⟩, hrep.execute_locksInside hle env log' req⟩
  exact (Traced.runOutputs_computes (R := fun t' s' => Represents t' s' ∧
    t'.lockCount.toNat = locks ∧ s'.bucketsCount.toNat ≤ locks) hstep hcarries
      ⟨h, hlocks, hwithin⟩ hbreaks log).mono
        fun r new ⟨⟨hgives, hrep, _⟩, hinside⟩ => ⟨⟨hgives, hrep⟩, hinside⟩

/-- **The database is the machine.** Whatever bytes the commands consist of, a run on a created
table, in an environment in which nothing fails, answers every command with the status and the text
of the machine, and uses the locks of the table only, as long as no command does what no map
does. -/
theorem runDatabase_answers (env : Env (Event DataEntry)) (henv : env.Succeeds) (n₀ : UInt64)
    (hn₀ : n₀.toNat ≤ 2 ^ 63) (reqs : List Request) (lines : List (List (List UInt8)))
    (hcarries : List.Forall₂ Carries reqs lines)
    (hbreaks : (⟨∅, roundCapacity n₀⟩ : MapState).Unbroken (roundCapacity n₀).toNat lines)
    (log : List (Event DataEntry)) (rs : List ExecuteResult) (t : Hashtable DataEntry)
    (hrun : ((runDatabase env n₀ reqs).run log).1 = some (rs, t)) :
    List.Forall₂ ExecuteResult.Gives rs
      ((⟨∅, roundCapacity n₀⟩ : MapState).run (roundCapacity n₀).toNat lines).1 ∧
    Represents t ((⟨∅, roundCapacity n₀⟩ : MapState).run (roundCapacity n₀).toNat lines).2 ∧
    LocksInside (roundCapacity n₀).toNat ((runDatabase env n₀ reqs).run log).2 := by
  obtain ⟨t₀, hcreated, hvalue, hevents⟩ := runDatabase_run hrun
  obtain ⟨hrep, hlocks⟩ := tableCreate_represents hn₀ log t₀ hcreated
  have hanswers : (Traced.runOutputs (Request.execute env) t₀ reqs).Ensures _ _ :=
    hrep.run_answers henv (congrArg _ hlocks) le_rfl hcarries hbreaks
      (((tableCreate env n₀).run log).2 ++ log)
  rw [Traced.Ensures, hvalue] at hanswers
  obtain ⟨⟨hgives, hend⟩, hinside⟩ := hanswers
  rw [hevents]
  exact ⟨hgives, hend, locksInside_append.mpr ⟨hinside, locksInside_tableCreate env n₀ _ log⟩⟩

/-- The words of a run: a key with a `NUL` inside, a smaller table, the number of elements, a key
that does not fit, and a name that is none. -/
def sampleLines : List (List (List UInt8)) :=
  [[bytes "SET", bytes "k" ++ [0, 1], [0, 65]], [bytes "RESIZE", bytes " +1"],
    [bytes "GET", bytes "k"],
    [bytes "COUNT", bytes "TOTAL_ELEM"], [bytes "SET", List.replicate 256 65, []], [bytes "get"]]

/-- Their answers: only the part of the key before the `NUL` counts. -/
theorem runDatabase_answers_sample :
    ∃ rs t, ((runDatabase .granting 2 (sampleLines.map .ofLine)).run []).1 = some (rs, t) ∧
      List.Forall₂ ExecuteResult.Gives rs
        [.ok, .ok, ⟨200, [0, 65]⟩, ⟨200, bytes "1"⟩, .refused, .unknown] := by
  have hsome : ((runDatabase .granting 2 (sampleLines.map .ofLine)).run []).1.isSome := by
    decide +kernel
  obtain ⟨⟨rs, t⟩, hrun⟩ := Option.isSome_iff_exists.mp hsome
  have hanswers := runDatabase_answers .granting Env.granting_succeeds 2 (by decide) _ sampleLines
    (carries_map_ofLine sampleLines) (by decide +kernel) [] rs t hrun
  have hreplies : ((⟨∅, roundCapacity 2⟩ : MapState).run (roundCapacity 2).toNat sampleLines).1 =
      [.ok, .ok, ⟨200, [0, 65]⟩, ⟨200, bytes "1"⟩, .refused, .unknown] := by
    decide +kernel
  exact ⟨rs, t, hrun, hreplies ▸ hanswers.1⟩

/-- What is sent for a result: its status and its text. -/
def ExecuteResult.visible (r : ExecuteResult) : ℤ × Option (List UInt8) := (r.statusCode, r.answer)

theorem visible_of_gives {rs : List ExecuteResult} {replies : List Reply}
    (h : List.Forall₂ ExecuteResult.Gives rs replies) :
    rs.map ExecuteResult.visible = replies.map fun reply => (reply.status, some reply.text) := by
  induction h with
  | nil => rfl
  | cons hgives _ ih =>
    rw [List.map_cons, List.map_cons, ih, ExecuteResult.visible, hgives.shows.1, hgives.shows.2]

/-- **The history of a table is not seen.** Two tables that represent one state, and have a lock for
each bucket, whatever was executed on them before, answer the same commands alike, and represent one
state again: neither the order of the insertions, nor the slots, nor what was deleted can be told
from the answers. Both use the locks of their arrays only. -/
theorem runs_alike {env env' : Env (Event DataEntry)} (henv : env.Succeeds)
    (henv' : env'.Succeeds) {t t' : Hashtable DataEntry} {s : MapState} (h : Represents t s)
    (h' : Represents t' s) (hlocks : t.lockCount = t'.lockCount)
    (hwithin : s.bucketsCount.toNat ≤ t.lockCount.toNat)
    {reqs reqs' : List Request} {lines : List (List (List UInt8))}
    (hcarries : List.Forall₂ Carries reqs lines) (hcarries' : List.Forall₂ Carries reqs' lines)
    (hbreaks : s.Unbroken t.lockCount.toNat lines) (log log' : List (Event DataEntry)) :
    let r := (Traced.runOutputs (Request.execute env) t reqs).run log
    let r' := (Traced.runOutputs (Request.execute env') t' reqs').run log'
    (r.1.1.map ExecuteResult.visible = r'.1.1.map ExecuteResult.visible ∧
      ∃ s', Represents r.1.2 s' ∧ Represents r'.1.2 s') ∧
    LocksInside t.lockCount.toNat r.2 ∧ LocksInside t'.lockCount.toNat r'.2 := by
  obtain ⟨⟨hgives, hrep⟩, hinside⟩ := h.run_answers henv rfl hwithin hcarries hbreaks log
  obtain ⟨⟨hgives', hrep'⟩, hinside'⟩ := h'.run_answers henv'
    (congrArg UInt64.toNat hlocks).symm hwithin hcarries' hbreaks log'
  exact ⟨⟨(visible_of_gives hgives).trans (visible_of_gives hgives').symm, _, hrep, hrep'⟩,
    hinside, hlocks ▸ hinside'⟩

/-- The table after commands on a new one. -/
private def tableOf (lines : List (List (List UInt8))) : Hashtable DataEntry :=
  ((Traced.runOutputs (Request.execute .granting) (.fresh 1) (lines.map .ofLine)).run []).1.2

private theorem represents_tableOf {lines : List (List (List UInt8))} {m : KeyMap}
    (hbreaks : (⟨∅, 1⟩ : MapState).Unbroken 1 lines)
    (hmap : ((⟨∅, 1⟩ : MapState).run 1 lines).2.map = m)
    (hbuckets : ((⟨∅, 1⟩ : MapState).run 1 lines).2.bucketsCount = 1) :
    Represents (tableOf lines) ⟨m, 1⟩ := by
  have hfresh : Represents (.fresh 1) ⟨∅, 1⟩ := .fresh ⟨0, rfl⟩ (by decide)
  have hstate : ((⟨∅, 1⟩ : MapState).run 1 lines).2 = ⟨m, 1⟩ :=
    congrArg₂ MapState.mk hmap hbuckets
  rw [← hstate]
  exact (hfresh.run_answers Env.granting_succeeds rfl le_rfl (carries_map_ofLine lines) hbreaks
    []).1.2

/-- Two keys that were stored in one order or the other, and lie in different slots. -/
theorem runs_alike_sample :
    let t := tableOf [[bytes "SET", bytes "a", [1]], [bytes "SET", bytes "b", [2]]]
    let t' := tableOf [[bytes "SET", bytes "b", [2]], [bytes "SET", bytes "a", [1]]]
    let reqs := [[bytes "DEL", bytes "a"], [bytes "GET", bytes "b"]].map Request.ofLine
    (t.slotAt (bytes "a") ⟨0, by decide⟩).keyString ≠
        (t'.slotAt (bytes "a") ⟨0, by decide⟩).keyString ∧
      ((Traced.runOutputs (Request.execute .granting) t reqs).run []).1.1.map
          ExecuteResult.visible =
        ((Traced.runOutputs (Request.execute .granting) t' reqs).run []).1.1.map
          ExecuteResult.visible := by
  have h : Represents (tableOf [[bytes "SET", bytes "a", [1]], [bytes "SET", bytes "b", [2]]])
      ⟨(∅ : KeyMap).insert (bytes "a") [1] |>.insert (bytes "b") [2], 1⟩ :=
    represents_tableOf (by decide +kernel) (by decide +kernel) (by decide +kernel)
  have h' : Represents (tableOf [[bytes "SET", bytes "b", [2]], [bytes "SET", bytes "a", [1]]])
      ⟨(∅ : KeyMap).insert (bytes "a") [1] |>.insert (bytes "b") [2], 1⟩ :=
    represents_tableOf (by decide +kernel) (by decide +kernel) (by decide +kernel)
  exact ⟨by decide +kernel, (runs_alike Env.granting_succeeds Env.granting_succeeds h h'
    (by decide +kernel) (by decide +kernel) (carries_map_ofLine _) (carries_map_ofLine _)
    (by decide +kernel) [] []).1.1⟩

end SimpleCDatabase
