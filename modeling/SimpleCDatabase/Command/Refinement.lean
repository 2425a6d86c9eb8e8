import SimpleCDatabase.Command.MapModel

/-!
# The database refines the finite map

When no allocation and no lock fails, every execution of a command on a table that represents an
abstract state is a step of the abstract database, and the table afterwards represents the state
afterwards. Along a run this is a forward simulation. A run that locks memory behind the array of
locks is not one of the abstract database, whatever the model answers.

## Main results

* `Represents.insertAt`, `Represents.overwrite`, `Represents.removeAt`: the writes of the
  operations, in terms of the map.
* `execute_refines`: one command.
* `runDatabase_refines`: a run of commands on a created table is one of the abstract database
  exactly when every command finds its locks in the array.
* `databaseGuarded_of_atMost`: they do where no resize exceeds the buckets of the created table.
-/

namespace SimpleCDatabase

open Buckets CString Hashtable PowerOfTwo

/-! ### Writes in terms of the map -/

namespace Represents

variable {t : Hashtable DataEntry} {s : MapState} {key : List UInt8} {j : Fin BUCKET_CAPACITY}

theorem insertAt (h : Represents t s) (hkey : KeyAdmitted key) (hmiss : t.Missing key)
    (hfree : (t.slotAt key j).inUse = false) (b : Block DataEntry) :
    Represents (t.insertAt key j (some b)) (s.insert key b.val.data) := by
  have hentries := entries_insertAt (h.wellFormed.keyBucket_lt key) hfree (some b)
  have hstring : ((t.slotAt key j).filled key (some b)).keyString = key := hkey.cstr_copy _
  refine ⟨h.wellFormed.insertAt hfree _, h.bucketsCount, ?_, ?_⟩
  · intro slot hslot
    rw [hentries] at hslot
    rcases Multiset.mem_add.mp hslot with hslot | hslot
    · exact h.hashes slot hslot
    · rw [Multiset.mem_singleton.mp hslot, hstring]
      rfl
  · have hpair : ((t.slotAt key j).filled key (some b)).pair = (key, some b.val.data) :=
      Prod.ext hstring rfl
    rw [hentries, Multiset.map_add, Multiset.map_singleton, hpair, h.pairs]
    exact (mapPairs_insert ((h.missing_iff hkey).mp hmiss)).symm

theorem overwrite (h : Represents t s) (hkey : KeyAdmitted key) (hfound : t.Found key j)
    (b : Block DataEntry) :
    Represents (t.overwrite key j (some b)) (s.insert key b.val.data) := by
  have hentries := entries_overwrite (h.wellFormed.keyBucket_lt key) hfound.inUse (some b)
  have hmem := slotAt_mem_entries (h.wellFormed.keyBucket_lt key) hfound.inUse
  have hstring := ((h.found_iff hkey).mp hfound).2
  obtain ⟨old, hold, hlookup⟩ := h.lookup_of_found hkey hfound
  refine ⟨h.wellFormed.overwrite hfound _, h.bucketsCount, ?_, ?_⟩
  · intro slot hslot
    have hslot' : slot ∈ t.entries + {(t.slotAt key j).withValue (some b)} :=
      hentries ▸ Multiset.mem_add.mpr (.inl hslot)
    rcases Multiset.mem_add.mp hslot' with hslot | hslot
    · exact h.hashes slot hslot
    · have hkept : (t.slotAt key j).hash = hash (t.slotAt key j).keyString := h.hashes _ hmem
      rw [Multiset.mem_singleton.mp hslot]
      exact hkept
  · have hbefore : (t.slotAt key j).pair = (key, some old.val.data) :=
      Prod.ext hstring (by rw [Slot.pair, hold]; rfl)
    have hafter : ((t.slotAt key j).withValue (some b)).pair = (key, some b.val.data) :=
      Prod.ext hstring rfl
    have hmap := congrArg (Multiset.map Slot.pair) hentries
    rw [Multiset.map_add, Multiset.map_add, Multiset.map_singleton, Multiset.map_singleton,
      hbefore, hafter, h.pairs, ← mapPairs_replace hlookup] at hmap
    exact add_right_cancel hmap

theorem removeAt (h : Represents t s) (hkey : KeyAdmitted key) (hfound : t.Found key j) :
    Represents (t.removeAt key j) (s.erase key) := by
  have hentries := entries_removeAt (h.wellFormed.keyBucket_lt key) hfound.inUse
  have hstring := ((h.found_iff hkey).mp hfound).2
  obtain ⟨old, hold, hlookup⟩ := h.lookup_of_found hkey hfound
  refine ⟨h.wellFormed.removeAt hfound, h.bucketsCount, ?_, ?_⟩
  · exact fun slot hslot => h.hashes slot (hentries ▸ Multiset.mem_add.mpr (.inl hslot))
  · have hbefore : (t.slotAt key j).pair = (key, some old.val.data) :=
      Prod.ext hstring (by rw [Slot.pair, hold]; rfl)
    have hmap := congrArg (Multiset.map Slot.pair) hentries
    rw [Multiset.map_add, Multiset.map_singleton, hbefore, h.pairs, ← mapPairs_erase hlookup]
      at hmap
    exact add_right_cancel hmap

theorem cleared (h : Represents t s) {buckets : ℕ → Bucket DataEntry}
    (hbuckets : ∀ i < t.bucketsCount.toNat, ∀ j, (buckets i j).inUse = false) :
    Represents { t with buckets := buckets, elemCount := 0 } { s with map := ∅ } := by
  have hempty : { t with buckets := buckets, elemCount := 0 }.entries = 0 :=
    contents_eq_zero hbuckets
  refine ⟨h.wellFormed.cleared hbuckets, h.bucketsCount, ?_, ?_⟩
  · rw [hempty]
    exact fun slot hslot => absurd hslot (Multiset.notMem_zero slot)
  · rw [hempty]
    rfl

theorem moved (h : Represents t s) {N : UInt64} {buckets : ℕ → Bucket DataEntry}
    (hpow : N.toNat.isPowerOfTwo) (hbytes : N.toNat * SIZEOF_BUCKET < 2 ^ 64)
    (hplaced : Placed Slot.inUse (rehashHome N) buckets N.toNat)
    (hcontents : contents Slot.inUse buckets N.toNat = t.entries) :
    Represents { t with buckets := buckets, bucketsCount := N } { s with bucketsCount := N } := by
  have hentries : { t with buckets := buckets, bucketsCount := N }.entries = t.entries :=
    hcontents
  refine ⟨h.wellFormed.moved hpow hbytes hplaced hcontents, rfl, ?_, ?_⟩
  · rw [hentries]
    exact h.hashes
  · rw [hentries]
    exact h.pairs

theorem fresh {capacity : UInt64} (hpow : capacity.toNat.isPowerOfTwo)
    (hbytes : capacity.toNat * SIZEOF_BUCKET < 2 ^ 64) :
    Represents (Hashtable.fresh capacity) ⟨∅, capacity⟩ := by
  refine ⟨wellFormed_fresh hpow hbytes, rfl, ?_, ?_⟩
  · rw [entries_fresh]
    exact fun slot hslot => absurd hslot (Multiset.notMem_zero slot)
  · rw [entries_fresh]
    rfl

/-! ### Outcomes in terms of the map -/

variable {env : Env (Event DataEntry)} {t' : Hashtable DataEntry} {code : ℤ}
  {ds : List (Block DataEntry)} {b : Block DataEntry} {d : Bool}

private theorem not_lock (henv : env.Succeeds) {log : List (Event DataEntry)} {i : ℕ}
    (h : env.lock log i = false) : False := by
  rw [henv.lock] at h
  exact Bool.false_ne_true h.symm

theorem set_outcome (h : Represents t s) (henv : env.Succeeds) (hkey : KeyAdmitted key)
    (hout : Outcome env t (.set key (some b) d) code t' ds) :
    ∃ s', Represents t' s' ∧ Answers (¬(key ∉ s.map ∧ s.crowd key = 8)) (code = 0) s
      (s.insert key b.val.data) s' := by
  cases hout with
  | refused hrefusal =>
    refine ⟨s, h, fun haccept => ?_, fun _ => ⟨hrefusal.code_ne_zero, rfl⟩⟩
    cases hrefusal with
    | lock _ _ hlock => exact (not_lock henv hlock).elim
    | setKeyTooLong hlen => exact absurd hkey.ustrlen_lt (not_lt.mpr hlen)
    | setFull hmiss hfull =>
      exact absurd ⟨(h.missing_iff hkey).mp hmiss, (h.full_iff key).mp hfull⟩ haccept
  | read hread => exact absurd hread Bool.false_ne_true
  | setFound _ hfound =>
    refine ⟨_, h.overwrite hkey hfound b, fun _ => ⟨rfl, rfl⟩, fun hrefuse => ?_⟩
    exact absurd (h.mem_of_found hkey hfound) (not_not.mp hrefuse).1
  | setInserted _ hmiss hfree =>
    refine ⟨_, h.insertAt hkey hmiss hfree b, fun _ => ⟨rfl, rfl⟩, fun hrefuse => ?_⟩
    have hfull := (h.full_iff key).mpr (not_not.mp hrefuse).2
    exact absurd (hfull _) (Bool.eq_false_iff.mp hfree)

theorem add_outcome (h : Represents t s) (henv : env.Succeeds) (hkey : KeyAdmitted key)
    (hout : Outcome env t (.add key (some b)) code t' ds) :
    ∃ s', Represents t' s' ∧ Answers (¬(key ∈ s.map ∨ s.crowd key = 8)) (code = 0) s
      (s.insert key b.val.data) s' := by
  cases hout with
  | refused hrefusal =>
    refine ⟨s, h, fun haccept => ?_, fun _ => ⟨hrefusal.code_ne_zero, rfl⟩⟩
    cases hrefusal with
    | lock _ _ hlock => exact (not_lock henv hlock).elim
    | addFound hfound => exact absurd (.inl (h.mem_of_found hkey hfound)) haccept
    | addFull _ hfull => exact absurd (.inr ((h.full_iff key).mp hfull)) haccept
  | read hread => exact absurd hread Bool.false_ne_true
  | addInserted hmiss hfree =>
    refine ⟨_, h.insertAt hkey hmiss hfree b, fun _ => ⟨rfl, rfl⟩, fun hrefuse => ?_⟩
    rcases not_not.mp hrefuse with hmem | hcrowd
    · exact absurd hmem ((h.missing_iff hkey).mp hmiss)
    · exact absurd ((h.full_iff key).mpr hcrowd _) (Bool.eq_false_iff.mp hfree)

theorem replace_outcome (h : Represents t s) (henv : env.Succeeds) (hkey : KeyAdmitted key)
    (hout : Outcome env t (.replace key (some b) d) code t' ds) :
    ∃ s', Represents t' s' ∧
      Answers (key ∈ s.map) (code = 0) s (s.insert key b.val.data) s' := by
  cases hout with
  | refused hrefusal =>
    refine ⟨s, h, fun haccept => ?_, fun _ => ⟨hrefusal.code_ne_zero, rfl⟩⟩
    cases hrefusal with
    | lock _ _ hlock => exact (not_lock henv hlock).elim
    | replaceMissing hmiss => exact absurd haccept ((h.missing_iff hkey).mp hmiss)
  | read hread => exact absurd hread Bool.false_ne_true
  | replaced hfound =>
    exact ⟨_, h.overwrite hkey hfound b, fun _ => ⟨rfl, rfl⟩,
      fun hrefuse => absurd (h.mem_of_found hkey hfound) hrefuse⟩

theorem delete_outcome (h : Represents t s) (henv : env.Succeeds) (hkey : KeyAdmitted key)
    (hout : Outcome env t (.delete key d) code t' ds) :
    ∃ s', Represents t' s' ∧ Answers (key ∈ s.map) (code = 0) s (s.erase key) s' := by
  cases hout with
  | refused hrefusal =>
    refine ⟨s, h, fun haccept => ?_, fun _ => ⟨hrefusal.code_ne_zero, rfl⟩⟩
    cases hrefusal with
    | lock _ _ hlock => exact (not_lock henv hlock).elim
    | deleteMissing hmiss => exact absurd haccept ((h.missing_iff hkey).mp hmiss)
  | read hread => exact absurd hread Bool.false_ne_true
  | deleted hfound =>
    exact ⟨_, h.removeAt hkey hfound, fun _ => ⟨rfl, rfl⟩,
      fun hrefuse => absurd (h.mem_of_found hkey hfound) hrefuse⟩

theorem clear_outcome (h : Represents t s) (henv : env.Succeeds)
    (hout : Outcome env t (.clear d) code t' ds) :
    ∃ s', Represents t' s' ∧ code = 0 ∧ s' = { s with map := ∅ } := by
  cases hout with
  | refused hrefusal =>
    cases hrefusal with
    | lock _ _ hlock => exact (not_lock henv hlock).elim
  | read hread => exact absurd hread Bool.false_ne_true
  | cleared hbuckets _ => exact ⟨_, h.cleared hbuckets, rfl, rfl⟩

theorem resize_outcome (h : Represents t s) {N : UInt64} (hmax : N.toNat ≤ 2 ^ 63)
    (hout : Outcome env t (.resize N) code t' ds) :
    ∃ s', Represents t' s' ∧ Resized N.toNat s (code = 0) s' := by
  cases hout with
  | refused hrefusal => exact ⟨s, h, rfl, .inr ⟨hrefusal.code_ne_zero, rfl⟩⟩
  | read hread => exact absurd hread Bool.false_ne_true
  | sameSize hN hsame =>
    have hround := roundCapacity_spec hN hmax
    rw [hsame, h.bucketsCount] at hround
    exact ⟨s, h, rfl, .inl ⟨rfl, hround⟩⟩
  | moved hN _ _ hbytes hmoved =>
    have hround := roundCapacity_spec hN hmax
    obtain ⟨hplaced, hcontents⟩ := hmoved (isPowerOfTwo_pos hround.1)
    exact ⟨_, h.moved hround.1 hbytes hplaced hcontents, rfl, .inl ⟨rfl, hround⟩⟩

end Represents

/-! ### Commands -/

section Commands

variable {env : Env (Event DataEntry)} {t : Hashtable DataEntry} {s : MapState}
  {log : List (Event DataEntry)}

/-- A write refines the map when every outcome of its call does. -/
private theorem refines_of_reports {call : TableCall DataEntry}
    {op : Action (ExecuteResult × Hashtable DataEntry)}
    (hop : op.Ensures log fun r _ => Reports env t call r) {C : Prop → MapState → Prop}
    (hout : ∀ code t' ds, Outcome env t call code t' ds →
      ∃ s', Represents t' s' ∧ C (code = 0) s') :
    op.Ensures log fun r _ => ∃ s', C (r.1.statusCode = 200) s' ∧ Represents r.2 s' := by
  refine hop.mono ?_
  rintro r _ ⟨code, ds, houtcome, hstatus⟩
  obtain ⟨s', hrep, hC⟩ := hout code _ ds houtcome
  exact ⟨s', propext hstatus ▸ hC, hrep⟩

variable (h : Represents t s) (henv : env.Succeeds) {key : List UInt8} (hkey : KeyAdmitted key)

include henv hkey

/-- The writes of a value: `SET`, `ADD` and `REPLACE` differ in the call that they make. -/
private theorem execute_store (c : Store) (value : List UInt8) (C : Prop → MapState → Prop)
    (hout : ∀ b code t' ds, b.val.data = value → Outcome env t (c.call key (some b)) code t' ds →
      ∃ s', Represents t' s' ∧ C (code = 0) s') :
    (Request.execute env t ⟨c.command.name, 2, [key, value], [key.length, value.length]⟩).Ensures
      log fun r _ => ∃ s', C (r.1.statusCode = 200) s' ∧ Represents r.2 s' := by
  have hgranted : ¬Request.ValueRefused env log
      ⟨c.command.name, 2, [key, value], [key.length, value.length]⟩ := by
    rintro (hinvalid | hdenied)
    · exact absurd hkey.valid (Bool.eq_false_iff.mp hinvalid)
    · exact Bool.false_ne_true (hdenied.symm.trans (henv.alloc _ _))
  have hdata : memcpy value value.length = value := List.take_left' rfl
  have hcalled := (c.execute_called (t := t) c.find rfl hgranted).mono fun r _ hr => hr.1
  exact refines_of_reports hcalled fun code t' ds => hout _ code t' ds hdata

include h

theorem execute_set (value : List UInt8) :
    ((MapCommand.set key value).toRequest.execute env t).Ensures log fun r _ =>
      ∃ s', MapStep s (.set key value) r.1 s' ∧ Represents r.2 s' :=
  execute_store henv hkey .SET value
    (fun succeeds s' => Answers (¬(key ∉ s.map ∧ s.crowd key = 8)) succeeds s
      (s.insert key value) s')
    (fun _ _ _ _ hdata hout => hdata ▸ h.set_outcome henv hkey hout)

theorem execute_add (value : List UInt8) :
    ((MapCommand.add key value).toRequest.execute env t).Ensures log fun r _ =>
      ∃ s', MapStep s (.add key value) r.1 s' ∧ Represents r.2 s' :=
  execute_store henv hkey .ADD value
    (fun succeeds s' => Answers (¬(key ∈ s.map ∨ s.crowd key = 8)) succeeds s
      (s.insert key value) s')
    (fun _ _ _ _ hdata hout => hdata ▸ h.add_outcome henv hkey hout)

theorem execute_replace (value : List UInt8) :
    ((MapCommand.replace key value).toRequest.execute env t).Ensures log fun r _ =>
      ∃ s', MapStep s (.replace key value) r.1 s' ∧ Represents r.2 s' :=
  execute_store henv hkey .REPLACE value
    (fun succeeds s' => Answers (key ∈ s.map) succeeds s (s.insert key value) s')
    (fun _ _ _ _ hdata hout => hdata ▸ h.replace_outcome henv hkey hout)

theorem execute_del : ((MapCommand.del key).toRequest.execute env t).Ensures log fun r _ =>
    ∃ s', MapStep s (.del key) r.1 s' ∧ Represents r.2 s' :=
  refines_of_reports (execute_del_reports env t (MapCommand.del key).toRequest log rfl rfl
    hkey.valid) (C := fun succeeds s' => Answers (key ∈ s.map) succeeds s (s.erase key) s')
    fun _ _ _ hout => h.delete_outcome henv hkey hout

theorem execute_get : ((MapCommand.get key).toRequest.execute env t).Ensures log fun r _ =>
    ∃ s', MapStep s (.get key) r.1 s' ∧ Represents r.2 s' := by
  refine (execute_get_answer env t (MapCommand.get key).toRequest log henv rfl hkey.valid rfl).mono
    ?_
  rintro ⟨r, t'⟩ _ ⟨rfl, v, ⟨j, hfound, rfl⟩ | ⟨hmiss, rfl⟩, hr⟩
  · obtain ⟨b, hb, hlookup⟩ := h.lookup_of_found hkey hfound
    have hslot : (t'.slotAt (arg (MapCommand.get key).toRequest.argv 0) j).value = some b := hb
    rw [hslot] at hr
    refine ⟨s, ⟨rfl, ?_⟩, h⟩
    rw [hlookup]
    exact hr
  · refine ⟨s, ⟨rfl, ?_⟩, h⟩
    rw [Finmap.lookup_eq_none.mpr ((h.missing_iff hkey).mp hmiss)]
    exact hr

theorem execute_exist : ((MapCommand.exist key).toRequest.execute env t).Ensures log fun r _ =>
    ∃ s', MapStep s (.exist key) r.1 s' ∧ Represents r.2 s' := by
  refine (execute_exist_answer env t (MapCommand.exist key).toRequest log henv rfl hkey.valid
    rfl).mono ?_
  rintro ⟨r, t'⟩ _ ⟨rfl, hstatus, found, hfound, hanswer⟩
  have hmem : found = true ↔ key ∈ s.map := by
    rw [hfound, ← not_not (a := key ∈ s.map), ← h.missing_iff hkey]
    rfl
  refine ⟨s, ⟨rfl, hstatus, ?_⟩, h⟩
  cases found with
  | true => rw [if_pos (hmem.mp rfl)]; exact hanswer
  | false => rw [if_neg fun hin => Bool.false_ne_true (hmem.mpr hin)]; exact hanswer

omit hkey in
theorem execute_clear : (MapCommand.clear.toRequest.execute env t).Ensures log fun r _ =>
    ∃ s', MapStep s .clear r.1 s' ∧ Represents r.2 s' :=
  refines_of_reports (execute_reports MapCommand.clear.toRequest
      ⟨bytes "CLEAR", .CLEAR, cmdClear, 0⟩ rfl rfl (P := fun _ => True) ⟨_, rfl, trivial⟩
      (.clear true) .clear (fun _ => tableClear env t true) (fun _ _ => rfl)
      (fun _ _ => tableClear_spec env t true) (fun _ => ⟨trivial, Iff.rfl⟩))
    (C := fun succeeds s' => succeeds ∧ s' = { s with map := ∅ })
    fun _ _ _ hout => h.clear_outcome henv hout

omit henv hkey in
theorem execute_resize {numeral : List UInt8} (hnumeral : SizeNumeral numeral) :
    ((MapCommand.resize numeral).toRequest.execute env t).Ensures log fun r _ =>
      ∃ s', MapStep s (.resize numeral) r.1 s' ∧ Represents r.2 s' := by
  have hmax : digitsValue numeral ≤ ULONG_MAX := hnumeral.le.trans (by decide)
  have hsize : (UInt64.ofNat (digitsValue numeral)).toNat = digitsValue numeral :=
    UInt64.toNat_ofNat_of_lt' (hnumeral.le.trans_lt (by decide))
  have hparse := strtoul_digits hnumeral.ne_nil hnumeral.digits hmax
  have hpos : UInt64.ofNat (digitsValue numeral) ≠ 0 := by
    intro hzero
    rw [← UInt64.toNat_inj, hsize] at hzero
    exact absurd hzero hnumeral.pos.ne'
  refine refines_of_reports (execute_reports (MapCommand.resize numeral).toRequest
      ⟨bytes "RESIZE", .RESIZE, cmdResize, 1⟩ rfl rfl
      (P := fun input => input.newSize = UInt64.ofNat (digitsValue numeral)) ?_
      (.resize (UInt64.ofNat (digitsValue numeral)))
      (fun code => if code ≠ 0 then .error else .resize 0)
      (fun input => tableResize env t input.newSize) ?_ ?_
      (report_error (.resize 0) trivial rfl))
    (C := fun succeeds s' => Resized (digitsValue numeral) s succeeds s') ?_
  · refine Traced.ensures_ite (fun hbad => ?_) fun _ => ?_
    · have hend : (strtoul numeral).2 = [] := by rw [hparse]
      rcases hbad with hlen | hrest
      · exact absurd (List.length_eq_zero_iff.mp (hlen.symm.trans (congrArg _ hend)))
          hnumeral.ne_nil
      · exact absurd (congrArg (fun l => List.headD l 0) hend) hrest
    · exact ⟨_, rfl, congrArg Prod.fst hparse⟩
  · exact fun input hinput => if_neg (hinput ▸ hpos)
  · exact fun input hinput => hinput ▸ tableResize_spec env t input.newSize
  · intro code t' ds hout
    have hresized := h.resize_outcome (hsize.trans_le hnumeral.le) hout
    rwa [hsize] at hresized

omit hkey in
/-- **One command.** Its execution on a table that represents a state is a step of the abstract
database, and the table afterwards represents the state afterwards. -/
theorem execute_refines {cmd : MapCommand} (hcmd : cmd.Valid) :
    (cmd.toRequest.execute env t).Ensures log fun r _ =>
      ∃ s', MapStep s cmd r.1 s' ∧ Represents r.2 s' := by
  cases cmd with
  | set key value => exact execute_set h henv hcmd value
  | add key value => exact execute_add h henv hcmd value
  | replace key value => exact execute_replace h henv hcmd value
  | get key => exact execute_get h henv hcmd
  | del key => exact execute_del h henv hcmd
  | exist key => exact execute_exist h henv hcmd
  | clear => exact execute_clear h henv
  | resize numeral => exact execute_resize h hcmd

end Commands

/-! ### Runs -/

/-- A run of commands on a created table, in an environment where nothing fails, answers as a run of
the abstract database from the empty map, and the table at its end represents the state at its end.
What its locks do to the memory behind the array is not considered. -/
theorem runDatabase_simulates (env : Env (Event DataEntry)) (henv : env.Succeeds) (n₀ : UInt64)
    (hn₀ : n₀.toNat ≤ 2 ^ 63) (cmds : List MapCommand) (hcmds : ∀ cmd ∈ cmds, cmd.Valid)
    (log : List (Event DataEntry)) (rs : List ExecuteResult) (t : Hashtable DataEntry)
    (hrun : ((runDatabase env n₀ (cmds.map MapCommand.toRequest)).run log).1 = some (rs, t)) :
    ∃ s, Traced.Runs MapStep ⟨∅, roundCapacity n₀⟩ cmds rs s ∧ Represents t s := by
  obtain ⟨t₀, hcreated, hvalue, -⟩ := runDatabase_run hrun
  obtain ⟨hpos, rfl, hbytes⟩ := (tableCreate_spec env n₀ log).2 t₀ hcreated
  have hfresh : Represents (fresh (roundCapacity n₀)) ⟨∅, roundCapacity n₀⟩ :=
    Represents.fresh (roundCapacity_spec hpos hn₀).1 hbytes
  have hsim := Traced.runOutputs_simulates
    (fun t (cmd : MapCommand) => cmd.toRequest.execute env t) MapStep Represents cmds
    (fun cmd hmem _ _ _ h => execute_refines h henv (hcmds cmd hmem))
    _ (((tableCreate env n₀).run log).2 ++ log) _ hfresh
  rwa [← Traced.runOutputs_map, hvalue] at hsim

/-- A run of commands answers as the finite map does, and uses no lock behind the array, where the
memory of other parts of the program would be changed. -/
def RefinesMap (env : Env (Event DataEntry)) (n₀ : UInt64) (cmds : List MapCommand)
    (log : List (Event DataEntry)) (rs : List ExecuteResult) (t : Hashtable DataEntry) : Prop :=
  (∃ s, Traced.Runs MapStep ⟨∅, roundCapacity n₀⟩ cmds rs s ∧ Represents t s) ∧
    LocksInside t.lockCount.toNat
      ((runDatabase env n₀ (cmds.map MapCommand.toRequest)).run log).2

/-- **The database refines the finite map.** A run of commands on a created table, in an environment
where nothing fails, answers as a run of the abstract database from the empty map, the table at its
end represents the state at its end, and no lock outside the array has been used, exactly when every
command finds its locks in the array. -/
theorem runDatabase_refines (env : Env (Event DataEntry)) (henv : env.Succeeds) (n₀ : UInt64)
    (hn₀ : n₀.toNat ≤ 2 ^ 63) (cmds : List MapCommand) (hcmds : ∀ cmd ∈ cmds, cmd.Valid)
    (log : List (Event DataEntry)) (rs : List ExecuteResult) (t : Hashtable DataEntry)
    (hrun : ((runDatabase env n₀ (cmds.map MapCommand.toRequest)).run log).1 = some (rs, t)) :
    RefinesMap env n₀ cmds log rs t ↔
      DatabaseGuarded env (Request.HasLocks env) n₀ (cmds.map MapCommand.toRequest) log := by
  rw [RefinesMap, and_iff_right (runDatabase_simulates env henv n₀ hn₀ cmds hcmds log rs t hrun)]
  exact runDatabase_locksInside_iff env n₀ _ log rs t hrun

/-- A command that asks for at most `n` buckets, if it is a resize. -/
def MapCommand.AtMost (n : ℕ) : MapCommand → Prop
  | .resize numeral => digitsValue numeral ≤ n
  | _ => True

/-- The number of buckets stays below a power of two that no resize exceeds. -/
theorem MapStep.bucketsCount_le {s s' : MapState} {cmd : MapCommand} {r : ExecuteResult} {L : ℕ}
    (h : MapStep s cmd r s') (hL : L.isPowerOfTwo) (hcmd : cmd.AtMost L)
    (hle : s.bucketsCount.toNat ≤ L) : s'.bucketsCount.toNat ≤ L := by
  have hanswers {accepted succeeds : Prop} {next : MapState}
      (h : Answers accepted succeeds s next s') (hnext : next.bucketsCount = s.bucketsCount) :
      s'.bucketsCount = s.bucketsCount := by
    by_cases haccepted : accepted
    · rw [(h.1 haccepted).2, hnext]
    · rw [(h.2 haccepted).2]
  cases cmd with
  | get key | exist key => exact h.1 ▸ hle
  | set key value | add key value | replace key value | del key =>
    rw [hanswers h rfl]
    exact hle
  | clear => exact h.2 ▸ hle
  | resize numeral =>
    obtain ⟨-, ⟨-, hpow, -, hlt⟩ | ⟨-, hsame⟩⟩ := h
    · exact le_of_lt_two_mul hpow hL (hlt.trans_le (Nat.mul_le_mul_left 2 hcmd))
    · exact hsame ▸ hle

/-- **Runs within the locks.** Where no resize asks for more buckets than the table was created
with, every command finds its locks in the array. -/
theorem databaseGuarded_of_atMost {env : Env (Event DataEntry)} (henv : env.Succeeds) {n₀ : UInt64}
    (hn₀ : n₀.toNat ≤ 2 ^ 63) {cmds : List MapCommand} (hcmds : ∀ cmd ∈ cmds, cmd.Valid)
    (hsizes : ∀ cmd ∈ cmds, cmd.AtMost (roundCapacity n₀).toNat) (log : List (Event DataEntry)) :
    DatabaseGuarded env (Request.HasLocks env) n₀ (cmds.map MapCommand.toRequest) log := by
  have hmapped : DatabaseGuarded env (fun _ _ req => ∃ cmd ∈ cmds, cmd.toRequest = req) n₀
      (cmds.map MapCommand.toRequest) log :=
    databaseGuarded_of_forall (fun req hreq _ _ => List.mem_map.mp hreq) n₀ log
  refine hmapped.imp (fun t => (roundCapacity n₀).toNat.isPowerOfTwo ∧
    t.lockCount = roundCapacity n₀ ∧ t.bucketsCount ≤ roundCapacity n₀ ∧ ∃ s, Represents t s)
      ?_ ?_ fun t ht => ?_
  · rintro t log _ ⟨cmd, hmem, rfl⟩ ⟨hpow, hlocks, hle, s, h⟩
    have hrefines : (cmd.toRequest.execute env t).Ensures log fun r _ =>
      ∃ s', MapStep s cmd r.1 s' ∧ Represents r.2 s' := execute_refines h henv (hcmds cmd hmem)
    obtain ⟨s', hstep, h'⟩ := hrefines
    rw [UInt64.le_iff_toNat_le, h.bucketsCount] at hle
    have hle' := hstep.bucketsCount_le hpow (hsizes cmd hmem) hle
    rw [← h'.bucketsCount, ← UInt64.le_iff_toNat_le] at hle'
    exact ⟨hpow, (execute_lockCount env t log cmd.toRequest).trans hlocks, hle', s', h'⟩
  · rintro t log _ ⟨cmd, hmem, rfl⟩ ⟨-, hlocks, hle, s, h⟩
    exact cmd.toRequest.hasLocks_of_le h.wellFormed.bucketsCount_ne_zero (hlocks ▸ hle)
  · obtain ⟨hpos, rfl, hbytes⟩ := (tableCreate_spec env n₀ log).2 t ht
    have hpow := (roundCapacity_spec hpos hn₀).1
    exact ⟨hpow, rfl, UInt64.le_refl _, _, Represents.fresh hpow hbytes⟩

/-- A run with a value that contains a `NUL`, a resize within the locks, and the deletion of the
key. -/
theorem runDatabase_refines_sample :
    ∃ rs t, ((runDatabase Env.granting 2 ([.set (bytes "k") [0, 65], .resize (bytes "1"),
        .get (bytes "k"), .resize (bytes "2"), .del (bytes "k")].map MapCommand.toRequest)).run
          []).1 = some (rs, t) ∧
      RefinesMap Env.granting 2 [.set (bytes "k") [0, 65], .resize (bytes "1"),
        .get (bytes "k"), .resize (bytes "2"), .del (bytes "k")] [] rs t := by
  have hsome : ((runDatabase Env.granting 2 ([.set (bytes "k") [0, 65], .resize (bytes "1"),
      .get (bytes "k"), .resize (bytes "2"), .del (bytes "k")].map MapCommand.toRequest)).run
        []).1.isSome := by
    decide +kernel
  obtain ⟨⟨rs, t⟩, hrun⟩ := Option.isSome_iff_exists.mp hsome
  have hkey : KeyAdmitted (bytes "k") := ⟨by decide, by decide, by decide⟩
  have hone : SizeNumeral (bytes "1") :=
    ⟨by decide, by decide +kernel, by decide, by decide⟩
  have htwo : SizeNumeral (bytes "2") :=
    ⟨by decide, by decide +kernel, by decide, by decide⟩
  refine ⟨rs, t, hrun, (runDatabase_refines Env.granting Env.granting_succeeds 2 (by decide) _
    (by simpa using ⟨hkey, hone, hkey, htwo, hkey⟩) [] rs t hrun).mpr ?_⟩
  rintro u ⟨⟩
  decide +kernel

/-- A table of one bucket grows to two, and a key of the new bucket is written and another one read:
the lock of the new bucket lies behind the array, and the model does not say what the reads answer
then. -/
theorem grown_database_not_a_map :
    ∃ rs t, ((runDatabase Env.granting 1 ([.set (bytes "A") (bytes "hello"),
        .resize (bytes "2"), .set (bytes "B") (bytes "w"),
        .get (bytes "A")].map MapCommand.toRequest)).run []).1 = some (rs, t) ∧
      ¬RefinesMap Env.granting 1 [.set (bytes "A") (bytes "hello"), .resize (bytes "2"),
        .set (bytes "B") (bytes "w"), .get (bytes "A")] [] rs t := by
  have hcount : (((runDatabase Env.granting 1 ([.set (bytes "A") (bytes "hello"),
      .resize (bytes "2"), .set (bytes "B") (bytes "w"),
      .get (bytes "A")].map MapCommand.toRequest)).run []).1.map fun r => r.2.lockCount) =
        some 1 := by
    decide +kernel
  obtain ⟨⟨rs, t⟩, hrun, ht⟩ := Option.map_eq_some_iff.mp hcount
  refine ⟨rs, t, hrun, fun h => ?_⟩
  have hinside := h.2
  rw [show t.lockCount = 1 from ht] at hinside
  exact absurd hinside (by decide +kernel)

end SimpleCDatabase
