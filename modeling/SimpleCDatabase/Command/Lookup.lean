import SimpleCDatabase.Command.Basic

/-!
# Lookup of commands

`bsearch` over the command table agrees with a scan from its start. The array has a sentinel
after its entries, whose name is `NULL`; the search with a record of the elements that it
compares shows that the sentinel is never one of them.

## Main definitions

* `commandArray`, `registryCount`: the array of commands with its sentinel, and the number of
  elements that the registry has.

## Main results

* `findCommandProbes_ensures`: the lookup compares entries only.
* `findCommandIndex_agrees`: the lookup is a linear scan, and stays before the sentinel.

## References

* `src/command.c`, `find_command_index`, `registry_create`.
-/

namespace SimpleCDatabase

open CString

/-! ### The command table -/

/-- The array of commands; the sentinel after the entries has no name.

Source: `command.c`, `command_table`. -/
def commandArray : List (Option Command) := commandTable.map some ++ [none]

/-- The number of commands of the registry.

Source: `command.c`, `registry_create`. -/
def registryCount : ℕ := commandArray.length - 1

/-- The comparison with an element of the array; there is nothing to compare with at the
sentinel, and zero stands for whatever `strcmp` does there. -/
def compareElement (commandName : List UInt8) : Option Command → ℤ
  | some cmd => compareCommandNames commandName cmd
  | none => 0

/-- `find_command_index` on the registry, with a record of the entries that it compares. -/
def findCommandProbes (commandName : List UInt8) : Traced ℕ (Option ℕ) :=
  bsearchProbes (compareElement commandName) commandArray registryCount 0 registryCount

/-- The names of the table are in the lexicographic order. -/
theorem commandTable_names_sorted :
    commandTable.Pairwise fun a b => cstr a.name < cstr b.name := by
  decide

theorem sortedBy_commandTable (commandName : List UInt8) :
    SortedBy (compareCommandNames commandName) commandTable := by
  refine commandTable_names_sorted.imp fun {a b} hab hle => ?_
  rw [compareCommandNames, strcmp_neg_iff]
  obtain hlt | heq := Int.le_iff_lt_or_eq.mp hle
  · exact List.lt_trans ((strcmp_neg_iff _ _).mp hlt) hab
  · rwa [(strcmp_eq_zero_iff _ _).mp heq]

/-- The names of the table have no `NUL`. -/
theorem cstr_name : ∀ cmd ∈ commandTable, cstr cmd.name = cmd.name := by
  decide

/-- The lookup with a record of its comparisons is the lookup, and compares entries only. -/
theorem findCommandProbes_ensures (commandName : List UInt8) :
    (findCommandProbes commandName).Ensures [] fun r new =>
      r = findCommandIndex commandName ∧ ∀ i ∈ new, i < registryCount := by
  have hcount : registryCount = commandTable.length := rfl
  refine (bsearchProbes_ensures _ _ _ 0 registryCount []).mono fun r new ⟨hr, hnew⟩ =>
    ⟨?_, fun i hi => (hnew i hi).2⟩
  rw [hr, hcount, commandArray, bsearch_map_append some _ _ _ _ _ le_rfl]
  rfl

theorem findCommandIndex_eq_some_iff (commandName : List UInt8) (i : ℕ) :
    findCommandIndex commandName = some i ↔
      ∃ cmd, commandTable[i]? = some cmd ∧ cmd.name = cstr commandName := by
  rw [findCommandIndex, bsearch_eq_some_iff (sortedBy_commandTable commandName)
    (Nat.sub_zero _).le le_rfl]
  constructor
  · rintro ⟨-, -, cmd, hcmd, hzero⟩
    refine ⟨cmd, hcmd, ?_⟩
    rw [← cstr_name cmd (List.mem_of_getElem? hcmd), (strcmp_eq_zero_iff _ _).mp hzero]
  · rintro ⟨cmd, hcmd, hname⟩
    obtain ⟨hi, -⟩ := List.getElem?_eq_some_iff.mp hcmd
    refine ⟨Nat.zero_le i, hi, cmd, hcmd, (strcmp_eq_zero_iff _ _).mpr ?_⟩
    rw [cstr_name cmd (List.mem_of_getElem? hcmd), hname]

theorem findCommandIndex_eq_scan (commandName : List UInt8) :
    findCommandIndex commandName =
      commandTable.findIdx? fun cmd => cmd.name = cstr commandName := by
  refine Option.ext fun i => ?_
  rw [findCommandIndex_eq_some_iff, List.findIdx?_eq_some_iff_getElem]
  constructor
  · rintro ⟨cmd, hcmd, hname⟩
    obtain ⟨hi, rfl⟩ := List.getElem?_eq_some_iff.mp hcmd
    refine ⟨hi, decide_eq_true hname, fun j hj hj' => ?_⟩
    -- Another entry with the name would be found as well.
    have hfirst := (findCommandIndex_eq_some_iff commandName j).mpr
      ⟨_, List.getElem?_eq_getElem (hj.trans hi), of_decide_eq_true hj'⟩
    rw [(findCommandIndex_eq_some_iff commandName i).mpr ⟨_, hcmd, hname⟩] at hfirst
    exact hj.ne (Option.some_inj.mp hfirst).symm
  · rintro ⟨hi, hname, -⟩
    exact ⟨_, List.getElem?_eq_getElem hi, of_decide_eq_true hname⟩

/-- **The lookup agrees with a linear scan**: the index of the entry with the given name when
there is one, and none otherwise. The sentinel, at index 10, is never compared. -/
theorem findCommandIndex_agrees (commandName : List UInt8) :
    (∀ i, findCommandIndex commandName = some i ↔
      i < 10 ∧ ∃ cmd, commandTable[i]? = some cmd ∧ cmd.name = cstr commandName) ∧
    (findCommandIndex commandName = none ↔
      ∀ cmd ∈ commandTable, cmd.name ≠ cstr commandName) ∧
    findCommandIndex commandName =
      commandTable.findIdx? (fun cmd => cmd.name = cstr commandName) ∧
    (findCommandProbes commandName).Ensures [] fun r new =>
      r = findCommandIndex commandName ∧
        ∀ i ∈ new, i < 10 ∧ ∃ cmd, commandArray[i]? = some (some cmd) := by
  refine ⟨fun i => ?_, ?_, findCommandIndex_eq_scan commandName, ?_⟩
  · rw [findCommandIndex_eq_some_iff]
    refine ⟨fun ⟨cmd, hcmd, hname⟩ => ⟨?_, cmd, hcmd, hname⟩, fun h => h.2⟩
    exact (List.getElem?_eq_some_iff.mp hcmd).1
  · rw [findCommandIndex_eq_scan, List.findIdx?_eq_none_iff]
    simp only [decide_eq_false_iff_not, ne_eq]
  · refine (findCommandProbes_ensures commandName).mono fun r new ⟨hr, hnew⟩ =>
      ⟨hr, fun i hi => ?_⟩
    have hlt : i < commandTable.length := hnew i hi
    refine ⟨hlt, commandTable[i], ?_⟩
    rw [commandArray, List.getElem?_append_left (by rwa [List.length_map]), List.getElem?_map,
      List.getElem?_eq_getElem hlt]
    rfl

end SimpleCDatabase
