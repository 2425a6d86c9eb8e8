import SimpleCDatabase.Command.Counting
import SimpleCDatabase.Command.Lookup
import SimpleCDatabase.Command.MapModel
import SimpleCDatabase.Foundations.Mealy
import SimpleCDatabase.Foundations.Rounding

/-!
# The database as a machine

What the database is for, as a function: a command line, that is, a name with arguments of any
bytes, is answered with a status and a text, and leaves a state. The state is a finite map with a
number of buckets, as for the map alone; but every command is among the lines, with everything that
is answered to a line that is none, and every byte of an answer is determined. Names, keys, sizes
and subtypes end at their first `NUL`.

Three lines do what no map does, and are left out: `ADD` of a key that does not fit its array, which
is stored cut, `RESIZE` of the empty map beyond `2 ^ 63`, which leaves no bucket, and `RESIZE` to
more buckets than there are locks, after which commands lock memory behind the array of locks.

## Main definitions

* `Reply`, `Ask`, `decode`: the answers, and what a line asks for.
* `MapState.answer`: the machine.
* `MapState.Breaks`: the lines that are left out.
* `MapState.run`, `MapState.Unbroken`: its runs.

## Main results

* `MapState.bucketsCount_answer_le`: the machine keeps a lock for each bucket.
* `MapState.Bounded.answer`: the values of the machine are words of its lines.

## References

* `src/command.c`, `execute_command`, `build_command_data` and the command procedures.
-/

namespace SimpleCDatabase

open CString Hashtable

/-! ### Lines -/

/-- An answer: its status, and the text that is sent. -/
structure Reply where
  status : ℤ
  text : List UInt8
  deriving DecidableEq, Repr

namespace Reply

def ok : Reply := ⟨200, TCP_SUCCESS⟩
def unknown : Reply := ⟨404, bytes "Command not found"⟩
def miscounted : Reply := ⟨400, bytes "Incorrect number of arguments"⟩
def invalid : Reply := ⟨400, bytes "Invalid argument format"⟩
def absent : Reply := ⟨404, TCP_KEY_NOT_FOUND⟩
def refused : Reply := ⟨409, TCP_OPERATION_FAILED⟩
def internal : Reply := ⟨500, TCP_INTERNAL_ERROR⟩

end Reply

/-- What a line asks for. -/
inductive Ask where
  | get (key : List UInt8)
  | exist (key : List UInt8)
  | write (w : Write) (key value : List UInt8) (size : UInt64)
  | loadFactor
  | count (type : CmdCount)

/-- A command on a key, which must not be empty. -/
def keyed (key : List UInt8) (ask : Ask) : Except Reply Ask :=
  if key = [] then .error .invalid else .ok ask

/-- What the arguments of a command ask for. -/
def decodeArgs (tag : CmdFunctionType) (args : List (List UInt8)) : Except Reply Ask :=
  let key := cstr (arg args 0)
  match tag with
  | .GET => keyed key (.get key)
  | .EXIST => keyed key (.exist key)
  | .SET => keyed key (.write .SET key (arg args 1) 0)
  | .ADD => keyed key (.write .ADD key (arg args 1) 0)
  | .REPLACE => keyed key (.write .REPLACE key (arg args 1) 0)
  | .DEL => keyed key (.write .DEL key [] 0)
  | .RESIZE =>
    let (size, rest) := strtoul key
    if rest.length = key.length ∨ rest ≠ [] then .error .invalid
    else .ok (.write .RESIZE [] [] size)
  | .CLEAR => .ok (.write .CLEAR [] [] 0)
  | .LOADFACTOR => .ok .loadFactor
  | .COUNT =>
    match stocmdcount key with
    | none => .error .invalid
    | some type => .ok (.count type)
  | .ERROR | .EMPTY => .error .invalid

/-- What a line asks for: its first word is the name of a command, found by a scan of the table. -/
def decode (line : List (List UInt8)) : Except Reply Ask :=
  match commandTable.find? fun cmd => cmd.name = cstr (line.headD []) with
  | none => .error .unknown
  | some cmd =>
    if cmd.arity ≠ (line.length - 1 : ℕ) then .error .miscounted
    else decodeArgs cmd.tag line.tail

theorem keyed_eq_ok {key : List UInt8} {ask ask' : Ask} (h : keyed key ask = .ok ask') :
    ask = ask' := by
  rw [keyed] at h
  split at h
  · cases h
  · exact Except.ok.inj h

/-- The value that is to be written is the second argument, or none is. -/
theorem value_of_decodeArgs {tag : CmdFunctionType} {args : List (List UInt8)} {w : Write}
    {key value : List UInt8} {size : UInt64}
    (h : decodeArgs tag args = .ok (.write w key value size)) :
    value = arg args 1 ∨ value = [] := by
  cases tag with
  | SET | ADD | REPLACE =>
    cases keyed_eq_ok h
    exact .inl rfl
  | DEL =>
    cases keyed_eq_ok h
    exact .inr rfl
  | GET | EXIST => cases keyed_eq_ok h
  | RESIZE =>
    simp only [decodeArgs] at h
    split at h <;> cases h
    exact .inr rfl
  | CLEAR =>
    cases h
    exact .inr rfl
  | COUNT =>
    simp only [decodeArgs] at h
    split at h <;> cases h
  | LOADFACTOR | ERROR | EMPTY => cases h

/-- A line that asks for nothing is refused in one of three ways. -/
theorem decode_error {line : List (List UInt8)} {reply : Reply} (h : decode line = .error reply) :
    reply = .unknown ∨ reply = .miscounted ∨ reply = .invalid := by
  have hkeyed {key : List UInt8} {ask : Ask} (hk : keyed key ask = .error reply) :
      reply = .invalid := by
    rw [keyed] at hk
    split at hk <;> cases hk
    rfl
  rw [decode] at h
  split at h
  · exact .inl (Except.error.inj h).symm
  split at h
  · exact .inr (.inl (Except.error.inj h).symm)
  refine .inr (.inr ?_)
  rename_i cmd _ _
  cases htag : cmd.tag with
  | SET | ADD | REPLACE | DEL | GET | EXIST =>
    rw [htag] at h
    exact hkeyed h
  | RESIZE | COUNT =>
    simp only [htag, decodeArgs] at h
    split at h <;> cases h
    rfl
  | CLEAR | LOADFACTOR | ERROR | EMPTY =>
    rw [htag] at h
    cases h <;> rfl

theorem length_arg_le {args : List (List UInt8)} {B : ℕ} (h : ∀ word ∈ args, word.length ≤ B)
    (i : ℕ) : (arg args i).length ≤ B := by
  rw [arg, List.getD_eq_getElem?_getD]
  cases hword : args[i]? with
  | none => exact Nat.zero_le B
  | some word => exact h word (List.mem_of_getElem? hword)

/-- The value that is to be written is a word of the line, or none is. -/
theorem length_value_le {line : List (List UInt8)} {w : Write} {key value : List UInt8}
    {size : UInt64} {B : ℕ} (hline : ∀ word ∈ line, word.length ≤ B)
    (h : decode line = .ok (.write w key value size)) : value.length ≤ B := by
  rw [decode] at h
  split at h
  · cases h
  split at h
  · cases h
  obtain rfl | rfl := value_of_decodeArgs h
  · exact length_arg_le (fun word hword => hline word (List.mem_of_mem_tail hword)) 1
  · exact Nat.zero_le B

/-! ### Answers -/

namespace MapState

variable (s : MapState)

/-- The number of stored keys. -/
def count : ℕ := s.map.keys.card

/-- The number of buckets with a key. -/
def occupied : ℕ := (s.map.keys.image fun key => hash key &&& (s.bucketsCount - 1)).card

/-- The bytes of a database with the given number of locks. -/
def memory (locks : ℕ) : ℕ :=
  SIZEOF_HASHTABLE + s.bucketsCount.toNat * SIZEOF_BUCKET + locks * SIZEOF_RWLOCK +
    (s.map.entries.map fun e => SIZEOF_DATA_ENTRY + e.2.length).sum

/-- The part of the slots that is used. -/
def load : ℚ := s.count / (BUCKET_CAPACITY * s.bucketsCount.toNat : ℕ)

/-- The answer to `COUNT`. The part of the buckets that is occupied is answered with the bits of
its representation. -/
def measured (locks : ℕ) : CmdCount → List UInt8
  | .CAPACITY => decimal (BUCKET_CAPACITY * s.bucketsCount.toNat)
  | .MEMORY_USAGE => decimal (s.memory locks % 2 ^ 64)
  | .TOTAL_ELEM => decimal s.count
  | .OCCUPIED_BUCKET => decimal (Double.bits (s.occupied / s.bucketsCount.toNat)).toNat

/-- Every key finds room among `N` buckets. -/
def Fits (N : UInt64) : Prop :=
  ∀ key ∈ s.map.keys,
    (s.map.keys.filter fun k => hash k % N = hash key % N).card ≤ BUCKET_CAPACITY

instance (N : UInt64) : Decidable (s.Fits N) :=
  inferInstanceAs (Decidable (∀ key ∈ s.map.keys, _ ≤ BUCKET_CAPACITY))

/-- The state after a resize, unless it is refused. -/
def resized (size : UInt64) : Option MapState :=
  let n := roundCapacity size
  if size = 0 then none
  else if n = s.bucketsCount then some s
  else if n.toNat * SIZEOF_BUCKET < 2 ^ 64 ∧ s.count ≤ n.toNat ∧ s.Fits n then
    some { s with bucketsCount := n }
  else none

/-- The state after a write, unless it is refused. -/
def written (key value : List UInt8) (size : UInt64) : Write → Option MapState
  | .SET =>
    if key.length < KEY_MAX_LEN ∧ ¬(key ∉ s.map ∧ s.crowd key = BUCKET_CAPACITY) then
      some (s.insert key value)
    else none
  | .ADD =>
    if key ∉ s.map ∧ s.crowd key ≠ BUCKET_CAPACITY then some (s.insert key value) else none
  | .REPLACE => if key ∈ s.map then some (s.insert key value) else none
  | .DEL => if key ∈ s.map then some (s.erase key) else none
  | .CLEAR => some { s with map := ∅ }
  | .RESIZE => s.resized size

/-- What is answered, and the state that is left. -/
def reply (locks : ℕ) : Ask → Reply × MapState
  | .get key => (match s.map.lookup key with | some value => ⟨200, value⟩ | none => .absent, s)
  | .exist key => (⟨200, if key ∈ s.map then TCP_TRUE else TCP_FALSE⟩, s)
  | .write w key value size =>
    match s.written key value size w with
    | some next => (.ok, next)
    | none => (if w.HandsOn then .refused else .internal, s)
  | .loadFactor => (⟨200, Double.fixed 4 (Double.round s.load)⟩, s)
  | .count type => (⟨200, s.measured locks type⟩, s)

/-- **The machine.** The answer to a line, and the state that it leaves. -/
def answer (locks : ℕ) (line : List (List UInt8)) : Reply × MapState :=
  match decode line with
  | .error reply => (reply, s)
  | .ok ask => s.reply locks ask

/-- A request that does what no map does: an `ADD` that stores a key cut, or a `RESIZE` that leaves
no bucket, or more buckets than there are locks. -/
def AskBreaks (locks : ℕ) : Ask → Prop
  | .write .ADD key _ _ => KEY_MAX_LEN ≤ key.length ∧ s.crowd key ≠ BUCKET_CAPACITY
  | .write .RESIZE _ _ size => (2 ^ 63 < size.toNat ∧ s.map = ∅) ∨
      ∃ next ∈ s.resized size, locks < next.bucketsCount.toNat
  | _ => False

instance (locks : ℕ) : DecidablePred (s.AskBreaks locks)
  | .write .ADD key _ _ =>
    inferInstanceAs (Decidable (KEY_MAX_LEN ≤ key.length ∧ s.crowd key ≠ BUCKET_CAPACITY))
  | .write .RESIZE _ _ size => inferInstanceAs (Decidable ((2 ^ 63 < size.toNat ∧ s.map = ∅) ∨
      ∃ next ∈ s.resized size, locks < next.bucketsCount.toNat))
  | .get _ | .exist _ | .loadFactor | .count _ => inferInstanceAs (Decidable False)
  | .write .SET .. | .write .REPLACE .. | .write .DEL .. | .write .CLEAR .. =>
    inferInstanceAs (Decidable False)

/-- The lines that are left out. -/
def Breaks (locks : ℕ) (line : List (List UInt8)) : Prop :=
  ∃ ask, decode line = .ok ask ∧ s.AskBreaks locks ask

instance (locks : ℕ) : DecidablePred (s.Breaks locks) := fun line =>
  match h : decode line with
  | .error _ => .isFalse fun ⟨_, hask, _⟩ => by rw [h] at hask; cases hask
  | .ok ask => decidable_of_iff (s.AskBreaks locks ask)
      ⟨fun hbreaks => ⟨ask, h, hbreaks⟩, fun ⟨_, hask, hbreaks⟩ =>
        Except.ok.inj (h.symm.trans hask) ▸ hbreaks⟩

/-- The answers of the machine to lines, one after the other, and the state that they leave. -/
def run (locks : ℕ) (lines : List (List (List UInt8))) : List Reply × MapState :=
  Mealy.run (answer · locks) s lines

/-- No line does what no map does, at the state in which it is read. -/
def Unbroken (locks : ℕ) (lines : List (List (List UInt8))) : Prop :=
  Mealy.Legal (answer · locks) (fun s line => ¬s.Breaks locks line) s lines

instance (locks : ℕ) : DecidablePred (s.Unbroken locks) := fun lines =>
  inferInstanceAs (Decidable (Mealy.Legal _ _ s lines))

/-! ### The number of buckets -/

/-- Only a resize changes the number of buckets. -/
theorem bucketsCount_written {w : Write} (hw : w ≠ .RESIZE) (s : MapState)
    (key value : List UInt8) (size : UInt64) :
    ∀ next ∈ s.written key value size w, next.bucketsCount = s.bucketsCount := by
  have hif {c : Prop} [Decidable c] {kept : MapState} (hkept : kept.bucketsCount = s.bucketsCount) :
      ∀ s' ∈ (if c then some kept else none), s'.bucketsCount = s.bucketsCount := by
    split
    · exact fun s' hs' => Option.some_inj.mp hs' ▸ hkept
    · exact fun s' hs' => nomatch hs'
  cases w with
  | SET | ADD | REPLACE | DEL => exact hif rfl
  | CLEAR => exact fun s' hs' => Option.some_inj.mp hs' ▸ rfl
  | RESIZE => exact absurd rfl hw

/-- **The machine keeps a lock for each bucket**, as long as no line does what no map does. -/
theorem bucketsCount_answer_le {s : MapState} {locks : ℕ} (h : s.bucketsCount.toNat ≤ locks)
    {line : List (List UInt8)} (hbreaks : ¬s.Breaks locks line) :
    (s.answer locks line).2.bucketsCount.toNat ≤ locks := by
  rw [MapState.answer]
  cases hdecode : decode line with
  | error reply => exact h
  | ok ask =>
    cases ask with
    | write w key value size =>
      change (s.reply locks (.write w key value size)).2.bucketsCount.toNat ≤ locks
      rw [MapState.reply]
      cases hnext : s.written key value size w with
      | none => exact h
      | some next =>
        by_cases hw : w = .RESIZE
        · subst hw
          exact not_lt.mp fun hlt => hbreaks ⟨_, hdecode, .inr ⟨next, hnext, hlt⟩⟩
        · have hkept := bucketsCount_written hw s key value size next hnext
          exact (congrArg UInt64.toNat hkept).trans_le h
    | _ => exact h

/-! ### The size of values -/

/-- No value is longer than `B`. -/
def Bounded (B : ℕ) : Prop := ∀ key value, s.map.lookup key = some value → value.length ≤ B

variable {s} {B : ℕ}

theorem bounded_empty (n : UInt64) : (⟨∅, n⟩ : MapState).Bounded B := by
  intro key value h
  rw [Finmap.lookup_empty] at h
  cases h

theorem Bounded.insert (h : s.Bounded B) {key value : List UInt8} (hvalue : value.length ≤ B) :
    (s.insert key value).Bounded B := by
  intro key' value' hlookup
  by_cases hkey : key' = key
  · rw [hkey, MapState.insert, Finmap.lookup_insert] at hlookup
    exact (Option.some_inj.mp hlookup) ▸ hvalue
  · rw [MapState.insert, Finmap.lookup_insert_of_ne _ hkey] at hlookup
    exact h key' value' hlookup

theorem Bounded.erase (h : s.Bounded B) (key : List UInt8) : (s.erase key).Bounded B := by
  intro key' value' hlookup
  by_cases hkey : key' = key
  · rw [hkey, MapState.erase, Finmap.lookup_erase] at hlookup
    cases hlookup
  · rw [MapState.erase, Finmap.lookup_erase_ne hkey] at hlookup
    exact h key' value' hlookup

theorem Bounded.written (h : s.Bounded B) {key value : List UInt8} (hvalue : value.length ≤ B)
    (size : UInt64) (w : Write) : ∀ next ∈ s.written key value size w, next.Bounded B := by
  have hif {c : Prop} [Decidable c] {next : MapState} (hnext : next.Bounded B) :
      ∀ s' ∈ (if c then some next else none), s'.Bounded B := by
    split
    · exact fun s' hs' => Option.some_inj.mp hs' ▸ hnext
    · exact fun s' hs' => nomatch hs'
  cases w with
  | SET | ADD | REPLACE => exact hif (h.insert hvalue)
  | DEL => exact hif (h.erase key)
  | CLEAR => exact fun s' hs' => Option.some_inj.mp hs' ▸ bounded_empty s.bucketsCount
  | RESIZE =>
    rw [MapState.written, MapState.resized]
    split
    · exact fun s' hs' => nomatch hs'
    split
    · exact fun s' hs' => Option.some_inj.mp hs' ▸ h
    · exact hif h

/-- **The values of the machine are words of its lines.** -/
theorem Bounded.answer (h : s.Bounded B) (locks : ℕ) {line : List (List UInt8)}
    (hline : ∀ word ∈ line, word.length ≤ B) : (s.answer locks line).2.Bounded B := by
  rw [MapState.answer]
  cases hdecode : decode line with
  | error reply => exact h
  | ok ask =>
    cases ask with
    | write w key value size =>
      change (s.reply locks (.write w key value size)).2.Bounded B
      rw [MapState.reply]
      cases hnext : s.written key value size w with
      | none => exact h
      | some next => exact h.written (length_value_le hline hdecode) size w next hnext
    | _ => exact h

end MapState

/-- The words of a client at the server in the empty state: a name that is none, a wrong number of
arguments, a missing key, a measurement. -/
example :
    ((⟨∅, 4⟩ : MapState).answer 4 [bytes "get", bytes "k"]).1 = .unknown ∧
      ((⟨∅, 4⟩ : MapState).answer 4 [bytes "GET"]).1 = .miscounted ∧
      ((⟨∅, 4⟩ : MapState).answer 4 [bytes "GET", [0, 65]]).1 = .invalid ∧
      ((⟨∅, 4⟩ : MapState).answer 4 [bytes "COUNT", bytes "CAPACITY"]).1 = ⟨200, bytes "32"⟩ := by
  decide +kernel

end SimpleCDatabase
