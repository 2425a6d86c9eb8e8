import Mathlib.Data.List.Induction
import Mathlib.Data.List.TakeWhile
import Mathlib.Data.Nat.Digits.Lemmas

/-!
# C strings and the number conversions of the C library

A pointer to bytes is the list of the bytes from there to the end of the memory it points into;
beyond the end of the list stands a NUL, the terminator of a C string. The string that the
pointer denotes ends at the first NUL (`CString.cstr`).

`CString.strtol` and `CString.strtoul` are the conversions of the C library in base ten and the
C locale: white space is skipped, one sign is read, then the digits; a number out of range is
replaced by the bound of the type, and an unsigned number with a minus sign is negated modulo
`2 ^ 64`. The end pointer is the list of the bytes that were not read.

## Main definitions

* `CString.cstr`, `CString.strcmp`, `CString.isspace`, `CString.isdigit`.
* `CString.scanNumeral`, `CString.strtol`, `CString.strtoul`.
* `CString.decimal`: the decimal numeral of a number.
* `CString.Numeral`: the grammar of the numerals that a conversion admits.

## Main results

* `CString.strcmp_eq_zero_iff`, `CString.strcmp_neg_iff`: `strcmp` is the lexicographic order.
* `CString.scanNumeral_append_cons`: a line with a byte that is not white space determines the
  number, whatever stands after the byte that ends it.
* `CString.scanNumeral_blank_append`: a line of white space does not.
* `CString.strtol_decimal`, `CString.strtoul_digits`: the number read from a numeral.
* `CString.scanNumeral_eq_some_iff`, `CString.scanNumeral_to_end_iff`: the grammar of what a
  conversion reads, also up to the terminator.
* `CString.strtol_append_outside`: a number out of bounds stays so when bytes follow the line,
  unless the line is white space, a plus and zeros.
-/

namespace CString

/-- The string at a pointer: the bytes before the first NUL. -/
def cstr (s : List UInt8) : List UInt8 := s.takeWhile (· ≠ 0)

theorem zero_notMem_cstr (s : List UInt8) : 0 ∉ cstr s := by
  intro h
  simpa using List.mem_takeWhile_imp h

theorem length_cstr_le (s : List UInt8) : (cstr s).length ≤ s.length :=
  (List.takeWhile_sublist _).length_le

theorem cstr_of_zero_notMem {s : List UInt8} (h : 0 ∉ s) : cstr s = s :=
  List.takeWhile_eq_self_iff.mpr fun c hc => by
    simpa using fun h0 : c = 0 => h (h0 ▸ hc)

theorem cstr_append_zero (s : List UInt8) : cstr (s ++ [0]) = cstr s := by
  induction s with
  | nil => rfl
  | cons c s ih =>
    simp only [cstr, List.cons_append, List.takeWhile_cons] at ih ⊢
    rw [ih]

/-- A copy of a string, with its terminator, denotes the same string. -/
theorem cstr_cstr_append_zero (s : List UInt8) : cstr (cstr s ++ [0]) = cstr s := by
  have hall : ∀ c ∈ cstr s, decide (c ≠ 0) = true := fun c hc =>
    decide_eq_true fun h => zero_notMem_cstr s (h ▸ hc)
  rw [cstr, List.takeWhile_append_of_pos hall]
  exact List.append_nil _

theorem cstr_eq_nil_iff (s : List UInt8) : cstr s = [] ↔ s.headD 0 = 0 := by
  cases s with
  | nil => simp [cstr]
  | cons c s => by_cases hc : c = 0 <;> simp [cstr, hc]

/-- A string that is not empty is its first byte followed by the string at the next byte. -/
theorem cstr_eq_cons {s : List UInt8} (h : s.headD 0 ≠ 0) :
    cstr s = s.headD 0 :: cstr s.tail := by
  cases s with
  | nil => exact absurd rfl h
  | cons c s =>
    have hc : c ≠ 0 := h
    simp [cstr, hc]

/-- The order of two strings as `strcmp` reports it: zero for equal strings, else the difference
of the first bytes that differ. -/
def strcmp : List UInt8 → List UInt8 → ℤ
  | [], t => -((t.headD 0).toNat : ℤ)
  | a :: s, t =>
    if a = t.headD 0 then if a = 0 then 0 else strcmp s t.tail
    else (a.toNat : ℤ) - (t.headD 0).toNat

/-- The white space of the C locale: blank, and `\t`, `\n`, `\v`, `\f`, `\r`. -/
def isspace (c : UInt8) : Bool := c = 32 || (9 ≤ c && c ≤ 13)

/-- The decimal digits. -/
def isdigit (c : UInt8) : Bool := 48 ≤ c && c ≤ 57

/-- The upper case of a letter. -/
def toupper (c : UInt8) : UInt8 := if 97 ≤ c && c ≤ 122 then c - 32 else c

/-- The value of a list of decimal digits, the most significant first. -/
def digitsValue (ds : List UInt8) : ℕ := ds.foldl (fun n d => n * 10 + (d.toNat - 48)) 0

/-- One optional sign: whether it is a minus, and what follows. -/
def splitSign : List UInt8 → Bool × List UInt8
  | [] => (false, [])
  | c :: s => if c = 45 then (true, s) else if c = 43 then (false, s) else (false, c :: s)

/-- White space, an optional sign and digits: the sign, the magnitude and the bytes after the
last digit. There is no numeral without a digit. -/
def scanNumeral (s : List UInt8) : Option (Bool × ℕ × List UInt8) :=
  let signed := splitSign (s.dropWhile isspace)
  if signed.2.takeWhile isdigit = [] then none
  else some (signed.1, digitsValue (signed.2.takeWhile isdigit), signed.2.dropWhile isdigit)

/-- The least `long`. -/
def LONG_MIN : ℤ := -2 ^ 63

/-- The greatest `long`. -/
def LONG_MAX : ℤ := 2 ^ 63 - 1

/-- The greatest `unsigned long`. -/
def ULONG_MAX : ℕ := 2 ^ 64 - 1

/-- `strtol` in base ten, without its end pointer. -/
def strtol (s : List UInt8) : ℤ :=
  match scanNumeral s with
  | none => 0
  | some (neg, n, _) => max LONG_MIN (min LONG_MAX (if neg then -(n : ℤ) else n))

/-- `strtoul` in base ten, with its end pointer. -/
def strtoul (s : List UInt8) : UInt64 × List UInt8 :=
  match scanNumeral s with
  | none => (0, s)
  | some (neg, n, rest) =>
    if ULONG_MAX < n then (UInt64.ofNat ULONG_MAX, rest)
    else if neg then (-UInt64.ofNat n, rest) else (UInt64.ofNat n, rest)

/-! ### The order of strings -/

private theorem toNat_pos {b : UInt8} (h : b ≠ 0) : 0 < b.toNat :=
  Nat.pos_of_ne_zero fun h0 => h (UInt8.toNat_inj.mp h0)

/-- An empty string is equal to an empty one, and comes before any other. -/
private theorem strcmp_spec_of_empty {z : ℤ} {s t : List UInt8} (hs : cstr s = [])
    (hz : z = -((t.headD 0).toNat : ℤ)) :
    (z = 0 ↔ cstr s = cstr t) ∧ (z < 0 ↔ cstr s < cstr t) := by
  by_cases ht : t.headD 0 = 0
  · rw [hz, hs, ht, (cstr_eq_nil_iff t).mpr ht]
    exact ⟨iff_of_true rfl rfl, iff_of_false (lt_irrefl 0) (List.not_lt_nil _)⟩
  · have hpos := toNat_pos ht
    rw [hz, hs, cstr_eq_cons ht]
    exact ⟨iff_of_false (by omega) (List.cons_ne_nil _ _).symm,
      iff_of_true (by omega) (List.nil_lt_cons _ _)⟩

/-- `strcmp` returns zero exactly for equal strings, and a negative number exactly when the first
string comes first in the lexicographic order of the bytes. -/
theorem strcmp_spec (s t : List UInt8) :
    (strcmp s t = 0 ↔ cstr s = cstr t) ∧ (strcmp s t < 0 ↔ cstr s < cstr t) := by
  induction s generalizing t with
  | nil => exact strcmp_spec_of_empty rfl rfl
  | cons a s ih =>
    by_cases ha : a = 0
    · refine strcmp_spec_of_empty ((cstr_eq_nil_iff (a :: s)).mpr ha) ?_
      rw [strcmp, ha]
      split
      · rw [← ‹0 = t.headD 0›]
        rfl
      · exact Int.zero_sub _
    have hs : cstr (a :: s) = a :: cstr s := cstr_eq_cons (s := a :: s) ha
    by_cases ht : t.headD 0 = 0
    · have hpos := toNat_pos ha
      have h0 : (0 : UInt8).toNat = 0 := rfl
      rw [strcmp, ht, if_neg ha, hs, (cstr_eq_nil_iff t).mpr ht]
      exact ⟨iff_of_false (by omega) (List.cons_ne_nil _ _),
        iff_of_false (by omega) (List.not_lt_nil _)⟩
    · rw [strcmp, hs, cstr_eq_cons ht, List.cons_lt_cons_iff, List.cons.injEq]
      by_cases heq : a = t.headD 0
      · rw [if_pos heq, if_neg ha, (ih t.tail).1, (ih t.tail).2, and_iff_right heq,
          and_iff_right heq, or_iff_right (heq ▸ UInt8.lt_irrefl a)]
        exact ⟨Iff.rfl, Iff.rfl⟩
      · have hne : a.toNat ≠ (t.headD 0).toNat := fun h => heq (UInt8.toNat_inj.mp h)
        rw [if_neg heq, UInt8.lt_iff_toNat_lt, or_iff_left fun h => heq h.1]
        exact ⟨iff_of_false (by omega) fun h => heq h.1, by omega⟩

theorem strcmp_eq_zero_iff (s t : List UInt8) : strcmp s t = 0 ↔ cstr s = cstr t :=
  (strcmp_spec s t).1

theorem strcmp_neg_iff (s t : List UInt8) : strcmp s t < 0 ↔ cstr s < cstr t :=
  (strcmp_spec s t).2

/-! ### Which bytes a conversion reads -/

/-- A line of white space only. -/
def Blank (s : List UInt8) : Prop := ∀ c ∈ s, isspace c = true

instance (s : List UInt8) : Decidable (Blank s) := inferInstanceAs (Decidable (∀ c ∈ s, _))

theorem dropWhile_isspace_append {s : List UInt8} (hs : ¬Blank s) (t : List UInt8) :
    (s ++ t).dropWhile isspace = s.dropWhile isspace ++ t := by
  rw [List.dropWhile_append]
  have hne : s.dropWhile isspace ≠ [] := fun h => hs (List.dropWhile_eq_nil_iff.mp h)
  simp [List.isEmpty_iff, hne]

theorem dropWhile_isspace_ne_nil {s : List UInt8} (hs : ¬Blank s) : s.dropWhile isspace ≠ [] :=
  fun h => hs (List.dropWhile_eq_nil_iff.mp h)

theorem splitSign_append {s : List UInt8} (hs : s ≠ []) (t : List UInt8) :
    splitSign (s ++ t) = ((splitSign s).1, (splitSign s).2 ++ t) := by
  cases s with
  | nil => exact absurd rfl hs
  | cons c s =>
    simp only [List.cons_append, splitSign]
    split_ifs <;> rfl

theorem takeWhile_isdigit_append_cons (s : List UInt8) {x : UInt8} (hx : isdigit x = false)
    (t : List UInt8) : (s ++ x :: t).takeWhile isdigit = s.takeWhile isdigit := by
  induction s with
  | nil => simp [hx]
  | cons c s ih => simp only [List.cons_append, List.takeWhile_cons, ih]

theorem dropWhile_isdigit_append_cons (s : List UInt8) {x : UInt8} (hx : isdigit x = false)
    (t : List UInt8) : (s ++ x :: t).dropWhile isdigit = s.dropWhile isdigit ++ x :: t := by
  induction s with
  | nil => simp [hx]
  | cons c s ih =>
    simp only [List.cons_append, List.dropWhile_cons, ih]
    split <;> rfl

/-- **A line that is not blank determines its number.** The digits end at the latest at the byte
`x` that ends the line, so nothing after it is read. -/
theorem scanNumeral_append_cons {s : List UInt8} (hs : ¬Blank s) {x : UInt8}
    (hx : isdigit x = false) (t : List UInt8) :
    scanNumeral (s ++ x :: t) = (scanNumeral s).map fun r => (r.1, r.2.1, r.2.2 ++ x :: t) := by
  have hsign := splitSign_append (dropWhile_isspace_ne_nil hs) (x :: t)
  simp only [scanNumeral, dropWhile_isspace_append hs, hsign,
    takeWhile_isdigit_append_cons _ hx, dropWhile_isdigit_append_cons _ hx]
  split <;> rfl

/-- A blank line is skipped, and the number is read from what follows it. -/
theorem scanNumeral_blank_append {s : List UInt8} (hs : Blank s) (t : List UInt8) :
    scanNumeral (s ++ t) = scanNumeral t := by
  have hskip : (s ++ t).dropWhile isspace = t.dropWhile isspace := by
    rw [List.dropWhile_append, List.dropWhile_eq_nil_iff.mpr hs]
    rfl
  simp only [scanNumeral, hskip]

theorem strtol_append_cons {s : List UInt8} (hs : ¬Blank s) {x : UInt8}
    (hx : isdigit x = false) (t : List UInt8) : strtol (s ++ x :: t) = strtol s := by
  rw [strtol, strtol, scanNumeral_append_cons hs hx]
  cases scanNumeral s <;> rfl

theorem strtol_blank_append {s : List UInt8} (hs : Blank s) (t : List UInt8) :
    strtol (s ++ t) = strtol t := by
  rw [strtol, strtol, scanNumeral_blank_append hs]

/-! ### Numerals -/

theorem isspace_eq_false_of_isdigit {c : UInt8} (hc : isdigit c = true) : isspace c = false := by
  simp only [isdigit, Bool.and_eq_true, decide_eq_true_eq, UInt8.le_iff_toNat_le] at hc
  simp only [isspace, Bool.or_eq_false_iff, Bool.and_eq_false_iff, decide_eq_false_iff_not,
    UInt8.le_iff_toNat_le, ← UInt8.toNat_inj]
  have h48 : (48 : UInt8).toNat = 48 := rfl
  have h32 : (32 : UInt8).toNat = 32 := rfl
  have h13 : (13 : UInt8).toNat = 13 := rfl
  omega

theorem not_blank_of_digits {ds : List UInt8} (hne : ds ≠ [])
    (hd : ∀ c ∈ ds, isdigit c = true) : ¬Blank ds := by
  obtain ⟨c, hc⟩ := List.exists_mem_of_ne_nil ds hne
  intro h
  have hspace := h c hc
  rw [isspace_eq_false_of_isdigit (hd c hc)] at hspace
  exact Bool.false_ne_true hspace

theorem splitSign_digits {ds : List UInt8} (hd : ∀ c ∈ ds, isdigit c = true) :
    splitSign ds = (false, ds) := by
  cases ds with
  | nil => rfl
  | cons c ds =>
    have hc := hd c List.mem_cons_self
    have h45 : c ≠ 45 := by rintro rfl; exact absurd hc (by decide)
    have h43 : c ≠ 43 := by rintro rfl; exact absurd hc (by decide)
    simp only [splitSign, h45, h43, if_false]

/-- The number read from a list of digits is its value, and every digit is read. -/
theorem scanNumeral_digits {ds : List UInt8} (hne : ds ≠ [])
    (hd : ∀ c ∈ ds, isdigit c = true) :
    scanNumeral ds = some (false, digitsValue ds, []) := by
  have hskip : ds.dropWhile isspace = ds := by
    cases ds with
    | nil => rfl
    | cons c ds => simp [isspace_eq_false_of_isdigit (hd c List.mem_cons_self)]
  have htake : ds.takeWhile isdigit = ds := List.takeWhile_eq_self_iff.mpr hd
  have hdrop : ds.dropWhile isdigit = [] := List.dropWhile_eq_nil_iff.mpr hd
  simp only [scanNumeral, hskip, splitSign_digits hd, htake, hdrop, hne, if_false]

theorem strtoul_digits {ds : List UInt8} (hne : ds ≠ []) (hd : ∀ c ∈ ds, isdigit c = true)
    (hmax : digitsValue ds ≤ ULONG_MAX) :
    strtoul ds = (UInt64.ofNat (digitsValue ds), []) := by
  simp only [strtoul, scanNumeral_digits hne hd, Nat.not_lt.mpr hmax, if_false,
    Bool.false_eq_true]

/-- The decimal numeral of a number, without leading zeros. -/
def decimal (n : ℕ) : List UInt8 :=
  if n = 0 then [48] else (Nat.digits 10 n).reverse.map fun d => UInt8.ofNat (48 + d)

theorem decimal_ne_nil (n : ℕ) : decimal n ≠ [] := by
  rw [decimal]
  split
  · exact List.cons_ne_nil _ _
  · simpa [Nat.digits_eq_nil_iff_eq_zero] using ‹¬n = 0›

theorem toNat_digit {d : ℕ} (hd : d < 10) : (UInt8.ofNat (48 + d)).toNat = 48 + d := by
  rw [UInt8.toNat_ofNat']
  omega

theorem isdigit_of_mem_decimal {n : ℕ} {c : UInt8} (hc : c ∈ decimal n) : isdigit c = true := by
  rw [decimal] at hc
  split at hc
  · rw [List.mem_singleton.mp hc]
    rfl
  · obtain ⟨d, hd, rfl⟩ := List.mem_map.mp hc
    have hlt : d < 10 := Nat.digits_lt_base (by decide) (List.mem_reverse.mp hd)
    have h48 : (48 : UInt8).toNat = 48 := rfl
    have h57 : (57 : UInt8).toNat = 57 := rfl
    simp only [isdigit, Bool.and_eq_true, decide_eq_true_eq, UInt8.le_iff_toNat_le,
      toNat_digit hlt]
    omega

private theorem foldl_digits (l : List ℕ) (hl : ∀ d ∈ l, d < 10) :
    ((l.reverse.map fun d => UInt8.ofNat (48 + d)).foldl
      (fun n c => n * 10 + (c.toNat - 48)) 0) = Nat.ofDigits 10 l := by
  induction l with
  | nil => rfl
  | cons d l ih =>
    have hd := toNat_digit (hl d List.mem_cons_self)
    rw [List.reverse_cons, List.map_append, List.foldl_append,
      ih fun x hx => hl x (List.mem_cons_of_mem d hx), Nat.ofDigits_cons]
    simp only [List.map_cons, List.map_nil, List.foldl_cons, List.foldl_nil, hd]
    omega

/-- The value of the numeral of `n` is `n`. -/
@[simp] theorem digitsValue_decimal (n : ℕ) : digitsValue (decimal n) = n := by
  rw [decimal, digitsValue]
  split
  · simp [‹n = 0›]
  · rw [foldl_digits _ fun d hd => Nat.digits_lt_base (by decide) hd, Nat.ofDigits_digits]

theorem decimal_injective : Function.Injective decimal := fun m n h => by
  simpa only [digitsValue_decimal] using congrArg digitsValue h

theorem length_decimal_le {n k : ℕ} (hk : 0 < k) (h : n < 10 ^ k) : (decimal n).length ≤ k := by
  rw [decimal]
  split
  · exact hk
  · rw [List.length_map, List.length_reverse]
    exact (Nat.digits_length_le_iff (by decide) n).mpr h

theorem not_blank_decimal (n : ℕ) : ¬Blank (decimal n) :=
  not_blank_of_digits (decimal_ne_nil n) fun _ => isdigit_of_mem_decimal

theorem strtol_decimal {n : ℕ} (hn : (n : ℤ) ≤ LONG_MAX) : strtol (decimal n) = n := by
  rw [strtol, scanNumeral_digits (decimal_ne_nil n) fun _ => isdigit_of_mem_decimal]
  simp only [digitsValue_decimal, Bool.false_eq_true, if_false]
  have hmin : LONG_MIN ≤ (n : ℤ) := le_trans (by decide) (Int.natCast_nonneg n)
  rw [min_eq_right hn, max_eq_right hmin]

theorem strtol_blank {s : List UInt8} (hs : Blank s) : strtol s = 0 := by
  rw [← List.append_nil s, strtol_blank_append hs]
  rfl

/-- There is no number in front of a byte that cannot begin one. -/
theorem strtol_cons_of_other {c : UInt8} (hspace : isspace c = false) (hdigit : isdigit c = false)
    (hminus : c ≠ 45) (hplus : c ≠ 43) (s : List UInt8) : strtol (c :: s) = 0 := by
  have hnone : scanNumeral (c :: s) = none := by
    simp [scanNumeral, splitSign, hspace, hdigit, hminus, hplus]
  rw [strtol, hnone]

/-! ### Lines that go on -/

/-- A line with a minus after its white space. -/
def Negative (s : List UInt8) : Prop := (splitSign (s.dropWhile isspace)).1 = true

/-- What follows the white space and the sign of a line. -/
def afterSign (s : List UInt8) : List UInt8 := (splitSign (s.dropWhile isspace)).2

/-- A line of white space, an optional plus and zeros, of which there may be none. -/
def Zeros (s : List UInt8) : Prop := ¬Negative s ∧ ∀ c ∈ afterSign s, c = 48

instance (s : List UInt8) : Decidable (Zeros s) :=
  inferInstanceAs (Decidable (¬_ = true ∧ ∀ c ∈ afterSign s, c = 48))

/-- A number as a `long`, a bound of the type in place of one out of range. -/
def toLong (negative : Bool) (n : ℕ) : ℤ :=
  max LONG_MIN (min LONG_MAX (if negative then -(n : ℤ) else n))

theorem toLong_mono {m n : ℕ} (h : m ≤ n) : toLong false m ≤ toLong false n := by
  simp only [toLong, Bool.false_eq_true, if_false]
  omega

theorem toLong_anti {m n : ℕ} (h : m ≤ n) : toLong true n ≤ toLong true m := by
  simp only [toLong, if_true]
  omega

theorem toLong_nonpos (n : ℕ) : toLong true n ≤ 0 := by
  simp only [toLong, LONG_MIN, if_true]
  omega

theorem one_le_toLong {n : ℕ} (h : 0 < n) : 1 ≤ toLong false n := by
  simp only [toLong, LONG_MIN, LONG_MAX, Bool.false_eq_true, if_false]
  omega

theorem strtol_eq_toLong (s : List UInt8) :
    strtol s = toLong (splitSign (s.dropWhile isspace)).1
      (digitsValue ((afterSign s).takeWhile isdigit)) := by
  rw [strtol, scanNumeral, ← afterSign]
  split_ifs with hnone
  · rw [hnone]
    cases (splitSign (s.dropWhile isspace)).1 <;> rfl
  · rfl

theorem digitsValue_snoc (ds : List UInt8) (d : UInt8) :
    digitsValue (ds ++ [d]) = digitsValue ds * 10 + (d.toNat - 48) := by
  rw [digitsValue, List.foldl_append]
  rfl

theorem digitsValue_le_append (ds es : List UInt8) : digitsValue ds ≤ digitsValue (ds ++ es) := by
  induction es using List.reverseRecOn with
  | nil => rw [List.append_nil]
  | append_singleton es e ih =>
    rw [← List.append_assoc, digitsValue_snoc]
    omega

theorem digitsValue_eq_zero_iff {ds : List UInt8} (h : ∀ c ∈ ds, isdigit c = true) :
    digitsValue ds = 0 ↔ ∀ c ∈ ds, c = 48 := by
  induction ds using List.reverseRecOn with
  | nil => simp [digitsValue]
  | append_singleton ds d ih =>
    have hd : isdigit d = true := h d (by simp)
    have hzero : d.toNat - 48 = 0 ↔ d = 48 := by
      simp only [isdigit, Bool.and_eq_true, decide_eq_true_eq, UInt8.le_iff_toNat_le] at hd
      have h48 : (48 : UInt8).toNat = 48 := rfl
      rw [← UInt8.toNat_inj]
      omega
    rw [digitsValue_snoc, Nat.add_eq_zero_iff, hzero, Nat.mul_eq_zero,
      ih fun c hc => h c (List.mem_append_left _ hc), List.forall_mem_append,
      List.forall_mem_singleton]
    simp

/-- A line that is not blank has its sign, whatever follows. -/
theorem splitSign_line_append {s : List UInt8} (hs : ¬Blank s) (t : List UInt8) :
    splitSign ((s ++ t).dropWhile isspace) =
      ((splitSign (s.dropWhile isspace)).1, afterSign s ++ t) := by
  rw [dropWhile_isspace_append hs, splitSign_append (dropWhile_isspace_ne_nil hs), afterSign]

theorem zeros_of_blank {s : List UInt8} (hs : Blank s) : Zeros s := by
  have hskip : s.dropWhile isspace = [] := List.dropWhile_eq_nil_iff.mpr hs
  refine ⟨?_, ?_⟩
  · rw [Negative, hskip]
    exact Bool.false_ne_true
  · rw [afterSign, hskip]
    simp [splitSign]

theorem Zeros.of_append {s t : List UInt8} (h : Zeros (s ++ t)) : Zeros s := by
  by_cases hs : Blank s
  · exact zeros_of_blank hs
  · obtain ⟨hsign, hzeros⟩ := h
    rw [Negative, splitSign_line_append hs] at hsign
    rw [afterSign, splitSign_line_append hs] at hzeros
    exact ⟨hsign, fun c hc => hzeros c (List.mem_append_left _ hc)⟩

/-- A line of zeros can be continued. -/
theorem Zeros.strtol_append_one {s : List UInt8} (h : Zeros s) :
    ¬Blank (s ++ [49]) ∧ strtol (s ++ [49]) = 1 := by
  refine ⟨fun hb => absurd (hb 49 (by simp)) (by decide), ?_⟩
  by_cases hs : Blank s
  · rw [strtol_blank_append hs]
    rfl
  · obtain ⟨hsign, hzeros⟩ := h
    have hdigit : ∀ c ∈ afterSign s, isdigit c = true := fun c hc => hzeros c hc ▸ rfl
    have htake : (afterSign (s ++ [49])).takeWhile isdigit = afterSign s ++ [49] := by
      rw [afterSign, splitSign_line_append hs]
      refine List.takeWhile_eq_self_iff.mpr fun c hc => ?_
      rcases List.mem_append.mp hc with hc | hc
      · exact hdigit c hc
      · rw [List.mem_singleton.mp hc]
        rfl
    rw [strtol_eq_toLong, htake, splitSign_line_append hs, digitsValue_snoc,
      (digitsValue_eq_zero_iff hdigit).mpr hzeros, Bool.eq_false_iff.mpr hsign]
    rfl

/-- **A number out of bounds stays out of bounds** when bytes follow, except after zeros. -/
theorem strtol_append_outside {s : List UInt8} (hs : ¬Zeros s) {least greatest : ℤ}
    (hleast : 0 ≤ least) (hone : least ≤ 1) (hgreatest : 0 ≤ greatest)
    (h : ¬(least ≤ strtol s ∧ strtol s ≤ greatest)) (t : List UInt8) :
    ¬(least ≤ strtol (s ++ t) ∧ strtol (s ++ t) ≤ greatest) := by
  have hblank : ¬Blank s := fun hb => hs (zeros_of_blank hb)
  have hafter : afterSign (s ++ t) = afterSign s ++ t := by
    rw [afterSign, splitSign_line_append hblank]
  rw [strtol_eq_toLong, hafter, splitSign_line_append hblank]
  rw [strtol_eq_toLong] at h
  by_cases hdigits : ∀ c ∈ afterSign s, isdigit c = true
  · rw [List.takeWhile_eq_self_iff.mpr hdigits] at h
    rw [List.takeWhile_append_of_pos hdigits]
    have hle := digitsValue_le_append (afterSign s) (t.takeWhile isdigit)
    cases hsign : (splitSign (s.dropWhile isspace)).1 with
    | true =>
      have hanti := toLong_anti hle
      have hnonpos := toLong_nonpos (digitsValue (afterSign s))
      rw [hsign] at h
      omega
    | false =>
      have hpos : 0 < digitsValue (afterSign s) := by
        refine Nat.pos_of_ne_zero fun hzero => hs ⟨?_, (digitsValue_eq_zero_iff hdigits).mp hzero⟩
        rw [Negative, hsign]
        exact Bool.false_ne_true
      have hmono := toLong_mono hle
      have hpositive := one_le_toLong hpos
      rw [hsign] at h
      omega
  · have htake : (afterSign s ++ t).takeWhile isdigit = (afterSign s).takeWhile isdigit := by
      rw [List.takeWhile_append, if_neg]
      intro hlen
      exact hdigits (List.takeWhile_eq_self_iff.mp
        ((List.takeWhile_prefix _).eq_of_length hlen))
    rwa [htake]

/-! ### The grammar of the conversions -/

/-- The optional sign of a numeral, and whether it is a minus. -/
def IsSign (sign : List UInt8) (neg : Bool) : Prop :=
  (sign, neg) ∈ [([], false), ([43], false), ([45], true)]

/-- The bytes from which a conversion reads `n`: white space, an optional sign, digits, and no
digit after them. -/
structure Numeral (s : List UInt8) (neg : Bool) (n : ℕ) (rest : List UInt8) : Prop where
  shape : ∃ blanks sign digits, s = blanks ++ (sign ++ (digits ++ rest)) ∧ Blank blanks ∧
    IsSign sign neg ∧ digits ≠ [] ∧ (∀ c ∈ digits, isdigit c = true) ∧ n = digitsValue digits
  stop : ∀ c ∈ rest.head?, isdigit c = false

/-- What follows a numeral in a string is in the string. -/
theorem Numeral.mem_of_mem_rest {s rest : List UInt8} {neg : Bool} {n : ℕ}
    (h : Numeral s neg n rest) {c : UInt8} (hc : c ∈ rest) : c ∈ s := by
  obtain ⟨blanks, sign, digits, rfl, -⟩ := h.shape
  exact List.mem_append_right _ (List.mem_append_right _ (List.mem_append_right _ hc))

private theorem splitSign_isSign (s : List UInt8) :
    ∃ sign, s = sign ++ (splitSign s).2 ∧ IsSign sign (splitSign s).1 := by
  cases s with
  | nil => exact ⟨[], rfl, by simp [IsSign, splitSign]⟩
  | cons c s =>
    by_cases hminus : c = 45
    · exact ⟨[45], by simp [splitSign, hminus], by simp [IsSign, splitSign, hminus]⟩
    · by_cases hplus : c = 43
      · exact ⟨[43], by simp [splitSign, hplus], by simp [IsSign, splitSign, hplus]⟩
      · exact ⟨[], by simp [splitSign, hminus, hplus],
          by simp [IsSign, splitSign, hminus, hplus]⟩

private theorem splitSign_sign_append {sign digits : List UInt8} {neg : Bool}
    (hsign : IsSign sign neg) (hne : digits ≠ []) (hd : ∀ c ∈ digits, isdigit c = true)
    (rest : List UInt8) :
    (sign ++ (digits ++ rest)).dropWhile isspace = sign ++ (digits ++ rest) ∧
      splitSign (sign ++ (digits ++ rest)) = (neg, digits ++ rest) := by
  simp only [IsSign, List.mem_cons, Prod.mk.injEq, List.not_mem_nil, or_false] at hsign
  rcases hsign with ⟨rfl, rfl⟩ | ⟨rfl, rfl⟩ | ⟨rfl, rfl⟩
  · obtain ⟨d, ds, rfl⟩ := List.exists_cons_of_ne_nil hne
    have hd := hd d List.mem_cons_self
    have hspace := isspace_eq_false_of_isdigit hd
    have hminus : d ≠ 45 := by rintro rfl; exact absurd hd (by decide)
    have hplus : d ≠ 43 := by rintro rfl; exact absurd hd (by decide)
    simp [hspace, splitSign, hminus, hplus]
  · exact ⟨rfl, rfl⟩
  · exact ⟨rfl, rfl⟩

/-- **What a conversion reads** is given by the grammar of numerals. -/
theorem scanNumeral_eq_some_iff {s : List UInt8} {neg : Bool} {n : ℕ} {rest : List UInt8} :
    scanNumeral s = some (neg, n, rest) ↔ Numeral s neg n rest := by
  constructor
  · intro h
    simp only [scanNumeral] at h
    split at h
    · exact absurd h.symm (Option.some_ne_none _)
    next hne =>
    obtain ⟨rfl, rfl, rfl⟩ : _ = neg ∧ _ = n ∧ _ = rest := by simpa using h
    obtain ⟨sign, hsplit, hsign⟩ := splitSign_isSign (s.dropWhile isspace)
    refine ⟨⟨s.takeWhile isspace, sign, _, ?_, fun c hc => List.mem_takeWhile_imp hc, hsign, hne,
      fun c hc => List.mem_takeWhile_imp hc, rfl⟩, ?_⟩
    · rw [List.takeWhile_append_dropWhile, ← hsplit, List.takeWhile_append_dropWhile]
    · intro c hc
      have hhead := List.head?_dropWhile_not isdigit (splitSign (s.dropWhile isspace)).2
      rwa [hc] at hhead
  · rintro ⟨⟨blanks, sign, digits, rfl, hblank, hsign, hne, hd, rfl⟩, hstop⟩
    obtain ⟨hskip, hsplit⟩ := splitSign_sign_append hsign hne hd rest
    have hrest : rest.takeWhile isdigit = [] ∧ rest.dropWhile isdigit = rest := by
      cases rest with
      | nil => exact ⟨rfl, rfl⟩
      | cons c rest => simp [hstop c rfl]
    have htake : (digits ++ rest).takeWhile isdigit = digits := by
      rw [List.takeWhile_append_of_pos hd, hrest.1, List.append_nil]
    have hdrop : (digits ++ rest).dropWhile isdigit = rest := by
      rw [List.dropWhile_append_of_pos hd, hrest.2]
    rw [scanNumeral_blank_append hblank]
    simp only [scanNumeral, hskip, hsplit, htake, hdrop, hne, if_false]

/-- What follows the string at a pointer begins with its terminator. -/
theorem headD_dropWhile_cstr (s : List UInt8) : (s.dropWhile (· ≠ 0)).headD 0 = 0 := by
  induction s with
  | nil => rfl
  | cons c s ih =>
    by_cases hc : c = 0
    · simp [hc]
    · simpa [hc] using ih

/-- The digits end at the latest at the terminator. -/
theorem scanNumeral_eq_cstr (s : List UInt8) :
    scanNumeral s = (scanNumeral (cstr s)).map fun r =>
      (r.1, r.2.1, r.2.2 ++ s.dropWhile (· ≠ 0)) := by
  have hsplit : cstr s ++ s.dropWhile (· ≠ 0) = s := List.takeWhile_append_dropWhile
  cases hrest : s.dropWhile (· ≠ 0) with
  | nil =>
    rw [hrest, List.append_nil] at hsplit
    rw [hsplit]
    cases scanNumeral s <;> simp
  | cons c t =>
    obtain rfl : c = 0 := by
      have hhead := headD_dropWhile_cstr s
      rwa [hrest] at hhead
    rw [hrest] at hsplit
    have hstart : scanNumeral s = scanNumeral (cstr s ++ 0 :: t) := congrArg _ hsplit.symm
    by_cases hblank : Blank (cstr s)
    · have hnone : scanNumeral (cstr s) = none := by
        rw [← List.append_nil (cstr s), scanNumeral_blank_append hblank]
        rfl
      rw [hstart, scanNumeral_blank_append hblank, hnone]
      rfl
    · rw [hstart, scanNumeral_append_cons hblank (by decide)]

/-- A number is read up to the terminator exactly when the string is a numeral. -/
theorem scanNumeral_to_end_iff {s : List UInt8} {neg : Bool} {n : ℕ} :
    (∃ rest, scanNumeral s = some (neg, n, rest) ∧ rest.headD 0 = 0) ↔
      Numeral (cstr s) neg n [] := by
  rw [← scanNumeral_eq_some_iff, scanNumeral_eq_cstr s]
  constructor
  · rintro ⟨rest, hscan, hrest⟩
    obtain ⟨⟨neg', n', r⟩, hr, heq⟩ := Option.map_eq_some_iff.mp hscan
    obtain ⟨rfl, rfl, rfl⟩ : neg' = neg ∧ n' = n ∧ r ++ s.dropWhile (· ≠ 0) = rest := by
      simpa using heq
    obtain ⟨⟨blanks, sign, digits, hshape, -⟩, -⟩ := scanNumeral_eq_some_iff.mp hr
    cases r with
    | nil => exact hr
    | cons c r =>
      -- A byte of the string itself is no terminator.
      obtain rfl : c = 0 := hrest
      exact absurd (hshape ▸ by simp) (zero_notMem_cstr s)
  · intro h
    exact ⟨s.dropWhile (· ≠ 0), by rw [h]; rfl, headD_dropWhile_cstr s⟩

end CString
