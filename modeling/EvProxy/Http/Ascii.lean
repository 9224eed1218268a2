import Mathlib.Algebra.Ring.Nat
import Mathlib.Algebra.Ring.Int.Defs
import EvProxy.Text.Search

/-!
# Byte strings and the C character functions the proxy uses

A `std::string` is a list of bytes. The program never calls `setlocale`, so
`tolower` and `isspace` are those of the "C" locale: only the ASCII letters and
blanks count.
-/

namespace EvProxy

abbrev Bytes := List UInt8

/-- The bytes of a source-text literal. -/
def bytes (s : String) : Bytes := s.toList.map fun c => c.toNat.toUInt8

def cr : UInt8 := 13
def lf : UInt8 := 10
def space : UInt8 := 32
def colon : UInt8 := 58
def slash : UInt8 := 47

theorem cr_ne_lf : cr ≠ lf := by decide

/-- `std::tolower` in the "C" locale. -/
def tolower (c : UInt8) : UInt8 := if 65 ≤ c ∧ c ≤ 90 then c + 32 else c

def lower (s : Bytes) : Bytes := s.map tolower

/-- `trim`: blanks and tabs off both ends. -/
def trim (s : Bytes) : Bytes := Text.strip (bytes " \t") s

theorem trim_part (s : Bytes) : trim s <:+: s := Text.strip_part _ s

theorem trim_trim (s : Bytes) : trim (trim s) = trim s := Text.strip_strip _ s

theorem trim_space_cons (s : Bytes) : trim (space :: s) = trim s := Text.strip_cons (by decide) s

def isDigit (c : UInt8) : Bool := 48 ≤ c && c ≤ 57

/-- `find_first_not_of("0123456789") == npos`. -/
def allDigits (s : Bytes) : Bool := (Text.findFirstNotOf (bytes "0123456789") s).isNone

/-- The number a digit string denotes. -/
def decimal (s : Bytes) : Nat := s.foldl (fun n d => 10 * n + (d.toNat - 48)) 0

def isSpace (c : UInt8) : Bool := c = 32 || (9 ≤ c && c ≤ 13)

/-- `ULONG_MAX`, which is also the largest `size_t`. -/
def ulongMax : Nat := 2 ^ 64 - 1

/-- `std::strtoul(s, nullptr, 10)`: blanks, an optional sign, then the longest
run of digits; out of range it saturates, and a minus sign negates modulo 2^64. -/
def strtoul (s : Bytes) : Nat :=
  let s := s.dropWhile isSpace
  let negative := s.head? = some 45
  let s := if negative ∨ s.head? = some 43 then s.drop 1 else s
  let n := decimal (s.takeWhile isDigit)
  if ulongMax < n then ulongMax
  else if negative then (2 ^ 64 - n) % 2 ^ 64
  else n

/-- `std::strtol(s, nullptr, 10)`: as `strtoul`, but it saturates at both ends of `long`. -/
def strtol (s : Bytes) : Int :=
  let s := s.dropWhile isSpace
  let negative := s.head? = some 45
  let s := if negative ∨ s.head? = some 43 then s.drop 1 else s
  let n : Int := decimal (s.takeWhile isDigit)
  if negative then max (-n) (-2 ^ 63) else min n (2 ^ 63 - 1)

/-- `std::atoi(s)`: `strtol` cut down to the 32 bits of an `int`. -/
def atoi (s : Bytes) : Int := (strtol s).bmod (2 ^ 32)

/-- `std::to_string` of a non-negative number. -/
def toDec (n : Nat) : Bytes := (Nat.toDigits 10 n).map fun c => c.toNat.toUInt8

theorem mem_digits_iff {c : UInt8} : c ∈ bytes "0123456789" ↔ isDigit c = true := by
  have listed : bytes "0123456789" = [48, 49, 50, 51, 52, 53, 54, 55, 56, 57] := by decide
  rw [listed]
  simp only [isDigit, Bool.and_eq_true, decide_eq_true_eq, List.mem_cons, List.not_mem_nil, or_false,
    UInt8.le_iff_toNat_le, ← UInt8.toNat_inj]
  simp only [UInt8.reduceToNat]
  omega

theorem allDigits_iff {s : Bytes} : allDigits s = true ↔ ∀ c ∈ s, isDigit c = true := by
  rw [allDigits, Option.isNone_iff_eq_none, Text.findFirstNotOf_eq_none]
  simp only [mem_digits_iff]

theorem isSpace_of_isDigit {c : UInt8} (digit : isDigit c = true) : isSpace c = false := by
  simp only [isDigit, Bool.and_eq_true, decide_eq_true_eq, UInt8.le_iff_toNat_le] at digit
  simp only [isSpace, Bool.or_eq_false_iff, Bool.and_eq_false_iff, decide_eq_false_iff_not,
    UInt8.le_iff_toNat_le, ← UInt8.toNat_inj]
  simp only [UInt8.reduceToNat] at digit ⊢
  omega

theorem isDigit_ne {c d : UInt8} (digit : isDigit c = true) (other : isDigit d = false) : c ≠ d := by
  rintro rfl
  rw [digit] at other
  cases other

theorem not_mem_of_allDigits {s : Bytes} (digits : allDigits s = true) {c : UInt8} (other : isDigit c = false) :
    c ∉ s :=
  fun mem => isDigit_ne (allDigits_iff.mp digits c mem) other rfl

/-- The last colon ends the host, whatever else is in it. -/
theorem authority_inj {host host' port port' : Bytes} (digits : allDigits port = true)
    (digits' : allDigits port' = true) (same : host ++ colon :: port = host' ++ colon :: port') :
    host = host' ∧ port = port' := by
  have mirrored : port.reverse ++ colon :: host.reverse = port'.reverse ++ colon :: host'.reverse := by
    simpa using congrArg List.reverse same
  have free {p : Bytes} (digits : allDigits p = true) : colon ∉ p.reverse := by
    rw [List.mem_reverse]
    exact not_mem_of_allDigits digits (by decide)
  obtain ⟨port, host⟩ := Text.append_cons_inj (free digits) (free digits') mirrored
  exact ⟨List.reverse_inj.mp host, List.reverse_inj.mp port⟩

/-- On a digit string `strtoul` is the number it denotes, saturated. -/
theorem strtoul_digits {s : Bytes} (digits : ∀ c ∈ s, isDigit c = true) :
    strtoul s = min (decimal s) ulongMax := by
  have blank : s.dropWhile isSpace = s := by
    rw [List.dropWhile_eq_self_iff]
    intro nonempty
    simp [isSpace_of_isDigit (digits s[0] (List.getElem_mem nonempty))]
  have run : s.takeWhile isDigit = s := List.takeWhile_eq_self_iff.mpr digits
  have sign : ∀ d, isDigit d = false → s.head? ≠ some d := by
    intro d other same
    exact isDigit_ne (digits d (List.mem_of_mem_head? same)) other rfl
  have minus := sign 45 (by decide)
  have plus := sign 43 (by decide)
  simp only [strtoul, blank, minus, plus, or_self, if_false, run]
  split <;> omega

end EvProxy
