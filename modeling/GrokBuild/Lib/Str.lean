import Mathlib.Data.List.TakeWhile
import Mathlib.Tactic
import GrokBuild.Lib.Lines

/-!
# Strings and machine numbers

The string functions of the Rust standard library that the modelled code
calls, over texts as character lists: sizes in bytes, `trim`, `split_once`,
`splitn`, decimal rendering and `str::parse::<usize>`. The main facts are
how they act on a text built from pieces (`splitOnce_append`,
`splitOnce_eq_none`) and that a rendered number parses back
(`parseUsize_decimal`).
-/

namespace Str

open TextLines List

/-! ## Sizes -/

def utf8Bytes (s : Text) : List UInt8 := s.flatMap String.utf8EncodeChar

/-- `str::len`: the size in bytes. -/
def byteLen (s : Text) : Nat := (s.map Char.utf8Size).sum

/-- Largest value of a `usize`. -/
def usizeMax : Nat := 2 ^ 64 - 1

/-- Largest value of an `isize`, the size limit of every allocation. -/
def isizeMax : Nat := 2 ^ 63 - 1

def saturatingAdd (a b : Nat) : Nat := min (a + b) usizeMax

/-- A string in memory: no allocation is larger than `isize::MAX` bytes. -/
abbrev MemStr := { s : Text // byteLen s ≤ isizeMax }

@[simp] theorem byteLen_append (s t : Text) : byteLen (s ++ t) = byteLen s + byteLen t := by
  simp [byteLen]

/-- For literals, which are built from their characters. -/
theorem byteLen_ofList (s : Text) : byteLen (String.ofList s).toList = byteLen s := by
  rw [String.toList_ofList]

theorem byteLen_toList_append (s t : String) :
    byteLen (s ++ t).toList = byteLen s.toList + byteLen t.toList := by
  rw [String.toList_append, byteLen_append]

theorem length_le_byteLen (s : Text) : s.length ≤ byteLen s := by
  induction s with
  | nil => simp
  | cons c s ih =>
    have hc := Char.utf8Size_pos c
    simp only [byteLen, length_cons, map_cons, sum_cons] at ih ⊢
    omega

/-! ## White space -/

/-- `char::is_whitespace`: the code points with the property White_Space. -/
def isWhitespace (c : Char) : Bool :=
  let n := c.toNat
  (0x09 ≤ n && n ≤ 0x0D) || n == 0x20 || n == 0x85 || n == 0xA0 || n == 0x1680
    || (0x2000 ≤ n && n ≤ 0x200A) || n == 0x2028 || n == 0x2029 || n == 0x202F
    || n == 0x205F || n == 0x3000

/-- `u8::is_ascii_whitespace`: space, tab, newline, form feed and carriage
return, but not the vertical tab. -/
def isAsciiWhitespace (b : UInt8) : Bool :=
  b == 0x20 || b == 0x09 || b == 0x0A || b == 0x0C || b == 0x0D

def trimStart (s : Text) : Text := s.dropWhile isWhitespace

def trim (s : Text) : Text := (trimStart (trimStart s).reverse).reverse

variable {c : Char} {s : Text}

theorem mem_trimStart (hc : isWhitespace c = false) (h : c ∈ s) : c ∈ trimStart s := by
  induction s with
  | nil => exact absurd h not_mem_nil
  | cons d s ih =>
    rw [trimStart, dropWhile_cons]
    split
    · next hd =>
      rcases mem_cons.mp h with rfl | h
      · rw [hc] at hd
        exact absurd hd (by decide)
      · exact ih h
    · exact h

theorem mem_trim (hc : isWhitespace c = false) (h : c ∈ s) : c ∈ trim s :=
  mem_reverse.mpr (mem_trimStart hc (mem_reverse.mpr (mem_trimStart hc h)))

theorem exists_of_trim_ne_nil (h : trim s ≠ []) : ∃ c ∈ s, isWhitespace c = false := by
  by_contra hall
  have hwhite : ∀ c ∈ s, isWhitespace c = true := by
    intro c hc
    by_contra hblack
    exact hall ⟨c, hc, by simpa using hblack⟩
  have hstart : trimStart s = [] := by
    rw [trimStart, dropWhile_eq_nil_iff]
    exact hwhite
  exact h (by rw [trim, hstart]; rfl)

theorem trim_trim_ne_nil (h : trim s ≠ []) : trim (trim s) ≠ [] := by
  obtain ⟨c, hc, hblack⟩ := exists_of_trim_ne_nil h
  exact List.ne_nil_of_mem (mem_trim hblack (mem_trim hblack hc))

/-! ## Splitting -/

/-- `str::split_once`: what stands before and after the first occurrence of
the pattern. -/
@[grind =]
def splitOnce (pat : Text) : Text → Option (Text × Text)
  | [] => if pat = [] then some ([], []) else none
  | c :: s =>
    if pat.isPrefixOf (c :: s) then some ([], (c :: s).drop pat.length)
    else (splitOnce pat s).map fun p => (c :: p.1, p.2)

/-- `str::splitn`: at most `n` pieces, the last one unsplit. -/
@[grind =]
def splitN : Nat → Char → Text → List Text
  | 0, _, _ => []
  | 1, _, s => [s]
  | n + 2, c, s =>
    match splitOnce [c] s with
    | none => [s]
    | some (a, t) => a :: splitN (n + 1) c t

theorem splitOnce_eq_none {pat : Text} (h : c ∉ s) : splitOnce (c :: pat) s = none := by
  induction s with
  | nil => rfl
  | cons d s ih =>
    have hd : c ≠ d := fun e => h (e ▸ mem_cons_self)
    have hs : c ∉ s := fun m => h (mem_cons_of_mem _ m)
    simp [splitOnce, List.isPrefixOf, hd, ih hs]

theorem splitOnce_append {a : Text} (h : c ∉ a) (t : Text) :
    splitOnce [c] (a ++ c :: t) = some (a, t) := by
  induction a with
  | nil => simp [splitOnce, List.isPrefixOf]
  | cons d a ih =>
    have hd : c ≠ d := fun e => h (e ▸ mem_cons_self)
    have ha : c ∉ a := fun m => h (mem_cons_of_mem _ m)
    simp [splitOnce, List.isPrefixOf, hd, ih ha]

theorem splitOnce_some {a t : Text} (h : splitOnce [c] s = some (a, t)) : c ∉ a ∧ s = a ++ c :: t := by
  induction s generalizing a with
  | nil => simp [splitOnce] at h
  | cons d s ih =>
    by_cases hd : c = d
    · subst hd
      have h' : a = [] ∧ s = t := by simpa [splitOnce, List.isPrefixOf, eq_comm] using h
      obtain ⟨rfl, rfl⟩ := h'
      simp
    · simp only [splitOnce, List.isPrefixOf, beq_eq_false_iff_ne.mpr hd, Bool.false_and,
        Bool.false_eq_true, if_false, Option.map_eq_some_iff, Prod.exists,
        Prod.mk.injEq] at h
      obtain ⟨a', t', hs, rfl, rfl⟩ := h
      obtain ⟨ha', rfl⟩ := ih hs
      exact ⟨by simp [hd, ha'], rfl⟩

/-! ## Numbers -/

/-- `usize` as text. -/
def decimal (n : Nat) : Text := Nat.toDigits 10 n

/-- `str::parse::<usize>`: an optional `+`, then digits only, and no
overflow. -/
def parseUsize (s : Text) : Option Nat :=
  let digits := match s with
    | '+' :: ds => ds
    | ds => ds
  if digits = [] ∨ digits.all Char.isDigit = false then none
  else if Nat.ofDigitChars 10 digits 0 ≤ usizeMax then some (Nat.ofDigitChars 10 digits 0)
  else none

theorem isDigit_of_mem_decimal {n : Nat} (h : c ∈ decimal n) : c.isDigit :=
  Nat.isDigit_of_mem_toDigits (by decide) (by decide) h

theorem notMem_decimal (h : c.isDigit = false) (n : Nat) : c ∉ decimal n := by
  intro hc
  rw [isDigit_of_mem_decimal hc] at h
  cases h

theorem decimal_ne_nil (n : Nat) : decimal n ≠ [] := Nat.toDigits_ne_nil

theorem parseUsize_decimal {n : Nat} (h : n ≤ usizeMax) : parseUsize (decimal n) = some n := by
  have hplus : '+' ∉ decimal n := notMem_decimal (by decide) n
  have hdigits : (match decimal n with | '+' :: ds => ds | ds => ds) = decimal n := by
    cases hd : decimal n with
    | nil => rfl
    | cons c s =>
      rw [hd] at hplus
      split
      · next heq =>
        injection heq with hc
        exact absurd (hc ▸ mem_cons_self) hplus
      · rfl
  have hall : (decimal n).all Char.isDigit = true :=
    List.all_eq_true.mpr fun c hc => isDigit_of_mem_decimal hc
  have hval : Nat.ofDigitChars 10 (decimal n) 0 = n := Nat.ofDigitChars_ten_toDigits
  simp only [parseUsize, hdigits, hall, hval, decimal_ne_nil, h]
  simp

/-- `{:?}` of a list of numbers. -/
def debugList (ns : List Nat) : Text :=
  "[".toList ++ ", ".toList.intercalate (ns.map decimal) ++ "]".toList

end Str
