import Mathlib.Tactic
import GrokBuild.Lib.Str

/-!
# Texts addressed by byte

A text is a list of characters, and a program that indexes it by byte sees
its UTF-8 encoding. A byte position is a character boundary when some prefix
of the text has that many bytes. This module gives the operations Rust's
`str` offers on byte ranges (`get`, `replace_range`, `is_char_boundary`), what
they return in terms of a decomposition of the text (`slice_eq_some`,
`splice_append`), what an edit does to the slices on either side of it, and
where an ASCII character's byte can stand (`byteAt_eq_ascii`).
-/

namespace ByteText

open TextLines Str List Option

/-! ## Sizes -/

@[simp] theorem byteLen_nil : byteLen [] = 0 := rfl

@[simp] theorem byteLen_cons (c : Char) (s : Text) :
    byteLen (c :: s) = c.utf8Size + byteLen s := rfl

theorem byteLen_reverse (s : Text) : byteLen s.reverse = byteLen s := by
  rw [byteLen, map_reverse, sum_reverse]
  rfl

@[simp] theorem utf8Size_lf : Char.utf8Size '\n' = 1 := rfl

@[simp] theorem utf8Size_cr : Char.utf8Size '\r' = 1 := rfl

variable {s : Text}

theorem byteLen_pos (h : s ≠ []) : 0 < byteLen s := by
  cases s with
  | nil => exact absurd rfl h
  | cons c s => exact Nat.add_pos_left (Char.utf8Size_pos c) _

theorem byteLen_eq_zero : byteLen s = 0 ↔ s = [] := by
  cases s with
  | nil => simp
  | cons c s =>
    have := Char.utf8Size_pos c
    simp only [byteLen_cons, reduceCtorEq, iff_false]
    omega

/-! ## Splitting at a byte -/

/-- `str::split_at_checked`: the text before and after byte `n`, or none when
`n` is not a character boundary. -/
def splitAtByte : Text → Nat → Option (Text × Text)
  | s, 0 => some ([], s)
  | [], _ + 1 => none
  | c :: s, n + 1 =>
    if n + 1 < c.utf8Size then none
    else (splitAtByte s (n + 1 - c.utf8Size)).map fun p => (c :: p.1, p.2)

theorem splitAtByte_zero (s : Text) : splitAtByte s 0 = some ([], s) := by
  cases s <;> rfl

theorem splitAtByte_cons_succ (c : Char) (s : Text) (n : Nat) :
    splitAtByte (c :: s) (n + 1) =
      if n + 1 < c.utf8Size then none
      else (splitAtByte s (n + 1 - c.utf8Size)).map fun p => (c :: p.1, p.2) := rfl

theorem splitAtByte_append (a b : Text) : splitAtByte (a ++ b) (byteLen a) = some (a, b) := by
  induction a with
  | nil => simpa using splitAtByte_zero b
  | cons c a ih =>
    have hc := Char.utf8Size_pos c
    obtain ⟨n, hn⟩ : ∃ n, byteLen (c :: a) = n + 1 := ⟨c.utf8Size + byteLen a - 1, by simp; omega⟩
    have hn' : n + 1 = c.utf8Size + byteLen a := by simpa using hn.symm
    rw [hn, cons_append, splitAtByte_cons_succ, if_neg (by omega),
      show n + 1 - c.utf8Size = byteLen a by omega, ih]
    rfl

variable {n : Nat}

theorem append_of_splitAtByte {a b : Text} (h : splitAtByte s n = some (a, b)) :
    s = a ++ b ∧ byteLen a = n := by
  induction s generalizing n a with
  | nil =>
    cases n with
    | zero =>
      obtain ⟨rfl, rfl⟩ : [] = a ∧ [] = b := by simpa [splitAtByte_zero] using h
      exact ⟨rfl, rfl⟩
    | succ n => cases h
  | cons c s ih =>
    cases n with
    | zero =>
      obtain ⟨rfl, rfl⟩ : [] = a ∧ c :: s = b := by simpa [splitAtByte_zero] using h
      exact ⟨rfl, rfl⟩
    | succ n =>
      rw [splitAtByte_cons_succ] at h
      split at h
      · cases h
      · rename_i hle
        obtain ⟨p, hp, hpe⟩ := map_eq_some_iff.mp h
        obtain ⟨rfl, rfl⟩ : c :: p.1 = a ∧ p.2 = b := by simpa using hpe
        obtain ⟨hs, hlen⟩ := ih hp
        exact ⟨by rw [hs]; rfl, by rw [byteLen_cons, hlen]; omega⟩

theorem splitAtByte_eq_some {a b : Text} :
    splitAtByte s n = some (a, b) ↔ s = a ++ b ∧ byteLen a = n := by
  refine ⟨append_of_splitAtByte, ?_⟩
  rintro ⟨rfl, rfl⟩
  exact splitAtByte_append a b

def isCharBoundary (s : Text) (n : Nat) : Bool := (splitAtByte s n).isSome

theorem isCharBoundary_append (pre post : Text) :
    isCharBoundary (pre ++ post) (byteLen pre) = true := by
  rw [isCharBoundary, splitAtByte_append]
  rfl

theorem append_of_isCharBoundary (h : isCharBoundary s n = true) :
    ∃ pre post, s = pre ++ post ∧ byteLen pre = n := by
  rw [isCharBoundary, isSome_iff_exists] at h
  obtain ⟨⟨a, b⟩, h⟩ := h
  exact ⟨a, b, append_of_splitAtByte h⟩

theorem isCharBoundary_iff :
    isCharBoundary s n = true ↔ ∃ pre post, s = pre ++ post ∧ byteLen pre = n := by
  refine ⟨append_of_isCharBoundary, ?_⟩
  rintro ⟨pre, post, rfl, rfl⟩
  exact isCharBoundary_append pre post

theorem isCharBoundary_zero (s : Text) : isCharBoundary s 0 = true :=
  isCharBoundary_append [] s

theorem isCharBoundary_byteLen (s : Text) : isCharBoundary s (byteLen s) = true := by
  have h := isCharBoundary_append s []
  rwa [append_nil] at h

theorem le_byteLen_of_isCharBoundary (h : isCharBoundary s n = true) : n ≤ byteLen s := by
  obtain ⟨pre, post, rfl, rfl⟩ := append_of_isCharBoundary h
  simp

theorem prefix_of_byteLen_le {p q p' q' : Text} (h : p ++ q = p' ++ q')
    (hle : byteLen p ≤ byteLen p') : ∃ m, p' = p ++ m ∧ q = m ++ q' := by
  rcases append_eq_append_iff.mp h with ⟨m, hp, hq⟩ | ⟨m, hp, hq⟩
  · exact ⟨m, hp, hq⟩
  · have hm : m = [] := by
      rw [hp, byteLen_append] at hle
      exact byteLen_eq_zero.mp (by omega)
    subst hm
    exact ⟨[], by simpa using hp.symm, by simpa using hq.symm⟩

theorem eq_of_byteLen_eq {p q p' q' : Text} (h : p ++ q = p' ++ q')
    (hlen : byteLen p = byteLen p') : p' = p ∧ q' = q := by
  obtain ⟨m, rfl, rfl⟩ := prefix_of_byteLen_le h (Nat.le_of_eq hlen)
  rw [byteLen_append] at hlen
  have hm : m = [] := byteLen_eq_zero.mp (by omega)
  rw [hm, append_nil, nil_append]
  exact ⟨rfl, rfl⟩

/-! ## Slices -/

/-- `str::get` on a byte range: none when the range is reversed, leaves the
text or cuts a character. -/
def slice (s : Text) (start stop : Nat) : Option Text :=
  if start ≤ stop then do
    let (_, rest) ← splitAtByte s start
    let (mid, _) ← splitAtByte rest (stop - start)
    some mid
  else none

theorem slice_append (pre m post : Text) :
    slice (pre ++ m ++ post) (byteLen pre) (byteLen pre + byteLen m) = some m := by
  rw [slice, if_pos (by omega), append_assoc, splitAtByte_append]
  simp [splitAtByte_append]

variable {m : Text} {start stop : Nat}

theorem append_of_slice (h : slice s start stop = some m) :
    ∃ pre post, s = pre ++ m ++ post ∧ byteLen pre = start ∧ start + byteLen m = stop := by
  rw [slice] at h
  split at h
  · rename_i hle
    obtain ⟨⟨pre, rest⟩, hpre, hrest⟩ := bind_eq_some_iff.mp h
    obtain ⟨⟨mid, post⟩, hmid, hm⟩ := bind_eq_some_iff.mp hrest
    obtain ⟨rfl, rfl⟩ := append_of_splitAtByte hpre
    obtain ⟨rfl, hlen⟩ := append_of_splitAtByte hmid
    obtain rfl : mid = m := by simpa using hm
    exact ⟨pre, post, by simp, rfl, by omega⟩
  · cases h

theorem slice_eq_some :
    slice s start stop = some m ↔
      ∃ pre post, s = pre ++ m ++ post ∧ byteLen pre = start ∧ start + byteLen m = stop := by
  refine ⟨append_of_slice, ?_⟩
  rintro ⟨pre, post, rfl, rfl, rfl⟩
  exact slice_append pre m post

theorem exists_slice (hle : start ≤ stop) (hstart : isCharBoundary s start = true)
    (hstop : isCharBoundary s stop = true) : ∃ m, slice s start stop = some m := by
  obtain ⟨p, q, rfl, rfl⟩ := append_of_isCharBoundary hstart
  obtain ⟨p', q', h, rfl⟩ := append_of_isCharBoundary hstop
  obtain ⟨m, rfl, rfl⟩ := prefix_of_byteLen_le h hle
  rw [← append_assoc, byteLen_append]
  exact ⟨m, slice_append p m q'⟩

theorem isCharBoundary_of_slice (h : slice s start stop = some m) :
    isCharBoundary s start = true ∧ isCharBoundary s stop = true := by
  obtain ⟨pre, post, rfl, rfl, rfl⟩ := append_of_slice h
  constructor
  · rw [append_assoc]
    exact isCharBoundary_append pre _
  · rw [← byteLen_append]
    exact isCharBoundary_append (pre ++ m) post

theorem slice_self (h : isCharBoundary s n = true) : slice s n n = some [] := by
  obtain ⟨pre, post, rfl, rfl⟩ := append_of_isCharBoundary h
  simpa using slice_append pre [] post

variable {c : Char}

theorem le_of_slice_singleton {p : Nat} (h : slice s start stop = some [c])
    (hp : isCharBoundary s p = true) (hlt : start < p) : stop ≤ p := by
  obtain ⟨pre, post, rfl, rfl, rfl⟩ := append_of_slice h
  obtain ⟨before, after, heq, rfl⟩ := append_of_isCharBoundary hp
  rw [append_assoc] at heq
  obtain ⟨m, rfl, hrest⟩ := prefix_of_byteLen_le heq hlt.le
  cases m with
  | nil => simp at hlt
  | cons d m =>
    obtain ⟨rfl, -⟩ := List.cons.inj hrest
    simp

/-! ## Replacing a slice -/

/-- `String::replace_range`: none where Rust panics. -/
def splice (s : Text) (start stop : Nat) (r : Text) : Option Text :=
  if start ≤ stop then do
    let (pre, rest) ← splitAtByte s start
    let (_, post) ← splitAtByte rest (stop - start)
    some (pre ++ r ++ post)
  else none

theorem splice_append (pre m post r : Text) :
    splice (pre ++ m ++ post) (byteLen pre) (byteLen pre + byteLen m) r =
      some (pre ++ r ++ post) := by
  rw [splice, if_pos (by omega), append_assoc, splitAtByte_append]
  simp [splitAtByte_append]

theorem slice_before {pre post : Text} (r : Text) {a b : Nat} (hb : b ≤ byteLen pre) {x : Text}
    (h : slice (pre ++ m ++ post) a b = some x) : slice (pre ++ r ++ post) a b = some x := by
  obtain ⟨p, q, heq, rfl, rfl⟩ := append_of_slice h
  rw [append_assoc pre] at heq
  obtain ⟨t, rfl, -⟩ := prefix_of_byteLen_le heq.symm (by simpa using hb)
  have hslice := slice_append p x (t ++ r ++ post)
  simpa using hslice

theorem slice_after {pre post : Text} (r : Text) {a b : Nat} (ha : byteLen pre + byteLen m ≤ a)
    {x : Text} (h : slice (pre ++ m ++ post) a b = some x) :
    slice (pre ++ r ++ post) (a - byteLen m + byteLen r) (b - byteLen m + byteLen r) = some x := by
  obtain ⟨p, q, heq, rfl, rfl⟩ := append_of_slice h
  rw [append_assoc p] at heq
  obtain ⟨t, rfl, rfl⟩ := prefix_of_byteLen_le heq (by simpa using ha)
  have hslice := slice_append (pre ++ r ++ t) x q
  have hstart : byteLen (pre ++ m ++ t) - byteLen m + byteLen r = byteLen (pre ++ r ++ t) := by
    simp only [byteLen_append]
    omega
  have hstop : byteLen (pre ++ m ++ t) + byteLen x - byteLen m + byteLen r =
      byteLen (pre ++ r ++ t) + byteLen x := by
    simp only [byteLen_append]
    omega
  rw [hstart, hstop]
  simpa using hslice

/-! ## Single bytes -/

/-- `as_bytes()[p]`, where there is one. -/
def byteAt (s : Text) (p : Nat) : Option UInt8 := (utf8Bytes s)[p]?

theorem length_utf8Bytes (s : Text) : (utf8Bytes s).length = byteLen s := by
  simp [utf8Bytes, byteLen, length_flatMap]

theorem utf8EncodeChar_of_mem {b : UInt8} (hb : b.toNat < 128) (h : b ∈ String.utf8EncodeChar c) :
    c.toNat = b.toNat ∧ String.utf8EncodeChar c = [b] := by
  unfold String.utf8EncodeChar at h ⊢
  simp only at h ⊢
  split_ifs at h ⊢ with h1 h2 h3
  · obtain rfl : b = UInt8.ofNat c.val.toNat := by simpa using h
    refine ⟨?_, rfl⟩
    simp only [UInt8.toNat_ofNat', Char.toNat]
    omega
  all_goals
    exfalso
    simp only [mem_cons, not_mem_nil, or_false] at h
    rcases h with rfl | rfl | rfl | rfl <;> simp only [UInt8.toNat_ofNat'] at hb <;> omega

theorem byteAt_eq_ascii {p : Nat} (hc : c.toNat < 128) :
    byteAt s p = some (UInt8.ofNat c.toNat) ↔
      ∃ pre post, s = pre ++ c :: post ∧ byteLen pre = p := by
  have hbyte : (UInt8.ofNat c.toNat).toNat = c.toNat := by
    simp only [UInt8.toNat_ofNat']
    omega
  constructor
  · intro h
    induction s generalizing p with
    | nil => simp [byteAt, utf8Bytes] at h
    | cons d s ih =>
      have hd : (String.utf8EncodeChar d).length = d.utf8Size := String.length_utf8EncodeChar d
      rw [byteAt, utf8Bytes, flatMap_cons] at h
      by_cases hp : p < d.utf8Size
      · rw [getElem?_append_left (by omega)] at h
        obtain ⟨hn, henc⟩ := utf8EncodeChar_of_mem (by omega) (mem_of_getElem? h)
        have hp0 : p = 0 := by
          have := congrArg List.length henc
          simp only [length_singleton] at this
          omega
        obtain rfl : d = c := Char.toNat_inj.mp (by omega)
        exact ⟨[], s, rfl, by simp [hp0]⟩
      · rw [getElem?_append_right (by omega), hd] at h
        obtain ⟨pre, post, rfl, hlen⟩ := ih h
        exact ⟨d :: pre, post, rfl, by simp; omega⟩
  · rintro ⟨pre, post, rfl, rfl⟩
    have henc : String.utf8EncodeChar c = [UInt8.ofNat c.toNat] := by
      have : c.val.toNat ≤ 0x7f := by
        have := hc
        simp only [Char.toNat] at this
        omega
      simp only [String.utf8EncodeChar, if_pos this, Char.toNat]
    rw [byteAt, utf8Bytes, flatMap_append, ← length_utf8Bytes, utf8Bytes,
      getElem?_append_right le_rfl]
    simp [henc]

end ByteText
