import Mathlib.Tactic

/-!
# Append-only logs of lines

A log that holds one record a line. A codec is lawful on a record when it
reads it back and none of its bytes can be mistaken for the end of a line or
for a shorter record. Then the records in front of a torn tail can be read
off the file again (`splitLines_encodeAll`).
-/

namespace LineLog

open List

abbrev Bytes := List UInt8

def newline : UInt8 := 10

structure Codec (α : Type) where
  encode : α → Bytes
  decode : Bytes → Option α

/-- The file as it stands behind the newlines: the lines that are terminated
and what follows the last of them. -/
def splitLines : Bytes → List Bytes × Bytes
  | [] => ([], [])
  | b :: bs =>
    let (lines, tail) := splitLines bs
    if b = newline then ([] :: lines, tail)
    else match lines with
      | [] => ([], b :: tail)
      | l :: lines => ((b :: l) :: lines, tail)

theorem splitLines_of_not_mem {t : Bytes} (h : newline ∉ t) : splitLines t = ([], t) := by
  induction t with
  | nil => rfl
  | cons b t ih =>
    rw [mem_cons, not_or] at h
    rw [splitLines, ih h.2]
    simp [Ne.symm h.1]

theorem splitLines_line {l : Bytes} (h : newline ∉ l) (rest : Bytes) :
    splitLines (l ++ newline :: rest) = (l :: (splitLines rest).1, (splitLines rest).2) := by
  induction l with
  | nil =>
    rw [nil_append, splitLines]
    simp
  | cons b l ih =>
    rw [mem_cons, not_or] at h
    rw [cons_append, splitLines, ih h.2]
    simp [Ne.symm h.1]

namespace Codec

variable {α : Type} (codec : Codec α)

/-- The record can be told from every other record and from every torn
part of itself. -/
structure Lawful (a : α) : Prop where
  decode_encode : codec.decode (codec.encode a) = some a
  newline_not_mem : newline ∉ codec.encode a
  decode_torn : ∀ p, p <+: codec.encode a → p ≠ codec.encode a → codec.decode p = none

/-- A record with its newline. -/
def line (a : α) : Bytes := codec.encode a ++ [newline]

def encodeAll (records : List α) : Bytes := records.flatMap codec.line

@[simp] theorem length_line (a : α) : (codec.line a).length = (codec.encode a).length + 1 := by
  simp [line]

@[simp] theorem encodeAll_nil : codec.encodeAll [] = [] := rfl

@[simp] theorem encodeAll_append (as bs : List α) :
    codec.encodeAll (as ++ bs) = codec.encodeAll as ++ codec.encodeAll bs := by
  simp [encodeAll]

@[simp] theorem encodeAll_singleton (a : α) : codec.encodeAll [a] = codec.line a := by
  simp [encodeAll]

theorem splitLines_encodeAll {records : List α} (h : ∀ a ∈ records, codec.Lawful a) {tail : Bytes}
    (htail : newline ∉ tail) :
    splitLines (codec.encodeAll records ++ tail) = (records.map codec.encode, tail) := by
  induction records with
  | nil => exact splitLines_of_not_mem htail
  | cons a records ih =>
    have hfile : codec.encodeAll (a :: records) ++ tail =
        codec.encode a ++ newline :: (codec.encodeAll records ++ tail) := by
      simp [encodeAll, line]
    rw [hfile, splitLines_line (h a mem_cons_self).newline_not_mem,
      ih fun b hb => h b (mem_cons_of_mem a hb)]
    rfl

theorem take_line_of_lt {a : α} {n : Nat} (h : n < (codec.encode a).length) :
    (codec.line a).take n = (codec.encode a).take n := by
  rw [line, take_append_of_le_length h.le]

theorem torn_ne {a : α} {n : Nat} (h : n < (codec.encode a).length) :
    (codec.encode a).take n ≠ codec.encode a := by
  intro heq
  have hlength := congrArg List.length heq
  rw [length_take] at hlength
  omega

end Codec

end LineLog
