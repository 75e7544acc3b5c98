import Mathlib.Data.List.Basic
import Mathlib.Order.Basic
import Mathlib.Tactic

/-!
# Lines of a text

Texts as character lists, and the three ways a program looks at their
lines: splitting at `'\n'`, the line iterator that also drops a carriage
return in front of a newline (`lines`), and joining lines with `'\n'`.
Everything here is about arbitrary texts. The main facts:

* `lineInduction` — a text is empty, one unterminated line, or a line, a
  newline and a shorter text;
* `joinLines_lines` — without CRLF, joining the lines and putting the
  final newline back gives the text;
* `length_lines` / `count_joinLines` — how many newlines a text has, in
  terms of its lines. This is the measure that shows a line editor loses
  or invents a terminator.
-/

namespace TextLines

open List

abbrev Text := List Char

instance : LawfulBEq Text := inferInstance

/-- Drop one carriage return at the end. -/
def stripCr (p : Text) : Text :=
  if p.getLast? = some '\r' then p.dropLast else p

/-- The lines of a text given as its `'\n'`-separated pieces: a piece that
a newline follows loses a final `'\r'`, the last piece is kept as it is and
is no line when it is empty. -/
def linesOf : List Text → List Text
  | [] => []
  | [p] => if p = [] then [] else [p]
  | p :: q :: ps => stripCr p :: linesOf (q :: ps)

/-- The line iterator: lines end at `'\n'` or `"\r\n"`, the final line
ending is optional, and any other carriage return is an ordinary
character. -/
def lines (s : Text) : List Text := linesOf (s.splitOn '\n')

def joinLines (ls : List Text) : Text := ['\n'].intercalate ls

def endsNl (s : Text) : Bool := s.getLast? == some '\n'

/-- No carriage return stands directly in front of a newline. -/
def NoCrlf (s : Text) : Prop := ¬ ['\r', '\n'] <:+: s

/-- Every carriage return stands directly in front of a newline. -/
def NoLoneCr : Text → Prop
  | [] => True
  | c :: s => (c = '\r' → s.head? = some '\n') ∧ NoLoneCr s

instance : DecidablePred NoCrlf := fun s => by unfold NoCrlf; infer_instance

/-! ## The shape of a text -/

theorem exists_line (s : Text) (h : '\n' ∈ s) :
    ∃ a t, '\n' ∉ a ∧ s = a ++ '\n' :: t := by
  induction s with
  | nil => cases h
  | cons c s ih =>
    by_cases hc : c = '\n'
    · exact ⟨[], s, by simp, by simp [hc]⟩
    · have hs : '\n' ∈ s := by
        rcases mem_cons.mp h with h | h
        · exact absurd h.symm hc
        · exact h
      obtain ⟨a, t, ha, rfl⟩ := ih hs
      refine ⟨c :: a, t, ?_, rfl⟩
      simp only [mem_cons, not_or]
      exact ⟨fun h => hc h.symm, ha⟩

theorem lineInduction {motive : Text → Prop} (nil : motive [])
    (last : ∀ a, '\n' ∉ a → a ≠ [] → motive a)
    (cons : ∀ a t, '\n' ∉ a → motive t → motive (a ++ '\n' :: t)) (s : Text) :
    motive s := by
  induction hn : s.length using Nat.strong_induction_on generalizing s with
  | h n ih =>
    by_cases hnl : '\n' ∈ s
    · obtain ⟨a, t, ha, rfl⟩ := exists_line s hnl
      refine cons a t ha (ih t.length ?_ t rfl)
      simp only [length_append, length_cons] at hn
      omega
    · by_cases hs : s = []
      · exact hs ▸ nil
      · exact last s hnl hs

variable {a : Text}

theorem splitOn_line (ha : '\n' ∉ a) (t : Text) :
    (a ++ '\n' :: t).splitOn '\n' = a :: t.splitOn '\n' := by
  rw [splitOn_append_cons_of_beq _ _ (by rfl), splitOn_eq_singleton ha]
  rfl

/-! ## The line iterator -/

@[simp] theorem lines_nil : lines [] = [] := rfl

theorem lines_cons (ha : '\n' ∉ a) (t : Text) : lines (a ++ '\n' :: t) = stripCr a :: lines t := by
  rw [lines, splitOn_line ha, lines]
  cases ht : t.splitOn '\n' with
  | nil => exact absurd ht (splitOn_ne_nil _ _)
  | cons q ps => rfl

theorem lines_last (ha : '\n' ∉ a) (hne : a ≠ []) : lines a = [a] := by
  rw [lines, splitOn_eq_singleton ha]
  simp [linesOf, hne]

theorem mem_stripCr {c : Char} (h : c ∈ stripCr a) : c ∈ a := by
  unfold stripCr at h
  split at h
  · exact dropLast_subset _ h
  · exact h

theorem newline_notMem_lines (s : Text) : ∀ l ∈ lines s, '\n' ∉ l := by
  induction s using lineInduction with
  | nil => simp
  | last a ha hne => simpa [lines_last ha hne] using ha
  | cons a t ha ih =>
    rw [lines_cons ha]
    intro l hl
    rcases mem_cons.mp hl with rfl | hl
    · exact fun h => ha (mem_stripCr h)
    · exact ih l hl

theorem endsNl_append_cons (a : Text) (c : Char) (t : Text) :
    endsNl (a ++ c :: t) = endsNl (c :: t) := by
  simp [endsNl, getLast?_append]

variable {t : Text}

theorem endsNl_append (h : t ≠ []) : endsNl (a ++ t) = endsNl t := by
  cases t with
  | nil => exact absurd rfl h
  | cons c t => exact endsNl_append_cons a c t

theorem endsNl_of_notMem (ha : '\n' ∉ a) : endsNl a = false := by
  cases h : a.getLast? with
  | none => simp [endsNl, h]
  | some c =>
    have hc : c ≠ '\n' := fun hc => ha (hc ▸ mem_of_getLast? h)
    simp [endsNl, h, hc]

theorem endsNl_line (a t : Text) :
    endsNl (a ++ '\n' :: t) = (t.isEmpty || endsNl t) := by
  rw [endsNl_append_cons]
  cases t with
  | nil => rfl
  | cons c t => simp [endsNl]

/-- How many lines a text has: one for each newline, and one more for a
final line without one. -/
theorem length_lines (s : Text) :
    (lines s).length = s.count '\n' + (if s = [] ∨ endsNl s then 0 else 1) := by
  induction s using lineInduction with
  | nil => simp
  | last a ha hne =>
    simp [lines_last ha hne, count_eq_zero_of_not_mem ha, hne,
      endsNl_of_notMem ha]
  | cons a t ha ih =>
    rw [lines_cons ha, length_cons, ih, List.count_append,
      count_eq_zero_of_not_mem ha, count_cons_self, endsNl_line]
    cases t with
    | nil => simp
    | cons c t =>
      simp only [isEmpty_cons, Bool.false_or]
      have h1 : (a ++ '\n' :: c :: t = [] ∨ endsNl (c :: t) = true)
          ↔ (c :: t = [] ∨ endsNl (c :: t) = true) := by simp
      simp only [h1]
      omega

variable {s : Text}

theorem lines_ne_nil (h : s ≠ []) : lines s ≠ [] := by
  induction s using lineInduction with
  | nil => exact absurd rfl h
  | last a ha hne => simp [lines_last ha hne]
  | cons a t ha ih => simp [lines_cons ha]

/-! ## Joining -/

@[simp] theorem joinLines_nil : joinLines [] = [] := rfl

@[simp] theorem joinLines_singleton (l : Text) : joinLines [l] = l := by
  simp [joinLines]

variable {ls : List Text}

theorem joinLines_cons (h : ls ≠ []) (l : Text) : joinLines (l :: ls) = l ++ '\n' :: joinLines ls := by
  simp [joinLines, intercalate_cons_of_ne_nil h]

theorem count_joinLines (h : ∀ l ∈ ls, '\n' ∉ l) : (joinLines ls).count '\n' = ls.length - 1 := by
  induction ls with
  | nil => rfl
  | cons l ls ih =>
    have hl : l.count '\n' = 0 := count_eq_zero_of_not_mem (h l (by simp))
    by_cases hls : ls = []
    · subst hls; simp [hl]
    · have hpos : 0 < ls.length := length_pos_iff.mpr hls
      rw [joinLines_cons hls, List.count_append, hl, count_cons_self,
        ih (fun x hx => h x (by simp [hx])), length_cons]
      omega

/-! ## Texts without CRLF -/

theorem NoCrlf.of_cr_notMem (h : '\r' ∉ s) : NoCrlf s :=
  fun hc => h (hc.subset (by simp))

theorem NoCrlf.right (h : NoCrlf (a ++ t)) : NoCrlf t :=
  fun hc => h (hc.trans (suffix_append a t).isInfix)

theorem NoCrlf.line (h : NoCrlf (a ++ '\n' :: t)) : a.getLast? ≠ some '\r' := by
  intro ha
  obtain ⟨b, rfl⟩ : ∃ b, a = b ++ ['\r'] :=
    ⟨a.dropLast, by rw [dropLast_append_getLast? _ ha]⟩
  exact h ⟨b, t, by simp⟩

theorem joinLines_lines (h : NoCrlf s) :
    joinLines (lines s) ++ (if endsNl s then ['\n'] else []) = s := by
  induction s using lineInduction with
  | nil => rfl
  | last a ha hne => simp [lines_last ha hne, endsNl_of_notMem ha]
  | cons a t ha ih =>
    have hstrip : stripCr a = a := if_neg h.line
    have ht : NoCrlf t := NoCrlf.right (a := a ++ ['\n']) (by simpa using h)
    rw [lines_cons ha, hstrip, endsNl_line]
    cases t with
    | nil => simp
    | cons c t =>
      have hne : lines (c :: t) ≠ [] := lines_ne_nil (by simp)
      rw [joinLines_cons hne]
      have ih' := ih ht
      simp only [isEmpty_cons, Bool.false_or, append_assoc, cons_append]
      rw [ih']

/-! ## Texts without a lone carriage return -/

theorem NoLoneCr.of_cr_notMem (h : '\r' ∉ s) : NoLoneCr s := by
  induction s with
  | nil => trivial
  | cons c s ih =>
    refine ⟨fun hc => absurd hc ?_, ih (fun hm => h (by simp [hm]))⟩
    rintro rfl
    simp at h

theorem NoLoneCr.append (hs : NoLoneCr s) (ht : NoLoneCr t) : NoLoneCr (s ++ t) := by
  induction s with
  | nil => exact ht
  | cons c s ih =>
    obtain ⟨h1, h2⟩ := hs
    refine ⟨fun hc => ?_, ih h2⟩
    have hhead := h1 hc
    cases s with
    | nil => simp at hhead
    | cons d s => exact hhead

theorem NoLoneCr.cr_notMem (h : NoLoneCr s) (hnl : '\n' ∉ s) : '\r' ∉ s := by
  induction s with
  | nil => simp
  | cons c s ih =>
    obtain ⟨h1, h2⟩ := h
    simp only [mem_cons, not_or] at hnl ⊢
    refine ⟨fun hc => hnl.2 ?_, ih h2 hnl.2⟩
    exact mem_of_head? (h1 hc.symm)

theorem NoLoneCr.line (h : NoLoneCr (a ++ '\n' :: t)) (ha : '\n' ∉ a) :
    '\r' ∉ stripCr a ∧ NoLoneCr t := by
  induction a with
  | nil => exact ⟨by simp [stripCr], h.2⟩
  | cons c a ih =>
    obtain ⟨h1, h2⟩ := h
    simp only [mem_cons, not_or] at ha
    obtain ⟨ih1, ih2⟩ := ih h2 ha.2
    refine ⟨?_, ih2⟩
    cases a with
    | nil =>
      by_cases hc : c = '\r'
      · simp [stripCr, hc]
      · simp [stripCr, hc, Ne.symm hc]
    | cons d a =>
      -- a carriage return here would be followed by `d`, no newline
      have hc : c ≠ '\r' := by
        intro hc
        have hd : d = '\n' := by simpa using h1 hc
        exact ha.2 (by simp [hd])
      have hstrip : stripCr (c :: d :: a) = c :: stripCr (d :: a) := by
        simp only [stripCr, getLast?_cons_cons, dropLast_cons_cons]
        split <;> rfl
      rw [hstrip]
      simp only [mem_cons, not_or]
      exact ⟨fun h => hc h.symm, ih1⟩

theorem NoLoneCr.lines (h : NoLoneCr s) : ∀ l ∈ lines s, '\r' ∉ l := by
  induction s using lineInduction with
  | nil => simp
  | last a ha hne => simpa [lines_last ha hne] using h.cr_notMem ha
  | cons a t ha ih =>
    obtain ⟨h1, h2⟩ := h.line ha
    rw [lines_cons ha]
    intro l hl
    rcases mem_cons.mp hl with rfl | hl
    · exact h1
    · exact ih h2 l hl

theorem cr_notMem_joinLines (h : ∀ l ∈ ls, '\r' ∉ l) : '\r' ∉ joinLines ls := by
  induction ls with
  | nil => simp
  | cons l ls ih =>
    by_cases hls : ls = []
    · subst hls
      simpa using h
    · rw [joinLines_cons hls]
      simp only [mem_append, mem_cons, not_or]
      exact ⟨h l (by simp), by decide, ih (fun x hx => h x (by simp [hx]))⟩

end TextLines
