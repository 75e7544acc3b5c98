import GrokBuild.Lib.LineLog

/-!
# Logs of lines whose appends may be torn

A writer appends a record and its newline, and may stop after any number of
the bytes. Before it writes it looks at the last byte of the file: where that
is no newline, it writes one first, so a torn record stays a line of its own.
The lines of the file that are not empty are then the records as far as they
were written (`pieces_append`), whatever the writer before did. A tolerant
reader, which skips what it cannot read, returns the records that were written
as a whole (`filterMap_pieces_run`); a strict one fails as soon as one record
is torn.
-/

namespace LineLog

open List

/-! ## The lines of a file -/

/-- The terminated lines and what stands behind the last newline. -/
def segments (file : Bytes) : List Bytes := (splitLines file).1 ++ [(splitLines file).2]

/-- The lines that are not empty. -/
def pieces (file : Bytes) : List Bytes := (segments file).filter (· ≠ [])

@[simp] theorem pieces_nil : pieces [] = [] := rfl
variable {p : Bytes}

theorem splitLines_append_of_not_mem (file : Bytes) (hp : newline ∉ p) :
    splitLines (file ++ p) = ((splitLines file).1, (splitLines file).2 ++ p) := by
  induction file with
  | nil => exact splitLines_of_not_mem hp
  | cons b file ih =>
    rw [cons_append, splitLines, splitLines, ih]
    rcases splitLines file with ⟨_ | ⟨l, ls⟩, tail⟩ <;> by_cases hb : b = newline <;> simp [hb]

theorem splitLines_append_newline (file rest : Bytes) :
    splitLines (file ++ newline :: rest) =
      ((splitLines file).1 ++ (splitLines file).2 :: (splitLines rest).1, (splitLines rest).2) := by
  induction file with
  | nil =>
    rw [nil_append, splitLines]
    simp [splitLines]
  | cons b file ih =>
    rw [cons_append, splitLines, ih, splitLines]
    rcases splitLines file with ⟨_ | ⟨l, ls⟩, tail⟩ <;> by_cases hb : b = newline <;> simp [hb]

theorem segments_append_of_not_mem (file : Bytes) (hp : newline ∉ p) :
    segments (file ++ p) = (splitLines file).1 ++ [(splitLines file).2 ++ p] := by
  rw [segments, splitLines_append_of_not_mem file hp]

theorem segments_append_newline (file rest : Bytes) :
    segments (file ++ newline :: rest) = segments file ++ segments rest := by
  simp [segments, splitLines_append_newline]

/-! ## Appends -/

/-- Is the last line terminated, if there is one? -/
def terminated (file : Bytes) : Bool := file.getLast?.all (· == newline)
variable {file : Bytes}

theorem terminated_iff : terminated file = true ↔ (splitLines file).2 = [] := by
  rcases eq_nil_or_concat' file with rfl | ⟨init, b, rfl⟩
  · simp [terminated, splitLines]
  · by_cases hb : b = newline
    · subst hb
      rw [splitLines_append_newline]
      simp [terminated, splitLines]
    · rw [splitLines_append_of_not_mem init (by simpa using Ne.symm hb)]
      simp [terminated, hb]

/-- What the writer puts in front of a record. -/
def heal (file : Bytes) : Bytes := if terminated file then [] else [newline]

/-- Append a record and its newline, but stop after `written` bytes. -/
def appendTorn (file record : Bytes) (written : Nat) : Bytes :=
  file ++ (heal file ++ record ++ [newline]).take written

/-- How many bytes of the record and its newline an append that stops after
`written` bytes gets to. -/
def reached (file : Bytes) (written : Nat) : Nat := written - (heal file).length

/-- The lines after an append are the lines before it and as much of the
record as was written. -/
theorem pieces_append {record : Bytes} (h : newline ∉ record) (file : Bytes) (written : Nat) :
    pieces (appendTorn file record written) =
      pieces file ++ [record.take (reached file written)].filter (· ≠ []) := by
  have hsplit : newline ∉ record.take (reached file written) :=
    fun hmem => h (mem_of_mem_take hmem)
  -- behind a newline, or at the start of the file, a record is a new line
  have hnew : ∀ n, (segments ((record ++ [newline]).take n)).filter (· ≠ []) =
      [record.take n].filter (· ≠ []) := by
    intro n
    by_cases hn : n ≤ record.length
    · have htake : newline ∉ record.take n := fun hmem => h (mem_of_mem_take hmem)
      rw [take_append_of_le_length hn, segments, splitLines_of_not_mem htake]
      rfl
    · have hline : (record ++ [newline]).take n = record ++ newline :: [] :=
        take_of_length_le (by simp; omega)
      rw [hline, segments_append_newline, segments, splitLines_of_not_mem h,
        take_of_length_le (by omega)]
      simp [segments, splitLines, filter_cons]
  by_cases hterm : terminated file = true
  · have hheal : heal file = [] := if_pos hterm
    have htail := terminated_iff.mp hterm
    have hreached : reached file written = written := by simp [reached, hheal]
    rw [appendTorn, hheal, nil_append, hreached]
    by_cases hw : written ≤ record.length
    · have htake : newline ∉ record.take written := fun hmem => h (mem_of_mem_take hmem)
      rw [take_append_of_le_length hw, pieces, segments_append_of_not_mem file htake, pieces,
        segments, htail]
      simp
    · have hline : (record ++ [newline]).take written = record ++ newline :: [] :=
        take_of_length_le (by simp; omega)
      rw [hline, ← append_assoc, pieces, segments_append_newline,
        segments_append_of_not_mem file h, pieces, take_of_length_le (by omega)]
      simp [segments, splitLines, htail, filter_cons]
  · have hheal : heal file = [newline] := if_neg hterm
    have hreached : reached file written = written - 1 := by simp [reached, hheal]
    rw [appendTorn, hheal, hreached]
    cases written with
    | zero => simp
    | succ n =>
      rw [append_assoc, singleton_append, take_succ_cons, pieces,
        segments_append_newline, filter_append, hnew]
      rfl

/-! ## Line iterators -/

/-- Drop one carriage return at the end of a line. -/
def stripReturn (l : Bytes) : Bytes := if l.getLast? = some 13 then l.dropLast else l

/-- The lines as a line iterator gives them: without their terminators, and
without an empty last line. -/
def strLines (file : Bytes) : List Bytes :=
  (splitLines file).1.map stripReturn ++
    if (splitLines file).2 = [] then [] else [(splitLines file).2]

theorem stripReturn_of_not_mem {l : Bytes} (h : 13 ∉ l) : stripReturn l = l :=
  if_neg fun hlast => h (mem_of_getLast? hlast)

theorem strLines_filter {blank : Bytes → Bool} (hempty : blank [] = true)
    (h : ∀ p ∈ pieces file, 13 ∉ p) :
    (strLines file).filter (!blank ·) = (pieces file).filter (!blank ·) := by
  have hlines : ∀ l ∈ (splitLines file).1, stripReturn l = l := by
    intro l hl
    by_cases hne : l = []
    · rw [hne]
      rfl
    · exact stripReturn_of_not_mem (h l (by simp [pieces, segments, hl, hne]))
  have hskip : ∀ ls : List Bytes, (ls.filter (· ≠ [])).filter (!blank ·) = ls.filter (!blank ·) := by
    intro ls
    rw [List.filter_filter]
    refine filter_congr fun l _ => ?_
    by_cases hl : l = []
    · simp [hl, hempty]
    · simp [hl]
  rw [pieces, hskip, strLines, segments, map_congr_left hlines, List.map_id',
    filter_append, filter_append]
  split
  · next htail => simp [htail, hempty]
  · rfl

/-- What a strict reader asks of its notions of a valid file and a blank line. -/
structure LineTests (valid blank : Bytes → Bool) : Prop where
  blank_nil : blank [] = true
  valid_nil : valid [] = true
  valid_newline : valid [newline] = true
  valid_append : ∀ {a b}, valid a = true → valid b = true → valid (a ++ b) = true

/-! ## Runs of appends -/

/-- An append of a record, and after how many bytes it stops. -/
structure TornAppend (α : Type) where
  record : α
  written : Nat

section Runs

variable {α β : Type} (encode : α → Bytes)

def append (file : Bytes) (a : TornAppend α) : Bytes :=
  appendTorn file (encode a.record) a.written

def runAppends (file : Bytes) (as : List (TornAppend α)) : Bytes := as.foldl (append encode) file

/-- The records whose bytes were all written, the newline apart. -/
def whole : Bytes → List (TornAppend α) → List α
  | _, [] => []
  | file, a :: as =>
    (if (encode a.record).length ≤ reached file a.written then [a.record] else []) ++
      whole (append encode file a) as

/-- The append stops inside its record. -/
def Torn (file : Bytes) (a : TornAppend α) : Prop :=
  0 < reached file a.written ∧ reached file a.written < (encode a.record).length

instance (file : Bytes) (a : TornAppend α) : Decidable (Torn encode file a) := by
  unfold Torn
  infer_instance

/-- No append stops inside its record. -/
def NoneTorn : Bytes → List (TornAppend α) → Prop
  | _, [] => True
  | file, a :: as => ¬ Torn encode file a ∧ NoneTorn (append encode file a) as

instance decidableNoneTorn : (file : Bytes) → (as : List (TornAppend α)) →
    Decidable (NoneTorn encode file as)
  | _, [] => inferInstanceAs (Decidable True)
  | file, a :: as =>
    have := decidableNoneTorn (append encode file a) as
    inferInstanceAs (Decidable (¬ Torn encode file a ∧ NoneTorn encode (append encode file a) as))

variable {encode} in
theorem mem_whole {as : List (TornAppend α)} {r : α}
    (h : r ∈ whole encode file as) : ∃ a ∈ as, a.record = r := by
  induction as generalizing file with
  | nil => exact absurd h not_mem_nil
  | cons a as ih =>
    rw [whole, mem_append] at h
    rcases h with h | h
    · split at h
      · exact ⟨a, mem_cons_self, (mem_singleton.mp h).symm⟩
      · exact absurd h not_mem_nil
    · obtain ⟨b, hb, rfl⟩ := ih h
      exact ⟨b, mem_cons_of_mem a hb, rfl⟩

/-! ## Readers that skip what they cannot read -/

theorem take_ne_of_lt {record : Bytes} {n : Nat} (h : n < record.length) :
    record.take n ≠ record := by
  intro heq
  have hlength := congrArg List.length heq
  rw [length_take] at hlength
  omega

variable {read : Bytes → Option β}

theorem filterMap_filter_ne_nil (hnil : read [] = none)
    (ls : List Bytes) : (ls.filter (· ≠ [])).filterMap read = ls.filterMap read := by
  rw [filterMap_filter]
  refine congrArg (List.filterMap · ls) (funext fun l => ?_)
  by_cases hl : l = []
  · simp [hl, hnil]
  · simp [hl]

theorem filterMap_pieces (hnil : read [] = none) (file : Bytes) :
    (pieces file).filterMap read = (segments file).filterMap read :=
  filterMap_filter_ne_nil hnil _

/-- What a reader that skips bad lines gets of the appended records: those that
were written as a whole, in order. -/
theorem filterMap_pieces_run (hnil : read [] = none)
    {as : List (TornAppend α)} (hnewline : ∀ a ∈ as, newline ∉ encode a.record)
    (hread : ∀ a ∈ as, ∀ p, p <+: encode a.record → p ≠ encode a.record →
      read p = none) (file : Bytes) :
    (pieces (runAppends encode file as)).filterMap read =
      (pieces file).filterMap read ++
        (whole encode file as).filterMap fun a => read (encode a) := by
  induction as generalizing file with
  | nil => simp [runAppends, whole]
  | cons a as ih =>
    have htail := ih (fun b hb => hnewline b (mem_cons_of_mem a hb))
      (fun b hb => hread b (mem_cons_of_mem a hb)) (append encode file a)
    have hnew : ([(encode a.record).take (reached file a.written)].filter
        (· ≠ [])).filterMap read =
        (if (encode a.record).length ≤ reached file a.written then [a.record]
          else []).filterMap fun a => read (encode a) := by
      rw [filterMap_filter_ne_nil hnil]
      split
      · next hwhole =>
        rw [take_of_length_le hwhole]
        rfl
      · next hcut =>
        have hlt : reached file a.written < (encode a.record).length := not_le.mp hcut
        simp [hread a mem_cons_self _ (List.take_prefix _ _) (take_ne_of_lt hlt)]
    rw [runAppends, foldl_cons, ← runAppends, htail, append,
      pieces_append (hnewline a mem_cons_self), whole, filterMap_append,
      filterMap_append, append_assoc, hnew, append]

/-! ## Readers that fail on what they cannot read -/

namespace Codec

variable (codec : Codec α)

/-- A reader that needs the file to be valid, and every line that is not blank
to be a record. -/
def readStrict (valid blank : Bytes → Bool) (file : Bytes) : Option (List α) :=
  if valid file then ((strLines file).filter (!blank ·)).mapM codec.decode else none

/-- What a strict reader asks of a record. -/
structure StrictLawful (valid blank : Bytes → Bool) (a : α) : Prop extends codec.Lawful a where
  valid : valid (codec.encode a) = true
  no_return : 13 ∉ codec.encode a
  not_blank : ∀ p, p <+: codec.encode a → p ≠ [] → blank p = false
  ne_nil : codec.encode a ≠ []

variable {codec} {valid blank : Bytes → Bool}

theorem exists_of_mem_pieces {as : List (TornAppend α)}
    (hnewline : ∀ a ∈ as, newline ∉ codec.encode a.record) {file p : Bytes}
    (hp : p ∈ pieces (runAppends codec.encode file as)) :
    p ∈ pieces file ∨ ∃ a ∈ as, p <+: codec.encode a.record := by
  induction as generalizing file with
  | nil => exact Or.inl hp
  | cons a as ih =>
    rcases ih (fun b hb => hnewline b (mem_cons_of_mem a hb)) hp with hp | ⟨b, hb, hpre⟩
    · rw [append, pieces_append (hnewline a mem_cons_self), mem_append] at hp
      rcases hp with hp | hp
      · exact Or.inl hp
      · obtain rfl := mem_singleton.mp (mem_of_mem_filter hp)
        exact Or.inr ⟨a, mem_cons_self, take_prefix _ _⟩
    · exact Or.inr ⟨b, mem_cons_of_mem a hb, hpre⟩

theorem mem_pieces_runAppends {as : List (TornAppend α)}
    (hnewline : ∀ a ∈ as, newline ∉ codec.encode a.record) {file p : Bytes}
    (hp : p ∈ pieces file) : p ∈ pieces (runAppends codec.encode file as) := by
  induction as generalizing file with
  | nil => exact hp
  | cons a as ih =>
    refine ih (fun b hb => hnewline b (mem_cons_of_mem a hb)) ?_
    rw [append, pieces_append (hnewline a mem_cons_self)]
    exact mem_append_left _ hp

/-- A torn record stays in the file. -/
theorem exists_torn_piece {as : List (TornAppend α)}
    (hnewline : ∀ a ∈ as, newline ∉ codec.encode a.record)
    (h : ¬ NoneTorn codec.encode file as) :
    ∃ a ∈ as, ∃ p ∈ pieces (runAppends codec.encode file as),
      p <+: codec.encode a.record ∧ p ≠ codec.encode a.record := by
  induction as generalizing file with
  | nil => exact absurd trivial h
  | cons a as ih =>
    have hrest : ∀ b ∈ as, newline ∉ codec.encode b.record :=
      fun b hb => hnewline b (mem_cons_of_mem a hb)
    by_cases htorn : Torn codec.encode file a
    · refine ⟨a, mem_cons_self, (codec.encode a.record).take (reached file a.written), ?_,
        take_prefix _ _, take_ne_of_lt htorn.2⟩
      refine mem_pieces_runAppends hrest ?_
      have hne : (codec.encode a.record).take (reached file a.written) ≠ [] := by
        have hlength := htorn.1.trans htorn.2
        intro hnil
        rcases take_eq_nil_iff.mp hnil with h0 | h0
        · exact absurd htorn.1 (by omega)
        · simp [h0] at hlength
      rw [append, pieces_append (hnewline a mem_cons_self)]
      simp [hne]
    · have hlater : ¬ NoneTorn codec.encode (append codec.encode file a) as := fun h' => h ⟨htorn, h'⟩
      obtain ⟨b, hb, p, hp, hpre⟩ := ih hrest hlater
      exact ⟨b, mem_cons_of_mem a hb, p, hp, hpre⟩

theorem mapM_decode_of_mem {ls : List Bytes} (hp : p ∈ ls)
    (hdecode : codec.decode p = none) : ls.mapM codec.decode = none := by
  induction ls with
  | nil => exact absurd hp not_mem_nil
  | cons l ls ih =>
    rw [mapM_cons]
    rcases mem_cons.mp hp with rfl | hp
    · rw [hdecode]
      rfl
    · rw [ih hp]
      cases codec.decode l <;> rfl
variable {records : List α}

theorem mapM_decode_encode (h : ∀ a ∈ records, codec.Lawful a) :
    (records.map codec.encode).mapM codec.decode = some records := by
  induction records with
  | nil => rfl
  | cons a records ih =>
    rw [map_cons, mapM_cons, (h a mem_cons_self).decode_encode,
      ih fun b hb => h b (mem_cons_of_mem a hb)]
    rfl

theorem no_return_of_mem_pieces {as : List (TornAppend α)}
    (hlawful : ∀ a ∈ as, codec.StrictLawful valid blank a.record)
    (hp : p ∈ pieces (runAppends codec.encode [] as)) : 13 ∉ p := by
  rcases exists_of_mem_pieces (fun a ha => (hlawful a ha).newline_not_mem) hp with
    hp | ⟨a, ha, hpre⟩
  · exact absurd hp not_mem_nil
  · exact fun hmem => (hlawful a ha).no_return (hpre.subset hmem)

theorem readStrict_of_torn (tests : LineTests valid blank) {as : List (TornAppend α)}
    (hlawful : ∀ a ∈ as, codec.StrictLawful valid blank a.record) (h : ¬ NoneTorn codec.encode [] as) :
    codec.readStrict valid blank (runAppends codec.encode [] as) = none := by
  obtain ⟨a, ha, p, hp, hpre, hne⟩ :=
    exists_torn_piece (fun a ha => (hlawful a ha).newline_not_mem) h
  have hshown : blank p = false := (hlawful a ha).not_blank p hpre (by
    have hfilter := of_mem_filter hp
    simpa using hfilter)
  unfold readStrict
  rw [strLines_filter tests.blank_nil fun q hq => no_return_of_mem_pieces hlawful hq]
  split
  · exact mapM_decode_of_mem (mem_filter.mpr ⟨hp, by simp [hshown]⟩)
      ((hlawful a ha).decode_torn p hpre hne)
  · rfl

theorem pieces_of_noneTorn {as : List (TornAppend α)}
    (hlawful : ∀ a ∈ as, codec.StrictLawful valid blank a.record)
    (h : NoneTorn codec.encode file as) :
    pieces (runAppends codec.encode file as) = pieces file ++ (whole codec.encode file as).map codec.encode := by
  induction as generalizing file with
  | nil => simp [runAppends, whole]
  | cons a as ih =>
    have ha := hlawful a mem_cons_self
    have hnew : [(codec.encode a.record).take (reached file a.written)].filter (· ≠ []) =
        (if (codec.encode a.record).length ≤ reached file a.written then [a.record]
          else []).map codec.encode := by
      split
      · next hwhole =>
        rw [take_of_length_le hwhole]
        simp [ha.ne_nil]
      · next hcut =>
        have hzero : reached file a.written = 0 := by
          by_contra hpos
          exact h.1 ⟨Nat.pos_of_ne_zero hpos, not_le.mp hcut⟩
        simp [hzero]
    rw [runAppends, foldl_cons, ← runAppends,
      ih (fun b hb => hlawful b (mem_cons_of_mem a hb)) h.2, append,
      pieces_append ha.newline_not_mem, hnew, whole, map_append, append_assoc, append]

theorem valid_append (tests : LineTests valid blank) (hfile : valid file = true)
    {a : TornAppend α} (ha : codec.StrictLawful valid blank a.record) (h : ¬ Torn codec.encode file a) :
    valid (append codec.encode file a) = true := by
  have hheal : ∀ n, valid ((heal file).take n) = true := by
    intro n
    unfold heal
    split
    · simpa using tests.valid_nil
    · cases n with
      | zero => exact tests.valid_nil
      | succ n => simpa using tests.valid_newline
  have hend : ∀ n, valid ([newline].take n) = true := by
    intro n
    cases n with
    | zero => exact tests.valid_nil
    | succ n => simpa using tests.valid_newline
  refine tests.valid_append hfile ?_
  rw [take_append, take_append]
  refine tests.valid_append (tests.valid_append (hheal _) ?_) (hend _)
  change valid ((codec.encode a.record).take (reached file a.written)) = true
  by_cases hwhole : (codec.encode a.record).length ≤ reached file a.written
  · rw [take_of_length_le hwhole]
    exact ha.valid
  · have hzero : reached file a.written = 0 := by
      by_contra hpos
      exact h ⟨Nat.pos_of_ne_zero hpos, not_le.mp hwhole⟩
    simpa [hzero] using tests.valid_nil

theorem valid_runAppends (tests : LineTests valid blank) {as : List (TornAppend α)}
    (hlawful : ∀ a ∈ as, codec.StrictLawful valid blank a.record)
    (hfile : valid file = true) (h : NoneTorn codec.encode file as) :
    valid (runAppends codec.encode file as) = true := by
  induction as generalizing file with
  | nil => exact hfile
  | cons a as ih =>
    exact ih (fun b hb => hlawful b (mem_cons_of_mem a hb))
      (valid_append tests hfile (hlawful a mem_cons_self) h.1) h.2

theorem readStrict_of_pieces (tests : LineTests valid blank)
    (hfile : valid file = true)
    (hlawful : ∀ a ∈ records, codec.StrictLawful valid blank a)
    (h : pieces file = records.map codec.encode) :
    codec.readStrict valid blank file = some records := by
  have hreturn : ∀ p ∈ pieces file, 13 ∉ p := by
    intro p hp
    rw [h] at hp
    obtain ⟨a, ha, rfl⟩ := List.mem_map.mp hp
    exact (hlawful a ha).no_return
  have hshown : (records.map codec.encode).filter (!blank ·) = records.map codec.encode := by
    refine filter_eq_self.mpr fun p hp => ?_
    obtain ⟨a, ha, rfl⟩ := List.mem_map.mp hp
    simp [(hlawful a ha).not_blank _ (prefix_refl _) (hlawful a ha).ne_nil]
  rw [readStrict, if_pos hfile, strLines_filter tests.blank_nil hreturn, h, hshown]
  exact mapM_decode_encode fun a ha => (hlawful a ha).toLawful

theorem readStrict_of_noneTorn (tests : LineTests valid blank) {as : List (TornAppend α)}
    (hlawful : ∀ a ∈ as, codec.StrictLawful valid blank a.record) (h : NoneTorn codec.encode [] as) :
    codec.readStrict valid blank (runAppends codec.encode [] as) = some (whole codec.encode [] as) := by
  refine readStrict_of_pieces tests (valid_runAppends tests hlawful tests.valid_nil h) ?_ ?_
  · intro r hr
    obtain ⟨a, ha, rfl⟩ := mem_whole hr
    exact hlawful a ha
  · exact pieces_of_noneTorn hlawful h

/-- A file that was written at once reads back. -/
theorem readStrict_encodeAll (tests : LineTests valid blank)
    (hlawful : ∀ a ∈ records, codec.StrictLawful valid blank a) :
    codec.readStrict valid blank (codec.encodeAll records) = some records := by
  have hvalid : valid (codec.encodeAll records) = true := by
    induction records with
    | nil => exact tests.valid_nil
    | cons a records ih =>
      exact tests.valid_append
        (tests.valid_append (hlawful a mem_cons_self).valid tests.valid_newline)
        (ih fun b hb => hlawful b (mem_cons_of_mem a hb))
  refine readStrict_of_pieces tests hvalid hlawful ?_
  have hsplit := codec.splitLines_encodeAll (fun a ha => (hlawful a ha).toLawful)
    (not_mem_nil (a := newline))
  rw [append_nil] at hsplit
  rw [pieces, segments, hsplit, filter_append]
  simp only [filter_cons, filter_nil, decide_not, ne_eq, decide_true,
    Bool.not_true, Bool.false_eq_true, if_false, append_nil]
  refine filter_eq_self.mpr fun p hp => ?_
  obtain ⟨a, ha, rfl⟩ := List.mem_map.mp hp
  simp [(hlawful a ha).ne_nil]

end Codec

end Runs

end LineLog
