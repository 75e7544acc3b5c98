import GrokBuild.Workflow.Journal

/-!
# Workflows: a journal that is stopped in the middle of a write

A session is a journal on its file over any sequence of calls, with the
process stopped or a write failing behind any number of bytes of a line, and
with the file loaded again. `kept` is what has to survive: the entries
recorded and not pruned. The headline is `load_after_run`.
-/

namespace GrokBuild.Workflow

open TextLines Str LineLog List

/-- The sequence numbers count from 0 without a gap. -/
def Dense (entries : List JournalEntry) : Prop :=
  ∀ i (e : JournalEntry), entries[i]? = some e → e.seq = i

theorem dense_nil : Dense [] := by
  intro i e h
  cases h
variable {entries : List JournalEntry}

theorem dense_append {e : JournalEntry} :
    Dense (entries ++ [e]) ↔ Dense entries ∧ e.seq = entries.length := by
  constructor
  · intro h
    refine ⟨?_, h entries.length e (by simp)⟩
    intro i e' he'
    have hlt := (List.getElem?_eq_some_iff.mp he').1
    exact h i e' (by rw [getElem?_append_left hlt, he'])
  · intro ⟨h, hlast⟩ i e' he'
    by_cases hlt : i < entries.length
    · rw [getElem?_append_left hlt] at he'
      exact h i e' he'
    · rw [getElem?_append_right (by omega), getElem?_singleton] at he'
      split at he'
      · cases he'
        omega
      · cases he'

theorem Dense.dropLast (h : Dense entries) :
    Dense entries.dropLast := by
  intro i e he
  rw [getElem?_dropLast] at he
  split at he
  · exact h i e he
  · cases he

/-- Where the line of the last entry starts. -/
def lastOffset (codec : Codec JournalEntry) (entries : List JournalEntry) : Option Nat :=
  if entries = [] then none else some (codec.encodeAll entries.dropLast).length

@[simp] theorem lastOffset_append (codec : Codec JournalEntry) (entries : List JournalEntry)
    (e : JournalEntry) :
    lastOffset codec (entries ++ [e]) = some (codec.encodeAll entries).length := by
  simp [lastOffset]

/-! ## Reading the terminated lines -/

section Load

variable {codec : Codec JournalEntry} (hblank : ∀ b, isBlank b = true → codec.decode b = none)

include hblank

theorem not_blank {e : JournalEntry} (h : codec.Lawful e) : isBlank (codec.encode e) = false := by
  rw [Bool.eq_false_iff]
  intro hb
  have hnone := hblank _ hb
  rw [h.decode_encode] at hnone
  cases hnone

theorem encode_ne_nil {e : JournalEntry} (h : codec.Lawful e) : codec.encode e ≠ [] := by
  intro hempty
  have hnonblank := not_blank hblank h
  rw [hempty] at hnonblank
  cases hnonblank

omit hblank in
theorem lines_append (st : Loading) (as bs : List Bytes) :
    st.lines codec (as ++ bs) =
      match st.lines codec as with
      | .error e => .error e
      | .ok st' => st'.lines codec bs := by
  induction as generalizing st with
  | nil => rfl
  | cons a as ih =>
    simp only [cons_append, Loading.lines]
    cases st.line codec a with
    | error e => rfl
    | ok st' => exact ih st'

omit hblank in
theorem push_ok {st : Loading} {e : JournalEntry} (hcap : st.entries.length < maxJournalEntries)
    (hseq : e.seq = st.entries.length) :
    st.push e = .ok { st with
      entries := st.entries ++ [e], lastLineStart := some st.offset } := by
  simp [Loading.push, Nat.not_le_of_lt hcap, validateSequence, hseq]

theorem lines_encoded (hlawful : ∀ e ∈ entries, codec.Lawful e)
    (hdense : Dense entries) (hcap : entries.length ≤ maxJournalEntries) :
    Loading.start.lines codec (entries.map codec.encode) =
      .ok ⟨entries, (codec.encodeAll entries).length, entries.length, lastOffset codec entries⟩ := by
  induction entries using List.reverseRecOn with
  | nil => rfl
  | append_singleton entries e ih =>
    obtain ⟨hdense, hseq⟩ := dense_append.mp hdense
    rw [length_append, length_singleton] at hcap
    have hlawful' : ∀ a ∈ entries, codec.Lawful a := fun a ha => hlawful a (by simp [ha])
    have he : codec.Lawful e := hlawful e (by simp)
    rw [map_append, lines_append, ih hlawful' hdense (by omega)]
    simp only [map_singleton, Loading.lines, Loading.line, not_blank hblank he,
      Bool.false_eq_true, if_false, he.decode_encode]
    rw [push_ok (by exact hcap) hseq]
    simp [Nat.add_assoc]

theorem lines_too_many (hlawful : ∀ e ∈ entries, codec.Lawful e)
    (hdense : Dense entries) (hcap : maxJournalEntries < entries.length) :
    Loading.start.lines codec (entries.map codec.encode) = .error tooManyEntries := by
  -- as many entries as are read, and the first one that is not
  obtain ⟨first, e, rest, rfl, hfirst⟩ : ∃ first e rest, entries = first ++ e :: rest ∧
      first.length = maxJournalEntries := by
    refine ⟨entries.take maxJournalEntries, entries[maxJournalEntries],
      entries.drop (maxJournalEntries + 1), ?_, ?_⟩
    · rw [getElem_cons_drop, take_append_drop]
    · rw [length_take]
      omega
  have hdense' : Dense first := by
    intro i e' he'
    have hlt := (List.getElem?_eq_some_iff.mp he').1
    exact hdense i e' (by rw [getElem?_append_left hlt, he'])
  have he : codec.Lawful e := hlawful e (by simp)
  rw [map_append, lines_append,
    lines_encoded hblank (fun a ha => hlawful a (by simp [ha])) hdense' hfirst.le]
  simp [Loading.lines, Loading.line, not_blank hblank he, he.decode_encode, Loading.push, hfirst]

end Load

/-! ## Sessions -/

/-- A journal and its file, with what has to survive of it. -/
structure Session where
  disk : Disk
  /-- The journal in memory, if the process is running. -/
  journal : Option Journal
  /-- Recorded and not pruned. -/
  kept : List JournalEntry
  /-- An entry whose append stopped behind this many bytes. -/
  torn : Option (JournalEntry × Nat)

inductive Call where
  | record (seq : Nat) (kind reqHash : Text) (result : Json) (now : Nat)
  /-- The process stops, or the write fails, while the line is appended. -/
  | recordStopped (seq : Nat) (kind reqHash : Text) (result : Json) (now written : Nat)
  | prune (failureDetail : Text)
  | load
  /-- The process stops while it loads, before or after the repair. -/
  | loadStopped (repaired : Bool)

/-- The entry that a call wants to append. -/
def Call.entry? : Call → Option JournalEntry
  | .record seq kind reqHash result now => some ⟨seq, kind, reqHash, result, now⟩
  | .recordStopped seq kind reqHash result now _ => some ⟨seq, kind, reqHash, result, now⟩
  | _ => none

namespace Session

/-- A new journal whose file does not exist yet. -/
def start : Session := ⟨none, some (.new true), [], none⟩

/-- The entry being appended, when at most its newline is missing. -/
def survivor (codec : Codec JournalEntry) (s : Session) : List JournalEntry :=
  match s.torn with
  | none => []
  | some (e, written) => if (codec.encode e).length ≤ written then [e] else []

/-- The bytes of the append that was stopped. -/
def tornBytes (codec : Codec JournalEntry) (s : Session) : Bytes :=
  match s.torn with
  | none => []
  | some (e, written) => (codec.line e).take written

/-- The calls need a process, all but loading the file again. A failed write
ends the use of the journal, as the engine ends the run. -/
def step (codec : Codec JournalEntry) (s : Session) (c : Call) : Session :=
  match c, s.journal with
  | .record seq kind reqHash result now, some j =>
    match j.record codec seq kind reqHash result now s.disk .done with
    | (.ok j, disk) => ⟨disk, some j, s.kept ++ [⟨seq, kind, reqHash, result, now⟩], none⟩
    | (.error _, _) => s
  | .recordStopped seq kind reqHash result now written, some j =>
    match j.record codec seq kind reqHash result now s.disk (.fails written) with
    | (.error .io, disk) =>
      ⟨disk, none, s.kept, some (⟨seq, kind, reqHash, result, now⟩, written)⟩
    | _ => s
  | .prune failureDetail, some j =>
    match j.pruneTrailingHostError failureDetail s.disk with
    | (.ok (true, j), disk) => ⟨disk, some j, s.kept.dropLast, none⟩
    | _ => s
  | .load, _ =>
    match Journal.load codec s.disk with
    | (.ok j, disk) => ⟨disk, some j, s.kept ++ s.survivor codec, none⟩
    | (.error _, _) => { s with journal := none }
  | .loadStopped repaired, _ =>
    match Journal.load codec s.disk with
    | (.ok _, disk) =>
      if repaired then ⟨disk, none, s.kept ++ s.survivor codec, none⟩
      else { s with journal := none }
    | (.error _, _) => { s with journal := none }
  | _, none => s

def run (codec : Codec JournalEntry) (calls : List Call) : Session :=
  calls.foldl (step codec) start

/-- What holds of every session: the file is what was kept and the torn
bytes, it stays within the limit that loading checks, and a journal in memory
agrees with it. -/
structure Sound (codec : Codec JournalEntry) (s : Session) : Prop where
  dense : Dense s.kept
  lawful : ∀ e ∈ s.kept, codec.Lawful e
  torn : ∀ e written, s.torn = some (e, written) → e.seq = s.kept.length ∧ codec.Lawful e ∧
    (codec.encodeAll s.kept).length + (codec.line e).length ≤ maxJournalBytes
  disk : s.disk.getD [] = codec.encodeAll s.kept ++ s.tornBytes codec
  fits : (codec.encodeAll s.kept).length ≤ maxJournalBytes
  memory : ∀ j, s.journal = some j → s.torn = none ∧ j.entries = s.kept ∧ j.path = true ∧
    j.bytes = (codec.encodeAll s.kept).length ∧
    ∀ o, j.lastLineStart = some o → lastOffset codec s.kept = some o

theorem Sound.start (codec : Codec JournalEntry) : Sound codec start where
  dense := dense_nil
  lawful := by simp [Session.start]
  torn := by simp [Session.start]
  disk := rfl
  fits := Nat.zero_le _
  memory := by
    intro j hj
    cases hj
    exact ⟨rfl, rfl, rfl, rfl, by simp [Journal.new]⟩

variable {codec : Codec JournalEntry} {s : Session}

theorem saturatingAdd_le {a b : Nat} (h : a + b ≤ maxJournalBytes) : saturatingAdd a b = a + b := by
  have hmax : maxJournalBytes ≤ usizeMax := by decide
  unfold saturatingAdd
  omega

theorem le_of_saturatingAdd {a b : Nat} (h : ¬saturatingAdd a b > maxJournalBytes) :
    a + b ≤ maxJournalBytes := by
  have hmax : maxJournalBytes < usizeMax := by decide
  unfold saturatingAdd at h
  omega

theorem Sound.disk_of_memory (h : s.Sound codec) {j : Journal} (hj : s.journal = some j) :
    s.disk.getD [] = codec.encodeAll s.kept := by
  have htorn := (h.memory j hj).1
  rw [h.disk, tornBytes, htorn, append_nil]

/-! ## Recording -/

theorem record_append {j : Journal} {e : JournalEntry} (hpath : j.path = true)
    (hseq : e.seq = j.entries.length)
    (hfits : j.bytes + (codec.line e).length ≤ maxJournalBytes) (disk : Disk) (write : Write) :
    j.record codec e.seq e.kind e.reqHash e.result e.atMs disk write =
      match write with
      | .done => (.ok ⟨j.entries ++ [e], true, j.bytes + (codec.line e).length, some j.bytes⟩,
          some (disk.getD [] ++ codec.line e))
      | .fails written => (.error .io, some (disk.getD [] ++ (codec.line e).take written)) := by
  have hvalid : validateSequence j.entries e = .ok () := if_neg (not_not.mpr hseq)
  have hsum := saturatingAdd_le hfits
  simp only [Journal.record, hvalid]
  show (if saturatingAdd j.bytes (codec.line e).length > maxJournalBytes then _ else _) = _
  rw [hsum, if_neg (by omega), hpath]
  cases write <;> rfl

/-- Recording either rejects the entry or comes to its append. -/
theorem record_cases (j : Journal) (e : JournalEntry) (disk : Disk) (write : Write) :
    (∃ err, err ≠ .io ∧
      j.record codec e.seq e.kind e.reqHash e.result e.atMs disk write = (.error err, disk)) ∨
    (e.seq = j.entries.length ∧ j.bytes + (codec.line e).length ≤ maxJournalBytes) := by
  by_cases hseq : e.seq = j.entries.length
  · have hvalid : validateSequence j.entries e = .ok () := if_neg (not_not.mpr hseq)
    by_cases hfits : saturatingAdd j.bytes (codec.line e).length > maxJournalBytes
    · refine Or.inl ⟨.full e.seq maxJournalBytes, by simp, ?_⟩
      simp only [Journal.record, hvalid]
      exact if_pos hfits
    · exact Or.inr ⟨hseq, le_of_saturatingAdd hfits⟩
  · have hinvalid : validateSequence j.entries e =
        .error (.sequence j.entries.length j.entries.length e.seq) := if_pos hseq
    refine Or.inl ⟨.sequence j.entries.length j.entries.length e.seq, by simp, ?_⟩
    simp only [Journal.record, hinvalid]

theorem Sound.record (h : s.Sound codec) {seq : Nat} {kind reqHash : Text} {result : Json}
    {now : Nat} (hlawful : codec.Lawful ⟨seq, kind, reqHash, result, now⟩) :
    (s.step codec (.record seq kind reqHash result now)).Sound codec := by
  simp only [step]
  cases hj : s.journal with
  | none => exact h
  | some j =>
    obtain ⟨htorn, hentries, hpath, hbytes, _⟩ := h.memory j hj
    rcases @record_cases codec j ⟨seq, kind, reqHash, result, now⟩ s.disk .done
      with ⟨err, _, hrecord⟩ | ⟨hseq, hfits⟩
    · -- rejected, and nothing is written
      simp only [hrecord]
      exact h
    · have hrecord := record_append hpath hseq hfits s.disk .done
      simp only [hrecord]
      rw [hentries] at hseq
      rw [hbytes] at hfits
      exact
        { dense := dense_append.mpr ⟨h.dense, hseq⟩
          lawful := by
            intro e he
            rcases mem_append.mp he with he | he
            · exact h.lawful e he
            · rw [mem_singleton.mp he]
              exact hlawful
          torn := by simp
          disk := by simp [h.disk_of_memory hj, tornBytes]
          fits := by simpa using hfits
          memory := by
            intro j' hj'
            cases hj'
            refine ⟨rfl, by rw [hentries], rfl, by simp [hbytes], ?_⟩
            intro o ho
            rw [lastOffset_append, ← hbytes]
            exact ho }

theorem Sound.recordStopped (h : s.Sound codec) {seq : Nat} {kind reqHash : Text} {result : Json}
    {now written : Nat} (hlawful : codec.Lawful ⟨seq, kind, reqHash, result, now⟩) :
    (s.step codec (.recordStopped seq kind reqHash result now written)).Sound codec := by
  simp only [step]
  cases hj : s.journal with
  | none => exact h
  | some j =>
    obtain ⟨htorn, hentries, hpath, hbytes, _⟩ := h.memory j hj
    rcases @record_cases codec j ⟨seq, kind, reqHash, result, now⟩ s.disk
      (.fails written) with ⟨err, hio, hrecord⟩ | ⟨hseq, hfits⟩
    · simp only [hrecord]
      cases err with
      | io => exact absurd rfl hio
      | _ => exact h
    · have hrecord := record_append hpath hseq hfits s.disk (.fails written)
      simp only [hrecord]
      rw [hentries] at hseq
      rw [hbytes] at hfits
      exact
        { dense := h.dense
          lawful := h.lawful
          torn := by
            intro e n he
            cases he
            exact ⟨hseq, hlawful, hfits⟩
          disk := by simp [h.disk_of_memory hj, tornBytes]
          fits := h.fits
          memory := by simp }

/-! ## Pruning -/

theorem setLen_append (a b : Bytes) : setLen a.length (a ++ b) = a := by
  simp [setLen]

/-- What a prune that takes away an entry leaves behind. -/
theorem prune_true {j j' : Journal} {failureDetail : Text} {disk disk' : Disk}
    (h : j.pruneTrailingHostError failureDetail disk = (.ok (true, j'), disk'))
    (hpath : j.path = true) :
    ∃ newLen content, j.lastLineStart = some newLen ∧ disk = some content ∧
      j' = ⟨j.entries.dropLast, true, newLen, none⟩ ∧ disk' = some (setLen newLen content) := by
  unfold Journal.pruneTrailingHostError at h
  split at h
  · cases h
  split at h
  · cases h
  split at h
  · cases h
  split at h
  · cases h
  · rename_i newLen hstart
    rw [hpath] at h
    cases disk with
    | none => cases h
    | some content =>
      cases h
      exact ⟨newLen, content, hstart, rfl, rfl, rfl⟩

theorem Sound.prune (h : s.Sound codec) (failureDetail : Text) :
    (s.step codec (.prune failureDetail)).Sound codec := by
  simp only [step]
  cases hj : s.journal with
  | none => exact h
  | some j =>
    obtain ⟨htorn, hentries, hpath, hbytes, hstart⟩ := h.memory j hj
    simp only
    split
    · rename_i j' disk' hprune
      obtain ⟨newLen, content, hlast, hdisk, rfl, rfl⟩ := prune_true hprune hpath
      -- the offset in memory is where the last line of the file begins
      have hoffset := hstart newLen hlast
      have hne : s.kept ≠ [] := by
        intro hempty
        simp [lastOffset, hempty] at hoffset
      have hlen : (codec.encodeAll s.kept.dropLast).length = newLen := by
        rw [lastOffset, if_neg hne] at hoffset
        exact Option.some.inj hoffset
      have hsplit : codec.encodeAll s.kept =
          codec.encodeAll s.kept.dropLast ++ codec.line (s.kept.getLast hne) := by
        conv_lhs => rw [← dropLast_append_getLast hne]
        simp
      have hcontent : content = codec.encodeAll s.kept := by
        have hfile := h.disk_of_memory hj
        rw [hdisk] at hfile
        exact hfile
      have hcut : setLen newLen content = codec.encodeAll s.kept.dropLast := by
        rw [hcontent, hsplit, ← hlen, setLen_append]
      exact
        { dense := h.dense.dropLast
          lawful := fun e he => h.lawful e (mem_of_mem_dropLast he)
          torn := by simp
          disk := by simp [hcut, tornBytes]
          fits := by
            have hfits := h.fits
            rw [hsplit, length_append] at hfits
            exact Nat.le_of_add_right_le hfits
          memory := by
            intro j'' hj''
            cases hj''
            exact ⟨rfl, by rw [hentries], rfl, hlen.symm, by simp⟩ }
    · exact h

/-! ## The three shapes of a file -/

/-- The file is whole lines, or it has a torn tail, or its last line lacks
the newline. -/
inductive Shape (codec : Codec JournalEntry) (s : Session) : Prop where
  | whole (hdisk : s.disk.getD [] = codec.encodeAll (s.kept ++ s.survivor codec))
  | torn (tail : Bytes) (htail : newline ∉ tail) (hdecode : codec.decode tail = none)
      (hnone : s.survivor codec = []) (hdisk : s.disk.getD [] = codec.encodeAll s.kept ++ tail)
  | unterminated (e : JournalEntry) (he : codec.Lawful e) (hseq : e.seq = s.kept.length)
      (hsome : s.survivor codec = [e])
      (hdisk : s.disk.getD [] = codec.encodeAll s.kept ++ codec.encode e)
      (hfits : (s.disk.getD []).length < maxJournalBytes)

theorem Sound.shape (h : s.Sound codec) : Shape codec s := by
  cases htorn : s.torn with
  | none =>
    have hdisk := h.disk
    rw [tornBytes, htorn, append_nil] at hdisk
    refine .whole ?_
    rw [survivor, htorn, append_nil]
    exact hdisk
  | some pair =>
    obtain ⟨e, written⟩ := pair
    obtain ⟨hseq, he, hfits⟩ := h.torn e written htorn
    have hdisk := h.disk
    rw [tornBytes, htorn] at hdisk
    simp only at hdisk
    rw [codec.length_line] at hfits
    rcases Nat.lt_trichotomy written (codec.encode e).length with hlt | heq | hgt
    · -- torn inside the entry
      rw [codec.take_line_of_lt hlt] at hdisk
      refine .torn _ ?_ ?_ ?_ hdisk
      · exact fun hmem => he.newline_not_mem (mem_of_mem_take hmem)
      · exact he.decode_torn _ (List.take_prefix ..) (codec.torn_ne hlt)
      · rw [survivor, htorn]
        exact if_neg (by omega)
    · -- only the newline is missing
      have htake : (codec.line e).take written = codec.encode e := by
        rw [heq, Codec.line, take_left]
      rw [htake] at hdisk
      refine .unterminated e he hseq ?_ hdisk ?_
      · rw [survivor, htorn]
        exact if_pos heq.ge
      · rw [hdisk, length_append]
        omega
    · -- the line is whole
      have htake : (codec.line e).take written = codec.line e := by
        rw [take_of_length_le]
        rw [codec.length_line]
        omega
      have hsome : s.survivor codec = [e] := by
        rw [survivor, htorn]
        exact if_pos hgt.le
      refine .whole ?_
      rw [hsome, hdisk, htake, codec.encodeAll_append, codec.encodeAll_singleton]

/-- What survives is again a dense log of entries that can be read. -/
theorem Sound.survives (h : s.Sound codec) :
    (∀ e ∈ s.kept ++ s.survivor codec, codec.Lawful e) ∧
      Dense (s.kept ++ s.survivor codec) ∧
      (codec.encodeAll (s.kept ++ s.survivor codec)).length ≤ maxJournalBytes := by
  have hcases : s.survivor codec = [] ∨
      ∃ e written, s.torn = some (e, written) ∧ s.survivor codec = [e] := by
    unfold survivor
    split
    · exact Or.inl rfl
    · rename_i e written htorn
      split
      · exact Or.inr ⟨e, written, htorn, rfl⟩
      · exact Or.inl rfl
  rcases hcases with hnone | ⟨e, written, htorn, hsome⟩
  · rw [hnone, append_nil]
    exact ⟨h.lawful, h.dense, h.fits⟩
  · obtain ⟨hseq, he, hfits⟩ := h.torn e written htorn
    rw [hsome]
    refine ⟨?_, dense_append.mpr ⟨h.dense, hseq⟩, ?_⟩
    · intro a ha
      rcases mem_append.mp ha with ha | ha
      · exact h.lawful a ha
      · rw [mem_singleton.mp ha]
        exact he
    · rw [codec.encodeAll_append, codec.encodeAll_singleton, length_append]
      exact hfits

theorem Sound.disk_length (h : s.Sound codec) : (s.disk.getD []).length ≤ maxJournalBytes := by
  rw [h.disk, length_append]
  have hfits := h.fits
  unfold tornBytes
  split
  · simpa using hfits
  · rename_i e written htorn
    have htotal := (h.torn e written htorn).2.2
    have htake : ((codec.line e).take written).length ≤ (codec.line e).length :=
      length_take_le' ..
    omega

/-! ## Loading -/

section Load

variable (hblank : ∀ b, isBlank b = true → codec.decode b = none)

include hblank
variable {disk : Disk}

theorem load_eq {tail : Bytes}
    (hlawful : ∀ e ∈ entries, codec.Lawful e) (hdense : Dense entries)
    (htail : newline ∉ tail) (hdisk : disk.getD [] = codec.encodeAll entries ++ tail)
    (hfits : (disk.getD []).length ≤ maxJournalBytes) :
    Journal.load codec disk =
      if entries.length ≤ maxJournalEntries then
        Journal.loadTail codec disk
          ⟨entries, (codec.encodeAll entries).length, entries.length, lastOffset codec entries⟩ tail
      else (.error tooManyEntries, disk) := by
  have hsplit := codec.splitLines_encodeAll hlawful htail
  unfold Journal.load
  rw [if_neg (by omega), hdisk, hsplit]
  by_cases hcap : entries.length ≤ maxJournalEntries
  · simp only [lines_encoded hblank hlawful hdense hcap, if_pos hcap]
  · simp only [lines_too_many hblank hlawful hdense (by omega), if_neg hcap]

theorem load_whole
    (hlawful : ∀ e ∈ entries, codec.Lawful e) (hdense : Dense entries)
    (hdisk : disk.getD [] = codec.encodeAll entries)
    (hfits : (disk.getD []).length ≤ maxJournalBytes) (hcap : entries.length ≤ maxJournalEntries) :
    Journal.load codec disk = (.ok ⟨entries, true, (codec.encodeAll entries).length,
      lastOffset codec entries⟩, disk) := by
  rw [load_eq hblank hlawful hdense not_mem_nil (by rw [hdisk, append_nil]) hfits,
    if_pos hcap]
  simp [Journal.loadTail, hdisk]

theorem load_torn {tail : Bytes}
    (hlawful : ∀ e ∈ entries, codec.Lawful e) (hdense : Dense entries)
    (htail : newline ∉ tail) (htorn : codec.decode tail = none)
    (hdisk : disk.getD [] = codec.encodeAll entries ++ tail)
    (hfits : (disk.getD []).length ≤ maxJournalBytes) (hcap : entries.length ≤ maxJournalEntries) :
    ∃ disk', Journal.load codec disk = (.ok ⟨entries, true, (codec.encodeAll entries).length,
      lastOffset codec entries⟩, disk') ∧ disk'.getD [] = codec.encodeAll entries := by
  rw [load_eq hblank hlawful hdense htail hdisk hfits, if_pos hcap]
  unfold Journal.loadTail
  by_cases hempty : tail = []
  · -- the stop came before the first byte
    rw [hempty, append_nil] at hdisk
    exact ⟨disk, by simp [hempty, hdisk], hdisk⟩
  · refine ⟨some (setLen (codec.encodeAll entries).length (disk.getD [])), ?_, ?_⟩
    · simp only [hempty, if_false, htorn]
      split <;> rfl
    · rw [hdisk]
      exact setLen_append _ _

/-- A tail that is an entry but for its newline is terminated. -/
theorem load_unterminated {e : JournalEntry}
    (hlawful : ∀ e ∈ entries, codec.Lawful e) (hdense : Dense entries) (he : codec.Lawful e)
    (hseq : e.seq = entries.length)
    (hdisk : disk.getD [] = codec.encodeAll entries ++ codec.encode e)
    (hfits : (disk.getD []).length < maxJournalBytes)
    (hcap : entries.length < maxJournalEntries) :
    ∃ disk', Journal.load codec disk = (.ok ⟨entries ++ [e], true,
      (codec.encodeAll (entries ++ [e])).length, lastOffset codec (entries ++ [e])⟩, disk') ∧
      disk'.getD [] = codec.encodeAll (entries ++ [e]) := by
  have hnonblank := not_blank hblank he
  have hne := encode_ne_nil hblank he
  rw [load_eq hblank hlawful hdense he.newline_not_mem hdisk hfits.le, if_pos hcap.le]
  refine ⟨some (disk.getD [] ++ [newline]), ?_, ?_⟩
  · have hpush := @push_ok
      ⟨entries, (codec.encodeAll entries).length, entries.length, lastOffset codec entries⟩
      e hcap hseq
    have hsum : saturatingAdd (disk.getD []).length 1 = (disk.getD []).length + 1 :=
      saturatingAdd_le hfits
    simp only [Journal.loadTail, hne, if_false, hnonblank, Bool.false_eq_true, he.decode_encode,
      hpush, hsum]
    rw [hdisk]
    simp [Nat.add_assoc]
  · simp [hdisk, Codec.line]

theorem Sound.load (h : s.Sound codec)
    (hcap : (s.kept ++ s.survivor codec).length ≤ maxJournalEntries) :
    ∃ disk, Journal.load codec s.disk = (.ok ⟨s.kept ++ s.survivor codec, true,
        (codec.encodeAll (s.kept ++ s.survivor codec)).length,
        lastOffset codec (s.kept ++ s.survivor codec)⟩, disk) ∧
      disk.getD [] = codec.encodeAll (s.kept ++ s.survivor codec) := by
  obtain ⟨hlawful, hdense, hfits⟩ := h.survives
  cases h.shape with
  | whole hdisk =>
    exact ⟨s.disk, load_whole hblank hlawful hdense hdisk h.disk_length hcap, hdisk⟩
  | torn tail htail hdecode hnone hdisk =>
    rw [hnone, append_nil] at hcap ⊢
    exact load_torn hblank h.lawful h.dense htail hdecode hdisk h.disk_length hcap
  | unterminated e he hseq hsome hdisk hlt =>
    rw [hsome] at hcap ⊢
    rw [length_append, length_singleton] at hcap
    exact load_unterminated hblank h.lawful h.dense he hseq hdisk hlt (by omega)

theorem Sound.load_refused (h : s.Sound codec)
    (hcap : maxJournalEntries < (s.kept ++ s.survivor codec).length) :
    Journal.load codec s.disk = (.error tooManyEntries, s.disk) := by
  obtain ⟨hlawful, hdense, _⟩ := h.survives
  cases h.shape with
  | whole hdisk =>
    rw [load_eq hblank hlawful hdense not_mem_nil (by rw [hdisk, append_nil])
      h.disk_length, if_neg (by omega)]
  | torn tail htail hdecode hnone hdisk =>
    rw [hnone, append_nil] at hcap
    rw [load_eq hblank h.lawful h.dense htail hdisk h.disk_length, if_neg (by omega)]
  | unterminated e he hseq hsome hdisk _ =>
    rw [hsome, length_append, length_singleton] at hcap
    rw [load_eq hblank h.lawful h.dense he.newline_not_mem hdisk h.disk_length]
    have hnonblank := not_blank hblank he
    have hne := encode_ne_nil hblank he
    split
    · -- the terminated lines are read, and the last entry is one too many
      have hfull : s.kept.length ≥ maxJournalEntries := by omega
      simp [Journal.loadTail, hne, hnonblank, he.decode_encode, Loading.push, hfull]
    · rfl

theorem Sound.loaded (h : s.Sound codec) {j : Journal}
    (hload : Journal.load codec s.disk = (.ok j, disk)) :
    Sound codec ⟨disk, some j, s.kept ++ s.survivor codec, none⟩ := by
  obtain ⟨hlawful, hdense, hfits⟩ := h.survives
  by_cases hcap : (s.kept ++ s.survivor codec).length ≤ maxJournalEntries
  · obtain ⟨disk', heq, hdisk⟩ := h.load hblank hcap
    rw [hload] at heq
    cases heq
    exact
      { dense := hdense
        lawful := hlawful
        torn := by simp
        disk := by simp [hdisk, tornBytes]
        fits := hfits
        memory := by
          intro j hj
          cases hj
          exact ⟨rfl, rfl, rfl, rfl, fun _ ho => ho⟩ }
  · rw [h.load_refused hblank (by omega)] at hload
    cases hload

omit hblank in
theorem Sound.stopped (h : s.Sound codec) : Sound codec { s with journal := none } :=
  ⟨h.dense, h.lawful, h.torn, h.disk, h.fits, by simp⟩

theorem Sound.step (h : s.Sound codec) {c : Call} (hlawful : ∀ e ∈ c.entry?, codec.Lawful e) :
    (s.step codec c).Sound codec := by
  cases c with
  | record seq kind reqHash result now => exact h.record (hlawful _ rfl)
  | recordStopped seq kind reqHash result now written => exact h.recordStopped (hlawful _ rfl)
  | prune failureDetail => exact h.prune failureDetail
  | load =>
    simp only [Session.step]
    split
    · exact h.loaded hblank ‹_›
    · exact h.stopped
  | loadStopped repaired =>
    simp only [Session.step]
    split
    · split
      · exact (h.loaded hblank ‹_›).stopped
      · exact h.stopped
    · exact h.stopped

theorem sound_run {calls : List Call}
    (hlawful : ∀ c ∈ calls, ∀ e ∈ c.entry?, codec.Lawful e) : (run codec calls).Sound codec := by
  unfold run
  have hfold : ∀ (calls : List Call) (s : Session), s.Sound codec →
      (∀ c ∈ calls, ∀ e ∈ c.entry?, codec.Lawful e) →
      (calls.foldl (Session.step codec) s).Sound codec := by
    intro calls
    induction calls with
    | nil => intro s h _; exact h
    | cons c calls ih =>
      intro s h hlawful
      rw [forall_mem_cons] at hlawful
      exact ih _ (h.step hblank hlawful.1) hlawful.2
  exact hfold calls _ (.start codec) hlawful

end Load

/-- After any calls, stopped or not: the file loads, as long as it has no more
entries than `load` reads, and gives the entries recorded and not pruned, and
the one whose append stopped, when all its bytes but the newline were
written. The sequence is dense, the counters fit the file, and a journal that
is still in memory agrees with the file as well. -/
theorem load_after_run (codec : Codec JournalEntry)
    (hblank : ∀ b, isBlank b = true → codec.decode b = none) (calls : List Call)
    (hlawful : ∀ c ∈ calls, ∀ e ∈ c.entry?, codec.Lawful e)
    (hcap : ((run codec calls).kept ++ (run codec calls).survivor codec).length
      ≤ maxJournalEntries) :
    (∃ j disk, Journal.load codec (run codec calls).disk = (.ok j, disk) ∧
      j.entries = (run codec calls).kept ++ (run codec calls).survivor codec ∧
      Dense j.entries ∧ disk.getD [] = codec.encodeAll j.entries ∧
      j.bytes = (disk.getD []).length ∧ j.lastLineStart = lastOffset codec j.entries) ∧
    ∀ j, (run codec calls).journal = some j →
      j.entries = (run codec calls).kept ∧
        (run codec calls).disk.getD [] = codec.encodeAll j.entries ∧
        j.bytes = ((run codec calls).disk.getD []).length := by
  have hsound := sound_run hblank hlawful
  obtain ⟨_, hdense, _⟩ := hsound.survives
  obtain ⟨disk, hload, hdisk⟩ := hsound.load hblank hcap
  refine ⟨⟨_, disk, hload, rfl, hdense, hdisk, by rw [hdisk], rfl⟩, ?_⟩
  intro j hj
  obtain ⟨_, hentries, _, hbytes, _⟩ := hsound.memory j hj
  have hfile := hsound.disk_of_memory hj
  exact ⟨hentries, by rw [hentries, hfile], by rw [hbytes, hfile]⟩

/-! ## Where loading fails -/

/-- An entry without a result up to its closing brace, as `to_string` writes it
when nothing in its texts is escaped. -/
def entryPieces (e : JournalEntry) : List Text :=
  ["\x7b\"seq\":".toList, decimal e.seq, ",\"kind\":\"".toList, e.kind, "\",\"req_hash\":\"".toList,
    e.reqHash, "\",\"result\":null,\"at_ms\":".toList, decimal e.atMs]

/-- The line of an entry of ASCII texts. -/
def entryLine (e : JournalEntry) : Bytes := (entryPieces e).flatten.map Char.toUInt8 ++ [125]

def entryOf (kind : Text) (seq : Nat) : JournalEntry := ⟨seq, kind, [], .null, 0⟩

def entryKinds : List Text := ["budget".toList, "spawn_agent".toList]

/-- The number that a line begins with, behind its brace and the key. -/
def seqIn (line : Bytes) : Nat :=
  Nat.ofDigitChars 10 (((line.drop 7).map Char.ofUInt8).takeWhile Char.isDigit) 0

/-- The codec on entries of two kinds. -/
def entryCodec : Codec JournalEntry where
  encode := entryLine
  decode line := (entryKinds.map (entryOf · (seqIn line))).find? (entryLine · = line)

/-- The byte of the character is neither the closing brace nor a newline. -/
def isInner (c : Char) : Bool := c.toUInt8 != 125 && c.toUInt8 != newline

theorem digit_byte {c : Char} (h : c.isDigit = true) :
    Char.ofUInt8 c.toUInt8 = c ∧ isInner c = true := by
  have hall : ∀ n ≤ 57, 48 ≤ n →
      Char.ofUInt8 (Char.ofNat n).toUInt8 = Char.ofNat n ∧ isInner (Char.ofNat n) = true := by
    decide
  simp only [Char.isDigit, Bool.and_eq_true, decide_eq_true_eq] at h
  rw [← Char.ofNat_toNat c]
  exact hall _ h.2 h.1

theorem seqIn_append {head rest : Text} (hhead : head.length = 7) (n : Nat) :
    seqIn ((head ++ (decimal n ++ ',' :: rest)).map Char.toUInt8 ++ [125]) = n := by
  have hdigits : ((decimal n).map Char.toUInt8).map Char.ofUInt8 = decimal n := by
    rw [List.map_map]
    exact (map_congr_left fun c hc => (digit_byte (isDigit_of_mem_decimal hc)).1).trans
      (List.map_id _)
  have hdrop : ((head ++ (decimal n ++ ',' :: rest)).map Char.toUInt8 ++ [125]).drop 7 =
      (decimal n).map Char.toUInt8 ++ (44 :: rest.map Char.toUInt8 ++ [125]) := by
    rw [List.map_append, append_assoc, drop_left' (by rw [length_map, hhead]), List.map_append,
      append_assoc]
    rfl
  have hcomma : (Char.ofUInt8 44).isDigit ≠ true := by decide
  rw [seqIn, hdrop, List.map_append, hdigits,
    takeWhile_append_of_pos fun c hc => isDigit_of_mem_decimal hc, cons_append, map_cons,
    takeWhile_cons_of_neg hcomma, append_nil]
  exact Nat.ofDigitChars_ten_toDigits

theorem seqIn_entryLine (e : JournalEntry) : seqIn (entryLine e) = e.seq := by
  have hlen : "\x7b\"seq\":".toList.length = 7 := by decide
  have hcomma : ",\"kind\":\"".toList = ',' :: "\"kind\":\"".toList := by decide
  rw [entryLine, entryPieces, flatten_cons, flatten_cons, flatten_cons, hcomma]
  exact seqIn_append hlen e.seq

theorem length_entryLine (e : JournalEntry) : (entryLine e).length =
    (decimal e.seq).length + e.kind.length + e.reqHash.length + (decimal e.atMs).length + 55 := by
  have hseq : "\x7b\"seq\":".toList.length = 7 := by decide
  have hkind : ",\"kind\":\"".toList.length = 9 := by decide
  have hhash : "\",\"req_hash\":\"".toList.length = 14 := by decide
  have hat : "\",\"result\":null,\"at_ms\":".toList.length = 24 := by decide
  rw [entryLine, length_append, length_map, length_flatten, entryPieces]
  simp only [map_cons, map_nil, sum_cons, sum_nil, length_singleton, hseq, hkind, hhash, hat]
  omega

theorem entryCodec_blank (b : Bytes) (h : isBlank b = true) : entryCodec.decode b = none := by
  refine find?_eq_none.mpr fun e _ heq => ?_
  have hline : entryLine e = b := of_decide_eq_true heq
  have hbrace : 125 ∈ entryLine e := mem_append_right _ (mem_singleton_self _)
  rw [isBlank, List.all_eq_true, ← hline] at h
  have hwhite := h 125 hbrace
  revert hwhite
  decide

theorem isInner_entryPieces {kind : Text} (hkind : kind ∈ entryKinds) (n : Nat) :
    (entryPieces (entryOf kind n)).flatten.all isInner = true := by
  have hkinds : ∀ kind ∈ entryKinds, kind.all isInner = true := by decide
  have hdecimal : ∀ n, (decimal n).all isInner = true := fun n =>
    List.all_eq_true.mpr fun c hc => (digit_byte (isDigit_of_mem_decimal hc)).2
  have hpieces : ∀ piece ∈ entryPieces (entryOf kind n), piece.all isInner = true := by
    simp only [entryPieces, forall_mem_cons]
    exact ⟨by decide, hdecimal n, by decide, hkinds kind hkind, by decide, rfl, by decide,
      hdecimal 0, forall_mem_nil _⟩
  rw [all_flatten]
  exact List.all_eq_true.mpr hpieces

/-- In front of its closing brace an entry has no other, and no newline. -/
theorem front_bytes {kind : Text} (hkind : kind ∈ entryKinds) {n : Nat} {b : UInt8}
    (hb : b ∈ (entryPieces (entryOf kind n)).flatten.map Char.toUInt8) : b ≠ 125 ∧ b ≠ newline := by
  obtain ⟨c, hc, rfl⟩ := mem_map.mp hb
  have hinner := List.all_eq_true.mp (isInner_entryPieces hkind n) c hc
  simpa [isInner] using hinner

/-- A line is told from the lines of other kinds by its length. -/
theorem find?_entryOf {kinds : List Text} (hkinds : kinds.Pairwise (·.length ≠ ·.length)) {kind : Text}
    (hkind : kind ∈ kinds) (n : Nat) :
    (kinds.map (entryOf · n)).find? (entryLine · = entryLine (entryOf kind n)) =
      some (entryOf kind n) := by
  induction kinds with
  | nil => cases hkind
  | cons first kinds ih =>
    obtain ⟨hfirst, hrest⟩ := pairwise_cons.mp hkinds
    rw [map_cons]
    rcases mem_cons.mp hkind with rfl | hkind
    · exact find?_cons_of_pos (decide_eq_true rfl)
    · have hne : entryLine (entryOf first n) ≠ entryLine (entryOf kind n) := by
        intro heq
        have hlen := congrArg length heq
        rw [length_entryLine, length_entryLine] at hlen
        simp only [entryOf] at hlen
        exact hfirst kind hkind (by omega)
      rw [find?_cons_of_neg (by simpa using hne)]
      exact ih hrest hkind

theorem entryCodec_decode (line : Bytes) : entryCodec.decode line =
    (entryKinds.map (entryOf · (seqIn line))).find? (entryLine · = line) := rfl

theorem entryCodec_lawful {kind : Text} (hkind : kind ∈ entryKinds) (n : Nat) :
    entryCodec.Lawful (entryOf kind n) where
  decode_encode := by
    have hseq : seqIn (entryLine (entryOf kind n)) = n := seqIn_entryLine _
    refine (entryCodec_decode (entryLine (entryOf kind n))).trans ?_
    rw [hseq]
    exact find?_entryOf (by decide) hkind n
  newline_not_mem := by
    intro hmem
    rcases mem_append.mp hmem with hmem | hmem
    · exact (front_bytes hkind hmem).2 rfl
    · revert hmem
      decide
  decode_torn p hp hne := by
    refine find?_eq_none.mpr fun e _ heq => ?_
    have heq : entryLine e = p := of_decide_eq_true heq
    have hfront := (prefix_concat_iff.mp hp).resolve_left hne
    have hmem : (125 : UInt8) ∈ p := heq ▸ mem_append_right _ (mem_singleton_self _)
    exact (front_bytes hkind (hfront.subset hmem)).1 rfl

/-- Recording such entries, one after another. -/
def budgetCalls (n : Nat) : List Call :=
  (List.range n).map fun i => .record i "budget".toList [] .null 0

def budgetEntry (n : Nat) : JournalEntry := entryOf "budget".toList n

theorem budgetEntry_lawful (n : Nat) : entryCodec.Lawful (budgetEntry n) :=
  entryCodec_lawful (by decide) n

theorem budgetCalls_lawful (n : Nat) :
    ∀ c ∈ budgetCalls n, ∀ e ∈ c.entry?, entryCodec.Lawful e := by
  intro c hc e he
  obtain ⟨i, _, rfl⟩ := List.mem_map.mp hc
  cases he
  exact budgetEntry_lawful i

theorem length_line_budgetEntry {n : Nat} (hn : n < 100000) :
    (entryCodec.line (budgetEntry n)).length ≤ 80 := by
  have hdigits : (decimal n).length ≤ 5 := (Nat.length_toDigits_le_iff (by decide) (by decide)).mpr hn
  have hkind : "budget".toList.length = 6 := by decide
  have hzero : (decimal 0).length = 1 := by decide
  have hline : (entryCodec.line (budgetEntry n)).length = (entryLine (budgetEntry n)).length + 1 :=
    entryCodec.length_line _
  rw [hline, length_entryLine]
  simp only [budgetEntry, entryOf, length_nil, hkind, hzero]
  omega

theorem length_encodeAll_budget {n : Nat} (hn : n ≤ 100000) :
    (entryCodec.encodeAll ((List.range n).map budgetEntry)).length ≤ 80 * n := by
  induction n with
  | zero => exact Nat.le_refl 0
  | succ n ih =>
    have hline := length_line_budgetEntry (Nat.lt_of_succ_le hn)
    have hlines := ih (Nat.le_of_succ_le hn)
    rw [List.range_succ, map_append, entryCodec.encodeAll_append, length_append, map_singleton,
      entryCodec.encodeAll_singleton]
    omega

/-- They are all kept, as many as fit into a file. -/
theorem run_budgetCalls {n : Nat} (hn : n ≤ 100000) :
    (run entryCodec (budgetCalls n)).kept = (List.range n).map budgetEntry ∧
      (run entryCodec (budgetCalls n)).torn = none ∧
      ∃ j, (run entryCodec (budgetCalls n)).journal = some j := by
  induction n with
  | zero => exact ⟨rfl, rfl, _, rfl⟩
  | succ n ih =>
    obtain ⟨hkept, _, j, hj⟩ := ih (Nat.le_of_succ_le hn)
    have hrun : run entryCodec (budgetCalls (n + 1)) = (run entryCodec (budgetCalls n)).step entryCodec
        (.record n "budget".toList [] .null 0) := by
      simp only [run, budgetCalls, List.range_succ, map_append, map_singleton, foldl_append, foldl_cons,
        foldl_nil]
    obtain ⟨_, hentries, hpath, hbytes, _⟩ :=
      (sound_run entryCodec_blank (budgetCalls_lawful n)).memory j hj
    have hseq : (budgetEntry n).seq = j.entries.length := by
      rw [hentries, hkept, length_map, length_range]
      rfl
    -- the file with the next line is the log of one entry more, and fits
    have hline : j.bytes + (entryCodec.line (budgetEntry n)).length ≤ maxJournalBytes := by
      have hlog := length_encodeAll_budget (Nat.le_of_succ_le hn)
      have hnext := length_line_budgetEntry (Nat.lt_of_succ_le hn)
      have hroom : 80 * 100000 ≤ maxJournalBytes := by decide
      rw [← hkept, ← hbytes] at hlog
      omega
    have hrecord : j.record entryCodec n "budget".toList [] .null 0
        (run entryCodec (budgetCalls n)).disk .done = _ :=
      record_append hpath hseq hline (run entryCodec (budgetCalls n)).disk .done
    rw [hrun]
    simp only [step, hj, hrecord]
    refine ⟨?_, trivial, _, rfl⟩
    rw [hkept, List.range_succ, map_append]
    rfl

/-- Two entries, the second one without its newline. -/
theorem load_after_run_two :
    ∃ j disk, Journal.load entryCodec (run entryCodec [.record 0 "budget".toList [] .null 0,
        .recordStopped 1 "budget".toList [] .null 0 63]).disk = (.ok j, disk) ∧
      j.entries = [budgetEntry 0, budgetEntry 1] := by
  obtain ⟨⟨j, disk, hload, hentries, _⟩, _⟩ := load_after_run entryCodec entryCodec_blank
    [.record 0 "budget".toList [] .null 0, .recordStopped 1 "budget".toList [] .null 0 63]
    (by
      intro c hc e he
      simp only [mem_cons, not_mem_nil, or_false] at hc
      rcases hc with rfl | rfl <;> cases he <;> exact budgetEntry_lawful _)
    (by decide)
  exact ⟨j, disk, hload, hentries⟩

/-- Recording has no limit on the number of entries, and loading has. And a
journal that is used again after a failed write leaves a line that cannot be
read. -/
theorem load_refuses_what_was_recorded :
    (∃ calls, (run entryCodec calls).kept = (List.range 10001).map budgetEntry ∧
      (run entryCodec calls).torn = none ∧
      (Journal.load entryCodec (run entryCodec calls).disk).1 = .error tooManyEntries) ∧
    (∃ j, (Journal.new true).record entryCodec 0 "budget".toList [] .null 0 none (.fails 1) =
        (.error .io, some [123]) ∧
      (Journal.new true).record entryCodec 0 "budget".toList [] .null 0 (some [123]) .done =
        (.ok j, some (123 :: entryCodec.line (budgetEntry 0))) ∧
      (Journal.load entryCodec (some (123 :: entryCodec.line (budgetEntry 0)))).1 =
        .error (.parse 1)) := by
  refine ⟨⟨budgetCalls 10001, ?_⟩, ⟨_, rfl, rfl, rfl⟩⟩
  obtain ⟨hkept, htorn, _⟩ := @run_budgetCalls 10001 (by decide)
  refine ⟨hkept, htorn, ?_⟩
  have hnone : (run entryCodec (budgetCalls 10001)).survivor entryCodec = [] := by rw [survivor, htorn]
  rw [(sound_run entryCodec_blank (budgetCalls_lawful 10001)).load_refused entryCodec_blank]
  rw [hnone, append_nil, hkept, length_map, length_range]
  decide

end Session

end GrokBuild.Workflow
