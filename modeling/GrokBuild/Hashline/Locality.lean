import GrokBuild.Hashline.Anchors
import GrokBuild.Lib.ByteText

/-!
# Hashline: staleness is local

What the anchor of a line depends on: its own text, white space aside, and the
lines of its chunk, or those from the checkpoint before it up to it.
-/

namespace GrokBuild.Hashline

open TextLines Str List

/-! ## Normalised lines -/

/-- `is_ascii_whitespace`, of a character. -/
def isAsciiWs (c : Char) : Bool :=
  c == ' ' || c == '\t' || c == '\n' || c == '\x0C' || c == '\r'

/-- Runs of white space become one space; behind white space (`afterWs`) they
vanish. -/
def collapse (afterWs : Bool) : Text → Text
  | [] => []
  | c :: s =>
    if isAsciiWs c then if afterWs then collapse true s else ' ' :: collapse true s
    else c :: collapse false s

/-- The text of a line that is hashed. -/
def normalise (line : Text) : Text := collapse false (trim line)

example : normalise "\tlet  x =\t1; ".toList = "let x = 1;".toList := by decide

theorem utf8EncodeChar_of_isAsciiWs {c : Char} (h : isAsciiWs c = true) :
    ∃ b, String.utf8EncodeChar c = [b] ∧ isAsciiWhitespace b = true := by
  simp only [isAsciiWs, Bool.or_eq_true, beq_iff_eq] at h
  obtain (((rfl | rfl) | rfl) | rfl) | rfl := h
  · exact ⟨0x20, rfl, rfl⟩
  · exact ⟨0x09, rfl, rfl⟩
  · exact ⟨0x0A, rfl, rfl⟩
  · exact ⟨0x0C, rfl, rfl⟩
  · exact ⟨0x0D, rfl, rfl⟩

theorem isAsciiWhitespace_of_mem {c : Char} (h : isAsciiWs c = false) :
    ∀ b ∈ String.utf8EncodeChar c, isAsciiWhitespace b = false := by
  intro b hb
  by_contra hws
  have hcases : b = 0x20 ∨ b = 0x09 ∨ b = 0x0A ∨ b = 0x0C ∨ b = 0x0D := by
    rw [Bool.not_eq_false] at hws
    simpa [isAsciiWhitespace, or_assoc] using hws
  have hlt : b.toNat < 128 := by
    obtain rfl | rfl | rfl | rfl | rfl := hcases <;> decide
  have hc := (ByteText.utf8EncodeChar_of_mem hlt hb).1
  have hchar : c = Char.ofNat b.toNat := by rw [← hc, Char.ofNat_toNat]
  rw [hchar] at h
  obtain rfl | rfl | rfl | rfl | rfl := hcases <;> exact absurd h (by decide)

theorem foldl_lineHashStep {bs : List UInt8} (h : ∀ b ∈ bs, isAsciiWhitespace b = false)
    (hne : bs ≠ []) (hash : UInt32) (afterWs : Bool) :
    bs.foldl lineHashStep (hash, afterWs) =
      (bs.foldl (fun h b => mix h b.toUInt32) hash, false) := by
  induction bs generalizing hash afterWs with
  | nil => exact absurd rfl hne
  | cons b bs ih =>
    have hb := h b mem_cons_self
    rw [foldl_cons, foldl_cons, lineHashStep, hb, if_neg Bool.false_ne_true]
    cases bs with
    | nil => rfl
    | cons b' bs => exact ih (fun b hb => h b (mem_cons_of_mem _ hb)) (by simp) _ _

theorem foldl_collapse (s : Text) (hash : UInt32) (afterWs : Bool) :
    ((utf8Bytes s).foldl lineHashStep (hash, afterWs)).1 =
      (utf8Bytes (collapse afterWs s)).foldl (fun h b => mix h b.toUInt32) hash := by
  induction s generalizing hash afterWs with
  | nil => rfl
  | cons c s ih =>
    have hcons : utf8Bytes (c :: s) = String.utf8EncodeChar c ++ utf8Bytes s := flatMap_cons
    rw [hcons, foldl_append, collapse]
    cases hws : isAsciiWs c with
    | true =>
      obtain ⟨b, hencode, hb⟩ := utf8EncodeChar_of_isAsciiWs hws
      rw [if_pos rfl, hencode, foldl_cons, foldl_nil, lineHashStep, hb, if_pos rfl]
      cases afterWs with
      | true => exact ih hash true
      | false => exact ih (mix hash 0x20) true
    | false =>
      have hne : String.utf8EncodeChar c ≠ [] := by
        have hlength := String.length_utf8EncodeChar c
        have hpos := Char.utf8Size_pos c
        intro hnil
        rw [hnil, length_nil] at hlength
        omega
      have hcons' : utf8Bytes (c :: collapse false s) =
          String.utf8EncodeChar c ++ utf8Bytes (collapse false s) := flatMap_cons
      rw [if_neg Bool.false_ne_true, foldl_lineHashStep (isAsciiWhitespace_of_mem hws) hne, ih, hcons',
        foldl_append]

theorem lineHash_eq (line : Text) : lineHash line = fnv1a32 (utf8Bytes (normalise line)) :=
  foldl_collapse (trim line) fnvOffset false

/-! ## Windows -/

theorem getElem?_slice (lines : List Text) (start stop i : Nat) :
    (slice lines start stop)[i]? = if start + i < stop then lines[start + i]? else none := by
  rw [slice, getElem?_drop, getElem?_take]

variable {lines lines' : List Text}

theorem slice_congr {start stop : Nat} (h : ∀ i, start ≤ i → i < stop → lines'[i]? = lines[i]?) :
    slice lines' start stop = slice lines start stop := by
  apply ext_getElem?
  intro i
  rw [getElem?_slice, getElem?_slice]
  by_cases hi : start + i < stop
  · rw [if_pos hi, if_pos hi]
    exact h (start + i) (by omega) hi
  · rw [if_neg hi, if_neg hi]

theorem validate_of_same {scheme : AnchorScheme} {p : ParsedAnchor}
    (hvalid : scheme.validate p lines = .valid)
    (hline : ∀ line, lines[p.idx]? = some line → ∃ line', lines'[p.idx]? = some line' ∧ lineHash line' = lineHash line)
    (hcontext : scheme.freshContext lines' p.idx = scheme.freshContext lines p.idx) :
    scheme.validate p lines' = .valid := by
  obtain ⟨line, hl, hlocal, hctx⟩ := validate_eq_valid.mp hvalid
  obtain ⟨line', hl', hhash⟩ := hline line hl
  refine validate_eq_valid.mpr ⟨line', hl', ?_, ?_⟩
  · rw [hhash, hlocal]
  · rw [hcontext]
    exact hctx

/-- The edit changes lines of the chunk only, and not how many there are. -/
def EditsChunk (s : ChunkFingerprint) (chunk : Nat) (lines lines' : List Text) : Prop :=
  lines'.length = lines.length ∧ ∀ i, i / s.chunkSize.val ≠ chunk → lines'[i]? = lines[i]?

theorem ChunkFingerprint.chunkFingerprint_congr {s : ChunkFingerprint} {chunk i : Nat}
    (h : EditsChunk s chunk lines lines') (hi : i / s.chunkSize.val ≠ chunk) :
    s.chunkFingerprint lines' i = s.chunkFingerprint lines i := by
  obtain ⟨hlength, hsame⟩ := h
  have hpos := s.chunkSize.property
  have hwindow (stop : Nat) (hstop : stop ≤ i / s.chunkSize.val * s.chunkSize.val + s.chunkSize.val) :
      slice lines' (i / s.chunkSize.val * s.chunkSize.val) stop =
        slice lines (i / s.chunkSize.val * s.chunkSize.val) stop := by
    refine slice_congr fun k hk hk' => hsame k ?_
    have hdiv : k / s.chunkSize.val = i / s.chunkSize.val := by
      apply Nat.div_eq_of_lt_le
      · exact hk
      · rw [Nat.succ_mul]
        omega
    rw [hdiv]
    exact hi
  unfold chunkFingerprint
  dsimp only
  rw [hlength, hwindow _ (Nat.min_le_left _ _)]

/-- **Staleness is local.** -/
theorem staleness_is_local :
    (∀ (s : ChunkFingerprint) (chunk : Nat) (lines lines' : List Text) (p : ParsedAnchor),
      EditsChunk s chunk lines lines' → p.idx / s.chunkSize.val ≠ chunk →
      s.validate p lines = .valid → s.validate p lines' = .valid) ∧
    (∀ (s : CheckpointChain) (k : Nat) (lines lines' : List Text) (p : ParsedAnchor),
      lines'.take k = lines.take k → p.idx < k →
      s.validate p lines = .valid → s.validate p lines' = .valid) ∧
    (∀ (s : ContentOnly) (lines lines' : List Text) (p : ParsedAnchor) (line line' : Text),
      lines[p.idx]? = some line → lines'[p.idx]? = some line' → normalise line' = normalise line →
      s.validate p lines = .valid → s.validate p lines' = .valid) := by
  refine ⟨?_, ?_, ?_⟩
  · intro s chunk lines lines' p hedit houtside hvalid
    have hcontext : (AnchorScheme.chunk s).freshContext lines' p.idx =
        (AnchorScheme.chunk s).freshContext lines p.idx :=
      congrArg some (ChunkFingerprint.chunkFingerprint_congr hedit houtside)
    have hvalid : (AnchorScheme.chunk s).validate p lines = .valid := hvalid
    show (AnchorScheme.chunk s).validate p lines' = .valid
    refine validate_of_same hvalid (fun line hl => ?_) hcontext
    exact ⟨line, (hedit.2 p.idx houtside).trans hl, rfl⟩
  · intro s k lines lines' p htake hbefore hvalid
    have hsame (i : Nat) (hi : i < k) : lines'[i]? = lines[i]? := by
      rw [← getElem?_take_of_lt hi, htake, getElem?_take_of_lt hi]
    have hcontext : (AnchorScheme.checkpoint s).freshContext lines' p.idx =
        (AnchorScheme.checkpoint s).freshContext lines p.idx := by
      show some (s.checkpointFingerprint lines' p.idx) = some (s.checkpointFingerprint lines p.idx)
      unfold CheckpointChain.checkpointFingerprint
      dsimp only
      rw [slice_congr fun i _ hi => hsame i (by omega)]
    have hvalid : (AnchorScheme.checkpoint s).validate p lines = .valid := hvalid
    show (AnchorScheme.checkpoint s).validate p lines' = .valid
    refine validate_of_same hvalid (fun line hl => ?_) hcontext
    exact ⟨line, (hsame p.idx hbefore).trans hl, rfl⟩
  · intro s lines lines' p line line' hl hl' hnormal hvalid
    have hcontext : (AnchorScheme.contentOnly s).freshContext lines' p.idx =
        (AnchorScheme.contentOnly s).freshContext lines p.idx := rfl
    have hvalid : (AnchorScheme.contentOnly s).validate p lines = .valid := hvalid
    show (AnchorScheme.contentOnly s).validate p lines' = .valid
    refine validate_of_same hvalid (fun line₀ hl₀ => ?_) hcontext
    obtain rfl := Option.some.inj (hl.symm.trans hl₀)
    exact ⟨line', hl', by rw [lineHash_eq, lineHash_eq, hnormal]⟩

end GrokBuild.Hashline
