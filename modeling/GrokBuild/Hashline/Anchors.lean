import GrokBuild.Hashline.Edit

/-!
# Anchors shown are the anchors accepted

Generating an anchor and validating one are separate computations: the
chunk scheme precomputes one fingerprint per chunk and the checkpoint
scheme carries a running chain, while validation recomputes the context of
a single line from a slice. `freshContext` is the recomputed one, and
`getElem?_generateAnchors` says that the generated anchors are made of it.
From there on only the text form of an anchor is left: what `render`
writes, `parse` reads back and no arrow cuts off.
-/

namespace GrokBuild.Hashline

open TextLines Str List Option

/-! ## Hash components -/

/-- A text of one or more lowercase letters. -/
def IsHash (s : Text) : Prop := s ≠ [] ∧ ∀ c ∈ s, c.isLower

theorem isLower_letter (k : Nat) (h : k < 26) : (Char.ofNat (k + 'a'.toNat)).isLower := by
  revert k
  decide

theorem isHash_encodeHash (hash : UInt32) (len : HashLen) : IsHash (encodeHash hash len) := by
  constructor
  · have hlen : (encodeHash hash len).length = len.val := by simp [encodeHash]
    intro h
    have := len.property.1
    rw [h, length_nil] at hlen
    omega
  · intro c hc
    obtain ⟨i, -, rfl⟩ := List.mem_map.mp hc
    apply isLower_letter
    rw [UInt32.toNat_mod]
    exact Nat.mod_lt _ (by decide)

variable {s : Text}

theorem IsHash.all (h : IsHash s) : s.all Char.isLower = true :=
  List.all_eq_true.mpr h.2

theorem IsHash.notMem {c : Char} (h : IsHash s) (hc : c.isLower = false) : c ∉ s := by
  intro hm
  rw [h.2 c hm] at hc
  cases hc

/-! ## The text form -/

namespace Anchor

/-- The parts of an anchor that `parse` checks. -/
structure WellFormed (a : Anchor) : Prop where
  pos : a.line ≠ 0
  fits : a.line ≤ usizeMax
  isLocal : IsHash a.localHash
  isContext : ∀ ctx, a.context = some ctx → IsHash ctx

/-- The anchor as `parse` returns it. -/
def parsed (a : Anchor) : ParsedAnchor :=
  { line := a.line, localHash := a.localHash, context := a.context }

variable {a : Anchor}

theorem WellFormed.parse_render (h : a.WellFormed) : ParsedAnchor.parse a.render = some a.parsed := by
  obtain ⟨line, localHash, context⟩ := a
  have hline : ':' ∉ decimal line := notMem_decimal (by decide) line
  have hlocal : ':' ∉ localHash := h.isLocal.notMem (by decide)
  have hempty : ¬ (decimal line = [] ∨ localHash = []) := by
    rw [not_or]
    exact ⟨decimal_ne_nil line, h.isLocal.1⟩
  have hpos : line ≠ 0 := h.pos
  have hfits : line ≤ usizeMax := h.fits
  have hall : localHash.all Char.isLower = true := h.isLocal.all
  cases context with
  | none =>
    have hparts : splitN 3 ':' (decimal line ++ ':' :: localHash) = [decimal line, localHash] := by
      simp only [splitN, splitOnce_append hline, splitOnce_eq_none hlocal]
    simp only [ParsedAnchor.parse, render, renderAnchor, hparts, if_neg hempty,
      parseUsize_decimal hfits, if_neg hpos, hall, head?_nil]
    rfl
  | some ctx =>
    have hctx := h.isContext ctx rfl
    have hparts : splitN 3 ':' (decimal line ++ ':' :: (localHash ++ ':' :: ctx)) =
        [decimal line, localHash, ctx] := by
      simp only [splitN, splitOnce_append hline, splitOnce_append hlocal]
    simp only [ParsedAnchor.parse, render, renderAnchor, hparts, if_neg hempty,
      parseUsize_decimal hfits, if_neg hpos, hall, head?_cons, hctx.1, hctx.all]
    rfl

theorem WellFormed.notMem_render (h : a.WellFormed) {c : Char} (hd : c.isDigit = false)
    (hl : c.isLower = false) (hc : c ≠ ':') : c ∉ a.render := by
  obtain ⟨line, localHash, context⟩ := a
  have hline := notMem_decimal hd line
  have hlocal : c ∉ localHash := h.isLocal.notMem hl
  cases context with
  | none => simp [render, renderAnchor, hline, hlocal, hc]
  | some ctx =>
    have hctx := (h.isContext ctx rfl).notMem hl
    simp [render, renderAnchor, hline, hlocal, hctx, hc]

theorem WellFormed.stripArrow_render (h : a.WellFormed) : stripArrow a.render = a.render := by
  have harrow := h.notMem_render (c := '→') (by decide) (by decide) (by decide)
  have hdash := h.notMem_render (c := '-') (by decide) (by decide) (by decide)
  simp only [stripArrow, splitOnce_eq_none harrow, splitOnce_eq_none hdash]

theorem render_eq (a : Anchor) : a.render = decimal a.line ++ ':' :: anchorSuffix a := by
  obtain ⟨line, localHash, context⟩ := a
  cases context <;> rfl

end Anchor

/-! ## Contexts -/

namespace AnchorScheme

/-- The context that validation recomputes for line `i`. -/
def freshContext (scheme : AnchorScheme) (lines : List Text) (i : Nat) : Option Text :=
  match scheme with
  | contentOnly _ => none
  | chunk s => some (s.chunkFingerprint lines i)
  | checkpoint s => some (s.checkpointFingerprint lines i)

/-- The anchor of a line, put together from the recomputed parts. -/
def freshAnchor (scheme : AnchorScheme) (lines : List Text) (i : Nat) (line : Text) : Anchor :=
  { line := i + 1
    localHash := encodeHash (lineHash line) scheme.hashLen
    context := scheme.freshContext lines i }

end AnchorScheme

variable {lines : List Text} {i : Nat}

theorem ChunkFingerprint.getElem?_chunkFps (s : ChunkFingerprint) (hi : i < lines.length) :
    (s.chunkFps lines)[i / s.chunkSize]? = some (s.chunkFingerprint lines i) := by
  have hpos := s.chunkSize.property
  have hchunk : i / s.chunkSize.val < (lines.length + s.chunkSize.val - 1) / s.chunkSize.val := by
    have hle : i / s.chunkSize.val + 1 = (i + s.chunkSize.val) / s.chunkSize.val :=
      (Nat.add_div_right i hpos).symm
    have hmono : (i + s.chunkSize.val) / s.chunkSize.val ≤
        (lines.length + s.chunkSize.val - 1) / s.chunkSize.val :=
      Nat.div_le_div_right (by omega)
    omega
  simp only [chunkFps, getElem?_map, getElem?_range hchunk, map_some,
    chunkFingerprint]

theorem slice_self (lines : List Text) (i : Nat) : slice lines i i = [] := by
  rw [slice, drop_eq_nil_iff, length_take]
  omega

theorem slice_succ {start : Nat} {line : Text} (hs : start ≤ i) (hi : lines[i]? = some line) :
    slice lines start (i + 1) = slice lines start i ++ [line] := by
  obtain ⟨hlt, rfl⟩ := List.getElem?_eq_some_iff.mp hi
  rw [slice, slice, take_succ_eq_append_getElem hlt, drop_append_of_le_length]
  rw [length_take]
  omega

theorem combine_append (seed : UInt32) (xs : List Text) (line : Text) :
    combine seed (xs ++ [line]) = mix (combine seed xs) (lineHash line) := by
  simp [combine]

/-- The running chain in front of line `i` is the chain from the checkpoint,
unless line `i` is a checkpoint itself and resets it. -/
theorem CheckpointChain.getElem?_generateLoop (s : CheckpointChain) (done rest : List Text)
    (chain : UInt32)
    (hchain : done.length % s.checkpointInterval.val ≠ 0 → chain = combine ckptSeed
      (slice (done ++ rest)
        (done.length / s.checkpointInterval.val * s.checkpointInterval.val) done.length))
    (j : Nat) :
    (s.generateLoop done.length chain rest)[j]? = (rest[j]?).map
      ((AnchorScheme.checkpoint s).freshAnchor (done ++ rest) (done.length + j)) := by
  induction rest generalizing done chain j with
  | nil => simp [generateLoop]
  | cons line rest ih =>
    have hpos := s.checkpointInterval.property
    have hline : (done ++ line :: rest)[done.length]? = some line := by simp
    have hstart : done.length / s.checkpointInterval.val * s.checkpointInterval.val ≤
      done.length := Nat.div_mul_le_self _ _
    -- one round: the new chain covers the lines from the checkpoint through this one
    have hnext : mix (if done.length % s.checkpointInterval.val = 0 then ckptSeed else chain)
        (lineHash line) = combine ckptSeed (slice (done ++ line :: rest)
          (done.length / s.checkpointInterval.val * s.checkpointInterval.val)
          (done.length + 1)) := by
      rw [slice_succ hstart hline, combine_append]
      congr 1
      split
      · next h0 =>
        rw [Nat.div_mul_cancel (Nat.dvd_of_mod_eq_zero h0), slice_self]
        rfl
      · next h0 => exact hchain h0
    rw [generateLoop]
    cases j with
    | zero =>
      simp only [getElem?_cons_zero, map_some, hnext, AnchorScheme.freshAnchor,
        AnchorScheme.hashLen, AnchorScheme.freshContext, Nat.add_zero, checkpointFingerprint]
    | succ j =>
      have happ : done ++ line :: rest = (done ++ [line]) ++ rest := by simp
      have hlen : done.length + 1 = (done ++ [line]).length := by simp
      have hidx : done.length + (j + 1) = (done ++ [line]).length + j := by
        rw [← hlen]
        omega
      rw [getElem?_cons_succ, getElem?_cons_succ, hnext, hidx, happ, hlen]
      apply ih
      intro hmod
      rw [← hlen] at hmod ⊢
      have hdiv : (done.length + 1) / s.checkpointInterval.val =
          done.length / s.checkpointInterval.val := by
        rw [Nat.succ_div, if_neg, Nat.add_zero]
        exact fun hdvd => hmod (Nat.mod_eq_zero_of_dvd hdvd)
      rw [hdiv]

theorem getElem?_generateAnchors (scheme : AnchorScheme) (lines : List Text) (i : Nat) :
    (scheme.generateAnchors lines)[i]? = (lines[i]?).map (scheme.freshAnchor lines i) := by
  cases scheme with
  | contentOnly s =>
    rw [AnchorScheme.generateAnchors, ContentOnly.generateAnchors, getElem?_mapIdx]
    rfl
  | chunk s =>
    simp only [AnchorScheme.generateAnchors, ChunkFingerprint.generateAnchors,
      getElem?_mapIdx]
    cases hl : lines[i]? with
    | none => rfl
    | some line =>
      have hi := (List.getElem?_eq_some_iff.mp hl).1
      simp only [map_some, s.getElem?_chunkFps hi, AnchorScheme.freshAnchor,
        AnchorScheme.hashLen, AnchorScheme.freshContext]
  | checkpoint s =>
    have h := s.getElem?_generateLoop [] lines ckptSeed (by simp) i
    rw [nil_append, length_nil, Nat.zero_add] at h
    exact h

/-! ## Validation -/

variable {scheme : AnchorScheme} {p : ParsedAnchor}

/-- An anchor is valid when its line exists and has its hashes; a scheme
with contexts insists on one. -/
theorem validate_eq_valid :
    scheme.validate p lines = .valid ↔ ∃ line, lines[p.idx]? = some line ∧
      p.localHash = encodeHash (lineHash line) scheme.hashLen ∧
      ∀ ctx, scheme.freshContext lines p.idx = some ctx → p.context = some ctx := by
  cases hl : lines[p.idx]? with
  | none =>
    cases scheme <;> simp [AnchorScheme.validate, ContentOnly.validate,
      ChunkFingerprint.validate, CheckpointChain.validate, hl]
  | some line =>
    cases scheme with
    | contentOnly s =>
      simp [AnchorScheme.validate, ContentOnly.validate, hl, AnchorScheme.freshContext,
        AnchorScheme.hashLen]
    | chunk s =>
      simp only [AnchorScheme.validate, ChunkFingerprint.validate, hl, AnchorScheme.freshContext,
        AnchorScheme.hashLen]
      cases hc : p.context <;> split_ifs <;> simp_all
    | checkpoint s =>
      simp only [AnchorScheme.validate, CheckpointChain.validate, hl, AnchorScheme.freshContext,
        AnchorScheme.hashLen]
      cases hc : p.context <;> split_ifs <;> simp_all

theorem wellFormed_freshAnchor (scheme : AnchorScheme) (line : Text) (hi : i < lines.length)
    (hfits : lines.length ≤ usizeMax) : (scheme.freshAnchor lines i line).WellFormed := by
  have hline : i + 1 ≤ usizeMax := by omega
  refine ⟨Nat.succ_ne_zero i, hline, isHash_encodeHash _ _, ?_⟩
  intro ctx hctx
  cases scheme with
  | contentOnly s => cases hctx
  | chunk s =>
    cases hctx
    exact isHash_encodeHash _ _
  | checkpoint s =>
    cases hctx
    exact isHash_encodeHash _ _

theorem validateAnchor_render {a : Anchor} (h : a.WellFormed)
    (hv : scheme.validate a.parsed lines = .valid) :
    validateAnchor a.render lines scheme = .ok (a.line - 1) := by
  have hread : readAnchor a.render lines scheme = some a.parsed := by
    rw [readAnchor, h.parse_render]
  rw [validateAnchor]
  simp only [h.stripArrow_render, hread, hv]
  rfl

theorem validate_freshAnchor (scheme : AnchorScheme) {line : Text} (hl : lines[i]? = some line) :
    scheme.validate (scheme.freshAnchor lines i line).parsed lines = .valid :=
  validate_eq_valid.mpr ⟨line, hl, rfl, fun _ hctx => hctx⟩

/-! ## What an accepted string says -/

/-- The hash components in an anchor string: those of the anchor it parses
as, or what stands around its colon when it has no line number. -/
def anchorHashes (anchorStr : Text) : Text × Option Text :=
  match ParsedAnchor.parse (stripArrow anchorStr) with
  | some p => (p.localHash, p.context)
  | none =>
    match splitOnce [':'] (stripArrow anchorStr) with
    | some (localHash, context) => (localHash, some context)
    | none => (stripArrow anchorStr, none)

theorem recoverAnchorBySuffix_some (h : recoverAnchorBySuffix s lines scheme = some p) :
    (match splitOnce [':'] s with
      | some (localHash, context) => (localHash, some context)
      | none => (s, none)) = (p.localHash, p.context) := by
  rw [recoverAnchorBySuffix] at h
  split at h
  · next a hfound =>
    cases h
    have hmem := mem_filter.mp (hfound ▸ mem_singleton_self a)
    have hmatch := hmem.2
    revert hmatch
    cases hc : a.context <;> cases hs : splitOnce [':'] s <;> simp_all
  · cases h

theorem anchorHashes_eq (h : readAnchor (stripArrow s) lines scheme = some p) :
    anchorHashes s = (p.localHash, p.context) := by
  rw [readAnchor] at h
  rw [anchorHashes]
  cases hp : ParsedAnchor.parse (stripArrow s) with
  | some q =>
    rw [hp] at h
    cases h
    rfl
  | none =>
    rw [hp] at h
    exact recoverAnchorBySuffix_some h

theorem parse_line_ne_zero (h : ParsedAnchor.parse s = some p) : p.line ≠ 0 := by
  unfold ParsedAnchor.parse at h
  repeat' split at h
  all_goals first
    | cases h
      assumption
    | cases h

theorem recoverAnchorBySuffix_line_ne_zero (h : recoverAnchorBySuffix s lines scheme = some p) :
    p.line ≠ 0 := by
  rw [recoverAnchorBySuffix] at h
  split at h
  · next a hfound =>
    cases h
    have hmem := (mem_filter.mp (hfound ▸ mem_singleton_self a)).1
    obtain ⟨i, hi⟩ := mem_iff_getElem?.mp hmem
    rw [getElem?_generateAnchors, map_eq_some_iff] at hi
    obtain ⟨line, -, rfl⟩ := hi
    exact Nat.succ_ne_zero i
  · cases h

theorem readAnchor_line_ne_zero (h : readAnchor s lines scheme = some p) : p.line ≠ 0 := by
  rw [readAnchor] at h
  split at h
  · next q hq =>
    cases h
    exact parse_line_ne_zero hq
  · exact recoverAnchorBySuffix_line_ne_zero h

theorem validateAnchor_ok (h : validateAnchor s lines scheme = .ok i) :
    ∃ p, readAnchor (stripArrow s) lines scheme = some p ∧ p.idx = i ∧
      scheme.validate p lines = .valid := by
  rw [validateAnchor] at h
  split at h
  · cases h
  · next p hp =>
    split at h
    · next hv =>
      cases h
      exact ⟨p, hp, if_neg (readAnchor_line_ne_zero hp), hv⟩
    · cases h
    · cases h

/-! ## Suggestions -/

theorem findShifted_found {radius newLine : Nat}
    (h : scheme.findShifted p lines radius = .found newLine) :
    ∃ i line, newLine = i + 1 ∧ lines[i]? = some line := by
  rw [AnchorScheme.findShifted] at h
  split at h
  · cases h
  · next heq =>
    cases h
    obtain ⟨i, hi, rfl⟩ := List.mem_map.mp (heq ▸ mem_singleton_self newLine)
    have hcand := (mem_filter.mp hi).2
    rw [AnchorScheme.isCandidate] at hcand
    split at hcand
    · cases hcand
    · split at hcand
      · cases hcand
      · next line hl => exact ⟨i, line, rfl, hl⟩
  · cases h

theorem staleError_shifted (s : Text) (p : ParsedAnchor) (lines : List Text)
    (scheme : AnchorScheme) :
    ((staleError s p lines scheme).shiftedTo, (staleError s p lines scheme).shiftedAnchor) =
      match scheme.findShifted p lines defaultSearchRadius with
      | .found newLine => (some newLine, some (decimal newLine ++
          ':' :: ((scheme.generateAnchors lines)[newLine - 1]?).elim [] anchorSuffix))
      | _ => (none, none) := by
  unfold staleError
  generalize scheme.findShifted p lines defaultSearchRadius = shift
  cases shift <;> rfl

/-- The anchor suggested for a stale one is the fresh anchor of some line. -/
theorem staleError_shiftedAnchor {t : Text} (h : (staleError s p lines scheme).shiftedAnchor = some t) :
    ∃ i line, lines[i]? = some line ∧ t = (scheme.freshAnchor lines i line).render ∧
      (staleError s p lines scheme).shiftedTo = some (i + 1) := by
  have hfields := staleError_shifted s p lines scheme
  rw [h] at hfields
  split at hfields
  · next newLine hshift =>
    obtain ⟨i, line, rfl, hl⟩ := findShifted_found hshift
    have hanchor := getElem?_generateAnchors scheme lines i
    rw [hl, map_some] at hanchor
    rw [Nat.add_sub_cancel, hanchor] at hfields
    obtain ⟨hto, ht⟩ := Prod.mk.inj hfields
    refine ⟨i, line, hl, ?_, hto⟩
    rw [Anchor.render_eq]
    exact some.inj ht
  · cases (Prod.mk.inj hfields).2

theorem validateAnchor_error {t : Text} {e : HashlineEditError}
    (h : validateAnchor s lines scheme = .error e) (ht : e.shiftedAnchor = some t) :
    ∃ p, e = staleError (stripArrow s) p lines scheme := by
  rw [validateAnchor] at h
  split at h
  · cases h
    cases ht
  · next p hp =>
    split at h
    · cases h
    · cases h
      cases ht
    · cases h
      exact ⟨p, rfl⟩

/-! ## Files -/

theorem length_splitLines (content : Text) :
    (splitLines content).length = content.count '\n' + 1 := by
  rw [splitLines]
  have hlen := length_lines content
  split
  · next h => simp [h]
  · next h =>
    split
    · next hnl =>
      rw [if_pos (.inr hnl)] at hlen
      rw [length_append, hlen, length_singleton]
    · next hnl => rw [hlen, if_neg (by simp [h, hnl])]

theorem length_splitLines_le (content : MemStr) :
    (splitLines content.val).length ≤ usizeMax := by
  have hcount := count_le_length (a := '\n') (l := content.val)
  have hbytes := length_le_byteLen content.val
  have hmem := content.property
  have hmax : isizeMax + 1 ≤ usizeMax := by decide
  rw [length_splitLines]
  omega

/-- The anchors of a file and the strings that pass for anchors of it agree:
every generated anchor parses and names its line; a string that is accepted
carries the hashes of the line it names; and an anchor suggested in an error
is accepted. -/
theorem anchors_shown_iff_accepted (scheme : AnchorScheme) (content : MemStr) :
    (∀ i a, (scheme.generateAnchors (splitLines content.val))[i]? = some a →
      a.line = i + 1 ∧ ParsedAnchor.parse a.render = some a.parsed ∧
        validateAnchor a.render (splitLines content.val) scheme = .ok i) ∧
    (∀ s i, validateAnchor s (splitLines content.val) scheme = .ok i →
      ∃ line a, (splitLines content.val)[i]? = some line ∧
        (scheme.generateAnchors (splitLines content.val))[i]? = some a ∧
        (anchorHashes s).1 = encodeHash (lineHash line) scheme.hashLen ∧
        (a.context ≠ none → (anchorHashes s).2 = a.context) ∧
        (a.context = none → ∃ c, scheme = .contentOnly c)) ∧
    (∀ s e t, validateAnchor s (splitLines content.val) scheme = .error e →
      e.shiftedAnchor = some t →
      ∃ i, e.shiftedTo = some (i + 1) ∧
        validateAnchor t (splitLines content.val) scheme = .ok i) := by
  have hfits := length_splitLines_le content
  have hshown : ∀ i line, (splitLines content.val)[i]? = some line →
      (scheme.freshAnchor (splitLines content.val) i line).WellFormed ∧
      validateAnchor (scheme.freshAnchor (splitLines content.val) i line).render
        (splitLines content.val) scheme = .ok i := by
    intro i line hl
    have hwf := wellFormed_freshAnchor scheme line (List.getElem?_eq_some_iff.mp hl).1 hfits
    exact ⟨hwf, validateAnchor_render hwf (validate_freshAnchor scheme hl)⟩
  refine ⟨?_, ?_, ?_⟩
  · intro i a ha
    rw [getElem?_generateAnchors, map_eq_some_iff] at ha
    obtain ⟨line, hl, rfl⟩ := ha
    exact ⟨rfl, (hshown i line hl).1.parse_render, (hshown i line hl).2⟩
  · intro s i hs
    obtain ⟨p, hp, hi, hv⟩ := validateAnchor_ok hs
    obtain ⟨line, hl, hlocal, hctx⟩ := validate_eq_valid.mp hv
    rw [hi] at hl hctx
    refine ⟨line, _, hl, by rw [getElem?_generateAnchors, hl]; rfl, ?_, ?_, ?_⟩
    · rw [anchorHashes_eq hp]
      exact hlocal
    · intro hne
      obtain ⟨ctx, hfresh⟩ := ne_none_iff_exists'.mp hne
      rw [anchorHashes_eq hp, hfresh]
      exact hctx ctx hfresh
    · intro hnone
      cases scheme with
      | contentOnly c => exact ⟨c, rfl⟩
      | chunk c => cases hnone
      | checkpoint c => cases hnone
  · intro s e t hs ht
    obtain ⟨p, rfl⟩ := validateAnchor_error hs ht
    obtain ⟨i, line, hl, rfl, hto⟩ := staleError_shiftedAnchor ht
    exact ⟨i, hto, (hshown i line hl).2⟩

end GrokBuild.Hashline
