import GrokBuild.Lib.Str
import Mathlib.Data.List.DropRight

/-!
# Web fetch: the domain allowlist

`domain.rs`: raw entries are brought into a form for comparison and folded into a map
from hosts to what they may serve. What the map permits is read off the set of
entries (`check_eq_none`); the form itself is canonical only for entries from which
one pass takes everything that there is to take off.
-/

namespace GrokBuild.WebFetch

open TextLines Str List

/-- A character that is taken off the ends of an entry. -/
def Shed (c : Char) : Prop := isWhitespace c = true ∨ c = '/' ∨ c = '.'

/-- `str::to_lowercase`. Lower case is a matter of single characters, only the form of
a final sigma is not; it changes neither white space, slashes and dots nor, at the
start, anything into `www.` but its spellings in ASCII. -/
structure Lowercase where
  toLowercase : Text → Text
  lowered : ∀ s t, t <:+: toLowercase s → toLowercase t = t
  head_iff : ∀ s c, Shed c → ((toLowercase s).head? = some c ↔ s.head? = some c)
  last_iff : ∀ s c, Shed c → ((toLowercase s).getLast? = some c ↔ s.getLast? = some c)
  www_iff : ∀ s, "www.".toList <+: toLowercase s ↔ "www.".toList <+: s.map Char.toLower
  caseless : ∀ s t, s.map Char.toLower = t.map Char.toLower → toLowercase s = toLowercase t
  length_append : ∀ s t,
    (toLowercase (s ++ t)).length = (toLowercase s).length + (toLowercase t).length

variable (lower : Lowercase)

/-- Trimmed, without the slashes at the end and the dots before them. -/
def shed (raw : Text) : Text := ((trim raw).rdropWhile (· = '/')).rdropWhile (· = '.')

/-- `strip_prefix("www.")`, or the text as it is. -/
def stripWww (s : Text) : Text := if "www.".toList <+: s then s.drop 4 else s

def normalizeDomain (raw : Text) : Text := lower.toLowercase (stripWww (shed raw))

inductive HostEntry where
  | anyPath
  | pathPrefixes (paths : List Text)
  deriving DecidableEq

structure DomainMatcher where
  entries : Text → Option HostEntry

def hostPart (normalized : Text) : Text := normalized.takeWhile (· ≠ '/')

/-- From the first slash on. -/
def pathPart (normalized : Text) : Text := normalized.dropWhile (· ≠ '/')

/-- The path of an entry, without the slashes at its end. -/
def entryPath (normalized : Text) : Text := (pathPart normalized).rdropWhile (· = '/')

namespace DomainMatcher

def insert (m : DomainMatcher) (host : Text) (entry : HostEntry) : DomainMatcher :=
  ⟨fun h => if h = host then some entry else m.entries h⟩

/-- One round of the loop of `DomainMatcher::new`. -/
def add (m : DomainMatcher) (normalized : Text) : DomainMatcher :=
  let host := hostPart normalized
  if normalized = [] then m
  else if pathPart normalized = [] then m.insert host .anyPath
  else if m.entries host = some .anyPath then m
  -- what is left of the path is empty or starts with a slash
  else if entryPath normalized = [] then m.insert host .anyPath
  else match m.entries host with
    | some (.pathPrefixes paths) =>
      if entryPath normalized ∈ paths then m
      else m.insert host (.pathPrefixes (paths ++ [entryPath normalized]))
    | _ => m.insert host (.pathPrefixes [entryPath normalized])

def new (rawEntries : List Text) : DomainMatcher :=
  rawEntries.foldl (fun m raw => m.add (normalizeDomain lower raw)) ⟨fun _ => none⟩

/-- `DomainMatcher::check`, on the host and the path of the URL: nothing if it is
permitted, or the host of `DomainNotAllowed`. -/
def check (m : DomainMatcher) (hostStr : Option Text) (path : Text) : Option Text :=
  match hostStr with
  | none => some []
  | some rawHost =>
    let host := normalizeDomain lower rawHost
    match m.entries host with
    | some .anyPath => none
    | some (.pathPrefixes paths) =>
      let urlPath := lower.toLowercase path
      if paths.any fun p => urlPath == p || (p.isPrefixOf urlPath && urlPath[p.length]? == some '/')
      then none
      else some host
    | none => some host

end DomainMatcher

/-! ## What is expected of the allowlist -/

/-- The entry is for the host, and its path covers the URL's. -/
def Admits (normalized host urlPath : Text) : Prop :=
  hostPart normalized = host ∧ (entryPath normalized = [] ∨ urlPath = entryPath normalized ∨
    entryPath normalized ++ ['/'] <+: urlPath)

/-- Nothing more to take off behind one pass. -/
def OnePass (raw : Text) : Prop :=
  let s := stripWww (shed raw)
  (∀ c ∈ s.head?, isWhitespace c = false) ∧
    (∀ c ∈ s.getLast?, isWhitespace c = false ∧ c ≠ '/') ∧ ¬ "www.".toList <+: s.map Char.toLower

structure DomainRules : Prop where
  idempotent : ∀ raw, normalizeDomain lower (normalizeDomain lower raw) = normalizeDomain lower raw ↔
    OnePass raw
  caseless : ∀ s t, s.map Char.toLower = t.map Char.toLower →
    (normalizeDomain lower s = normalizeDomain lower t ↔
      ("www.".toList <+: shed s ↔ "www.".toList <+: shed t))
  setwise : ∀ es es' : List Text,
    (∀ n, n ∈ es.map (normalizeDomain lower) ↔ n ∈ es'.map (normalizeDomain lower)) →
    ∀ host path, (DomainMatcher.new lower es).check lower host path =
      (DomainMatcher.new lower es').check lower host path
  monotone : ∀ es es' : List Text, es ⊆ es' → ∀ host path,
    (DomainMatcher.new lower es).check lower host path = none →
      (DomainMatcher.new lower es').check lower host path = none
  permits : ∀ es host path, (DomainMatcher.new lower es).check lower host path = none ↔
    ∃ rawHost, host = some rawHost ∧ ∃ raw ∈ es, normalizeDomain lower raw ≠ [] ∧
      Admits (normalizeDomain lower raw) (normalizeDomain lower rawHost) (lower.toLowercase path)

/-! ## The map -/

namespace DomainMatcher

variable {lower} {m : DomainMatcher} {normalized host : Text} {seen : Text → Prop}

theorem add_other (h : host ≠ hostPart normalized) :
    (m.add normalized).entries host = m.entries host := by
  simp only [add]
  repeat' split
  all_goals first | rfl | exact if_neg h

theorem add_same (hne : normalized ≠ []) : (m.add normalized).entries (hostPart normalized) =
    match m.entries (hostPart normalized) with
    | some .anyPath => some .anyPath
    | some (.pathPrefixes paths) =>
      if entryPath normalized = [] then some .anyPath
      else if entryPath normalized ∈ paths then some (.pathPrefixes paths)
      else some (.pathPrefixes (paths ++ [entryPath normalized]))
    | none => if entryPath normalized = [] then some .anyPath
      else some (.pathPrefixes [entryPath normalized]) := by
  have hroot : pathPart normalized = [] → entryPath normalized = [] := by
    intro h
    rw [entryPath, h, rdropWhile_nil]
  unfold add
  simp only [if_neg hne]
  by_cases hpath : pathPart normalized = []
  · rw [if_pos hpath]
    simp only [insert, hroot hpath, if_true]
    split <;> rfl
  · rw [if_neg hpath]
    cases hentry : m.entries (hostPart normalized) with
    | none =>
      simp only [reduceCtorEq, if_false]
      split <;> simp [insert]
    | some entry =>
      cases entry with
      | anyPath => simp [hentry]
      | pathPrefixes paths =>
        simp only [Option.some.injEq, reduceCtorEq, if_false]
        split
        · simp [insert]
        · split <;> simp [insert, hentry]

/-- The map says of each host what the entries seen say of it. -/
def Describes (m : DomainMatcher) (seen : Text → Prop) : Prop :=
  ∀ host, match m.entries host with
    | none => ∀ n, seen n → hostPart n ≠ host
    | some .anyPath => ∃ n, seen n ∧ hostPart n = host ∧ entryPath n = []
    | some (.pathPrefixes paths) => (∀ n, seen n → hostPart n = host → entryPath n ≠ []) ∧
      ∀ p, p ∈ paths ↔ ∃ n, seen n ∧ hostPart n = host ∧ entryPath n = p

theorem describes_add (normalized : Text) (h : m.Describes seen) :
    (m.add normalized).Describes fun n => seen n ∨ n = normalized ∧ n ≠ [] := by
  intro host
  have hhost := h host
  by_cases hsame : host = hostPart normalized ∧ normalized ≠ []
  · obtain ⟨rfl, hne⟩ := hsame
    rw [add_same hne]
    cases hentry : m.entries (hostPart normalized) with
    | none =>
      simp only [hentry] at hhost ⊢
      grind
    | some entry =>
      cases entry with
      | anyPath =>
        simp only [hentry] at hhost ⊢
        grind
      | pathPrefixes paths =>
        simp only [hentry] at hhost ⊢
        grind
  · have hkeep : (m.add normalized).entries host = m.entries host := by
      by_cases hne : normalized = []
      · rw [add, if_pos hne]
      · exact add_other fun heq => hsame ⟨heq, hne⟩
    rw [hkeep]
    split at hhost <;> grind

variable (lower) in
theorem describes_new (es : List Text) : (new lower es).Describes
    fun n => ∃ raw ∈ es, n = normalizeDomain lower raw ∧ n ≠ [] := by
  have hfold : ∀ (es : List Text) (m : DomainMatcher) (seen : Text → Prop), m.Describes seen →
      (es.foldl (fun m raw => m.add (normalizeDomain lower raw)) m).Describes
        fun n => seen n ∨ ∃ raw ∈ es, n = normalizeDomain lower raw ∧ n ≠ [] := by
    intro es
    induction es with
    | nil =>
      intro m seen h
      simpa using h
    | cons raw es ih =>
      intro m seen h
      have hstep := ih _ _ (describes_add (normalizeDomain lower raw) h)
      simpa [or_assoc] using hstep
  have hempty : Describes ⟨fun _ => none⟩ fun _ => False := fun _ _ hfalse => hfalse.elim
  simpa [new] using hfold es _ _ hempty

theorem covers_iff {p urlPath : Text} :
    (urlPath == p || (p.isPrefixOf urlPath && urlPath[p.length]? == some '/')) = true ↔
      urlPath = p ∨ p ++ ['/'] <+: urlPath := by
  simp only [Bool.or_eq_true, Bool.and_eq_true, beq_iff_eq, isPrefixOf_iff_prefix]
  refine or_congr Iff.rfl ⟨?_, ?_⟩
  · rintro ⟨⟨rest, rfl⟩, hslash⟩
    rw [getElem?_append_right (Nat.le_refl _), Nat.sub_self] at hslash
    cases rest with
    | nil => cases hslash
    | cons c rest =>
      cases hslash
      exact ⟨rest, by simp⟩
  · rintro ⟨rest, rfl⟩
    refine ⟨⟨'/' :: rest, by simp⟩, by simp⟩

theorem check_eq_none (es : List Text) (hostStr : Option Text) (path : Text) :
    (new lower es).check lower hostStr path = none ↔
      ∃ rawHost, hostStr = some rawHost ∧ ∃ raw ∈ es, normalizeDomain lower raw ≠ [] ∧
        Admits (normalizeDomain lower raw) (normalizeDomain lower rawHost)
          (lower.toLowercase path) := by
  cases hostStr with
  | none => simp [check]
  | some rawHost =>
    have hhost := describes_new lower es (normalizeDomain lower rawHost)
    simp only [check, Option.some.injEq, exists_eq_left', Admits]
    cases hentry : (new lower es).entries (normalizeDomain lower rawHost) with
    | none =>
      simp only [hentry] at hhost ⊢
      grind
    | some entry =>
      cases entry with
      | anyPath =>
        simp only [hentry] at hhost ⊢
        grind
      | pathPrefixes paths =>
        simp only [hentry, ite_eq_left_iff, reduceCtorEq, imp_false, not_not, any_eq_true,
          covers_iff] at hhost ⊢
        grind

/-- A blocked URL is reported by its host alone. -/
theorem check_cases (m : DomainMatcher) (hostStr : Option Text) (path : Text) :
    m.check lower hostStr path = none ∨
      m.check lower hostStr path = some ((hostStr.map (normalizeDomain lower)).getD []) := by
  simp only [check]
  repeat' split
  all_goals first | exact .inl rfl | exact .inr rfl

theorem check_mono {es es' : List Text} {hostStr : Option Text} {path : Text}
    (hes : ∀ raw ∈ es, ∃ raw' ∈ es', normalizeDomain lower raw' = normalizeDomain lower raw)
    (h : (new lower es).check lower hostStr path = none) :
    (new lower es').check lower hostStr path = none := by
  rw [check_eq_none] at h ⊢
  obtain ⟨rawHost, hhost, raw, hraw, hadmits⟩ := h
  obtain ⟨raw', hraw', hsame⟩ := hes raw hraw
  exact ⟨rawHost, hhost, raw', hraw', hsame.symm ▸ hadmits⟩

end DomainMatcher

/-! ## The form for comparison -/

section Form

variable {lower} {s t : Text} {c : Char}

theorem rdropWhile_eq_self {p : Char → Bool} :
    s.rdropWhile p = s ↔ ∀ c ∈ s.getLast?, p c = false := by
  rw [rdropWhile_eq_self_iff]
  constructor
  · intro h c hc
    obtain ⟨hne, rfl⟩ := mem_getLast?_eq_getLast hc
    simpa using h hne
  · intro h hne
    simpa using h _ (getLast?_eq_some_getLast hne)

theorem trimStart_eq_self : trimStart s = s ↔ ∀ c ∈ s.head?, isWhitespace c = false := by
  cases s with
  | nil => simp [trimStart]
  | cons c s =>
    rw [trimStart, dropWhile_cons]
    cases hblank : isWhitespace c with
    | true =>
      have hshort : (s.dropWhile isWhitespace).length < (c :: s).length :=
        Nat.lt_succ_of_le (dropWhile_suffix _).length_le
      simp only [if_true, head?_cons, Option.mem_some_iff, forall_eq', hblank, reduceCtorEq, iff_false]
      intro heq
      rw [heq] at hshort
      exact Nat.lt_irrefl _ hshort
    | false => simp [hblank]

theorem stripWww_suffix (s : Text) : stripWww s <:+ s := by
  unfold stripWww
  split
  · exact drop_suffix _ _
  · exact suffix_rfl

/-- A text from which nothing comes off has none of it at its ends. -/
theorem stripWww_shed_eq_self : stripWww (shed s) = s ↔ (∀ c ∈ s.head?, isWhitespace c = false) ∧
    (∀ c ∈ s.getLast?, ¬ Shed c) ∧ ¬ "www.".toList <+: s := by
  have htrim : trim s = (trimStart s).rdropWhile isWhitespace := rfl
  constructor
  · intro h
    have hsub : ∀ (p : Char → Bool) (t : Text), t.rdropWhile p <+ t :=
      fun p t => (List.rdropWhile_prefix p t).sublist
    have hstart : trimStart s <+ s := (dropWhile_suffix _).sublist
    have hlong : s <+ shed s := by
      have hsuffix := (stripWww_suffix (shed s)).sublist
      rwa [h] at hsuffix
    -- the steps shorten the text in turn, and the last one is as long as the first
    have hslash : (trim s).rdropWhile (· = '/') = s :=
      ((hsub _ _).trans ((hsub _ _).trans hstart)).antisymm (hlong.trans (hsub _ _))
    have hblank : trim s = s := by
      refine ((hsub _ _).trans hstart).antisymm ?_
      have hle := hsub (· = '/') (trim s)
      rwa [hslash] at hle
    have hstart' : trimStart s = s := by
      refine hstart.antisymm ?_
      have hle := hsub isWhitespace (trimStart s)
      rwa [← htrim, hblank] at hle
    have hdot : shed s = s := by
      refine Sublist.antisymm ?_ hlong
      rw [shed, hslash]
      exact hsub _ _
    refine ⟨trimStart_eq_self.mp hstart', ?_, ?_⟩
    · rw [shed, hslash] at hdot
      rw [hblank] at hslash
      rw [htrim, hstart'] at hblank
      rintro c hc (hc' | rfl | rfl)
      · rw [rdropWhile_eq_self.mp hblank c hc] at hc'
        cases hc'
      · exact absurd (rdropWhile_eq_self.mp hslash _ hc) (by simp)
      · exact absurd (rdropWhile_eq_self.mp hdot _ hc) (by simp)
    · intro hpre
      rw [show shed s = s from hdot, stripWww, if_pos hpre] at h
      have hlen := congrArg length h
      have hlong := hpre.length_le
      have hfour : "www.".toList.length = 4 := rfl
      rw [length_drop] at hlen
      omega
  · rintro ⟨hhead, hlast, hwww⟩
    have hstart := trimStart_eq_self.mpr hhead
    have hkeep : ∀ p : Char → Bool, (∀ c, p c = true → Shed c) → s.rdropWhile p = s := by
      intro p hp
      rw [rdropWhile_eq_self]
      intro c hc
      by_contra hpc
      exact hlast c hc (hp c (by simpa using hpc))
    have hblank : trim s = s := by
      rw [htrim, hstart]
      exact hkeep _ fun c hc => .inl hc
    rw [shed, hblank, hkeep _ (by simp [Shed]), hkeep _ (by simp [Shed]), stripWww, if_neg hwww]

/-! ### Once more -/

theorem shed_last (s : Text) : ∀ c ∈ (shed s).getLast?, c ≠ '.' := by
  have hidem : (shed s).rdropWhile (· = '.') = shed s := rdropWhile_idempotent _ _
  intro c hc
  simpa using rdropWhile_eq_self.mp hidem c hc

theorem idempotent_iff (raw : Text) : normalizeDomain lower (normalizeDomain lower raw) =
    normalizeDomain lower raw ↔ OnePass raw := by
  have hinfix : stripWww (shed (normalizeDomain lower raw)) <:+: normalizeDomain lower raw := by
    refine (stripWww_suffix _).isInfix.trans ?_
    refine (List.rdropWhile_prefix _ _).isInfix.trans ((List.rdropWhile_prefix _ _).isInfix.trans ?_)
    exact (List.rdropWhile_prefix _ (trimStart _)).isInfix.trans (dropWhile_suffix _).isInfix
  -- what comes off a lower-case text leaves a lower-case text
  have hsame : normalizeDomain lower (normalizeDomain lower raw) =
      stripWww (shed (normalizeDomain lower raw)) := lower.lowered _ _ hinfix
  rw [hsame, stripWww_shed_eq_self, OnePass, normalizeDomain, lower.www_iff]
  have hdot : ∀ c ∈ (stripWww (shed raw)).getLast?, c ≠ '.' := by
    intro c hc
    obtain ⟨front, hfront⟩ := stripWww_suffix (shed raw)
    apply shed_last raw c
    rw [← hfront, Option.mem_def, getLast?_append, Option.mem_def.mp hc]
    rfl
  refine and_congr ?_ (and_congr ?_ Iff.rfl)
  · constructor
    · intro h c hc
      by_contra hblank
      rw [Bool.not_eq_false] at hblank
      exact hblank ▸ h c ((lower.head_iff _ c (.inl hblank)).mpr hc) |> Bool.noConfusion
    · intro h c hc
      by_contra hblank
      rw [Bool.not_eq_false] at hblank
      exact hblank ▸ h c ((lower.head_iff _ c (.inl hblank)).mp hc) |> Bool.noConfusion
  · constructor
    · intro h c hc
      have hshed : ¬ Shed c := fun hshed => h c ((lower.last_iff _ c hshed).mpr hc) hshed
      simp only [Shed, not_or, Bool.not_eq_true] at hshed
      exact ⟨hshed.1, hshed.2.1⟩
    · intro h c hc hshed
      have hc' := (lower.last_iff _ c hshed).mp hc
      obtain ⟨hblank, hslash⟩ := h c hc'
      rcases hshed with hblank' | rfl | rfl
      · rw [hblank] at hblank'
        cases hblank'
      · exact hslash rfl
      · exact hdot _ hc' rfl

/-! ### Case -/

theorem toNat_toLower (c : Char) :
    c.toLower.toNat = if 65 ≤ c.toNat ∧ c.toNat ≤ 90 then c.toNat + 32 else c.toNat := by
  have hval : c.val ≥ 'A'.val ∧ c.val ≤ 'Z'.val ↔ 65 ≤ c.toNat ∧ c.toNat ≤ 90 := Iff.rfl
  unfold Char.toLower
  split
  · rename_i hupper
    rw [if_pos (hval.mp hupper)]
    have hle : c.val.toNat ≤ 90 := (hval.mp hupper).2
    show (c.val + 32).toNat = c.val.toNat + 32
    rw [UInt32.toNat_add]
    exact Nat.mod_eq_of_lt (Nat.lt_of_le_of_lt (Nat.add_le_add_right hle 32) (by decide))
  · rename_i hother
    rw [if_neg fun h => hother (hval.mpr h)]

/-- Nothing becomes one of these in lower case but itself. -/
theorem toLower_shed (h : Shed c) (d : Char) : d.toLower = c ↔ d = c := by
  have hd := toNat_toLower d
  have hletter : ¬ (65 ≤ c.toNat ∧ c.toNat ≤ 90) ∧ ¬ (97 ≤ c.toNat ∧ c.toNat ≤ 122) := by
    rcases h with h | rfl | rfl
    · simp only [isWhitespace, Bool.or_eq_true, Bool.and_eq_true, decide_eq_true_eq, beq_iff_eq] at h
      omega
    · decide
    · decide
  rw [← Char.toNat_inj, ← Char.toNat_inj, hd]
  split <;> omega

theorem rdropWhile_map_toLower {p : Char → Bool} (hp : ∀ c, p c = true → Shed c) (s : Text) :
    (s.map Char.toLower).rdropWhile p = (s.rdropWhile p).map Char.toLower := by
  have hcomp : p ∘ Char.toLower = p := by
    funext c
    rw [Function.comp, Bool.eq_iff_iff]
    constructor
    · intro h
      rwa [← (toLower_shed (hp _ h) c).mp rfl] at h
    · intro h
      rwa [(toLower_shed (hp _ h) c).mpr rfl]
  rw [rdropWhile, rdropWhile, ← map_reverse, dropWhile_map, hcomp, map_reverse]

theorem shed_map_toLower (s : Text) : shed (s.map Char.toLower) = (shed s).map Char.toLower := by
  have hblank : ∀ c, isWhitespace c = true → Shed c := fun c hc => .inl hc
  have htrim : ∀ s : Text, trim s = (trimStart s).rdropWhile isWhitespace := fun s => rfl
  have hstart : trimStart (s.map Char.toLower) = (trimStart s).map Char.toLower := by
    have hreverse := rdropWhile_map_toLower hblank s.reverse
    rw [map_reverse, rdropWhile_reverse, rdropWhile_reverse, map_reverse] at hreverse
    exact reverse_injective hreverse
  rw [shed, htrim, hstart, rdropWhile_map_toLower hblank, rdropWhile_map_toLower (by simp [Shed]),
    rdropWhile_map_toLower (by simp [Shed]), ← htrim, shed]

theorem caseless_iff (h : s.map Char.toLower = t.map Char.toLower) :
    normalizeDomain lower s = normalizeDomain lower t ↔
      ("www.".toList <+: shed s ↔ "www.".toList <+: shed t) := by
  have hshed : (shed s).map Char.toLower = (shed t).map Char.toLower := by
    rw [← shed_map_toLower, ← shed_map_toLower, h]
  -- taking off the four characters shortens the text, in whatever case they were
  have hshort : ∀ s t : Text, s.map Char.toLower = t.map Char.toLower → "www.".toList <+: s →
      lower.toLowercase (s.drop 4) ≠ lower.toLowercase t := by
    rintro s t hst ⟨rest, rfl⟩ heq
    rw [← lower.caseless _ _ hst] at heq
    have hlen := congrArg length heq
    have hfour := ((lower.www_iff "www.".toList).mpr (by decide)).length_le
    rw [lower.length_append] at hlen
    change (lower.toLowercase rest).length = _ at hlen
    change 4 ≤ _ at hfour
    omega
  unfold normalizeDomain stripWww
  by_cases hs : "www.".toList <+: shed s <;> by_cases ht : "www.".toList <+: shed t
  · rw [if_pos hs, if_pos ht]
    refine iff_of_true (lower.caseless _ _ ?_) (iff_of_true hs ht)
    rw [map_drop, map_drop, hshed]
  · rw [if_pos hs, if_neg ht]
    exact iff_of_false (hshort _ _ hshed hs) fun hiff => ht (hiff.mp hs)
  · rw [if_neg hs, if_pos ht]
    exact iff_of_false (fun heq => hshort _ _ hshed.symm ht heq.symm) fun hiff => hs (hiff.mpr ht)
  · rw [if_neg hs, if_neg ht]
    exact iff_of_true (lower.caseless _ _ hshed) (iff_of_false hs ht)

end Form

/-- The allowlist is a set of entries; their form is canonical up to what one pass of
`normalize_domain` leaves and to the case of a `www.` in front. -/
theorem domainRules : DomainRules lower where
  idempotent := idempotent_iff
  caseless s t h := caseless_iff h
  setwise es es' h host path := by
    simp only [mem_map] at h
    have hto : _ → (DomainMatcher.new lower es').check lower host path = none :=
      DomainMatcher.check_mono fun raw hraw => (h _).mp ⟨raw, hraw, rfl⟩
    have hback : _ → (DomainMatcher.new lower es).check lower host path = none :=
      DomainMatcher.check_mono fun raw hraw => (h _).mpr ⟨raw, hraw, rfl⟩
    rcases (DomainMatcher.new lower es).check_cases host path with hes | hes
    · rw [hes, hto hes]
    · rcases (DomainMatcher.new lower es').check_cases host path with hes' | hes'
      · rw [hes', hback hes']
      · rw [hes, hes']
  monotone es es' hsub host path := DomainMatcher.check_mono fun raw hraw => ⟨raw, hsub hraw, rfl⟩
  permits es host path := DomainMatcher.check_eq_none es host path

/-- Lower case in ASCII. -/
def asciiLowercase : Lowercase where
  toLowercase s := s.map Char.toLower
  lowered s t h := by
    have hfixed : ∀ c ∈ t, c.toLower = c := by
      intro c hc
      obtain ⟨d, -, rfl⟩ := mem_map.mp (h.subset hc)
      rw [← Char.toNat_inj, toNat_toLower, toNat_toLower]
      split
      · rw [if_neg (by omega)]
      · rfl
    exact (map_congr_left hfixed).trans (map_id _)
  head_iff s c h := by cases s <;> simp [toLower_shed h]
  last_iff s c h := by
    rw [getLast?_map]
    cases s.getLast? <;> simp [toLower_shed h]
  www_iff _ := Iff.rfl
  caseless _ _ h := h
  length_append s t := by simp

/-- `WWW.a` and `www.a` are different entries. -/
theorem upper_www_kept : ¬ ∀ s t : Text, s.map Char.toLower = t.map Char.toLower →
    normalizeDomain asciiLowercase s = normalizeDomain asciiLowercase t := by
  intro h
  have hsame := h "WWW.a".toList "www.a".toList (by decide)
  revert hsame
  decide

end GrokBuild.WebFetch
