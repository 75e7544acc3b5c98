import GrokBuild.WebFetch.Address

/-!
# Web fetch: what the address rules cover

`is_non_public_ipv4` is the union of the ranges that it names. An IPv6 address that
stands for one of the fourth version is read as such only in its mapped form; in the
other forms it is judged by its own first bits.
-/

namespace GrokBuild.WebFetch

open TextLines Str List

/-- The forms of an IPv6 address in which a host may deliver to an IPv4 one. -/
inductive Embedding where
  | mapped
  | compatible
  | nat64
  | sixToFour (suffix : BitVec 80)

def Embedding.embed (v : Ipv4Addr) : Embedding → Ipv6Addr
  | mapped => (0xffff#96 ++ v : BitVec (96 + 32))
  | compatible => (0#96 ++ v : BitVec (96 + 32))
  | nat64 => (0x64ff9b0000000000000000#96 ++ v : BitVec (96 + 32))
  | sixToFour suffix => (0x2002#16 ++ (v ++ suffix) : BitVec (16 + (32 + 80)))

/-- The ranges that `is_non_public_ipv4` names, by itself or through `std::net`. -/
def nonPublicRanges : List (Ipv4Addr × Nat) :=
  [(.new 127 0 0 0, 8), (.new 10 0 0 0, 8), (.new 172 16 0 0, 12), (.new 192 168 0 0, 16),
    (.new 169 254 0 0, 16), (.new 0 0 0 0, 32), (.new 224 0 0 0, 4), (.new 255 255 255 255, 32),
    (.new 0 0 0 0, 8), (.new 100 64 0 0, 10), (.new 192 0 0 0, 24), (.new 192 0 2 0, 24),
    (.new 198 18 0 0, 15), (.new 198 51 100 0, 24), (.new 203 0 113 0, 24), (.new 240 0 0 0, 4)]

/-- The address begins with the first bits of the range's. -/
def InRange (ip : Ipv4Addr) (range : Ipv4Addr × Nat) : Prop :=
  ip.toNat / 2 ^ (32 - range.2) = range.1.toNat / 2 ^ (32 - range.2)

/-- The loopback addresses, plain or mapped. -/
def Loopback : IpAddr → Prop
  | .v4 ip => InRange ip (.new 127 0 0 0, 8)
  | .v6 ip => ip = 1 ∨ ∃ v, InRange v (.new 127 0 0 0, 8) ∧ ip = Embedding.mapped.embed v

/-- The host is the name, but for case, brackets, a zone id, dots at the end and white
space around it. -/
def Spells (name host : Text) : Prop :=
  ∃ before body dots after zone, host = before ++ (body ++ dots) ++ after ∧
    (∀ c ∈ before ++ after, isWhitespace c) ∧ (∀ c ∈ dots, c = '.') ∧ (∀ c ∈ zone.head?, c = '%') ∧
    (body.map Char.toLower = name ++ zone ∨ body.map Char.toLower = '[' :: (name ++ zone) ++ [']'])

/-- What the rules cover. -/
structure AddressRules : Prop where
  mapped : ∀ v, isNonPublicIp (.v6 (Embedding.mapped.embed v)) = isNonPublicIpv4 v
  compatible : ∀ v, isNonPublicIp (.v6 (Embedding.compatible.embed v)) = true ↔ v = 0 ∨ v = 1
  nat64 : ∀ v, isNonPublicIp (.v6 (Embedding.nat64.embed v)) = false
  sixToFour : ∀ v suffix, isNonPublicIp (.v6 ((Embedding.sixToFour suffix).embed v)) = false
  ranges : ∀ v, isNonPublicIpv4 v = true ↔ ∃ range ∈ nonPublicRanges, InRange v range
  optIn : ∀ ip host allowLocal, isNonPublicIp ip = true →
    isBlockedForHost ip host allowLocal = false → allowLocal = true ∧ Loopback ip ∧
      ∃ name, Spells name host ∧
        (name = "localhost".toList ∨ ∃ literal, parseIpAddr name = some literal ∧ Loopback literal)

/-! ## Ranges -/

theorem ipv4InCidr_iff {ip base : Ipv4Addr} {len : Nat} (hpos : 0 < len) :
    ipv4InCidr ip base len = true ↔ InRange ip (base, len) := by
  have hbit : ∀ (x : BitVec 32) (i : Nat), (x &&& BitVec.allOnes 32 <<< (32 - len)).getLsbD i =
      (decide (32 - len ≤ i) && x.getLsbD i) := by
    intro x i
    rw [BitVec.getLsbD_and, BitVec.getLsbD_shiftLeft, BitVec.getLsbD_allOnes, Bool.eq_iff_iff]
    simp only [Bool.and_eq_true, Bool.not_eq_true', decide_eq_true_eq, decide_eq_false_iff_not]
    constructor
    · rintro ⟨hx, ⟨_, hlow⟩, _⟩
      exact ⟨by omega, hx⟩
    · rintro ⟨hlow, hx⟩
      have hi := BitVec.lt_of_getLsbD hx
      exact ⟨hx, ⟨hi, by omega⟩, by omega⟩
  simp only [ipv4InCidr, if_neg (Nat.ne_of_gt hpos), decide_eq_true_eq, InRange,
    ← Nat.shiftRight_eq_div_pow]
  constructor
  · intro h
    apply Nat.eq_of_testBit_eq
    intro i
    have hsame := congrArg (BitVec.getLsbD · (32 - len + i)) h
    simp only [hbit, Nat.le_add_right, decide_true, Bool.true_and] at hsame
    rw [Nat.testBit_shiftRight, Nat.testBit_shiftRight]
    exact hsame
  · intro h
    apply BitVec.eq_of_getLsbD_eq
    intro i _
    rw [hbit, hbit]
    by_cases hlow : 32 - len ≤ i
    · have hsame := congrArg (Nat.testBit · (i - (32 - len))) h
      simp only [Nat.testBit_shiftRight, Nat.add_sub_cancel' hlow] at hsame
      rw [BitVec.getLsbD, BitVec.getLsbD, hsame]
    · rw [decide_eq_false hlow, Bool.false_and, Bool.false_and]

theorem octet_eq (ip : Ipv4Addr) : ip.octet 0 = ip.toNat / 2 ^ 24 ∧
    ip.octet 1 = ip.toNat / 2 ^ 16 % 256 := by
  have hlt := ip.isLt
  simp only [Ipv4Addr.octet]
  omega

theorem std_ranges (ip : Ipv4Addr) :
    (ip.isLoopback ↔ InRange ip (.new 127 0 0 0, 8)) ∧
    (ip.isPrivate ↔ InRange ip (.new 10 0 0 0, 8) ∨ InRange ip (.new 172 16 0 0, 12) ∨
      InRange ip (.new 192 168 0 0, 16)) ∧
    (ip.isLinkLocal ↔ InRange ip (.new 169 254 0 0, 16)) ∧
    (ip.isUnspecified ↔ InRange ip (.new 0 0 0 0, 32)) ∧
    (ip.isMulticast ↔ InRange ip (.new 224 0 0 0, 4)) ∧
    (ip.isBroadcast ↔ InRange ip (.new 255 255 255 255, 32)) := by
  obtain ⟨hfirst, hsecond⟩ := octet_eq ip
  have hlt := ip.isLt
  have hzero : BitVec.toNat (0 : Ipv4Addr) = 0 := rfl
  simp only [Ipv4Addr.isLoopback, Ipv4Addr.isPrivate, Ipv4Addr.isLinkLocal, Ipv4Addr.isUnspecified,
    Ipv4Addr.isMulticast, Ipv4Addr.isBroadcast, decide_eq_true_eq, hfirst, hsecond, InRange,
    Ipv4Addr.new, ← BitVec.toNat_inj, hzero]
  norm_num
  omega

theorem isNonPublicIpv4_iff (v : Ipv4Addr) :
    isNonPublicIpv4 v = true ↔ ∃ range ∈ nonPublicRanges, InRange v range := by
  obtain ⟨hloopback, hprivate, hlinkLocal, hunspecified, hmulticast, hbroadcast⟩ := std_ranges v
  simp (disch := decide) only [isNonPublicIpv4, Bool.or_eq_true, hloopback, hprivate, hlinkLocal,
    hunspecified, hmulticast, hbroadcast, ipv4InCidr_iff]
  simp only [nonPublicRanges, mem_cons, not_mem_nil, or_false, exists_eq_or_imp,
    exists_eq_left, or_assoc]

/-! ## Forms of an address -/

theorem toIpv4Mapped_append (high : BitVec 96) (v : Ipv4Addr) :
    Ipv6Addr.toIpv4Mapped (high ++ v : BitVec (96 + 32)) = if high = 0xffff then some v else none := by
  have hhigh : (high ++ v : BitVec (96 + 32)).extractLsb' 32 96 = high :=
    BitVec.extractLsb'_append_eq_left
  have hlow : (high ++ v : BitVec (96 + 32)).extractLsb' 0 32 = v := BitVec.extractLsb'_append_eq_right
  simp only [Ipv6Addr.toIpv4Mapped]
  rw [hhigh, hlow]

theorem eq_of_toIpv4Mapped {ip : Ipv6Addr} {v : Ipv4Addr} (h : ip.toIpv4Mapped = some v) :
    ip = Embedding.mapped.embed v := by
  have hwhole : (ip.extractLsb' 32 96 ++ ip.extractLsb' 0 32 : BitVec (96 + 32)) = ip :=
    BitVec.extractLsb'_append_extractLsb'
  unfold Ipv6Addr.toIpv4Mapped at h
  split at h
  · rename_i hhigh
    rw [Option.some.injEq] at h
    rw [hhigh, h] at hwhole
    exact hwhole.symm
  · cases h

theorem mapped_spec (v : Ipv4Addr) : isNonPublicIpv6 (Embedding.mapped.embed v) = isNonPublicIpv4 v := by
  have hmapped : Ipv6Addr.toIpv4Mapped (Embedding.mapped.embed v) = some v :=
    (toIpv4Mapped_append _ v).trans (if_pos rfl)
  rw [isNonPublicIpv6, hmapped]

/-- An address whose first bits are those of no range, and not all zero, is public. -/
theorem isNonPublicIpv6_of_firstSegment {ip : Ipv6Addr} (segment : BitVec 16)
    (h : ip.firstSegment = segment) (hne : segment ≠ 0)
    (hpublic : (segment &&& 0xff00 = 0xff00 ∨ segment &&& 0xfe00 = 0xfc00 ∨
      segment &&& 0xffc0 = 0xfe80) = False) : isNonPublicIpv6 ip = false := by
  subst h
  have hlarge : ∀ n < 2 ^ 112, ip.toNat ≠ n := by
    intro n hn heq
    apply hne
    rw [Ipv6Addr.firstSegment, ← BitVec.toNat_inj, BitVec.extractLsb'_toNat,
      Nat.shiftRight_eq_div_pow, heq, Nat.div_eq_of_lt hn]
    rfl
  have hmapped : ip.toIpv4Mapped = none := by
    rw [Ipv6Addr.toIpv4Mapped, if_neg]
    intro heq
    have hvalue := congrArg BitVec.toNat heq
    rw [BitVec.extractLsb'_toNat, Nat.shiftRight_eq_div_pow] at hvalue
    have hlt := ip.isLt
    refine hlarge ip.toNat ?_ rfl
    simp at hvalue
    omega
  have hzero : ip ≠ 0 := fun heq => hlarge 0 (by decide) (by rw [heq]; rfl)
  have hone : ip ≠ 1 := fun heq => hlarge 1 (by decide) (by rw [heq]; rfl)
  rw [eq_iff_iff, iff_false, not_or, not_or] at hpublic
  simp only [isNonPublicIpv6, hmapped, Ipv6Addr.isLoopback, Ipv6Addr.isUnspecified,
    Ipv6Addr.isMulticast, Ipv6Addr.isUniqueLocal, Ipv6Addr.isUnicastLinkLocal, hzero, hone,
    hpublic, decide_false, Bool.or_self]

theorem compatible_spec (v : Ipv4Addr) :
    isNonPublicIpv6 (Embedding.compatible.embed v) = true ↔ v = 0 ∨ v = 1 := by
  have htoNat : (Embedding.compatible.embed v).toNat = v.toNat := by
    show BitVec.toNat (0#96 ++ v : BitVec (96 + 32)) = _
    rw [BitVec.toNat_append, BitVec.toNat_ofNat, Nat.zero_mod, Nat.zero_shiftLeft, Nat.zero_or]
  have hsegment : (Embedding.compatible.embed v).firstSegment = 0 := by
    rw [Ipv6Addr.firstSegment, ← BitVec.toNat_inj, BitVec.extractLsb'_toNat, htoNat,
      Nat.shiftRight_eq_div_pow, Nat.div_eq_of_lt (Nat.lt_trans v.isLt (by decide))]
    rfl
  have hmapped : Ipv6Addr.toIpv4Mapped (Embedding.compatible.embed v) = none :=
    (toIpv4Mapped_append _ v).trans (if_neg (by decide))
  simp only [isNonPublicIpv6, hmapped, Ipv6Addr.isLoopback, Ipv6Addr.isUnspecified,
    Ipv6Addr.isMulticast, Ipv6Addr.isUniqueLocal, Ipv6Addr.isUnicastLinkLocal, hsegment,
    ← BitVec.toNat_inj, htoNat, Bool.or_eq_true, decide_eq_true_eq]
  simp [or_comm]

theorem nat64_spec (v : Ipv4Addr) : isNonPublicIpv6 (Embedding.nat64.embed v) = false := by
  refine isNonPublicIpv6_of_firstSegment 0x64 ?_ (by decide) (by decide)
  exact (BitVec.extractLsb'_append_eq_of_le (by decide)).trans (by decide)

theorem sixToFour_spec (v : Ipv4Addr) (suffix : BitVec 80) :
    isNonPublicIpv6 ((Embedding.sixToFour suffix).embed v) = false := by
  refine isNonPublicIpv6_of_firstSegment 0x2002 ?_ (by decide) (by decide)
  exact BitVec.extractLsb'_append_eq_left

/-! ## Hosts that name loopback -/

theorem trim_spec (s : Text) : ∃ before after, s = before ++ trim s ++ after ∧
    ∀ c ∈ before ++ after, isWhitespace c := by
  have hstart : ∀ t : Text, ∃ blank, t = blank ++ trimStart t ∧ ∀ c ∈ blank, isWhitespace c := by
    intro t
    exact ⟨t.takeWhile isWhitespace, takeWhile_append_dropWhile.symm,
      fun c => mem_takeWhile_imp⟩
  obtain ⟨before, hbefore, hblank⟩ := hstart s
  obtain ⟨after, hafter, hblank'⟩ := hstart (trimStart s).reverse
  refine ⟨before, after.reverse, ?_, ?_⟩
  · have hrest := congrArg List.reverse hafter
    rw [reverse_reverse, reverse_append] at hrest
    rw [append_assoc, show trim s ++ after.reverse = trimStart s from hrest.symm]
    exact hbefore
  · intro c hc
    rcases mem_append.mp hc with hc | hc
    · exact hblank c hc
    · exact hblank' c (mem_reverse.mp hc)

theorem eq_bracketed {s : Text} (hhead : s.head? = some '[') (hlast : s.getLast? = some ']')
    (hlength : s.length ≥ 2) : s = '[' :: s.tail.dropLast ++ [']'] := by
  obtain ⟨front, rfl⟩ := getLast?_eq_some_iff.mp hlast
  cases front with
  | nil => simp at hlength
  | cons c front =>
    cases hhead
    simp

theorem spells_of_isExplicitLocalHost {host : Text} (h : isExplicitLocalHost host = true) :
    ∃ name, Spells name host ∧ (name = "localhost".toList ∨
      ∃ literal, parseIpAddr name = some literal ∧ literal.isLoopback = true) := by
  obtain ⟨before, after, htrim, hblank⟩ := trim_spec host
  let body := (trim host).rdropWhile (· = '.')
  let dots := (trim host).rtakeWhile (· = '.')
  have hbody : trim host = body ++ dots := List.rdropWhile_append_rtakeWhile.symm
  have hdots : ∀ c ∈ dots, c = '.' := fun c hc => by simpa using mem_rtakeWhile_imp hc
  let lower := body.map Char.toLower
  let inner := if lower.head? = some '[' ∧ lower.getLast? = some ']' ∧ lower.length ≥ 2 then
    lower.tail.dropLast else lower
  let name := inner.takeWhile (· ≠ '%')
  have hinner : lower = inner ∨ lower = '[' :: inner ++ [']'] := by
    by_cases hbrackets : lower.head? = some '[' ∧ lower.getLast? = some ']' ∧ lower.length ≥ 2
    · right
      show lower = '[' :: (if _ then _ else _) ++ [']']
      rw [if_pos hbrackets]
      exact eq_bracketed hbrackets.1 hbrackets.2.1 hbrackets.2.2
    · exact .inl (if_neg hbrackets).symm
  have hzone : ∀ c ∈ (inner.dropWhile (· ≠ '%')).head?, c = '%' := by
    intro c hc
    have hfirst := head?_dropWhile_not (· ≠ '%') inner
    rw [Option.mem_def.mp hc] at hfirst
    simpa using hfirst
  have hsplit : inner = name ++ inner.dropWhile (· ≠ '%') := takeWhile_append_dropWhile.symm
  have hspells : Spells name host := by
    refine ⟨before, body, dots, after, inner.dropWhile (· ≠ '%'), ?_, hblank, hdots, hzone, ?_⟩
    · rw [← hbody]
      exact htrim
    · rw [← hsplit]
      exact hinner
  refine ⟨name, hspells, ?_⟩
  by_cases hlocal : name = "localhost".toList
  · exact .inl hlocal
  · right
    rw [isExplicitLocalHost, if_neg hlocal] at h
    split at h
    · exact ⟨_, ‹_›, h⟩
    · cases h

/-- The rules as a whole: of the embedding forms only the mapped one is looked
through. -/
theorem addressRules : AddressRules := by
  have hloopback : ∀ ip : IpAddr, ip.isLoopback = true → Loopback ip := by
    intro ip h
    cases ip with
    | v4 ip => exact (std_ranges ip).1.mp h
    | v6 ip => exact .inl (of_decide_eq_true h)
  constructor
  · exact mapped_spec
  · exact compatible_spec
  · exact nat64_spec
  · exact sixToFour_spec
  · exact isNonPublicIpv4_iff
  · intro ip host allowLocal hpublic hblocked
    rw [isBlockedForHost, hpublic] at hblocked
    have hopen : (allowLocal && isLoopbackAddr ip && isExplicitLocalHost host) = true := by
      by_contra hclosed
      simp [hclosed] at hblocked
    simp only [Bool.and_eq_true] at hopen
    obtain ⟨⟨hallow, hip⟩, hhost⟩ := hopen
    refine ⟨hallow, ?_, ?_⟩
    · unfold isLoopbackAddr at hip
      rw [Bool.or_eq_true] at hip
      rcases hip with hip | hip
      · exact hloopback ip hip
      · cases ip with
        | v4 ip => cases hip
        | v6 ip =>
          cases hmapped : ip.toIpv4Mapped with
          | none => simp [hmapped] at hip
          | some v =>
            simp only [hmapped, Option.any_some] at hip
            exact .inr ⟨v, (std_ranges v).1.mp hip, eq_of_toIpv4Mapped hmapped⟩
    · obtain ⟨name, hspells, hname⟩ := spells_of_isExplicitLocalHost hhost
      exact ⟨name, hspells, hname.imp_right fun ⟨ip, hparse, hip⟩ => ⟨ip, hparse, hloopback ip hip⟩⟩

/-- The address of `10.0.0.1` behind a translator is public. -/
theorem nat64_hides_private : ¬ ∀ (form : Embedding) (v : Ipv4Addr), isNonPublicIpv4 v = true →
    isNonPublicIp (.v6 (form.embed v)) = true := by
  intro h
  have hprivate := h .nat64 (.new 10 0 0 1) (by decide)
  revert hprivate
  decide

end GrokBuild.WebFetch
