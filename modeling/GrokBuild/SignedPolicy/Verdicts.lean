import GrokBuild.SignedPolicy.Verify

/-!
# Signed policy: the two verdicts

The refetch trigger and the gate read the same facts. A compromised cache is
refetched as long as a policy file is left (that a served file is gone is for
the sync marker to tell), what is not refetched is trusted, and trust in a
strict policy means that it is in date and that its files are the signed ones
or could not be read. A file that is no text counts as one that could not be
read.
-/

namespace GrokBuild.SignedPolicy

open TextLines Str LineLog Option

/-! ## Slots -/

/-- The slot holds the signed contents; nothing signed, or an empty text, is an
absent or empty file. -/
def Holds (signed : Option Text) (slot : Entry) : Prop :=
  match signed.filter fun s => !s.isEmpty with
  | some s => slot = .file (utf8Bytes s)
  | none => slot = .absent ∨ slot = .file []

/-- The file is there and cannot be read. -/
def Blocked (slot : Entry) : Prop := ∃ found, slot = .unreadable found

/-- What can be read of the slot is a text. -/
def IsText (slot : Entry) : Prop := ∀ bytes, slot = .file bytes → validUtf8 bytes = true

variable {slot : Entry}

theorem readToString_eq_ok {t : Text} : slot.readToString = .ok t ↔ slot = .file (utf8Bytes t) := by
  cases slot with
  | absent => simp [Entry.readToString]
  | unreadable found => simp [Entry.readToString]
  | nonRegular found => simp [Entry.readToString]
  | file bytes =>
    cases h : decodeUtf8 bytes with
    | none =>
      have hne : bytes ≠ utf8Bytes t := by
        intro he
        rw [he, decodeUtf8_utf8Bytes] at h
        cases h
      simpa [Entry.readToString, h] using hne
    | some s =>
      have hbytes := decodeUtf8_eq_some.mp h
      simp only [Entry.readToString, h, elim_some, Except.ok.injEq, Entry.file.injEq]
      constructor
      · rintro rfl
        exact hbytes.symm
      · intro he
        rw [he, decodeUtf8_utf8Bytes] at h
        exact (some.inj h).symm

theorem readToString_eq_notFound : slot.readToString = .error .notFound ↔ slot = .absent := by
  cases slot with
  | file bytes => cases h : decodeUtf8 bytes <;> simp [Entry.readToString, h]
  | _ => simp [Entry.readToString]

theorem blocked_of_other (htext : IsText slot) (hreg : slot.nonRegularFileAt = false)
    (h : slot.readToString = .error .other) : Blocked slot := by
  cases slot with
  | absent => cases h
  | unreadable found => exact ⟨found, rfl⟩
  | nonRegular found => cases hreg
  | file bytes =>
    obtain ⟨t, rfl⟩ := validUtf8_iff.mp (htext bytes rfl)
    simp [Entry.readToString, decodeUtf8_utf8Bytes] at h

variable {signed : Option Text}

theorem slotMatches_some {t : Text} :
    slotMatches signed (some t) = true ↔
      Holds signed (.file (utf8Bytes t)) := by
  unfold slotMatches Holds
  cases signed.filter fun s => !s.isEmpty with
  | none =>
    cases t with
    | nil => simp [utf8Bytes]
    | cons c t => simp [utf8Bytes, String.utf8EncodeChar_ne_nil]
  | some s =>
    simp only [decide_eq_true_eq, some.injEq, Entry.file.injEq]
    constructor
    · rintro rfl
      rfl
    · intro h
      have hs := decodeUtf8_utf8Bytes s
      rw [← h, decodeUtf8_utf8Bytes] at hs
      exact some.inj hs

theorem slotMatches_none : slotMatches signed none = true ↔ Holds signed .absent := by
  unfold slotMatches Holds
  cases signed.filter fun s => !s.isEmpty <;> simp

theorem compareSlot_eq {label : Text} {onDisk : Option Text}
    (h : slotMatches signed onDisk = true ↔ Holds signed slot) :
    (compareSlot label signed onDisk = .ok () ∧ Holds signed slot) ∨
      compareSlot label signed onDisk = .error (.contentMismatch label) := by
  unfold compareSlot
  by_cases hs : slotMatches signed onDisk = true
  · exact .inl ⟨if_pos hs, h.mp hs⟩
  · exact .inr (if_neg hs)

theorem checkSlot_cases (label : Text) (htext : IsText slot) (signed : Option Text) :
    (checkSlot label slot signed = .ok () ∧ Holds signed slot) ∨
    checkSlot label slot signed = .error (.contentMismatch label) ∨
    (checkSlot label slot signed = .error (.unreadable label) ∧ Blocked slot) := by
  unfold checkSlot
  cases hreg : slot.nonRegularFileAt with
  | true => exact .inr (.inl rfl)
  | false =>
    rw [if_neg (by simp)]
    cases hread : slot.readToString with
    | ok t =>
      have hslot := readToString_eq_ok.mp hread
      rw [hslot]
      exact (compareSlot_eq slotMatches_some).imp_right .inl
    | error e =>
      cases e with
      | notFound =>
        have hslot := readToString_eq_notFound.mp hread
        rw [hslot]
        exact (compareSlot_eq slotMatches_none).imp_right .inl
      | other => exact .inr (.inr ⟨rfl, blocked_of_other htext hreg hread⟩)

/-- The policy files are the signed ones, up to one that is blocked. -/
def Kept (home : Home) (payload : SignedPayload) : Prop :=
  Blocked home.managedConfig ∨
    Holds payload.managedConfig home.managedConfig ∧
      (Blocked home.requirements ∨ Holds payload.requirements home.requirements)

theorem kept_of_diskStatus {home : Home} {payload : SignedPayload}
    (hmanaged : IsText home.managedConfig) (hrequirements : IsText home.requirements)
    (h : diskStatus home payload ≠ .mismatch) : Kept home payload := by
  unfold diskStatus checkOnDiskMatches at h
  obtain ⟨hok, hholds⟩ | hbad | ⟨-, hblocked⟩ :=
    checkSlot_cases "managed_config".toList hmanaged payload.managedConfig
  · rw [hok] at h
    obtain ⟨-, hholds'⟩ | hbad | ⟨-, hblocked⟩ :=
      checkSlot_cases "requirements".toList hrequirements payload.requirements
    · exact .inr ⟨hholds, .inr hholds'⟩
    · simp only [hbad] at h
      exact absurd rfl h
    · exact .inr ⟨hholds, .inl hblocked⟩
  · rw [hbad] at h
    exact absurd rfl h
  · exact .inl hblocked

/-! ## The sidecar -/

section Sidecar

variable (prims : Primitives) (trustedKeys : TrustedKeys)

/-- The sidecar is an envelope of this payload and verifies. -/
def Verified (sidecar : Entry) (payload : SignedPayload) : Prop :=
  ∃ json envelope, sidecar = .file (utf8Bytes json) ∧
    prims.parseEnvelope json = some envelope ∧
    prims.verifySignedPayload envelope.signedPayload envelope.signature trustedKeys = .ok payload

/-- A trusted key made the signature of the sidecar over exactly its payload. -/
inductive Sealed (Made : Bytes → Bytes → Bytes → Prop) (sidecar : Entry) (payload : SignedPayload) :
    Prop
  | mk {json envelope key sig} (hsidecar : sidecar = .file (utf8Bytes json))
      (henvelope : prims.parseEnvelope json = some envelope)
      (hpayload : prims.parsePayload envelope.signedPayload = some payload)
      (hkey : (payload.keyId, key) ∈ trustedKeys)
      (hsig : prims.decodeBase64 (trim envelope.signature) = some sig)
      (hmade : Made key (utf8Bytes envelope.signedPayload) sig)
      (htyp : payload.typ = managedPolicyTyp)

variable {prims trustedKeys}

theorem verifySignature_ok {signedPayload signature keyId : Text}
    (h : prims.verifySignatureWithKeys signedPayload signature trustedKeys keyId = .ok ()) :
    ∃ key sig, (keyId, key) ∈ trustedKeys ∧ prims.decodeBase64 (trim signature) = some sig ∧
      prims.ed25519 key (utf8Bytes signedPayload) sig = true := by
  unfold Primitives.verifySignatureWithKeys at h
  split at h
  · cases h
  next id key hfind =>
  split at h
  · cases h
  next sig hsig =>
  split at h
  next hed =>
    have hid : id = keyId := by simpa using List.find?_some hfind
    exact ⟨key, sig, hid ▸ List.mem_of_find?_eq_some hfind, hsig, hed⟩
  · cases h

theorem Verified.sealed {Made : Bytes → Bytes → Bytes → Prop}
    (hed25519 : ∀ key message sig, prims.ed25519 key message sig = true → Made key message sig)
    {sidecar : Entry} {payload : SignedPayload} (h : Verified prims trustedKeys sidecar payload) :
    Sealed prims trustedKeys Made sidecar payload := by
  obtain ⟨json, envelope, hsidecar, henvelope, hverify⟩ := h
  unfold Primitives.verifySignedPayload at hverify
  split at hverify
  · cases hverify
  next parsed hpayload =>
  split at hverify
  · cases hverify
  next hsignature =>
  split at hverify
  next htyp =>
    cases hverify
    obtain ⟨key, sig, hkey, hsig, hed⟩ := verifySignature_ok hsignature
    exact .mk hsidecar henvelope hpayload hkey hsig (hed25519 _ _ _ hed) htyp
  · cases hverify

variable (prims trustedKeys) in
/-- What an evaluation returns: the facts of the verified payload, or which
way there is none. -/
theorem evaluate_cases (home : Home) (expectedPrincipal : Option Text) (nowUnix : Nat) :
    (∃ payload, Verified prims trustedKeys home.sidecar payload ∧
      prims.evaluateSignedCache home trustedKeys expectedPrincipal nowUnix =
        .facts (factsOf home payload expectedPrincipal nowUnix)) ∨
    prims.evaluateSignedCache home trustedKeys expectedPrincipal nowUnix = .noAuthenticSidecar ∨
    (prims.evaluateSignedCache home trustedKeys expectedPrincipal nowUnix = .sidecarUnreadable ∧
      (IsText home.sidecar → Blocked home.sidecar)) := by
  unfold Primitives.evaluateSignedCache Primitives.readEnvelopeAt
  cases hreg : home.sidecar.nonRegularFileAt with
  | true => exact .inr (.inl rfl)
  | false =>
    rw [if_neg (by simp)]
    cases hread : home.sidecar.readToString with
    | error e =>
      cases e with
      | notFound => exact .inr (.inl rfl)
      | other => exact .inr (.inr ⟨rfl, fun htext => blocked_of_other htext hreg hread⟩)
    | ok json =>
      cases henvelope : prims.parseEnvelope json with
      | none => exact .inr (.inl (by simp [henvelope]))
      | some envelope =>
        simp only [henvelope, elim_some]
        cases hverify : prims.verifySignedPayload envelope.signedPayload envelope.signature
            trustedKeys with
        | error e => exact .inr (.inl rfl)
        | ok payload =>
          exact .inl ⟨payload, ⟨json, envelope, readToString_eq_ok.mp hread, henvelope, hverify⟩,
            rfl⟩

theorem evaluate_unverified (home : Home) {bytes : Bytes} (htext : validUtf8 bytes = true)
    (hnone : ∀ payload, ¬ Verified prims trustedKeys (.file bytes) payload)
    (expectedPrincipal : Option Text) (nowUnix : Nat) :
    prims.evaluateSignedCache { home with sidecar := .file bytes } trustedKeys expectedPrincipal
      nowUnix = .noAuthenticSidecar := by
  obtain ⟨payload, hverified, -⟩ | h | ⟨-, hblocked⟩ := evaluate_cases prims trustedKeys
    { home with sidecar := .file bytes } expectedPrincipal nowUnix
  · exact absurd hverified (hnone payload)
  · exact h
  · have hread : IsText (.file bytes) := by
      intro other hother
      cases hother
      exact htext
    obtain ⟨found, hfound⟩ := hblocked hread
    cases hfound

end Sidecar

/-! ## The verdicts -/

section Verdicts

variable {prims : Primitives} {trustedKeys : TrustedKeys} {home : Home}
  {expectedPrincipal : Option Text} {nowUnix : Nat}

theorem invalid_of_compromised
    (h : prims.signedCacheCompromisedWithKeys home trustedKeys expectedPrincipal nowUnix =
      .compromised) (hpolicy : home.hasPolicy = true) :
    prims.cloudCacheSignatureInvalidWithKeys home trustedKeys expectedPrincipal nowUnix = true := by
  unfold Primitives.signedCacheCompromisedWithKeys at h
  unfold Primitives.cloudCacheSignatureInvalidWithKeys
  rw [if_neg (by simp [hpolicy])]
  cases heval : prims.evaluateSignedCache home trustedKeys expectedPrincipal nowUnix with
  | noAuthenticSidecar => rfl
  | sidecarUnreadable => rfl
  | facts f =>
    rw [heval] at h
    by_cases hid : f.identityOk = true
    · by_cases hclosed : f.failClosed = true
      · by_cases hbad : (f.expired || f.disk = .mismatch) = true
        · obtain hexpired | hdisk := Bool.or_eq_true_iff.mp hbad
          · simp [hexpired]
          · simp [of_decide_eq_true hdisk]
        · simp [hid, hclosed, hbad] at h
      · simp [hid, hclosed] at h
    · simp [hid]

theorem trusted_of_valid
    (h : prims.cloudCacheSignatureInvalidWithKeys home trustedKeys expectedPrincipal nowUnix = false)
    (hpolicy : home.hasPolicy = true) :
    prims.signedCacheCompromisedWithKeys home trustedKeys expectedPrincipal nowUnix = .trusted := by
  unfold Primitives.cloudCacheSignatureInvalidWithKeys at h
  unfold Primitives.signedCacheCompromisedWithKeys
  rw [if_neg (by simp [hpolicy])] at h
  cases heval : prims.evaluateSignedCache home trustedKeys expectedPrincipal nowUnix with
  | noAuthenticSidecar => simp [heval] at h
  | sidecarUnreadable => simp [heval] at h
  | facts f =>
    have hfacts : (f.identityOk = true ∧ f.expired = false) ∧ f.disk = .match_ := by
      simpa [heval] using h
    simp [hfacts]

/-- What a trusted verdict rests on. -/
theorem facts_of_trusted
    (h : prims.signedCacheCompromisedWithKeys home trustedKeys expectedPrincipal nowUnix =
      .trusted) :
    ∃ payload, Verified prims trustedKeys home.sidecar payload ∧
      signedPrincipalMatches payload expectedPrincipal = true ∧
      (payload.failClosed = true →
        nowUnix ≤ payload.expiresAt ∧ diskStatus home payload ≠ .mismatch) := by
  unfold Primitives.signedCacheCompromisedWithKeys at h
  obtain ⟨payload, hverified, heval⟩ | heval | ⟨heval, -⟩ :=
    evaluate_cases prims trustedKeys home expectedPrincipal nowUnix
  · rw [heval] at h
    by_cases hid : signedPrincipalMatches payload expectedPrincipal = true
    · refine ⟨payload, hverified, hid, fun hclosed => ?_⟩
      by_cases hbad : payload.expiresAt < nowUnix ∨ diskStatus home payload = .mismatch
      · simp [factsOf, hid, hclosed, hbad] at h
      · exact ⟨Nat.le_of_not_lt fun hlt => hbad (.inl hlt), fun hdisk => hbad (.inr hdisk)⟩
    · simp [factsOf, hid] at h
  · rw [heval] at h
    cases h
  · rw [heval] at h
    cases h

theorem signedPrincipalMatches_iff {payload : SignedPayload} :
    signedPrincipalMatches payload expectedPrincipal = true ↔
      ∀ signed expected, payload.principal = some signed → expectedPrincipal = some expected →
        signed = expected := by
  unfold signedPrincipalMatches
  cases payload.principal <;> cases expectedPrincipal <;> simp

end Verdicts

/-! ## A strict policy -/

/-- The primitives, as they are at one sidecar. -/
def Primitives.at_ (sidecar json signatureB64 : Text) (payload : SignedPayload) (key sig : Bytes) :
    Primitives where
  parseEnvelope text := if text = sidecar then some ⟨json, signatureB64, []⟩ else none
  parsePayload text := if text = json then some payload else none
  decodeBase64 text := if text = signatureB64 then some sig else none
  ed25519 key' message sig' := decide (key' = key ∧ message = utf8Bytes json ∧ sig' = sig)

section At

variable {sidecar json signatureB64 : Text} {payload : SignedPayload} {key sig : Bytes}

theorem verified_at (htrim : trim signatureB64 = signatureB64)
    (htyp : payload.typ = managedPolicyTyp) :
    Verified (.at_ sidecar json signatureB64 payload key sig) [(payload.keyId, key)]
      (.file (utf8Bytes sidecar)) payload := by
  refine ⟨sidecar, ⟨json, signatureB64, []⟩, rfl, if_pos rfl, ?_⟩
  simp [Primitives.at_, Primitives.verifySignedPayload, Primitives.verifySignatureWithKeys, htrim,
    htyp]

variable {trustedKeys : TrustedKeys}

theorem evaluate_of_verified {prims : Primitives} {home : Home}
    (h : Verified prims trustedKeys home.sidecar payload) (expectedPrincipal : Option Text)
    (nowUnix : Nat) :
    prims.evaluateSignedCache home trustedKeys expectedPrincipal nowUnix =
      .facts (factsOf home payload expectedPrincipal nowUnix) := by
  obtain ⟨text, envelope, hsidecar, henvelope, hverify⟩ := h
  have hread : prims.readEnvelopeAt home.sidecar = .present envelope := by
    simp [Primitives.readEnvelopeAt, hsidecar, Entry.nonRegularFileAt, Entry.readToString,
      decodeUtf8_utf8Bytes, henvelope]
  simp only [Primitives.evaluateSignedCache, hread, hverify]

theorem verdict_of_verified {prims : Primitives} {home : Home} {expectedPrincipal : Option Text}
    {nowUnix : Nat} (h : Verified prims trustedKeys home.sidecar payload)
    (hid : signedPrincipalMatches payload expectedPrincipal = true)
    (hdate : nowUnix ≤ payload.expiresAt) (hclosed : payload.failClosed = true) :
    prims.signedCacheCompromisedWithKeys home trustedKeys expectedPrincipal nowUnix =
      if diskStatus home payload = .mismatch then .compromised else .trusted := by
  have hexpired : ¬ payload.expiresAt < nowUnix := by omega
  simp [Primitives.signedCacheCompromisedWithKeys, evaluate_of_verified h, factsOf, hid, hexpired,
    hclosed]

theorem sidecar_of_verified_at {text : Text} {payload' : SignedPayload}
    (h : Verified (.at_ sidecar json signatureB64 payload key sig) trustedKeys (.file (utf8Bytes text)) payload') :
    text = sidecar := by
  obtain ⟨text', envelope, htext, henvelope, -⟩ := h
  have heq := decodeUtf8_utf8Bytes text'
  rw [← Entry.file.inj htext, decodeUtf8_utf8Bytes] at heq
  obtain rfl := some.inj heq
  by_contra hne
  have hnone : (Primitives.at_ sidecar json signatureB64 payload key sig).parseEnvelope text = none :=
    if_neg hne
  rw [hnone] at henvelope
  cases henvelope

end At

def strictPayload : SignedPayload where
  typ := managedPolicyTyp
  version := 0
  deploymentId := none
  teamId := none
  managedConfig := some "a".toList
  requirements := none
  failClosed := true
  expiresAt := 4000000000
  nonce := []
  keyId := "v1".toList

def strictJson : Text :=
  ("\x7b\"typ\":\"grok.managed_policy.v1\",\"managed_config\":\"a\",\"fail_c" ++
    "losed\":true,\"expires_at\":4000000000,\"key_id\":\"v1\"\x7d").toList

def strictKey : Bytes :=
  [215, 90, 152, 1, 130, 177, 10, 183, 213, 75, 254, 211, 201, 100, 7, 58, 14, 225, 114,
    243, 218, 166, 35, 37, 175, 2, 26, 104, 247, 7, 81, 26]

/-- Made by `strictKey` over the bytes of `strictJson`. -/
def strictSignature : Bytes :=
  [120, 247, 243, 26, 124, 3, 158, 155, 96, 194, 153, 199, 180, 243, 103, 173, 238, 180, 49,
    34, 183, 9, 180, 37, 167, 89, 151, 55, 172, 248, 90, 51, 152, 59, 87, 107, 211, 29, 81,
    171, 146, 187, 94, 138, 33, 83, 246, 66, 47, 223, 130, 143, 117, 175, 179, 72, 32, 134,
    56, 65, 158, 7, 185, 15]

def strictSignatureB64 : Text :=
  ['e', 'P', 'f', 'z', 'G', 'n', 'w', 'D', 'n', 'p', 't', 'g', 'w', 'p', 'n', 'H', 't', 'P',
    'N', 'n', 'r', 'e', '6', '0', 'M', 'S', 'K', '3', 'C', 'b', 'Q', 'l', 'p', '1', 'm',
    'X', 'N', '6', 'z', '4', 'W', 'j', 'O', 'Y', 'O', '1', 'd', 'r', '0', 'x', '1', 'R',
    'q', '5', 'K', '7', 'X', 'o', 'o', 'h', 'U', '/', 'Z', 'C', 'L', '9', '+', 'C', 'j',
    '3', 'W', 'v', 's', '0', 'g', 'g', 'h', 'j', 'h', 'B', 'n', 'g', 'e', '5', 'D', 'w',
    '=', '=']

def strictSidecar : Text :=
  '\x7b' :: ("\"signed_payload\":\"\x7b\\\"typ\\\":\\\"grok.managed_policy.v1\\\",\\\"man" ++
    "aged_config\\\":\\\"a\\\",\\\"fail_closed\\\":true,\\\"expires_at\\\":4000" ++
    "000000,\\\"key_id\\\":\\\"v1\\\"\x7d\",\"signature\":\"ePfzGnwDnptgwpnHtPNn" ++
    "re60MSK3CbQlp1mXN6z4WjOYO1dr0x1Rq5K7XoohU/ZCL9+Cj3Wvs0gghjhB" ++
    "nge5Dw==\"\x7d").toList

def strictPrimitives : Primitives :=
  .at_ strictSidecar strictJson strictSignatureB64 strictPayload strictKey strictSignature

def strictKeys : TrustedKeys := [("v1".toList, strictKey)]

theorem verified_strict :
    Verified strictPrimitives strictKeys (.file (utf8Bytes strictSidecar)) strictPayload :=
  verified_at (by decide) rfl

theorem verdict_strict (managedConfig : Entry) :
    let home : Home := ⟨.absent, managedConfig, .file (utf8Bytes strictSidecar)⟩
    strictPrimitives.signedCacheCompromisedWithKeys home strictKeys none 1000 =
      if diskStatus home strictPayload = .mismatch then .compromised else .trusted :=
  verdict_of_verified verified_strict rfl (by simp [strictPayload]) rfl

theorem diskStatus_removed (sidecar : Entry) :
    diskStatus ⟨.absent, .absent, sidecar⟩ strictPayload = .mismatch := rfl

theorem diskStatus_noText (sidecar : Entry) :
    diskStatus ⟨.absent, .file [0xFF], sidecar⟩ strictPayload = .unreadable := by
  have hff : decodeUtf8 [0xFF] = none := by decide
  simp [diskStatus, checkOnDiskMatches, checkSlot, Entry.nonRegularFileAt, Entry.readToString, hff]

theorem diskStatus_untouched (sidecar : Entry) :
    diskStatus ⟨.absent, .file (utf8Bytes "a".toList), sidecar⟩ strictPayload = .match_ := by
  have hread : (Entry.file (utf8Bytes "a".toList)).readToString = .ok "a".toList :=
    readToString_eq_ok.mpr rfl
  have hmanaged : checkSlot "managed_config".toList (.file (utf8Bytes "a".toList))
      strictPayload.managedConfig = .ok () := by
    simp only [checkSlot, hread]
    rfl
  have hrequirements : checkSlot "requirements".toList .absent strictPayload.requirements = .ok () :=
    rfl
  simp only [diskStatus, checkOnDiskMatches, hmanaged, hrequirements]

/-- What the two verdicts promise. `Made` says that a key made a signature over
a message. -/
theorem verdicts_agree (prims : Primitives) (Made : Bytes → Bytes → Bytes → Prop)
    (hed25519 : ∀ key message sig, prims.ed25519 key message sig = true → Made key message sig)
    (trustedKeys : TrustedKeys) (home : Home) (expectedPrincipal : Option Text) (nowUnix : Nat) :
    let refetch (home : Home) :=
      prims.cloudCacheSignatureInvalidWithKeys home trustedKeys expectedPrincipal nowUnix
    let verdict (home : Home) :=
      prims.signedCacheCompromisedWithKeys home trustedKeys expectedPrincipal nowUnix
    (verdict home = .compromised → home.hasPolicy = true → refetch home = true) ∧
    (refetch home = false → home.hasPolicy = true → verdict home = .trusted) ∧
    (verdict home = .trusted → IsText home.managedConfig → IsText home.requirements →
      ∃ payload, Sealed prims trustedKeys Made home.sidecar payload ∧
        (∀ signed expected, payload.principal = some signed → expectedPrincipal = some expected →
          signed = expected) ∧
        (payload.failClosed = true → nowUnix ≤ payload.expiresAt ∧ Kept home payload)) ∧
    (∀ bytes bytes', validUtf8 bytes = true → validUtf8 bytes' = true →
      (∀ payload, ¬ Verified prims trustedKeys (.file bytes) payload) →
      (∀ payload, ¬ Verified prims trustedKeys (.file bytes') payload) →
      refetch { home with sidecar := .file bytes } = refetch { home with sidecar := .file bytes' } ∧
      verdict { home with sidecar := .file bytes } =
        verdict { home with sidecar := .file bytes' }) := by
  refine ⟨invalid_of_compromised, trusted_of_valid, ?_, ?_⟩
  · intro h hmanaged hrequirements
    obtain ⟨payload, hverified, hid, hclosed⟩ := facts_of_trusted h
    refine ⟨payload, hverified.sealed hed25519, signedPrincipalMatches_iff.mp hid, ?_⟩
    intro hfail
    obtain ⟨hdate, hdisk⟩ := hclosed hfail
    exact ⟨hdate, kept_of_diskStatus hmanaged hrequirements hdisk⟩
  · intro bytes bytes' htext htext' hnone hnone'
    have heval := evaluate_unverified home htext hnone expectedPrincipal nowUnix
    have heval' := evaluate_unverified home htext' hnone' expectedPrincipal nowUnix
    constructor
    · simp only [Primitives.cloudCacheSignatureInvalidWithKeys, heval, heval', Home.hasPolicy]
    · simp only [Primitives.signedCacheCompromisedWithKeys, heval, heval']

theorem verdicts_agree_strict :
    let home : Home := ⟨.absent, .file (utf8Bytes "a".toList), .file (utf8Bytes strictSidecar)⟩
    strictPrimitives.signedCacheCompromisedWithKeys home strictKeys none 1000 = .trusted ∧
      ∃ payload, Sealed strictPrimitives strictKeys
        (fun key message sig => strictPrimitives.ed25519 key message sig = true) home.sidecar
          payload := by
  intro home
  have hverdict : strictPrimitives.signedCacheCompromisedWithKeys home strictKeys none 1000 =
      .trusted := by
    rw [verdict_strict, diskStatus_untouched]
    rfl
  have hmanaged : IsText home.managedConfig := by
    intro bytes h
    cases h
    exact validUtf8_utf8Bytes _
  have hrequirements : IsText home.requirements := by
    intro bytes h
    cases h
  obtain ⟨-, -, htrusted, -⟩ :=
    verdicts_agree strictPrimitives _ (fun _ _ _ h => h) strictKeys home none 1000
  obtain ⟨payload, hsealed, -, -⟩ := htrusted hverdict hmanaged hrequirements
  exact ⟨hverdict, payload, hsealed⟩

/-- With both files removed the gate refuses and nothing is refetched; a sidecar
that is no text is told apart from one that does not verify; a policy file that
is no text is trusted. -/
theorem verdicts_disagree :
    let sidecar : Entry := .file (utf8Bytes strictSidecar)
    let verdict (home : Home) :=
      strictPrimitives.signedCacheCompromisedWithKeys home strictKeys none 1000
    (verdict ⟨.absent, .absent, sidecar⟩ = .compromised ∧
      strictPrimitives.cloudCacheSignatureInvalidWithKeys ⟨.absent, .absent, sidecar⟩ strictKeys
        none 1000 = false) ∧
    ((∀ payload, ¬ Verified strictPrimitives strictKeys (.file [0xFF]) payload) ∧
      (∀ payload, ¬ Verified strictPrimitives strictKeys (.file []) payload) ∧
      verdict ⟨.absent, .absent, .file [0xFF]⟩ = .sidecarUnreadable ∧
      verdict ⟨.absent, .absent, .file []⟩ = .noAuthenticSidecar) ∧
    (strictPayload.failClosed = true ∧
      Verified strictPrimitives strictKeys sidecar strictPayload ∧
      verdict ⟨.absent, .file [0xFF], sidecar⟩ = .trusted ∧
      ¬ Holds strictPayload.managedConfig (.file [0xFF])) := by
  intro sidecar verdict
  have hff : decodeUtf8 [0xFF] = none := by decide
  have hnone : ∀ payload, ¬ Verified strictPrimitives strictKeys (.file []) payload := by
    intro payload h
    have hempty : [] = strictSidecar := sidecar_of_verified_at h
    cases hempty
  have hempty : strictPrimitives.evaluateSignedCache ⟨.absent, .absent, .file []⟩ strictKeys none
      1000 = .noAuthenticSidecar :=
    evaluate_unverified ⟨.absent, .absent, .absent⟩ (validUtf8_utf8Bytes []) hnone none 1000
  refine ⟨⟨?_, rfl⟩, ⟨?_, hnone, ?_, ?_⟩, rfl, ?_, ?_, ?_⟩
  · simp only [verdict, sidecar, verdict_strict, diskStatus_removed, if_true]
  · intro payload ⟨json, envelope, hfile, _⟩
    rw [Entry.file.inj hfile, decodeUtf8_utf8Bytes] at hff
    cases hff
  · simp [verdict, Primitives.signedCacheCompromisedWithKeys, Primitives.evaluateSignedCache,
      Primitives.readEnvelopeAt, Entry.nonRegularFileAt, Entry.readToString, hff]
  · simp only [verdict, Primitives.signedCacheCompromisedWithKeys, hempty]
  · exact verified_strict
  · simp only [verdict, sidecar, verdict_strict, diskStatus_noText, reduceCtorEq, if_false]
  · intro h
    exact absurd (Entry.file.inj h) (by decide)

end GrokBuild.SignedPolicy
