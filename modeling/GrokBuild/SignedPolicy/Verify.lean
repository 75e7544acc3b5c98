import GrokBuild.Lib.Utf8

/-!
# Signed policy: verification at rest

`signed_policy.rs`: the sidecar is read and verified against the trusted keys,
and the policy files are compared with what was signed. JSON, base64 and
Ed25519 are parameters. The claim's own sidecar, the checks at fetch time and
the writers are left out.
-/

namespace GrokBuild.SignedPolicy

open TextLines Str LineLog

/-! ## Files -/

/-- What occupies a path. `found` is the answer of `exists`, which follows
links and needs the right to look. -/
inductive Entry where
  | absent
  | file (bytes : Bytes)
  | unreadable (found : Bool)
  | nonRegular (found : Bool)
  deriving DecidableEq

inductive IoError where
  | notFound
  | other
  deriving DecidableEq

namespace Entry

def found : Entry → Bool
  | absent => false
  | file _ => true
  | unreadable found => found
  | nonRegular found => found

def nonRegularFileAt : Entry → Bool
  | nonRegular _ => true
  | _ => false

/-- `read_to_string`; bytes that are no text are an error as well. -/
def readToString : Entry → Except IoError Text
  | absent => .error .notFound
  | file bytes => (decodeUtf8 bytes).elim (.error .other) .ok
  | unreadable _ => .error .other
  | nonRegular _ => .error .other

end Entry

/-- The files of a home directory that the checks look at. -/
structure Home where
  requirements : Entry
  managedConfig : Entry
  sidecar : Entry

/-! ## Signatures -/

structure SignatureEnvelope where
  signedPayload : Text
  signature : Text
  keyId : Text

structure SignedPayload where
  typ : Text
  version : Nat
  deploymentId : Option Text
  teamId : Option Text
  managedConfig : Option Text
  requirements : Option Text
  failClosed : Bool
  expiresAt : Nat
  nonce : Text
  keyId : Text

def managedPolicyTyp : Text := "grok.managed_policy.v1".toList

/-- `SigError`, as far as the checks at rest return it. -/
inductive SigError where
  | badSignatureEncoding
  | signatureMismatch
  | badPayload
  | wrongType
  | unknownKeyId
  | contentMismatch (label : Text)
  | unreadable (label : Text)
  deriving DecidableEq

/-- What the checks use of `serde_json`, `base64` and `ring`. -/
structure Primitives where
  parseEnvelope : Text → Option SignatureEnvelope
  parsePayload : Text → Option SignedPayload
  decodeBase64 : Text → Option Bytes
  ed25519 : (publicKey message signature : Bytes) → Bool

abbrev TrustedKeys := List (Text × Bytes)

namespace Primitives

variable (prims : Primitives)

def verifySignatureWithKeys (signedPayload signatureB64 : Text) (trustedKeys : TrustedKeys)
    (keyId : Text) : Except SigError Unit :=
  match trustedKeys.find? fun key => key.1 = keyId with
  | none => .error .unknownKeyId
  | some (_, publicKey) =>
    match prims.decodeBase64 (trim signatureB64) with
    | none => .error .badSignatureEncoding
    | some sig =>
      if prims.ed25519 publicKey (utf8Bytes signedPayload) sig then .ok ()
      else .error .signatureMismatch

def verifySignedPayload (signedPayload signatureB64 : Text) (trustedKeys : TrustedKeys) :
    Except SigError SignedPayload :=
  match prims.parsePayload signedPayload with
  | none => .error .badPayload
  | some payload =>
    match prims.verifySignatureWithKeys signedPayload signatureB64 trustedKeys payload.keyId with
    | .error e => .error e
    | .ok () => if payload.typ = managedPolicyTyp then .ok payload else .error .wrongType

end Primitives

/-- The principal a payload is bound to. -/
def SignedPayload.principal (payload : SignedPayload) : Option Text :=
  payload.deploymentId.or payload.teamId

def signedPrincipalMatches (payload : SignedPayload) (expectedPrincipal : Option Text) : Bool :=
  match payload.principal, expectedPrincipal with
  | some signed, some expected => signed = expected
  | _, _ => true

/-! ## The policy files -/

/-- The contents of a slot agree with the signed ones; nothing signed, or an
empty text, binds absence. -/
def slotMatches (signed onDisk : Option Text) : Bool :=
  match signed.filter fun s => !s.isEmpty with
  | some s => onDisk = some s
  | none => onDisk.all List.isEmpty

def compareSlot (label : Text) (signed onDisk : Option Text) : Except SigError Unit :=
  if slotMatches signed onDisk then .ok () else .error (.contentMismatch label)

/-- One turn of the loop of `check_on_disk_matches`. -/
def checkSlot (label : Text) (slot : Entry) (signed : Option Text) : Except SigError Unit :=
  if slot.nonRegularFileAt then .error (.contentMismatch label)
  else
    match slot.readToString with
    | .ok s => compareSlot label signed (some s)
    | .error .notFound => compareSlot label signed none
    | .error .other => .error (.unreadable label)

def checkOnDiskMatches (home : Home) (payload : SignedPayload) : Except SigError Unit :=
  match checkSlot "managed_config".toList home.managedConfig payload.managedConfig with
  | .error e => .error e
  | .ok () => checkSlot "requirements".toList home.requirements payload.requirements

/-! ## The sidecar -/

inductive SidecarRead where
  | present (sidecar : SignatureEnvelope)
  | absent
  | unreadable

def Primitives.readEnvelopeAt (prims : Primitives) (path : Entry) : SidecarRead :=
  if path.nonRegularFileAt then .absent
  else
    match path.readToString with
    | .ok json => (prims.parseEnvelope json).elim .absent .present
    | .error .notFound => .absent
    | .error .other => .unreadable

inductive DiskStatus where
  | match_
  | mismatch
  | unreadable
  deriving DecidableEq

def diskStatus (home : Home) (payload : SignedPayload) : DiskStatus :=
  match checkOnDiskMatches home payload with
  | .ok () => .match_
  | .error (.unreadable _) => .unreadable
  | .error _ => .mismatch

structure SignedCacheFacts where
  identityOk : Bool
  expired : Bool
  failClosed : Bool
  disk : DiskStatus

inductive SignedCacheEvaluation where
  | noAuthenticSidecar
  | sidecarUnreadable
  | facts (f : SignedCacheFacts)

/-- What a verified payload establishes. -/
def factsOf (home : Home) (payload : SignedPayload) (expectedPrincipal : Option Text)
    (nowUnix : Nat) : SignedCacheFacts where
  identityOk := signedPrincipalMatches payload expectedPrincipal
  expired := payload.expiresAt < nowUnix
  failClosed := payload.failClosed
  disk := diskStatus home payload

inductive SignedVerdict where
  | inactive
  | noAuthenticSidecar
  | sidecarUnreadable
  | trusted
  | compromised
  deriving DecidableEq

/-- A policy file exists. -/
def Home.hasPolicy (home : Home) : Bool := home.requirements.found || home.managedConfig.found

namespace Primitives

variable (prims : Primitives)

def evaluateSignedCache (home : Home) (trustedKeys : TrustedKeys) (expectedPrincipal : Option Text)
    (nowUnix : Nat) : SignedCacheEvaluation :=
  match prims.readEnvelopeAt home.sidecar with
  | .absent => .noAuthenticSidecar
  | .unreadable => .sidecarUnreadable
  | .present sidecar =>
    match prims.verifySignedPayload sidecar.signedPayload sidecar.signature trustedKeys with
    | .error _ => .noAuthenticSidecar
    | .ok payload => .facts (factsOf home payload expectedPrincipal nowUnix)

/-- `cloud_cache_signature_invalid_with_keys`: the refetch trigger. -/
def cloudCacheSignatureInvalidWithKeys (home : Home) (trustedKeys : TrustedKeys)
    (expectedPrincipal : Option Text) (nowUnix : Nat) : Bool :=
  if !home.hasPolicy then false
  else
    match prims.evaluateSignedCache home trustedKeys expectedPrincipal nowUnix with
    | .noAuthenticSidecar => true
    | .sidecarUnreadable => true
    | .facts f => !f.identityOk || f.expired || f.disk != .match_

/-- `signed_cache_compromised_with_keys`: the gate at load time. -/
def signedCacheCompromisedWithKeys (home : Home) (trustedKeys : TrustedKeys)
    (expectedPrincipal : Option Text) (nowUnix : Nat) : SignedVerdict :=
  match prims.evaluateSignedCache home trustedKeys expectedPrincipal nowUnix with
  | .noAuthenticSidecar => .noAuthenticSidecar
  | .sidecarUnreadable => .sidecarUnreadable
  | .facts f =>
    -- A foreign policy that is permissive cannot stand in for a strict one.
    if !f.identityOk then .compromised
    else if !f.failClosed then .trusted
    else if f.expired || f.disk = .mismatch then .compromised
    else .trusted

def verificationActive (disarmed : Bool) (trustedKeys : TrustedKeys) : Bool :=
  !disarmed && !trustedKeys.isEmpty

def cloudCacheSignatureInvalid (disarmed : Bool) (home : Home) (trustedKeys : TrustedKeys)
    (expectedPrincipal : Option Text) (nowUnix : Nat) : Bool :=
  verificationActive disarmed trustedKeys &&
    prims.cloudCacheSignatureInvalidWithKeys home trustedKeys expectedPrincipal nowUnix

def signedCacheCompromised (disarmed : Bool) (home : Home) (trustedKeys : TrustedKeys)
    (expectedPrincipal : Option Text) (nowUnix : Nat) : SignedVerdict :=
  if verificationActive disarmed trustedKeys then
    prims.signedCacheCompromisedWithKeys home trustedKeys expectedPrincipal nowUnix
  else .inactive

end Primitives

end GrokBuild.SignedPolicy
