import Mathlib
import CertRenewer.Checks

/-!
# Public certificates and signing requests

What the program reads of a parsed certificate or signing request, and the
checks of `certificate.py` and `csr.py` on them. Parsing, signatures, path
building and hashing are the `cryptography` package and the standard library:
they are the fields of `Library`, which nothing here constrains.
-/

namespace CertRenewer

abbrev Bytes := List UInt8

instance lawfulChars : LawfulBEq (List Char) := List.instLawfulBEq

/-- An instant or a duration in microseconds. -/
abbrev Time := Int

/-- A lower-case SHA-256 hex digest, as the number it spells. -/
abbrev Sha256 := BitVec 256

abbrev Oid := List Nat

/-- A text that is meant to be a SHA-256 fingerprint: the number it spells when
it is 64 hexadecimal digits of either case, `none` for any other text. -/
abbrev Fingerprint := Option Sha256

/-- An exception. `raise … from None` keeps the exception it replaces as its
context. -/
inductive Error where
  | os
  | operation (message : String)
  | masked (message : String) (context : Error)
  deriving DecidableEq, Repr

abbrev Result := Except Error

def fail {α : Type} (message : String) : Result α := .error (.operation message)

def require (p : Prop) [Decidable p] (message : String) : Result Unit := check p (.operation message)

def orFail {α : Type} (x : Option α) (message : String) : Result α :=
  match x with
  | some a => .ok a
  | none => fail message

theorem require_eq_ok {p : Prop} [Decidable p] {m : String} {u : Unit} : require p m = .ok u ↔ p :=
  check_ok

theorem orFail_eq_ok {α : Type} {x : Option α} {m : String} {a : α} :
    orFail x m = .ok a ↔ x = some a := by
  cases x <;> simp [orFail, fail]

theorem mapM_eq_ok {α β : Type} {f : α → Result β} {xs : List α} {ys : List β} :
    xs.mapM f = .ok ys ↔ List.Forall₂ (fun x y => f x = .ok y) xs ys := by
  constructor
  · intro h
    induction xs generalizing ys with
    | nil =>
      cases h
      exact .nil
    | cons x xs ih =>
      simp only [List.mapM_cons, bind_eq_ok] at h
      obtain ⟨y, here, others, rest, whole⟩ := h
      cases whole
      exact .cons here (ih rest)
  · intro h
    induction h with
    | nil => rfl
    | cons here _ ih => simp [List.mapM_cons, bind_eq_ok, here, ih, pure, Except.pure]

inductive Hash where
  | sha256
  | sha384
  | sha512
  | other (name : String)
  deriving DecidableEq, Repr

inductive KeyAlgorithm where
  | rsa
  | ec
  | other (name : String)
  deriving DecidableEq, Repr

inductive IpAddress where
  | v4 (value : BitVec 32)
  | v6 (value : BitVec 128)
  deriving DecidableEq, Repr

inductive GeneralName where
  | dns (name : String)
  | ip (address : IpAddress)
  | other (type : String)
  deriving DecidableEq, Repr

def GeneralName.dns? : GeneralName → Option String
  | .dns name => some name
  | _ => none

def GeneralName.ip? : GeneralName → Option IpAddress
  | .ip address => some address
  | _ => none

def GeneralName.other? : GeneralName → Option String
  | .other type => some type
  | _ => none

structure KeyUsage where
  digitalSignature : Bool
  contentCommitment : Bool
  keyEncipherment : Bool
  dataEncipherment : Bool
  keyAgreement : Bool
  keyCertSign : Bool
  crlSign : Bool
  deriving DecidableEq, Repr

/-- What the program reads of a parsed X.509 certificate. An absent extension
is `none`; `signatureHash` is `none` when the package cannot name the
algorithm, and `some none` when the signature uses no separate hash. -/
structure Certificate where
  der : Bytes
  pem : Bytes
  subject : String
  issuer : String
  serialNumber : Nat
  notValidBefore : Time
  notValidAfter : Time
  spki : Bytes
  publicKey : Option (KeyAlgorithm × Option Nat)
  subjectAlternativeName : Option (List GeneralName)
  subjectKeyIdentifier : Option Bytes
  signatureAlgorithmOid : Oid
  signatureHash : Option (Option Hash)
  basicConstraintsCa : Option Bool
  extendedKeyUsage : Option (List Oid)
  keyUsage : Option KeyUsage
  deriving DecidableEq, Repr

/-- What the program reads of a parsed PKCS#10 request. -/
structure SigningRequest where
  subject : String
  spki : Bytes
  publicKey : Option (KeyAlgorithm × Option Nat)
  subjectAlternativeName : Option (List GeneralName)
  subjectKeyIdentifier : Option Bytes
  signatureAlgorithmOid : Oid
  signatureHash : Option (Option Hash)
  signatureValid : Bool
  deriving DecidableEq, Repr

structure CertificateInfo where
  subject : String
  issuer : String
  serialNumber : Nat
  notValidBefore : Time
  notValidAfter : Time
  certificateSha256 : Sha256
  spkiSha256 : Sha256
  publicKeyAlgorithm : KeyAlgorithm
  publicKeySize : Option Nat
  dnsSans : List String
  ipSans : List String
  subjectKeyIdentifier : Option Bytes
  signatureAlgorithmOid : Oid
  signatureHashAlgorithm : Option Hash
  deriving DecidableEq, Repr

structure CsrInfo where
  subject : String
  spkiSha256 : Sha256
  publicKeyAlgorithm : KeyAlgorithm
  publicKeySize : Option Nat
  dnsSans : List String
  ipSans : List String
  subjectKeyIdentifier : Option Bytes
  signatureAlgorithmOid : Oid
  signatureHashAlgorithm : Option Hash
  unsupportedSanTypes : List String
  deriving DecidableEq, Repr

structure KeystoreMetadata where
  keystoreType : String
  provider : String
  deriving DecidableEq, Repr

structure AliasMetadata where
  aliasName : String
  entryType : String
  certificateChainLength : Nat
  deriving DecidableEq, Repr

/-- Captured public data of a keystore; the chain is ordered leaf first. -/
structure PublicKeystoreState where
  keytoolOutput : String
  certificateChainDer : List Bytes
  deriving DecidableEq, Repr

/-- Configured identity, independent of returned data. -/
structure CertificatePolicy where
  expectedSpkiSha256 : Fingerprint
  subject : String
  dnsSans : List String
  ipSans : List String
  deriving DecidableEq, Repr

/-- The code the checks below rest on: the standard library, the
`cryptography` package, and the text scanners whose grammar these modules do
not depend on. -/
structure Library where
  sha256 : Bytes → Sha256
  ipAddress : String → Option IpAddress
  ipText : IpAddress → String
  loadDer : Bytes → Option Certificate
  loadPem : Bytes → Option (List Certificate)
  loadCsr : Bytes → Option SigningRequest
  selfIssued : Certificate → Bool
  verifiesPath : List Certificate → Time → GeneralName → Certificate → Bool
  rfc4514 : String → Option String
  certificatePem : Bytes → Bool
  trustPem : Bytes → Bool
  csrEnvelope : Bytes → Bool
  keytoolMetadata : String → Result (KeystoreMetadata × AliasMetadata)
  scanCollection : Bytes → Result PublicKeystoreState
  unsafeCategory : Char → Bool

def maxCertificateDerBytes : Nat := 1024 * 1024
def maxIssuedCertificateBytes : Nat := 64 * 1024
def maxTrustBundleBytes : Nat := 256 * 1024
def maxCsrPemBytes : Nat := 64 * 1024

def microsecondsPerDay : Time := 86400000000
def defaultClockSkew : Time := 5 * 60000000

def allowedSignatureHashes : List Hash := [.sha256, .sha384, .sha512]
def supportedRsaKeySizes : List Nat := [2048, 3072, 4096]

def serverAuth : Oid := [1, 3, 6, 1, 5, 5, 7, 3, 1]
def opnsenseIkeIntermediate : Oid := [1, 3, 6, 1, 5, 5, 8, 2, 2]

/-- Equality of Python sets built from two sequences. -/
def sameSet {α : Type} [DecidableEq α] (a b : List α) : Bool :=
  a.all (fun x => decide (x ∈ b)) && b.all (fun x => decide (x ∈ a))

def lower (text : String) : List Char := text.toList.map Char.toLower

def isAsciiSpace (b : UInt8) : Bool := [32, 9, 10, 13, 11, 12].contains b

def pemPrefix : Bytes := [45, 45, 45, 45, 45, 66, 69, 71, 73, 78]

/-- `data.lstrip().startswith(b"-----BEGIN")`. -/
def looksLikePem (data : Bytes) : Bool :=
  pemPrefix.isPrefixOf (data.dropWhile isAsciiSpace)

section
variable (lib : Library)

def dnsNames (san : Option (List GeneralName)) : List String :=
  (san.getD []).filterMap GeneralName.dns?

def ipNames (san : Option (List GeneralName)) : List IpAddress :=
  (san.getD []).filterMap GeneralName.ip?

/-- `_certificate_info`. -/
def certificateInfo (c : Certificate) : Result CertificateInfo := do
  let (algorithm, size) ← orFail c.publicKey "unsupported certificate public-key algorithm"
  let hash ← orFail c.signatureHash "certificate uses an unsupported algorithm"
  .ok {
    subject := c.subject
    issuer := c.issuer
    serialNumber := c.serialNumber
    notValidBefore := c.notValidBefore
    notValidAfter := c.notValidAfter
    certificateSha256 := lib.sha256 c.der
    spkiSha256 := lib.sha256 c.spki
    publicKeyAlgorithm := algorithm
    publicKeySize := size
    dnsSans := dnsNames c.subjectAlternativeName
    ipSans := (ipNames c.subjectAlternativeName).map lib.ipText
    subjectKeyIdentifier := c.subjectKeyIdentifier
    signatureAlgorithmOid := c.signatureAlgorithmOid
    signatureHashAlgorithm := hash }

def inspectCertificate (certificateDer : Bytes) : Result CertificateInfo := do
  require (certificateDer ≠ []) "certificate DER must not be empty"
  require (certificateDer.length ≤ maxCertificateDerBytes) "certificate DER exceeds the size limit"
  let c ← orFail (lib.loadDer certificateDer) "invalid certificate DER"
  certificateInfo lib c

def inspectCsr (csrPem : Bytes) : Result CsrInfo := do
  require (csrPem ≠ []) "CSR PEM must not be empty"
  require (csrPem.length ≤ maxCsrPemBytes) "CSR PEM exceeds the size limit"
  require (lib.csrEnvelope csrPem) "invalid CSR PEM"
  let csr ← orFail (lib.loadCsr csrPem) "invalid CSR PEM"
  require csr.signatureValid "CSR proof-of-possession signature is invalid"
  let (algorithm, size) ← orFail csr.publicKey "CSR uses an unsupported public-key algorithm"
  let hash ← orFail csr.signatureHash "CSR uses an unsupported algorithm"
  .ok {
    subject := csr.subject
    spkiSha256 := lib.sha256 csr.spki
    publicKeyAlgorithm := algorithm
    publicKeySize := size
    dnsSans := dnsNames csr.subjectAlternativeName
    ipSans := (ipNames csr.subjectAlternativeName).map lib.ipText
    subjectKeyIdentifier := csr.subjectKeyIdentifier
    signatureAlgorithmOid := csr.signatureAlgorithmOid
    signatureHashAlgorithm := hash
    unsupportedSanTypes := (csr.subjectAlternativeName.getD []).filterMap GeneralName.other? }

def validateCsrSpki (csrInfo : CsrInfo) (expected : Fingerprint) : Result Unit := do
  let value ← orFail expected "expected SPKI SHA-256 must be exactly 64 hexadecimal characters"
  require (csrInfo.spkiSha256 = value) "CSR public key does not match the expected SPKI SHA-256"

/-- `_load_one_certificate`. -/
def loadOneCertificate (data : Bytes) (maximum : Nat) (label : String) : Result Certificate := do
  require (data ≠ []) s!"{label} must not be empty"
  require (data.length ≤ maximum) s!"{label} exceeds the size limit"
  if looksLikePem data then
    require (lib.certificatePem data) s!"{label} is malformed"
    match ← orFail (lib.loadPem data) s!"{label} is malformed" with
    | [c] => .ok c
    | _ => fail s!"{label} must contain exactly one certificate"
  else
    orFail (lib.loadDer data) s!"{label} is malformed"

def trustCertificate (c : Certificate) : Result Unit := do
  let ca ← orFail c.basicConstraintsCa "trusted CA certificate is missing Basic Constraints"
  require ca "trusted CA data contains a non-CA certificate"
  match c.keyUsage with
  | none => .ok ()
  | some usage => require usage.keyCertSign "trusted CA certificate cannot sign certificates"

/-- `_load_trust_certificates`. -/
def loadTrustCertificates (trustedCaData : Bytes) : Result (List Certificate) := do
  require (trustedCaData ≠ []) "trusted CA data must not be empty"
  require (trustedCaData.length ≤ maxTrustBundleBytes) "trusted CA data exceeds the size limit"
  let certificates ←
    if looksLikePem trustedCaData then do
      require (lib.trustPem trustedCaData) "trusted CA data is malformed"
      orFail (lib.loadPem trustedCaData) "trusted CA data is malformed"
    else do
      let c ← orFail (lib.loadDer trustedCaData) "trusted CA data is malformed"
      .ok [c]
  certificates.forM trustCertificate
  require (certificates ≠ []) "trusted CA data contains no certificates"
  .ok certificates

def validateSignatureHash (c : Certificate) : Result Unit := do
  let hash ← orFail c.signatureHash "issued certificate signature hash algorithm is unsupported"
  require (∃ h, hash = some h ∧ h ∈ allowedSignatureHashes)
    "issued certificate signature hash is not allowed"

def validateInstallationCa (trustedCaData : Bytes) (now : Time) : Result Certificate := do
  match ← loadTrustCertificates lib trustedCaData with
  | [ca] =>
    require (lib.selfIssued ca) "installation requires a self-signed issuing CA"
    require (ca.notValidBefore ≤ now ∧ now < ca.notValidAfter)
      "installation CA is not currently valid"
    validateSignatureHash ca
    .ok ca
  | _ => fail "installation requires exactly one configured CA"

/-- `_validate_exact_sans`. -/
def validateExactSans (c : Certificate) (csrInfo : CsrInfo) : Result Unit := do
  let names ← orFail c.subjectAlternativeName
    "issued certificate is missing Subject Alternative Name"
  require (names.filterMap GeneralName.other? = [])
    "issued certificate SAN contains an unsupported identity type"
  let actualDns := names.filterMap GeneralName.dns?
  require (actualDns.length = csrInfo.dnsSans.length ∧
      sameSet (actualDns.map lower) (csrInfo.dnsSans.map lower))
    "issued certificate DNS SANs do not exactly match the CSR"
  let actualIps := names.filterMap GeneralName.ip?
  let expectedIps ← csrInfo.ipSans.mapM fun text => orFail (lib.ipAddress text) "invalid IP address"
  require (actualIps.length = expectedIps.length ∧ sameSet actualIps expectedIps)
    "issued certificate IP SANs do not exactly match the CSR"

/-- `_validate_leaf_extensions`. -/
def validateLeafExtensions (c : Certificate) : Result Unit := do
  let ca ← orFail c.basicConstraintsCa "issued certificate is missing Basic Constraints"
  require (!ca) "issued certificate Basic Constraints must set CA to FALSE"
  let eku ← orFail c.extendedKeyUsage "issued certificate is missing Extended Key Usage"
  require (eku.Nodup ∧
      (sameSet eku [serverAuth] ∨ sameSet eku [serverAuth, opnsenseIkeIntermediate]))
    "issued certificate Extended Key Usage profile is not accepted"
  let usage ← orFail c.keyUsage "issued certificate is missing Key Usage"
  require (usage.digitalSignature ∧ usage.keyEncipherment ∧ !usage.contentCommitment ∧
      !usage.dataEncipherment ∧ !usage.keyAgreement ∧ !usage.keyCertSign ∧ !usage.crlSign)
    "issued certificate Key Usage profile is not accepted"

/-- `_validate_lifetime_days`. -/
def validateLifetimeDays (lifetimeDays : Int) : Result Unit :=
  require (1 ≤ lifetimeDays ∧ lifetimeDays ≤ 397)
    "certificate lifetime must be between 1 and 397 days"

/-- `_validate_validity`. -/
def validateValidity (c : Certificate) (lifetimeDays : Int) (now freshnessReference clockSkew : Time) :
    Result Unit := do
  require (c.notValidBefore < c.notValidAfter) "issued certificate validity period is invalid"
  require (c.notValidBefore ≤ now) "issued certificate is not yet valid"
  require (now < c.notValidAfter) "issued certificate has expired"
  require (freshnessReference - clockSkew ≤ c.notValidBefore)
    "issued certificate is too far backdated"
  require (c.notValidBefore ≤ freshnessReference)
    "issued certificate postdates freshness reference"
  require (c.notValidAfter - c.notValidBefore = lifetimeDays * microsecondsPerDay)
    "issued certificate validity period does not match the requested lifetime"

/-- `_verify_ca_trust`. -/
def verifyCaTrust (c : Certificate) (trustedCaData : Bytes) (csrInfo : CsrInfo) (now : Time) :
    Result Unit := do
  let trusted ← loadTrustCertificates lib trustedCaData
  let identity ←
    match csrInfo.dnsSans, csrInfo.ipSans with
    | name :: _, _ => .ok (.dns name)
    | [], text :: _ => do
      let address ← orFail (lib.ipAddress text) "invalid IP address"
      .ok (.ip address)
    | [], [] => fail "CSR must contain at least one DNS or IP SAN"
  require (lib.verifiesPath trusted now identity c)
    "issued certificate failed verification against the configured CA"

/-- What an issued certificate is checked against. -/
structure IssuancePolicy where
  trustedCaData : Bytes
  lifetimeDays : Int
  expectedSignatureHash : Hash
  expectedSignatureOid : Oid
  freshnessReferenceTime : Time
  deriving DecidableEq, Repr

def validateIssuedCertificate (certificateData : Bytes) (csrInfo : CsrInfo) (p : IssuancePolicy)
    (now : Time) : Result CertificateInfo := do
  validateLifetimeDays p.lifetimeDays
  require (p.expectedSignatureHash ∈ allowedSignatureHashes ∧ p.expectedSignatureOid ≠ [])
    "invalid issued certificate signature policy"
  let c ← loadOneCertificate lib certificateData maxIssuedCertificateBytes "issued certificate"
  let info ← certificateInfo lib c
  require (info.publicKeyAlgorithm = .rsa ∧ ∃ n ∈ supportedRsaKeySizes, info.publicKeySize = some n)
    "issued certificate public key is unsupported for this signing policy"
  require (csrInfo.unsupportedSanTypes = []) "CSR contains an unsupported SAN identity type"
  require (info.spkiSha256 = csrInfo.spkiSha256)
    "issued certificate public key does not match the CSR"
  require (info.subject = csrInfo.subject) "issued certificate subject does not match the CSR"
  validateExactSans lib c csrInfo
  validateLeafExtensions c
  validateValidity c p.lifetimeDays now p.freshnessReferenceTime defaultClockSkew
  validateSignatureHash c
  require (info.signatureHashAlgorithm = some p.expectedSignatureHash ∧
      info.signatureAlgorithmOid = p.expectedSignatureOid)
    "issued certificate signature differs from requested policy"
  verifyCaTrust lib c p.trustedCaData csrInfo now
  .ok info

/-- The two clock readings of one validation: the CA's, then the leaf's. -/
structure Clock where
  ca : Time
  leaf : Time
  deriving DecidableEq, Repr

/-- Leaf metadata, the exact public DER chain, and the PEM reply for keytool.
The CA is passed on as the PEM of the one certificate it holds. -/
def buildValidatedCertificateReply (certificateData : Bytes) (csrInfo : CsrInfo) (p : IssuancePolicy)
    (now : Clock) : Result (CertificateInfo × List Bytes × Bytes) := do
  let caPem := (← validateInstallationCa lib p.trustedCaData now.ca).pem
  let info ← validateIssuedCertificate lib certificateData csrInfo { p with trustedCaData := caPem }
    now.leaf
  let leaf ← loadOneCertificate lib certificateData maxIssuedCertificateBytes "issued certificate"
  match ← orFail (lib.loadPem caPem) "trusted CA data is malformed" with
  | ca :: _ =>
    let reply := leaf.pem ++ caPem
    require (reply.length ≤ maxIssuedCertificateBytes + maxTrustBundleBytes)
      "certificate reply exceeds the size limit"
    .ok (info, [leaf.der, ca.der], reply)
  | [] => fail "trusted CA data is malformed"

end

end CertRenewer
