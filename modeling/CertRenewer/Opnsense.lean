import CertRenewer.Client
import CertRenewer.Json
import CertRenewer.Text

/-!
# The requests to OPNsense

`opnsense_client.py`: what `sign_csr` checks of a signing request, by its own
rules, and the fields it posts; and what the three requests accept as a response.
Every name is taken from the signing request itself.
-/

namespace CertRenewer.Opnsense

def maxDescriptionChars : Nat := 255
def maxSubjectChars : Nat := 4096

/-- `_CA_REFERENCE_RE`. -/
def caReference (caref : String) : Bool :=
  caref.toList.length == 13 && caref.toList.all fun c => ('0' ≤ c && c ≤ '9') || ('a' ≤ c && c ≤ 'f')

section
variable (lib : Library)

/-- `_validate_safe_text`. -/
def validateSafeText (value label : String) (maximum : Nat) : Result Unit := do
  require (value.toList ≠ []) s!"{label} must not be empty"
  require (value.toList.length ≤ maximum) s!"{label} exceeds the size limit"
  require (!value.toList.any lib.unsafeCategory) s!"{label} contains unsafe characters"

/-- `_derive_key_type`. -/
def deriveKeyType (csrInfo : CsrInfo) : Result Nat := do
  require (csrInfo.publicKeyAlgorithm = .rsa) "CSR public-key algorithm is unsupported for signing"
  let size ← orFail csrInfo.publicKeySize "CSR RSA key size is unsupported for signing"
  require (size ∈ supportedRsaKeySizes) "CSR RSA key size is unsupported for signing"
  .ok size

/-- The DNS names, after those already seen. -/
def checkDnsNames : List (List Char) → List String → Result (List String)
  | _, [] => .ok []
  | seen, name :: rest => do
    validateSafeText lib name "CSR DNS SAN" 253
    require (name.toList.all fun c => decide (c.toNat < 128)) "CSR DNS SAN is not an ASCII DNS name"
    require ((name.toList.splitOn '.').all dnsLabel) "CSR DNS SAN is not a valid DNS name"
    require (lower name ∉ seen) "CSR contains a duplicate DNS SAN"
    let names ← checkDnsNames (lower name :: seen) rest
    .ok (name :: names)

/-- The addresses, after those already seen. -/
def checkIpAddresses : List String → List String → Result (List String)
  | _, [] => .ok []
  | seen, address :: rest => do
    validateSafeText lib address "CSR IP SAN" 64
    require ('%' ∉ address.toList) "CSR IP SAN must not contain a scope identifier"
    let parsed ← orFail (lib.ipAddress address) "CSR IP SAN is not a valid IP address"
    let canonical := lib.ipText parsed
    require (canonical ∉ seen) "CSR contains a duplicate IP SAN"
    let addresses ← checkIpAddresses (canonical :: seen) rest
    .ok (canonical :: addresses)

/-- The checks of `_validate_csr_identity` after the subject. -/
def validateCsrNames (csrInfo : CsrInfo) : Result (List String × List String) := do
  require (csrInfo.unsupportedSanTypes = []) "CSR contains an unsupported SAN identity type"
  require (csrInfo.dnsSans.length + csrInfo.ipSans.length ≤ maxSanEntries)
    "CSR SAN count exceeds the size limit"
  require (¬(csrInfo.dnsSans = [] ∧ csrInfo.ipSans = [])) "CSR must contain at least one DNS or IP SAN"
  let dnsNames ← checkDnsNames lib [] csrInfo.dnsSans
  let ipAddresses ← checkIpAddresses lib [] csrInfo.ipSans
  .ok (dnsNames, ipAddresses)

/-- `_validate_csr_identity`. -/
def validateCsrIdentity (csrInfo : CsrInfo) : Result (List String × List String) := do
  validateSafeText lib csrInfo.subject "CSR subject" maxSubjectChars
  validateCsrNames lib csrInfo

/-- The fields of the posted certificate, besides the fixed ones. -/
structure SigningPayload where
  caref : String
  digest : Hash
  lifetime : Int
  keyType : Nat
  csrPayload : List Char
  altnamesDns : String
  altnamesIp : String
  descr : String
  deriving DecidableEq, Repr

/-- The payload of `sign_csr`. -/
def signingPayload (csrPem : Bytes) (csrInfo : CsrInfo) (expectedSpki : Fingerprint) (caref : String)
    (digest : Hash) (lifetimeDays : Int) (description : String) : Result SigningPayload := do
  let inspected ← inspectCsr lib csrPem
  require (inspected = csrInfo) "CSR information does not match the CSR payload"
  validateCsrSpki inspected expectedSpki
  require (caReference caref = true) "OPNsense CA reference is invalid"
  require (digest ∈ allowedSignatureHashes) "OPNsense digest is not allowed"
  require (1 ≤ lifetimeDays ∧ lifetimeDays ≤ 397) "OPNsense lifetime must be between 1 and 397 days"
  validateSafeText lib description "Certificate description" maxDescriptionChars
  let keyType ← deriveKeyType inspected
  let (dnsNames, ipAddresses) ← validateCsrIdentity lib inspected
  require (csrPem.all fun b => decide (b < 128)) "CSR PEM must be ASCII"
  .ok {
    caref := caref
    digest := digest
    lifetime := lifetimeDays
    keyType := keyType
    csrPayload := csrPem.map fun b => Char.ofNat b.toNat
    altnamesDns := String.intercalate "\n" dnsNames
    altnamesIp := String.intercalate "\n" ipAddresses
    descr := description }

/-! ## Responses -/

/-- An entry of the CA list: its description and its reference. -/
def caEntry : Json → Result (String × String)
  | .object row =>
    match row.lookup "descr", row.lookup "caref" with
    | some (.string description), some (.string caref) => .ok (description, caref)
    | _, _ => fail "OPNsense CA list response is malformed"
  | _ => fail "OPNsense CA list response is malformed"

/-- What `resolve_ca` takes from the response. -/
def resolvedCa (description : String) (response : List (String × Json)) : Result String := do
  match response.lookup "rows", response.lookup "count" with
  | some (.array rows), some (.int count) =>
    require (count = rows.length) "OPNsense CA list response is malformed"
    let entries ← rows.mapM caEntry
    match (entries.filter fun entry => entry.1 = description).map Prod.snd with
    | [] => fail "OPNsense CA description was not found"
    | [caref] =>
      require (caReference caref = true) "OPNsense returned an invalid CA reference"
      .ok caref
    | _ => fail "OPNsense CA description is not unique"
  | _, _ => fail "OPNsense CA list response is malformed"

/-- The texts that `uuid.UUID` reads and `str` writes again. -/
def canonicalUuid (text : List Char) : Bool :=
  text.length == 36 && (List.range 36).all fun i =>
    match text[i]? with
    | some c =>
      if i ∈ [8, 13, 18, 23] then c == '-' else ('0' ≤ c && c ≤ '9') || ('a' ≤ c && c ≤ 'f')
    | none => false

/-- `_validate_uuid`. -/
def validateUuid (value : Option Json) (label : String) : Result String :=
  match value with
  | some (.string text) => do
    require (canonicalUuid text.toList = true) s!"{label} is invalid"
    .ok text
  | _ => fail s!"{label} is invalid"

/-- What `sign_csr` takes from the response. -/
def savedCertificate (response : List (String × Json)) : Result String :=
  match response.lookup "result" with
  | some (.string "saved") => validateUuid (response.lookup "uuid") "OPNsense certificate UUID"
  | _ => fail "OPNsense did not save the signed certificate"

def maxCertificatePemBytes : Nat := 64 * 1024

/-- What `get_certificate` takes from the response. -/
def publicCertificate (response : List (String × Json)) : Result Bytes :=
  match response.lookup "status", response.lookup "payload" with
  | some (.string "ok"), some (.string payload) => do
    let payload := Text.strip payload.toList
    require (payload ≠ []) "OPNsense public certificate response is malformed"
    require (payload.all fun c => decide (c.toNat < 128)) "OPNsense public certificate response is not ASCII"
    require (payload.length + 1 ≤ maxCertificatePemBytes)
      "OPNsense public certificate payload exceeds the size limit"
    .ok (payload.map (fun c => .ofNat c.toNat) ++ [10])
  | _, _ => fail "OPNsense public certificate response is malformed"

end

end CertRenewer.Opnsense
