import CertRenewer.Certificate

/-!
# Public keystore state and import preparation

`unifi_client.py`: the public state of a keystore, the identity a signing
request must have, and the one path that prepares and verifies an import.
-/

namespace CertRenewer

structure UnifiCertificateInspection where
  keystore : KeystoreMetadata
  aliasMetadata : AliasMetadata
  certificate : CertificateInfo
  deriving DecidableEq, Repr

/-- Public transaction inputs, revalidated every time installation is
attempted. -/
structure CertificateImportRequest where
  before : PublicKeystoreState
  policy : CertificatePolicy
  csrPem : Bytes
  issuedCertificate : Bytes
  issuance : IssuancePolicy
  deriving DecidableEq, Repr

structure CertificateImportPlan where
  replyPem : Bytes
  certificateChainDer : List Bytes
  issued : CertificateInfo
  deriving DecidableEq, Repr

/-- The executor-owned deployment policy. -/
structure RenewalPolicy where
  digest : Sha256
  subject : String
  dnsSans : List String
  ipSans : List String
  caPem : Bytes
  lifetimeDays : Int
  signingDigest : Hash
  issuedSignatureOid : Oid
  deriving DecidableEq, Repr

/-- `RenewalPolicy.certificate_policy`. -/
def RenewalPolicy.certificatePolicy (p : RenewalPolicy) (observedSpki : Fingerprint) :
    Result CertificatePolicy := do
  let value ← orFail observedSpki "invalid observed public key identity"
  .ok ⟨some value, p.subject, p.dnsSans, p.ipSans⟩

def maxPublicChainLength : Nat := 10
def maxAliasChars : Nat := 256
def maxKeystorePathChars : Nat := 4096
def maxSubjectDnChars : Nat := 4096
def maxDnsSanChars : Nat := 253
def maxIpSanChars : Nat := 64
def maxSanEntries : Nat := 100
def maxPasswordEnvNameChars : Nat := 128

def unifiAlias : String := "unifi"
def unifiKeystorePath : String := "/config/data/keystore"
def unifiPasswordEnvName : String := "UNIFI_KEYSTORE_PASSWORD"

section
variable (lib : Library)

/-! ## The signing request's command -/

/-- `_validate_bounded_text`. -/
def validateBoundedText (value label : String) (maximum : Nat) : Result Unit := do
  require (value.toList ≠ []) s!"{label} must not be empty"
  require (value.toList.length ≤ maximum) s!"{label} exceeds the size limit"
  require (!value.toList.any lib.unsafeCategory) s!"{label} contains control characters"

/-- `_validate_keystore_path`. -/
def validateKeystorePath (keystorePath : String) : Result Unit := do
  validateBoundedText lib keystorePath "keystore path" maxKeystorePathChars
  require (keystorePath.toList.head? = some '/') "keystore path must be an absolute POSIX path"
  require (['.', '.'] ∉ keystorePath.toList.splitOn '/')
    "keystore path must not contain parent traversal"

/-- `_validate_password_env_name`. -/
def validatePasswordEnvName (passwordEnvName : String) : Result Unit := do
  require (passwordEnvName.toList.length ≤ maxPasswordEnvNameChars)
    "password environment-variable name exceeds the size limit"
  match passwordEnvName.toList with
  | first :: rest =>
    require ((first.isAlpha || first == '_') && rest.all fun c => c.isAlphanum || c == '_')
      "password environment-variable name must be a POSIX identifier"
  | [] => fail "password environment-variable name must be a POSIX identifier"

/-- `_DNS_LABEL_RE`. -/
def dnsLabel (label : List Char) : Bool :=
  decide (label.length ≤ 63) && label.all (fun c => c.isAlphanum || c == '-') &&
    label.head?.any Char.isAlphanum && label.getLast?.any Char.isAlphanum

/-- `_validate_dns_sans`, after the names already seen. -/
def validateDnsSans : List (List Char) → List String → Result (List String)
  | _, [] => .ok []
  | seen, value :: rest => do
    validateBoundedText lib value "DNS SAN" maxDnsSanChars
    require (value.toList.all fun c => decide (c.toNat < 128)) "DNS SAN must be an ASCII DNS name"
    require ((value.toList.splitOn '.').all dnsLabel) "DNS SAN is not a valid DNS name"
    require (lower value ∉ seen) "duplicate DNS SAN is not allowed"
    let validated ← validateDnsSans (lower value :: seen) rest
    .ok (value :: validated)

/-- `_validate_ip_sans`, after the addresses already seen. -/
def validateIpSans : List String → List String → Result (List String)
  | _, [] => .ok []
  | seen, value :: rest => do
    validateBoundedText lib value "IP SAN" maxIpSanChars
    require ('%' ∉ value.toList) "IP SAN must not contain a scope identifier"
    let address ← orFail (lib.ipAddress value) "IP SAN is not a valid IP address"
    let canonical := lib.ipText address
    require (canonical ∉ seen) "duplicate IP SAN is not allowed"
    let validated ← validateIpSans (canonical :: seen) rest
    .ok (canonical :: validated)

/-- SANs in the caller's order, DNS names first. The password's variable is
named, its value is not. -/
def buildKeytoolCertreqCommand (keystoreAlias keystorePath passwordEnvName subject : String)
    (dnsSans ipSans : List String) : Result (List String) := do
  validateBoundedText lib keystoreAlias "alias" maxAliasChars
  validateKeystorePath lib keystorePath
  validateBoundedText lib subject "subject DN" maxSubjectDnChars
  validatePasswordEnvName passwordEnvName
  require (dnsSans.length ≤ maxSanEntries) "DNS SAN count exceeds the size limit"
  let dns ← validateDnsSans lib [] dnsSans
  require (ipSans.length ≤ maxSanEntries) "IP SAN count exceeds the size limit"
  let ip ← validateIpSans lib [] ipSans
  require (dns.length + ip.length ≤ maxSanEntries) "SAN count exceeds the size limit"
  require (¬(dns = [] ∧ ip = [])) "at least one DNS or IP SAN is required"
  let parts := dns.map (fun name => "DNS:" ++ name) ++ ip.map fun address => "IP:" ++ address
  .ok ["keytool", "-certreq", "-alias", keystoreAlias, "-keystore", keystorePath,
    "-storepass:env", passwordEnvName, "-keypass:env", passwordEnvName, "-dname", subject,
    "-ext", "SAN=" ++ String.intercalate "," parts, "-rfc"]

/-- The deployment target is fixed; the policy supplies the identity. -/
def buildUnifiCsrCommand (policy : CertificatePolicy) : Result (List String) := do
  let _ ← orFail policy.expectedSpkiSha256 "invalid expected SPKI SHA-256"
  let argv ← buildKeytoolCertreqCommand lib unifiAlias unifiKeystorePath unifiPasswordEnvName
    policy.subject policy.dnsSans policy.ipSans
  let _ ← orFail (lib.rfc4514 policy.subject) "invalid configured subject DN"
  .ok ("/usr/bin/keytool" :: argv.tail ++ ["-sigalg", "SHA384withRSA"])

/-! ## Public states -/

def inspectPublicKeystoreState (state : PublicKeystoreState) : Result UnifiCertificateInspection := do
  let chain := state.certificateChainDer
  require (1 ≤ chain.length ∧ chain.length ≤ maxPublicChainLength)
    "invalid public certificate chain length"
  chain.forM fun der => do
    require (der.length ≤ maxCertificateDerBytes) "invalid public certificate chain data"
    let _ ← inspectCertificate lib der
  let (keystore, aliasMetadata) ← lib.keytoolMetadata state.keytoolOutput
  let certificate ← inspectCertificate lib (chain.headD [])
  require (keystore = ⟨"PKCS12", "SUN"⟩) "unsupported UniFi keystore type or provider"
  require (aliasMetadata.certificateChainLength = chain.length)
    "public chain does not match keytool chain length"
  .ok ⟨keystore, aliasMetadata, certificate⟩

/-- `_parse_collection`: the scanned state is inspected before it is returned. -/
def parseCollection (data : Bytes) : Result PublicKeystoreState := do
  let state ← lib.scanCollection data
  let _ ← inspectPublicKeystoreState lib state
  .ok state

def validateRequestedCsr (csrPem : Bytes) (policy : CertificatePolicy) : Result CsrInfo := do
  let _ ← buildUnifiCsrCommand lib policy
  let info ← inspectCsr lib csrPem
  validateCsrSpki info policy.expectedSpkiSha256
  let expectedSubject ← orFail (lib.rfc4514 policy.subject) "invalid configured subject DN"
  require (info.subject = expectedSubject) "CSR subject differs from configured policy"
  let expectedIps ← policy.ipSans.mapM fun text => orFail (lib.ipAddress text) "invalid IP address"
  require (info.unsupportedSanTypes = [] ∧ info.dnsSans.length = policy.dnsSans.length ∧
      sameSet (info.dnsSans.map lower) (policy.dnsSans.map lower) ∧
      info.ipSans.length = policy.ipSans.length ∧
      sameSet info.ipSans (expectedIps.map lib.ipText))
    "CSR SANs differ from configured policy"
  require (info.publicKeyAlgorithm = .rsa ∧ ∃ n ∈ supportedRsaKeySizes, info.publicKeySize = some n)
    "CSR key is unsupported for signing"
  require (∃ h, info.signatureHashAlgorithm = some h ∧ h ∈ allowedSignatureHashes)
    "CSR signature hash is unsupported for signing"
  .ok info

def prepareCertificateImport (request : CertificateImportRequest) (now : Clock) :
    Result CertificateImportPlan := do
  let before ← inspectPublicKeystoreState lib request.before
  let csrInfo ← validateRequestedCsr lib request.csrPem request.policy
  validateCsrSpki csrInfo (some before.certificate.spkiSha256)
  let (issued, chain, reply) ← buildValidatedCertificateReply lib request.issuedCertificate csrInfo
    request.issuance now
  .ok ⟨reply, chain, issued⟩

def verifyCertificateImport (after : PublicKeystoreState) (request : CertificateImportRequest)
    (now : Clock) : Result UnifiCertificateInspection := do
  let plan ← prepareCertificateImport lib request now
  let inspection ← inspectPublicKeystoreState lib after
  require (inspection.certificate.spkiSha256 = plan.issued.spkiSha256)
    "post-import public key changed"
  require (inspection.certificate.certificateSha256 = plan.issued.certificateSha256)
    "post-import certificate fingerprint differs from issued"
  require (inspection.certificate = plan.issued)
    "post-import certificate metadata differs from issued"
  require (after.certificateChainDer = plan.certificateChainDer)
    "post-import public certificate chain differs from issued"
  .ok inspection

/-- `_same_public`. -/
def samePublic (first second : PublicKeystoreState) : Result Bool := do
  let a ← inspectPublicKeystoreState lib first
  let b ← inspectPublicKeystoreState lib second
  .ok (decide (a = b) && decide (first.certificateChainDer = second.certificateChainDer))

/-! ## What a prepared import promises -/

/-- A plan is a leaf with the key of the chain it replaces, over one CA. -/
theorem prepare_spec {request : CertificateImportRequest} {now : Clock} {plan : CertificateImportPlan}
    (h : prepareCertificateImport lib request now = .ok plan) :
    ∃ before csrInfo ca leaf, inspectPublicKeystoreState lib request.before = .ok before ∧
      validateRequestedCsr lib request.csrPem request.policy = .ok csrInfo ∧
      csrInfo.spkiSha256 = before.certificate.spkiSha256 ∧
      validateInstallationCa lib request.issuance.trustedCaData now.ca = .ok ca ∧
      validateIssuedCertificate lib request.issuedCertificate csrInfo
        { request.issuance with trustedCaData := ca.pem } now.leaf = .ok plan.issued ∧
      loadOneCertificate lib request.issuedCertificate maxIssuedCertificateBytes
        "issued certificate" = .ok leaf ∧
      ∃ caRead rest, lib.loadPem ca.pem = some (caRead :: rest) ∧
        plan.certificateChainDer = [leaf.der, caRead.der] := by
  simp only [prepareCertificateImport, bind_eq_ok] at h
  obtain ⟨before, hb, csrInfo, hc, _, hs, ⟨issued, chain, reply⟩, hr, hp⟩ := h
  obtain rfl : plan = ⟨reply, chain, issued⟩ := (Except.ok.inj hp).symm
  simp only [validateCsrSpki, bind_eq_ok, orFail_eq_ok, require_eq_ok, Option.some.injEq] at hs
  obtain ⟨_, rfl, hs⟩ := hs
  simp only [buildValidatedCertificateReply, bind_eq_ok, orFail_eq_ok] at hr
  obtain ⟨ca, hca, info, hi, leaf, hl, certificates, hpem, hr⟩ := hr
  cases certificates with
  | nil => simp [fail] at hr
  | cons caRead rest =>
    simp only [bind_eq_ok, require_eq_ok] at hr
    obtain ⟨_, _, hr⟩ := hr
    obtain ⟨rfl, rfl, rfl⟩ : info = issued ∧ [leaf.der, caRead.der] = chain ∧ _ := by
      simpa using hr
    exact ⟨before, csrInfo, ca, leaf, hb, hc, hs, hca, hi, hl, caRead, rest, hpem, rfl⟩

end

section
variable {lib : Library}

theorem validateInstallationCa_spec {data : Bytes} {now : Time} {ca : Certificate}
    (h : validateInstallationCa lib data now = .ok ca) :
    loadTrustCertificates lib data = .ok [ca] := by
  simp only [validateInstallationCa, bind_eq_ok] at h
  obtain ⟨certificates, loaded, h⟩ := h
  match certificates, h with
  | [only], h =>
    simp only [bind_eq_ok, require_eq_ok, Except.ok.injEq] at h
    obtain ⟨_, _, _, _, _, _, rfl⟩ := h
    exact loaded
  | [], h => simp [fail] at h
  | _ :: _ :: _, h => simp [fail] at h

theorem validateIssued_spec {data : Bytes} {csrInfo : CsrInfo} {p : IssuancePolicy} {now : Time}
    {info : CertificateInfo} (h : validateIssuedCertificate lib data csrInfo p now = .ok info) :
    ∃ leaf, loadOneCertificate lib data maxIssuedCertificateBytes "issued certificate" = .ok leaf ∧
      certificateInfo lib leaf = .ok info ∧ info.spkiSha256 = csrInfo.spkiSha256 := by
  simp only [validateIssuedCertificate, bind_eq_ok, require_eq_ok, Except.ok.injEq] at h
  obtain ⟨_, _, _, _, leaf, loaded, found, read, _, _, _, _, _, spki, h⟩ := h
  obtain ⟨_, _, _, _, _, _, _, _, _, _, _, _, _, _, rfl⟩ := h
  exact ⟨leaf, loaded, read, spki⟩

/-- The issued leaf keeps the key of the store it replaces. -/
theorem prepare_issued {r : CertificateImportRequest} {now : Clock} {plan : CertificateImportPlan}
    (h : prepareCertificateImport lib r now = .ok plan) :
    ∃ before, inspectPublicKeystoreState lib r.before = .ok before ∧
      plan.issued.spkiSha256 = before.certificate.spkiSha256 ∧ plan.certificateChainDer.length = 2 := by
  obtain ⟨before, csrInfo, ca, leaf, hb, _, same, _, hi, _, caRead, rest, _, chain⟩ :=
    prepare_spec lib h
  obtain ⟨_, _, _, spki⟩ := validateIssued_spec hi
  exact ⟨before, hb, spki.trans same, by rw [chain]; rfl⟩

/-- What is prepared does not depend on the clock. -/
theorem prepare_stable {r : CertificateImportRequest} {now later : Clock}
    {plan plan' : CertificateImportPlan} (h : prepareCertificateImport lib r now = .ok plan)
    (h' : prepareCertificateImport lib r later = .ok plan') :
    plan.issued = plan'.issued ∧ plan.certificateChainDer = plan'.certificateChainDer := by
  obtain ⟨_, _, ca, leaf, _, _, _, hca, hi, hl, caRead, _, hpem, chain⟩ := prepare_spec lib h
  obtain ⟨_, _, ca', leaf', _, _, _, hca', hi', hl', caRead', _, hpem', chain'⟩ := prepare_spec lib h'
  obtain ⟨found, loaded, info, _⟩ := validateIssued_spec hi
  obtain ⟨found', loaded', info', _⟩ := validateIssued_spec hi'
  cases (validateInstallationCa_spec hca).symm.trans (validateInstallationCa_spec hca')
  cases hl.symm.trans hl'
  cases loaded.symm.trans loaded'
  cases hpem.symm.trans hpem'
  refine ⟨Except.ok.inj (info.symm.trans info'), ?_⟩
  rw [chain, chain']

theorem verify_spec {state : PublicKeystoreState} {r : CertificateImportRequest} {now : Clock}
    {inspection : UnifiCertificateInspection}
    (h : verifyCertificateImport lib state r now = .ok inspection) :
    ∃ plan, prepareCertificateImport lib r now = .ok plan ∧
      inspectPublicKeystoreState lib state = .ok inspection ∧ inspection.certificate = plan.issued ∧
      state.certificateChainDer = plan.certificateChainDer := by
  simp only [verifyCertificateImport, bind_eq_ok, require_eq_ok, Except.ok.injEq] at h
  obtain ⟨plan, prepared, found, inspected, _, _, _, _, _, same, _, chain, rfl⟩ := h
  exact ⟨plan, prepared, inspected, same, chain⟩

theorem samePublic_spec {a b : PublicKeystoreState} (h : samePublic lib a b = .ok true) :
    ∃ i, inspectPublicKeystoreState lib a = .ok i ∧ inspectPublicKeystoreState lib b = .ok i ∧
      a.certificateChainDer = b.certificateChainDer := by
  simp only [samePublic, bind_eq_ok, Except.ok.injEq, Bool.and_eq_true, decide_eq_true_eq] at h
  obtain ⟨i, ha, _, hb, rfl, chain⟩ := h
  exact ⟨i, ha, hb, chain⟩

theorem inspect_length {state : PublicKeystoreState} {i : UnifiCertificateInspection}
    (h : inspectPublicKeystoreState lib state = .ok i) :
    1 ≤ state.certificateChainDer.length ∧ state.certificateChainDer.length ≤ 10 := by
  simp only [inspectPublicKeystoreState, bind_eq_ok, require_eq_ok] at h
  obtain ⟨_, length, _⟩ := h
  exact length

end

end CertRenewer
