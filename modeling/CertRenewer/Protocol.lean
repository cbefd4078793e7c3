import CertRenewer.Json
import CertRenewer.Normalizer

/-!
# The executor's protocol

`unifi_executor_service.py`: what the executor makes of a message. A message is
the JSON value its bytes decode to, or nothing when they do not decode; its
fields are whatever the client chose. Every refusal of a message is the
`ValueError` of the source, an `Error.operation` here.
-/

namespace CertRenewer

open Crash

def protocolVersion : Int := 2
def maxKeytoolOutputChars : Nat := 1024 * 1024

inductive OperationName where
  | inspect
  | generateCsr
  | install
  | recover
  | verifyPending
  deriving DecidableEq, Repr

/-- `_OPERATIONS`. -/
def OperationName.parse : String → Option OperationName
  | "inspect" => some .inspect
  | "generate_csr" => some .generateCsr
  | "install" => some .install
  | "recover" => some .recover
  | "verify_pending" => some .verifyPending
  | _ => none

def valueError : String := "ValueError"

/-- `_exact_dict`, then the named fields in order. A decoded object has no two
fields of one name. -/
def exactDict (value : Json) (names : List String) : Result (List Json) :=
  match value with
  | .object fields => do
    require (sameSet (fields.map Prod.fst) names) valueError
    names.mapM fun name => orFail (fields.lookup name) valueError
  | _ => fail valueError

/-! ## Base64 and digests -/

def base64Alphabet : List Char :=
  "ABCDEFGHIJKLMNOPQRSTUVWXYZabcdefghijklmnopqrstuvwxyz0123456789+/".toList

def base64Value (c : Char) : Option Nat := base64Alphabet.idxOf? c

/-- `base64.b64decode(value, validate=True)`. -/
def b64decode : List Char → Option Bytes
  | [] => some []
  | [a, b, '=', '='] => do
    let n := (← base64Value a) * 64 + (← base64Value b)
    some [.ofNat (n / 16)]
  | [a, b, c, '='] => do
    let n := ((← base64Value a) * 64 + (← base64Value b)) * 64 + (← base64Value c)
    some [.ofNat (n / 1024), .ofNat (n / 4)]
  | a :: b :: c :: d :: rest => do
    let n := (((← base64Value a) * 64 + (← base64Value b)) * 64 + (← base64Value c)) * 64 +
      (← base64Value d)
    let tail ← b64decode rest
    some (.ofNat (n / 65536) :: .ofNat (n / 256) :: .ofNat n :: tail)
  | _ => none

/-- `_binary`. -/
def binary (value : Json) (maximum : Nat) : Result Bytes :=
  match value with
  | .string text => do
    require (text.toList.length ≤ (maximum + 2) / 3 * 4) valueError
    let result ← orFail (b64decode text.toList) valueError
    require (result.length ≤ maximum) valueError
    .ok result
  | _ => fail valueError

def hexDigits : List Char := "0123456789abcdef".toList

/-- The 64 lower-case digits of a digest. -/
def Sha256.hex (d : Sha256) : List Char :=
  (List.range 64).map fun i => (hexDigits[d.toNat / 16 ^ (63 - i) % 16]?).getD '0'

/-- `[0-9a-fA-F]{64}`. -/
def fingerprint (text : String) : Fingerprint := do
  let digits ← text.toList.mapM fun c => hexDigits.idxOf? c.toLower
  if digits.length = 64 then some (.ofNat 256 (digits.foldl (fun n d => n * 16 + d) 0)) else none

section
variable (x : Session)

/-! ## Requests -/

def decodeState (value : Json) : Result PublicKeystoreState := do
  match ← exactDict value ["keytool_output", "certificate_chain_der"] with
  | [.string output, .array chain] =>
    require (output.toList.length ≤ maxKeytoolOutputChars) valueError
    require (1 ≤ chain.length ∧ chain.length ≤ 10) valueError
    let chain ← chain.mapM fun item => binary item maxCertificateDerBytes
    let state : PublicKeystoreState := ⟨output, chain⟩
    let _ ← inspectPublicKeystoreState x.host.lib state
    .ok state
  | _ => fail valueError

/-- `_decode_import_request` up to its first validation: what a message can
supply is the old state, the signing request and the issued certificate. -/
def rebuildRequest (fields : List Json) (freshness : Time) : Result CertificateImportRequest := do
  match fields with
  | [before, csrPem, issued] =>
    let before ← decodeState x before
    let inspection ← inspectPublicKeystoreState x.host.lib before
    let policy ← x.policy.certificatePolicy (some inspection.certificate.spkiSha256)
    let csrPem ← binary csrPem maxKeytoolOutputChars
    let issued ← binary issued maxCertificateDerBytes
    .ok {
      before := before
      policy := policy
      csrPem := csrPem
      issuedCertificate := issued
      issuance := {
        trustedCaData := x.policy.caPem
        lifetimeDays := x.policy.lifetimeDays
        expectedSignatureHash := x.policy.signingDigest
        expectedSignatureOid := x.policy.issuedSignatureOid
        freshnessReferenceTime := freshness } }
  | _ => fail valueError

/-- `_current_time` of the service. -/
def stampFreshness : Exec Time := primitive x do
  let w ← Prog.read id
  let time := x.oracle.clock w.tick
  emit (.stamped time)
  pure time

def decodeImportRequest (value : Json) : Exec CertificateImportRequest := do
  let fields ← lift (exactDict value ["before", "csr_pem", "issued_certificate"])
  let freshness ← stampFreshness x
  let request ← lift (rebuildRequest x fields freshness)
  let plan ← lift (prepareCertificateImport x.host.lib request (← clock x))
  let csrInfo ← lift (inspectCsr x.host.lib request.csrPem)
  demand (csrInfo.signatureHashAlgorithm = some .sha384 ∧
      csrInfo.signatureAlgorithmOid = [1, 2, 840, 113549, 1, 1, 12] ∧
      plan.issued.signatureHashAlgorithm = some x.policy.signingDigest ∧
      plan.issued.signatureAlgorithmOid = x.policy.issuedSignatureOid)
    valueError
  pure request

def decodeEnvelope (value : Json) : Result (OperationName × Json) := do
  match ← exactDict value ["version", "operation", "arguments"] with
  | [.int version, .string operation, .object arguments] =>
    require (version = protocolVersion) valueError
    let operation ← orFail (OperationName.parse operation) valueError
    .ok (operation, .object arguments)
  | _ => fail valueError

/-- `_require_digest`. -/
def requireDigest (value : Json) : Result Unit :=
  match value with
  | .string text => require (text.toList = x.policy.digest.hex) valueError
  | _ => fail valueError

/-! ## Dispatch -/

/-- The `result` of a successful response. -/
inductive Reply where
  | state (state : PublicKeystoreState)
  | csrPem (pem : Bytes)
  | outcome (outcome : RecoveryOutcome)
  deriving DecidableEq, Repr

/-- `_encode_state` inspects what it encodes. -/
def encodeState (state : PublicKeystoreState) : Result Reply := do
  let _ ← inspectPublicKeystoreState x.host.lib state
  .ok (.state state)

/-- `_inspection_state`. -/
def inspectionState (inspection : UnifiCertificateInspection) (chain : List Bytes) :
    Result PublicKeystoreState := do
  let store := inspection.keystore
  let entry := inspection.aliasMetadata
  let output := s!"Keystore type: {store.keystoreType}\nKeystore provider: {store.provider}\nAlias name: {entry.aliasName}\nEntry type: {entry.entryType}\nCertificate chain length: {entry.certificateChainLength}\n"
  let state : PublicKeystoreState := ⟨output, chain⟩
  let _ ← inspectPublicKeystoreState x.host.lib state
  .ok state

def serveInspect (arguments : Json) : Exec Reply := do
  let _ ← lift (exactDict arguments [])
  let state ← inspectPublicState x
  lift (encodeState x state)

def serveGenerateCsr (arguments : Json) : Exec Reply := do
  match ← lift (exactDict arguments ["policy_digest", "expected_spki_sha256"]) with
  | [digest, spki] =>
    lift (requireDigest x digest)
    let spki := match spki with
      | .string text => fingerprint text
      | _ => none
    let policy ← lift (x.policy.certificatePolicy spki)
    let csr ← generateCsr x policy
    pure (.csrPem csr)
  | _ => refuse valueError

def serveInstall (arguments : Json) : Exec Reply := do
  match ← lift (exactDict arguments ["policy_digest", "request"]) with
  | [digest, request] =>
    lift (requireDigest x digest)
    let request ← decodeImportRequest x request
    let inspection ← installCertificate x request
    let plan ← lift (prepareCertificateImport x.host.lib request (← clock x))
    let after ← lift (inspectionState x inspection plan.certificateChainDer)
    lift (encodeState x after)
  | _ => refuse valueError

def serveRecover (arguments : Json) : Exec Reply := do
  let _ ← lift (exactDict arguments [])
  let outcome ← recover x false
  pure (.outcome outcome)

def serveVerifyPending (arguments : Json) : Exec Reply := do
  let _ ← lift (exactDict arguments [])
  let outcome ← verifyPending x
  demand (outcome = .renewalFinalized) valueError
  pure (.outcome outcome)

def dispatch (message : Json) : Exec Reply := do
  let (operation, arguments) ← lift (decodeEnvelope message)
  match operation with
  | .inspect => serveInspect x arguments
  | .generateCsr => serveGenerateCsr x arguments
  | .install => serveInstall x arguments
  | .recover => serveRecover x arguments
  | .verifyPending => serveVerifyPending x arguments

/-- What the executor answers: a result, or the one fixed error. -/
inductive Response where
  | ok (result : Reply)
  | failed
  deriving DecidableEq, Repr

/-- `handle`, up to the write of the response: a client that is gone by then
changes nothing. `none` is a message that could not be read. -/
def handle (message : Option Json) : Exec Response :=
  Prog.handle
    (do
      match message with
      | none => refuse valueError
      | some value =>
        let reply ← dispatch x value
        pure (.ok reply))
    (fun _ => pure .failed)

end

end CertRenewer
