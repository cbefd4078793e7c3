import CertRenewer.Opnsense
import CertRenewer.RunResult

/-!
# The worker

`production_renewer.py` with `unifi_cert_renewer.py` and the socket client of
`unifi_executor_client.py`, as `main --output json` runs them: one invocation
with its evidence. The two peers, the configuration, the lock and the clock may
answer in any way at any call.
-/

namespace CertRenewer.Worker

open Opnsense

/-- What becomes of a request: it fails before it is sent, after it is sent, or
a response is read. -/
inductive Turn where
  | refused
  | lost
  | answered (value : Json)

inductive LockTurn where
  | acquired
  | busy
  | unavailable
  deriving DecidableEq, Repr

/-- Everything outside the worker. The calls of a run are numbered. -/
structure Peers where
  lib : Library
  lock : LockTurn
  /-- `load_policy`: the executor's policy and the description of its CA. -/
  authority : Option (RenewalPolicy × String)
  /-- The JSON value of the configuration file. -/
  configuration : Option Json
  /-- The fields of `opnsense` that only the connection reads. -/
  connectable : Json → Bool
  /-- Whether `OPNsenseClient` could be constructed. -/
  opnsenseClient : Bool
  clock : Nat → Time
  executor : Nat → Turn
  opnsense : Nat → Turn

/-- What happened, as far as the peers are concerned. -/
inductive Act where
  | signingDispatched
  | saved
  | installDispatched
  | installed
  | verifyDispatched
  | finalized
  deriving DecidableEq, Repr

inductive Fault where
  | check (e : Error)
  | stopped (message : String)
  | remainsInRenewalWindow
  | masked (message : String) (cause : Fault)
  deriving DecidableEq, Repr

/-- One invocation: its evidence, what happened so far, and the state of the
socket client. -/
structure Progress where
  calls : Nat
  evidence : RunEvidence
  trace : List Act
  exclusive : Bool
  installed : Option PublicKeystoreState
  installStage : InstallStage

abbrev Work := Crash.Prog Progress Fault

def record (f : RunEvidence → RunEvidence) : Work Unit :=
  Crash.Prog.update fun s => { s with evidence := f s.evidence }

def setStage (stage : Stage) : Work Unit := record fun e => { e with stage := stage }

def note (act : Act) : Work Unit := Crash.Prog.update fun s => { s with trace := s.trace ++ [act] }

def check {α : Type} (r : Result α) : Work α :=
  match r with
  | .ok a => pure a
  | .error e => Crash.Prog.raise (.check e)

def stop {α : Type} (message : String) : Work α := Crash.Prog.raise (.stopped message)

def insist (p : Prop) [Decidable p] (message : String) : Work Unit :=
  if p then pure () else stop message

/-- `except Exception: raise … from None`. -/
def during {α : Type} (message : String) (m : Work α) : Work α :=
  Crash.Prog.handle m fun cause => Crash.Prog.raise (.masked message cause)

section
variable (p : Peers)

/-- The number of the next call. -/
def nextCall : Work Nat := do
  let n ← Crash.Prog.read Progress.calls
  Crash.Prog.update fun s => { s with calls := n + 1 }
  pure n

def currentTime : Work Time := do
  let n ← nextCall
  pure (p.clock n)

def clocks : Work Clock := do
  let ca ← currentTime p
  let leaf ← currentTime p
  pure ⟨ca, leaf⟩

/-! ## The executor client -/

/-- `_decode_response`. -/
def decodeResponse (response : Json) : Result Json := do
  match ← exactDict response ["version", "ok", "result"] with
  | [.int version, .bool true, result] =>
    require (version = protocolVersion) valueError
    .ok result
  | _ => fail valueError

/-- The hook runs when the frame is complete, right before it is sent. -/
def dispatched : OperationName → Work Unit
  | .install => do
    record fun e => e.executorDispatch .install
    note .installDispatched
  | .verifyPending => do
    record fun e => e.executorDispatch .verifyPending
    note .verifyDispatched
  | _ => pure ()

/-- `_call`. -/
def call (operation : OperationName) : Work Json :=
  during "UniFi executor request failed" do
    let n ← nextCall
    match p.executor n with
    | .refused => stop "not sent"
    | .lost => do
      dispatched operation
      stop "no response"
    | .answered response => do
      dispatched operation
      check (decodeResponse response)

/-- `_decode_state` of the client. -/
def decodeState (value : Json) : Result PublicKeystoreState := do
  match ← exactDict value ["keytool_output", "certificate_chain_der"] with
  | [.string output, .array chain] =>
    require (output.toList.length ≤ maxKeytoolOutputChars) valueError
    require (1 ≤ chain.length ∧ chain.length ≤ 10) valueError
    let chain ← chain.mapM fun item => binary item maxCertificateDerBytes
    let state : PublicKeystoreState := ⟨output, chain⟩
    let _ ← inspectPublicKeystoreState p.lib state
    .ok state
  | _ => fail valueError

/-- A response with one field. -/
def only (field : String) (value : Json) : Result Json := do
  match ← exactDict value [field] with
  | [value] => .ok value
  | _ => fail valueError

def boundaryInspect : Work PublicKeystoreState := do
  let s ← Crash.Prog.read id
  match s.exclusive, s.installed with
  | true, some state => pure state
  | _, _ =>
    let result ← call p .inspect
    check (only "state" result >>= decodeState p)

def boundaryGenerateCsr : Work Bytes := do
  let result ← call p .generateCsr
  check (only "csr_pem" result >>= fun pem => binary pem maxKeytoolOutputChars)

/-- `import_certificate_reply`. -/
def boundaryImport (request : CertificateImportRequest) (expectedBefore : PublicKeystoreState) : Work Unit := do
  let s ← Crash.Prog.read id
  insist (s.exclusive = true ∧ s.installed = none) "exclusive executor client context required"
  insist (request.before = expectedBefore) "stale public import request"
  let _ ← check (inspectPublicKeystoreState p.lib request.before)
  let result ← call p .install
  let state ← check (only "state" result >>= decodeState p)
  Crash.Prog.update fun s => { s with installed := some state }

def boundaryVerifyPending : Work Unit := do
  let result ← call p .verifyPending
  match ← check (only "outcome" result) with
  | .string "renewal_finalized" => pure ()
  | _ => stop "unexpected executor verification result"

/-- `exclusive` of the client: nothing is locked by it. -/
def exclusively {α : Type} (m : Work α) : Work α := do
  let s ← Crash.Prog.read id
  insist (s.exclusive = false) "executor client already active"
  Crash.Prog.update fun s => { s with exclusive := true, installed := none }
  Crash.Prog.ensure m (Crash.Prog.update fun s => { s with exclusive := false, installed := none })

/-! ## `UnifiClient` in the worker -/

def setInstallStage (stage : InstallStage) : Work Unit :=
  Crash.Prog.update fun s => { s with installStage := stage }

def inspectCurrent (policy : CertificatePolicy) : Work PublicKeystoreState :=
  during "UniFi public inspection failed" do
    let _ ← check (buildUnifiCsrCommand p.lib policy)
    let state ← boundaryInspect p
    let inspection ← check (inspectPublicKeystoreState p.lib state)
    insist (policy.expectedSpkiSha256 = some inspection.certificate.spkiSha256)
      "current public key differs from expected"
    pure state

def requestCsr (policy : CertificatePolicy) : Work Bytes :=
  during "UniFi CSR generation or validation failed" do
    let _ ← check (buildUnifiCsrCommand p.lib policy)
    let csrPem ← boundaryGenerateCsr p
    let _ ← check (validateRequestedCsr p.lib csrPem policy)
    pure csrPem

def installCertificate (request : CertificateImportRequest) : Work UnifiCertificateInspection :=
  Crash.Prog.handle
    (do
      setInstallStage .preImport
      let result ← exclusively do
        let _ ← check (prepareCertificateImport p.lib request (← clocks p))
        let current ← boundaryInspect p
        let oldInfo ← check (inspectPublicKeystoreState p.lib request.before)
        let currentInfo ← check (inspectPublicKeystoreState p.lib current)
        insist (currentInfo = oldInfo ∧ current.certificateChainDer = request.before.certificateChainDer)
          "public keystore state changed before import"
        setInstallStage .import
        boundaryImport p request current
        setInstallStage .postImport
        let after ← boundaryInspect p
        check (verifyCertificateImport p.lib after request (← clocks p))
      note .installed
      pure result)
    (fun cause => do
      let s ← Crash.Prog.read id
      Crash.Prog.raise (.masked s!"UniFi {s.installStage.text} failed" cause))

def verifyPending : Work Unit :=
  during "UniFi live-verification finalisation failed" do
    boundaryVerifyPending p
    note .finalized

/-! ## `OPNsenseClient` -/

/-- `_request_json`, with what is to be done before the transport. -/
def requestJson (beforeTransport : Work Unit) : Work (List (String × Json)) := do
  let n ← nextCall
  match p.opnsense n with
  | .refused => stop "not sent"
  | .lost => do
    beforeTransport
    stop "OPNsense API connection failed"
  | .answered (.object response) => do
    beforeTransport
    pure response
  | .answered _ => do
    beforeTransport
    stop "OPNsense API returned a non-object JSON response"

def resolveCa (description : String) : Work String := do
  check (validateSafeText p.lib description "OPNsense CA description" maxDescriptionChars)
  let response ← requestJson p (pure ())
  check (resolvedCa description response)

def signCsr (csrPem : Bytes) (csrInfo : CsrInfo) (expectedSpki : Fingerprint) (caref : String)
    (digest : Hash) (lifetimeDays : Int) (description : String) : Work String := do
  let _ ← check (signingPayload p.lib csrPem csrInfo expectedSpki caref digest lifetimeDays description)
  let response ← requestJson p do
    record RunEvidence.signingDispatch
    note .signingDispatched
  let certificate ← check (savedCertificate response)
  note .saved
  pure certificate

def getCertificate (certificateUuid : String) : Work Bytes := do
  let _ ← check (validateUuid (some (.string certificateUuid)) "Certificate UUID")
  let response ← requestJson p (pure ())
  check (publicCertificate response)

/-! ## The run -/

inductive Mode where
  | inspect
  | csr
  | prepare
  | install
  | renew
  deriving DecidableEq, Repr

def defaultRenewBeforeDays : Int := 30
def maxCertificateLifetimeDays : Int := 397

structure ProductionConfig where
  authority : RenewalPolicy
  issuingCaDescription : String
  policy : CertificatePolicy
  certificateDescription : String
  renewBeforeDays : Int
  deriving DecidableEq, Repr

/-- The field is optional, and an integer within the bounds of a lifetime. -/
def parseRenewBeforeDays : Option Json → Result Int
  | none => .ok defaultRenewBeforeDays
  | some (.int days) => do
    require (1 ≤ days ∧ days ≤ maxCertificateLifetimeDays) "renewal policy is invalid"
    .ok days
  | some _ => fail "renewal policy is invalid"

/-- `_safe_text` of the configuration. -/
def parseDescription : Json → Result String
  | .string text => do
    require (text.toList ≠ [] ∧ text.toList.length ≤ 255) "certificate_description is invalid"
    require (!text.toList.any p.lib.unsafeCategory) "certificate_description is invalid"
    .ok text
  | _ => fail "certificate_description is invalid"

def requiredFields : List String := ["expected_spki_sha256", "opnsense", "certificate_description"]

/-- `_parse_config`. -/
def parseConfig (value : Json) (authority : RenewalPolicy) (issuingCaDescription : String) :
    Result ProductionConfig := do
  let fields ← match value with
    | .object fields => .ok fields
    | _ => fail "configuration fields are invalid"
  let names := fields.map Prod.fst
  require (requiredFields.all (· ∈ names) && names.all (· ∈ "renew_before_days" :: requiredFields))
    "configuration fields are invalid"
  let policy ← authority.certificatePolicy
    (match fields.lookup "expected_spki_sha256" with
      | some (.string text) => fingerprint text
      | _ => none)
  let _ ← exactDict ((fields.lookup "opnsense").getD .null) ["base_url", "timeout_seconds", "tls_ca_name"]
  require (p.connectable ((fields.lookup "opnsense").getD .null)) "opnsense is invalid"
  let renewBeforeDays ← parseRenewBeforeDays (fields.lookup "renew_before_days")
  let certificateDescription ← parseDescription p ((fields.lookup "certificate_description").getD .null)
  .ok ⟨authority, issuingCaDescription, policy, certificateDescription, renewBeforeDays⟩

def loadProductionConfig : Result ProductionConfig := do
  let value ← orFail p.configuration "Renewer configuration could not be read safely"
  require value.distinct "Renewer configuration is invalid JSON"
  let (authority, issuingCaDescription) ← orFail p.authority "invalid policy"
  parseConfig p value authority issuingCaDescription

/-- `_ISSUED_SIGNATURE_OIDS`. -/
def issuedSignatureOid : KeyAlgorithm → Hash → Option Oid
  | .rsa, .sha256 => some [1, 2, 840, 113549, 1, 1, 11]
  | .rsa, .sha384 => some [1, 2, 840, 113549, 1, 1, 12]
  | .rsa, .sha512 => some [1, 2, 840, 113549, 1, 1, 13]
  | .ec, .sha256 => some [1, 2, 840, 10045, 4, 3, 2]
  | .ec, .sha384 => some [1, 2, 840, 10045, 4, 3, 3]
  | .ec, .sha512 => some [1, 2, 840, 10045, 4, 3, 4]
  | _, _ => none

def validateIssuedSignaturePolicy (trustedCaData : Bytes) (signingDigest : Hash) (issuedOid : Oid)
    (now : Time) : Result Bytes := do
  let caPem := (← validateInstallationCa p.lib trustedCaData now).pem
  match p.lib.loadPem caPem with
  | some (ca :: _) =>
    let (algorithm, _) ← orFail ca.publicKey "unsupported issuing CA public key"
    require (algorithm = .rsa ∨ algorithm = .ec) "unsupported issuing CA public key"
    let expected ← orFail (issuedSignatureOid algorithm signingDigest) "invalid signing digest policy"
    require (issuedOid = expected) "invalid issued signature policy"
    .ok caPem
  | _ => fail "unsupported issuing CA public key"

/-- `_renewal_is_due`. -/
def renewalIsDue (certificate : CertificateInfo) (renewBeforeDays : Int) (now : Time) : Bool :=
  decide (certificate.notValidAfter ≤ now + renewBeforeDays * microsecondsPerDay)

/-- The check of `run_to_installation` on what was issued. -/
def remainsInWindow (issued : CertificateInfo) (minimumRemainingDays : Option Int) (validationTime : Time) : Bool :=
  minimumRemainingDays.any fun days =>
    decide (issued.notValidAfter ≤ validationTime + days * microsecondsPerDay)

/-- The validations of a run before anything is asked of a peer. -/
def validateSettings (config : ProductionConfig) (minimumRemainingDays : Option Int) : Work Bytes :=
  during "Renewal stopped during configuration validation" do
    setStage .configuration
    insist (1 ≤ config.authority.lifetimeDays ∧ config.authority.lifetimeDays ≤ 397) "invalid signing policy"
    insist (minimumRemainingDays.all fun days => decide (1 ≤ days ∧ days ≤ 397))
      "invalid minimum remaining lifetime"
    let now ← currentTime p
    check (validateIssuedSignaturePolicy p config.authority.caPem config.authority.signingDigest
      config.authority.issuedSignatureOid now)

def obtainCsr (config : ProductionConfig) : Work (Bytes × CsrInfo) :=
  during "Renewal stopped during CSR generation and validation" do
    setStage .csrGeneration
    let csrPem ← requestCsr p config.policy
    let csrInfo ← check (validateRequestedCsr p.lib csrPem config.policy)
    record fun e => e.confirm .csr
    pure (csrPem, csrInfo)

def sign (config : ProductionConfig) (csrPem : Bytes) (csrInfo : CsrInfo) (caref : String) : Work String :=
  during "Renewal stopped during OPNsense signing; issuance may have occurred" do
    setStage .signing
    let certificate ← signCsr p csrPem csrInfo config.policy.expectedSpkiSha256 caref
      config.authority.signingDigest config.authority.lifetimeDays config.certificateDescription
    record fun e => e.confirm .issuance
    pure certificate

/-- The request is stamped, prepared, and must leave the renewal window. -/
def validateIssued (config : ProductionConfig) (minimumRemainingDays : Option Int)
    (before : PublicKeystoreState) (csrPem issued caPem : Bytes) :
    Work (CertificateImportRequest × CertificateImportPlan) :=
  during "Renewal stopped during issued certificate and installation validation" do
    let validationTime ← currentTime p
    let request : CertificateImportRequest := {
      before := before
      policy := config.policy
      csrPem := csrPem
      issuedCertificate := issued
      issuance := {
        trustedCaData := caPem
        lifetimeDays := config.authority.lifetimeDays
        expectedSignatureHash := config.authority.signingDigest
        expectedSignatureOid := config.authority.issuedSignatureOid
        freshnessReferenceTime := validationTime } }
    let plan ← check (prepareCertificateImport p.lib request (← clocks p))
    if remainsInWindow plan.issued minimumRemainingDays validationTime then
      Crash.Prog.raise .remainsInRenewalWindow
    else
      record fun e => { e with certificate := some plan.issued }
      pure (request, plan)

def installAndVerify (request : CertificateImportRequest) : Work Unit := do
  setStage .installation
  during "Renewal stopped during UniFi installation or verification; keystore may have changed" do
    let _ ← installCertificate p request
    record fun e => e.confirm .installation
  during "Renewal stopped during trusted live UniFi TLS verification" do
    setStage .liveVerification
    verifyPending p
    record fun e => e.confirm .activation
    record fun e => e.confirm .liveTls

def runToInstallation (config : ProductionConfig) (install : Bool) (minimumRemainingDays : Option Int) :
    Work (CertificateImportRequest × CertificateImportPlan) := do
  let caPem ← validateSettings p config minimumRemainingDays
  let before ← during "Renewal stopped during current UniFi inspection" do
    setStage .inspection
    inspectCurrent p config.policy
  let (csrPem, csrInfo) ← obtainCsr p config
  let caref ← during "Renewal stopped during OPNsense CA resolution" do
    setStage .preflight
    resolveCa p config.issuingCaDescription
  let certificate ← sign p config csrPem csrInfo caref
  let issued ← during "Renewal stopped during issued public certificate retrieval" do
    setStage .issuedValidation
    getCertificate p certificate
  let (request, plan) ← validateIssued p config minimumRemainingDays before csrPem issued caPem
  if install then
    installAndVerify p request
  pure (request, plan)

/-- What `run_one_shot` returns, as far as `main` looks at it. -/
inductive Ending where
  | busy
  | finished
  deriving DecidableEq, Repr

def runInspect (config : ProductionConfig) : Work Ending := do
  setStage .inspection
  let state ← inspectCurrent p config.policy
  let inspection ← check (inspectPublicKeystoreState p.lib state)
  record fun e => { e with certificate := some inspection.certificate }
  setStage .decision
  let now ← currentTime p
  let due := renewalIsDue inspection.certificate config.renewBeforeDays now
  record fun e => e.success (if due then .attentionDue else .successNoChange)
    (if due then "Certificate renewal attention is due." else "Certificate is outside the renewal window.")
    (some due)
  pure .finished

def runCsr (config : ProductionConfig) : Work Ending := do
  setStage .csrGeneration
  let csrPem ← requestCsr p config.policy
  let _ ← check (validateRequestedCsr p.lib csrPem config.policy)
  record fun e => e.confirm .csr
  record fun e => e.success .successPrepared "CSR validated." none
  pure .finished

/-- Whether a renewal is due; if not, the run has succeeded. -/
def decideRenewal (config : ProductionConfig) : Work Bool := do
  setStage .inspection
  let state ← inspectCurrent p config.policy
  let inspection ← check (inspectPublicKeystoreState p.lib state)
  setStage .decision
  record fun e => { e with certificate := some inspection.certificate }
  let now ← currentTime p
  let due := renewalIsDue inspection.certificate config.renewBeforeDays now
  if due then
    record fun e => { e with target := { e.target with renewalDue := some true }, certificate := none }
  else
    record fun e => e.success .successNoChange "Certificate is not due for renewal." (some false)
  pure due

/-- The rest of `_run_one_shot`: `prepare`, `install` and a renewal that is due. -/
def runRenewal (mode : Mode) (text : String) (config : ProductionConfig) : Work Ending := do
  let install := decide (mode = .install ∨ mode = .renew)
  setStage .configuration
  insist (p.opnsenseClient = true) "Renewer stopped during OPNsense client configuration"
  let _ ← during text (runToInstallation p config install
    (if mode = .renew then some config.renewBeforeDays else none))
  record fun e => e.success (if install then .successChanged else .successPrepared)
    (if install then "Certificate renewal verified by live HTTPS." else "Certificate issued and validated.")
    (if mode = .renew then some true else none)
  pure .finished

def Mode.text : Mode → String
  | .inspect => "Renewer stopped during inspect"
  | .csr => "Renewer stopped during csr"
  | .prepare => "Renewer stopped during prepare"
  | .install => "Renewer stopped during install"
  | .renew => "Renewer stopped during renew"

/-- `_run_one_shot`. -/
def runLocked (mode : Mode) : Work Ending := do
  setStage .configuration
  let config ← during "Renewer stopped during configuration validation" (check (loadProductionConfig p))
  insist (¬(mode = .renew ∧ config.authority.lifetimeDays ≤ config.renewBeforeDays))
    "Renewer stopped during configuration validation"
  match mode with
  | .inspect => during mode.text (runInspect p config)
  | .csr => during mode.text (runCsr p config)
  | .renew => do
    let due ← during mode.text (decideRenewal p config)
    if due then runRenewal p mode mode.text config else pure .finished
  | _ => runRenewal p mode mode.text config

/-- `run_one_shot`: the modes that change something run under the lifecycle lock. -/
def runOneShot (mode : Mode) : Work Ending :=
  match mode with
  | .inspect => runLocked p .inspect
  | .csr => runLocked p .csr
  | mode => do
    setStage .lock
    match p.lock with
    | .acquired => runLocked p mode
    | .busy => do
      record fun e => e.failure (some .lockBusy)
      pure .busy
    | .unavailable => stop "Renewer lifecycle lock unavailable"

def Mode.operation : Mode → Operation
  | .inspect => .inspect
  | .csr => .generateCsr
  | .prepare => .signCsr
  | .install => .install
  | .renew => .renewDue

def begin_ (mode : Mode) : Progress where
  calls := 0
  evidence := { operation := mode.operation }
  trace := []
  exclusive := false
  installed := none
  installStage := .preImport

/-- What `main --output json` prints and its exit code, with what happened. -/
structure Report where
  result : RunResult
  exitCode : Nat
  trace : List Act

/-- `main --output json`. -/
def main (mode : Mode) : Report :=
  match runOneShot p mode (begin_ mode) with
  | (.ok ending, s) => ⟨s.evidence.finish, if ending = .busy then 75 else 0, s.trace⟩
  | (_, s) => ⟨(s.evidence.failure none).finish, 1, s.trace⟩

end

end CertRenewer.Worker
