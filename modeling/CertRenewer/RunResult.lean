import CertRenewer.Protocol

/-!
# The structured result of a run

`run_result.py`: what one invocation of the worker reports of itself. The
identifier and the two times of a run, which nothing depends on, are left out.
-/

namespace CertRenewer.Worker

inductive Outcome where
  | successChanged
  | successNoChange
  | successPrepared
  | attentionDue
  | failurePreAttempt
  | failurePartial
  | failureAmbiguous
  deriving DecidableEq, Repr

/-- `_SEVERITY`. -/
def Outcome.severity : Outcome → Nat
  | .successNoChange => 0
  | .successPrepared => 1
  | .successChanged => 2
  | .attentionDue => 3
  | .failurePreAttempt => 4
  | .failurePartial => 5
  | .failureAmbiguous => 6

inductive Operation where
  | inspect
  | renewDue
  | renewNow
  | generateCsr
  | retrieveCsr
  | signCsr
  | install
  deriving DecidableEq, Repr

inductive Stage where
  | startup
  | configuration
  | lock
  | inspection
  | decision
  | preflight
  | csrGeneration
  | csrRetrieval
  | signing
  | issuedValidation
  | installation
  | activation
  | liveVerification
  | finalization
  | completed
  deriving DecidableEq, Repr

inductive Milestone where
  | notAttempted
  | confirmed
  | failed
  | uncertain
  | notApplicable
  deriving DecidableEq, Repr

inductive Change where
  | none
  | confirmed
  | possible
  deriving DecidableEq, Repr

inductive Reason where
  | configInvalid
  | lockBusy
  | lockFailed
  | pendingState
  | inspectionFailed
  | csrFailed
  | signingFailed
  | validationFailed
  | installationFailed
  | verificationFailed
  | recoveryRequired
  | unexpectedFailure
  deriving DecidableEq, Repr

/-- `_FAILURE_REASONS`, or `unexpected_failure`. -/
def Stage.failureReason : Stage → Reason
  | .configuration => .configInvalid
  | .lock => .lockFailed
  | .inspection => .inspectionFailed
  | .decision => .validationFailed
  | .preflight => .validationFailed
  | .csrGeneration => .csrFailed
  | .csrRetrieval => .csrFailed
  | .signing => .signingFailed
  | .issuedValidation => .validationFailed
  | .installation => .installationFailed
  | .activation => .verificationFailed
  | .liveVerification => .verificationFailed
  | .finalization => .recoveryRequired
  | .startup => .unexpectedFailure
  | .completed => .unexpectedFailure

/-- `MILESTONE_NAMES`. -/
inductive MilestoneName where
  | csr
  | issuance
  | installation
  | activation
  | liveTls
  deriving DecidableEq, Repr

def milestoneNames : List MilestoneName := [.csr, .issuance, .installation, .activation, .liveTls]

/-- The fingerprint and the day of expiry. -/
structure CertificateSummary where
  fingerprintSha256 : Sha256
  expiryDay : Int
  deriving DecidableEq, Repr

def summarise (info : CertificateInfo) : CertificateSummary :=
  ⟨info.certificateSha256, info.notValidAfter / microsecondsPerDay⟩

structure TargetResult where
  outcome : Outcome := .failurePreAttempt
  stage : Stage := .startup
  renewalDue : Option Bool := none
  change : Change := .none
  manualRecoveryRequired : Bool := false
  reasonCode : Option Reason := none
  message : String := "Operation has not completed."
  certificate : Option CertificateSummary := none
  milestones : MilestoneName → Milestone := fun _ => .notAttempted

structure RunResult where
  operation : Operation
  outcome : Outcome := .failurePreAttempt
  stage : Stage := .startup
  manualRecoveryRequired : Bool := false
  reasonCode : Option Reason := none
  message : String := "Operation has not completed."
  results : List TargetResult := []

/-- `max` by severity keeps the first of equals. -/
def mostSevere (first : TargetResult) : List TargetResult → TargetResult
  | [] => first
  | next :: rest =>
    mostSevere (if first.outcome.severity < next.outcome.severity then next else first) rest

def RunResult.finish (run : RunResult) : RunResult :=
  match run.results with
  | [] => run
  | first :: rest =>
    let chosen := mostSevere first rest
    { run with
      outcome := chosen.outcome
      stage := if Outcome.attentionDue.severity ≤ chosen.outcome.severity then chosen.stage else .completed
      reasonCode := chosen.reasonCode
      message := chosen.message
      manualRecoveryRequired :=
        run.manualRecoveryRequired || run.results.any TargetResult.manualRecoveryRequired }

/-- Progress the worker observed. Its one target is appended to its run. -/
structure RunEvidence where
  operation : Operation
  target : TargetResult := {}
  stage : Stage := .startup
  certificate : Option CertificateInfo := none

def TargetResult.mark (target : TargetResult) (name : MilestoneName) (value : Milestone) : TargetResult :=
  { target with milestones := Function.update target.milestones name value }

namespace RunEvidence

def confirm (e : RunEvidence) (name : MilestoneName) : RunEvidence :=
  let target := e.target.mark name .confirmed
  { e with target := if name = .issuance then { target with change := .confirmed } else target }

def signingDispatch (e : RunEvidence) : RunEvidence :=
  { e with target := { e.target.mark .issuance .uncertain with change := .possible } }

def executorDispatch (e : RunEvidence) : OperationName → RunEvidence
  | .install => { e with target := e.target.mark .installation .uncertain }
  | .verifyPending => { e with target := (e.target.mark .activation .uncertain).mark .liveTls .uncertain }
  | _ => e

def success (e : RunEvidence) (outcome : Outcome) (message : String) (renewalDue : Option Bool) : RunEvidence :=
  { e with target := { e.target with
      outcome := outcome
      stage := if outcome = .attentionDue then e.stage else .completed
      renewalDue := renewalDue
      reasonCode := none
      message := message
      certificate := (e.certificate.map summarise).or e.target.certificate } }

def isUncertain (e : RunEvidence) : Bool :=
  milestoneNames.any fun name => decide (e.target.milestones name = .uncertain)

def failure (e : RunEvidence) (reason : Option Reason) : RunEvidence :=
  let outcome :=
    if e.isUncertain then .failureAmbiguous
    else if e.target.change = .confirmed then .failurePartial
    else .failurePreAttempt
  let target := { e.target with
    stage := e.stage
    reasonCode := some (reason.getD e.stage.failureReason)
    outcome := outcome
    manualRecoveryRequired := decide (e.target.change ≠ .none) || e.isUncertain
    message := "Renewer stopped; inspect the current state before retry."
    certificate := (e.certificate.map summarise).or e.target.certificate }
  { e with target := if e.stage = .csrGeneration then target.mark .csr .failed else target }

/-- `finish`, before it is written as JSON. -/
def finish (e : RunEvidence) : RunResult :=
  RunResult.finish { operation := e.operation, results := [e.target] }

end RunEvidence

end CertRenewer.Worker
