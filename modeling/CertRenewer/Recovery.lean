import CertRenewer.Executor

/-!
# Live verification and recovery

`verify_pending` and `recover` of `unifi_executor.py`: the two operations that
end a transaction another process began.
-/

namespace CertRenewer

open Crash

inductive RecoveryOutcome where
  | noActiveTransaction
  | recoveredOld
  | serviceResumedPendingLiveVerification
  | renewalFinalized
  deriving DecidableEq, Repr

section
variable (x : Session)

def requireCurrentPolicy : Exec Unit := do
  let j ← getJournal
  demand (j.policyDigest = x.policy.digest) "pending transaction policy differs from executor"

/-- The journal on disk becomes the one in memory. -/
def loadJournal : Exec Journal := do
  let j ← readJournal x
  lift j.validate
  setProcess fun p => { p with journal := some j }
  requireCurrentPolicy x
  pure j

/-- A journal can be read after its rename and before the entry is durable, so
reading it does not yet authorise a cleanup. -/
def establishLiveVerifiedDurability : Exec Unit := do
  let j ← getJournal
  demand (j.phase = .liveVerified) "transaction is not durably live verified"
  let info ← status x .journal
  syncFile x .journal
  same x .journal info
  syncDirectory x
  same x .journal info

def collectId (n : Name) : Exec PublicId := do
  let state ← collect x n
  lift (publicId x.host.lib state)

def validateLiveVerifiedFiles (rollbackOptional : Bool) : Exec Unit := do
  let j ← getJournal
  let canonical ← status x .canonical
  demand (canonical.nlink = 1) "pending canonical certificate changed"
  demand (some canonical.fileId = j.stageInode) "pending canonical certificate changed"
  let id ← collectId x .canonical
  demand (some id = j.issued) "pending canonical certificate changed"
  if ← exists_ x .rollback then
    let rollback ← status x .rollback
    demand (rollback.nlink = 1) "pending rollback changed"
    demand (rollback.fileId = j.oldInode) "pending rollback changed"
    let id ← collectId x .rollback
    demand (id = j.old) "pending rollback changed"
  else
    demand rollbackOptional "pending rollback is missing"
  demand (!(← exists_ x .stage)) "unexpected pending stage"
  demand (!(← exists_ x .journalNew)) "unexpected pending journal replacement"

/-- The rollback's removal is durable before the journal that allows it goes. -/
def finishLiveVerified : Exec Unit := do
  let j ← getJournal
  demand (j.phase = .liveVerified) "transaction is not durably live verified"
  remove x .rollback
  syncDirectory x
  remove x .journal
  syncDirectory x

/-- `verify_prepared_live_tls_certificate`: it succeeds when the endpoint
authenticated with exactly the expected leaf. -/
def verifyLiveTls (expectedLeafDer : Bytes) : Exec Unit := primitive x do
  let w ← Prog.read id
  Prog.guard (x.oracle.served w.tick = some expectedLeafDer) (.operation "live TLS verification failed")
  emit (.observed x.policy.digest expectedLeafDer)

def canonicalLeaf : Exec Bytes := do
  let state ← collect x .canonical
  lift (orFail state.certificateChainDer.head? "tuple index out of range")

/-- What `verify_pending` asks of the journal before it looks at anything else. -/
def loadPending : Exec Journal := do
  demand (← exists_ x .journal) "no pending transaction to verify"
  let j ← loadJournal x
  demand (j.phase = .serviceResumedPendingLiveVerification)
    "transaction is not pending live verification"
  demand (j.resume ∧ j.issued.isSome) "invalid pending transaction"
  pure j

def observeLive (j : Journal) : Exec Unit := do
  demand (← running x) "UniFi service is not running"
  validateLiveVerifiedFiles x false
  let canonical ← canonicalLeaf x
  demand (some (x.host.lib.sha256 canonical) = j.issued.bind fun id => id.chain.head?)
    "canonical leaf differs from pending transaction"
  primitive x (pure ())  -- prepare_live_tls_verification
  verifyLiveTls x canonical
  demand (← running x) "UniFi service is not running"
  validateLiveVerifiedFiles x false
  let again ← canonicalLeaf x
  demand (again = canonical) "canonical leaf changed during verification"

def verifyPending : Exec RecoveryOutcome := locked x do
  let j ← loadPending x
  observeLive x j
  phase x .liveVerified
  establishLiveVerifiedDurability x
  finishLiveVerified x
  pure .renewalFinalized

/-! ## Recovery -/

/-- The identity `recover` gives the canonical store: none when it cannot be
read. -/
def observeCanonical (info : Stat) : Exec (Option PublicId) := do
  let canonical ← Prog.handle (some <$> collectId x .canonical) (fun _ => pure none)
  same x .canonical info
  pure canonical

def checkRollback (j : Journal) (canonical : Stat) : Exec (Option Stat) := do
  if ← exists_ x .rollback then
    let info ← status x .rollback
    let again ← status x .rollback
    demand (again.fileId = j.oldInode) "unexpected rollback; operator recovery required"
    let id ← collectId x .rollback
    demand (id = j.old) "unexpected rollback; operator recovery required"
    pure (some info)
  else
    demand (¬(j.rollbackExpected ∧ canonical.fileId ≠ j.oldInode)) "required rollback missing"
    pure none

def restoreRollback (j : Journal) (rollback canonical : Stat) : Exec Unit := do
  stopped x
  same x .rollback rollback
  same x .canonical canonical
  replace x .rollback .canonical
  syncDirectory x
  let id ← collectId x .canonical
  demand (id = j.old) "rollback restoration failed"
  let info ← status x .canonical
  demand (info.fileId = j.oldInode) "rollback restoration failed"

def decideRecovery (j : Journal) : Exec RecoveryOutcome := do
  let info ← status x .canonical
  let canonical ← observeCanonical x info
  let rollback ← checkRollback x j info
  if canonical = some j.old ∧ info.fileId = j.oldInode then
    pure .recoveredOld
  else if j.commitPossible ∧ rollback.isSome ∧ canonical = j.issued ∧
      some info.fileId = j.stageInode then
    pure .serviceResumedPendingLiveVerification
  else match rollback with
    | some rollback =>
      demand (canonical = none ∧ j.commitPossible ∧
          (info.fileId = j.oldInode ∨ some info.fileId = j.stageInode))
        "unexpected canonical; operator recovery required"
      restoreRollback x j rollback info
      pure .recoveredOld
    | none => refuse "unexpected canonical; operator recovery required"

/-- The stage may be an incomplete write: its name and number are checked, its
bytes are not read. -/
def checkStage (j : Journal) : Exec Unit := do
  if ← exists_ x .stage then
    let staged ← status x .stage
    demand (¬(j.stageInode.isSome ∧ some staged.fileId ≠ j.stageInode)) "unexpected recovery stage"

def cleanUp : Exec Unit := do
  remove x .stage
  remove x .rollback
  remove x .journalNew
  syncDirectory x
  remove x .journal
  syncDirectory x

def RecoveryOutcome.journalPhase : RecoveryOutcome → Phase
  | .serviceResumedPendingLiveVerification => .serviceResumedPendingLiveVerification
  | _ => .recoveredOld

def recoverTransaction (j : Journal) (startup : Bool) : Exec RecoveryOutcome := do
  setProcess fun p => { p with expectStopped := true }
  stop x
  let outcome ← decideRecovery x j
  checkStage x j
  stopped x
  resumeService x startup
  phase x outcome.journalPhase
  if outcome = .recoveredOld then cleanUp x
  pure outcome

def recover (startup : Bool) : Exec RecoveryOutcome := locked x do
  if ← exists_ x .journal then
    let j ← loadJournal x
    if j.phase = .liveVerified then
      establishLiveVerifiedDurability x
      validateLiveVerifiedFiles x true
      finishLiveVerified x
      pure .renewalFinalized
    else
      recoverTransaction x j startup
  else
    noTransaction x
    syncDirectory x  -- completes an interrupted sync after the last unlink
    pure .noActiveTransaction

end

end CertRenewer
