import CertRenewer.Files

/-!
# The executor

`ProductionUnifiExecutor` of `unifi_executor.py`: the locked context, public
collection, the transaction that quiesces, stages and commits, and
`install_certificate` of `unifi_client.py`, which runs it. Each operation is a
new executor object.
-/

namespace CertRenewer

open Crash

section
variable (x : Session)

/-! ## The locked context -/

def acquire : Exec Unit := do
  primitive x (pure ())  -- the local identity is root's, with the reviewed abc user
  primitive x (pure ())  -- the data directory opens without links and is trusted
  if !(← exists_ x .lock) then
    let _ ← create x .lock
    syncDirectory x
  let i ← primitive x do
    let d ← Prog.read World.disk
    match d.dir.visible .lock with
    | none => Prog.raise .os
    | some i => pure i
  let expected ← status x .lock
  demand (i = expected.ino) "executor lock replaced"
  primitive x do
    let w ← Prog.read id
    Prog.guard (!w.held) .os
    emit .acquired
    setProcess fun p => { p with locked := true, expectStopped := false }
  noKeytool x

/-- The lock is only given up after a scan that finds no writer left. -/
def release : Exec Unit := do
  let p ← Prog.read World.process
  if p.locked then
    Prog.handle
      (do
        noKeytool x
        if p.expectStopped then stopped x)
      (fun _ => do
        Prog.update fun w => { w with held := true }
        refuse "writer survives; executor lock retained")
    emit .released
    setProcess fun p => { stage := p.stage }

def locked {α : Type} (body : Exec α) : Exec α :=
  Prog.ensure
    (mask "UniFi executor operation failed; recovery may be required" (do acquire x; body))
    (release x)

def assertLocked : Exec Unit := do
  let p ← Prog.read World.process
  demand p.locked "exclusive executor context required"

/-! ## Collection -/

def importEntry (n : Name) : Exec Unit := do
  let w ← Prog.read id
  match w.disk.dir.visible n with
  | none => Prog.raise .os
  | some i =>
    let result := x.oracle.imported w.tick
    fill i result.content result.size

/-- `_keytool`: a fixed command on a fixed name, with the password from the
local secret file. -/
def keytool (n : Name) (command : KeytoolCommand) : Exec Bytes := do
  assertLocked
  demand (n.isStore) "invalid keytool target"
  match command with
  | .importcert _ => demand (n = .stage) "canonical keytool mutation prohibited"
  | _ => pure ()
  primitive x (pure ())
  primitive x do
    emit (.keytool n command)
    match command with
    | .list => do
      let d ← Prog.read World.disk
      match d.inode n with
      | none => Prog.raise .os
      | some file =>
        match x.host.listing file.content with
        | none => Prog.raise .os
        | some output => pure output
    | .certreq _ _ => Prog.read fun w => x.oracle.csrOutput w.tick
    | .importcert _ => do
      importEntry x n
      pure []

def collect (n : Name) : Exec PublicKeystoreState := do
  assertLocked
  demand (n.isStore) "invalid collection target"
  let before ← status x n
  let data ← keytool x n .list
  same x n before
  lift (parseCollection x.host.lib data)

def noTransaction : Exec Unit :=
  [Name.journal, .journalNew, .stage, .rollback].forM fun n => do
    if ← exists_ x n then refuse "recovery required before another operation"

/-- `inspect_public_state`, inside or outside a transaction of this executor. -/
def inspectPublicState : Exec PublicKeystoreState := do
  let p ← Prog.read World.process
  if p.locked then collect x .canonical
  else locked x do
    noTransaction x
    collect x .canonical

def argumentAfter (option : String) (command : List String) : Option String :=
  command[command.idxOf option + 1]?

def generateCsr (policy : CertificatePolicy) : Exec Bytes := do
  let command ← lift (buildUnifiCsrCommand x.host.lib policy)
  demand ((policy.subject, policy.dnsSans, policy.ipSans) =
      (x.policy.subject, x.policy.dnsSans, x.policy.ipSans))
    "CSR policy differs from executor authority"
  locked x do
    noTransaction x
    let before ← status x .canonical
    let state ← collect x .canonical
    let id ← lift (publicId x.host.lib state)
    demand (some id.spki = policy.expectedSpkiSha256) "CSR baseline differs from current key"
    let dname ← lift (orFail (argumentAfter "-dname" command) "list index out of range")
    let ext ← lift (orFail (argumentAfter "-ext" command) "list index out of range")
    let result ← keytool x .canonical (.certreq dname ext)
    same x .canonical before
    let csrInfo ← lift (validateRequestedCsr x.host.lib result policy)
    demand (csrInfo.signatureHashAlgorithm = some .sha384 ∧
        csrInfo.signatureAlgorithmOid = [1, 2, 840, 113549, 1, 1, 12])
      "CSR signature differs from executor policy"
    pure result

/-! ## The transaction -/

def getJournal : Exec Journal := do
  let p ← Prog.read World.process
  match p.journal with
  | none => refuse "'NoneType' object is not subscriptable"
  | some j => pure j

/-- The in-memory journal moves first; then the new value is checked and
written. -/
def phase (p : Phase) (change : Journal → Journal := id) : Exec Unit := do
  let j ← getJournal
  let next := { change j with phase := p }
  setProcess fun process => { process with journal := some next }
  lift next.validate
  writeJournal x next

def resumeService (startup : Bool) : Exec Unit := do
  stopped x
  let before ← status x .canonical
  let seen ← lift (publicId x.host.lib (← collect x .canonical))
  let j ← getJournal
  if j.resume && !startup then
    start x
    setProcess fun p => { p with expectStopped := false }
  same x .canonical before
  let again ← lift (publicId x.host.lib (← collect x .canonical))
  demand (again = seen) "canonical changed while restoring service"

def clock : Exec Clock := do
  let ca ← primitive x (Prog.read fun w => x.oracle.clock w.tick)
  let leaf ← primitive x (Prog.read fun w => x.oracle.clock w.tick)
  pure ⟨ca, leaf⟩

/-- The head of `exclusive`, up to the first durable intent. It returns what
it proved of the canonical store. -/
def begin_ (expectedBefore : PublicKeystoreState) : Exec (Stat × PublicKeystoreState) := do
  noTransaction x
  let identity ← status x .canonical
  let before ← collect x .canonical
  same x .canonical identity
  demand ((← lift (samePublic x.host.lib before expectedBefore)) = true)
    "stale public import request"
  demand (identity.nlink = 1) "unexpected canonical hard link"
  let transaction ← Prog.read World.uuids
  Prog.update fun w => { w with uuids := w.uuids + 1 }
  let resume ← running x
  let old ← lift (publicId x.host.lib before)
  setProcess fun p => { p with
    journal := some {
      version := 2
      policyDigest := x.policy.digest
      transaction := transaction
      phase := .quiescing
      resume := resume
      old := old
      issued := none
      oldInode := identity.fileId
      stageInode := none
      rollbackExpected := false
      commitPossible := false } }
  phase x .quiescing
  pure (identity, before)

def quiesce (identity : Stat) (before : PublicKeystoreState) : Exec Unit := do
  setProcess fun p => { p with expectStopped := true }
  stop x
  same x .canonical identity
  let current ← collect x .canonical
  demand ((← lift (samePublic x.host.lib current before)) = true) "canonical changed while quiescing"
  phase x .quiesced

/-- The tail of `exclusive`, after its body returned. -/
def resumePending : Exec Unit := do
  stopped x
  let j ← getJournal
  demand (j.phase = .canonicalVerified) "transaction did not verify canonical"
  let id ← lift (publicId x.host.lib (← collect x .canonical))
  demand (some id = j.issued) "canonical changed before service resume"
  let info ← status x .canonical
  demand (some info.fileId = j.stageInode) "canonical changed before service resume"
  resumeService x false
  phase x .serviceResumedPendingLiveVerification

/-- No implicit rollback or retry: a failed transaction is journalled as such
and left to a separate recovery. -/
def exclusive {α : Type} (expectedBefore : PublicKeystoreState) (body : Exec α) : Exec α :=
  locked x do
    let (identity, before) ← begin_ x expectedBefore
    Prog.handle
      (do
        quiesce x identity before
        let result ← body
        resumePending x
        pure result)
      (fun e => do
        phase x .recoveryRequired
        Prog.raise e)

/-- The checks of `import_certificate_reply` against the executor's own policy. -/
def certificateMatchesPolicy (request : CertificateImportRequest) (csrInfo : CsrInfo)
    (plan : CertificateImportPlan) : Prop :=
  csrInfo.signatureHashAlgorithm = some .sha384 ∧
  csrInfo.signatureAlgorithmOid = [1, 2, 840, 113549, 1, 1, 12] ∧
  request.policy.subject = x.policy.subject ∧
  request.policy.dnsSans = x.policy.dnsSans ∧
  request.policy.ipSans = x.policy.ipSans ∧
  request.issuance.trustedCaData = x.policy.caPem ∧
  request.issuance.lifetimeDays = x.policy.lifetimeDays ∧
  request.issuance.expectedSignatureHash = x.policy.signingDigest ∧
  request.issuance.expectedSignatureOid = x.policy.issuedSignatureOid ∧
  plan.issued.signatureHashAlgorithm = some x.policy.signingDigest ∧
  plan.issued.signatureAlgorithmOid = x.policy.issuedSignatureOid

instance (request : CertificateImportRequest) (csrInfo : CsrInfo) (plan : CertificateImportPlan) :
    Decidable (certificateMatchesPolicy x request csrInfo plan) := by
  unfold certificateMatchesPolicy
  infer_instance

/-- What `import_certificate_reply` establishes before it changes anything. -/
structure Checked where
  plan : CertificateImportPlan
  current : PublicKeystoreState
  old : Stat
  issued : PublicId

def checkImport (request : CertificateImportRequest) (expectedBefore : PublicKeystoreState) :
    Exec Checked := do
  assertLocked
  let p ← Prog.read World.process
  demand (p.journal.map Journal.phase = some .quiesced) "new quiesced transaction required"
  let plan ← lift (prepareCertificateImport x.host.lib request (← clock x))
  let csrInfo ← lift (inspectCsr x.host.lib request.csrPem)
  demand (certificateMatchesPolicy x request csrInfo plan) "certificate differs from executor policy"
  stopped x
  let current ← collect x .canonical
  demand ((← lift (samePublic x.host.lib current request.before)) = true)
    "stale public import request"
  demand ((← lift (samePublic x.host.lib current expectedBefore)) = true)
    "stale public import request"
  let old ← status x .canonical
  let j ← getJournal
  let id ← lift (publicId x.host.lib current)
  demand (old.fileId = j.oldInode ∧ id = j.old) "canonical differs from journal"
  let issued : PublicId :=
    ⟨plan.issued.spkiSha256, plan.certificateChainDer.map x.host.lib.sha256⟩
  pure ⟨plan, current, old, issued⟩

/-- Copy the canonical store, import into the copy, and prove the copy. It
returns the copy's status before and after the import. -/
def stageImport (request : CertificateImportRequest) (c : Checked) : Exec (Stat × Stat) := do
  phase x .staging fun j => { j with issued := some c.issued }
  copyStage x
  let stage ← status x .stage
  phase x .staging fun j => { j with stageInode := some stage.fileId }
  let copied ← collect x .stage
  demand ((← lift (samePublic x.host.lib copied c.current)) = true) "stage differs before import"
  let _ ← keytool x .stage (.importcert c.plan.replyPem)
  let after ← status x .stage
  demand (after.fileId = stage.fileId) "stage inode replaced during import"
  let state ← collect x .stage
  let now ← clock x
  let _ ← lift (verifyCertificateImport x.host.lib state request now)
  emit (.stageVerified x.policy request now)
  let validated ← status x .stage
  syncFile x .stage
  phase x .stagedValidated
  pure (stage, validated)

/-- Keep the old store under a second name before the commit. -/
def retainRollback (c : Checked) : Exec Stat := do
  stopped x
  same x .canonical c.old
  let again ← collect x .canonical
  demand ((← lift (samePublic x.host.lib again c.current)) = true) "canonical changed during staging"
  same x .canonical c.old
  syncFile x .canonical
  linkRollback x
  let rollback ← status x .rollback
  demand (rollback.fileId = c.old.fileId) "rollback inode differs"
  syncDirectory x
  phase x .rollbackDurable fun j => { j with rollbackExpected := true }
  pure rollback

def commitStage (request : CertificateImportRequest) (rollback stage validated : Stat) :
    Exec Unit := do
  phase x .commitPossible fun j => { j with commitPossible := true }
  stopped x
  same x .canonical rollback
  same x .stage validated
  replace x .stage .canonical
  syncDirectory x
  phase x .committed
  let info ← status x .canonical
  demand (info.fileId = stage.fileId) "committed inode differs"
  let state ← collect x .canonical
  let _ ← lift (verifyCertificateImport x.host.lib state request (← clock x))
  phase x .canonicalVerified

def importCertificateReply (request : CertificateImportRequest)
    (expectedBefore : PublicKeystoreState) : Exec Unit := do
  let c ← checkImport x request expectedBefore
  let (stage, validated) ← stageImport x request c
  let rollback ← retainRollback x c
  commitStage x request rollback stage validated

/-- `UnifiClient.install_certificate`. -/
def installCertificate (request : CertificateImportRequest) : Exec UnifiCertificateInspection :=
  Prog.handle
    (exclusive x request.before do
      let _ ← lift (prepareCertificateImport x.host.lib request (← clock x))
      let current ← inspectPublicState x
      let oldInfo ← lift (inspectPublicKeystoreState x.host.lib request.before)
      let currentInfo ← lift (inspectPublicKeystoreState x.host.lib current)
      demand (currentInfo = oldInfo ∧
          current.certificateChainDer = request.before.certificateChainDer)
        "public keystore state changed before import"
      setProcess fun p => { p with stage := .import }
      importCertificateReply x request current
      setProcess fun p => { p with stage := .postImport }
      let after ← inspectPublicState x
      lift (verifyCertificateImport x.host.lib after request (← clock x)))
    (fun e => do
      let p ← Prog.read World.process
      Prog.raise (.masked s!"UniFi {p.stage.text} failed" e))

end

end CertRenewer
