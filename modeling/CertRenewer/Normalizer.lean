import CertRenewer.Recovery

/-!
# Startup normalisation

LinuxServer's init gives all of appdata to the UniFi user, the executor's own
files included. `secure_after_linuxserver_init` gives those back to root, once
it has proved that what it finds is a state the executor can have left.
-/

namespace CertRenewer

open Crash

/-- `_JOURNAL_NEW_PHASES`. -/
def journalNewPhases : List Phase :=
  [.quiescing, .quiesced, .staging, .stagedValidated, .rollbackDurable, .commitPossible,
    .committed, .canonicalVerified, .serviceResumedPendingLiveVerification, .recoveryRequired,
    .recoveredOld]

/-- The phases a transaction has after its commit, and before its rollback is
given up. -/
def committedPhases : List Phase :=
  [.committed, .canonicalVerified, .serviceResumedPendingLiveVerification]

/-- `_transaction_entry`: none when the name is free. -/
def transactionEntry (d : Disk) (n : Name) : Result (Option Stat) :=
  match d.stat n with
  | none => .ok none
  | some s => do
    require (s.regular && s.mode == 0o600 && s.uid == abc && s.gid == abc && s.dev == d.dev &&
        decide (s.size ≤ maxStore) && n.linkCounts.contains s.nlink)
      "unsafe transaction state during normalization"
    .ok (some s)

def allowedCanonical (j : Journal) : List (Option FileId) :=
  if j.phase ∈ committedPhases ∨ j.phase = .liveVerified then [j.stageInode]
  else if j.phase = .commitPossible ∨ (j.phase = .recoveryRequired ∧ j.progress = .committable) then
    [some j.oldInode, j.stageInode]
  else [some j.oldInode]

def rollbackRequired (j : Journal) : Bool :=
  decide (j.phase ∈ [.rollbackDurable, .commitPossible] ++ committedPhases) ||
    (j.phase == .recoveryRequired && (j.progress == .rolledBack || j.progress == .committable))

def stageRequired (j : Journal) (canonical : FileId) : Bool :=
  j.progress == .staged || j.progress == .rolledBack ||
    (j.progress == .committable && canonical == j.oldInode)

/-- `_validate_normalization_transaction`. -/
def validateNormalizationTransaction (d : Disk) (j : Journal) (temporaryJournalPresent : Bool) :
    Result Unit := do
  j.validate
  require (j.progress ∈ allowedProgress j.phase) "unreachable transaction phase during normalization"
  let canonical ← orFail (← transactionEntry d .canonical)
    "canonical keystore missing during normalization"
  require (some canonical.fileId ∈ allowedCanonical j) "canonical identity changed during normalization"
  let rollback ← transactionEntry d .rollback
  require (rollback.all fun s => s.fileId == j.oldInode)
    "rollback identity changed during normalization"
  let stage ← transactionEntry d .stage
  require (j.stageInode.isNone ∨ (stage.all fun s => some s.fileId == j.stageInode))
    "stage identity changed during normalization"
  require (¬(j.phase ∉ [.recoveredOld, .recoveryRequired] ∧ j.progress = .initial ∧
      (stage.isSome ∨ rollback.isSome)))
    "unexpected early transaction artifacts"
  require (¬(j.phase ∉ [.recoveredOld, .recoveryRequired] ∧ j.progress = .staging ∧
      rollback.isSome))
    "unexpected staging rollback"
  require (¬((j.phase ∈ committedPhases ∨ j.phase = .liveVerified) ∧ stage.isSome))
    "unexpected committed stage"
  -- the copy exists before its number is journalled
  require (¬(j.phase ≠ .recoveredOld ∧ j.progress ≠ .staging ∧
      stageRequired j canonical.fileId ≠ stage.isSome))
    "inconsistent transaction stage"
  require (¬(rollbackRequired j ∧ rollback.isNone)) "required transaction rollback missing"
  require (¬(rollback.isSome ∧ (j.progress = .initial ∨ j.progress = .staging) ∧
      j.phase ≠ .recoveredOld))
    "unexpected transaction rollback"
  require (¬(temporaryJournalPresent ∧ j.phase ∉ journalNewPhases))
    "unexpected phase temporary journal"

section
variable (x : Session)

/-- An executor administration file, as `_admin_entry` found it. -/
structure AdminEntry where
  name : Name
  file : Nat
  found : Stat

/-- The owner is root or the UniFi user, the rest as the executor made it. -/
def Stat.adminSafe (s : Stat) (n : Name) (dev : Nat) : Bool :=
  s.regular && s.mode == 0o600 && ((s.uid == 0 && s.gid == 0) || (s.uid == abc && s.gid == abc)) &&
    s.dev == dev && decide (s.size ≤ if n = .lock then 0 else maxJournal) && s.nlink == 1

/-- `_admin_entry` on a descriptor just opened. -/
def adminEntry (n : Name) : Exec AdminEntry := do
  let i ← primitive x do
    let d ← Prog.read World.disk
    match d.dir.visible n with
    | none => Prog.raise .os
    | some i => pure i
  primitive x do
    let d ← Prog.read World.disk
    match d.stat n with
    | none => Prog.raise .os
    | some s =>
      demand (s.adminSafe n d.dev ∧ s.ino = i) "unsafe executor administration state"
      pure ⟨n, i, s⟩

def pathExists (n : Name) : Exec Bool :=
  primitive x (Prog.read fun w => (w.disk.dir.visible n).isSome)

/-- `any(_path_exists(root, name) for name in …)`. -/
def anyExists : List Name → Exec Bool
  | [] => pure false
  | n :: rest => do
    if ← pathExists x n then pure true else anyExists rest

def transactionNames : List Name := [.journal, .journalNew, .stage, .rollback]

def adminEntryIfPresent (n : Name) : Exec (List AdminEntry) := do
  if ← pathExists x n then
    let entry ← adminEntry x n
    pure [entry]
  else pure []

/-- LinuxServer makes a fresh canonical keystore with mode 0644. -/
def normalizeCleanCanonical : Exec Unit := do
  if ← pathExists x .canonical then
    let s ← primitive x do
      let d ← Prog.read World.disk
      match d.stat .canonical with
      | none => Prog.raise .os
      | some s =>
        demand (s.regular && (s.mode == 0o600 || s.mode == 0o644) && s.uid == abc && s.gid == abc &&
            s.dev == d.dev && decide (s.size ≤ maxStore) && s.nlink == 1)
          "unsafe fresh canonical keystore"
        pure s
    if s.mode ≠ 0o600 then
      primitive x (setDisk fun d => d.modify s.ino fun file => { file with mode := 0o600 })
      fsyncFile x .canonical s.ino

/-- One `fchown`, `fchmod` and `fsync` on the descriptor of an entry. -/
def repairOwner (entry : AdminEntry) : Exec Unit := do
  primitive x (setDisk fun d => d.modify entry.file fun file => { file with uid := 0, gid := 0 })
  primitive x (setDisk fun d => d.modify entry.file fun file => { file with mode := 0o600 })
  fsyncFile x entry.name entry.file

def recheckEntry (entry : AdminEntry) : Exec Unit := primitive x do
  let d ← Prog.read World.disk
  match d.stat entry.name with
  | none => Prog.raise .os
  | some s =>
    demand (s.fileId = entry.found.fileId ∧ s.regular ∧ s.mode = 0o600 ∧ s.nlink = 1)
      "executor state changed during ownership normalization"

def readDescriptor (entry : AdminEntry) : Exec Journal := do
  let file ← primitive x (Prog.read fun w => w.disk.files entry.file)
  match file.content with
  | .journal j => pure j
  | _ => Prog.raise .os

/-- The transaction, when there is one, is proved before the first `chown`. -/
def proveTransaction (journal journalNew : List AdminEntry) : Exec Unit := do
  match journal with
  | [] => demand (journalNew.isEmpty) "temporary journal has no durable authority"
  | entry :: _ =>
    let j ← readDescriptor x entry
    let d ← Prog.read World.disk
    lift (validateNormalizationTransaction d j (!journalNew.isEmpty))

def openLock : Exec Unit := do
  if !(← pathExists x .lock) then
    demand (!(← anyExists x transactionNames)) "transaction state exists without lock"
    let i ← primitive x (createEntry .lock)
    primitive x (setDisk fun d => d.modify i fun file => { file with mode := 0o600 })

def secureAfterLinuxserverInit : Exec Unit := do
  primitive x (pure ())  -- the local identity is root's, with the reviewed abc user
  mask "executor state normalization failed" do
    primitive x (pure ())  -- the data directory opens without links and is trusted
    openLock x
    let lock ← adminEntry x .lock
    primitive x do
      let w ← Prog.read id
      Prog.guard (!w.held) .os
    let evidence ← anyExists x transactionNames
    let journal ← adminEntryIfPresent x .journal
    let journalNew ← adminEntryIfPresent x .journalNew
    let entries := lock :: (journal ++ journalNew)
    let repair := entries.filter fun entry => entry.found.uid = abc && entry.found.gid = abc
    if !repair.isEmpty then proveTransaction x journal journalNew
    if !evidence then normalizeCleanCanonical x
    repair.forM (repairOwner x)
    entries.forM (recheckEntry x)
    syncDirectory x

/-- `recover_startup` on a volume that has a data directory. -/
def recoverStartup : Exec RecoveryOutcome := do
  secureAfterLinuxserverInit x
  recover x true

end

end CertRenewer
