import CertRenewer.Client

/-!
# The recovery journal

The record a transaction leaves before each step it takes, and
`_validate_journal`, the check every reader and every writer of it makes. The
types here already carry what the check establishes of a JSON value's shape:
the field set, digests as 64 hex digits, identifiers as 32, and non-negative
file numbers. What is left of it is `Journal.validate`.
-/

namespace CertRenewer

def maxJournal : Nat := 16384

inductive Phase where
  | quiescing
  | quiesced
  | staging
  | stagedValidated
  | rollbackDurable
  | commitPossible
  | committed
  | canonicalVerified
  | serviceResumedPendingLiveVerification
  | liveVerified
  | recoveryRequired
  | recoveredOld
  deriving DecidableEq, Repr

/-- The public identity of a keystore: its key and its ordered chain. -/
structure PublicId where
  spki : Sha256
  chain : List Sha256
  deriving DecidableEq, Repr

/-- `[st_dev, st_ino]`. -/
structure FileId where
  dev : Nat
  ino : Nat
  deriving DecidableEq, Repr

structure Journal where
  version : Nat
  policyDigest : Sha256
  transaction : Nat
  phase : Phase
  resume : Bool
  old : PublicId
  issued : Option PublicId
  oldInode : FileId
  stageInode : Option FileId
  rollbackExpected : Bool
  commitPossible : Bool
  deriving DecidableEq, Repr

def PublicId.bounded (id : PublicId) : Bool := 1 ≤ id.chain.length && id.chain.length ≤ 10

/-- `_validate_journal`. -/
def Journal.validate (j : Journal) : Result Unit := do
  require (j.version = 2) "invalid recovery journal"
  require (j.old.bounded) "invalid journal public identity"
  require (j.issued.all PublicId.bounded) "invalid journal public identity"
  require (¬(j.commitPossible ∧ (j.issued.isNone ∨ j.stageInode.isNone ∨ !j.rollbackExpected)))
    "inconsistent recovery journal"
  require (¬(j.phase = .liveVerified ∧ (!j.resume ∨ !j.rollbackExpected ∨ !j.commitPossible ∨
      j.issued.isNone ∨ j.stageInode.isNone ∨ some j.oldInode = j.stageInode ∨
      some j.old.spki ≠ j.issued.map PublicId.spki ∨
      j.issued.map (fun id => id.chain.length) ≠ some 2)))
    "inconsistent live-verified journal"

/-- `_public_id`. -/
def publicId (lib : Library) (state : PublicKeystoreState) : Result PublicId := do
  let info ← inspectPublicKeystoreState lib state
  .ok ⟨info.certificate.spkiSha256, state.certificateChainDer.map lib.sha256⟩

theorem publicId_spec {lib : Library} {state : PublicKeystoreState} {id : PublicId}
    (h : publicId lib state = .ok id) :
    ∃ i, inspectPublicKeystoreState lib state = .ok i ∧ id.spki = i.certificate.spkiSha256 ∧
      id.chain = state.certificateChainDer.map lib.sha256 := by
  simp only [publicId, bind_eq_ok, Except.ok.injEq] at h
  obtain ⟨i, inspected, rfl⟩ := h
  exact ⟨i, inspected, rfl, rfl⟩

theorem publicId_bounded {lib : Library} {state : PublicKeystoreState} {id : PublicId}
    (h : publicId lib state = .ok id) : id.bounded = true := by
  obtain ⟨i, inspected, _, chain⟩ := publicId_spec h
  have length := inspect_length inspected
  simpa [PublicId.bounded, chain] using length

/-! ## Progress of a transaction

How far a transaction got is which of `issued`, `stage_inode`,
`rollback_expected` and `commit_possible` are set. The normaliser in
`unifi_executor_service.py` lists the combinations each phase can carry. -/

structure Progress where
  issued : Bool
  stage : Bool
  rollback : Bool
  commit : Bool
  deriving DecidableEq, Repr

namespace Progress

def initial : Progress := ⟨false, false, false, false⟩
def staging : Progress := ⟨true, false, false, false⟩
def staged : Progress := ⟨true, true, false, false⟩
def rolledBack : Progress := ⟨true, true, true, false⟩
def committable : Progress := ⟨true, true, true, true⟩

def chain : List Progress := [initial, staging, staged, rolledBack, committable]

end Progress

def Journal.progress (j : Journal) : Progress :=
  ⟨j.issued.isSome, j.stageInode.isSome, j.rollbackExpected, j.commitPossible⟩

/-- `allowed_progress` of `_validate_normalization_transaction`. -/
def allowedProgress : Phase → List Progress
  | .quiescing | .quiesced => [.initial]
  | .staging => [.staging, .staged]
  | .stagedValidated => [.staged]
  | .rollbackDurable => [.rolledBack]
  | .commitPossible | .committed | .canonicalVerified
  | .serviceResumedPendingLiveVerification | .liveVerified => [.committable]
  | .recoveryRequired | .recoveredOld => Progress.chain

/-! ## What the check establishes -/

theorem Journal.validate_eq_ok {j : Journal} : j.validate = .ok () ↔
    j.version = 2 ∧ j.old.bounded = true ∧ j.issued.all PublicId.bounded = true ∧
    ¬(j.commitPossible ∧ (j.issued.isNone ∨ j.stageInode.isNone ∨ !j.rollbackExpected)) ∧
    ¬(j.phase = .liveVerified ∧ (!j.resume ∨ !j.rollbackExpected ∨ !j.commitPossible ∨
      j.issued.isNone ∨ j.stageInode.isNone ∨ some j.oldInode = j.stageInode ∨
      some j.old.spki ≠ j.issued.map PublicId.spki ∨
      j.issued.map (fun id => id.chain.length) ≠ some 2)) := by
  simp only [Journal.validate, bind_eq_ok, require_eq_ok, exists_const]

theorem progress_mem_chain {p : Progress} {phase : Phase} (h : p ∈ allowedProgress phase) :
    p ∈ Progress.chain := by
  cases phase <;> simp_all [allowedProgress, Progress.chain]
  all_goals rcases h with rfl | rfl <;> simp

/-- On the chain, a commit is possible only after everything before it. -/
theorem committable_of_commit {j : Journal} (chain : j.progress ∈ Progress.chain)
    (possible : j.commitPossible = true) : j.progress = .committable := by
  have commit : j.progress.commit = true := possible
  simp only [Progress.chain, List.mem_cons, List.not_mem_nil, or_false] at chain
  rcases chain with eq | eq | eq | eq | eq
  all_goals first
    | exact eq
    | (rw [eq] at commit; cases commit)

theorem Journal.fields_of_committable {j : Journal} (h : j.progress = .committable) :
    j.issued.isSome = true ∧ j.stageInode.isSome = true ∧ j.rollbackExpected = true ∧
      j.commitPossible = true :=
  ⟨congrArg Progress.issued h, congrArg Progress.stage h, congrArg Progress.rollback h,
    congrArg Progress.commit h⟩

end CertRenewer
