import CertRenewer.System

/-!
# What a trace proves

A trace only grows, and each of its entries shows the disk as it was. The
predicates here say what a trace already establishes: that a file's content is
synced and will not change, that a staged store was proved before it was synced,
that a transaction began on a clean directory, that the live endpoint was
observed. All of them survive any extension of the trace.
-/

namespace CertRenewer

open Crash

/-- The public state `keytool -list -rfc` shows of a content, when it can be
read. -/
def Host.read (h : Host) (c : Content) : Option PublicKeystoreState :=
  match h.listing c with
  | none => none
  | some output =>
    match parseCollection h.lib output with
    | .ok state => some state
    | .error _ => none

/-- The content reads back with this public identity. -/
def Host.Reads (h : Host) (c : Content) (id : PublicId) : Prop :=
  ∃ state, h.read c = some state ∧ publicId h.lib state = .ok id

/-- The content of the file a name denotes. -/
def Disk.content (d : Disk) (n : Name) : Option Content := (d.inode n).map Inode.content

/-! ## Journals of one transaction -/

def Compatible {α : Type} (a b : Option α) : Prop := ∀ x y, a = some x → b = some y → x = y

/-- The fields fixed when the transaction begins. -/
structure Journal.SameStart (a b : Journal) : Prop where
  version : a.version = b.version
  policyDigest : a.policyDigest = b.policyDigest
  transaction : a.transaction = b.transaction
  resume : a.resume = b.resume
  old : a.old = b.old
  oldInode : a.oldInode = b.oldInode

structure Journal.Agree (a b : Journal) : Prop where
  start : a.SameStart b
  issued : Compatible a.issued b.issued
  stageInode : Compatible a.stageInode b.stageInode

/-- `b` is as far as `a` or further. -/
structure Journal.Below (a b : Journal) : Prop where
  start : a.SameStart b
  issued : a.issued = none ∨ a.issued = b.issued
  stageInode : a.stageInode = none ∨ a.stageInode = b.stageInode
  rollbackExpected : a.rollbackExpected = true → b.rollbackExpected = true
  commitPossible : a.commitPossible = true → b.commitPossible = true

/-- The first value journalled in this transaction. -/
def Journal.start (j : Journal) : Journal :=
  { j with
    phase := .quiescing
    issued := none
    stageInode := none
    rollbackExpected := false
    commitPossible := false }

/-! ## Evidence -/

/-- Where a run starts: the host, the data directory's device, and the keystore
in it; and whether the power holds throughout. -/
structure Setting where
  host : Host
  dev : Nat
  file : Nat
  content : Content
  powered : Bool

def Wrote (tr : List Entry) (j : Journal) : Prop := ∃ e ∈ tr, e.event = .journalWrite j

def ImportedIn (tr : List Entry) (transaction : Nat) : Prop :=
  ∃ e ∈ tr, (∃ n reply, e.event = .keytool n (.importcert reply)) ∧
    e.process.journal.map Journal.transaction = some transaction

/-- What was journalled since the lock was last acquired. -/
def recentWrites : List Entry → List Journal
  | [] => []
  | e :: older =>
    match e.event with
    | .acquired => []
    | .journalWrite j => j :: recentWrites older
    | _ => recentWrites older

/-- The request carries the executor's own policy. -/
structure OwnPolicy (p : RenewalPolicy) (r : CertificateImportRequest) : Prop where
  subject : r.policy.subject = p.subject
  dnsSans : r.policy.dnsSans = p.dnsSans
  ipSans : r.policy.ipSans = p.ipSans
  ca : r.issuance.trustedCaData = p.caPem
  lifetime : r.issuance.lifetimeDays = p.lifetimeDays
  hash : r.issuance.expectedSignatureHash = p.signingDigest
  oid : r.issuance.expectedSignatureOid = p.issuedSignatureOid

section
variable (g : Setting)

/-- The file was synced with this content, or is the keystore of the start. -/
def Sealed (tr : List Entry) (i : Nat) (c : Content) : Prop :=
  (i = g.file ∧ c = g.content) ∨
    ∃ e ∈ tr, (∃ n, e.event = .syncedFile n i) ∧ (e.disk.files i).content = c

/-- The stage of the transaction of `j` was proved with this content, and then
synced with it. -/
def StageProved (tr : List Entry) (j : Journal) (i : Nat) (c : Content) : Prop :=
  ∃ verified synced policy request now state inspection,
    [synced, verified].Sublist tr ∧
    verified.event = .stageVerified policy request now ∧
    verified.disk.dir.visible .stage = some i ∧ (verified.disk.files i).content = c ∧
    verified.process.journal.map Journal.transaction = some j.transaction ∧
    policy.digest = j.policyDigest ∧ OwnPolicy policy request ∧
    g.host.read c = some state ∧
    verifyCertificateImport g.host.lib state request now = .ok inspection ∧
    (publicId g.host.lib state).toOption = j.issued ∧
    synced.event = .syncedFile .stage i ∧ (synced.disk.files i).content = c

/-- The file was renamed to the canonical name as the stage of a transaction,
and had been proved and synced before. -/
def Committed (tr : List Entry) (i : Nat) (c : Content) : Prop :=
  ∃ newer e older j, tr = newer ++ e :: older ∧ e.event = .renamed .stage .canonical i ∧
    Wrote older j ∧ j.stageInode = some ⟨g.dev, i⟩ ∧ StageProved g older j i c

/-- A keystore that may be canonical. -/
def Genuine (tr : List Entry) (i : Nat) (c : Content) : Prop :=
  Sealed g tr i c ∧ ((i = g.file ∧ c = g.content) ∨ Committed g tr i c)

/-- The disk on which a transaction can begin, with its old store. -/
structure Vacant (d : Disk) (old : Nat) (c : Content) : Prop where
  journal : d.dir.visible .journal = none
  journalNew : d.dir.visible .journalNew = none
  stage : d.dir.visible .stage = none
  rollback : d.dir.visible .rollback = none
  canonical : d.dir.visible .canonical = some old
  content : (d.files old).content = c

def Begun (tr : List Entry) (j : Journal) (c : Content) : Prop :=
  ∃ e ∈ tr, e.event = .journalWrite j.start ∧ Vacant e.disk j.oldInode.ino c

/-- The keystore the journal's names show while it is pending: the canonical
file is the stage with one link, the rollback is the old file. -/
structure Pending (e : Entry) (j : Journal) (leaf : Bytes) : Prop where
  locked : e.process.locked = true
  journal : e.process.journal = some { j with phase := .serviceResumedPendingLiveVerification }
  record : ∃ i, e.disk.dir.visible .journal = some i ∧ (e.disk.files i).content =
    .journal { j with phase := .serviceResumedPendingLiveVerification }
  up : e.service.up = true
  canonical : ∃ i, e.disk.dir.visible .canonical = some i ∧ j.stageInode = some ⟨g.dev, i⟩ ∧
    e.disk.links i = 1 ∧ ∃ state id, g.host.read (e.disk.files i).content = some state ∧
      state.certificateChainDer.head? = some leaf ∧ publicId g.host.lib state = .ok id ∧
      j.issued = some id ∧ id.chain.head? = some (g.host.lib.sha256 leaf)
  rollback : e.disk.dir.visible .rollback = some j.oldInode.ino ∧ j.oldInode.dev = g.dev ∧
    g.host.Reads (e.disk.files j.oldInode.ino).content j.old

/-- The live endpoint was observed with the canonical leaf, which a later
reading of the canonical store found again. -/
def Observed (tr : List Entry) (j : Journal) : Prop :=
  ∃ observed again leaf i state, [again, observed].Sublist tr ∧
    observed.event = .observed j.policyDigest leaf ∧ Pending g observed j leaf ∧
    again.event = .keytool .canonical .list ∧ again.disk.dir.visible .canonical = some i ∧
    g.host.read (again.disk.files i).content = some state ∧
    state.certificateChainDer.head? = some leaf

/-- What is true of a journal value whatever the trace. -/
structure Journal.Proper (j : Journal) : Prop where
  version : j.version = 2
  oldBounded : j.old.bounded = true
  oldDev : j.oldInode.dev = g.dev
  issued : ∀ id, j.issued = some id → id.spki = j.old.spki ∧ id.chain.length = 2
  stage : ∀ f, j.stageInode = some f → f.dev = g.dev ∧ f.ino ≠ j.oldInode.ino
  progress : j.progress ∈ allowedProgress j.phase
  resume : j.phase = .liveVerified → j.resume = true

/-- What the trace establishes for a journal that may be on disk, apart from
its transaction's beginning. -/
structure Supported (tr : List Entry) (j : Journal) : Prop where
  proper : j.Proper g
  old : ∃ c, Genuine g tr j.oldInode.ino c ∧ g.host.Reads c j.old
  committable : j.commitPossible = true → ∃ i c id, j.stageInode = some ⟨g.dev, i⟩ ∧
    Sealed g tr i c ∧ StageProved g tr j i c ∧ j.issued = some id ∧ g.host.Reads c id
  live : j.phase = .liveVerified → Observed g tr j

/-- A journal that may be on disk. -/
structure JournalOk (tr : List Entry) (j : Journal) : Prop where
  supported : Supported g tr j
  wrote : Wrote tr j
  begun : ∃ c, Sealed g tr j.oldInode.ino c ∧ Begun tr j c

end

/-! ## Evidence is kept -/

section
variable {g : Setting} {tr tr' : List Entry} {j : Journal} {i : Nat} {c : Content}

theorem Wrote.mono (h : Wrote tr j) (ext : tr <:+ tr') : Wrote tr' j := by
  obtain ⟨e, he, hw⟩ := h
  exact ⟨e, ext.subset he, hw⟩

theorem Sealed.mono (h : Sealed g tr i c) (ext : tr <:+ tr') : Sealed g tr' i c := by
  rcases h with origin | ⟨e, he, hs⟩
  · exact Or.inl origin
  · exact Or.inr ⟨e, ext.subset he, hs⟩

theorem StageProved.mono (h : StageProved g tr j i c) (ext : tr <:+ tr') :
    StageProved g tr' j i c := by
  obtain ⟨verified, synced, policy, request, now, state, inspection, order, rest⟩ := h
  exact ⟨verified, synced, policy, request, now, state, inspection, order.trans ext.sublist, rest⟩

/-- A proof of the stage, then its sync. -/
theorem StageProved.of_verified {verified : Entry} {policy : RenewalPolicy}
    {request : CertificateImportRequest} {now : Clock} {state : PublicKeystoreState}
    {inspection : UnifiCertificateInspection} {synced : Entry} (seen : verified ∈ tr)
    (event : verified.event = .stageVerified policy request now)
    (named : verified.disk.dir.visible .stage = some i) (held : (verified.disk.files i).content = c)
    (mine : verified.process.journal.map Journal.transaction = some j.transaction)
    (digest : policy.digest = j.policyDigest) (own : OwnPolicy policy request)
    (read : g.host.read c = some state)
    (proved : verifyCertificateImport g.host.lib state request now = .ok inspection)
    (issued : (publicId g.host.lib state).toOption = j.issued)
    (sync : synced.event = .syncedFile .stage i) (same : (synced.disk.files i).content = c) :
    StageProved g (synced :: tr) j i c :=
  ⟨verified, synced, policy, request, now, state, inspection,
    (List.singleton_sublist.mpr seen).cons_cons synced, event, named, held, mine, digest, own, read,
    proved, issued, sync, same⟩

theorem StageProved.congr {v : Journal} (h : StageProved g tr j i c)
    (transaction : v.transaction = j.transaction) (digest : v.policyDigest = j.policyDigest)
    (issued : v.issued = j.issued) : StageProved g tr v i c := by
  obtain ⟨verified, synced, policy, request, now, state, inspection, order, rest⟩ := h
  rw [← transaction, ← digest, ← issued] at rest
  exact ⟨verified, synced, policy, request, now, state, inspection, order, rest⟩

theorem Committed.mono (h : Committed g tr i c) (ext : tr <:+ tr') : Committed g tr' i c := by
  obtain ⟨newer, e, older, j, rfl, rest⟩ := h
  obtain ⟨front, rfl⟩ := ext
  exact ⟨front ++ newer, e, older, j, by simp, rest⟩

theorem Genuine.mono (h : Genuine g tr i c) (ext : tr <:+ tr') : Genuine g tr' i c := by
  refine ⟨h.1.mono ext, ?_⟩
  rcases h.2 with origin | committed
  · exact Or.inl origin
  · exact Or.inr (committed.mono ext)

theorem Begun.mono (h : Begun tr j c) (ext : tr <:+ tr') : Begun tr' j c := by
  obtain ⟨e, he, hb⟩ := h
  exact ⟨e, ext.subset he, hb⟩

theorem Observed.mono (h : Observed g tr j) (ext : tr <:+ tr') : Observed g tr' j := by
  obtain ⟨observed, again, leaf, i, state, order, rest⟩ := h
  exact ⟨observed, again, leaf, i, state, order.trans ext.sublist, rest⟩

/-- An observation is of the transaction, whatever phase its journal has. -/
theorem Observed.rephase (h : Observed g tr j) (p : Phase) : Observed g tr { j with phase := p } := by
  obtain ⟨observed, again, leaf, i, state, order, event, pending, rest⟩ := h
  exact ⟨observed, again, leaf, i, state, order, event,
    ⟨pending.locked, pending.journal, pending.record, pending.up, pending.canonical, pending.rollback⟩, rest⟩

theorem Supported.mono (h : Supported g tr j) (ext : tr <:+ tr') : Supported g tr' j where
  proper := h.proper
  old := by
    obtain ⟨c, genuine, reads⟩ := h.old
    exact ⟨c, genuine.mono ext, reads⟩
  committable possible := by
    obtain ⟨i, c, id, stage, sealed, proved, rest⟩ := h.committable possible
    exact ⟨i, c, id, stage, sealed.mono ext, proved.mono ext, rest⟩
  live phase := (h.live phase).mono ext

theorem JournalOk.mono (h : JournalOk g tr j) (ext : tr <:+ tr') : JournalOk g tr' j where
  supported := h.supported.mono ext
  wrote := h.wrote.mono ext
  begun := by
    obtain ⟨c, sealed, begun⟩ := h.begun
    exact ⟨c, sealed.mono ext, begun.mono ext⟩

/-! ## The order of a transaction's journals -/

theorem Journal.SameStart.refl (a : Journal) : a.SameStart a := ⟨rfl, rfl, rfl, rfl, rfl, rfl⟩

theorem Journal.SameStart.symm {a b : Journal} (h : a.SameStart b) : b.SameStart a :=
  ⟨h.version.symm, h.policyDigest.symm, h.transaction.symm, h.resume.symm, h.old.symm,
    h.oldInode.symm⟩

theorem Journal.SameStart.trans {a b c : Journal} (h : a.SameStart b) (k : b.SameStart c) :
    a.SameStart c :=
  ⟨h.version.trans k.version, h.policyDigest.trans k.policyDigest,
    h.transaction.trans k.transaction, h.resume.trans k.resume, h.old.trans k.old,
    h.oldInode.trans k.oldInode⟩

theorem Journal.Below.refl (a : Journal) : a.Below a :=
  ⟨.refl a, Or.inr rfl, Or.inr rfl, id, id⟩

theorem Journal.Below.trans {a b c : Journal} (h : a.Below b) (k : b.Below c) : a.Below c where
  start := h.start.trans k.start
  issued := by
    rcases h.issued with none | same
    · exact Or.inl none
    · rw [same]
      exact k.issued
  stageInode := by
    rcases h.stageInode with none | same
    · exact Or.inl none
    · rw [same]
      exact k.stageInode
  rollbackExpected x := k.rollbackExpected (h.rollbackExpected x)
  commitPossible x := k.commitPossible (h.commitPossible x)

theorem Journal.Below.agree {a b : Journal} (h : a.Below b) : a.Agree b where
  start := h.start
  issued := by
    intro x y hx hy
    rcases h.issued with none | same
    · rw [none] at hx
      cases hx
    · rw [same, hy] at hx
      exact (Option.some.inj hx).symm
  stageInode := by
    intro x y hx hy
    rcases h.stageInode with none | same
    · rw [none] at hx
      cases hx
    · rw [same, hy] at hx
      exact (Option.some.inj hx).symm

theorem Journal.Agree.symm {a b : Journal} (h : a.Agree b) : b.Agree a :=
  ⟨h.start.symm, fun x y hx hy => (h.issued y x hy hx).symm,
    fun x y hx hy => (h.stageInode y x hy hx).symm⟩

theorem Journal.SameStart.start_eq {a b : Journal} (h : a.SameStart b) : a.start = b.start := by
  simp [Journal.start, h.version, h.policyDigest, h.transaction, h.resume, h.old, h.oldInode]

/-- The writers' check never fails on a proper journal. -/
theorem Journal.Proper.validate (h : j.Proper g) : j.validate = .ok () := by
  have chain := progress_mem_chain h.progress
  refine Journal.validate_eq_ok.mpr ⟨h.version, h.oldBounded, ?_, ?_, ?_⟩
  · cases hi : j.issued with
    | none => rfl
    | some id =>
      have two := (h.issued id hi).2
      simp [PublicId.bounded, two]
  · rintro ⟨possible, missing⟩
    obtain ⟨issued, stage, rollback, _⟩ :=
      Journal.fields_of_committable (committable_of_commit chain possible)
    rw [← Option.isNone_eq_false_iff] at issued stage
    simp [issued, stage, rollback] at missing
  · rintro ⟨live, missing⟩
    have progress := h.progress
    rw [live] at progress
    obtain ⟨issued, stage, rollback, commit⟩ :=
      Journal.fields_of_committable (List.mem_singleton.mp progress)
    obtain ⟨id, hid⟩ := Option.isSome_iff_exists.mp issued
    obtain ⟨f, hf⟩ := Option.isSome_iff_exists.mp stage
    have differs : j.oldInode ≠ f := fun eq => (h.stage f hf).2 (by rw [eq])
    obtain ⟨spki, two⟩ := h.issued id hid
    simp [h.resume live, rollback, commit, hid, hf, differs, spki, two] at missing

end

end CertRenewer
