import CertRenewer.Evidence

/-!
# The invariant of the data directory

What every namespace the disk can still come back with looks like, what the
files in it hold, and what every entry of the trace was entitled to.
-/

namespace CertRenewer

open Crash

def Name.keeper : Name → Bool
  | .canonical | .rollback => true
  | _ => false

/-- Names that never share a file with another name. -/
def Name.single : Name → Bool
  | .stage | .journalNew | .lock => true
  | _ => false

/-- The largest file the executor keeps under a name. -/
def Name.room : Name → Nat
  | .canonical | .stage | .rollback => maxStore
  | .journal | .journalNew => maxJournal
  | .lock => 0

/-- Only the canonical store and its rollback can be one file, and a visible
stage, temporary journal or lock has no other name in any image. -/
structure DirOk (d : Dir Name) : Prop where
  distinct : ∀ ns, d.Image ns → ∀ n m i, ns n = some i → ns m = some i →
    n = m ∨ (n.keeper = true ∧ m.keeper = true)
  alone : ∀ n, n.single = true → ∀ i, d.visible n = some i →
    ∀ ns, d.Image ns → ∀ m, ns m = some i → m = n

/-- What a file has under a name, whatever it holds. A stage may still be
root's, and what keytool left in it may be of any size. -/
structure Healthy (dev : Nat) (n : Name) (f : Inode) : Prop where
  regular : f.regular = true
  mode : f.mode = 0o600
  device : f.dev = dev
  outside : f.outside = 0
  size : n ≠ .stage → f.size ≤ n.room
  owner : n ≠ .stage → f.uid = n.owner ∧ f.gid = n.owner

section
variable (g : Setting)

/-- The names of the stores, as a journal allows them. -/
structure Fits (j : Journal) (ns : Names Name) : Prop where
  canonical : ns .canonical = some j.oldInode.ino ∨
    (j.commitPossible = true ∧ (∃ i, j.stageInode = some ⟨g.dev, i⟩ ∧ ns .canonical = some i) ∧
      ns .stage = none ∧ (ns .rollback = some j.oldInode.ino ∨ j.phase = .liveVerified))
  rollback : ns .rollback = none ∨ ns .rollback = some j.oldInode.ino
  stage : ∀ i, ns .stage = some i → i ≠ j.oldInode.ino ∧ ∀ f, j.stageInode = some f → f.ino = i

/-- A namespace the disk can come back with. -/
structure ImageOk (tr : List Entry) (ns : Names Name) : Prop where
  canonical : ∃ i c, ns .canonical = some i ∧ Genuine g tr i c
  vacant : ns .journal = none → ns .stage = none ∧ ns .rollback = none
  journal : ∀ i, ns .journal = some i →
    ∃ j, Sealed g tr i (.journal j) ∧ JournalOk g tr j ∧ Fits g j ns

/-- The rollback may go: the old store is canonical again and journalled as
recovered, or the live verification is journalled. Either journal is durable,
and the second was made so by a sync of its file and then of the directory. -/
def Released (e : Entry) (older : List Entry) : Prop :=
  ∃ i j, (∀ ns, e.disk.dir.Image ns → ns .journal = some i) ∧
    (e.disk.files i).stored = .journal j ∧ e.disk.dir.visible .rollback = some j.oldInode.ino ∧
    ((j.phase = .recoveredOld ∧ e.disk.dir.visible .canonical = some j.oldInode.ino ∧
        g.host.Reads (e.disk.files j.oldInode.ino).content j.old) ∨
      (j.phase = .liveVerified ∧ ∃ file directory, [directory, file].Sublist older ∧
        file.event = .syncedFile .journal i ∧ (file.disk.files i).content = .journal j ∧
        directory.event = .syncedDirectory ∧ directory.disk.dir.visible .journal = some i))

/-- A stage may take the canonical name: it was proved and synced for the
transaction in memory, and the store it replaces is that transaction's old one. -/
def Replaceable (e : Entry) (older : List Entry) (i : Nat) : Prop :=
  ∃ j id c, e.process.journal = some j ∧ Wrote older j ∧ j.issued = some id ∧
    j.stageInode = some ⟨g.dev, i⟩ ∧ (e.disk.files i).content = c ∧ StageProved g older j i c ∧
    g.host.Reads c id ∧ e.disk.dir.visible .canonical = some j.oldInode.ino ∧
    g.host.Reads (e.disk.files j.oldInode.ino).content j.old

/-- A journal value may be handed to the writer. -/
structure Journalled (e : Entry) (older : List Entry) (v : Journal) : Prop where
  memory : e.process.journal = some v
  agree : ∀ a, Wrote older a → a.transaction = v.transaction → a.Agree v
  recent : ∀ a ∈ recentWrites older, a.Below v
  disk : ∀ i a, e.disk.dir.visible .journal = some i → (e.disk.files i).content = .journal a →
    Wrote older a ∧ a.Below v
  fresh : (∀ a, Wrote older a → a.transaction ≠ v.transaction) → ∃ old c, Vacant e.disk old c

def EventOk (e : Entry) (older : List Entry) : Prop :=
  match e.event with
  | .keytool n (.importcert _) => n = .stage ∧
    (∃ j, e.process.journal = some j ∧ ¬ ImportedIn older j.transaction) ∧
    ∃ s k, e.disk.dir.visible .stage = some s ∧ e.disk.dir.visible .canonical = some k ∧ s ≠ k
  | .journalWrite v => Journalled e older v
  | .renamed .stage target i => target = .canonical ∧ Replaceable g e older i
  | .renamed .rollback target _ => target = .canonical
  | .unlinked .rollback => Released g e older
  | _ => True

/-- Every entry was entitled to its event, and the journal in memory was
proper throughout. -/
def TraceOk : List Entry → Prop
  | [] => True
  | e :: older =>
    (EventOk g e older ∧ ∀ j, e.process.journal = some j → j.Proper g) ∧ TraceOk older

/-- What holds whatever was lost. -/
structure Core (w : World) : Prop where
  dev : w.disk.dev = g.dev
  dir : DirOk w.disk.dir
  healthy : ∀ ns, w.disk.dir.Image ns → ∀ n i, ns n = some i → Healthy g.dev n (w.disk.files i)
  synced : ∀ i c, Sealed g w.trace i c →
    i < w.disk.dir.next ∧ (w.disk.files i).content = c ∧ (w.disk.files i).stored = c
  images : ∀ ns, w.disk.dir.Image ns → ImageOk g w.trace ns
  fits : ∀ i j, w.disk.dir.visible .journal = some i → Sealed g w.trace i (.journal j) →
    ∀ ns, w.disk.dir.Image ns → Fits g j ns
  idle : w.disk.dir.visible .journal = none → ∀ ns, w.disk.dir.Image ns →
    ns .canonical = w.disk.dir.visible .canonical ∧ ns .stage = none ∧ ns .rollback = none
  same : ∀ i j, w.disk.dir.visible .journal = some i → Sealed g w.trace i (.journal j) →
    j.issued.isSome = true → ∀ ns, w.disk.dir.Image ns → ∀ k a, ns .journal = some k →
    Sealed g w.trace k (.journal a) → a.oldInode = j.oldInode
  agree : ∀ a b, Wrote w.trace a → Wrote w.trace b → a.transaction = b.transaction → a.Agree b
  wrote : ∀ a, Wrote w.trace a → a.transaction < w.uuids
  imported : ∀ t, ImportedIn w.trace t → t < w.uuids
  memory : ∀ j, w.process.journal = some j → j.Proper g
  trace : TraceOk g w.trace

/-! ## While the power holds -/

/-- No rollback was ever moved over a store that was not the old one. -/
def Unrestored (tr : List Entry) : Prop :=
  ∀ e ∈ tr, ∀ i, e.event = .renamed .rollback .canonical i → e.disk.dir.visible .canonical = some i

/-- The names a journal's phase and progress go with. A recovered journal may be
left with any part of its transaction not yet removed. -/
structure Snug (j : Journal) (ns : Names Name) : Prop where
  committed : j.phase ∈ committedPhases ∨ j.phase = .liveVerified →
    ∃ i, j.stageInode = some ⟨g.dev, i⟩ ∧ ns .canonical = some i
  recovered : j.phase = .recoveredOld → ns .canonical = some j.oldInode.ino
  early : j.phase ≠ .recoveredOld → j.progress = .initial → ns .stage = none
  unlinked : j.phase ≠ .recoveredOld → j.progress = .initial ∨ j.progress = .staging →
    ns .rollback = none
  staged : j.phase ≠ .recoveredOld → j.progress = .staged ∨ j.progress = .rolledBack ∨
    (j.progress = .committable ∧ ns .canonical = some j.oldInode.ino) → ns .stage ≠ none
  linked : j.phase ≠ .recoveredOld → j.phase ≠ .liveVerified →
    j.progress = .rolledBack ∨ j.progress = .committable → ns .rollback = some j.oldInode.ino

/-- The names as they are seen. -/
structure Tidy (d : Disk) (tr : List Entry) : Prop where
  lock : d.dir.visible .journal ≠ none → d.dir.visible .lock ≠ none
  pair : ∀ k a i j, d.dir.visible .journalNew = some k → (d.files k).content = .journal a →
    d.dir.visible .journal = some i → Sealed g tr i (.journal j) → a.transaction = j.transaction
  calm : ∀ i j, d.dir.visible .journal = some i → Sealed g tr i (.journal j) →
    j.phase = .liveVerified → d.dir.visible .journalNew = none
  snug : Unrestored tr → ∀ i j, d.dir.visible .journal = some i → Sealed g tr i (.journal j) →
    Snug g j d.dir.visible

/-! ## Before there is a journal -/

/-- A temporary journal is made where there is no journal: a transaction begins. -/
def Founds (e : Entry) : Prop :=
  (∃ k, e.event = .created .journalNew k) ∧ e.disk.dir.visible .journal = none

/-- There was no journal when the lock was taken, and none since. -/
def Unjournalled : List Entry → Prop
  | [] => True
  | e :: older => e.disk.dir.visible .journal = none ∧ (e.event = .acquired ∨ Unjournalled older)

/-- The last transaction began over this canonical store, in an operation that
had seen no journal, and at no time since was its journal's name durable. -/
def Founded (i : Nat) (c : Content) : List Entry → Prop
  | [] => False
  | e :: older =>
    (Founds e ∧ e.disk.dir.visible .canonical = some i ∧ (e.disk.files i).content = c ∧
      Unjournalled older) ∨
    (¬ Founds e ∧ (∃ ns, e.disk.dir.Image ns ∧ ns .journal = none) ∧ Founded i c older)

/-- Since the last transaction began, no journal was seen. -/
def Unpublished : List Entry → Prop
  | [] => False
  | e :: older => Founds e ∨ (e.disk.dir.visible .journal = none ∧ Unpublished older)

/-- The namespace, or what is seen of it, has a part of a journal. -/
def Sprouting (d : Dir Name) (ns : Names Name) : Prop :=
  d.visible .journal ≠ none ∨ d.visible .journalNew ≠ none ∨ ns .journalNew ≠ none

/-- Where a journal was begun and can be missing, the canonical store is the one
the transaction began over. -/
structure Budding (d : Dir Name) (tr : List Entry) : Prop where
  founded : ∀ ns, d.Image ns → ns .journal = none → Sprouting d ns →
    ∃ i c, ns .canonical = some i ∧ Sealed g tr i c ∧ Founded i c tr
  unpublished : g.powered = true → d.visible .journal = none → d.visible .journalNew ≠ none →
    Unpublished tr

structure Inv (w : World) : Prop extends Core g w where
  tidy : g.powered = true → Tidy g w.disk w.trace
  budding : Budding g w.disk.dir w.trace

/-- The keystore of the start, with nothing else but a lock in the directory. -/
structure Clean (w : World) : Prop where
  dev : w.disk.dev = g.dev
  synced : w.disk.dir.pending = []
  canonical : w.disk.dir.visible .canonical = some g.file
  others : ∀ n, n ≠ .canonical → n ≠ .lock → w.disk.dir.visible n = none
  lock : ∀ i, w.disk.dir.visible .lock = some i → i ≠ g.file ∧ Healthy g.dev .lock (w.disk.files i)
  healthy : Healthy g.dev .canonical (w.disk.files g.file)
  content : (w.disk.files g.file).content = g.content
  stored : (w.disk.files g.file).stored = g.content
  memory : w.process.journal = none
  trace : w.trace = []

end

end CertRenewer
