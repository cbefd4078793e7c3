import CertRenewer.Committing

/-!
# A whole installation

`install_certificate` keeps the invariant however it ends. When it returns, the
canonical store holds what the request was for, and the journal of a
transaction of its own is pending.
-/

namespace CertRenewer

open Crash

section
variable {g : Setting} {x : Session} {w t : World} {j v : Journal} {k : Nat} {c : Content}

theorem importCertificateReply_keeps (host : x.host = g.host) (request : CertificateImportRequest)
    (expected : PublicKeystoreState) (h : Opened g x .initial w j) :
    Prog.Holds (importCertificateReply x request expected)
      (fun _ t => ∃ k c v, Installed g x k c t v ∧ v.start = j.start)
      (fun _ => Ready g j.start) (Ready g j.start) w := by
  refine Prog.holds_bind_of ((reads_checkImport x host request expected).keeps
    (K := fun t => Opened g x .initial t j) (fun s t q h => h.steady q.toSteady) (fun t h => h.ready) h)
    fun checked t ⟨ht, a, held, admissible⟩ => ?_
  obtain rfl : j = a := Option.some.inj (ht.memory.symm.trans held)
  refine Prog.holds_bind_of (stageImport_keeps host ht admissible)
    fun ⟨stage, validated⟩ t ⟨k, c, v, ht, same⟩ => ?_
  rw [← same]
  refine Prog.holds_bind_of (retainRollback_keeps checked ht)
    fun rollback t ⟨v', ht, same'⟩ => ?_
  rw [← same']
  exact (commitStage_keeps request rollback stage validated ht).mono
    (fun _ t ⟨v'', ht, same''⟩ => ⟨k, c, v'', ht, same''⟩) (fun _ _ e => e) fun _ e => e

theorem resumePending_keeps (h : Installed g x k c w j) :
    Prog.Holds (resumePending x)
      (fun _ t => Installed g x k c t { j with phase := .serviceResumedPendingLiveVerification })
      (fun _ => Ready g j.start) (Ready g j.start) w := by
  have steady (s t : World) (q : Steady s t) (h : Installed g x k c s j) : Installed g x k c t j :=
    h.steady q
  have quiet (s t : World) (q : Quiet s t) (h : Installed g x k c s j) : Installed g x k c t j :=
    h.steady q.toSteady
  have stop (t : World) (h : Installed g x k c t j) : Ready g j.start t := h.ready
  refine Prog.holds_bind_of ((reads_stopped x).keeps quiet stop h) fun _ t ⟨ht, _⟩ => ?_
  refine Prog.holds_bind_of (reads_getJournal.keeps quiet stop ht) fun _ t ⟨ht, _⟩ => ?_
  refine Prog.holds_bind_of ((reads_demand _ _).keeps quiet stop ht) fun _ t ⟨ht, _⟩ => ?_
  refine Prog.holds_bind_of ((reads_collect x .canonical).keeps quiet stop ht) fun _ t ⟨ht, _⟩ => ?_
  refine Prog.holds_bind_of ((reads_lift _).keeps quiet stop ht) fun _ t ⟨ht, _⟩ => ?_
  refine Prog.holds_bind_of ((reads_demand _ _).keeps quiet stop ht) fun _ t ⟨ht, _⟩ => ?_
  refine Prog.holds_bind_of ((reads_status x .canonical).keeps quiet stop ht) fun _ t ⟨ht, _⟩ => ?_
  refine Prog.holds_bind_of ((reads_demand _ _).keeps quiet stop ht) fun _ t ⟨ht, _⟩ => ?_
  refine Prog.holds_bind_of ((steadies_resumeService x false).keeps steady stop ht) fun _ t ht => ?_
  exact ht.rephase (by decide) (by decide) (by decide)

/-- The journal of the transaction that began with `s` is on disk. -/
def OnDisk (s : Journal) (w : World) : Prop :=
  ∃ i a, w.disk.dir.visible .journal = some i ∧ (w.disk.files i).content = .journal a ∧ a.start = s

theorem Held.onDisk (h : Held g w j) (written : w.disk.dir.visible .journal ≠ none) :
    OnDisk j.start w := by
  obtain ⟨i, seen⟩ := Option.ne_none_iff_exists'.mp written
  obtain ⟨a, sealed, _⟩ := (h.inv.images _ w.disk.dir.image_visible).journal i seen
  exact ⟨i, a, seen, (h.inv.synced i _ sealed).2.1, (h.disk i a seen sealed).start.start_eq⟩

theorem Ready.onDisk {s : Journal} (h : Ready g s w) : Inv g w ∧ OnDisk s w := by
  obtain ⟨j, h⟩ := h
  rw [← h.start]
  exact ⟨h.inv, h.toHeld.onDisk h.written⟩

/-- A failed transaction records that it failed, whatever it had got to. -/
theorem Ready.required {s : Journal} (h : Ready g s w) {α : Type} (e : Error)
    {Q : α → World → Prop} :
    Prog.Holds (do phase x .recoveryRequired; Prog.raise e) Q
      (fun _ t => Inv g t ∧ OnDisk s t) (fun t => Inv g t ∧ OnDisk s t) w := by
  obtain ⟨j, h⟩ := h
  have write := h.toHeld.rephased (p := .recoveryRequired) h.unverified
    (progress_mem_chain h.ok.supported.proper.progress) (fun no => nomatch no)
    (fun no => nomatch no) fun old =>
      old.rephase h.active h.unverified (by decide) fun no => absurd no (by decide)
  have stop (t : World)
      (ht : Partial g (w.remember { j with phase := .recoveryRequired })
        { j with phase := .recoveryRequired } t) : Inv g t ∧ OnDisk s t := by
    rw [← h.start]
    refine ⟨ht.inv, ht.held.onDisk ?_⟩
    rcases ht.journal with same | there
    · rw [same]
      exact h.written
    · exact there
  refine Prog.holds_bind_of ((phase_keeps x (f := id) h.memory rfl write).mono
    (fun _ t ht => ht) (fun _ t ht => stop t ht) stop) fun _ t ⟨durable, _⟩ => ?_
  rw [← h.start]
  exact ⟨durable.inv, durable.toHeld.onDisk durable.there⟩

/-- Inside a transaction the canonical store is collected under its lock. -/
theorem inspectPublicState_locked (locked : w.process.locked = true) :
    inspectPublicState x w = collect x .canonical w := by
  simp [inspectPublicState, Prog.bind_apply, Prog.read, locked]

/-- What a finished transaction leaves: the canonical store holds a content
with `P`, and the journal of the transaction numbered `u` is pending. -/
structure Answered (P : Content → Prop) (u : Nat) (d : Disk) : Prop where
  canonical : ∃ k, d.dir.visible .canonical = some k ∧ P (d.files k).content
  journal : ∃ i j, d.dir.visible .journal = some i ∧ (d.files i).content = .journal j ∧
    j.phase = .serviceResumedPendingLiveVerification ∧ j.transaction = u

theorem Installed.answered {P : Content → Prop} (h : Installed g x k c w j)
    (pending : j.phase = .serviceResumedPendingLiveVerification) (proved : P c) :
    Answered P j.transaction w.disk := by
  obtain ⟨i, seen, sealed⟩ := h.durable.journal
  exact ⟨⟨k, h.canonical, by rw [h.content]; exact proved⟩,
    ⟨i, j, seen, (h.inv.synced i _ sealed).2.1, pending, rfl⟩⟩

/-- `exclusive`, once the lock is taken. -/
def transact {α : Type} (x : Session) (expected : PublicKeystoreState) (body : Exec α) : Exec α := do
  let (identity, before) ← begin_ x expected
  Prog.handle
    (do
      quiesce x identity before
      let result ← body
      resumePending x
      pure result)
    (fun e => do
      phase x .recoveryRequired
      Prog.raise e)

/-- Where a transaction can stop: no stop was issued yet and its beginning was
not complete, or its journal is on disk. -/
structure Fails (g : Setting) (w t : World) : Prop where
  inv : Inv g t
  reached : (Begins g w t ∧ Notes (fun e => e.event ≠ .stopIssued) w t) ∨
    ∃ s, First g w s ∧ OnDisk s t

theorem Event.idle_ne_stopIssued {e : Event} (h : e.idle = true) : e ≠ .stopIssued := by
  rintro rfl
  cases h

/-- A transaction keeps the invariant when its body installs something, or
stops where it can be recorded as failed. -/
theorem transact_keeps {α : Type} {body : Exec α} {P : α → Content → Prop} (host : x.host = g.host)
    (expected : PublicKeystoreState)
    (inside : ∀ t j, Opened g x .initial t j → Prog.Holds body
      (fun a t => ∃ k c v, Installed g x k c t v ∧ v.start = j.start ∧ P a c)
      (fun _ => Ready g j.start) (Ready g j.start) t)
    (h : Entered g w) :
    Prog.Holds (transact x expected body)
      (fun a t => Fails g w t ∧ Answered (P a) w.uuids t.disk) (fun _ => Fails g w) (Fails g w) w := by
  have begun := (begin_keeps x host expected h).and
    (logs_begin (P := fun e => e.event ≠ .stopIssued) x (fun e idle _ _ _ => Event.idle_ne_stopIssued idle)
      expected w)
  refine Prog.holds_bind_of (begun.mono (fun _ t ht => ht.1)
    (fun _ t ht => ⟨ht.1.inv, Or.inl ⟨ht.1, ht.2.new⟩⟩) fun t ht => ⟨ht.1.inv, Or.inl ⟨ht.1, ht.2.new⟩⟩)
    fun ⟨identity, before⟩ t ⟨j, ht, first⟩ => ?_
  have ended (t : World) (h : Inv g t ∧ OnDisk j.start t) : Fails g w t :=
    ⟨h.1, Or.inr ⟨j, first, by rw [first.start]; exact h.2⟩⟩
  rw [Prog.holds_handle]
  suffices whole : Prog.Holds (do
      quiesce x identity before
      let result ← body
      resumePending x
      pure result) (fun a t => Fails g w t ∧ Answered (P a) w.uuids t.disk)
      (fun _ => Ready g j.start) (Ready g j.start) t from
    whole.mono (fun _ _ h => h) (fun e t h => (h.required e).mono (fun _ _ no => no)
      (fun _ t h => ended t h) ended) fun t h => ended t h.onDisk
  refine Prog.holds_bind_of (quiesce_keeps x identity before ht) fun _ t ht => ?_
  refine Prog.holds_bind_of (inside t { j with phase := .quiesced } ht)
    fun a t ⟨k, c, v, ht, same, proved⟩ => ?_
  have same : v.start = j.start := same
  rw [← same]
  refine Prog.holds_bind_of (resumePending_keeps ht) fun _ t ht => ?_
  have answered := ht.answered (P := P a) rfl proved
  refine ⟨ended t ⟨ht.inv, ?_⟩, ?_⟩
  · rw [← same]
    exact ht.toHeld.onDisk ht.written
  · have number : v.transaction = w.uuids :=
      (congrArg Journal.transaction same).trans first.transaction
    rwa [show Journal.transaction { v with phase := .serviceResumedPendingLiveVerification } = w.uuids
      from number] at answered

theorem exclusive_keeps {α : Type} {body : Exec α} {P : α → Content → Prop} (host : x.host = g.host)
    (expected : PublicKeystoreState)
    (inside : ∀ t j, Opened g x .initial t j → Prog.Holds body
      (fun a t => ∃ k c v, Installed g x k c t v ∧ v.start = j.start ∧ P a c)
      (fun _ => Ready g j.start) (Ready g j.start) t)
    (inv : Inv g w) (journal : w.process.journal = none) :
    Prog.Holds (exclusive x expected body)
      (fun a t => Inv g t ∧ Answered (P a) w.uuids t.disk) (fun _ => Inv g) (Inv g) w := by
  refine locked_keeps x (P := fun a t => Answered (P a) w.uuids t.disk)
    (fun _ s t q h => by rw [q.disk]; exact h) (fun _ _ h => h) (fun t ht locks => ?_) inv journal
  rw [← locks.uuids]
  exact (transact_keeps host expected inside ht).mono (fun a t h => ⟨h.1.inv, h.2⟩)
    (fun _ t h => h.inv) fun t h => h.inv

/-- The content reads back, and the reading proves the request's import. -/
def Answers (g : Setting) (request : CertificateImportRequest) (inspection : UnifiCertificateInspection)
    (c : Content) : Prop :=
  ∃ state now, g.host.read c = some state ∧
    verifyCertificateImport g.host.lib state request now = .ok inspection

/-- What an installation does inside its transaction. -/
def installBody (x : Session) (request : CertificateImportRequest) : Exec UnifiCertificateInspection := do
  let _ ← lift (prepareCertificateImport x.host.lib request (← clock x))
  let current ← inspectPublicState x
  let oldInfo ← lift (inspectPublicKeystoreState x.host.lib request.before)
  let currentInfo ← lift (inspectPublicKeystoreState x.host.lib current)
  demand (currentInfo = oldInfo ∧ current.certificateChainDer = request.before.certificateChainDer)
    "public keystore state changed before import"
  setProcess fun p => { p with stage := .import }
  importCertificateReply x request current
  setProcess fun p => { p with stage := .postImport }
  let after ← inspectPublicState x
  lift (verifyCertificateImport x.host.lib after request (← clock x))

theorem installCertificate_eq (request : CertificateImportRequest) :
    installCertificate x request = Prog.handle (exclusive x request.before (installBody x request))
      (fun e => do
        let p ← Prog.read World.process
        Prog.raise (.masked s!"UniFi {p.stage.text} failed" e)) := rfl

theorem installBody_keeps (host : x.host = g.host) (request : CertificateImportRequest)
    (h : Opened g x .initial t j) :
    Prog.Holds (installBody x request)
      (fun inspection t => ∃ k c v, Installed g x k c t v ∧ v.start = j.start ∧
        Answers g request inspection c) (fun _ => Ready g j.start) (Ready g j.start) t := by
  have steady (s t : World) (q : Steady s t) (h : Opened g x .initial s j) :
      Opened g x .initial t j := h.steady q
  have quiet (s t : World) (q : Quiet s t) (h : Opened g x .initial s j) :
      Opened g x .initial t j := h.steady q.toSteady
  have stop (t : World) (h : Opened g x .initial t j) : Ready g j.start t := h.ready
  refine Prog.holds_bind_of ((reads_clock x).keeps quiet stop h) fun _ t ⟨ht, _⟩ => ?_
  refine Prog.holds_bind_of ((reads_lift _).keeps quiet stop ht) fun _ t ⟨ht, _⟩ => ?_
  have current : Prog.Holds (inspectPublicState x)
      (fun _ t => Opened g x .initial t j) (fun _ => Ready g j.start) (Ready g j.start) t := by
    unfold Prog.Holds
    rw [inspectPublicState_locked ht.locked]
    exact ((reads_collect x .canonical).keeps quiet stop ht).mono (fun _ _ h => h.1)
      (fun _ _ e => e) fun _ e => e
  refine Prog.holds_bind_of current fun _ t ht => ?_
  refine Prog.holds_bind_of ((reads_lift _).keeps quiet stop ht) fun _ t ⟨ht, _⟩ => ?_
  refine Prog.holds_bind_of ((reads_lift _).keeps quiet stop ht) fun _ t ⟨ht, _⟩ => ?_
  refine Prog.holds_bind_of ((reads_demand _ _).keeps quiet stop ht) fun _ t ⟨ht, _⟩ => ?_
  refine Prog.holds_bind_of (Steadies.keeps (steadies_process fun _ => ⟨rfl, rfl⟩) steady stop ht)
    fun _ t ht => ?_
  refine Prog.holds_bind_of (importCertificateReply_keeps host request _ ht)
    fun _ t ⟨k, c, v, ht, same⟩ => ?_
  rw [← same]
  have steady (s t : World) (q : Steady s t) (h : Installed g x k c s v) : Installed g x k c t v :=
    h.steady q
  have quiet (s t : World) (q : Quiet s t) (h : Installed g x k c s v) : Installed g x k c t v :=
    h.steady q.toSteady
  have stop (t : World) (h : Installed g x k c t v) : Ready g v.start t := h.ready
  refine Prog.holds_bind_of (Steadies.keeps (steadies_process fun _ => ⟨rfl, rfl⟩) steady stop ht)
    fun _ t ht => ?_
  have after : Prog.Holds (inspectPublicState x)
      (fun state t => Installed g x k c t v ∧ g.host.read c = some state)
      (fun _ => Ready g v.start) (Ready g v.start) t := by
    unfold Prog.Holds
    rw [inspectPublicState_locked ht.locked]
    refine ((reads_collect x .canonical).keeps quiet stop ht).mono (fun state u ⟨hu, i, seen, read⟩ => ?_)
      (fun _ _ e => e) fun _ e => e
    obtain rfl : k = i := Option.some.inj (hu.canonical.symm.trans seen)
    rw [World.view_disk, hu.content, host] at read
    exact ⟨hu, read⟩
  refine Prog.holds_bind_of after fun state t ⟨ht, read⟩ => ?_
  refine Prog.holds_bind_of ((reads_clock x).keeps quiet stop ht) fun now t ⟨ht, _⟩ => ?_
  refine ((reads_lift _).keeps quiet stop ht).mono (fun inspection t ⟨ht, proved⟩ => ?_)
    (fun _ _ e => e) fun _ e => e
  rw [host] at proved
  exact ⟨k, c, v, ht, rfl, state, now, read, proved⟩

theorem installCertificate_keeps (host : x.host = g.host) (request : CertificateImportRequest)
    (inv : Inv g w) (journal : w.process.journal = none) :
    Prog.Holds (installCertificate x request)
      (fun inspection t => Inv g t ∧ Answered (Answers g request inspection) w.uuids t.disk)
      (fun _ => Inv g) (Inv g) w := by
  rw [installCertificate_eq, Prog.holds_handle]
  exact (exclusive_keeps (P := Answers g request) host request.before
    (fun t j h => installBody_keeps host request h) inv journal).mono (fun _ _ h => h) (fun _ _ h => h)
    fun _ h => h

end

end CertRenewer
