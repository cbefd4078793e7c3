import CertRenewer.Failures
import CertRenewer.System

/-!
# Frozen freshness

A request carries the instant at which the executor received it, and the leaf's
age is measured against that instant only. Once a request was accepted, time can
therefore turn it away in one way: the leaf or the CA expires.
-/

namespace CertRenewer

open Crash

/-- The instants at which a certificate is neither early nor expired. -/
def Certificate.Current (c : Certificate) (t : Time) : Prop := c.notValidBefore ≤ t ∧ t < c.notValidAfter

/-- What is documented of the libraries: the PEM text of a certificate loads as
this certificate, and a path that is verified at one instant at which all its
certificates are current is verified at any other. -/
structure Library.Timed (lib : Library) : Prop where
  reread : ∀ data ca again, loadTrustCertificates lib data = .ok [ca] →
    loadTrustCertificates lib ca.pem = .ok again → again = [ca]
  path : ∀ trusted identity c t t', c.Current t → c.Current t' →
    (∀ ca ∈ trusted, ca.Current t ∧ ca.Current t') →
    lib.verifiesPath trusted t identity c = lib.verifiesPath trusted t' identity c

/-- The readings of a validation and of a later one, in the order they are made. -/
structure Clock.Before (now later : Clock) : Prop where
  first : now.ca ≤ now.leaf
  between : now.leaf ≤ later.ca
  last : later.ca ≤ later.leaf

instance (now later : Clock) : Decidable (now.Before later) :=
  decidable_of_iff (now.ca ≤ now.leaf ∧ now.leaf ≤ later.ca ∧ later.ca ≤ later.leaf)
    ⟨fun ⟨first, between, last⟩ => ⟨first, between, last⟩, fun h => ⟨h.first, h.between, h.last⟩⟩

section
variable {lib : Library}

/-! ## One validation and a later one -/

theorem validateValidity_iff {c : Certificate} {days : Int} {now fresh skew : Time} :
    validateValidity c days now fresh skew = .ok () ↔
      c.notValidBefore < c.notValidAfter ∧ c.Current now ∧ fresh - skew ≤ c.notValidBefore ∧
        c.notValidBefore ≤ fresh ∧ c.notValidAfter - c.notValidBefore = days * microsecondsPerDay := by
  simp only [validateValidity, bind_eq_ok, require_eq_ok, exists_const, Certificate.Current, and_assoc]

theorem validateInstallationCa_iff {data : Bytes} {now : Time} {ca : Certificate} :
    validateInstallationCa lib data now = .ok ca ↔
      loadTrustCertificates lib data = .ok [ca] ∧ lib.selfIssued ca = true ∧ ca.Current now ∧
        validateSignatureHash ca = .ok () := by
  simp only [validateInstallationCa, bind_eq_ok, Certificate.Current]
  constructor
  · rintro ⟨certificates, loaded, h⟩
    rcases certificates with _ | ⟨only, _ | ⟨_, _⟩⟩
    · simp [fail] at h
    · simp only [bind_eq_ok, require_eq_ok, Except.ok.injEq] at h
      obtain ⟨_, self, _, current, _, hash, rfl⟩ := h
      exact ⟨loaded, self, current, hash⟩
    · simp [fail] at h
  · rintro ⟨loaded, self, current, hash⟩
    refine ⟨[ca], loaded, ?_⟩
    simp only [bind_eq_ok, require_eq_ok, exists_const]
    exact ⟨self, current, (), hash, trivial⟩

/-- The CA is accepted later too, unless it has expired. -/
theorem validateInstallationCa_later {data : Bytes} {now later : Time} {ca : Certificate}
    (h : validateInstallationCa lib data now = .ok ca) (order : now ≤ later) (valid : later < ca.notValidAfter) :
    validateInstallationCa lib data later = .ok ca := by
  obtain ⟨loaded, self, current, hash⟩ := validateInstallationCa_iff.mp h
  exact validateInstallationCa_iff.mpr ⟨loaded, self, ⟨Int.le_trans current.1 order, valid⟩, hash⟩

/-- The leaf is accepted later too, unless it or its CA has expired. -/
theorem validateIssued_later (timed : lib.Timed) {data trust : Bytes} {csrInfo : CsrInfo} {p : IssuancePolicy}
    {now later : Time} {ca leaf : Certificate} {info : CertificateInfo}
    (h : validateIssuedCertificate lib data csrInfo { p with trustedCaData := ca.pem } now = .ok info)
    (read : loadTrustCertificates lib trust = .ok [ca])
    (loaded : loadOneCertificate lib data maxIssuedCertificateBytes "issued certificate" = .ok leaf)
    (order : now ≤ later) (valid : later < leaf.notValidAfter)
    (current : ca.Current now) (still : later < ca.notValidAfter) :
    validateIssuedCertificate lib data csrInfo { p with trustedCaData := ca.pem } later = .ok info := by
  simp only [validateIssuedCertificate, bind_eq_ok, require_eq_ok, Except.ok.injEq] at h ⊢
  obtain ⟨_, days, _, policy, _, found, _, parsed, _, key, _, names, _, spki, _, subject, _, sans, _, extensions,
    _, validity, _, hash, _, signature, _, trusted, rfl⟩ := h
  cases loaded.symm.trans found
  obtain ⟨period, here, fresh⟩ := validateValidity_iff.mp validity
  have later' : leaf.Current later := ⟨Int.le_trans here.1 order, valid⟩
  refine ⟨(), days, (), policy, leaf, found, _, parsed, (), key, (), names, (), spki, (), subject, (), sans, (),
    extensions, (), validateValidity_iff.mpr ⟨period, later', fresh⟩, (), hash, (), signature, (), ?_, rfl⟩
  have again : loadTrustCertificates lib ca.pem = .ok [ca] := by
    obtain ⟨again, loadedAgain, _⟩ := bind_eq_ok.mp trusted
    rw [loadedAgain, timed.reread trust ca again read loadedAgain]
  have same (identity : GeneralName) :
      lib.verifiesPath [ca] later identity leaf = lib.verifiesPath [ca] now identity leaf := by
    refine timed.path _ _ _ _ _ later' here fun c member => ?_
    obtain rfl := List.mem_singleton.mp member
    exact ⟨⟨Int.le_trans current.1 order, still⟩, current⟩
  rw [← trusted]
  simp only [verifyCaTrust, again, bind, Except.bind, same]

/-- The certificates that bound a request in time. -/
structure Bounds (lib : Library) (r : CertificateImportRequest) (ca leaf : Certificate) : Prop where
  ca : loadTrustCertificates lib r.issuance.trustedCaData = .ok [ca]
  leaf : loadOneCertificate lib r.issuedCertificate maxIssuedCertificateBytes "issued certificate" = .ok leaf

theorem prepare_bounds {r : CertificateImportRequest} {now : Clock} {plan : CertificateImportPlan}
    (h : prepareCertificateImport lib r now = .ok plan) :
    ∃ ca leaf, Bounds lib r ca leaf ∧ now.ca < ca.notValidAfter ∧ leaf.Current now.leaf ∧
      r.issuance.freshnessReferenceTime - defaultClockSkew ≤ leaf.notValidBefore ∧
      leaf.notValidBefore ≤ r.issuance.freshnessReferenceTime := by
  obtain ⟨_, _, ca, leaf, _, _, _, installed, issued, loaded, _⟩ := prepare_spec lib h
  obtain ⟨trust, _, current, _⟩ := validateInstallationCa_iff.mp installed
  simp only [validateIssuedCertificate, bind_eq_ok, require_eq_ok, Except.ok.injEq] at issued
  obtain ⟨_, _, _, _, _, found, _, _, _, _, _, _, _, _, _, _, _, _, _, _, _, validity, _⟩ := issued
  cases loaded.symm.trans found
  obtain ⟨_, here, notBackdated, notPostdated, _⟩ := validateValidity_iff.mp validity
  exact ⟨ca, leaf, ⟨trust, loaded⟩, current.2, here, notBackdated, notPostdated⟩

/-- What was prepared once is prepared again, until the leaf or its CA expires. -/
theorem prepare_later (timed : lib.Timed) {r : CertificateImportRequest} {now later : Clock}
    {plan : CertificateImportPlan} {ca leaf : Certificate} (bounds : Bounds lib r ca leaf)
    (h : prepareCertificateImport lib r now = .ok plan) (order : now.Before later)
    (leafValid : later.leaf < leaf.notValidAfter) (caValid : later.leaf < ca.notValidAfter) :
    prepareCertificateImport lib r later = .ok plan := by
  simp only [prepareCertificateImport, buildValidatedCertificateReply, bind_eq_ok] at h ⊢
  obtain ⟨before, inspected, csrInfo, requested, _, spki, reply, ⟨found, installed, info, issued, rest⟩, done⟩ := h
  obtain ⟨trust, _, current, _⟩ := validateInstallationCa_iff.mp installed
  cases bounds.ca.symm.trans trust
  have elapsed : now.leaf ≤ later.leaf := Int.le_trans order.between order.last
  have still : ca.Current now.leaf := ⟨Int.le_trans current.1 order.first, Int.lt_of_le_of_lt elapsed caValid⟩
  refine ⟨before, inspected, csrInfo, requested, (), spki, reply, ⟨ca, ?_, info, ?_, rest⟩, done⟩
  · exact validateInstallationCa_later installed (Int.le_trans order.first order.between)
      (Int.lt_of_le_of_lt order.last caValid)
  · exact validateIssued_later timed issued trust bounds.leaf elapsed leafValid still caValid

/-- An expired leaf or CA is never prepared. -/
theorem prepare_unexpired {r : CertificateImportRequest} {now : Clock} {plan : CertificateImportPlan}
    {ca leaf : Certificate} (bounds : Bounds lib r ca leaf)
    (h : prepareCertificateImport lib r now = .ok plan) :
    now.ca < ca.notValidAfter ∧ now.leaf < leaf.notValidAfter := by
  obtain ⟨_, _, found, current, here, _⟩ := prepare_bounds h
  cases bounds.ca.symm.trans found.ca
  cases bounds.leaf.symm.trans found.leaf
  exact ⟨current, here.2⟩

/-- An instant after `now` at which neither certificate has expired counts as
`now`; any other counts as itself. -/
def Clock.settle (now : Clock) (ca leaf : Certificate) (later : Clock) : Clock :=
  if now.Before later ∧ later.leaf < leaf.notValidAfter ∧ later.leaf < ca.notValidAfter then now else later

theorem prepare_settle (timed : lib.Timed) {r : CertificateImportRequest} {now : Clock}
    {plan : CertificateImportPlan} {ca leaf : Certificate} (bounds : Bounds lib r ca leaf)
    (h : prepareCertificateImport lib r now = .ok plan) (later : Clock) :
    prepareCertificateImport lib r (now.settle ca leaf later) = prepareCertificateImport lib r later := by
  unfold Clock.settle
  split
  · rename_i unexpired
    rw [h, prepare_later timed bounds h unexpired.1 unexpired.2.1 unexpired.2.2]
  · rfl

end

/-! ## The transaction -/

section
variable (x : Session) (pick : Clock → Clock)

/-! The transaction, with each validation at an instant picked for it. -/

def checkImportAt (request : CertificateImportRequest) (expectedBefore : PublicKeystoreState) :
    Exec Checked := do
  assertLocked
  let p ← Prog.read World.process
  demand (p.journal.map Journal.phase = some .quiesced) "new quiesced transaction required"
  let plan ← lift (prepareCertificateImport x.host.lib request (pick (← clock x)))
  let csrInfo ← lift (inspectCsr x.host.lib request.csrPem)
  demand (certificateMatchesPolicy x request csrInfo plan) "certificate differs from executor policy"
  stopped x
  let current ← collect x .canonical
  demand ((← lift (samePublic x.host.lib current request.before)) = true)
    "stale public import request"
  demand ((← lift (samePublic x.host.lib current expectedBefore)) = true)
    "stale public import request"
  let old ← status x .canonical
  let j ← getJournal
  let id ← lift (publicId x.host.lib current)
  demand (old.fileId = j.oldInode ∧ id = j.old) "canonical differs from journal"
  let issued : PublicId :=
    ⟨plan.issued.spkiSha256, plan.certificateChainDer.map x.host.lib.sha256⟩
  pure ⟨plan, current, old, issued⟩

def stageImportAt (request : CertificateImportRequest) (c : Checked) : Exec (Stat × Stat) := do
  phase x .staging fun j => { j with issued := some c.issued }
  copyStage x
  let stage ← status x .stage
  phase x .staging fun j => { j with stageInode := some stage.fileId }
  let copied ← collect x .stage
  demand ((← lift (samePublic x.host.lib copied c.current)) = true) "stage differs before import"
  let _ ← keytool x .stage (.importcert c.plan.replyPem)
  let after ← status x .stage
  demand (after.fileId = stage.fileId) "stage inode replaced during import"
  let state ← collect x .stage
  let now ← clock x
  let _ ← lift (verifyCertificateImport x.host.lib state request (pick now))
  emit (.stageVerified x.policy request now)
  let validated ← status x .stage
  syncFile x .stage
  phase x .stagedValidated
  pure (stage, validated)

def commitStageAt (request : CertificateImportRequest) (rollback stage validated : Stat) :
    Exec Unit := do
  phase x .commitPossible fun j => { j with commitPossible := true }
  stopped x
  same x .canonical rollback
  same x .stage validated
  replace x .stage .canonical
  syncDirectory x
  phase x .committed
  let info ← status x .canonical
  demand (info.fileId = stage.fileId) "committed inode differs"
  let state ← collect x .canonical
  let _ ← lift (verifyCertificateImport x.host.lib state request (pick (← clock x)))
  phase x .canonicalVerified

def importCertificateReplyAt (request : CertificateImportRequest)
    (expectedBefore : PublicKeystoreState) : Exec Unit := do
  let c ← checkImportAt x pick request expectedBefore
  let (stage, validated) ← stageImportAt x pick request c
  let rollback ← retainRollback x c
  commitStageAt x pick request rollback stage validated

def installCertificateAt (request : CertificateImportRequest) : Exec UnifiCertificateInspection :=
  Prog.handle
    (exclusive x request.before do
      let _ ← lift (prepareCertificateImport x.host.lib request (pick (← clock x)))
      let current ← inspectPublicState x
      let oldInfo ← lift (inspectPublicKeystoreState x.host.lib request.before)
      let currentInfo ← lift (inspectPublicKeystoreState x.host.lib current)
      demand (currentInfo = oldInfo ∧
          current.certificateChainDer = request.before.certificateChainDer)
        "public keystore state changed before import"
      setProcess fun p => { p with stage := .import }
      importCertificateReplyAt x pick request current
      setProcess fun p => { p with stage := .postImport }
      let after ← inspectPublicState x
      lift (verifyCertificateImport x.host.lib after request (pick (← clock x))))
    (fun e => do
      let p ← Prog.read World.process
      Prog.raise (.masked s!"UniFi {p.stage.text} failed" e))

/-- At the instants the clock shows, this is the transaction itself. -/
theorem installCertificateAt_id (request : CertificateImportRequest) :
    installCertificateAt x id request = installCertificate x request := rfl

variable {x pick} in
/-- Instants at which a request is prepared alike make no difference. -/
theorem installCertificateAt_eq {request : CertificateImportRequest}
    (same : ∀ t, prepareCertificateImport x.host.lib request (pick t) =
      prepareCertificateImport x.host.lib request t) :
    installCertificateAt x pick request = installCertificate x request := by
  have verified (state : PublicKeystoreState) (t : Clock) :
      verifyCertificateImport x.host.lib state request (pick t) =
        verifyCertificateImport x.host.lib state request t := by
    rw [verifyCertificateImport, same, verifyCertificateImport]
  rw [← installCertificateAt_id]
  simp only [installCertificateAt, importCertificateReplyAt, checkImportAt, stageImportAt, commitStageAt, same,
    verified, id_eq]

end

/-! ## The preflight -/

section
variable {x : Session} {w : World}

theorem primitive_ticks {α : Type} {m : Exec α} {Q : α → World → Prop}
    (effect : Prog.Holds m Q (fun _ _ => True) (fun _ => True) { w with tick := w.tick + 1 }) :
    Prog.Holds (primitive x m) Q (fun _ _ => True) (fun _ => True) w :=
  Prog.holds_interrupted _ effect (fun _ => ⟨trivial, trivial⟩) fun _ _ _ _ => ⟨trivial, trivial⟩

theorem clock_ticks : Prog.Holds (clock x)
    (fun now t => now = ⟨x.oracle.clock (w.tick + 1), x.oracle.clock (w.tick + 2)⟩ ∧ t.tick = w.tick + 2)
    (fun _ _ => True) (fun _ => True) w := by
  have reading (u : World) : Prog.Holds (primitive x (Prog.read fun w => x.oracle.clock w.tick))
      (fun time t => time = x.oracle.clock (u.tick + 1) ∧ t.tick = u.tick + 1) (fun _ _ => True)
      (fun _ => True) u := primitive_ticks ⟨rfl, rfl⟩
  refine Prog.holds_bind_of (reading w) fun ca u ⟨first, tick⟩ => ?_
  refine Prog.holds_bind_of (reading u) fun leaf v ⟨second, tock⟩ => ?_
  rw [tick] at second tock
  exact ⟨by rw [first, second], tock⟩

/-- What an accepted install message was checked with: the first reading of the
clock is its reference, the next two are those of its validation. -/
structure Preflight (x : Session) (w : World) (value : Json) (request : CertificateImportRequest) : Prop where
  rebuilt : ∃ fields, exactDict value ["before", "csr_pem", "issued_certificate"] = .ok fields ∧
    rebuildRequest x fields (x.oracle.clock (w.tick + 1)) = .ok request
  prepared : ∃ plan, prepareCertificateImport x.host.lib request
    ⟨x.oracle.clock (w.tick + 2), x.oracle.clock (w.tick + 3)⟩ = .ok plan

theorem decodeImportRequest_preflight (value : Json) : Prog.Holds (decodeImportRequest x value)
    (fun request _ => Preflight x w value request) (fun _ _ => True) (fun _ => True) w := by
  unfold decodeImportRequest lift
  rw [Prog.holds_bind, Prog.holds_ofExcept]
  refine ⟨fun fields split => ?_, fun _ _ => trivial⟩
  have stamp : Prog.Holds (stampFreshness x)
      (fun time t => time = x.oracle.clock (w.tick + 1) ∧ t.tick = w.tick + 1) (fun _ _ => True)
      (fun _ => True) w := primitive_ticks ⟨rfl, rfl⟩
  refine Prog.holds_bind_of stamp fun freshness u ⟨first, tick⟩ => ?_
  rw [Prog.holds_bind, Prog.holds_ofExcept]
  refine ⟨fun request rebuilt => ?_, fun _ _ => trivial⟩
  refine Prog.holds_bind_of clock_ticks fun now v ⟨reading, _⟩ => ?_
  rw [Prog.holds_bind, Prog.holds_ofExcept]
  refine ⟨fun plan prepared => ?_, fun _ _ => trivial⟩
  rw [Prog.holds_bind, Prog.holds_ofExcept]
  refine ⟨fun csrInfo _ => ?_, fun _ _ => trivial⟩
  rw [first] at rebuilt
  rw [reading, tick] at prepared
  rw [Prog.holds_bind]
  exact (Prog.holds_guard _ _).mpr ⟨fun _ => ⟨⟨fields, split, rebuilt⟩, plan, prepared⟩, fun _ => trivial⟩

/-- An install message whose leaf is not of the last five minutes, by the
executor's clock. -/
structure Misdated (x : Session) (w : World) (message : Json) : Prop where
  request : ∃ arguments digest value fields request leaf,
    decodeEnvelope message = .ok (.install, arguments) ∧
    exactDict arguments ["policy_digest", "request"] = .ok [digest, value] ∧
    exactDict value ["before", "csr_pem", "issued_certificate"] = .ok fields ∧
    rebuildRequest x fields (x.oracle.clock (w.tick + 1)) = .ok request ∧
    loadOneCertificate x.host.lib request.issuedCertificate maxIssuedCertificateBytes
      "issued certificate" = .ok leaf ∧
    (leaf.notValidBefore + defaultClockSkew < x.oracle.clock (w.tick + 1) ∨
      x.oracle.clock (w.tick + 1) < leaf.notValidBefore)

theorem Preflight.fresh {value : Json} {request : CertificateImportRequest} (h : Preflight x w value request)
    {leaf : Certificate} (loaded : loadOneCertificate x.host.lib request.issuedCertificate
      maxIssuedCertificateBytes "issued certificate" = .ok leaf) :
    leaf.notValidBefore ≤ x.oracle.clock (w.tick + 1) ∧
      x.oracle.clock (w.tick + 1) ≤ leaf.notValidBefore + defaultClockSkew := by
  obtain ⟨fields, _, rebuilt⟩ := h.rebuilt
  obtain ⟨plan, prepared⟩ := h.prepared
  obtain ⟨_, found, bounds, _, _, notBackdated, notPostdated⟩ := prepare_bounds prepared
  cases loaded.symm.trans bounds.leaf
  rw [rebuildRequest_freshness rebuilt] at notBackdated notPostdated
  exact ⟨notPostdated, Int.le_add_of_sub_right_le notBackdated⟩

theorem handle_misdated {message : Json} (h : Misdated x w message) :
    Prog.Holds (handle x (some message)) (fun r t => r = .failed ∧ Traceless w t) (fun _ _ => False)
      (Traceless w) w := by
  obtain ⟨arguments, digest, value, fields, request, leaf, decoded, split, exact_, rebuilt, loaded, outside⟩ :=
    h.request
  refine handle_failed ?_
  rw [dispatch_of_install decoded, serveInstall_of_split split]
  unfold lift
  rw [Prog.holds_bind, Prog.holds_ofExcept]
  refine ⟨fun _ _ => ?_, fun _ _ => (Passive.refl _ w).traceless⟩
  have impossible (accepted : CertificateImportRequest) (preflight : Preflight x w value accepted) : False := by
    obtain ⟨fields', exact', rebuilt'⟩ := preflight.rebuilt
    cases exact_.symm.trans exact'
    cases rebuilt.symm.trans rebuilt'
    obtain ⟨notPostdated, notBackdated⟩ := preflight.fresh loaded
    rcases outside with late | early
    · exact Int.not_lt.mpr notBackdated late
    · exact Int.not_lt.mpr notPostdated early
  have rejected : Prog.Holds (decodeImportRequest x value) (fun _ _ => False) (fun _ => Traceless w)
      (Traceless w) w :=
    ((looks_decodeImportRequest stamped_unstopping value w).and (decodeImportRequest_preflight value)).mono
      (fun accepted _ checked => impossible accepted checked.2) (fun _ _ h => h.1.traceless)
      fun _ h => h.1.traceless
  exact Prog.holds_bind_of rejected fun _ _ no => no.elim

end

/-! ## The law -/

/-- After the preflight time does nothing but expire the leaf and its CA, and
before it a leaf must be fresh. -/
theorem freshness_is_frozen (lib : Library) (timed : lib.Timed) :
    (∀ (r : CertificateImportRequest) (t₁ t₂ : Time) (plan : CertificateImportPlan), t₁ ≤ t₂ →
      prepareCertificateImport lib r ⟨t₁, t₁⟩ = .ok plan →
      ∃ ca leaf, Bounds lib r ca leaf ∧
        (t₂ < leaf.notValidAfter ∧ t₂ < ca.notValidAfter →
          prepareCertificateImport lib r ⟨t₂, t₂⟩ = .ok plan) ∧
        (leaf.notValidAfter ≤ t₂ ∨ ca.notValidAfter ≤ t₂ →
          ∀ later, prepareCertificateImport lib r ⟨t₂, t₂⟩ ≠ .ok later)) ∧
      (∀ (x : Session) (w t : World) (value : Json) (request : CertificateImportRequest), x.host.lib = lib →
        decodeImportRequest x value w = (.ok request, t) →
        ∃ now plan ca leaf, now = ⟨x.oracle.clock (w.tick + 2), x.oracle.clock (w.tick + 3)⟩ ∧
          prepareCertificateImport lib request now = .ok plan ∧ Bounds lib request ca leaf ∧
          installCertificate x request = installCertificateAt x (now.settle ca leaf) request) ∧
      ∀ (x : Session) (w : World) (message : Json), Misdated x w message →
        Prog.Holds (handle x (some message)) (fun r t => r = .failed ∧ Traceless w t) (fun _ _ => False)
          (Traceless w) w := by
  refine ⟨fun r t₁ t₂ plan order h => ?_, fun x w t value request host run => ?_, fun _ _ _ h => handle_misdated h⟩
  · obtain ⟨ca, leaf, bounds, _⟩ := prepare_bounds h
    refine ⟨ca, leaf, bounds, fun valid => ?_, fun expired later again => ?_⟩
    · exact prepare_later timed bounds h ⟨Int.le_refl _, order, Int.le_refl _⟩ valid.1 valid.2
    · obtain ⟨current, here⟩ := prepare_unexpired bounds again
      rcases expired with leafExpired | caExpired
      · exact Int.not_lt.mpr leafExpired here
      · exact Int.not_lt.mpr caExpired current
  · have preflight : Preflight x w value request := (decodeImportRequest_preflight value).ok run
    obtain ⟨plan, prepared⟩ := preflight.prepared
    obtain rfl := host
    obtain ⟨ca, leaf, bounds, _⟩ := prepare_bounds prepared
    exact ⟨_, plan, ca, leaf, rfl, prepared, bounds,
      (installCertificateAt_eq fun later => prepare_settle timed bounds prepared later).symm⟩

/-! A host that verifies paths by the clock. -/

def Sample.punctual : Library := { library with
  verifiesPath trusted t _ c :=
    (c :: trusted).all fun c => decide (c.notValidBefore ≤ t) && decide (t < c.notValidAfter) }

theorem Sample.load_pem {data : Bytes} {c : Certificate} (h : load data = some c) : c.pem = data := by
  unfold load at h
  split at h
  · cases h
    exact (by assumption : data = [1]).symm
  split at h
  · cases h
    exact (by assumption : data = [2, 2]).symm
  split at h
  · cases h
    exact (by assumption : data = [3, 3, 3]).symm
  · cases h

theorem Sample.punctual_timed : punctual.Timed where
  reread data ca again first second := by
    have pem : ca.pem = data := by
      simp only [loadTrustCertificates, bind_eq_ok] at first
      obtain ⟨_, _, _, _, read⟩ := first
      split at read
      · simp only [bind_eq_ok, orFail_eq_ok, punctual, library, Except.ok.injEq] at read
        obtain ⟨_, _, _, loaded, _, _, _, _, rfl⟩ := read
        obtain ⟨c, found, same⟩ := Option.map_eq_some_iff.mp loaded
        cases same
        exact load_pem found
      · simp only [bind_eq_ok, orFail_eq_ok, punctual, library, Except.ok.injEq] at read
        obtain ⟨c, found, _, rfl, _, _, _, _, same⟩ := read
        cases same
        exact load_pem found
    rw [pem] at second
    exact Except.ok.inj (second.symm.trans first)
  path trusted identity c t t' first second others := by
    have current (u : Time) (leaf : c.Current u) (all : ∀ ca ∈ trusted, ca.Current u) :
        punctual.verifiesPath trusted u identity c = true := by
      refine List.all_eq_true.mpr fun d member => ?_
      have here : d.Current u := by
        rcases List.mem_cons.mp member with rfl | there
        · exact leaf
        · exact all d there
      simpa [Certificate.Current] using here
    rw [current t first fun ca member => (others ca member).1,
      current t' second fun ca member => (others ca member).2]

theorem sample_freshness_is_frozen :
    ∃ plan, prepareCertificateImport Sample.punctual Sample.request ⟨0, 0⟩ = .ok plan ∧
      prepareCertificateImport Sample.punctual Sample.request ⟨1, 1⟩ = .ok plan ∧
      ∀ later, prepareCertificateImport Sample.punctual Sample.request
        ⟨microsecondsPerDay, microsecondsPerDay⟩ ≠ .ok later := by
  have prepared : ∃ plan, prepareCertificateImport Sample.punctual Sample.request ⟨0, 0⟩ = .ok plan := ⟨_, rfl⟩
  obtain ⟨plan, run⟩ := prepared
  have law := (freshness_is_frozen Sample.punctual Sample.punctual_timed).1 Sample.request 0
  obtain ⟨ca, leaf, bounds, valid, _⟩ := law 1 plan (by decide) run
  obtain ⟨_, leaf', bounds', _, expired⟩ := law microsecondsPerDay plan (by decide) run
  have loaded : loadOneCertificate Sample.punctual Sample.request.issuedCertificate maxIssuedCertificateBytes
      "issued certificate" = .ok (Sample.certificate [3, 3, 3] [7] false) := rfl
  have trusted : loadTrustCertificates Sample.punctual Sample.request.issuance.trustedCaData =
      .ok [Sample.certificate [2, 2] [8] true] := rfl
  cases bounds.leaf.symm.trans loaded
  cases bounds.ca.symm.trans trusted
  cases bounds'.leaf.symm.trans loaded
  exact ⟨plan, run, valid (by decide), expired (Or.inl (by decide))⟩

end CertRenewer
