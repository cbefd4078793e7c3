import CertRenewer.Freshness
import CertRenewer.Worker

/-!
# What a run gives account of

The requests that change something are sent in one order, each at most once, and
the evidence follows them: a run is as far as `reached` says, whatever step it
fails at.
-/

namespace CertRenewer.Worker

open Crash (Prog)

/-! ## What is issued leaves the window -/

/-- An accepted leaf has the lifetime asked for, from at most five minutes
before its reference. -/
theorem prepare_lifetime {lib : Library} {r : CertificateImportRequest} {now : Clock} {plan : CertificateImportPlan}
    (h : prepareCertificateImport lib r now = .ok plan) :
    r.issuance.freshnessReferenceTime - defaultClockSkew ≤ plan.issued.notValidBefore ∧
      plan.issued.notValidBefore ≤ r.issuance.freshnessReferenceTime ∧
      plan.issued.notValidAfter - plan.issued.notValidBefore = r.issuance.lifetimeDays * microsecondsPerDay := by
  obtain ⟨_, _, _, _, _, _, _, _, issued, _⟩ := prepare_spec lib h
  simp only [validateIssuedCertificate, bind_eq_ok, require_eq_ok, Except.ok.injEq] at issued
  obtain ⟨_, _, _, _, leaf, _, info, read, _, _, _, _, _, _, _, _, _, _, _, _, _, validity, issued⟩ := issued
  obtain ⟨_, _, _, _, _, _, rfl⟩ := issued
  obtain ⟨_, _, notBackdated, notPostdated, lifetime⟩ := validateValidity_iff.mp validity
  simp only [certificateInfo, bind_eq_ok, Except.ok.injEq] at read
  obtain ⟨_, _, _, _, info⟩ := read
  rw [← info]
  exact ⟨notBackdated, notPostdated, lifetime⟩

/-- One day is more than the five minutes a leaf may be older. -/
theorem expires_later {first last reference days lifetime : Int} (notBackdated : reference - 5 * 60000000 ≤ first)
    (exactly : last - first = lifetime * 86400000000) (below : days < lifetime) :
    ¬last ≤ reference + days * 86400000000 := by omega

theorem remainsInWindow_eq_false {lib : Library} {r : CertificateImportRequest} {now : Clock}
    {plan : CertificateImportPlan} (h : prepareCertificateImport lib r now = .ok plan) {minimum : Option Int}
    (below : ∀ days, minimum = some days → days < r.issuance.lifetimeDays) :
    remainsInWindow plan.issued minimum r.issuance.freshnessReferenceTime = false := by
  obtain ⟨notBackdated, _, lifetime⟩ := prepare_lifetime h
  cases minimum with
  | none => rfl
  | some days =>
    simp only [remainsInWindow, Option.any_some, decide_eq_false_iff_not]
    exact expires_later notBackdated lifetime (below days rfl)

/-! ## How far a run is -/

/-- The requests and their validated results, in the order of a run. -/
def acts : List Act := [.signingDispatched, .saved, .installDispatched, .installed, .verifyDispatched, .finalized]

/-- The milestone of a request: sent as act `n`, validated as the next. -/
def milestoneAfter (n k : Nat) : Milestone :=
  if k ≤ n then .notAttempted else if k = n + 1 then .uncertain else .confirmed

def changeAfter (k : Nat) : Change :=
  if k = 0 then .none else if k = 1 then .possible else .confirmed

/-- The trace holds the first `k` acts, and the evidence says so. -/
structure Reached (k : Nat) (s : Progress) : Prop where
  bound : k ≤ 6
  trace : s.trace = acts.take k
  issuance : s.evidence.target.milestones .issuance = milestoneAfter 0 k
  installation : s.evidence.target.milestones .installation = milestoneAfter 2 k
  activation : s.evidence.target.milestones .activation = milestoneAfter 4 k
  liveTls : s.evidence.target.milestones .liveTls = milestoneAfter 4 k
  change : s.evidence.target.change = changeAfter k
  csr : s.evidence.target.milestones .csr ≠ .uncertain

def CsrConfirmed (s : Progress) : Prop := s.evidence.target.milestones .csr = .confirmed

/-- The fault comes from a certificate that is due as soon as it is issued. -/
def Fault.windowed : Fault → Bool
  | .remainsInRenewalWindow => true
  | .masked _ cause => cause.windowed
  | _ => false

/-! ## Steps that send nothing -/

/-- Nothing was sent, and what was confirmed stays so. -/
structure Still (s t : Progress) : Prop where
  trace : t.trace = s.trace
  milestones : ∀ name, name ≠ .csr → t.evidence.target.milestones name = s.evidence.target.milestones name
  change : t.evidence.target.change = s.evidence.target.change
  csr : t.evidence.target.milestones .csr = s.evidence.target.milestones .csr ∨ CsrConfirmed t

theorem Still.refl (s : Progress) : Still s s := ⟨rfl, fun _ _ => rfl, rfl, Or.inl rfl⟩

theorem Still.trans {s t u : Progress} (h : Still s t) (k : Still t u) : Still s u := by
  refine ⟨k.trace.trans h.trace, fun name other => (k.milestones name other).trans (h.milestones name other),
    k.change.trans h.change, ?_⟩
  rcases k.csr with same | confirmed
  · exact h.csr.imp same.trans same.trans
  · exact Or.inr confirmed

theorem Still.confirmed {s t : Progress} (h : Still s t) (c : CsrConfirmed s) : CsrConfirmed t := by
  rcases h.csr with same | confirmed
  · exact same.trans c
  · exact confirmed

theorem Reached.still {k : Nat} {s t : Progress} (h : Reached k s) (still : Still s t) : Reached k t := by
  refine ⟨h.bound, still.trace.trans h.trace, (still.milestones _ (by decide)).trans h.issuance,
    (still.milestones _ (by decide)).trans h.installation, (still.milestones _ (by decide)).trans h.activation,
    (still.milestones _ (by decide)).trans h.liveTls, still.change.trans h.change, ?_⟩
  rcases still.csr with same | confirmed
  · rw [same]
    exact h.csr
  · rw [confirmed]
    decide

/-- A step that sends nothing, whatever happens, and does not find the window. -/
def Calm {α : Type} (m : Work α) : Prop :=
  ∀ s, Prog.Holds m (fun _ => Still s) (fun f t => Still s t ∧ f.windowed = false) (Still s) s

section
variable {α β : Type} {p : Peers}

theorem calm_pure (a : α) : Calm (pure a : Work α) := fun s => Still.refl s

theorem calm_stop (message : String) : Calm (stop message : Work α) := fun s => ⟨Still.refl s, rfl⟩

theorem calm_check (r : Result α) : Calm (check r) := fun s => by
  cases r with
  | ok a => exact Still.refl s
  | error e => exact ⟨Still.refl s, rfl⟩

theorem calm_insist (q : Prop) [Decidable q] (message : String) : Calm (insist q message) := by
  unfold insist
  split
  · exact calm_pure ()
  · exact calm_stop message

theorem calm_bind {m : Work β} {f : β → Work α} (first : Calm m) (rest : ∀ b, Calm (f b)) : Calm (m >>= f) :=
  fun s => Prog.holds_bind_of (first s) fun b t still => (rest b t).mono (fun _ _ h => still.trans h)
    (fun _ _ h => ⟨still.trans h.1, h.2⟩) fun _ h => still.trans h

theorem calm_check_bind {r : Result β} {f : β → Work α} (rest : ∀ b, r = .ok b → Calm (f b)) :
    Calm (check r >>= f) := fun s => by
  cases r with
  | ok b => exact rest b rfl s
  | error e => exact ⟨Still.refl s, rfl⟩

theorem calm_read (f : Progress → α) : Calm (Prog.read f : Work α) := fun s => Still.refl s

theorem calm_update {f : Progress → Progress} (still : ∀ s, Still s (f s)) : Calm (Prog.update f : Work Unit) :=
  still

theorem calm_during {message : String} {m : Work α} (h : Calm m) : Calm (during message m) := fun s => by
  unfold during
  rw [Prog.holds_handle]
  exact (h s).mono (fun _ _ h => h) (fun _ _ h => ⟨h.1, h.2⟩) fun _ h => h

theorem calm_setStage (stage : Stage) : Calm (setStage stage) :=
  calm_update fun _ => ⟨rfl, fun _ _ => rfl, rfl, Or.inl rfl⟩

theorem calm_nextCall : Calm nextCall :=
  calm_bind (calm_read _) fun _ =>
    calm_bind (calm_update fun _ => ⟨rfl, fun _ _ => rfl, rfl, Or.inl rfl⟩) fun _ => calm_pure _

theorem calm_currentTime : Calm (currentTime p) := calm_bind calm_nextCall fun _ => calm_pure _

theorem calm_clocks : Calm (clocks p) :=
  calm_bind calm_currentTime fun _ => calm_bind calm_currentTime fun _ => calm_pure _

/-- A call whose operation has no hook. -/
theorem calm_call {operation : OperationName} (quiet : dispatched operation = pure ()) : Calm (call p operation) := by
  refine calm_during (calm_bind calm_nextCall fun n => ?_)
  rw [quiet]
  split
  · exact calm_stop _
  · exact calm_bind (calm_pure _) fun _ => calm_stop _
  · exact calm_bind (calm_pure _) fun _ => calm_check _

theorem calm_boundaryInspect : Calm (boundaryInspect p) := by
  refine calm_bind (calm_read _) fun s => ?_
  split
  · exact calm_pure _
  · exact calm_bind (calm_call rfl) fun _ => calm_check _

theorem calm_inspectCurrent (policy : CertificatePolicy) : Calm (inspectCurrent p policy) :=
  calm_during (calm_bind (calm_check _) fun _ => calm_bind calm_boundaryInspect fun _ =>
    calm_bind (calm_check _) fun _ => calm_bind (calm_insist _ _) fun _ => calm_pure _)

theorem calm_requestCsr (policy : CertificatePolicy) : Calm (requestCsr p policy) :=
  calm_during (calm_bind (calm_check _) fun _ =>
    calm_bind (calm_bind (calm_call rfl) fun _ => calm_check _) fun _ =>
      calm_bind (calm_check _) fun _ => calm_pure _)

theorem calm_requestJson : Calm (requestJson p (pure ())) := by
  refine calm_bind calm_nextCall fun n => ?_
  split
  · exact calm_stop _
  · exact calm_bind (calm_pure _) fun _ => calm_stop _
  · exact calm_bind (calm_pure _) fun _ => calm_pure _
  · exact calm_bind (calm_pure _) fun _ => calm_stop _

theorem calm_resolveCa (description : String) : Calm (resolveCa p description) :=
  calm_bind (calm_check _) fun _ => calm_bind calm_requestJson fun _ => calm_check _

theorem calm_getCertificate (certificate : String) : Calm (getCertificate p certificate) :=
  calm_bind (calm_check _) fun _ => calm_bind calm_requestJson fun _ => calm_check _

theorem calm_validateSettings (config : ProductionConfig) (minimum : Option Int) :
    Calm (validateSettings p config minimum) :=
  calm_during (calm_bind (calm_setStage _) fun _ => calm_bind (calm_insist _ _) fun _ =>
    calm_bind (calm_insist _ _) fun _ => calm_bind calm_currentTime fun _ => calm_check _)

theorem calm_setCertificate (certificate : Option CertificateInfo) :
    Calm (record fun e => { e with certificate := certificate }) :=
  calm_update fun _ => ⟨rfl, fun _ _ => rfl, rfl, Or.inl rfl⟩

theorem still_confirmCsr (s : Progress) : Still s { s with evidence := s.evidence.confirm .csr } := by
  refine ⟨rfl, fun name other => ?_, rfl, Or.inr rfl⟩
  exact Function.update_of_ne other _ _

/-! ## Steps that send -/

/-- How far the run is, with what was confirmed of the request. -/
structure Grade (k : Nat) (s t : Progress) : Prop where
  reached : Reached k t
  csr : CsrConfirmed s → CsrConfirmed t

theorem Grade.still {k : Nat} {s t u : Progress} (h : Grade k s t) (still : Still t u) : Grade k s u :=
  ⟨h.reached.still still, fun c => still.confirmed (h.csr c)⟩

/-- A run that stopped before its end. -/
def Short (t : Progress) : Prop := ∃ k, k < 6 ∧ Reached k t

abbrev Stops (f : Fault) (t : Progress) : Prop := Short t ∧ f.windowed = false

theorem Reached.short {k : Nat} {t : Progress} (h : Reached k t) (before : k < 6) : Short t := ⟨k, before, h⟩

theorem Calm.keeps {m : Work α} (h : Calm m) {k : Nat} {s t : Progress} (before : k < 6) (now : Grade k s t) :
    Prog.Holds m (fun _ => Grade k s) Stops Short t :=
  (h t).mono (fun _ _ still => now.still still)
    (fun _ _ failed => ⟨(now.reached.still failed.1).short before, failed.2⟩)
    fun _ still => (now.reached.still still).short before

theorem holds_during {message : String} {m : Work α} {Q : α → Progress → Prop} {s : Progress}
    (h : Prog.Holds m Q Stops Short s) : Prog.Holds (during message m) Q Stops Short s := by
  unfold during
  rw [Prog.holds_handle]
  exact h.mono (fun _ _ h => h) (fun _ _ h => h) fun _ h => h

/-- Act `k` and what the evidence says of it. -/
theorem Reached.next {k : Nat} {s : Progress} {act : Act} {e : RunEvidence} (h : Reached k s) (before : k < 6)
    (this : acts[k]? = some act) (issuance : e.target.milestones .issuance = milestoneAfter 0 (k + 1))
    (installation : e.target.milestones .installation = milestoneAfter 2 (k + 1))
    (activation : e.target.milestones .activation = milestoneAfter 4 (k + 1))
    (liveTls : e.target.milestones .liveTls = milestoneAfter 4 (k + 1))
    (change : e.target.change = changeAfter (k + 1))
    (csr : e.target.milestones .csr = s.evidence.target.milestones .csr) :
    Reached (k + 1) { s with trace := s.trace ++ [act], evidence := e } where
  bound := before
  trace := by
    change s.trace ++ [act] = acts.take (k + 1)
    rw [h.trace, List.take_add_one, this]
    rfl
  issuance := issuance
  installation := installation
  activation := activation
  liveTls := liveTls
  change := change
  csr := fun uncertain => h.csr (csr.symm.trans uncertain)

theorem Grade.signingDispatched {s t : Progress} (h : Grade 0 s t) :
    Grade 1 s { t with trace := t.trace ++ [.signingDispatched], evidence := t.evidence.signingDispatch } := by
  refine ⟨h.reached.next (by decide) rfl rfl ?_ ?_ ?_ rfl rfl, fun c => h.csr c⟩
  · exact h.reached.installation
  · exact h.reached.activation
  · exact h.reached.liveTls

theorem Grade.saved {s t : Progress} (h : Grade 1 s t) :
    Grade 2 s { t with trace := t.trace ++ [.saved], evidence := t.evidence.confirm .issuance } := by
  refine ⟨h.reached.next (by decide) rfl rfl ?_ ?_ ?_ rfl rfl, fun c => h.csr c⟩
  · exact h.reached.installation
  · exact h.reached.activation
  · exact h.reached.liveTls

theorem Grade.installDispatched {s t : Progress} (h : Grade 2 s t) :
    Grade 3 s { t with trace := t.trace ++ [.installDispatched], evidence := t.evidence.executorDispatch .install } := by
  refine ⟨h.reached.next (by decide) rfl ?_ rfl ?_ ?_ ?_ rfl, fun c => h.csr c⟩
  · exact h.reached.issuance
  · exact h.reached.activation
  · exact h.reached.liveTls
  · exact h.reached.change

theorem Grade.installed {s t : Progress} (h : Grade 3 s t) :
    Grade 4 s { t with trace := t.trace ++ [.installed], evidence := t.evidence.confirm .installation } := by
  refine ⟨h.reached.next (by decide) rfl ?_ rfl ?_ ?_ ?_ rfl, fun c => h.csr c⟩
  · exact h.reached.issuance
  · exact h.reached.activation
  · exact h.reached.liveTls
  · exact h.reached.change

theorem Grade.verifyDispatched {s t : Progress} (h : Grade 4 s t) : Grade 5 s { t with
    trace := t.trace ++ [.verifyDispatched], evidence := t.evidence.executorDispatch .verifyPending } := by
  refine ⟨h.reached.next (by decide) rfl ?_ ?_ rfl rfl ?_ rfl, fun c => h.csr c⟩
  · exact h.reached.issuance
  · exact h.reached.installation
  · exact h.reached.change

theorem Grade.finalized {s t : Progress} (h : Grade 5 s t) : Grade 6 s { t with
    trace := t.trace ++ [.finalized], evidence := (t.evidence.confirm .activation).confirm .liveTls } := by
  refine ⟨h.reached.next (by decide) rfl ?_ ?_ rfl rfl ?_ rfl, fun c => h.csr c⟩
  · exact h.reached.issuance
  · exact h.reached.installation
  · exact h.reached.change

/-- A sent request whose result is noted, but not yet recorded. -/
def Noted (k : Nat) (act : Act) (s t : Progress) : Prop :=
  ∃ u, Grade k s u ∧ t = { u with trace := u.trace ++ [act] }

variable {s t : Progress}

theorem stop_stops {message : String} {k : Nat} {Q : α → Progress → Prop} (before : k < 6) (now : Grade k s t) :
    Prog.Holds (stop message : Work α) Q Stops Short t := ⟨now.reached.short before, rfl⟩

theorem obtainCsr_grades (config : ProductionConfig) (now : Reached 0 t) :
    Prog.Holds (obtainCsr p config) (fun _ u => Reached 0 u ∧ CsrConfirmed u) Stops Short t := by
  have here : Grade 0 t t := ⟨now, id⟩
  refine holds_during (Prog.holds_bind_of ((calm_setStage _).keeps (by decide) here) fun _ u hu => ?_)
  refine Prog.holds_bind_of ((calm_requestCsr _).keeps (by decide) hu) fun _ u hu => ?_
  refine Prog.holds_bind_of ((calm_check _).keeps (by decide) hu) fun _ u hu => ?_
  exact ⟨hu.reached.still (still_confirmCsr u), rfl⟩

theorem signCsr_grades {csrPem : Bytes} {csrInfo : CsrInfo} {spki : Fingerprint} {caref : String} {digest : Hash}
    {days : Int} {description : String} (now : Grade 0 s t) :
    Prog.Holds (signCsr p csrPem csrInfo spki caref digest days description)
      (fun _ => Noted 1 .saved s) Stops Short t := by
  have hook (u : Progress) (hu : Grade 0 s u) : Prog.Holds
      (do record RunEvidence.signingDispatch; note .signingDispatched : Work Unit)
      (fun _ => Grade 1 s) Stops Short u := hu.signingDispatched
  refine Prog.holds_bind_of ((calm_check _).keeps (by decide) now) fun _ u hu => ?_
  refine Prog.holds_bind_of (R := fun _ => Grade 1 s) ?_ fun _ u hu => ?_
  · refine Prog.holds_bind_of (calm_nextCall.keeps (by decide) hu) fun n u hu => ?_
    split
    · exact stop_stops (by decide) hu
    · exact Prog.holds_bind_of (hook u hu) fun _ u hu => stop_stops (by decide) hu
    · exact Prog.holds_bind_of (hook u hu) fun _ u hu => (calm_pure _).keeps (by decide) hu
    · exact Prog.holds_bind_of (hook u hu) fun _ u hu => stop_stops (by decide) hu
  · refine Prog.holds_bind_of ((calm_check _).keeps (by decide) hu) fun _ u hu => ?_
    exact ⟨u, hu, rfl⟩

theorem sign_grades {config : ProductionConfig} {csrPem : Bytes} {csrInfo : CsrInfo} {caref : String}
    (now : Grade 0 s t) :
    Prog.Holds (sign p config csrPem csrInfo caref) (fun _ => Grade 2 s) Stops Short t := by
  refine holds_during (Prog.holds_bind_of ((calm_setStage _).keeps (by decide) now) fun _ u hu => ?_)
  refine Prog.holds_bind_of (signCsr_grades hu) fun _ u hu => ?_
  obtain ⟨v, hv, rfl⟩ := hu
  exact hv.saved

/-- A call whose hook brings the run one act further. -/
theorem call_grades {operation : OperationName} {k : Nat} (before : k + 1 < 6)
    (hook : ∀ u, Grade k s u → Prog.Holds (dispatched operation) (fun _ => Grade (k + 1) s) Stops Short u)
    (now : Grade k s t) : Prog.Holds (call p operation) (fun _ => Grade (k + 1) s) Stops Short t := by
  refine holds_during (Prog.holds_bind_of (calm_nextCall.keeps (by omega) now) fun n u hu => ?_)
  split
  · exact stop_stops (by omega) hu
  · exact Prog.holds_bind_of (hook u hu) fun _ u hu => stop_stops before hu
  · exact Prog.holds_bind_of (hook u hu) fun _ u hu => (calm_check _).keeps before hu

theorem boundaryImport_grades {request : CertificateImportRequest} {expected : PublicKeystoreState}
    (now : Grade 2 s t) : Prog.Holds (boundaryImport p request expected) (fun _ => Grade 3 s) Stops Short t := by
  refine Prog.holds_bind_of ((calm_read _).keeps (by decide) now) fun _ u hu => ?_
  refine Prog.holds_bind_of ((calm_insist _ _).keeps (by decide) hu) fun _ u hu => ?_
  refine Prog.holds_bind_of ((calm_insist _ _).keeps (by decide) hu) fun _ u hu => ?_
  refine Prog.holds_bind_of ((calm_check _).keeps (by decide) hu) fun _ u hu => ?_
  refine Prog.holds_bind_of (call_grades (by decide) (fun u hu => hu.installDispatched) hu) fun _ u hu => ?_
  refine Prog.holds_bind_of ((calm_check _).keeps (by decide) hu) fun _ u hu => ?_
  exact hu.still ⟨rfl, fun _ _ => rfl, rfl, Or.inl rfl⟩

theorem calm_setInstallStage (stage : InstallStage) : Calm (setInstallStage stage) :=
  calm_update fun _ => ⟨rfl, fun _ _ => rfl, rfl, Or.inl rfl⟩

theorem exclusively_grades {k : Nat} (before : k < 6) {m : Work α}
    (body : ∀ u, Grade k s u → Prog.Holds m (fun _ => Grade 3 s) Stops Short u) (now : Grade k s t) :
    Prog.Holds (exclusively m) (fun _ => Grade 3 s) Stops Short t := by
  have still (u : Progress) : Still u { u with exclusive := false, installed := none } :=
    ⟨rfl, fun _ _ => rfl, rfl, Or.inl rfl⟩
  refine Prog.holds_bind_of ((calm_read _).keeps before now) fun _ u hu => ?_
  refine Prog.holds_bind_of ((calm_insist _ _).keeps before hu) fun _ u hu => ?_
  have entered : Grade k s { u with exclusive := true, installed := none } :=
    hu.still ⟨rfl, fun _ _ => rfl, rfl, Or.inl rfl⟩
  rw [Prog.holds_bind, Prog.holds_update, Prog.holds_ensure]
  refine (body _ entered).mono (fun _ v hv => ?_) (fun f v hv => ?_) fun _ h => h
  · exact hv.still (still v)
  · obtain ⟨⟨n, bound, reached⟩, plain⟩ := hv
    exact ⟨⟨n, bound, reached.still (still v)⟩, plain⟩

theorem installCertificate_grades {request : CertificateImportRequest} (now : Grade 2 s t) :
    Prog.Holds (installCertificate p request) (fun _ => Noted 3 .installed s) Stops Short t := by
  unfold installCertificate
  rw [Prog.holds_handle]
  refine Prog.Holds.mono (Q := fun _ => Noted 3 .installed s) (E := Stops) (D := Short) ?_ (fun _ _ h => h)
    (fun _ _ h => h) fun _ h => h
  refine Prog.holds_bind_of ((calm_setInstallStage _).keeps (by decide) now) fun _ u hu => ?_
  refine Prog.holds_bind_of (exclusively_grades (by decide) (fun u hu => ?_) hu) fun _ u hu => ⟨u, hu, rfl⟩
  refine Prog.holds_bind_of (calm_clocks.keeps (by decide) hu) fun _ u hu => ?_
  refine Prog.holds_bind_of ((calm_check _).keeps (by decide) hu) fun _ u hu => ?_
  refine Prog.holds_bind_of (calm_boundaryInspect.keeps (by decide) hu) fun _ u hu => ?_
  refine Prog.holds_bind_of ((calm_check _).keeps (by decide) hu) fun _ u hu => ?_
  refine Prog.holds_bind_of ((calm_check _).keeps (by decide) hu) fun _ u hu => ?_
  refine Prog.holds_bind_of ((calm_insist _ _).keeps (by decide) hu) fun _ u hu => ?_
  refine Prog.holds_bind_of ((calm_setInstallStage _).keeps (by decide) hu) fun _ u hu => ?_
  refine Prog.holds_bind_of (boundaryImport_grades hu) fun _ u hu => ?_
  refine Prog.holds_bind_of ((calm_setInstallStage _).keeps (by decide) hu) fun _ u hu => ?_
  refine Prog.holds_bind_of (calm_boundaryInspect.keeps (by decide) hu) fun _ u hu => ?_
  refine Prog.holds_bind_of (calm_clocks.keeps (by decide) hu) fun _ u hu => ?_
  exact (calm_check _).keeps (by decide) hu

theorem verifyPending_grades (now : Grade 4 s t) :
    Prog.Holds (verifyPending p) (fun _ => Noted 5 .finalized s) Stops Short t := by
  refine holds_during (Prog.holds_bind_of (R := fun _ => Grade 5 s) ?_ fun _ u hu => ⟨u, hu, rfl⟩)
  refine Prog.holds_bind_of (call_grades (by decide) (fun u hu => hu.verifyDispatched) now) fun _ u hu => ?_
  refine Prog.holds_bind_of ((calm_check _).keeps (by decide) hu) fun outcome u hu => ?_
  split
  · exact (calm_pure _).keeps (by decide) hu
  · exact stop_stops (by decide) hu

theorem installAndVerify_grades {request : CertificateImportRequest} (now : Grade 2 s t) :
    Prog.Holds (installAndVerify p request) (fun _ => Grade 6 s) Stops Short t := by
  refine Prog.holds_bind_of ((calm_setStage _).keeps (by decide) now) fun _ u hu => ?_
  refine Prog.holds_bind_of (R := fun _ => Grade 4 s) (holds_during ?_) fun _ u hu => holds_during ?_
  · refine Prog.holds_bind_of (installCertificate_grades hu) fun _ u hu => ?_
    obtain ⟨v, hv, rfl⟩ := hu
    exact hv.installed
  · refine Prog.holds_bind_of ((calm_setStage _).keeps (by decide) hu) fun _ u hu => ?_
    refine Prog.holds_bind_of (verifyPending_grades hu) fun _ u hu => ?_
    obtain ⟨v, hv, rfl⟩ := hu
    exact hv.finalized

/-! ## The run -/

theorem calm_validateIssued {config : ProductionConfig} {minimum : Option Int} {before : PublicKeystoreState}
    {csrPem issued caPem : Bytes} (below : ∀ days, minimum = some days → days < config.authority.lifetimeDays) :
    Calm (validateIssued p config minimum before csrPem issued caPem) := by
  refine calm_during (calm_bind calm_currentTime fun time => calm_bind calm_clocks fun now => ?_)
  refine calm_check_bind fun plan prepared => ?_
  have leaves : remainsInWindow plan.issued minimum time = false := remainsInWindow_eq_false prepared below
  rw [leaves]
  exact calm_bind (calm_setCertificate _) fun _ => calm_pure _

theorem runToInstallation_grades {config : ProductionConfig} {install : Bool} {minimum : Option Int}
    (below : ∀ days, minimum = some days → days < config.authority.lifetimeDays) (now : Reached 0 t) :
    Prog.Holds (runToInstallation p config install minimum)
      (fun _ u => Reached (if install then 6 else 2) u ∧ CsrConfirmed u) Stops Short t := by
  have here : Grade 0 t t := ⟨now, id⟩
  refine Prog.holds_bind_of ((calm_validateSettings _ _).keeps (by decide) here) fun _ u hu => ?_
  refine Prog.holds_bind_of ((calm_during (calm_bind (calm_setStage _) fun _ =>
    calm_inspectCurrent _)).keeps (by decide) hu) fun _ u hu => ?_
  refine Prog.holds_bind_of (obtainCsr_grades _ hu.reached) fun _ v ⟨reached, csr⟩ => ?_
  have here : Grade 0 v v := ⟨reached, id⟩
  refine Prog.holds_bind_of ((calm_during (calm_bind (calm_setStage _) fun _ =>
    calm_resolveCa _)).keeps (by decide) here) fun _ u hu => ?_
  refine Prog.holds_bind_of (sign_grades hu) fun _ u hu => ?_
  refine Prog.holds_bind_of ((calm_during (calm_bind (calm_setStage _) fun _ =>
    calm_getCertificate _)).keeps (by decide) hu) fun _ u hu => ?_
  refine Prog.holds_bind_of ((calm_validateIssued below).keeps (by decide) hu) fun issued u hu => ?_
  cases install with
  | false => exact ⟨hu.reached, hu.csr csr⟩
  | true => exact Prog.holds_bind_of (installAndVerify_grades hu) fun _ u hu => ⟨hu.reached, hu.csr csr⟩

def Outcome.isFailure : Outcome → Bool
  | .failurePreAttempt => true
  | .failurePartial => true
  | .failureAmbiguous => true
  | _ => false

/-- A run that reports success: changed when all was done, and only then. -/
structure Succeeded (k : Nat) (t : Progress) : Prop where
  reached : Reached k t
  success : t.evidence.target.outcome.isFailure = false
  changed : t.evidence.target.outcome = .successChanged ↔ k = 6
  csr : k = 6 → CsrConfirmed t

theorem Reached.succeeds {k : Nat} {s : Progress} {outcome : Outcome} {message : String} {due : Option Bool}
    (h : Reached k s) (success : outcome.isFailure = false) (changed : outcome = .successChanged ↔ k = 6)
    (csr : k = 6 → CsrConfirmed s) :
    Succeeded k { s with evidence := s.evidence.success outcome message due } :=
  ⟨h.still ⟨rfl, fun _ _ => rfl, rfl, Or.inl rfl⟩, success, changed, csr⟩

abbrev Finishes (ending : Ending) (t : Progress) : Prop := ending = .finished ∧ ∃ k, Succeeded k t

theorem runInspect_succeeds (config : ProductionConfig) (now : Reached 0 t) :
    Prog.Holds (runInspect p config) Finishes Stops Short t := by
  have here : Grade 0 t t := ⟨now, id⟩
  refine Prog.holds_bind_of ((calm_setStage _).keeps (by decide) here) fun _ u hu => ?_
  refine Prog.holds_bind_of ((calm_inspectCurrent _).keeps (by decide) hu) fun _ u hu => ?_
  refine Prog.holds_bind_of ((calm_check _).keeps (by decide) hu) fun _ u hu => ?_
  refine Prog.holds_bind_of ((calm_setCertificate _).keeps (by decide) hu) fun _ u hu => ?_
  refine Prog.holds_bind_of ((calm_setStage _).keeps (by decide) hu) fun _ u hu => ?_
  refine Prog.holds_bind_of (calm_currentTime.keeps (by decide) hu) fun now u hu => ?_
  generalize renewalIsDue _ _ now = due
  cases due with
  | false => exact ⟨rfl, 0, hu.reached.succeeds rfl (by decide) fun no => nomatch no⟩
  | true => exact ⟨rfl, 0, hu.reached.succeeds rfl (by decide) fun no => nomatch no⟩

theorem runCsr_succeeds (config : ProductionConfig) (now : Reached 0 t) :
    Prog.Holds (runCsr p config) Finishes Stops Short t := by
  have here : Grade 0 t t := ⟨now, id⟩
  refine Prog.holds_bind_of ((calm_setStage _).keeps (by decide) here) fun _ u hu => ?_
  refine Prog.holds_bind_of ((calm_requestCsr _).keeps (by decide) hu) fun _ u hu => ?_
  refine Prog.holds_bind_of ((calm_check _).keeps (by decide) hu) fun _ u hu => ?_
  exact ⟨rfl, 0, (hu.reached.still (still_confirmCsr u)).succeeds rfl (by decide) fun no => nomatch no⟩

theorem decideRenewal_succeeds (config : ProductionConfig) (now : Reached 0 t) :
    Prog.Holds (decideRenewal p config) (fun due u => Reached 0 u ∧ (due = false → Succeeded 0 u)) Stops Short t := by
  have here : Grade 0 t t := ⟨now, id⟩
  refine Prog.holds_bind_of ((calm_setStage _).keeps (by decide) here) fun _ u hu => ?_
  refine Prog.holds_bind_of ((calm_inspectCurrent _).keeps (by decide) hu) fun _ u hu => ?_
  refine Prog.holds_bind_of ((calm_check _).keeps (by decide) hu) fun _ u hu => ?_
  refine Prog.holds_bind_of ((calm_setStage _).keeps (by decide) hu) fun _ u hu => ?_
  refine Prog.holds_bind_of ((calm_setCertificate _).keeps (by decide) hu) fun _ u hu => ?_
  refine Prog.holds_bind_of (calm_currentTime.keeps (by decide) hu) fun now u hu => ?_
  generalize renewalIsDue _ _ now = due
  cases due with
  | false =>
    have done : Succeeded 0 { u with
        evidence := (u.evidence.success .successNoChange "Certificate is not due for renewal." (some false)) } :=
      hu.reached.succeeds rfl (by decide) fun no => nomatch no
    exact ⟨done.reached, fun _ => done⟩
  | true => exact ⟨hu.reached.still ⟨rfl, fun _ _ => rfl, rfl, Or.inl rfl⟩, fun no => nomatch no⟩

theorem runRenewal_succeeds {mode : Mode} {text : String} {config : ProductionConfig}
    (below : mode = .renew → config.renewBeforeDays < config.authority.lifetimeDays) (now : Reached 0 t) :
    Prog.Holds (runRenewal p mode text config) Finishes Stops Short t := by
  have here : Grade 0 t t := ⟨now, id⟩
  refine Prog.holds_bind_of ((calm_setStage _).keeps (by decide) here) fun _ u hu => ?_
  refine Prog.holds_bind_of ((calm_insist _ _).keeps (by decide) hu) fun _ u hu => ?_
  have minimum : ∀ days, (if mode = .renew then some config.renewBeforeDays else none) = some days →
      days < config.authority.lifetimeDays := by
    intro days found
    split at found
    · cases found
      exact below (by assumption)
    · cases found
  refine Prog.holds_bind_of (holds_during (runToInstallation_grades minimum hu.reached)) fun _ u ⟨reached, csr⟩ => ?_
  generalize decide (mode = .install ∨ mode = .renew) = install at reached
  cases install with
  | false => exact ⟨rfl, 2, reached.succeeds rfl (by decide) fun no => nomatch no⟩
  | true => exact ⟨rfl, 6, reached.succeeds rfl (by decide) fun _ => csr⟩

theorem runLocked_succeeds (mode : Mode) (now : Reached 0 t) :
    Prog.Holds (runLocked p mode) Finishes Stops Short t := by
  have here : Grade 0 t t := ⟨now, id⟩
  refine Prog.holds_bind_of ((calm_setStage _).keeps (by decide) here) fun _ u hu => ?_
  refine Prog.holds_bind_of ((calm_during (calm_check _)).keeps (by decide) hu) fun config u hu => ?_
  by_cases accepted : mode = .renew ∧ config.authority.lifetimeDays ≤ config.renewBeforeDays
  · rw [insist, if_neg (not_not.mpr accepted)]
    exact stop_stops (by decide) hu
  · rw [insist, if_pos accepted]
    have below (renewing : mode = .renew) : config.renewBeforeDays < config.authority.lifetimeDays :=
      Int.not_le.mp fun reversed => accepted ⟨renewing, reversed⟩
    cases mode with
    | inspect => exact holds_during (runInspect_succeeds config hu.reached)
    | csr => exact holds_during (runCsr_succeeds config hu.reached)
    | prepare => exact runRenewal_succeeds below hu.reached
    | install => exact runRenewal_succeeds below hu.reached
    | renew =>
      change Prog.Holds (during Mode.renew.text (decideRenewal p config) >>= _) _ _ _ u
      refine Prog.holds_bind_of (holds_during (decideRenewal_succeeds config hu.reached)) fun due u ⟨reached, done⟩ => ?_
      cases due with
      | false => exact ⟨rfl, 0, done rfl⟩
      | true => exact runRenewal_succeeds below reached

theorem reached_begin (mode : Mode) : Reached 0 (begin_ mode) :=
  ⟨by decide, rfl, rfl, rfl, rfl, rfl, rfl, fun no => nomatch no⟩

/-! ## The report -/

theorem finish_eq (e : RunEvidence) : e.finish.results = [e.target] ∧ e.finish.outcome = e.target.outcome ∧
    e.finish.manualRecoveryRequired = e.target.manualRecoveryRequired := by
  refine ⟨rfl, rfl, ?_⟩
  simp [RunEvidence.finish, RunResult.finish]

/-- A run that did not succeed: it raised, or the lock was taken. -/
def Report.failed (r : Report) : Prop := r.exitCode ≠ 0

theorem runOneShot_succeeds (mode : Mode) (now : Reached 0 s) :
    Prog.Holds (runOneShot p mode)
      (fun ending t => Finishes ending t ∨ ending = .busy ∧ ∃ u, Reached 0 u ∧ t.trace = u.trace ∧
        t.evidence = u.evidence.failure (some .lockBusy)) Stops Short s := by
  have locked (m : Mode) (t : Progress) (ht : Reached 0 t) : Prog.Holds (runLocked p m)
      (fun ending t => Finishes ending t ∨ ending = .busy ∧ ∃ u, Reached 0 u ∧ t.trace = u.trace ∧
        t.evidence = u.evidence.failure (some .lockBusy)) Stops Short t :=
    (runLocked_succeeds m ht).mono (fun _ _ h => Or.inl h) (fun _ _ h => h) fun _ h => h
  have staged : Reached 0 { s with evidence := { s.evidence with stage := .lock } } :=
    now.still ⟨rfl, fun _ _ => rfl, rfl, Or.inl rfl⟩
  cases mode with
  | inspect => exact locked .inspect s now
  | csr => exact locked .csr s now
  | prepare | install | renew =>
    simp only [runOneShot]
    rw [setStage, record, Prog.holds_bind, Prog.holds_update]
    cases p.lock with
    | acquired => exact locked _ _ staged
    | busy => exact Or.inr ⟨rfl, _, staged, rfl, rfl⟩
    | unavailable => exact ⟨staged.short (by decide), rfl⟩

theorem main_ends (p : Peers) (mode : Mode) :
    (∃ k s, Succeeded k s ∧ main p mode = ⟨s.evidence.finish, 0, s.trace⟩) ∨
      ∃ k s reason code, k < 6 ∧ Reached k s ∧ code ≠ 0 ∧
        main p mode = ⟨(s.evidence.failure reason).finish, code, s.trace⟩ := by
  have ends := @runOneShot_succeeds p (begin_ mode) mode (reached_begin mode)
  unfold Prog.Holds at ends
  unfold main
  generalize runOneShot p mode (begin_ mode) = run at ends ⊢
  obtain ⟨outcome, t⟩ := run
  cases outcome with
  | ok ending =>
    rcases ends with ⟨rfl, k, done⟩ | ⟨rfl, u, reached, trace, evidence⟩
    · exact Or.inl ⟨k, t, done, rfl⟩
    · refine Or.inr ⟨0, u, some .lockBusy, 75, by decide, reached, by decide, ?_⟩
      change (⟨t.evidence.finish, 75, t.trace⟩ : Report) = _
      rw [evidence, trace]
  | raised f =>
    obtain ⟨⟨k, before, reached⟩, _⟩ := ends
    exact Or.inr ⟨k, t, none, 1, before, reached, by decide, rfl⟩
  | dead =>
    obtain ⟨k, before, reached⟩ := ends
    exact Or.inr ⟨k, t, none, 1, before, reached, by decide, rfl⟩

/-- The failure a run is classified as, by how far it was. -/
def failureAt (k : Nat) : Outcome :=
  if k % 2 = 1 then .failureAmbiguous else if k = 0 then .failurePreAttempt else .failurePartial

theorem isUncertain_of_reached {k : Nat} (h : Reached k s) : s.evidence.isUncertain = decide (k % 2 = 1) := by
  have csr : decide (s.evidence.target.milestones .csr = .uncertain) = false := decide_eq_false h.csr
  have odd : ∀ k < 7, (decide (milestoneAfter 0 k = .uncertain) || (decide (milestoneAfter 2 k = .uncertain) ||
      (decide (milestoneAfter 4 k = .uncertain) || (decide (milestoneAfter 4 k = .uncertain) || false)))) =
      decide (k % 2 = 1) := by decide
  simp only [RunEvidence.isUncertain, milestoneNames, List.any_cons, List.any_nil, csr, h.issuance,
    h.installation, h.activation, h.liveTls, Bool.false_or]
  exact odd k (Nat.lt_succ_of_le h.bound)

theorem failure_target {k : Nat} (h : Reached k s) (before : k < 6) (reason : Option Reason) :
    (s.evidence.failure reason).target.outcome = failureAt k ∧
      (s.evidence.failure reason).target.manualRecoveryRequired = decide (k ≠ 0) ∧
      (s.evidence.failure reason).target.change = changeAfter k ∧
      ∀ name, name ≠ .csr →
        (s.evidence.failure reason).target.milestones name = s.evidence.target.milestones name := by
  have uncertain := isUncertain_of_reached h
  have split (target : TargetResult) (P : TargetResult → Prop) (plain : P target)
      (marked : P (target.mark .csr .failed)) :
      P (if s.evidence.stage = .csrGeneration then target.mark .csr .failed else target) := by
    split
    · exact marked
    · exact plain
  have classified : ∀ k < 6, (if decide (k % 2 = 1) = true then Outcome.failureAmbiguous
      else if changeAfter k = .confirmed then .failurePartial else .failurePreAttempt) = failureAt k := by decide
  have flagged : ∀ k < 6, (decide (changeAfter k ≠ .none) || decide (k % 2 = 1)) = decide (k ≠ 0) := by decide
  refine ⟨?_, ?_, ?_, fun name other => ?_⟩
  · refine split _ (fun target => target.outcome = failureAt k) ?_ ?_ <;>
    · simp only [TargetResult.mark, uncertain, h.change]
      exact classified k before
  · refine split _ (fun target => target.manualRecoveryRequired = decide (k ≠ 0)) ?_ ?_ <;>
    · simp only [TargetResult.mark, uncertain, h.change]
      exact flagged k before
  · exact split _ (fun target => target.change = changeAfter k) h.change h.change
  · refine split _ (fun target => target.milestones name = s.evidence.target.milestones name) rfl ?_
    exact Function.update_of_ne other _ _

/-- A request that was sent and has no validated result. -/
def Unanswered (trace : List Act) : Prop :=
  .signingDispatched ∈ trace ∧ .saved ∉ trace ∨ .installDispatched ∈ trace ∧ .installed ∉ trace ∨
    .verifyDispatched ∈ trace ∧ .finalized ∉ trace

/-- Something was issued, and the executor answered all it was asked. -/
def Issued (trace : List Act) : Prop :=
  .saved ∈ trace ∧ (.installDispatched ∈ trace → .installed ∈ trace) ∧
    (.verifyDispatched ∈ trace → .finalized ∈ trace)

def Untouched (trace : List Act) : Prop :=
  .signingDispatched ∉ trace ∧ .installDispatched ∉ trace ∧ .verifyDispatched ∉ trace

instance (trace : List Act) : Decidable (Unanswered trace) := by unfold Unanswered; infer_instance

instance (trace : List Act) : Decidable (Issued trace) := by unfold Issued; infer_instance

instance (trace : List Act) : Decidable (Untouched trace) := by unfold Untouched; infer_instance

/-- The report of a run says what happened, and of its failure what is known. -/
structure Exact (r : Report) (target : TargetResult) : Prop where
  results : r.result.results = [target]
  outcome : r.result.outcome = target.outcome
  manual : r.result.manualRecoveryRequired = target.manualRecoveryRequired
  changed : target.outcome = .successChanged ↔ r.trace.getLast? = some .finalized
  complete : target.outcome = .successChanged → ∀ name, target.milestones name = .confirmed
  ambiguous : target.outcome = .failureAmbiguous ↔ r.failed ∧ Unanswered r.trace
  issued : target.outcome = .failurePartial ↔ r.failed ∧ Issued r.trace
  untouched : target.outcome = .failurePreAttempt ↔ r.failed ∧ Untouched r.trace
  harmless : target.outcome = .failurePreAttempt → target.change = .none ∧ target.manualRecoveryRequired = false
  recovery : r.failed → target.outcome ≠ .failurePreAttempt → target.manualRecoveryRequired = true
  issuance : target.milestones .issuance = .confirmed ↔ .saved ∈ r.trace
  installation : target.milestones .installation = .confirmed ↔ .installed ∈ r.trace
  activation : target.milestones .activation = .confirmed ↔ .finalized ∈ r.trace
  liveTls : target.milestones .liveTls = .confirmed ↔ .finalized ∈ r.trace

theorem milestone_confirmed : ∀ k < 7,
    (milestoneAfter 0 k = .confirmed ↔ Act.saved ∈ acts.take k) ∧
      (milestoneAfter 2 k = .confirmed ↔ Act.installed ∈ acts.take k) ∧
      (milestoneAfter 4 k = .confirmed ↔ Act.finalized ∈ acts.take k) := by decide

theorem failureAt_classifies : ∀ k < 6,
    (failureAt k = .failureAmbiguous ↔ Unanswered (acts.take k)) ∧
      (failureAt k = .failurePartial ↔ Issued (acts.take k)) ∧
      (failureAt k = .failurePreAttempt ↔ Untouched (acts.take k)) ∧
      (failureAt k = .failurePreAttempt ↔ k = 0) ∧ failureAt k ≠ .successChanged ∧
      (acts.take k).getLast? ≠ some .finalized := by decide

theorem finalized_last : ∀ k < 7, ((acts.take k).getLast? = some .finalized ↔ k = 6) := by decide

theorem Succeeded.exact {k : Nat} (h : Succeeded k s) :
    Exact ⟨s.evidence.finish, 0, s.trace⟩ s.evidence.target := by
  obtain ⟨results, outcome, manual⟩ := finish_eq s.evidence
  have bound : k < 7 := Nat.lt_succ_of_le h.reached.bound
  obtain ⟨saved, installed, finalized⟩ := milestone_confirmed k bound
  have success := h.success
  have no (o : Outcome) (failure : o.isFailure = true) : s.evidence.target.outcome ≠ o := by
    rintro same
    rw [same, failure] at success
    cases success
  have unfailed : ¬(⟨s.evidence.finish, 0, s.trace⟩ : Report).failed := fun failed => failed rfl
  refine ⟨results, outcome, manual, ?_, fun changed name => ?_, ?_, ?_, ?_, fun pre => absurd pre (no _ rfl),
    fun failed => absurd failed unfailed, ?_, ?_, ?_, ?_⟩
  · rw [h.changed, h.reached.trace]
    exact (finalized_last k bound).symm
  · obtain rfl := h.changed.mp changed
    cases name with
    | csr => exact h.csr rfl
    | issuance => exact h.reached.issuance
    | installation => exact h.reached.installation
    | activation => exact h.reached.activation
    | liveTls => exact h.reached.liveTls
  · exact iff_of_false (no _ rfl) fun both => unfailed both.1
  · exact iff_of_false (no _ rfl) fun both => unfailed both.1
  · exact iff_of_false (no _ rfl) fun both => unfailed both.1
  · rw [h.reached.issuance, h.reached.trace]
    exact saved
  · rw [h.reached.installation, h.reached.trace]
    exact installed
  · rw [h.reached.activation, h.reached.trace]
    exact finalized
  · rw [h.reached.liveTls, h.reached.trace]
    exact finalized

theorem Reached.exact {k : Nat} (h : Reached k s) (before : k < 6) (reason : Option Reason) {code : Nat}
    (failed : code ≠ 0) :
    Exact ⟨(s.evidence.failure reason).finish, code, s.trace⟩ (s.evidence.failure reason).target := by
  obtain ⟨results, outcome, manual⟩ := finish_eq (s.evidence.failure reason)
  obtain ⟨kind, flag, change, milestones⟩ := failure_target h before reason
  obtain ⟨saved, installed, finalized⟩ := milestone_confirmed k (Nat.lt_succ_of_lt before)
  obtain ⟨ambiguous, issued, untouched, first, unchanged, last⟩ := failureAt_classifies k before
  have has : (⟨(s.evidence.failure reason).finish, code, s.trace⟩ : Report).failed := failed
  refine ⟨results, outcome, manual, ?_, fun changed => absurd (kind.symm.trans changed) unchanged, ?_, ?_, ?_,
    fun pre => ?_, fun _ other => ?_, ?_, ?_, ?_, ?_⟩
  · rw [kind, h.trace]
    exact iff_of_false unchanged last
  · rw [kind, ambiguous, h.trace]
    exact (and_iff_right has).symm
  · rw [kind, issued, h.trace]
    exact (and_iff_right has).symm
  · rw [kind, untouched, h.trace]
    exact (and_iff_right has).symm
  · obtain rfl := first.mp (kind.symm.trans pre)
    exact ⟨change, flag⟩
  · rw [flag, decide_eq_true_eq]
    exact fun none => other (kind.trans (first.mpr none))
  · rw [milestones _ (by decide), h.issuance, h.trace]
    exact saved
  · rw [milestones _ (by decide), h.installation, h.trace]
    exact installed
  · rw [milestones _ (by decide), h.activation, h.trace]
    exact finalized
  · rw [milestones _ (by decide), h.liveTls, h.trace]
    exact finalized

/-- The structured result never understates what happened. -/
theorem run_result_is_exact (p : Peers) (mode : Mode) : ∃ target, Exact (main p mode) target := by
  rcases main_ends p mode with ⟨k, s, done, eq⟩ | ⟨k, s, reason, code, before, reached, failed, eq⟩
  · exact ⟨_, eq ▸ done.exact⟩
  · exact ⟨_, eq ▸ reached.exact before reason failed⟩

end

end CertRenewer.Worker
