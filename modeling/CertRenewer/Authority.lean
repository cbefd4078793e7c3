import CertRenewer.Identity
import CertRenewer.Transactions

/-!
# Whose certificate is committed

A message supplies an old state, a signing request and a certificate. Everything
else an installation goes by is the executor's own, and what it commits was
checked against that.
-/

namespace CertRenewer

open Crash

/-! ## What an operation may put on record -/

/-- The command a signing request is made with: it is the policy's alone. -/
def csrCommand (x : Session) : Result (List String) :=
  buildUnifiCsrCommand x.host.lib ⟨some 0, x.policy.subject, x.policy.dnsSans, x.policy.ipSans⟩

theorem csrCommand_of {x : Session} {spki : Fingerprint} {command : List String}
    (h : buildUnifiCsrCommand x.host.lib ⟨spki, x.policy.subject, x.policy.dnsSans, x.policy.ipSans⟩ =
      .ok command) : csrCommand x = .ok command := by
  simp only [csrCommand, buildUnifiCsrCommand, bind_eq_ok, orFail_eq_ok] at h ⊢
  obtain ⟨_, _, rest⟩ := h
  exact ⟨0, rfl, rest⟩

/-- An executor with this policy, asked for these requests, may do this. -/
def Event.Authorized (x : Session) (asked : CertificateImportRequest → Prop) : Event → Prop
  | .keytool n (.certreq dname ext) => n = .canonical ∧ ∃ command, csrCommand x = .ok command ∧
    argumentAfter "-dname" command = some dname ∧ argumentAfter "-ext" command = some ext
  | .keytool n (.importcert reply) => n = .stage ∧ ∃ request now plan, asked request ∧
    prepareCertificateImport x.host.lib request now = .ok plan ∧ reply = plan.replyPem
  | .stageVerified policy request _ => policy = x.policy ∧ asked request
  | _ => True

theorem Event.authorized_of_common {x : Session} {asked : CertificateImportRequest → Prop} (e : Event)
    (h : e.common = true) : e.Authorized x asked := by
  unfold Event.Authorized
  split
  · cases h
  · cases h
  · cases h
  · trivial

theorem Event.Authorized.mono {x : Session} {asked asked' : CertificateImportRequest → Prop} {e : Event}
    (h : e.Authorized x asked) (more : ∀ request, asked request → asked' request) :
    e.Authorized x asked' := by
  unfold Event.Authorized at h ⊢
  split at h
  · exact h
  · obtain ⟨stage, request, now, plan, mine, rest⟩ := h
    exact ⟨stage, request, now, plan, more request mine, rest⟩
  · exact ⟨h.1, more _ h.2⟩
  · trivial

section
variable {g : Setting} (x : Session) {α : Type}

/-! ## Installations -/

section
variable {P : Entry → Prop} (calm : ∀ e, e.calm = true → Always P e)
include calm

theorem logs_copyStage : Logs P (copyStage x) := by
  refine logs_bind (logs_opened x .canonical) fun _ => ?_
  refine logs_bind (logs_create x .stage fun _ => calm _ rfl) fun _ => ?_
  refine logs_bind (logs_status x .canonical) fun _ => ?_
  refine logs_bind (logs_demand _ _) fun _ => logs_bind (logs_read _) fun _ => ?_
  refine logs_bind (logs_write x _ _ _) fun _ => ?_
  exact logs_bind (logs_same x .canonical _) fun _ => logs_demand _ _

theorem logs_stageImport {request : CertificateImportRequest} {c : Checked}
    (imported : Always P (.keytool .stage (.importcert c.plan.replyPem)))
    (verified : ∀ now, Always P (.stageVerified x.policy request now)) :
    Logs P (stageImport x request c) := by
  have scribes (e : Event) (h : e.scribes = true) : Always P e := calm e (Event.calm_of_scribes h)
  refine logs_bind (logs_phase x _ _ scribes) fun _ => logs_bind (logs_copyStage x calm) fun _ => ?_
  refine logs_bind (logs_status x .stage) fun _ => logs_bind (logs_phase x _ _ scribes) fun _ => ?_
  refine logs_bind (logs_collect x .stage (calm _ rfl)) fun _ => ?_
  refine logs_bind (logs_lift _) fun _ => logs_bind (logs_demand _ _) fun _ => ?_
  refine logs_bind ?_ fun _ => logs_bind (logs_status x .stage) fun _ => ?_
  · refine logs_bind logs_assertLocked fun _ => logs_bind (logs_demand _ _) fun _ => ?_
    refine logs_bind (logs_demand _ _) fun _ => logs_bind (logs_primitive x (logs_pure ())) fun _ => ?_
    refine logs_primitive x (logs_bind (logs_emit imported) fun _ => logs_bind ?_ fun _ => logs_pure _)
    refine logs_bind (logs_read _) fun w => ?_
    cases w.disk.dir.visible .stage with
    | none => exact logs_raise _
    | some i => exact logs_update fun _ => ⟨rfl, rfl, rfl, rfl⟩
  refine logs_bind (logs_demand _ _) fun _ => ?_
  refine logs_bind (logs_collect x .stage (calm _ rfl)) fun _ => ?_
  refine logs_bind (logs_clock x) fun now => logs_bind (logs_lift _) fun _ => ?_
  refine logs_bind (logs_emit (verified now)) fun _ => logs_bind (logs_status x .stage) fun _ => ?_
  refine logs_bind (logs_syncFile x .stage fun _ => calm _ rfl) fun _ => ?_
  exact logs_bind (logs_phase x _ _ scribes) fun _ => logs_pure _

variable (proven : Proven P)
include proven

theorem logs_checkImport (request : CertificateImportRequest) (expected : PublicKeystoreState) :
    Logs P (checkImport x request expected) := by
  refine logs_bind logs_assertLocked fun _ => logs_bind (logs_read _) fun _ => ?_
  refine logs_bind (logs_demand _ _) fun _ => logs_bind (logs_clock x) fun _ => ?_
  refine logs_bind (logs_lift _) fun _ => logs_bind (logs_lift _) fun _ => ?_
  refine logs_bind (logs_demand _ _) fun _ => logs_bind (logs_stopped x proven) fun _ => ?_
  refine logs_bind (logs_collect x .canonical (calm _ rfl)) fun _ => ?_
  refine logs_bind (logs_lift _) fun _ => logs_bind (logs_demand _ _) fun _ => ?_
  refine logs_bind (logs_lift _) fun _ => logs_bind (logs_demand _ _) fun _ => ?_
  refine logs_bind (logs_status x .canonical) fun _ => logs_bind logs_getJournal fun _ => ?_
  refine logs_bind (logs_lift _) fun _ => logs_bind (logs_demand _ _) fun _ => ?_
  exact logs_pure _

theorem logs_retainRollback (c : Checked) : Logs P (retainRollback x c) := by
  refine logs_bind (logs_stopped x proven) fun _ => ?_
  refine logs_bind (logs_same x .canonical _) fun _ => ?_
  refine logs_bind (logs_collect x .canonical (calm _ rfl)) fun _ => ?_
  refine logs_bind (logs_lift _) fun _ => logs_bind (logs_demand _ _) fun _ => ?_
  refine logs_bind (logs_same x .canonical _) fun _ => ?_
  refine logs_bind (logs_syncFile x .canonical fun _ => calm _ rfl) fun _ => ?_
  refine logs_bind (logs_linkRollback x fun _ => calm _ rfl) fun _ => ?_
  refine logs_bind (logs_status x .rollback) fun _ => ?_
  refine logs_bind (logs_demand _ _) fun _ => logs_bind (logs_syncDirectory x (calm _ rfl)) fun _ => ?_
  exact logs_bind (logs_phase x _ _ fun e h => calm e (Event.calm_of_scribes h)) fun _ => logs_pure _

theorem logs_commitStage (request : CertificateImportRequest) (rollback stage validated : Stat) :
    Logs P (commitStage x request rollback stage validated) := by
  have scribes (e : Event) (h : e.scribes = true) : Always P e := calm e (Event.calm_of_scribes h)
  refine logs_bind (logs_phase x _ _ scribes) fun _ => ?_
  refine logs_bind (logs_stopped x proven) fun _ => ?_
  refine logs_bind (logs_same x .canonical _) fun _ => logs_bind (logs_same x .stage _) fun _ => ?_
  refine logs_bind (logs_replace x _ _ fun _ => calm _ rfl) fun _ => ?_
  refine logs_bind (logs_syncDirectory x (calm _ rfl)) fun _ => ?_
  refine logs_bind (logs_phase x _ _ scribes) fun _ => ?_
  refine logs_bind (logs_status x .canonical) fun _ => logs_bind (logs_demand _ _) fun _ => ?_
  refine logs_bind (logs_collect x .canonical (calm _ rfl)) fun _ => ?_
  refine logs_bind (logs_clock x) fun _ => logs_bind (logs_lift _) fun _ => ?_
  exact logs_phase x _ _ scribes

end

section
variable {P : Entry → Prop} (common : ∀ e, e.common = true → Always P e)
include common

theorem emits_quiesce (identity : Stat) (before : PublicKeystoreState) :
    Emits P (quiesce x identity before) := by
  refine emits_bind (emits_update fun _ => rfl) fun _ => ?_
  refine emits_bind (logs_stop x (common _ rfl) (common .provenStopped rfl).proven).emits fun _ => ?_
  refine emits_bind (logs_same x .canonical _).emits fun _ => ?_
  refine emits_bind (logs_collect x .canonical (common _ rfl)).emits fun _ => ?_
  refine emits_bind (logs_lift _).emits fun _ => emits_bind (logs_demand _ _).emits fun _ => ?_
  exact (logs_phase x _ _ fun e h => always_calm common e (Event.calm_of_scribes h)).emits

theorem emits_resumePending : Emits P (resumePending x) := by
  refine emits_bind (logs_stopped x (common .provenStopped rfl).proven).emits fun _ => ?_
  refine emits_bind logs_getJournal.emits fun _ => emits_bind (logs_demand _ _).emits fun _ => ?_
  refine emits_bind (logs_collect x .canonical (common _ rfl)).emits fun _ => ?_
  refine emits_bind (logs_lift _).emits fun _ => emits_bind (logs_demand _ _).emits fun _ => ?_
  refine emits_bind (logs_status x .canonical).emits fun _ => ?_
  refine emits_bind (logs_demand _ _).emits fun _ => emits_bind (emits_resumeService x common false) fun _ => ?_
  exact (logs_phase x _ _ fun e h => always_idle common e (Event.idle_of_scribes h)).emits

theorem emits_inspectPublicState : Emits P (inspectPublicState x) := by
  have collects := (logs_collect x .canonical (common (.keytool .canonical .list) rfl)).emits
  refine emits_bind (logs_read _).emits fun _ => emits_ite collects (emits_locked x (always_guards common) ?_)
  exact emits_bind (logs_noTransaction x).emits fun _ => collects

end

theorem emits_exclusive {P : Entry → Prop} (common : ∀ e, e.common = true → Always P e)
    (expected : PublicKeystoreState) {body : Exec α} (h : Emits P body) :
    Emits P (exclusive x expected body) := by
  have idle := always_idle common
  refine emits_locked x (always_guards common)
    (emits_bind (logs_begin x idle expected).emits fun ⟨identity, before⟩ => ?_)
  refine emits_handle ?_ fun _ => emits_bind ?_ fun _ => (logs_raise _).emits
  · refine emits_bind (emits_quiesce x common identity before) fun _ => emits_bind h fun _ => ?_
    exact emits_bind (emits_resumePending x common) fun _ => (logs_pure _).emits
  · exact (logs_phase x _ _ fun e h => idle e (Event.idle_of_scribes h)).emits

theorem emits_installCertificate (host : x.host = g.host) (request : CertificateImportRequest) :
    Emits (fun e => e.event.Authorized x (· = request)) (installCertificate x request) := by
  have common (e : Event) (h : e.common = true) : Always (fun e => e.event.Authorized x (· = request)) e :=
    fun _ _ _ => e.authorized_of_common h
  have calm := always_calm common
  have proven := (common .provenStopped rfl).proven
  refine emits_handle (emits_exclusive x common _ ?_) fun _ => ?_
  · refine emits_bind (logs_clock x).emits fun _ => emits_bind (logs_lift _).emits fun _ => ?_
    refine emits_bind (emits_inspectPublicState x common) fun current => ?_
    refine emits_bind (logs_lift _).emits fun _ => emits_bind (logs_lift _).emits fun _ => ?_
    refine emits_bind (logs_demand _ _).emits fun _ => emits_bind (emits_update fun _ => rfl) fun _ => ?_
    refine emits_bind ?_ fun _ => emits_bind (emits_update fun _ => rfl) fun _ => ?_
    · refine emits_bind_of (S := fun c => ∃ now, prepareCertificateImport x.host.lib request now = .ok c.plan)
        (((reads_checkImport x host request current).yields (logs_checkImport x calm proven _ _).emits).mono ?_)
        fun c ⟨now, prepared⟩ => ?_
      · rintro c _ ⟨_, _, admissible⟩
        rw [host]
        exact admissible.prepared
      refine emits_bind (logs_stageImport x calm ?_ fun _ _ _ _ => ⟨rfl, rfl⟩).emits fun _ => ?_
      · exact fun _ _ _ => ⟨rfl, request, now, c.plan, rfl, prepared, rfl⟩
      refine emits_bind (logs_retainRollback x calm proven c).emits fun _ => ?_
      exact (logs_commitStage x calm proven request _ _ _).emits
    · refine emits_bind (emits_inspectPublicState x common) fun _ => ?_
      exact emits_bind (logs_clock x).emits fun _ => (logs_lift _).emits
  · exact emits_bind (logs_read _).emits fun _ => (logs_raise _).emits

/-! ## Signing requests -/

theorem emits_generateCsr (policy : CertificatePolicy) (asked : CertificateImportRequest → Prop) :
    Emits (fun e => e.event.Authorized x asked) (generateCsr x policy) := by
  have common (e : Event) (h : e.common = true) : Always (fun e => e.event.Authorized x asked) e :=
    fun _ _ _ => e.authorized_of_common h
  refine emits_bind_of (yields_lift _) fun command built => ?_
  refine emits_bind_of (S := fun _ => (policy.subject, policy.dnsSans, policy.ipSans) =
    (x.policy.subject, x.policy.dnsSans, x.policy.ipSans)) (yields_demand _ _) fun _ same => ?_
  simp only [Prod.mk.injEq] at same
  have own : csrCommand x = .ok command := by
    refine @csrCommand_of x policy.expectedSpkiSha256 command ?_
    rw [← same.1, ← same.2.1, ← same.2.2]
    exact built
  refine emits_locked x (always_guards common) ?_
  refine emits_bind (logs_noTransaction x).emits fun _ => emits_bind (logs_status x .canonical).emits fun _ => ?_
  refine emits_bind (logs_collect x .canonical (common _ rfl)).emits fun _ => ?_
  refine emits_bind (logs_lift _).emits fun _ => emits_bind (logs_demand _ _).emits fun _ => ?_
  refine emits_bind_of (yields_lift _) fun dname first => ?_
  refine emits_bind_of (yields_lift _) fun ext second => ?_
  rw [orFail_eq_ok] at first second
  refine emits_bind ?_ fun _ => emits_bind (logs_same x .canonical _).emits fun _ => ?_
  · refine emits_bind logs_assertLocked.emits fun _ => emits_bind (logs_demand _ _).emits fun _ => ?_
    refine emits_bind (emits_primitive x (logs_pure ()).emits) fun _ => emits_primitive x ?_
    exact emits_bind (logs_emit fun _ _ _ => ⟨rfl, command, own, first, second⟩).emits fun _ => (logs_read _).emits
  refine emits_bind (logs_lift _).emits fun _ => ?_
  exact emits_bind (logs_demand _ _).emits fun _ => (logs_pure _).emits

/-! ## Runs that are served -/

/-- The executor made this request from a message, for a time it stamped. -/
def Asked (tr : List Entry) (request : CertificateImportRequest) : Prop :=
  (∃ value, Rebuilt x value request) ∧
    ∃ s ∈ tr, s.event = .stamped request.issuance.freshnessReferenceTime

end

/-- One of these executors was authorised to each entry. -/
def Vouched (members : Session → Prop) : List Entry → Prop
  | [] => True
  | e :: older => (∃ x, members x ∧ e.event.Authorized x (Asked x older)) ∧ Vouched members older

section
variable {g : Setting} {x : Session} {w t : World} {α : Type} {members : Session → Prop}
  {tr tr' : List Entry} {request : CertificateImportRequest} {asked : CertificateImportRequest → Prop}

theorem Asked.mono (h : Asked x tr request) (ext : tr <:+ tr') : Asked x tr' request := by
  obtain ⟨rebuilt, s, seen, event⟩ := h
  exact ⟨rebuilt, s, ext.subset seen, event⟩

theorem Vouched.extend (h : Vouched members tr) (member : members x)
    (known : ∀ request, asked request → Asked x tr request) {new : List Entry}
    (entries : ∀ e ∈ new, e.event.Authorized x asked) : Vouched members (new ++ tr) := by
  induction new with
  | nil => exact h
  | cons e new ih =>
    refine ⟨⟨x, member, (entries e (by simp)).mono fun request mine => ?_⟩,
      ih fun e' he => entries e' (by simp [he])⟩
    exact (known request mine).mono (List.suffix_append _ _)

theorem Vouched.of_append {newer : List Entry} (h : Vouched members (newer ++ tr)) :
    Vouched members tr := by
  induction newer with
  | nil => exact h
  | cons _ _ ih => exact ih h.2

/-- What an operation is authorised to, it may add. -/
theorem Emits.vouches {m : Exec α} (h : Emits (fun e => e.event.Authorized x asked) m) (member : members x)
    (known : ∀ request, asked request → Asked x w.trace request) (now : Vouched members w.trace) :
    Prog.Holds m (fun _ t => Vouched members t.trace) (fun _ t => Vouched members t.trace)
      (fun t => Vouched members t.trace) w := by
  have more (t : World) (ext : Notes (fun e => e.event.Authorized x asked) w t) : Vouched members t.trace := by
    obtain ⟨new, trace, entries⟩ := ext
    rw [trace]
    exact now.extend member known entries
  exact (h w).mono (fun _ t ht => more t ht.1) (fun _ t ht => more t ht) fun t ht => more t ht

theorem Vouched.quiet (h : Vouched members w.trace) (member : members x) (q : Quiet w t) :
    Vouched members t.trace := by
  obtain ⟨new, trace, entries⟩ := q.common
  rw [trace]
  have entries (e : Entry) (he : e ∈ new) : e.event.Authorized x fun _ => False :=
    e.event.authorized_of_common (entries e he)
  exact h.extend member (fun _ no => no.elim) entries

theorem rebuildRequest_freshness {fields : List Json} {freshness : Time}
    (h : rebuildRequest x fields freshness = .ok request) :
    request.issuance.freshnessReferenceTime = freshness := by
  unfold rebuildRequest at h
  split at h
  · simp only [bind_eq_ok, Except.ok.injEq] at h
    obtain ⟨_, _, _, _, _, _, _, _, _, _, rfl⟩ := h
    rfl
  · cases h

theorem decodeImportRequest_vouches (value : Json) (member : members x)
    (now : Vouched members w.trace) :
    Prog.Holds (decodeImportRequest x value)
      (fun request t => Vouched members t.trace ∧ Asked x t.trace request)
      (fun _ t => Vouched members t.trace) (fun t => Vouched members t.trace) w := by
  have stable (s t : World) (q : Quiet s t) (h : Vouched members s.trace) : Vouched members t.trace :=
    h.quiet member q
  have stop (t : World) (h : Vouched members t.trace) : Vouched members t.trace := h
  refine Prog.holds_bind_of ((reads_lift _).keeps stable stop now) fun fields t ⟨ht, exact_⟩ => ?_
  refine Prog.holds_bind_of (holds_primitive x (S := fun freshness t => Vouched members t.trace ∧
    ∃ s ∈ t.trace, s.event = .stamped freshness) stable stop ht (fun t ht => ?_) fun _ _ h => h.1)
    fun freshness t ht => ?_
  · exact ⟨⟨⟨x, member, trivial⟩, ht⟩, _, List.mem_cons_self, rfl⟩
  have stable (s t : World) (q : Quiet s t)
      (h : Vouched members s.trace ∧ ∃ e ∈ s.trace, e.event = .stamped freshness) :
      Vouched members t.trace ∧ ∃ e ∈ t.trace, e.event = .stamped freshness := by
    obtain ⟨vouched, e, seen, event⟩ := h
    exact ⟨vouched.quiet member q, e, q.toSteady.suffix.subset seen, event⟩
  refine Prog.holds_bind_of ((reads_lift _).keeps stable (fun _ h => h.1) ht)
    fun request t ⟨ht, rebuilt⟩ => ?_
  refine Prog.holds_bind_of ((reads_clock x).keeps stable (fun _ h => h.1) ht) fun _ t ⟨ht, _⟩ => ?_
  refine Prog.holds_bind_of ((reads_lift _).keeps stable (fun _ h => h.1) ht) fun _ t ⟨ht, _⟩ => ?_
  refine Prog.holds_bind_of ((reads_lift _).keeps stable (fun _ h => h.1) ht) fun _ t ⟨ht, _⟩ => ?_
  refine Prog.holds_bind_of ((reads_demand _ _).keeps stable (fun _ h => h.1) ht) fun _ t ⟨ht, _⟩ => ?_
  refine ⟨ht.1, ⟨value, fields, freshness, exact_, rebuilt⟩, ?_⟩
  rw [rebuildRequest_freshness rebuilt]
  exact ht.2

theorem serveInstall_vouches (host : x.host = g.host) (arguments : Json) (member : members x)
    (now : Vouched members w.trace) :
    Prog.Holds (serveInstall x arguments) (fun _ t => Vouched members t.trace)
      (fun _ t => Vouched members t.trace) (fun t => Vouched members t.trace) w := by
  have stable (s t : World) (q : Quiet s t) (h : Vouched members s.trace) : Vouched members t.trace :=
    h.quiet member q
  have stop (t : World) (h : Vouched members t.trace) : Vouched members t.trace := h
  refine Prog.holds_bind_of ((reads_lift _).keeps stable stop now) fun fields t ⟨ht, _⟩ => ?_
  match fields with
  | [digest, value] =>
    refine Prog.holds_bind_of ((reads_lift _).keeps stable stop ht) fun _ t ⟨ht, _⟩ => ?_
    refine Prog.holds_bind_of (decodeImportRequest_vouches value member ht)
      fun request t ⟨ht, mine⟩ => ?_
    refine Prog.holds_bind_of ((emits_installCertificate x host request).vouches member ?_ ht)
      fun _ t ht => ?_
    · rintro _ rfl
      exact mine
    refine Prog.holds_bind_of ((reads_clock x).keeps stable stop ht) fun _ t ⟨ht, _⟩ => ?_
    refine Prog.holds_bind_of ((reads_lift _).keeps stable stop ht) fun _ t ⟨ht, _⟩ => ?_
    refine Prog.holds_bind_of ((reads_lift _).keeps stable stop ht) fun _ t ⟨ht, _⟩ => ?_
    exact ((reads_lift _).keeps stable stop ht).mono (fun _ _ h => h.1) (fun _ _ h => h) fun _ h => h
  | [] => exact ht
  | [_] => exact ht
  | _ :: _ :: _ :: _ => exact ht

theorem handle_vouches (host : x.host = g.host) (message : Option Json) (member : members x)
    (now : Vouched members w.trace) :
    Prog.Holds (handle x message) (fun _ t => Vouched members t.trace)
      (fun _ t => Vouched members t.trace) (fun t => Vouched members t.trace) w := by
  unfold handle
  rw [Prog.holds_handle]
  cases message with
  | none => exact now
  | some value =>
    -- every operation but an installation is authorised whatever is asked
    have plain {m : Exec Reply} (h : Emits (fun e => e.event.Authorized x fun _ => False) m) {t : World}
        (ht : Vouched members t.trace) : Prog.Holds m (fun _ t => Vouched members t.trace)
        (fun _ t => Vouched members t.trace) (fun t => Vouched members t.trace) t :=
      h.vouches member (fun _ no => no.elim) ht
    have common (e : Event) (h : e.common = true) :
        Always (fun e => e.event.Authorized x fun _ => False) e := fun _ _ _ => e.authorized_of_common h
    refine Prog.holds_bind_of (R := fun _ t => Vouched members t.trace) ?_ fun _ _ h => h
    refine Prog.holds_bind_of ((reads_lift _).keeps (fun s t q h => Vouched.quiet h member q)
      (fun _ h => h) now) fun ⟨operation, arguments⟩ t ⟨ht, _⟩ => ?_
    cases operation with
    | install => exact serveInstall_vouches host arguments member ht
    | inspect =>
      refine plain (emits_bind (logs_lift _).emits fun _ => ?_) ht
      exact emits_bind (emits_inspectPublicState x common) fun _ => (logs_lift _).emits
    | generateCsr =>
      refine plain (emits_bind (logs_lift _).emits fun fields => ?_) ht
      match fields with
      | [_, spki] =>
        refine emits_bind (logs_lift _).emits fun _ => emits_bind (logs_lift _).emits fun policy => ?_
        exact emits_bind (emits_generateCsr x policy _) fun _ => (logs_pure _).emits
      | [] => exact (logs_raise _).emits
      | [_] => exact (logs_raise _).emits
      | _ :: _ :: _ :: _ => exact (logs_raise _).emits
    | recover =>
      refine plain (emits_bind (logs_lift _).emits fun _ => ?_) ht
      exact emits_bind (emits_recover x common false) fun _ => (logs_pure _).emits
    | verifyPending =>
      refine plain (emits_bind (logs_lift _).emits fun _ => ?_) ht
      refine emits_bind (emits_verifyPending x common) fun _ => ?_
      exact emits_bind (logs_demand _ _).emits fun _ => (logs_pure _).emits

theorem Leads.vouched {moves : List Move} (leads : Leads g moves w) (served : ∀ m ∈ moves, m.Served) :
    Vouched (fun x => ∃ o, Move.operate x o ∈ moves) w.trace := by
  obtain ⟨start, clean, on, rfl⟩ := leads
  refine run_keeps (I := fun w => Vouched (fun x => ∃ o, Move.operate x o ∈ moves) w.trace) ?_
    fun m hm w hw => ?_
  · rw [clean.trace]
    trivial
  cases m with
  | powerLoss kept torn service => exact hw
  | environment service held => exact hw
  | operate x o =>
    have member : ∃ o, Move.operate x o ∈ moves := ⟨o, hm⟩
    have host := (on _ hm).1
    have serves := served _ hm
    refine Prog.Holds.final (m := execute x o) (s := w.fresh)
      (I := fun w => Vouched (fun x => ∃ o, Move.operate x o ∈ moves) w.trace) ?_
    match o, serves with
    | .message value, _ =>
      exact Prog.holds_bind_of (handle_vouches host value member hw) fun _ _ h => h
    | .recover true, _ =>
      have emits := emits_recover x (P := fun e => e.event.Authorized x fun _ => False)
        (fun e h _ _ _ => e.authorized_of_common h) true
      exact Prog.holds_bind_of (emits.vouches member (fun _ no => no.elim) hw) fun _ _ h => h

/-! ## Commits -/

/-- The stage that takes the canonical name holds a leaf over the policy's CA.
The leaf was issued for a request the executor rebuilt from a message, passed
the policy's checks at a time the executor had stamped, has the policy's
identity, and has the key of the store it replaces. -/
structure Vetted (g : Setting) (x : Session) (e : Entry) (older : List Entry) (i : Nat)
    (request : CertificateImportRequest) (ca leaf : Certificate) (info : CertificateInfo) : Prop where
  asked : Asked x older request
  issued : loadOneCertificate g.host.lib request.issuedCertificate maxIssuedCertificateBytes
    "issued certificate" = .ok leaf
  trusted : loadTrustCertificates g.host.lib x.policy.caPem = .ok [ca]
  chain : ∃ state, g.host.read (e.disk.files i).content = some state ∧
    state.certificateChainDer = [leaf.der, ca.der]
  checked : ∃ csrInfo now, validateIssuedCertificate g.host.lib request.issuedCertificate csrInfo
    ⟨ca.pem, x.policy.lifetimeDays, x.policy.signingDigest, x.policy.issuedSignatureOid,
      request.issuance.freshnessReferenceTime⟩ now = .ok info
  identified : Identified g.host.lib x.policy.subject x.policy.dnsSans x.policy.ipSans leaf
  key : ∃ k state replaced, e.disk.dir.visible .canonical = some k ∧
    g.host.read (e.disk.files k).content = some state ∧
    inspectPublicKeystoreState g.host.lib state = .ok replaced ∧
    replaced.certificate.spkiSha256 = info.spkiSha256

theorem Vouched.vetted {newer older : List Entry} {e : Entry} {i : Nat}
    (faithful : g.host.lib.Faithful) (ok : TraceOk g (newer ++ e :: older))
    (vouched : Vouched members (newer ++ e :: older)) (event : e.event = .renamed .stage .canonical i) :
    ∃ x request ca leaf info, members x ∧ Vetted g x e older i request ca leaf info := by
  obtain ⟨entry, proper⟩ := ok.entry
  rw [EventOk, event] at entry
  obtain ⟨_, j, id, c, memory, _, issued, _, content, proved, ⟨state, read, named⟩, old, previous⟩ := entry
  obtain ⟨verified, synced, policy, request, now, state', inspection, order, seen, _, _, _, _, own,
    read', verify, _⟩ := proved
  cases read.symm.trans read'
  -- the executor that proved the stage was authorised to
  have member : verified ∈ older := order.subset (by simp)
  obtain ⟨front, back, split⟩ := List.append_of_mem member
  have behind : Vouched members (verified :: back) := by
    have rest := vouched.of_append.2
    rw [split] at rest
    exact rest.of_append
  obtain ⟨x, mine, authorized⟩ := behind.1
  rw [seen] at authorized
  obtain ⟨rfl, asked⟩ : policy = x.policy ∧ Asked x back request := authorized
  have suffix : back <:+ older := by
    rw [split]
    exact (List.suffix_cons _ _).trans (List.suffix_append _ _)
  -- and what it proved is what the preparation of its request promises
  obtain ⟨plan, prepared, inspected, same, chain⟩ := verify_spec verify
  obtain ⟨ca, leaf, csrInfo, trusted, loaded, exact_, checked, identified⟩ :=
    prepare_identity faithful prepared
  obtain ⟨before, readOld, namedOld⟩ := previous
  obtain ⟨replaced, inspectedOld, spkiOld, _⟩ := publicId_spec namedOld
  obtain ⟨found, inspectedNew, spkiNew, _⟩ := publicId_spec named
  cases inspected.symm.trans inspectedNew
  refine ⟨x, request, ca, leaf, plan.issued, mine, asked.mono suffix, loaded, ?_, ⟨state, ?_, ?_⟩,
    ⟨csrInfo, now.leaf, ?_⟩, ?_, ⟨_, before, replaced, old, readOld, inspectedOld, ?_⟩⟩
  · rw [← own.ca]
    exact trusted
  · rw [content]
    exact read
  · rw [chain, exact_]
  · rw [← own.lifetime, ← own.hash, ← own.oid]
    exact checked
  · rw [← own.subject, ← own.dnsSans, ← own.ipSans]
    exact identified
  · rw [← spkiOld, ← same, ← spkiNew]
    exact ((proper j memory).issued id issued).1.symm

/-- Whatever messages arrive, and in whatever order: each commit is one the
policy of the executor that made it asks for, and each command it runs is its
own. -/
theorem commits_are_vetted (faithful : g.host.lib.Faithful) {moves : List Move}
    (leads : Leads g moves w) (served : ∀ m ∈ moves, m.Served) {newer older : List Entry} {e : Entry}
    (split : w.trace = newer ++ e :: older) :
    (∀ i, e.event = .renamed .stage .canonical i → ∃ x request ca leaf info,
      (∃ o, Move.operate x o ∈ moves) ∧ Vetted g x e older i request ca leaf info) ∧
    ∃ x, (∃ o, Move.operate x o ∈ moves) ∧ e.event.Authorized x (Asked x older) := by
  have vouched := leads.vouched served
  have ok := leads.inv.trace
  rw [split] at vouched ok
  exact ⟨fun i event => vouched.vetted faithful ok event, vouched.of_append.1⟩

theorem Sample.faithful : library.Faithful where
  pem data c h := by
    have loaded : load data = some c := by
      rcases h with der | ⟨cs, pem, member⟩
      · exact der
      · obtain ⟨only, here, rfl⟩ := Option.map_eq_some_iff.mp pem
        rw [List.mem_singleton.mp member]
        exact here
    unfold load at loaded
    split at loaded
    · cases loaded
      rfl
    · split at loaded
      · cases loaded
        rfl
      · split at loaded
        · cases loaded
          rfl
        · cases loaded
  ip _ _ no := nomatch no

/-- The commit of the sample message. -/
theorem sample_commit_is_vetted :
    let moves := [Move.operate (Sample.session []) (.message (some Sample.message))]
    ∃ e ∈ (run moves Sample.start).trace, e.event = .renamed .stage .canonical 5 ∧
      ∃ x older request ca leaf info, (∃ o, Move.operate x o ∈ moves) ∧
        Vetted (Sample.setting true) x e older 5 request ca leaf info := by
  intro moves
  have leads : Leads (Sample.setting true) moves (run moves Sample.start) :=
    Sample.leads (by simp [moves, Move.On, Move.Powered, Sample.session])
  have committed : (run moves Sample.start).trace.any
      (fun e => decide (e.event = .renamed .stage .canonical 5)) = true := by decide +kernel
  obtain ⟨e, member, event⟩ := List.any_eq_true.mp committed
  have event := of_decide_eq_true event
  obtain ⟨newer, older, split⟩ := List.append_of_mem member
  have served : ∀ m ∈ moves, m.Served := by simp [moves, Move.Served]
  obtain ⟨x, request, ca, leaf, info, mine, vetted⟩ :=
    (commits_are_vetted Sample.faithful leads served split).1 5 event
  exact ⟨e, member, event, x, older, request, ca, leaf, info, mine, vetted⟩

end

end CertRenewer
