import CertRenewer.Safety

/-!
# One transaction at a time

A transaction begins only where nothing is left of another, imports once, and
turns away every installation that arrives while anything of it is there.
-/

namespace CertRenewer

open Crash

/-! ## What verifications and recoveries put on record -/

section
variable (x : Session) {P : Entry → Prop}

theorem logs_loadJournal : Logs P (loadJournal x) := by
  refine logs_bind (logs_readJournal x) fun j => ?_
  refine logs_bind (logs_lift _) fun _ => logs_bind (logs_update fun _ => ⟨rfl, rfl, rfl, rfl⟩) fun _ => ?_
  refine logs_bind ?_ fun _ => logs_pure j
  exact logs_bind logs_getJournal fun _ => logs_demand _ _

theorem logs_validateLiveVerifiedFiles (optional : Bool) (listed : ∀ n, Always P (.keytool n .list)) :
    Logs P (validateLiveVerifiedFiles x optional) := by
  refine logs_bind logs_getJournal fun _ => logs_bind (logs_status x .canonical) fun _ => ?_
  refine logs_bind (logs_demand _ _) fun _ => logs_bind (logs_demand _ _) fun _ => ?_
  refine logs_bind (logs_collectId x .canonical (listed _)) fun _ => ?_
  refine logs_bind (logs_demand _ _) fun _ => logs_bind (logs_exists x .rollback) fun _ => ?_
  have rest : Logs P (do
      demand (!(← exists_ x .stage)) "unexpected pending stage"
      demand (!(← exists_ x .journalNew)) "unexpected pending journal replacement") := by
    refine logs_bind (logs_exists x .stage) fun _ => logs_bind (logs_demand _ _) fun _ => ?_
    exact logs_bind (logs_exists x .journalNew) fun _ => logs_demand _ _
  split
  · refine logs_bind (logs_status x .rollback) fun _ => logs_bind (logs_demand _ _) fun _ => ?_
    refine logs_bind (logs_demand _ _) fun _ => ?_
    refine logs_bind (logs_collectId x .rollback (listed _)) fun _ => ?_
    exact logs_bind (logs_demand _ _) fun _ => rest
  · exact logs_bind (logs_demand _ _) fun _ => rest

theorem logs_canonicalLeaf (listed : Always P (.keytool .canonical .list)) : Logs P (canonicalLeaf x) :=
  logs_bind (logs_collect x .canonical listed) fun _ => logs_lift _

section
variable (idle : ∀ e, e.idle = true → Always P e)
include idle

theorem logs_observeLive (j : Journal) : Logs P (observeLive x j) := by
  have look := logs_validateLiveVerifiedFiles x false fun n => idle (.keytool n .list) rfl
  refine logs_bind (logs_running x) fun _ => logs_bind (logs_demand _ _) fun _ => ?_
  refine logs_bind look fun _ => logs_bind (logs_canonicalLeaf x (idle _ rfl)) fun leaf => ?_
  refine logs_bind (logs_demand _ _) fun _ => ?_
  refine logs_bind (logs_primitive x (logs_pure ())) fun _ => logs_bind (logs_primitive x ?_) fun _ => ?_
  · refine logs_bind (logs_read _) fun _ => logs_bind (logs_guard _ _) fun _ => ?_
    exact logs_emit (idle _ rfl)
  refine logs_bind (logs_running x) fun _ => logs_bind (logs_demand _ _) fun _ => ?_
  refine logs_bind look fun _ => ?_
  exact logs_bind (logs_canonicalLeaf x (idle _ rfl)) fun _ => logs_demand _ _

theorem logs_cleanUp : Logs P (cleanUp x) := by
  refine logs_bind (logs_remove x _ (idle _ rfl)) fun _ => ?_
  refine logs_bind (logs_remove x _ (idle _ rfl)) fun _ => ?_
  refine logs_bind (logs_remove x _ (idle _ rfl)) fun _ => ?_
  refine logs_bind (logs_syncDirectory x (idle _ rfl)) fun _ => ?_
  exact logs_bind (logs_remove x _ (idle _ rfl)) fun _ => logs_syncDirectory x (idle _ rfl)

end

theorem logs_observeCanonical (info : Stat) (listed : Always P (.keytool .canonical .list)) :
    Logs P (observeCanonical x info) := by
  refine logs_bind (logs_handle ?_ fun _ => logs_pure _) fun _ => ?_
  · exact logs_bind (logs_collectId x .canonical listed) fun _ => logs_pure _
  · exact logs_bind (logs_same x .canonical info) fun _ => logs_pure _

theorem logs_checkRollback (j : Journal) (canonical : Stat) (listed : Always P (.keytool .rollback .list)) :
    Logs P (checkRollback x j canonical) := by
  refine logs_bind (logs_exists x .rollback) fun _ => logs_ite ?_ ?_
  · refine logs_bind (logs_status x .rollback) fun _ => logs_bind (logs_status x .rollback) fun _ => ?_
    refine logs_bind (logs_demand _ _) fun _ => ?_
    refine logs_bind (logs_collectId x .rollback listed) fun _ => ?_
    exact logs_bind (logs_demand _ _) fun _ => logs_pure _
  · exact logs_bind (logs_demand _ _) fun _ => logs_pure _

section
variable (calm : ∀ e, e.calm = true → Always P e) (proven : Proven P)
include calm proven

theorem logs_restoreRollback (j : Journal) (rollback canonical : Stat) :
    Logs P (restoreRollback x j rollback canonical) := by
  refine logs_bind (logs_stopped x proven) fun _ => ?_
  refine logs_bind (logs_same x .rollback _) fun _ => logs_bind (logs_same x .canonical _) fun _ => ?_
  refine logs_bind (logs_replace x _ _ fun _ => calm _ rfl) fun _ => ?_
  refine logs_bind (logs_syncDirectory x (calm _ rfl)) fun _ => ?_
  refine logs_bind (logs_collectId x .canonical (calm _ rfl)) fun _ => ?_
  refine logs_bind (logs_demand _ _) fun _ => ?_
  exact logs_bind (logs_status x .canonical) fun _ => logs_demand _ _

theorem logs_decideRecovery (j : Journal) : Logs P (decideRecovery x j) := by
  refine logs_bind (logs_status x .canonical) fun info => ?_
  refine logs_bind (logs_observeCanonical x info (calm _ rfl)) fun canonical => ?_
  refine logs_bind (logs_checkRollback x j info (calm _ rfl)) fun rollback => ?_
  refine logs_ite (logs_pure _) (logs_ite (logs_pure _) ?_)
  cases rollback with
  | none => exact logs_raise _
  | some rollback =>
    refine logs_bind (logs_demand _ _) fun _ => ?_
    exact logs_bind (logs_restoreRollback x calm proven j rollback info) fun _ => logs_pure _

end

theorem logs_checkStage (j : Journal) : Logs P (checkStage x j) := by
  refine logs_bind (logs_exists x .stage) fun _ => logs_ite ?_ (logs_pure _)
  exact logs_bind (logs_status x .stage) fun _ => logs_demand _ _

section
variable (common : ∀ e, e.common = true → Always P e)
include common

theorem emits_verifyPending : Emits P (verifyPending x) := by
  have idle := always_idle common
  refine emits_locked x (always_guards common) (emits_bind ?_ fun j => ?_)
  · refine emits_bind (logs_exists x .journal).emits fun _ => ?_
    refine emits_bind (logs_demand _ _).emits fun _ => emits_bind (logs_loadJournal x).emits fun j => ?_
    refine emits_bind (logs_demand _ _).emits fun _ => emits_bind (logs_demand _ _).emits fun _ => ?_
    exact (logs_pure j).emits
  refine emits_bind (logs_observeLive x idle j).emits fun _ => ?_
  refine emits_bind (logs_phase x _ _ fun e h => idle e (Event.idle_of_scribes h)).emits fun _ => ?_
  refine emits_bind (logs_establish x idle).emits fun _ => ?_
  exact emits_bind (logs_finishLiveVerified x idle).emits fun _ => (logs_pure _).emits

theorem emits_recoverTransaction (j : Journal) (startup : Bool) :
    Emits P (recoverTransaction x j startup) := by
  have calm := always_calm common
  have idle := always_idle common
  refine emits_bind (emits_update fun _ => rfl) fun _ => ?_
  have proven : Proven P := (common .provenStopped rfl).proven
  refine emits_bind (logs_stop x (common _ rfl) proven).emits fun _ => ?_
  refine emits_bind (logs_decideRecovery x calm proven j).emits fun outcome => ?_
  refine emits_bind (logs_checkStage x j).emits fun _ => ?_
  refine emits_bind (logs_stopped x proven).emits fun _ => ?_
  refine emits_bind (emits_resumeService x common startup) fun _ => ?_
  refine emits_bind (logs_phase x _ _ fun e h => idle e (Event.idle_of_scribes h)).emits fun _ => ?_
  exact emits_ite (emits_bind (logs_cleanUp x idle).emits fun _ => (logs_pure _).emits) (logs_pure _).emits

theorem emits_recover (startup : Bool) : Emits P (recover x startup) := by
  have idle := always_idle common
  refine emits_locked x (always_guards common) ?_
  refine emits_bind (logs_exists x .journal).emits fun _ => emits_ite ?_ ?_
  · refine emits_bind (logs_loadJournal x).emits fun j => emits_ite ?_ ?_
    · refine emits_bind (logs_establish x idle).emits fun _ => ?_
      refine emits_bind (logs_validateLiveVerifiedFiles x true fun _ => idle _ rfl).emits fun _ => ?_
      exact emits_bind (logs_finishLiveVerified x idle).emits fun _ => (logs_pure _).emits
    · exact emits_recoverTransaction x common j startup
  · refine emits_bind (logs_noTransaction x).emits fun _ => ?_
    exact emits_bind (logs_syncDirectory x (idle _ rfl)).emits fun _ => (logs_pure _).emits

end

end

/-! ## Installations that are turned away -/

section
variable {g : Setting} {x : Session} {w t : World} {α : Type}

/-- Every name but the lock's, every file and the service are as they were. -/
structure Untouched (w t : World) : Prop where
  names : ∀ n, n ≠ .lock → t.disk.dir.visible n = w.disk.dir.visible n
  files : ∀ i < w.disk.dir.next, t.disk.files i = w.disk.files i
  service : t.service = w.service

theorem Untouched.quiet {u : World} (h : Untouched w t) (q : Quiet t u) : Untouched w u where
  names := by rw [q.disk]; exact h.names
  files := by rw [q.disk]; exact h.files
  service := q.service.trans h.service

theorem Locks.untouched (h : Locks w t) : Untouched w t := ⟨h.names, h.files, h.service⟩

/-- Something of a transaction is there. -/
def Busy (d : Disk) : Prop := ∃ n ∈ transactionNames, d.dir.visible n ≠ none

/-- Before its first step a transaction looks for another. -/
theorem exclusive_refused (expected : PublicKeystoreState) (body : Exec α) (busy : Busy w.disk) :
    Prog.Holds (exclusive x expected body) (fun _ _ => False) (fun _ => Untouched w) (Untouched w)
      w := by
  refine locked_holds x (A := Locks w) ?_ (fun t ht => ?_) (fun _ _ _ _ no => no) (fun _ _ no => no)
    (fun _ _ no => no.elim) (fun s t q h => h.quiet q) (fun t h => { h with }) fun t h => { h with }
  · exact (acquire_locks x).mono (fun _ t h => h.1) (fun _ t h => h.untouched) fun t h => h.untouched
  · refine Prog.holds_bind_of (R := fun _ _ => False) ?_ fun _ _ no => no.elim
    refine Prog.holds_bind_of ((reads_noTransaction x).keeps (K := Locks w) (fun s t q h => h.quiet q)
      (fun t h => h.untouched) ht) fun _ t ⟨ht, journal, new, stage, rollback⟩ => ?_
    obtain ⟨n, member, there⟩ := busy
    simp only [transactionNames, List.mem_cons, List.not_mem_nil, or_false] at member
    refine absurd ?_ there
    rcases member with rfl | rfl | rfl | rfl
    · exact (ht.names _ (by decide)).symm.trans journal
    · exact (ht.names _ (by decide)).symm.trans new
    · exact (ht.names _ (by decide)).symm.trans stage
    · exact (ht.names _ (by decide)).symm.trans rollback

theorem installCertificate_refused (request : CertificateImportRequest) (busy : Busy w.disk) :
    Prog.Holds (installCertificate x request) (fun _ _ => False) (fun _ => Untouched w) (Untouched w)
      w := by
  unfold installCertificate
  rw [Prog.holds_handle]
  exact (exclusive_refused request.before _ busy).mono (fun _ _ no => no) (fun _ _ h => h) fun _ h => h

/-- Whatever the message says, and before its transaction could begin. -/
theorem serveInstall_refused (arguments : Json) (busy : Busy w.disk) :
    Prog.Holds (serveInstall x arguments) (fun _ _ => False) (fun _ => Untouched w) (Untouched w) w := by
  -- nothing before the transaction changes more than the trace
  have stable (s t : World) (q : Quiet s t) (h : s.disk = w.disk ∧ s.service = w.service) :
      t.disk = w.disk ∧ t.service = w.service := ⟨q.disk.trans h.1, q.service.trans h.2⟩
  have stop (t : World) (h : t.disk = w.disk ∧ t.service = w.service) : Untouched w t := by
    refine ⟨fun n _ => ?_, fun i _ => ?_, h.2⟩ <;> rw [h.1]
  refine Prog.holds_bind_of ((reads_lift _).keeps stable stop ⟨rfl, rfl⟩) fun fields t ⟨ht, _⟩ => ?_
  match fields with
  | [digest, value] =>
    refine Prog.holds_bind_of ((reads_lift _).keeps stable stop ht) fun _ t ⟨ht, _⟩ => ?_
    refine Prog.holds_bind_of (R := fun _ t => t.disk = w.disk ∧ t.service = w.service) ?_
      fun request t ht => ?_
    · refine Prog.holds_bind_of ((reads_lift _).keeps stable stop ht) fun _ t ⟨ht, _⟩ => ?_
      refine Prog.holds_bind_of (holds_primitive x
        (S := fun _ t => t.disk = w.disk ∧ t.service = w.service) stable stop ht (fun t ht => ht)
        fun _ => stop) fun freshness t ht => ?_
      refine Prog.holds_bind_of ((reads_lift _).keeps stable stop ht) fun request t ⟨ht, _⟩ => ?_
      refine Prog.holds_bind_of ((reads_clock x).keeps stable stop ht) fun _ t ⟨ht, _⟩ => ?_
      refine Prog.holds_bind_of ((reads_lift _).keeps stable stop ht) fun _ t ⟨ht, _⟩ => ?_
      refine Prog.holds_bind_of ((reads_lift _).keeps stable stop ht) fun _ t ⟨ht, _⟩ => ?_
      exact Prog.holds_bind_of ((reads_demand _ _).keeps stable stop ht) fun _ t ⟨ht, _⟩ => ht
    · rw [← ht.1] at busy
      have back (s : World) (h : Untouched t s) : Untouched w s := by
        refine ⟨?_, ?_, h.service.trans ht.2⟩
        · rw [← ht.1]
          exact h.names
        · rw [← ht.1]
          exact h.files
      exact Prog.holds_bind_of ((installCertificate_refused request busy).mono (fun _ _ no => no)
        (fun _ s h => back s h) fun s h => back s h) fun _ _ no => no.elim
  | [] => exact stop t ht
  | [_] => exact stop t ht
  | _ :: _ :: _ :: _ => exact stop t ht

theorem handle_refused {message arguments : Json}
    (decoded : decodeEnvelope message = .ok (.install, arguments)) (busy : Busy w.disk) :
    Prog.Holds (handle x (some message)) (fun response t => response = .failed ∧ Untouched w t)
      (fun _ _ => False) (Untouched w) w := by
  unfold handle
  rw [Prog.holds_handle]
  have served : Prog.Holds (dispatch x message) (fun _ _ => False) (fun _ => Untouched w) (Untouched w)
      w := by
    unfold dispatch
    rw [decoded]
    exact serveInstall_refused arguments busy
  exact Prog.holds_bind_of (served.mono (fun _ _ no => no) (fun _ _ h => ⟨rfl, h⟩) fun _ h => h)
    fun _ _ no => no.elim

/-! ## Runs -/

/-- What a run has done so far: a transaction that was not journalled before is
journalled only where nothing is left of another; every journal on disk belongs
to the same one; and keytool imports once for each, into a stage that is not the
canonical file. -/
structure Sequential (g : Setting) (w : World) : Prop where
  begins : ∀ newer e older v, w.trace = newer ++ e :: older → e.event = .journalWrite v →
    (∀ a, Wrote older a → a.transaction ≠ v.transaction) → ∃ old c, Vacant e.disk old c
  journals : ∀ l j k a, w.disk.dir.visible .journal = some l → (w.disk.files l).content = .journal j →
    w.disk.dir.visible .journal = some k ∨
      (g.powered = true ∧ w.disk.dir.visible .journalNew = some k) →
    (w.disk.files k).content = .journal a → a.transaction = j.transaction
  imports : ∀ newer e older n reply, w.trace = newer ++ e :: older →
    e.event = .keytool n (.importcert reply) → n = .stage ∧
      (∃ j, e.process.journal = some j ∧ ¬ ImportedIn older j.transaction) ∧
      ∃ s k, e.disk.dir.visible .stage = some s ∧ e.disk.dir.visible .canonical = some k ∧ s ≠ k

/-- What the next operation does: verifications and recoveries import nothing;
an installation is turned away while anything of a transaction is there; and an
installation that is answered with a result installed its own request's chain
and left its own transaction pending. -/
structure Admits (g : Setting) (x : Session) (w : World) : Prop where
  spares : ∀ m, (m = verifyPending x ∨ ∃ startup, m = recover x startup) →
    ∃ new, (m w.fresh).2.trace = new ++ w.trace ∧
      ∀ e ∈ new, ∀ n reply, e.event ≠ .keytool n (.importcert reply)
  refuses : Busy w.disk → ∀ request, (∀ a, (installCertificate x request w.fresh).1 ≠ .ok a) ∧
    Untouched w (installCertificate x request w.fresh).2
  declines : Busy w.disk → ∀ message arguments,
    decodeEnvelope message = .ok (.install, arguments) →
    (∀ reply, (handle x (some message) w.fresh).1 ≠ .ok (.ok reply)) ∧
      Untouched w (handle x (some message) w.fresh).2
  answers : ∀ message response t, handle x message w.fresh = (.ok response, t) →
    response.Kept g x w.uuids message t.disk ∧ ∀ a, Wrote w.trace a → a.transaction < w.uuids

theorem Inv.sequential (inv : Inv g w) : Sequential g w where
  begins newer e older v split event unknown := by
    have ok := inv.trace
    rw [split] at ok
    have entry := ok.entry.1
    rw [EventOk, event] at entry
    exact entry.fresh unknown
  journals l j k a seen value which content := by
    have sealed := inv.sealed_of_content seen value
    rcases which with here | ⟨powered, new⟩
    · obtain rfl : l = k := Option.some.inj (seen.symm.trans here)
      cases value.symm.trans content
      rfl
    · exact (inv.tidy powered).pair k a l j new content seen sealed
  imports newer e older n reply split event := by
    have ok := inv.trace
    rw [split] at ok
    have entry := ok.entry.1
    rwa [EventOk, event] at entry

theorem Inv.admits (inv : Inv g w) (host : x.host = g.host) : Admits g x w where
  spares m which := by
    have common (e : Event) (he : e.common = true) :
        Always (fun e => ∀ n reply, e.event ≠ .keytool n (.importcert reply)) e := by
      rintro _ _ _ n reply rfl
      cases he
    rcases which with rfl | ⟨startup, rfl⟩
    · exact (emits_verifyPending x common).final w.fresh
    · exact (emits_recover x common startup).final w.fresh
  refuses busy request := by
    have run := installCertificate_refused (x := x) (w := w.fresh) request busy
    refine ⟨fun a eq => run.ok (Prog.eq_of_fst eq), ?_⟩
    have final : Untouched w.fresh (installCertificate x request w.fresh).2 :=
      (run.mono (fun _ _ no => no.elim) (fun _ _ h => h) fun _ h => h).final
    exact ⟨final.names, final.files, final.service⟩
  declines busy message arguments decoded := by
    have run := handle_refused (x := x) (w := w.fresh) decoded busy
    refine ⟨fun reply eq => ?_, ?_⟩
    · exact nomatch (run.ok (Prog.eq_of_fst eq)).1
    · have final : Untouched w.fresh (handle x (some message) w.fresh).2 :=
        (run.mono (fun _ _ h => h.2) (fun _ _ no => no.elim) fun _ h => h).final
      exact ⟨final.names, final.files, final.service⟩
  answers message response t run :=
    ⟨((handle_keeps host message inv.fresh rfl).ok run).2, inv.wrote⟩

/-- One transaction at a time, one import for each, and one answer to each
request, in whatever order requests, failures, restarts and power losses come. -/
theorem one_transaction_at_a_time (h : Reachable g w) :
    Sequential g w ∧ ∀ x : Session, x.host = g.host → Admits g x w :=
  ⟨h.inv.sequential, fun _ host => h.inv.admits host⟩

/-- A second installation, after the first. -/
theorem second_installation_is_turned_away : Busy Sample.installed.disk ∧
    ∀ a, (installCertificate (Sample.session []) Sample.request Sample.installed.fresh).1 ≠ .ok a := by
  have busy : Busy Sample.installed.disk := ⟨.journal, by decide, by decide +kernel⟩
  have admits := (one_transaction_at_a_time (Sample.reachable_installed true)).2 (Sample.session []) rfl
  exact ⟨busy, (admits.refuses busy Sample.request).1⟩

end

end CertRenewer
