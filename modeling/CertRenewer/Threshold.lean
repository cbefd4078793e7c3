import CertRenewer.Accounts

/-!
# The renewal threshold

A renewal is due some days before the end of a certificate, and what is issued
lives for more days than that. The gap is a day at least, and a leaf is at most
five minutes older than the instant it was validated at: a run neither issues
what it then refuses nor finds its own certificate due.
-/

namespace CertRenewer.Worker

open Crash (Prog)

/-- Instants at which a certificate is not due yet. -/
theorem not_due_before {first last reference days lifetime now : Int}
    (notBackdated : reference - 5 * 60000000 ≤ first) (exactly : last - first = lifetime * 86400000000)
    (early : now < reference + (lifetime - days) * 86400000000 - 5 * 60000000) :
    ¬last ≤ now + days * 86400000000 := by omega

theorem renewalIsDue_iff {c : CertificateInfo} {days : Int} {now : Time} :
    renewalIsDue c days now = true ↔ c.notValidAfter ≤ now + days * microsecondsPerDay := decide_eq_true_iff

/-- A renewal ends outside the renewal window, and the window is entered once. -/
theorem renewal_leaves_window :
    (∀ p : Peers, Prog.Holds (runOneShot p .renew) (fun _ _ => True) (fun f _ => f.windowed = false)
      (fun _ => True) (begin_ .renew)) ∧
      ∀ (lib : Library) (r : CertificateImportRequest) (now : Clock) (plan : CertificateImportPlan) (days : Int),
        days < r.issuance.lifetimeDays → prepareCertificateImport lib r now = .ok plan →
        remainsInWindow plan.issued (some days) r.issuance.freshnessReferenceTime = false ∧
          (∀ t, r.issuance.freshnessReferenceTime ≤ t →
            t < r.issuance.freshnessReferenceTime + (r.issuance.lifetimeDays - days) * microsecondsPerDay -
              defaultClockSkew → renewalIsDue plan.issued days t = false) ∧
          (∀ t, plan.issued.notValidAfter - days * microsecondsPerDay ≤ t →
            renewalIsDue plan.issued days t = true) ∧
          ∀ t u, t ≤ u → renewalIsDue plan.issued days t = true → renewalIsDue plan.issued days u = true := by
  refine ⟨fun p => ?_, fun lib r now plan days below prepared => ⟨?_, fun t _ early => ?_, fun t late => ?_, ?_⟩⟩
  · exact (runOneShot_succeeds .renew (reached_begin .renew)).mono (fun _ _ _ => trivial) (fun _ _ h => h.2)
      fun _ _ => trivial
  · refine remainsInWindow_eq_false prepared fun other same => ?_
    cases same
    exact below
  · obtain ⟨notBackdated, _, lifetime⟩ := prepare_lifetime prepared
    exact decide_eq_false (not_due_before notBackdated lifetime early)
  · exact renewalIsDue_iff.mpr (Int.le_add_of_sub_right_le late)
  · intro t u order due
    exact renewalIsDue_iff.mpr (Int.le_trans (renewalIsDue_iff.mp due) (Int.add_le_add_right order _))

end CertRenewer.Worker

namespace CertRenewer

/-! A host whose leaves live for two days. -/

def Sample.lastingLoad (data : Bytes) : Option Certificate :=
  (load data).map fun c => { c with notValidAfter := 2 * microsecondsPerDay }

def Sample.lasting : Library := { library with
  loadDer := lastingLoad
  loadPem data := (lastingLoad data).map fun c => [c] }

def Sample.lastingRequest : CertificateImportRequest :=
  { request with issuance := { request.issuance with lifetimeDays := 2 } }

theorem sample_leaves_window :
    ∃ plan, prepareCertificateImport Sample.lasting Sample.lastingRequest ⟨0, 0⟩ = .ok plan ∧
      Worker.renewalIsDue plan.issued 1 0 = false := by
  have prepared : ∃ plan, prepareCertificateImport Sample.lasting Sample.lastingRequest ⟨0, 0⟩ = .ok plan :=
    ⟨_, rfl⟩
  obtain ⟨plan, run⟩ := prepared
  have law := Worker.renewal_leaves_window.2 Sample.lasting Sample.lastingRequest ⟨0, 0⟩ plan 1 (by decide) run
  exact ⟨plan, run, law.2.1 0 (by decide) (by decide)⟩

end CertRenewer
