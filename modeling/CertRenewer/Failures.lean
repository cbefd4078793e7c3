import CertRenewer.Intact

/-!
# A failed installation

Wherever an installation fails, it left no trace, or its journal is on disk, or
it was cut off in the write of its first journal. What is turned away before the
transaction begins leaves no trace at all.
-/

namespace CertRenewer

open Crash

abbrev Unstopping (e : Entry) : Prop := e.event ≠ .stopIssued

/-- Nothing of the five names changed, and no stop was issued. -/
structure Traceless (w t : World) : Prop extends Intact w t where
  unstopped : Notes Unstopping w t

/-- The journal on disk is that of the transaction the request began, over the
canonical store that was there before it. -/
def Recorded (g : Setting) (w t : World) : Prop :=
  ∃ i a k, t.disk.dir.visible .journal = some i ∧ (t.disk.files i).content = .journal a ∧
    a.transaction = w.uuids ∧ w.disk.dir.visible .canonical = some k ∧ a.oldInode = ⟨g.dev, k⟩ ∧
    g.host.Reads (w.disk.files k).content a.old

/-- Only a temporary journal was left: the canonical store is untouched, and no
stop was issued. -/
structure Unfinished (w t : World) : Prop where
  canonical : t.disk.dir.visible .canonical = w.disk.dir.visible .canonical
  file : ∀ i, w.disk.dir.visible .canonical = some i → t.disk.files i = w.disk.files i
  alone : ∀ n ∈ transactionNames, n ≠ .journalNew → t.disk.dir.visible n = none
  unstopped : Notes Unstopping w t

def Accounted (g : Setting) (w t : World) : Prop := Traceless w t ∨ Recorded g w t ∨ Unfinished w t

section
variable {α : Type} {g : Setting} {x : Session} {w t u : World}

theorem Passive.traceless (h : Passive Unstopping w t) : Traceless w t := ⟨h.toIntact, h.new⟩

theorem Traceless.trans (h : Traceless w t) (k : Traceless t u) : Traceless w u :=
  ⟨h.toIntact.trans k.toIntact, h.unstopped.trans k.unstopped⟩

theorem Accounted.after (h : Accounted g w t) (p : Passive Unstopping t u) : Accounted g w u := by
  have file {n : Name} {i : Nat} (seen : t.disk.dir.visible n = some i) : u.disk.files i = t.disk.files i :=
    p.files i (t.disk.dir.visible_lt seen)
  rcases h with traceless | ⟨i, a, k, seen, content, rest⟩ | ⟨canonical, kept, alone, unstopped⟩
  · exact Or.inl (traceless.trans p.traceless)
  · refine Or.inr (Or.inl ⟨i, a, k, ?_, ?_, rest⟩)
    · rw [p.names .journal (by decide)]
      exact seen
    · rw [file seen]
      exact content
  · refine Or.inr (Or.inr ⟨?_, fun i seen => ?_, fun n member other => ?_, unstopped.trans p.new⟩)
    · rw [p.names .canonical (by decide)]
      exact canonical
    · rw [file (canonical.trans seen)]
      exact kept i seen
    · rw [p.names n (by rintro rfl; exact absurd member (by decide))]
      exact alone n member other

theorem Accounted.before (p : Passive Unstopping w t) (h : Accounted g t u) : Accounted g w u := by
  have canonical := p.names .canonical (by decide)
  rcases h with traceless | ⟨i, a, k, seen, content, number, there, old, reads⟩ |
    ⟨same, kept, alone, unstopped⟩
  · exact Or.inl (p.traceless.trans traceless)
  · rw [canonical] at there
    rw [p.files k (w.disk.dir.visible_lt there)] at reads
    exact Or.inr (Or.inl ⟨i, a, k, seen, content, number.trans p.uuids, there, old, reads⟩)
  · refine Or.inr (Or.inr ⟨same.trans canonical, fun i seen => ?_, alone, p.new.trans unstopped⟩)
    rw [kept i (canonical.trans seen), p.files i (w.disk.dir.visible_lt seen)]

/-! ## The transaction -/

theorem OnDisk.recorded {s : Journal} (h : OnDisk s t) (first : First g w s) : Recorded g w t := by
  obtain ⟨i, a, seen, content, start⟩ := h
  obtain ⟨k, canonical, old, reads⟩ := first.old
  refine ⟨i, a, k, seen, content, ?_, canonical, ?_, ?_⟩
  · rw [← first.transaction, ← start]
    rfl
  · rw [← old, ← start]
    rfl
  · rw [← start] at reads
    exact reads

theorem Fails.accounted (h : Fails g w t) : Accounted g w t := by
  rcases h.reached with ⟨⟨_, same | ⟨s, v, disk, vacant, first, part⟩⟩, unstopped⟩ | ⟨s, first, there⟩
  · exact Or.inl ⟨.of_disk same, unstopped⟩
  · by_cases free : t.disk.dir.visible .journal = none
    · have names := part.scribed.names
      have files := part.scribed.files
      rw [disk] at names files
      refine Or.inr (Or.inr ⟨names _ (by decide) (by decide), fun i seen => ?_, fun n member other => ?_,
        unstopped⟩)
      · exact files i (w.disk.dir.visible_lt seen) (by rw [vacant .journalNew (by decide)]; simp)
      · by_cases record : n = .journal
        · rw [record]
          exact free
        · exact (names n record other).trans (vacant n member)
    · refine Or.inr (Or.inl ?_)
      have there := part.held.onDisk free
      rw [← first.start] at there
      exact there.recorded first
  · exact Or.inr (Or.inl (there.recorded first))

theorem guards_unstopping (e : Event) (h : e.guards = true) : Always Unstopping e := by
  rintro _ _ _ rfl
  cases h

/-- What the body of a locked operation leaves, with what taking the lock and
giving it up add to it. -/
theorem locked_ends {body : Exec α} {C : α → Prop} {I : World → World → Prop}
    (look : ∀ s t, Passive Unstopping s t → I s t)
    (before : ∀ s t u, Passive Unstopping s t → I t u → I s u)
    (after : ∀ s t u, I s t → Passive Unstopping t u → I s u)
    (inside : ∀ t, Entered g t → Passive Unstopping w t →
      Prog.Holds body (fun a u => C a ∧ I t u) (fun _ => I t) (I t) t)
    (inv : Inv g w) (journal : w.process.journal = none) :
    Prog.Holds (locked x body) (fun a t => C a ∧ I w t) (fun _ => I w) (I w) w := by
  unfold locked
  rw [Prog.holds_ensure]
  have release (t : World) (ht : I w t) : Prog.Holds (release x) (fun _ => I w) (fun _ => I w) (I w) t :=
    (looks_release x guards_unstopping t).mono (fun _ u hu => after w t u ht hu.1)
      (fun _ u hu => after w t u ht hu) fun u hu => after w t u ht hu
  have run : Prog.Holds (mask "UniFi executor operation failed; recovery may be required"
      (do acquire x; body)) (fun a t => C a ∧ I w t) (fun _ => I w) (I w) w := by
    unfold mask
    rw [Prog.holds_handle]
    refine Prog.holds_bind_of (((acquire_keeps x inv journal).and
      (looks_acquire x guards_unstopping w)).mono (fun _ t ht => And.intro ht.1 ht.2.1)
      (fun _ t ht => look w t ht.2) fun t ht => look w t ht.2) fun _ t ⟨entered, passive⟩ => ?_
    exact (inside t entered passive).mono (fun _ u hu => ⟨hu.1, before w t u passive hu.2⟩)
      (fun _ u hu => before w t u passive hu) fun u hu => before w t u passive hu
  exact run.mono (fun _ t ht => (release t ht.2).mono (fun _ _ hu => ⟨ht.1, hu⟩) (fun _ _ hu => hu)
    fun _ hu => hu) (fun _ t ht => release t ht) fun t ht => ht

theorem installCertificate_accounted (host : x.host = g.host) (request : CertificateImportRequest)
    (inv : Inv g w) (journal : w.process.journal = none) :
    Prog.Holds (installCertificate x request) (fun _ => Accounted g w) (fun _ => Accounted g w)
      (Accounted g w) w := by
  rw [installCertificate_eq, Prog.holds_handle]
  refine (locked_ends (C := fun _ => True) (I := Accounted g) (fun _ _ p => Or.inl p.traceless)
    (fun _ _ _ p h => h.before p) (fun _ _ _ h p => h.after p) (fun t entered _ => ?_) inv journal).mono
    (fun _ _ h => h.2) (fun _ _ h => h) fun _ h => h
  exact (transact_keeps (P := Answers g request) host request.before
    (fun t j h => installBody_keeps host request h) entered).mono
    (fun _ _ h => ⟨trivial, h.1.accounted⟩) (fun _ _ h => h.accounted) fun _ h => h.accounted

/-! ## A stale request -/

/-- The request's old state is not the public state of the canonical store. -/
def Stale (x : Session) (w : World) (request : CertificateImportRequest) : Prop :=
  ∀ i state, w.disk.dir.visible .canonical = some i →
    x.host.read (w.disk.files i).content = some state →
    samePublic x.host.lib state request.before ≠ .ok true

theorem begin_stale {request : CertificateImportRequest} (stale : Stale x w request) :
    Prog.Holds (begin_ x request.before) (fun _ _ => False) (fun _ => Traceless w) (Traceless w) w := by
  have stable (s t : World) (q : Quiet s t) (h : s.disk = w.disk) : t.disk = w.disk := q.disk.trans h
  have stop (t : World) (h : t.disk = w.disk) : t.disk = w.disk := h
  suffices whole : Prog.Holds (begin_ x request.before) (fun _ _ => False) (fun _ t => t.disk = w.disk)
      (fun t => t.disk = w.disk) w from
    (whole.and (logs_begin (P := Unstopping) x (fun e idle _ _ _ => Event.idle_ne_stopIssued idle)
      request.before w)).mono (fun _ _ h => h.1) (fun _ _ h => ⟨.of_disk h.1, h.2.new⟩)
      fun _ h => ⟨.of_disk h.1, h.2.new⟩
  refine Prog.holds_bind_of ((reads_noTransaction x).keeps stable stop rfl) fun _ t ⟨ht, _⟩ => ?_
  refine Prog.holds_bind_of ((reads_status x .canonical).keeps stable stop ht) fun _ t ⟨ht, _⟩ => ?_
  refine Prog.holds_bind_of ((reads_collect x .canonical).keeps stable stop ht)
    fun state t ⟨ht, i, seen, read⟩ => ?_
  rw [World.view_disk, ht] at seen read
  refine Prog.holds_bind_of ((reads_same x .canonical _).keeps stable stop ht) fun _ t ⟨ht, _⟩ => ?_
  refine Prog.holds_bind_of ((reads_lift _).keeps stable stop ht) fun b t ⟨ht, same⟩ => ?_
  refine Prog.holds_bind_of ((reads_demand _ _).keeps stable stop ht) fun _ t ⟨ht, yes⟩ => ?_
  exact absurd (yes ▸ same) (stale i state seen read)

theorem installCertificate_stale {request : CertificateImportRequest} (stale : Stale x w request)
    (inv : Inv g w) (journal : w.process.journal = none) :
    Prog.Holds (installCertificate x request) (fun _ _ => False) (fun _ => Traceless w) (Traceless w) w := by
  rw [installCertificate_eq, Prog.holds_handle]
  refine (locked_ends (C := fun _ => False) (I := Traceless) (fun _ _ p => p.traceless)
    (fun _ _ _ p h => p.traceless.trans h) (fun _ _ _ h p => h.trans p.traceless)
    (fun t _ passive => ?_) inv journal).mono (fun _ _ h => h.1) (fun _ _ h => h) fun _ h => h
  have stale : Stale x t request := fun i state seen read => by
    rw [passive.names .canonical (by decide)] at seen
    rw [passive.files i (w.disk.dir.visible_lt seen)] at read
    exact stale i state seen read
  exact Prog.holds_bind_of (begin_stale stale) fun _ _ no => no.elim

/-! ## Messages -/

theorem looks_decodeImportRequest {P : Entry → Prop} (stamped : ∀ time, Always P (.stamped time))
    (value : Json) : Looks P (decodeImportRequest x value) := by
  refine looks_bind (looks_lift _) fun fields => looks_bind (looks_primitive x ?_) fun freshness => ?_
  · exact looks_bind (looks_read _) fun _ => looks_bind (looks_emit (stamped _)) fun _ => looks_pure _
  refine looks_bind (looks_lift _) fun request => ?_
  refine looks_bind ((reads_clock x).looks (logs_clock x).emits) fun _ => looks_bind (looks_lift _) fun _ => ?_
  exact looks_bind (looks_lift _) fun _ => looks_bind (looks_demand _ _) fun _ => looks_pure _

theorem stamped_unstopping (time : Time) : Always Unstopping (.stamped time) := fun _ _ _ no => nomatch no

/-- A request is decoded before anything else is done, and keeps the state in
which a transaction can begin. -/
theorem decodeImportRequest_waits (value : Json) (inv : Inv g w) (journal : w.process.journal = none) :
    Prog.Holds (decodeImportRequest x value)
      (fun _ t => Passive Unstopping w t ∧ Inv g t ∧ t.process.journal = none)
      (fun _ => Traceless w) (Traceless w) w :=
  ((looks_decodeImportRequest stamped_unstopping value w).and
    (decodeImportRequest_keeps (u := w.uuids) value ⟨inv, journal, rfl⟩)).mono
    (fun _ _ h => ⟨h.1.1, h.2.1.inv, h.2.1.journal⟩) (fun _ _ h => h.1.traceless) fun _ h => h.1.traceless

theorem serveInstall_accounted (host : x.host = g.host) (arguments : Json) (inv : Inv g w)
    (journal : w.process.journal = none) :
    Prog.Holds (serveInstall x arguments) (fun _ => Accounted g w) (fun _ => Accounted g w)
      (Accounted g w) w := by
  have here (t : World) (p : Passive Unstopping w t) : Accounted g w t := Or.inl p.traceless
  have look {β : Type} {m : Exec β} (l : Looks Unstopping m) {t : World} (ht : Accounted g w t) :
      Prog.Holds m (fun _ => Accounted g w) (fun _ => Accounted g w) (Accounted g w) t :=
    (l t).mono (fun _ _ h => ht.after h.1) (fun _ _ h => ht.after h) fun _ h => ht.after h
  unfold serveInstall lift
  rw [Prog.holds_bind, Prog.holds_ofExcept]
  refine ⟨fun fields _ => ?_, fun _ _ => here w (Passive.refl _ w)⟩
  match fields with
  | [digest, value] =>
    rw [Prog.holds_bind, Prog.holds_ofExcept]
    refine ⟨fun _ _ => ?_, fun _ _ => here w (Passive.refl _ w)⟩
    refine Prog.holds_bind_of ((decodeImportRequest_waits value inv journal).mono (fun _ _ h => h)
      (fun _ _ h => Or.inl h) fun _ h => Or.inl h) fun request t ⟨passive, inv, journal⟩ => ?_
    refine Prog.holds_bind_of ((installCertificate_accounted host request inv journal).mono
      (fun _ _ h => h.before passive) (fun _ _ h => h.before passive) fun _ h => h.before passive)
      fun inspection t ht => ?_
    refine Prog.holds_bind_of (look ((reads_clock x).looks (logs_clock x).emits) ht) fun _ t ht => ?_
    refine Prog.holds_bind_of (look (looks_lift _) ht) fun _ t ht => ?_
    refine Prog.holds_bind_of (look (looks_lift _) ht) fun _ t ht => ?_
    exact look (looks_lift _) ht
  | [] => exact here w (Passive.refl _ w)
  | [_] => exact here w (Passive.refl _ w)
  | _ :: _ :: _ :: _ => exact here w (Passive.refl _ w)

/-- A message that `_decode_envelope`, the digest check or
`_decode_import_request` turns away. -/
inductive Rejected (x : Session) (w : World) : Option Json → Prop where
  | unread : Rejected x w none
  | envelope {message : Json} {e : Error} (failed : decodeEnvelope message = .error e) :
    Rejected x w (some message)
  | arguments {message arguments : Json} {e : Error}
    (decoded : decodeEnvelope message = .ok (.install, arguments))
    (failed : exactDict arguments ["policy_digest", "request"] = .error e) : Rejected x w (some message)
  | digest {message arguments digest value : Json} {e : Error}
    (decoded : decodeEnvelope message = .ok (.install, arguments))
    (split : exactDict arguments ["policy_digest", "request"] = .ok [digest, value])
    (failed : requireDigest x digest = .error e) : Rejected x w (some message)
  | request {message arguments digest value : Json} {e : Error} {t : World}
    (decoded : decodeEnvelope message = .ok (.install, arguments))
    (split : exactDict arguments ["policy_digest", "request"] = .ok [digest, value])
    (authorised : requireDigest x digest = .ok ())
    (failed : decodeImportRequest x value w = (.raised e, t)) : Rejected x w (some message)

theorem dispatch_of_install {message arguments : Json}
    (decoded : decodeEnvelope message = .ok (.install, arguments)) :
    dispatch x message = serveInstall x arguments := by
  unfold dispatch
  rw [decoded]
  rfl

theorem serveInstall_of_split {arguments digest value : Json}
    (split : exactDict arguments ["policy_digest", "request"] = .ok [digest, value]) :
    serveInstall x arguments = (do
      lift (requireDigest x digest)
      let request ← decodeImportRequest x value
      let inspection ← installCertificate x request
      let plan ← lift (prepareCertificateImport x.host.lib request (← clock x))
      let after ← lift (inspectionState x inspection plan.certificateChainDer)
      lift (encodeState x after)) := by
  unfold serveInstall
  rw [split]
  rfl

/-- What the service answers when its dispatch failed. -/
theorem handle_failed {message : Json} {I : World → Prop}
    (h : Prog.Holds (dispatch x message) (fun _ _ => False) (fun _ => I) I w) :
    Prog.Holds (handle x (some message)) (fun r t => r = .failed ∧ I t) (fun _ _ => False) I w := by
  unfold handle
  rw [Prog.holds_handle]
  exact Prog.holds_bind_of (h.mono (fun _ _ no => no) (fun _ _ h => ⟨rfl, h⟩) fun _ h => h)
    fun _ _ no => no.elim

theorem handle_rejected {message : Option Json} (h : Rejected x w message) :
    Prog.Holds (handle x message) (fun r t => r = .failed ∧ Traceless w t) (fun _ _ => False)
      (Traceless w) w := by
  have here : Traceless w w := (Passive.refl _ w).traceless
  cases h with
  | unread => exact ⟨rfl, here⟩
  | envelope failed =>
    refine handle_failed ?_
    unfold dispatch
    rw [failed]
    exact here
  | arguments decoded failed =>
    refine handle_failed ?_
    rw [dispatch_of_install decoded]
    unfold serveInstall
    rw [failed]
    exact here
  | digest decoded split failed =>
    refine handle_failed ?_
    rw [dispatch_of_install decoded, serveInstall_of_split split, failed]
    exact here
  | @request _ _ _ value _ t decoded split authorised failed =>
    refine handle_failed ?_
    rw [dispatch_of_install decoded, serveInstall_of_split split, authorised]
    have traceless : Traceless w t :=
      ((looks_decodeImportRequest stamped_unstopping value w).raised failed).traceless
    have raised : Prog.Holds (decodeImportRequest x value) (fun _ _ => False) (fun _ => Traceless w)
        (Traceless w) w := by
      unfold Prog.Holds
      rw [failed]
      exact traceless
    exact Prog.holds_bind_of (show Prog.Holds (lift (.ok ())) (fun _ t => t = w) _ _ w from rfl)
      fun _ u hu => by
        rw [hu]
        exact Prog.holds_bind_of raised fun _ _ no => no.elim

/-- A message whose request was decoded, and is stale. -/
structure Outdated (x : Session) (w : World) (message : Json) : Prop where
  request : ∃ arguments digest value request t,
    decodeEnvelope message = .ok (.install, arguments) ∧
    exactDict arguments ["policy_digest", "request"] = .ok [digest, value] ∧
    decodeImportRequest x value w = (.ok request, t) ∧ Stale x w request

theorem handle_outdated {message : Json} (h : Outdated x w message) (inv : Inv g w)
    (journal : w.process.journal = none) :
    Prog.Holds (handle x (some message)) (fun r t => r = .failed ∧ Traceless w t) (fun _ _ => False)
      (Traceless w) w := by
  obtain ⟨arguments, digest, value, request, t, decoded, split, ran, stale⟩ := h.request
  refine handle_failed ?_
  rw [dispatch_of_install decoded, serveInstall_of_split split]
  unfold lift
  rw [Prog.holds_bind, Prog.holds_ofExcept]
  refine ⟨fun _ _ => ?_, fun _ _ => (Passive.refl _ w).traceless⟩
  obtain ⟨passive, inv, journal⟩ := (decodeImportRequest_waits value inv journal).ok ran
  have stale : Stale x t request := fun i state seen read => by
    rw [passive.names .canonical (by decide)] at seen
    rw [passive.files i (w.disk.dir.visible_lt seen)] at read
    exact stale i state seen read
  have refused : Prog.Holds (decodeImportRequest x value) (fun a u => a = request ∧ u = t)
      (fun _ _ => False) (fun _ => False) w := by
    unfold Prog.Holds
    rw [ran]
    exact ⟨rfl, rfl⟩
  refine Prog.holds_bind_of (refused.mono (fun _ _ h => h) (fun _ _ no => no.elim) fun _ no => no.elim)
    fun _ u ⟨found, reached⟩ => ?_
  rw [found, reached]
  exact Prog.holds_bind_of ((installCertificate_stale stale inv journal).mono (fun _ _ no => no)
    (fun _ _ h => passive.traceless.trans h) fun _ h => passive.traceless.trans h) fun _ _ no => no.elim

/-! ## Messages that only look -/

/-- Neither a stop nor a start. -/
abbrev Unserviced (e : Entry) : Prop := e.event ≠ .stopIssued ∧ e.event ≠ .startIssued

theorem guards_unserviced (e : Event) (h : e.guards = true) : Always Unserviced e := by
  refine fun _ _ _ => ⟨?_, ?_⟩
  · rintro rfl
    cases h
  · rintro rfl
    cases h

theorem looks_handle_message {P : Entry → Prop} {message : Json} (h : Looks P (dispatch x message)) :
    Looks P (handle x (some message)) :=
  looks_handle (looks_bind h fun _ => looks_pure _) fun _ => looks_pure _

theorem looks_dispatch {message arguments : Json} {operation : OperationName}
    (decoded : decodeEnvelope message = .ok (operation, arguments))
    (which : operation = .inspect ∨ operation = .generateCsr) : Looks Unserviced (dispatch x message) := by
  have listed : Always Unserviced (.keytool .canonical .list) :=
    fun _ _ _ => ⟨(fun no => nomatch no), fun no => nomatch no⟩
  have requested (dname ext : String) : Always Unserviced (.keytool .canonical (.certreq dname ext)) :=
    fun _ _ _ => ⟨(fun no => nomatch no), fun no => nomatch no⟩
  rcases which with rfl | rfl
  · rw [show dispatch x message = serveInspect x arguments by unfold dispatch; rw [decoded]; rfl]
    refine looks_bind (looks_lift _) fun _ => ?_
    exact looks_bind (looks_inspectPublicState x guards_unserviced listed) fun _ => looks_lift _
  · rw [show dispatch x message = serveGenerateCsr x arguments by unfold dispatch; rw [decoded]; rfl]
    refine looks_bind (looks_lift _) fun fields => ?_
    match fields with
    | [digest, spki] =>
      refine looks_bind (looks_lift _) fun _ => looks_bind (looks_lift _) fun policy => ?_
      exact looks_bind (looks_generateCsr x guards_unserviced listed requested policy) fun _ => looks_pure _
    | [] => exact looks_refuse _
    | [_] => exact looks_refuse _
    | _ :: _ :: _ :: _ => exact looks_refuse _

/-! ## What a failure leaves -/

/-- What the answer to a message leaves behind when it is no success, and what
an inspection or a signing request leaves behind whatever the answer is. -/
structure Answerable (g : Setting) (x : Session) (w : World) : Prop where
  accounted : ∀ message arguments, decodeEnvelope message = .ok (.install, arguments) →
    (∀ reply, (handle x (some message) w.fresh).1 ≠ .ok (.ok reply)) →
    Accounted g w (handle x (some message) w.fresh).2
  rejected : ∀ message, Rejected x w.fresh message →
    (∀ reply, (handle x message w.fresh).1 ≠ .ok (.ok reply)) ∧ Traceless w (handle x message w.fresh).2
  outdated : ∀ message, Outdated x w.fresh message →
    (∀ reply, (handle x (some message) w.fresh).1 ≠ .ok (.ok reply)) ∧
      Traceless w (handle x (some message) w.fresh).2
  looking : ∀ message operation arguments, decodeEnvelope message = .ok (operation, arguments) →
    operation = .inspect ∨ operation = .generateCsr →
    Passive Unserviced w (handle x (some message) w.fresh).2

theorem passive_fresh {P : Entry → Prop} (w : World) : Passive P w w.fresh :=
  ⟨.of_disk rfl, rfl, rfl, [], rfl, by simp⟩

/-- An answer that is never a success, and where it leaves the world. -/
theorem unsuccessful {message : Option Json} (h : Prog.Holds (handle x message)
    (fun r t => r = .failed ∧ Traceless w.fresh t) (fun _ _ => False) (Traceless w.fresh) w.fresh) :
    (∀ reply, (handle x message w.fresh).1 ≠ .ok (.ok reply)) ∧ Traceless w (handle x message w.fresh).2 := by
  refine ⟨(fun reply eq => nomatch (h.ok (Prog.eq_of_fst eq)).1), ?_⟩
  have final : Traceless w.fresh (handle x message w.fresh).2 :=
    (h.mono (fun _ _ h => h.2) (fun _ _ no => no.elim) fun _ h => h).final
  exact (passive_fresh w).traceless.trans final

/-- A failed installation is traceless or journalled, and nothing else leaves
more than the lock behind. -/
theorem failed_installation_is_traceless_or_journalled (h : Reachable g w) (host : x.host = g.host) :
    Answerable g x w where
  accounted message arguments decoded _ := by
    have served : Prog.Holds (handle x (some message)) (fun _ => Accounted g w.fresh)
        (fun _ => Accounted g w.fresh) (Accounted g w.fresh) w.fresh := by
      unfold handle
      rw [Prog.holds_handle]
      refine Prog.holds_bind_of (R := fun _ => Accounted g w.fresh) ?_ fun _ _ h => h
      rw [dispatch_of_install decoded]
      exact (serveInstall_accounted host arguments h.inv.fresh rfl).mono (fun _ _ h => h)
        (fun _ _ h => h) fun _ h => h
    exact served.final.before (passive_fresh w)
  rejected message rejected := unsuccessful (handle_rejected rejected)
  outdated message outdated := unsuccessful (handle_outdated outdated h.inv.fresh rfl)
  looking message operation arguments decoded which := by
    have final : Passive Unserviced w.fresh (handle x (some message) w.fresh).2 :=
      ((looks_handle_message (looks_dispatch decoded which)) w.fresh |>.mono (fun _ _ h => h.1)
        (fun _ _ h => h) fun _ h => h).final
    exact (passive_fresh w).trans final

/-- An installation whose stop of the service is refused. -/
theorem failed_installation_is_accounted_for :
    (handle (Sample.session [(57, .fault)]) (some Sample.message) Sample.start.fresh).1 = .ok .failed ∧
      Accounted (Sample.setting true) Sample.start
        (handle (Sample.session [(57, .fault)]) (some Sample.message) Sample.start.fresh).2 := by
  have failed : (handle (Sample.session [(57, .fault)]) (some Sample.message) Sample.start.fresh).1 =
      .ok .failed := by decide +kernel
  have reachable : Reachable (Sample.setting true) Sample.start := ⟨[], Sample.leads (by simp)⟩
  refine ⟨failed, (failed_installation_is_traceless_or_journalled reachable rfl).accounted Sample.message
    _ rfl fun reply success => ?_⟩
  rw [failed] at success
  cases success

end

end CertRenewer
