import CertRenewer.Verifying

/-!
# Every run keeps the invariant

Inspections and signing requests only look. With what installations,
verifications and recoveries keep, and what a power loss keeps, every state of
every run from a clean start satisfies the invariant.
-/

namespace CertRenewer

open Crash

section
variable {g : Setting} {x : Session} {w t : World}

/-! ## The start -/

theorem sealed_nil {i : Nat} {c : Content} : Sealed g [] i c ↔ i = g.file ∧ c = g.content := by
  simp [Sealed]

theorem Clean.inv (h : Clean g w) : Inv g w := by
  have images {ns : Names Name} (image : w.disk.dir.Image ns) : ns = w.disk.dir.visible :=
    (w.disk.dir.image_of_pending_nil h.synced ns).mp image
  have named {n : Name} {i : Nat} (seen : w.disk.dir.visible n = some i) :
      (n = .canonical ∧ i = g.file) ∨ (n = .lock ∧ i ≠ g.file) := by
    by_cases canonical : n = .canonical
    · subst canonical
      exact Or.inl ⟨rfl, Option.some.inj (seen.symm.trans h.canonical)⟩
    · by_cases lock : n = .lock
      · subst lock
        exact Or.inr ⟨rfl, (h.lock i seen).1⟩
      · rw [h.others n canonical lock] at seen
        cases seen
  have free {n : Name} (canonical : n ≠ .canonical := by decide) (lock : n ≠ .lock := by decide) :
      w.disk.dir.visible n = none := h.others n canonical lock
  have wrote (a : Journal) : ¬ Wrote w.trace a := by simp [Wrote, h.trace]
  refine ⟨⟨h.dev, ⟨?_, ?_⟩, ?_, ?_, ?_, ?_, ?_, ?_, ?_, ?_, ?_, ?_, ?_⟩, fun _ => ⟨?_, ?_, ?_, ?_⟩, ?_, ?_⟩
  · intro ns image n m i hn hm
    rw [images image] at hn hm
    rcases named hn with ⟨rfl, rfl⟩ | ⟨rfl, no⟩ <;> rcases named hm with ⟨rfl, eq⟩ | ⟨rfl, no'⟩
    · exact Or.inl rfl
    · exact absurd rfl no'
    · exact absurd eq no
    · exact Or.inl rfl
  · intro n _ i hi ns image m hm
    rw [images image] at hm
    rcases named hi with ⟨rfl, rfl⟩ | ⟨rfl, no⟩ <;> rcases named hm with ⟨rfl, eq⟩ | ⟨rfl, no'⟩
    · rfl
    · exact absurd rfl no'
    · exact absurd eq no
    · rfl
  · intro ns image n i hi
    rw [images image] at hi
    rcases named hi with ⟨rfl, rfl⟩ | ⟨rfl, _⟩
    · exact h.healthy
    · exact (h.lock i hi).2
  · intro i c sealed
    rw [h.trace, sealed_nil] at sealed
    obtain ⟨rfl, rfl⟩ := sealed
    exact ⟨w.disk.dir.visible_lt h.canonical, h.content, h.stored⟩
  · intro ns image
    rw [images image, h.trace]
    refine ⟨⟨g.file, g.content, h.canonical, sealed_nil.mpr ⟨rfl, rfl⟩, Or.inl ⟨rfl, rfl⟩⟩,
      fun _ => ⟨free, free⟩, fun i hi => ?_⟩
    rw [free] at hi
    cases hi
  · intro i j hi
    rw [free] at hi
    cases hi
  · intro _ ns image
    rw [images image]
    exact ⟨rfl, free, free⟩
  · intro i j hi
    rw [free] at hi
    cases hi
  · intro a b ha
    exact absurd ha (wrote a)
  · intro a ha
    exact absurd ha (wrote a)
  · intro k hk
    simp [ImportedIn, h.trace] at hk
  · intro j hj
    rw [h.memory] at hj
    cases hj
  · rw [h.trace]
    trivial
  · exact fun no => absurd free no
  · intro k a i j hk
    rw [free] at hk
    cases hk
  · exact fun _ _ _ _ _ => free
  · intro _ i j hi
    rw [free] at hi
    cases hi
  · intro ns image _ there
    rw [images image] at there
    rcases there with there | there | there <;> exact absurd free there
  · exact fun _ _ there => absurd free there

/-! ## The operations that only look -/

theorem inspectPublicState_keeps (inv : Inv g w) (journal : w.process.journal = none) :
    Prog.Holds (inspectPublicState x) (fun _ => Inv g) (fun _ => Inv g) (Inv g) w := by
  unfold inspectPublicState
  rw [Prog.holds_bind, Prog.holds_read]
  have stable (s t : World) (q : Quiet s t) (h : Inv g s) : Inv g t := h.steady q.toSteady
  split
  · exact ((reads_collect x .canonical).keeps stable (fun _ h => h) inv).mono (fun _ _ h => h.1)
      (fun _ _ h => h) fun _ h => h
  · refine (locked_keeps x (P := fun _ _ => True) (fun _ _ _ _ h => h) (fun _ _ h => h)
      (fun t ht _ => ?_) inv journal).mono (fun _ _ h => h.1) (fun _ _ h => h) fun _ h => h
    refine Prog.holds_bind_of ((reads_noTransaction x).keeps stable (fun _ h => h) ht.inv)
      fun _ t ⟨ht, _⟩ => ?_
    exact ((reads_collect x .canonical).keeps stable (fun _ h => h) ht).mono
      (fun _ _ h => ⟨h.1, trivial⟩) (fun _ _ h => h) fun _ h => h

theorem generateCsr_keeps (policy : CertificatePolicy) (inv : Inv g w)
    (journal : w.process.journal = none) :
    Prog.Holds (generateCsr x policy) (fun _ => Inv g) (fun _ => Inv g) (Inv g) w := by
  have stable (s t : World) (q : Quiet s t) (h : Inv g s ∧ s.process.journal = none) :
      Inv g t ∧ t.process.journal = none :=
    ⟨h.1.steady q.toSteady, by rw [q.process]; exact h.2⟩
  have stop (t : World) (h : Inv g t ∧ t.process.journal = none) : Inv g t := h.1
  refine Prog.holds_bind_of ((reads_lift _).keeps stable stop ⟨inv, journal⟩)
    fun command t ⟨ht, _⟩ => ?_
  refine Prog.holds_bind_of ((reads_demand _ _).keeps stable stop ht) fun _ t ⟨ht, _⟩ => ?_
  refine (locked_keeps x (P := fun _ _ => True) (fun _ _ _ _ h => h) (fun _ _ h => h)
    (fun t ht _ => ?_) ht.1 ht.2).mono (fun _ _ h => h.1) (fun _ _ h => h) fun _ h => h
  have steady (s t : World) (q : Steady s t) (h : Inv g s) : Inv g t := h.steady q
  have stable (s t : World) (q : Quiet s t) (h : Inv g s) : Inv g t := h.steady q.toSteady
  have stop (t : World) (h : Inv g t) : Inv g t := h
  have ht := ht.inv
  refine Prog.holds_bind_of ((reads_noTransaction x).keeps stable stop ht) fun _ t ⟨ht, _⟩ => ?_
  refine Prog.holds_bind_of ((reads_status x .canonical).keeps stable stop ht) fun before t ⟨ht, _⟩ => ?_
  refine Prog.holds_bind_of ((reads_collect x .canonical).keeps stable stop ht) fun _ t ⟨ht, _⟩ => ?_
  refine Prog.holds_bind_of ((reads_lift _).keeps stable stop ht) fun _ t ⟨ht, _⟩ => ?_
  refine Prog.holds_bind_of ((reads_demand _ _).keeps stable stop ht) fun _ t ⟨ht, _⟩ => ?_
  refine Prog.holds_bind_of ((reads_lift _).keeps stable stop ht) fun dname t ⟨ht, _⟩ => ?_
  refine Prog.holds_bind_of ((reads_lift _).keeps stable stop ht) fun ext t ⟨ht, _⟩ => ?_
  refine Prog.holds_bind_of ((steadies_certreq x .canonical dname ext).keeps steady stop ht)
    fun _ t ht => ?_
  refine Prog.holds_bind_of ((reads_same x .canonical before).keeps stable stop ht) fun _ t ⟨ht, _⟩ => ?_
  refine Prog.holds_bind_of ((reads_lift _).keeps stable stop ht) fun _ t ⟨ht, _⟩ => ?_
  exact Prog.holds_bind_of ((reads_demand _ _).keeps stable stop ht) fun _ t ⟨ht, _⟩ => ⟨ht, trivial⟩

/-! ## Messages -/

/-- The state in which a message is served. -/
structure Idle (g : Setting) (u : Nat) (w : World) : Prop where
  inv : Inv g w
  journal : w.process.journal = none
  number : w.uuids = u

theorem Idle.steady {u : Nat} (h : Idle g u w) (s : Steady w t) : Idle g u t where
  inv := h.inv.steady s
  journal := s.journal.trans h.journal
  number := s.uuids.trans h.number

/-- What the executor makes of the request in a message: the request it
rebuilds from its own policy, with a time it stamped itself. -/
def Rebuilt (x : Session) (value : Json) (request : CertificateImportRequest) : Prop :=
  ∃ fields freshness, exactDict value ["before", "csr_pem", "issued_certificate"] = .ok fields ∧
    rebuildRequest x fields freshness = .ok request

theorem decodeImportRequest_keeps {u : Nat} (value : Json) (h : Idle g u w) :
    Prog.Holds (decodeImportRequest x value) (fun request t => Idle g u t ∧ Rebuilt x value request)
      (fun _ => Inv g) (Inv g) w := by
  have stable (s t : World) (q : Quiet s t) (h : Idle g u s) : Idle g u t := h.steady q.toSteady
  have stop (t : World) (h : Idle g u t) : Inv g t := h.inv
  refine Prog.holds_bind_of ((reads_lift _).keeps stable stop h) fun fields t ⟨ht, exact_⟩ => ?_
  have stamp : Steadies (stampFreshness x) := by
    refine steadies_primitive x (steadies_bind (fun w => ⟨Steady.refl w, trivial⟩) fun _ => ?_)
    exact steadies_bind (fun w => ⟨steady_log rfl, trivial⟩) fun _ => fun w => ⟨Steady.refl w, trivial⟩
  refine Prog.holds_bind_of (stamp.keeps (fun s t q h => Idle.steady h q) stop ht)
    fun freshness t ht => ?_
  refine Prog.holds_bind_of ((reads_lift _).keeps stable stop ht) fun request t ⟨ht, rebuilt⟩ => ?_
  refine Prog.holds_bind_of ((reads_clock x).keeps stable stop ht) fun _ t ⟨ht, _⟩ => ?_
  refine Prog.holds_bind_of ((reads_lift _).keeps stable stop ht) fun _ t ⟨ht, _⟩ => ?_
  refine Prog.holds_bind_of ((reads_lift _).keeps stable stop ht) fun _ t ⟨ht, _⟩ => ?_
  refine Prog.holds_bind_of ((reads_demand _ _).keeps stable stop ht) fun _ t ⟨ht, _⟩ => ?_
  exact ⟨ht, fields, freshness, exact_, rebuilt⟩

/-- The canonical store holds the chain of the request in the arguments, the
reply shows it, and the journal of the transaction numbered `u` is pending. -/
def Served (g : Setting) (x : Session) (u : Nat) (arguments : Json) (reply : Reply) (d : Disk) : Prop :=
  ∃ digest value request plan now output,
    exactDict arguments ["policy_digest", "request"] = .ok [digest, value] ∧ Rebuilt x value request ∧
    prepareCertificateImport g.host.lib request now = .ok plan ∧
    reply = .state ⟨output, plan.certificateChainDer⟩ ∧
    Answered (fun c => ∃ state, g.host.read c = some state ∧
      state.certificateChainDer = plan.certificateChainDer) u d

theorem serveInstall_keeps (host : x.host = g.host) {u : Nat} (arguments : Json) (h : Idle g u w) :
    Prog.Holds (serveInstall x arguments) (fun reply t => Inv g t ∧ Served g x u arguments reply t.disk)
      (fun _ => Inv g) (Inv g) w := by
  have stable (s t : World) (q : Quiet s t) (h : Idle g u s) : Idle g u t := h.steady q.toSteady
  have stop (t : World) (h : Idle g u t) : Inv g t := h.inv
  refine Prog.holds_bind_of ((reads_lift _).keeps stable stop h) fun fields t ⟨ht, split⟩ => ?_
  match fields with
  | [digest, value] =>
    refine Prog.holds_bind_of ((reads_lift _).keeps stable stop ht) fun _ t ⟨ht, _⟩ => ?_
    refine Prog.holds_bind_of (decodeImportRequest_keeps value ht) fun request t ⟨ht, rebuilt⟩ => ?_
    refine Prog.holds_bind_of (installCertificate_keeps host request ht.inv ht.journal)
      fun inspection t' done => ?_
    rw [ht.number] at done
    have stable (s t : World) (q : Quiet s t)
        (h : Inv g s ∧ Answered (Answers g request inspection) u s.disk) :
        Inv g t ∧ Answered (Answers g request inspection) u t.disk :=
      ⟨h.1.steady q.toSteady, by rw [q.disk]; exact h.2⟩
    have stop (t : World) (h : Inv g t ∧ Answered (Answers g request inspection) u t.disk) :
        Inv g t := h.1
    refine Prog.holds_bind_of ((reads_clock x).keeps stable stop done) fun now t ⟨ht, _⟩ => ?_
    refine Prog.holds_bind_of ((reads_lift _).keeps stable stop ht) fun plan t ⟨ht, prepared⟩ => ?_
    refine Prog.holds_bind_of ((reads_lift _).keeps stable stop ht) fun after t ⟨ht, inspected⟩ => ?_
    refine ((reads_lift _).keeps stable stop ht).mono (fun reply t ⟨ht, encoded⟩ => ?_)
      (fun _ _ h => h) fun _ h => h
    rw [host] at prepared
    simp only [inspectionState, bind_eq_ok, Except.ok.injEq] at inspected
    obtain ⟨_, _, rfl⟩ := inspected
    simp only [encodeState, bind_eq_ok, Except.ok.injEq] at encoded
    obtain ⟨_, _, rfl⟩ := encoded
    obtain ⟨k, seen, state, later, read, proved⟩ := ht.2.canonical
    obtain ⟨plan', prepared', _, _, chain⟩ := verify_spec proved
    refine ⟨ht.1, digest, value, request, plan, now, _, split, rebuilt, prepared, rfl, ⟨k, seen, state, read, ?_⟩,
      ht.2.journal⟩
    rw [chain, (prepare_stable prepared prepared').2]
  | [] => exact ht.inv
  | [_] => exact ht.inv
  | _ :: _ :: _ :: _ => exact ht.inv

/-- What a successful answer to an installation promises. -/
def Response.Kept (g : Setting) (x : Session) (u : Nat) (message : Option Json) (r : Response)
    (d : Disk) : Prop :=
  ∀ value arguments reply, message = some value → decodeEnvelope value = .ok (.install, arguments) →
    r = .ok reply → Served g x u arguments reply d

theorem dispatch_keeps (host : x.host = g.host) {u : Nat} (message : Json) (h : Idle g u w) :
    Prog.Holds (dispatch x message)
      (fun reply t => Inv g t ∧ ∀ arguments, decodeEnvelope message = .ok (.install, arguments) →
        Served g x u arguments reply t.disk) (fun _ => Inv g) (Inv g) w := by
  have stable (s t : World) (q : Quiet s t) (h : Idle g u s) : Idle g u t := h.steady q.toSteady
  have stop (t : World) (h : Idle g u t) : Inv g t := h.inv
  have quiet (s t : World) (q : Quiet s t) (h : Inv g s) : Inv g t := h.steady q.toSteady
  refine Prog.holds_bind_of ((reads_lift _).keeps stable stop h)
    fun ⟨operation, arguments⟩ t ⟨ht, decoded⟩ => ?_
  rw [decoded]
  cases operation with
  | install =>
    refine (serveInstall_keeps host arguments ht).mono (fun reply t h => ⟨h.1, ?_⟩)
      (fun _ _ h => h) fun _ h => h
    rintro _ ⟨⟩
    exact h.2
  | inspect =>
    refine Prog.holds_bind_of ((reads_lift _).keeps stable stop ht) fun _ t ⟨ht, _⟩ => ?_
    refine Prog.holds_bind_of (inspectPublicState_keeps ht.inv ht.journal) fun state t ht => ?_
    exact ((reads_lift _).keeps quiet (fun _ h => h) ht).mono (fun _ _ h => ⟨h.1, fun _ no => nomatch no⟩)
      (fun _ _ h => h) fun _ h => h
  | generateCsr =>
    refine Prog.holds_bind_of ((reads_lift _).keeps stable stop ht) fun fields t ⟨ht, _⟩ => ?_
    match fields with
    | [digest, spki] =>
      refine Prog.holds_bind_of ((reads_lift _).keeps stable stop ht) fun _ t ⟨ht, _⟩ => ?_
      refine Prog.holds_bind_of ((reads_lift _).keeps stable stop ht) fun policy t ⟨ht, _⟩ => ?_
      exact Prog.holds_bind_of (generateCsr_keeps policy ht.inv ht.journal)
        fun csr t ht => ⟨ht, fun _ no => nomatch no⟩
    | [] => exact ht.inv
    | [_] => exact ht.inv
    | _ :: _ :: _ :: _ => exact ht.inv
  | recover =>
    refine Prog.holds_bind_of ((reads_lift _).keeps stable stop ht) fun _ t ⟨ht, _⟩ => ?_
    exact Prog.holds_bind_of (recover_keeps false ht.inv ht.journal)
      fun _ t ht => ⟨ht.1, fun _ no => nomatch no⟩
  | verifyPending =>
    refine Prog.holds_bind_of ((reads_lift _).keeps stable stop ht) fun _ t ⟨ht, _⟩ => ?_
    refine Prog.holds_bind_of (verifyPending_keeps host ht.inv ht.journal) fun _ t ht => ?_
    exact Prog.holds_bind_of ((reads_demand _ _).keeps quiet (fun _ h => h) ht.1)
      fun _ t ht => ⟨ht.1, fun _ no => nomatch no⟩

theorem handle_keeps (host : x.host = g.host) (message : Option Json) (inv : Inv g w)
    (journal : w.process.journal = none) :
    Prog.Holds (handle x message)
      (fun response t => Inv g t ∧ response.Kept g x w.uuids message t.disk) (fun _ => Inv g) (Inv g)
      w := by
  unfold handle
  rw [Prog.holds_handle]
  cases message with
  | none => exact ⟨inv, fun _ _ _ no => nomatch no⟩
  | some value =>
    have served : Prog.Holds (do
        let reply ← dispatch x value
        pure (Response.ok reply))
        (fun response t => Inv g t ∧ response.Kept g x w.uuids (some value) t.disk)
        (fun _ => Inv g) (Inv g) w := by
      refine Prog.holds_bind_of (dispatch_keeps host value ⟨inv, journal, rfl⟩) fun reply t ht => ?_
      refine ⟨ht.1, ?_⟩
      rintro _ arguments _ ⟨⟩ decoded ⟨⟩
      exact ht.2 arguments decoded
    exact served.mono (fun _ _ h => h) (fun _ t h => ⟨h, fun _ _ _ _ _ no => nomatch no⟩) fun _ h => h

/-! ## Runs -/

theorem Inv.fresh (h : Inv g w) : Inv g w.fresh := by
  refine { h with memory := fun j hj => ?_ }
  cases hj

theorem execute_keeps (host : x.host = g.host) (o : Operation) (inv : Inv g w)
    (journal : w.process.journal = none) :
    Prog.Holds (execute x o) (fun _ => Inv g) (fun _ => Inv g) (Inv g) w := by
  cases o with
  | inspect => exact Prog.holds_bind_of (inspectPublicState_keeps inv journal) fun _ _ h => h
  | generateCsr policy => exact Prog.holds_bind_of (generateCsr_keeps policy inv journal) fun _ _ h => h
  | install request =>
    exact Prog.holds_bind_of (installCertificate_keeps host request inv journal) fun _ _ h => h.1
  | verifyPending => exact Prog.holds_bind_of (verifyPending_keeps host inv journal) fun _ _ h => h.1
  | recover startup => exact Prog.holds_bind_of (recover_keeps startup inv journal) fun _ _ h => h.1
  | message value => exact Prog.holds_bind_of (handle_keeps host value inv journal) fun _ _ h => h.1

theorem Move.keeps {m : Move} (on : m.On g.host) (powered : g.powered = true → m.Powered)
    (inv : Inv g w) : Inv g (m.apply w) := by
  cases m with
  | operate x o => exact (execute_keeps on o inv.fresh rfl).final
  | powerLoss kept torn service => exact inv.powerLoss (Bool.eq_false_iff.mpr powered) kept torn service
  | environment service held => exact { inv.fresh with }

/-- These moves of this program lead here from a clean start. -/
def Leads (g : Setting) (moves : List Move) (w : World) : Prop :=
  ∃ start, Clean g start ∧ (∀ m ∈ moves, Move.On g.host m ∧ (g.powered = true → m.Powered)) ∧
    w = run moves start

/-- A state of a run of this program from a clean start. -/
def Reachable (g : Setting) (w : World) : Prop := ∃ moves, Leads g moves w

theorem Leads.inv {moves : List Move} (h : Leads g moves w) : Inv g w := by
  obtain ⟨start, clean, on, rfl⟩ := h
  exact run_keeps clean.inv fun m hm _ => Move.keeps (on m hm).1 (on m hm).2

theorem Reachable.inv (h : Reachable g w) : Inv g w := by
  obtain ⟨_, leads⟩ := h
  exact leads.inv

end

/-! ## Runs of the sample host -/

def Sample.setting (powered : Bool) : Setting := ⟨host, 0, 0, .store [1], powered⟩

theorem Sample.clean (powered : Bool) : Clean (setting powered) start where
  dev := rfl
  synced := rfl
  canonical := rfl
  others n canonical _ := by simp [start, dir, Dir.visible, replay, canonical]
  lock i seen := by simp [start, dir, Dir.visible, replay] at seen
  healthy := ⟨rfl, rfl, rfl, rfl, fun _ => show 1 ≤ maxStore by decide, fun _ => ⟨rfl, rfl⟩⟩
  content := rfl
  stored := rfl
  memory := rfl
  trace := rfl

theorem Sample.leads {powered : Bool} {moves : List Move}
    (on : ∀ m ∈ moves, Move.On host m ∧ (powered = true → m.Powered)) :
    Leads (setting powered) moves (run moves start) :=
  ⟨start, clean powered, on, rfl⟩

/-- A whole installation. -/
def Sample.installed : World := run [.operate (session []) (.install request)] start

theorem Sample.reachable_installed (powered : Bool) : Reachable (setting powered) installed :=
  ⟨_, leads (by simp [Move.On, Move.Powered, session])⟩

end CertRenewer
