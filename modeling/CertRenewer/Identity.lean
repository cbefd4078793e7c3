import CertRenewer.Client

/-!
# The identity of an issued leaf

What `prepare_certificate_import` establishes of the certificates it accepts:
the chain is the leaf over the one configured CA, and the leaf has the subject
and the names of the policy.
-/

namespace CertRenewer

/-- What the checks rely on: a certificate's own PEM loads as that certificate,
and the text of an address parses as that address. -/
structure Library.Faithful (lib : Library) : Prop where
  pem : ∀ data c, lib.loadDer data = some c ∨ (∃ cs, lib.loadPem data = some cs ∧ c ∈ cs) →
    lib.loadPem c.pem = some [c]
  ip : ∀ text a, lib.ipAddress text = some a → lib.ipAddress (lib.ipText a) = some a

/-- The leaf has this subject and exactly these names. -/
structure Identified (lib : Library) (subject : String) (dnsSans ipSans : List String)
    (leaf : Certificate) : Prop where
  subject : lib.rfc4514 subject = some leaf.subject
  names : ∃ names, leaf.subjectAlternativeName = some names ∧ names.filterMap GeneralName.other? = []
  dns : ∀ name, name ∈ (dnsNames leaf.subjectAlternativeName).map lower ↔ name ∈ dnsSans.map lower
  ip : ∀ a, a ∈ ipNames leaf.subjectAlternativeName ↔ ∃ text ∈ ipSans, lib.ipAddress text = some a

section
variable {lib : Library}

theorem sameSet_iff {α : Type} [DecidableEq α] {a b : List α} :
    sameSet a b = true ↔ ∀ x, x ∈ a ↔ x ∈ b := by
  simp only [sameSet, Bool.and_eq_true, List.all_eq_true, decide_eq_true_eq]
  exact ⟨fun h x => ⟨h.1 x, h.2 x⟩, fun h => ⟨fun x => (h x).mp, fun x => (h x).mpr⟩⟩

theorem mem_mapM_ok {α β : Type} {f : α → Result β} {xs : List α} {ys : List β}
    (h : xs.mapM f = .ok ys) {y : β} : y ∈ ys ↔ ∃ x ∈ xs, f x = .ok y := by
  induction xs generalizing ys with
  | nil =>
    cases h
    simp
  | cons x xs ih =>
    simp only [List.mapM_cons, bind_eq_ok] at h
    obtain ⟨first, hx, rest, hr, hp⟩ := h
    cases hp
    simp only [List.mem_cons, ih hr, exists_eq_or_imp, hx, Except.ok.injEq]
    exact or_congr_left eq_comm

theorem loadTrust_spec {data : Bytes} {cs : List Certificate}
    (h : loadTrustCertificates lib data = .ok cs) {c : Certificate} (member : c ∈ cs) :
    lib.loadDer data = some c ∨ ∃ cs, lib.loadPem data = some cs ∧ c ∈ cs := by
  simp only [loadTrustCertificates, bind_eq_ok, require_eq_ok] at h
  obtain ⟨_, _, _, _, h⟩ := h
  split at h
  · simp only [bind_eq_ok, require_eq_ok, orFail_eq_ok, Except.ok.injEq] at h
    obtain ⟨_, _, found, pem, _, _, _, _, rfl⟩ := h
    exact Or.inr ⟨found, pem, member⟩
  · simp only [bind_eq_ok, require_eq_ok, orFail_eq_ok, Except.ok.injEq] at h
    obtain ⟨only, der, _, rfl, _, _, _, _, rfl⟩ := h
    rw [List.mem_singleton.mp member]
    exact Or.inl der

theorem requestedCsr_spec {pem : Bytes} {policy : CertificatePolicy} {info : CsrInfo}
    (h : validateRequestedCsr lib pem policy = .ok info) :
    lib.rfc4514 policy.subject = some info.subject ∧
      (∀ name, name ∈ info.dnsSans.map lower ↔ name ∈ policy.dnsSans.map lower) ∧
      ∃ addresses : List IpAddress, (∀ a, a ∈ addresses ↔ ∃ text ∈ policy.ipSans, lib.ipAddress text = some a) ∧
        ∀ text, text ∈ info.ipSans ↔ text ∈ addresses.map lib.ipText := by
  simp only [validateRequestedCsr, bind_eq_ok, require_eq_ok, orFail_eq_ok, Except.ok.injEq] at h
  obtain ⟨_, _, found, _, _, _, _, subject, _, same, addresses, parsed, _, names, _, _, _, _, rfl⟩ := h
  obtain ⟨_, _, dns, _, ip⟩ := names
  refine ⟨by rw [same]; exact subject, sameSet_iff.mp dns, addresses, fun a => ?_, sameSet_iff.mp ip⟩
  simp only [mem_mapM_ok parsed, orFail_eq_ok]

theorem issued_names {data : Bytes} {csrInfo : CsrInfo} {p : IssuancePolicy} {now : Time}
    {info : CertificateInfo} (h : validateIssuedCertificate lib data csrInfo p now = .ok info) :
    ∃ leaf, loadOneCertificate lib data maxIssuedCertificateBytes "issued certificate" = .ok leaf ∧
      leaf.subject = csrInfo.subject ∧
      (∃ names, leaf.subjectAlternativeName = some names ∧ names.filterMap GeneralName.other? = []) ∧
      (∀ name, name ∈ (dnsNames leaf.subjectAlternativeName).map lower ↔
        name ∈ csrInfo.dnsSans.map lower) ∧
      ∀ a, a ∈ ipNames leaf.subjectAlternativeName ↔
        ∃ text ∈ csrInfo.ipSans, lib.ipAddress text = some a := by
  simp only [validateIssuedCertificate, bind_eq_ok, require_eq_ok, Except.ok.injEq] at h
  obtain ⟨_, _, _, _, leaf, loaded, found, read, _, _, _, _, _, _, _, subject, _, sans, h⟩ := h
  obtain ⟨_, _, _, _, _, _, _, _, _, _, rfl⟩ := h
  simp only [validateExactSans, bind_eq_ok, require_eq_ok, orFail_eq_ok] at sans
  obtain ⟨names, named, _, others, _, dns, addresses, parsed, ip⟩ := sans
  simp only [certificateInfo, bind_eq_ok, Except.ok.injEq] at read
  obtain ⟨_, _, _, _, rfl⟩ := read
  have here : (leaf.subjectAlternativeName.getD []) = names := by rw [named]; rfl
  refine ⟨leaf, loaded, subject, ⟨names, named, others⟩, ?_, fun a => ?_⟩
  · rw [dnsNames, here]
    exact sameSet_iff.mp dns.2
  · rw [ipNames, here, sameSet_iff.mp ip.2 a, mem_mapM_ok parsed]
    simp only [orFail_eq_ok]

/-- The chain is the leaf over the configured CA, and the leaf was checked
against that CA and has the policy's identity. -/
theorem prepare_identity (faithful : lib.Faithful) {request : CertificateImportRequest} {now : Clock}
    {plan : CertificateImportPlan} (h : prepareCertificateImport lib request now = .ok plan) :
    ∃ ca leaf csrInfo, loadTrustCertificates lib request.issuance.trustedCaData = .ok [ca] ∧
      loadOneCertificate lib request.issuedCertificate maxIssuedCertificateBytes
        "issued certificate" = .ok leaf ∧
      plan.certificateChainDer = [leaf.der, ca.der] ∧
      validateIssuedCertificate lib request.issuedCertificate csrInfo
        { request.issuance with trustedCaData := ca.pem } now.leaf = .ok plan.issued ∧
      Identified lib request.policy.subject request.policy.dnsSans request.policy.ipSans leaf := by
  obtain ⟨_, csrInfo, ca, leaf, _, requested, _, trusted, issued, loaded, read, rest, pem, chain⟩ :=
    prepare_spec lib h
  have one := validateInstallationCa_spec trusted
  have again := faithful.pem _ ca (loadTrust_spec one (List.mem_singleton.mpr rfl))
  obtain ⟨rfl, _⟩ : ca = read ∧ [] = rest := by simpa [again] using pem
  obtain ⟨subject, dns, addresses, policy, texts⟩ := requestedCsr_spec requested
  obtain ⟨found, loaded', same, names, dns', ip⟩ := issued_names issued
  cases loaded.symm.trans loaded'
  refine ⟨ca, leaf, csrInfo, one, loaded, chain, issued, by rw [same]; exact subject, names,
    fun name => (dns' name).trans (dns name), fun a => ?_⟩
  -- the request's texts are those of the policy's addresses, and parse as these
  have parses {b : IpAddress} (member : b ∈ addresses) : lib.ipAddress (lib.ipText b) = some b := by
    obtain ⟨text, _, parsed⟩ := (policy b).mp member
    exact faithful.ip text b parsed
  rw [ip a, ← policy a]
  constructor
  · rintro ⟨text, member, parsed⟩
    obtain ⟨b, here, rfl⟩ := List.mem_map.mp ((texts text).mp member)
    obtain rfl : b = a := Option.some.inj ((parses here).symm.trans parsed)
    exact here
  · intro here
    exact ⟨lib.ipText a, (texts _).mpr (List.mem_map_of_mem here), parses here⟩

end

end CertRenewer
