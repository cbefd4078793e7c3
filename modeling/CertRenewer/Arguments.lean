import CertRenewer.Names

/-!
# Names joined into texts

The keytool command carries all names in one argument, and the signing request
carries them in two fields. Because no name has the separator of the text it is
joined into, the names can be read back from the text, each as its own kind.
-/

namespace CertRenewer

open Text Opnsense

/-! ## Separators -/

theorem DnsName.noSeparator {lib : Library} {name : String} (h : DnsName lib name) {c : Char}
    (other : c.isAlphanum = false) (dash : c ≠ '-') (dot : c ≠ '.') : c ∉ name.toList := by
  intro member
  rcases h.characters member with alphanumeric | rfl | rfl
  · rw [other] at alphanumeric
    cases alphanumeric
  · exact dash rfl
  · exact dot rfl

/-- What a text joined with newlines is read as: the empty text has no names. -/
def newlineParts (text : List Char) : List (List Char) :=
  if text = [] then [] else text.splitOn '\n'

theorem newlineParts_intercalate {names : List String} (filled : ∀ name ∈ names, name.toList ≠ [])
    (plain : ∀ name ∈ names, '\n' ∉ name.toList) :
    newlineParts (String.intercalate "\n" names).toList = names.map String.toList := by
  rw [String.toList_intercalate, newlineParts]
  cases names with
  | nil => rfl
  | cons name names =>
    have some : "\n".toList.intercalate ((name :: names).map String.toList) ≠ [] := by
      intro empty
      have first : name.toList ≠ [] := filled name List.mem_cons_self
      cases names with
      | nil => exact first (by simpa using empty)
      | cons other names => exact first (by simpa using (List.append_eq_nil_iff.mp empty).1)
    rw [if_neg some]
    exact List.splitOn_intercalate '\n' (by simpa using plain) (by simp)

/-! ## The extension -/

/-- `str.removeprefix`. -/
def without (mark text : List Char) : List Char :=
  if mark.isPrefixOf text then text.drop mark.length else text

theorem without_append (mark text : List Char) : without mark (mark ++ text) = text := by
  simp [without]

/-- A part of the extension without its kind. -/
def partName (part : List Char) : List Char :=
  if "DNS:".toList.isPrefixOf part then part.drop 4 else without "IP:".toList part

theorem partName_dns (name : List Char) : partName ("DNS:".toList ++ name) = name := by
  simp [partName]

theorem partName_ip (address : List Char) : partName ("IP:".toList ++ address) = address := by
  simp [partName, without]

/-- The parts of an extension. -/
def extensionParts (ext : String) : List (List Char) :=
  (without "SAN=".toList ext.toList).splitOn ','

/-- The names of an extension. -/
def extensionNames (ext : String) : List (List Char) :=
  (extensionParts ext).map partName

section
variable {lib : Library}

/-- These addresses are what the texts denote. -/
abbrev Denotes (lib : Library) : List String → List IpAddress → Prop :=
  List.Forall₂ fun text a => '%' ∉ text.toList ∧ lib.ipAddress text = some a

theorem ipText_noSeparator (plain : lib.PlainTexts) {texts : List String} {addresses : List IpAddress}
    (reads : Denotes lib texts addresses) {a : IpAddress} (member : a ∈ addresses) {c : Char}
    (other : addressCharacter c = false) : c ∉ (lib.ipText a).toList := by
  intro there
  obtain ⟨text, _, scopeless, parsed⟩ := exists_of_forall₂ reads member
  have good := List.all_eq_true.mp (plain.characters text a scopeless parsed) c there
  rw [other] at good
  cases good

/-- An address is denoted by its canonical text too. -/
theorem Denotes.canonical (plain : lib.PlainTexts) {texts : List String} {addresses : List IpAddress}
    (reads : Denotes lib texts addresses) :
    texts.map lib.ipAddress = (addresses.map lib.ipText).map lib.ipAddress := by
  induction reads with
  | nil => rfl
  | cons parsed _ ih =>
    rw [List.map_cons, List.map_cons, List.map_cons, ih, parsed.2, plain.parses _ _ parsed.1 parsed.2]

/-- The parts for these names. -/
def kindParts (dnsSans ipSans : List String) : List (List Char) :=
  (dnsSans.map String.toList).map ("DNS:".toList ++ ·) ++ (ipSans.map String.toList).map ("IP:".toList ++ ·)

/-- The extension of an accepted policy splits into one part for each name. -/
theorem extensionParts_eq (plain : lib.PlainTexts) {policy : CertificatePolicy}
    {addresses : List IpAddress} (accepted : Accepted lib policy addresses) :
    extensionParts (sanExtension policy.dnsSans (addresses.map lib.ipText)) =
      kindParts policy.dnsSans (addresses.map lib.ipText) := by
  have parts : (policy.dnsSans.map (fun name => "DNS:" ++ name) ++
      (addresses.map lib.ipText).map fun address => "IP:" ++ address).map String.toList =
      kindParts policy.dnsSans (addresses.map lib.ipText) := by
    simp only [kindParts, List.map_append, List.map_map, Function.comp_def, String.toList_append]
  rw [extensionParts, sanExtension, String.toList_append, without_append, String.toList_intercalate, parts]
  refine List.splitOn_intercalate ',' (fun part member => ?_) fun empty => ?_
  · simp only [kindParts, List.map_map, List.mem_append, List.mem_map] at member
    rcases member with ⟨name, there, rfl⟩ | ⟨a, there, rfl⟩
    · have clean := (accepted.dns name there).noSeparator (c := ',') (by decide) (by decide) (by decide)
      simp [clean]
    · have clean := ipText_noSeparator plain accepted.reads there (c := ',') (by decide)
      simp [clean]
  · obtain ⟨noNames, noAddresses⟩ := List.append_eq_nil_iff.mp empty
    exact accepted.some ⟨by simpa using noNames, by simpa using noAddresses⟩

theorem extensionNames_eq (plain : lib.PlainTexts) {policy : CertificatePolicy}
    {addresses : List IpAddress} (accepted : Accepted lib policy addresses) :
    extensionNames (sanExtension policy.dnsSans (addresses.map lib.ipText)) =
      (policy.dnsSans ++ addresses.map lib.ipText).map String.toList := by
  rw [extensionNames, extensionParts_eq plain accepted, kindParts]
  simp only [List.map_append, List.map_map, Function.comp_def, partName_dns, partName_ip]

/-- The parts determine the names of each kind. -/
theorem kindParts_injective {dns dns' ips ips' : List String} (same : kindParts dns ips = kindParts dns' ips') :
    dns = dns' ∧ ips = ips' := by
  have names (xs ys : List String) :
      (kindParts xs ys).filter ("DNS:".toList.isPrefixOf ·) = (xs.map String.toList).map ("DNS:".toList ++ ·) := by
    simp [kindParts, List.filter_map, Function.comp_def]
  have addresses (xs ys : List String) :
      (kindParts xs ys).filter ("IP:".toList.isPrefixOf ·) = (ys.map String.toList).map ("IP:".toList ++ ·) := by
    simp [kindParts, List.filter_map, Function.comp_def]
  have sameDns := names dns ips ▸ names dns' ips' ▸ congrArg (List.filter ("DNS:".toList.isPrefixOf ·)) same
  have sameIps := addresses dns ips ▸ addresses dns' ips' ▸ congrArg (List.filter ("IP:".toList.isPrefixOf ·)) same
  have cancel (mark : List Char) : Function.Injective (List.map (mark ++ · : List Char → List Char)) :=
    List.map_injective_iff.mpr (List.append_right_injective mark)
  have texts : Function.Injective (List.map String.toList) := 
    List.map_injective_iff.mpr fun _ _ => String.toList_injective
  exact ⟨texts (cancel _ sameDns), texts (cancel _ sameIps)⟩

/-! ## The signing request -/

theorem checkDnsNames_spec {seen : List (List Char)} {names out : List String}
    (h : checkDnsNames lib seen names = .ok out) : out = names ∧ ∀ name ∈ names, DnsName lib name := by
  induction names generalizing seen out with
  | nil =>
    cases h
    simp
  | cons name names ih =>
    simp only [checkDnsNames, validateSafeText, bind_eq_ok, require_eq_ok, Except.ok.injEq] at h
    obtain ⟨_, ⟨_, filled, _, bounded, _⟩, _, ascii, _, labels, _, _, rest, run, rfl⟩ := h
    obtain ⟨rfl, all⟩ := ih run
    exact ⟨rfl, List.forall_mem_cons.mpr ⟨⟨filled, bounded, ascii, labels⟩, all⟩⟩

theorem checkIpAddresses_spec {seen texts out : List String} (h : checkIpAddresses lib seen texts = .ok out) :
    ∃ addresses, List.Forall₂ (fun text a => '%' ∉ text.toList ∧ lib.ipAddress text = some a) texts addresses ∧
      out = addresses.map lib.ipText := by
  induction texts generalizing seen out with
  | nil =>
    cases h
    exact ⟨[], .nil, rfl⟩
  | cons text texts ih =>
    simp only [checkIpAddresses, bind_eq_ok, require_eq_ok, orFail_eq_ok, Except.ok.injEq] at h
    obtain ⟨_, _, _, scopeless, a, parsed, _, _, rest, run, rfl⟩ := h
    obtain ⟨addresses, reads, rfl⟩ := ih run
    exact ⟨a :: addresses, .cons ⟨scopeless, parsed⟩ reads, rfl⟩

/-- The posted fields are read as the names of the request. -/
theorem signingPayload_names (plain : lib.PlainTexts) {csrPem : Bytes} {csrInfo : CsrInfo}
    {expectedSpki : Fingerprint} {caref description : String} {digest : Hash} {lifetimeDays : Int}
    {payload : SigningPayload}
    (h : signingPayload lib csrPem csrInfo expectedSpki caref digest lifetimeDays description = .ok payload) :
    ∃ addresses, List.Forall₂ (fun text a => lib.ipAddress text = some a) csrInfo.ipSans addresses ∧
      newlineParts payload.altnamesDns.toList = csrInfo.dnsSans.map String.toList ∧
      newlineParts payload.altnamesIp.toList = (addresses.map lib.ipText).map String.toList := by
  simp only [signingPayload, validateCsrIdentity, validateCsrNames, bind_eq_ok, require_eq_ok, Prod.exists,
    Except.ok.injEq, Prod.mk.injEq] at h
  obtain ⟨_, _, _, rfl, _, _, _, _, _, _, _, _, _, _, _, _, dns, ip, ⟨_, _, _, _, _, _, _, _, names, read, texts,
    parsed, rfl, rfl⟩, _, _, rfl⟩ := h
  obtain ⟨rfl, all⟩ := checkDnsNames_spec read
  obtain ⟨addresses, reads, rfl⟩ := checkIpAddresses_spec parsed
  refine ⟨addresses, reads.imp fun _ _ => And.right, ?_, ?_⟩
  · refine newlineParts_intercalate (fun name member => (all name member).filled) fun name member => ?_
    exact (all name member).noSeparator (by decide) (by decide) (by decide)
  · refine newlineParts_intercalate (fun text member => ?_) fun text member => ?_
    · obtain ⟨a, there, rfl⟩ := List.mem_map.mp member
      obtain ⟨original, _, scopeless, first⟩ := exists_of_forall₂ reads there
      exact (plain.bounded original a scopeless first).1
    · obtain ⟨a, there, rfl⟩ := List.mem_map.mp member
      exact ipText_noSeparator plain reads there (by decide)

/-! ## What an accepted policy's texts carry -/

theorem subject_ne_option (plain : lib.PlainTexts) {policy : CertificatePolicy} {addresses : List IpAddress}
    (accepted : Accepted lib policy addresses) {option : String} (h : '=' ∉ option.toList) :
    policy.subject ≠ option := by
  obtain ⟨name, parsed⟩ := accepted.subject
  rintro rfl
  exact h (plain.subject _ _ parsed)

/-- The option's value is found at its option, whatever the subject is. -/
theorem command_arguments (plain : lib.PlainTexts) {policy : CertificatePolicy} {command : List String}
    (h : buildUnifiCsrCommand lib policy = .ok command) :
    ∃ addresses, Accepted lib policy addresses ∧ argumentAfter "-dname" command = some policy.subject ∧
      argumentAfter "-ext" command = some (sanExtension policy.dnsSans (addresses.map lib.ipText)) := by
  obtain ⟨addresses, accepted, rfl⟩ := buildUnifiCsrCommand_ok h
  refine ⟨addresses, accepted, rfl, ?_⟩
  have other : (policy.subject == "-ext") = false :=
    beq_eq_false_iff_ne.mpr (subject_ne_option plain accepted (by decide))
  simp [argumentAfter, List.idxOf_cons, other, unifiAlias, unifiKeystorePath, unifiPasswordEnvName]

/-- No text of a policy or a request can be taken for another. -/
theorem csr_texts_are_exact (plain : lib.PlainTexts) :
    (∀ policy command, buildUnifiCsrCommand lib policy = .ok command →
      ∃ addresses ext, List.Forall₂ (fun text a => lib.ipAddress text = some a) policy.ipSans addresses ∧
        argumentAfter "-dname" command = some policy.subject ∧ argumentAfter "-ext" command = some ext ∧
        ext = sanExtension policy.dnsSans (addresses.map lib.ipText) ∧
        extensionNames ext = (policy.dnsSans ++ addresses.map lib.ipText).map String.toList) ∧
      (∀ csrPem csrInfo expectedSpki caref digest lifetimeDays description payload,
        signingPayload lib csrPem csrInfo expectedSpki caref digest lifetimeDays description = .ok payload →
        ∃ addresses, List.Forall₂ (fun text a => lib.ipAddress text = some a) csrInfo.ipSans addresses ∧
          newlineParts payload.altnamesDns.toList = csrInfo.dnsSans.map String.toList ∧
          newlineParts payload.altnamesIp.toList = (addresses.map lib.ipText).map String.toList) ∧
      ∀ p q first second ext, buildUnifiCsrCommand lib p = .ok first → buildUnifiCsrCommand lib q = .ok second →
        argumentAfter "-ext" first = some ext → argumentAfter "-ext" second = some ext →
        p.dnsSans = q.dnsSans ∧ p.ipSans.map lib.ipAddress = q.ipSans.map lib.ipAddress := by
  refine ⟨fun policy command built => ?_, fun _ _ _ _ _ _ _ _ posted => signingPayload_names plain posted, ?_⟩
  · obtain ⟨addresses, accepted, dname, ext⟩ := command_arguments plain built
    exact ⟨addresses, _, accepted.reads.imp fun _ _ => And.right, dname, ext, rfl, extensionNames_eq plain accepted⟩
  · intro p q first second ext builtP builtQ extP extQ
    obtain ⟨a, acceptedP, _, foundP⟩ := command_arguments plain builtP
    obtain ⟨b, acceptedQ, _, foundQ⟩ := command_arguments plain builtQ
    have same := Option.some.inj (foundP.symm.trans (extP.trans (extQ.symm.trans foundQ)))
    have parts := congrArg extensionParts same
    rw [extensionParts_eq plain acceptedP, extensionParts_eq plain acceptedQ] at parts
    obtain ⟨names, texts⟩ := kindParts_injective parts
    refine ⟨names, ?_⟩
    rw [Denotes.canonical plain acceptedP.reads, Denotes.canonical plain acceptedQ.reads, texts]

end

theorem addressed_texts_are_exact :
    ∃ command addresses ext, buildUnifiCsrCommand Sample.addressed Sample.addressedRequest.policy = .ok command ∧
      List.Forall₂ (fun text a => Sample.addressed.ipAddress text = some a)
        Sample.addressedRequest.policy.ipSans addresses ∧
      argumentAfter "-ext" command = some ext ∧
      extensionNames ext = (Sample.addressedRequest.policy.dnsSans ++
        addresses.map Sample.addressed.ipText).map String.toList := by
  have built : ∃ command,
      buildUnifiCsrCommand Sample.addressed Sample.addressedRequest.policy = .ok command := ⟨_, rfl⟩
  obtain ⟨command, run⟩ := built
  obtain ⟨addresses, ext, reads, _, found, _, names⟩ := (csr_texts_are_exact Sample.addressed_plain).1 _ command run
  exact ⟨command, addresses, ext, run, reads, found, names⟩

end CertRenewer
