import CertRenewer.Executor
import CertRenewer.Identity
import CertRenewer.Opnsense
import CertRenewer.System
import CertRenewer.Text

/-!
# Names from the policy to the leaf

Every stage compares the names it is given with those of the stage before by
their number and as a set. Because the policy has no duplicates this makes them
the same names, counted.

DNS names are ASCII here, where `lower` and `casefold` agree.
-/

namespace CertRenewer

open Text Opnsense

/-- A text that an address can be written in. -/
def addressCharacter (c : Char) : Bool :=
  ('0' ≤ c && c ≤ '9') || ('a' ≤ c && c ≤ 'f') || c == '.' || c == ':'

/-- What is documented of the texts the checks rely on: the canonical text of
an address is short, parses as that address and has only these characters, none
of which is unsafe; and a distinguished name has an equals sign. -/
structure Library.PlainTexts (lib : Library) : Prop where
  parses : ∀ text a, '%' ∉ text.toList → lib.ipAddress text = some a → lib.ipAddress (lib.ipText a) = some a
  bounded : ∀ text a, '%' ∉ text.toList → lib.ipAddress text = some a →
    (lib.ipText a).toList ≠ [] ∧ (lib.ipText a).toList.length ≤ 64
  characters : ∀ text a, '%' ∉ text.toList → lib.ipAddress text = some a →
    (lib.ipText a).toList.all addressCharacter = true
  safe : ∀ c, c.isAlphanum = true ∨ c ∈ ['-', '.', ':'] → lib.unsafeCategory c = false
  subject : ∀ text name, lib.rfc4514 text = some name → '=' ∈ text.toList

theorem addressCharacter_safe {c : Char} (h : addressCharacter c = true) :
    c.isAlphanum = true ∨ c ∈ ['-', '.', ':'] := by
  simp only [addressCharacter, Bool.or_eq_true, Bool.and_eq_true, decide_eq_true_eq, beq_iff_eq] at h
  rcases h with ((digit | letter) | rfl) | rfl
  · have inside : c.isDigit = true := by
      simpa [Char.isDigit, Char.le_def] using digit
    exact Or.inl (by simp [Char.isAlphanum, inside])
  · have low : 'a'.val ≤ c.val := letter.1
    have high : c.val ≤ 'z'.val := UInt32.le_trans letter.2 (by decide)
    have inside : c.isLower = true := by
      simp only [Char.isLower, Bool.and_eq_true, decide_eq_true_eq]
      exact ⟨low, high⟩
    exact Or.inl (by simp [Char.isAlphanum, Char.isAlpha, inside])
  · exact Or.inr (by simp)
  · exact Or.inr (by simp)

section
variable {lib : Library}

/-! ## Counting -/

/-- As many elements and the same set: the same elements, counted. -/
theorem perm_of_sameSet {α : Type} [DecidableEq α] {a b : List α} (nodup : b.Nodup)
    (length : a.length = b.length) (same : sameSet a b = true) : a.Perm b := by
  have subset : b ⊆ a := fun x member => (sameSet_iff.mp same x).mpr member
  exact ((nodup.subperm subset).perm_of_length_le (Nat.le_of_eq length)).symm

/-! ## What a policy's names are -/

/-- A name that both name checks accept. -/
structure DnsName (lib : Library) (name : String) : Prop where
  filled : name.toList ≠ []
  bounded : name.toList.length ≤ 253
  ascii : (name.toList.all fun c => decide (c.toNat < 128)) = true
  labels : (name.toList.splitOn '.').all dnsLabel = true

theorem validateDnsSans_ok {seen : List (List Char)} {names out : List String}
    (h : validateDnsSans lib seen names = .ok out) :
    out = names ∧ (∀ name ∈ names, DnsName lib name) ∧ (names.map lower).Nodup ∧
      ∀ name ∈ names, lower name ∉ seen := by
  induction names generalizing seen out with
  | nil =>
    cases h
    simp
  | cons name names ih =>
    simp only [validateDnsSans, validateBoundedText, bind_eq_ok, require_eq_ok, Except.ok.injEq] at h
    obtain ⟨_, ⟨_, filled, _, bounded, _⟩, _, ascii, _, labels, _, fresh, rest, run, rfl⟩ := h
    obtain ⟨rfl, all, nodup, unseen⟩ := ih run
    refine ⟨rfl, List.forall_mem_cons.mpr ⟨⟨filled, bounded, ascii, labels⟩, all⟩, ?_,
      List.forall_mem_cons.mpr ⟨fresh, fun other member => ?_⟩⟩
    · refine List.nodup_cons.mpr ⟨fun member => ?_, nodup⟩
      obtain ⟨other, there, same⟩ := List.mem_map.mp member
      exact unseen other there (by simp [same])
    · exact fun earlier => unseen other member (by simp [earlier])

theorem validateIpSans_ok {seen texts out : List String} (h : validateIpSans lib seen texts = .ok out) :
    ∃ addresses, List.Forall₂ (fun text a => '%' ∉ text.toList ∧ lib.ipAddress text = some a) texts addresses ∧
      out = addresses.map lib.ipText ∧ out.Nodup ∧ ∀ text ∈ out, text ∉ seen := by
  induction texts generalizing seen out with
  | nil =>
    cases h
    exact ⟨[], .nil, rfl, List.nodup_nil, by simp⟩
  | cons text texts ih =>
    simp only [validateIpSans, bind_eq_ok, require_eq_ok, orFail_eq_ok, Except.ok.injEq] at h
    obtain ⟨_, _, _, plain, a, parsed, _, fresh, rest, run, rfl⟩ := h
    obtain ⟨addresses, reads, rfl, nodup, unseen⟩ := ih run
    refine ⟨a :: addresses, .cons ⟨plain, parsed⟩ reads, rfl, ?_, ?_⟩
    · exact List.nodup_cons.mpr ⟨fun member => unseen _ member (by simp), nodup⟩
    · exact List.forall_mem_cons.mpr ⟨fresh, fun other member earlier => unseen other member (by simp [earlier])⟩

/-- A policy that the command accepts, with the addresses its texts denote. -/
structure Accepted (lib : Library) (policy : CertificatePolicy) (addresses : List IpAddress) : Prop where
  spki : policy.expectedSpkiSha256.isSome = true
  subject : ∃ name, lib.rfc4514 policy.subject = some name
  dns : ∀ name ∈ policy.dnsSans, DnsName lib name
  distinct : (policy.dnsSans.map lower).Nodup
  reads : List.Forall₂ (fun text a => '%' ∉ text.toList ∧ lib.ipAddress text = some a) policy.ipSans addresses
  distinctIps : (addresses.map lib.ipText).Nodup
  count : policy.dnsSans.length + addresses.length ≤ maxSanEntries
  some : ¬(policy.dnsSans = [] ∧ addresses = [])

/-- The extension a command carries. -/
def sanExtension (dnsSans ipSans : List String) : String :=
  "SAN=" ++ String.intercalate "," (dnsSans.map (fun name => "DNS:" ++ name) ++
    ipSans.map fun address => "IP:" ++ address)

theorem buildUnifiCsrCommand_ok {policy : CertificatePolicy} {command : List String}
    (h : buildUnifiCsrCommand lib policy = .ok command) :
    ∃ addresses, Accepted lib policy addresses ∧
      command = ["/usr/bin/keytool", "-certreq", "-alias", unifiAlias, "-keystore", unifiKeystorePath,
        "-storepass:env", unifiPasswordEnvName, "-keypass:env", unifiPasswordEnvName,
        "-dname", policy.subject, "-ext", sanExtension policy.dnsSans (addresses.map lib.ipText), "-rfc",
        "-sigalg", "SHA384withRSA"] := by
  simp only [buildUnifiCsrCommand, buildKeytoolCertreqCommand, bind_eq_ok, orFail_eq_ok, require_eq_ok,
    Except.ok.injEq] at h
  obtain ⟨spki, known, argv, ⟨_, _, _, _, _, _, _, _, _, _, dns, names, _, _, ip, texts, _, count, _, some, rfl⟩,
    subject, parsed, rfl⟩ := h
  obtain ⟨rfl, valid, distinct, _⟩ := validateDnsSans_ok names
  obtain ⟨addresses, reads, rfl, distinctIps, _⟩ := validateIpSans_ok texts
  refine ⟨addresses, ⟨by rw [known]; rfl, ⟨subject, parsed⟩, valid, distinct, reads, distinctIps, ?_, ?_⟩, rfl⟩
  · simpa using count
  · simpa using some

theorem exists_of_forall₂ {α β : Type} {R : α → β → Prop} {xs : List α} {ys : List β}
    (h : List.Forall₂ R xs ys) {y : β} (member : y ∈ ys) : ∃ x ∈ xs, R x y := by
  induction h with
  | nil => cases member
  | cons related _ ih =>
    rcases List.mem_cons.mp member with rfl | later
    · exact ⟨_, List.mem_cons_self, related⟩
    · obtain ⟨x, there, related⟩ := ih later
      exact ⟨x, List.mem_cons_of_mem _ there, related⟩

theorem forall₂_mapM {texts : List String} {addresses : List IpAddress} {message : String}
    (h : List.Forall₂ (fun text a => lib.ipAddress text = some a) texts addresses) :
    (texts.mapM fun text => orFail (lib.ipAddress text) message) = .ok addresses := by
  exact mapM_eq_ok.mpr (h.imp fun _ _ parsed => orFail_eq_ok.mpr parsed)

/-- The names of an accepted request are those of the policy. -/
theorem requestedCsr_names {csrPem : Bytes} {policy : CertificatePolicy} {info : CsrInfo}
    (h : validateRequestedCsr lib csrPem policy = .ok info) :
    ∃ addresses, Accepted lib policy addresses ∧ inspectCsr lib csrPem = .ok info ∧
      policy.expectedSpkiSha256 = some info.spkiSha256 ∧ info.unsupportedSanTypes = [] ∧
      (info.dnsSans.map lower).Perm (policy.dnsSans.map lower) ∧
      info.ipSans.Perm (addresses.map lib.ipText) := by
  simp only [validateRequestedCsr, validateCsrSpki, bind_eq_ok, require_eq_ok, orFail_eq_ok,
    Except.ok.injEq] at h
  obtain ⟨command, built, found, inspected, _, ⟨value, known, spki⟩, _, _, _, _, expected, parsed, _,
    ⟨plain, dnsCount, dns, ipCount, ip⟩, _, _, _, _, rfl⟩ := h
  obtain ⟨addresses, accepted, _⟩ := buildUnifiCsrCommand_ok built
  have again := @forall₂_mapM lib _ _ "invalid IP address" (accepted.reads.imp fun _ _ => And.right)
  obtain rfl : expected = addresses := Except.ok.inj (parsed.symm.trans again)
  refine ⟨expected, accepted, inspected, by rw [known, spki], plain, ?_, ?_⟩
  · exact perm_of_sameSet accepted.distinct (by simpa using dnsCount) dns
  · refine perm_of_sameSet accepted.distinctIps ?_ ip
    rw [List.length_map, ← accepted.reads.length_eq, ipCount]

/-! ## What the leaf's names are -/

/-- Canonical texts parse as addresses with these texts. -/
theorem parsed_texts (plain : lib.PlainTexts) {policy : CertificatePolicy} {addresses : List IpAddress}
    (accepted : Accepted lib policy addresses) {texts : List String}
    (among : ∀ text ∈ texts, text ∈ addresses.map lib.ipText) :
    ∃ parsed, List.Forall₂ (fun text a => lib.ipAddress text = some a) texts parsed ∧
      parsed.map lib.ipText = texts := by
  induction texts with
  | nil => exact ⟨[], .nil, rfl⟩
  | cons text texts ih =>
    obtain ⟨here, later⟩ := List.forall_mem_cons.mp among
    obtain ⟨parsed, reads, eq⟩ := ih later
    obtain ⟨a, member, rfl⟩ := List.mem_map.mp here
    obtain ⟨original, _, scopeless, first⟩ := exists_of_forall₂ accepted.reads member
    exact ⟨a :: parsed, .cons (plain.parses original a scopeless first) reads, by rw [List.map_cons, eq]⟩

theorem exactSans_names (plain : lib.PlainTexts) {policy : CertificatePolicy} {addresses : List IpAddress}
    (accepted : Accepted lib policy addresses) {leaf : Certificate} {info : CsrInfo}
    (dns : (info.dnsSans.map lower).Nodup) (ip : info.ipSans.Perm (addresses.map lib.ipText))
    (h : validateExactSans lib leaf info = .ok ()) :
    (leaf.subjectAlternativeName.getD []).filterMap GeneralName.other? = [] ∧
      ((dnsNames leaf.subjectAlternativeName).map lower).Perm (info.dnsSans.map lower) ∧
      ((ipNames leaf.subjectAlternativeName).map lib.ipText).Perm info.ipSans := by
  simp only [validateExactSans, bind_eq_ok, require_eq_ok, orFail_eq_ok] at h
  obtain ⟨names, named, _, others, _, ⟨dnsCount, dnsSame⟩, expected, parsed, ipCount, ipSame⟩ := h
  have here : leaf.subjectAlternativeName.getD [] = names := by rw [named]; rfl
  obtain ⟨parsed', reads, texts⟩ := parsed_texts plain accepted fun text member => ip.mem_iff.mp member
  obtain rfl : expected = parsed' := Except.ok.inj (parsed.symm.trans (forall₂_mapM reads))
  have distinct : expected.Nodup := by
    have nodup : (expected.map lib.ipText).Nodup := texts ▸ ip.nodup_iff.mpr accepted.distinctIps
    exact List.Nodup.of_map _ nodup
  rw [dnsNames, ipNames, here]
  refine ⟨others, perm_of_sameSet dns (by simpa using dnsCount) dnsSame, ?_⟩
  rw [← texts]
  exact (perm_of_sameSet distinct ipCount ipSame).map _

/-! ## Letter case -/

/-- A character is its own lower case, or one of 26 letters. -/
theorem toLower_cases (c : Char) : c.toLower = c ∨ ∃ n ∈ List.range' 65 26, c = Char.ofNat n := by
  unfold Char.toLower
  split
  · rename_i upper
    have low : 65 ≤ c.val.toNat := UInt32.le_iff_toNat_le.mp upper.1
    have high : c.val.toNat ≤ 90 := UInt32.le_iff_toNat_le.mp upper.2
    refine Or.inr ⟨c.toNat, ?_, (Char.ofNat_toNat c).symm⟩
    rw [List.mem_range'_1]
    change 65 ≤ c.val.toNat ∧ c.val.toNat < 65 + 26
    omega
  · exact Or.inl rfl

theorem toLower_alphanum (c : Char) : c.toLower.isAlphanum = c.isAlphanum := by
  rcases toLower_cases c with same | ⟨n, member, rfl⟩
  · rw [same]
  · have all : ∀ n ∈ List.range' 65 26, (Char.ofNat n).toLower.isAlphanum = (Char.ofNat n).isAlphanum := by
      decide
    exact all n member

theorem toLower_eq_iff {c d : Char} (other : d.isAlpha = false) : c.toLower = d ↔ c = d := by
  rcases toLower_cases c with same | ⟨n, member, rfl⟩
  · rw [same]
  · have all : ∀ n ∈ List.range' 65 26, (Char.ofNat n).toLower.isAlpha = true ∧ (Char.ofNat n).isAlpha = true := by
      decide
    obtain ⟨low, up⟩ := all n member
    refine iff_of_false ?_ ?_
    · rintro rfl
      rw [low] at other
      cases other
    · rintro rfl
      rw [up] at other
      cases other

theorem toLower_ascii (c : Char) : c.toLower.toNat < 128 ↔ c.toNat < 128 := by
  rcases toLower_cases c with same | ⟨n, member, rfl⟩
  · rw [same]
  · have all : ∀ n ∈ List.range' 65 26, ((Char.ofNat n).toLower.toNat < 128 ↔ (Char.ofNat n).toNat < 128) := by
      decide
    exact all n member

theorem splitOn_map {α β : Type} [DecidableEq α] [DecidableEq β] {f : α → β} {a : α} {b : β}
    (only : ∀ x, f x = b ↔ x = a) (xs : List α) : (xs.map f).splitOn b = (xs.splitOn a).map (List.map f) := by
  induction xs with
  | nil => rfl
  | cons x xs ih =>
    have same : (f x == b) = (x == a) := by
      rw [Bool.eq_iff_iff, beq_iff_eq, beq_iff_eq]
      exact only x
    rw [List.map_cons, List.splitOn_cons_eq_if_modifyHead, List.splitOn_cons_eq_if_modifyHead, same, ih]
    cases x == a with
    | true => rfl
    | false =>
      obtain ⟨first, rest, eq⟩ := List.exists_cons_of_ne_nil (List.splitOn_ne_nil a xs)
      rw [eq]
      rfl

theorem dnsLabel_lower (label : List Char) : dnsLabel (label.map Char.toLower) = dnsLabel label := by
  have dash (c : Char) : (c.toLower == '-') = (c == '-') := by
    rw [Bool.eq_iff_iff, beq_iff_eq, beq_iff_eq]
    exact toLower_eq_iff (by decide)
  have head : (label.map Char.toLower).head?.any Char.isAlphanum = label.head?.any Char.isAlphanum := by
    cases label <;> simp [toLower_alphanum]
  have last : (label.map Char.toLower).getLast?.any Char.isAlphanum = label.getLast?.any Char.isAlphanum := by
    rw [List.getLast?_map]
    cases label.getLast? <;> simp [toLower_alphanum]
  simp only [dnsLabel, List.length_map, List.all_map, head, last, Function.comp_def, toLower_alphanum, dash]

/-- Names that differ in letter case only are accepted alike. -/
theorem DnsName.congr {name other : String} (h : DnsName lib name) (same : lower other = lower name) :
    DnsName lib other := by
  have length : other.toList.length = name.toList.length := by simpa [lower] using congrArg List.length same
  refine ⟨fun empty => h.filled ?_, length ▸ h.bounded, ?_, ?_⟩
  · rw [← List.length_eq_zero_iff, ← length, empty]
    rfl
  · have all (text : String) : (text.toList.all fun c => decide (c.toNat < 128)) =
        (lower text).all fun c => decide (c.toNat < 128) := by
      simp only [lower, List.all_map, Function.comp_def, toLower_ascii]
    rw [all, same, ← all]
    exact h.ascii
  · have labels (text : String) : (text.toList.splitOn '.').all dnsLabel =
        ((lower text).splitOn '.').all dnsLabel := by
      rw [lower, splitOn_map (a := '.') fun c => toLower_eq_iff (by decide), List.all_map]
      simp only [Function.comp_def, dnsLabel_lower]
    rw [labels, same, ← labels]
    exact h.labels

/-! ## The checks before signing -/

theorem mem_intercalate {α : Type} {separator : List α} {parts : List (List α)} {x : α}
    (member : x ∈ separator.intercalate parts) : x ∈ separator ∨ ∃ part ∈ parts, x ∈ part := by
  induction parts with
  | nil => cases member
  | cons first parts ih =>
    cases parts with
    | nil =>
      rw [List.intercalate_singleton] at member
      exact Or.inr ⟨first, List.mem_cons_self, member⟩
    | cons second parts =>
      rw [List.intercalate_cons_cons, List.append_assoc, List.mem_append, List.mem_append] at member
      rcases member with here | here | later
      · exact Or.inr ⟨first, List.mem_cons_self, here⟩
      · exact Or.inl here
      · rcases ih later with here | ⟨part, there, here⟩
        · exact Or.inl here
        · exact Or.inr ⟨part, List.mem_cons_of_mem _ there, here⟩

/-- A DNS name has letters, digits, hyphens and dots only. -/
theorem DnsName.characters {name : String} (h : DnsName lib name) {c : Char} (member : c ∈ name.toList) :
    c.isAlphanum = true ∨ c = '-' ∨ c = '.' := by
  have joined : ['.'].intercalate (name.toList.splitOn '.') = name.toList := List.intercalate_splitOn '.'
  rw [← joined] at member
  rcases mem_intercalate member with dot | ⟨label, there, here⟩
  · exact Or.inr (Or.inr (List.mem_singleton.mp dot))
  · have good := List.all_eq_true.mp h.labels label there
    simp only [dnsLabel, Bool.and_eq_true, List.all_eq_true, Bool.or_eq_true, beq_iff_eq] at good
    rcases good.1.1.2 c here with plain | dash
    · exact Or.inl plain
    · exact Or.inr (Or.inl dash)

theorem safeText_ok (plain : lib.PlainTexts) {text label : String} {maximum : Nat} (filled : text.toList ≠ [])
    (bounded : text.toList.length ≤ maximum)
    (characters : ∀ c ∈ text.toList, c.isAlphanum = true ∨ c ∈ ['-', '.', ':']) :
    validateSafeText lib text label maximum = .ok () := by
  simp only [validateSafeText, bind_eq_ok, require_eq_ok, exists_const]
  refine ⟨filled, bounded, ?_⟩
  rw [Bool.not_eq_true', List.any_eq_false]
  intro c member
  rw [plain.safe c (characters c member)]
  decide

theorem checkDnsNames_ok (plain : lib.PlainTexts) {seen : List (List Char)} {names : List String}
    (all : ∀ name ∈ names, DnsName lib name) (distinct : (names.map lower).Nodup)
    (unseen : ∀ name ∈ names, lower name ∉ seen) : checkDnsNames lib seen names = .ok names := by
  induction names generalizing seen with
  | nil => rfl
  | cons name names ih =>
    obtain ⟨here, later⟩ := List.forall_mem_cons.mp all
    obtain ⟨fresh, rest⟩ := List.forall_mem_cons.mp unseen
    obtain ⟨single, distinct⟩ := List.nodup_cons.mp distinct
    have safe : validateSafeText lib name "CSR DNS SAN" 253 = .ok () := by
      refine safeText_ok plain here.filled here.bounded fun c member => ?_
      rcases here.characters member with alphanumeric | rfl | rfl
      · exact Or.inl alphanumeric
      · exact Or.inr (by simp)
      · exact Or.inr (by simp)
    have run : checkDnsNames lib (lower name :: seen) names = .ok names := by
      refine ih later distinct fun other member again => ?_
      rcases List.mem_cons.mp again with same | earlier
      · exact single (List.mem_map.mpr ⟨other, member, same⟩)
      · exact rest other member earlier
    simp only [checkDnsNames, bind_eq_ok, require_eq_ok, exists_const]
    exact ⟨(), safe, here.ascii, here.labels, fresh, names, run, rfl⟩

theorem checkIpAddresses_ok (plain : lib.PlainTexts) {policy : CertificatePolicy}
    {addresses : List IpAddress} (accepted : Accepted lib policy addresses) {seen texts : List String}
    (among : ∀ text ∈ texts, text ∈ addresses.map lib.ipText) (distinct : texts.Nodup)
    (unseen : ∀ text ∈ texts, text ∉ seen) : checkIpAddresses lib seen texts = .ok texts := by
  induction texts generalizing seen with
  | nil => rfl
  | cons text texts ih =>
    obtain ⟨here, later⟩ := List.forall_mem_cons.mp among
    obtain ⟨fresh, rest⟩ := List.forall_mem_cons.mp unseen
    obtain ⟨single, others⟩ := List.nodup_cons.mp distinct
    obtain ⟨a, member, rfl⟩ := List.mem_map.mp here
    obtain ⟨original, _, scopeless, first⟩ := exists_of_forall₂ accepted.reads member
    obtain ⟨filled, bounded⟩ := plain.bounded original a scopeless first
    have characters := List.all_eq_true.mp (plain.characters original a scopeless first)
    have safe : validateSafeText lib (lib.ipText a) "CSR IP SAN" 64 = .ok () :=
      safeText_ok plain filled bounded fun c there => addressCharacter_safe (characters c there)
    have scope : '%' ∉ (lib.ipText a).toList := fun there => absurd (characters _ there) (by decide)
    have run : checkIpAddresses lib (lib.ipText a :: seen) texts = .ok texts := by
      refine ih later others fun other there again => ?_
      rcases List.mem_cons.mp again with same | earlier
      · exact single (same ▸ there)
      · exact rest other there earlier
    simp only [checkIpAddresses, bind_eq_ok, require_eq_ok, orFail_eq_ok, exists_const]
    exact ⟨(), safe, scope, a, plain.parses original a scopeless first, fresh, texts, run, rfl⟩

/-- The names of an accepted request pass the checks before signing unchanged. -/
theorem requested_names_signable (plain : lib.PlainTexts) {csrPem : Bytes} {policy : CertificatePolicy}
    {info : CsrInfo} (h : validateRequestedCsr lib csrPem policy = .ok info) :
    validateCsrNames lib info = .ok (info.dnsSans, info.ipSans) := by
  obtain ⟨addresses, accepted, _, _, supported, dns, ip⟩ := requestedCsr_names h
  have dnsCount : info.dnsSans.length = policy.dnsSans.length := by simpa using dns.length_eq
  have ipCount : info.ipSans.length = addresses.length := by simpa using ip.length_eq
  have names : checkDnsNames lib [] info.dnsSans = .ok info.dnsSans := by
    refine checkDnsNames_ok plain (fun name member => ?_) (dns.nodup_iff.mpr accepted.distinct) (by simp)
    obtain ⟨other, there, same⟩ := List.mem_map.mp (dns.mem_iff.mp (List.mem_map_of_mem member))
    exact (accepted.dns other there).congr same.symm
  have addresses : checkIpAddresses lib [] info.ipSans = .ok info.ipSans :=
    checkIpAddresses_ok plain accepted (fun text member => ip.mem_iff.mp member)
      (ip.nodup_iff.mpr accepted.distinctIps) (by simp)
  simp only [validateCsrNames, bind_eq_ok, require_eq_ok, exists_const]
  refine ⟨supported, ?_, fun neither => accepted.some ⟨?_, ?_⟩, _, names, _, addresses, rfl⟩
  · rw [dnsCount, ipCount]
    exact accepted.count
  · exact List.length_eq_zero_iff.mp (by rw [← dnsCount, neither.1]; rfl)
  · exact List.length_eq_zero_iff.mp (by rw [← ipCount, neither.2]; rfl)

/-! ## The whole chain -/

theorem issued_exactSans {data : Bytes} {csrInfo : CsrInfo} {p : IssuancePolicy} {now : Time}
    {info : CertificateInfo} (h : validateIssuedCertificate lib data csrInfo p now = .ok info) :
    ∃ leaf, loadOneCertificate lib data maxIssuedCertificateBytes "issued certificate" = .ok leaf ∧
      validateExactSans lib leaf csrInfo = .ok () ∧ info.spkiSha256 = lib.sha256 leaf.spki := by
  simp only [validateIssuedCertificate, bind_eq_ok, require_eq_ok, Except.ok.injEq] at h
  obtain ⟨_, _, _, _, leaf, loaded, found, read, _, _, _, _, _, _, _, _, _, sans, h⟩ := h
  obtain ⟨_, _, _, _, _, _, _, _, _, _, rfl⟩ := h
  simp only [certificateInfo, bind_eq_ok, Except.ok.injEq] at read
  obtain ⟨_, _, _, _, rfl⟩ := read
  exact ⟨leaf, loaded, sans, rfl⟩

/-- The names and the key are the same from the policy to the leaf. -/
structure SameIdentity (lib : Library) (policy : CertificatePolicy) (addresses : List IpAddress)
    (before : UnifiCertificateInspection) (csr : CsrInfo) (leaf : Certificate) : Prop where
  distinctDns : (policy.dnsSans.map lower).Nodup
  csrDns : (csr.dnsSans.map lower).Perm (policy.dnsSans.map lower)
  leafDns : ((dnsNames leaf.subjectAlternativeName).map lower).Perm (csr.dnsSans.map lower)
  distinctIps : (addresses.map lib.ipText).Nodup
  csrIps : csr.ipSans.Perm (addresses.map lib.ipText)
  leafIps : ((ipNames leaf.subjectAlternativeName).map lib.ipText).Perm csr.ipSans
  csrOthers : csr.unsupportedSanTypes = []
  leafOthers : (leaf.subjectAlternativeName.getD []).filterMap GeneralName.other? = []
  leafKey : lib.sha256 leaf.spki = csr.spkiSha256
  beforeKey : before.certificate.spkiSha256 = csr.spkiSha256
  policyKey : policy.expectedSpkiSha256 = some csr.spkiSha256

/-- No name can be added, dropped, replaced or refused between the stages. -/
theorem identity_is_exact (plain : lib.PlainTexts) :
    (∀ request now plan, prepareCertificateImport lib request now = .ok plan →
      ∃ before csr leaf addresses, inspectPublicKeystoreState lib request.before = .ok before ∧
        inspectCsr lib request.csrPem = .ok csr ∧
        loadOneCertificate lib request.issuedCertificate maxIssuedCertificateBytes
          "issued certificate" = .ok leaf ∧
        List.Forall₂ (fun text a => lib.ipAddress text = some a) request.policy.ipSans addresses ∧
        SameIdentity lib request.policy addresses before csr leaf) ∧
      ∀ csrPem policy csr, validateRequestedCsr lib csrPem policy = .ok csr →
        validateCsrIdentity lib csr = (do
          validateSafeText lib csr.subject "CSR subject" maxSubjectChars
          .ok (csr.dnsSans, csr.ipSans)) := by
  constructor
  · intro request now plan h
    obtain ⟨before, csr, _, leaf, inspected, requested, beforeKey, _, issued, loaded, _⟩ := prepare_spec lib h
    obtain ⟨addresses, accepted, read, policyKey, csrOthers, csrDns, csrIps⟩ := requestedCsr_names requested
    obtain ⟨found, loaded', sans, leafKey⟩ := issued_exactSans issued
    cases loaded.symm.trans loaded'
    obtain ⟨_, _, _, leafSpki⟩ := validateIssued_spec issued
    obtain ⟨leafOthers, leafDns, leafIps⟩ :=
      exactSans_names plain accepted (csrDns.nodup_iff.mpr accepted.distinct) csrIps sans
    exact ⟨before, csr, leaf, addresses, inspected, read, loaded, accepted.reads.imp fun _ _ => And.right,
      { distinctDns := accepted.distinct
        csrDns := csrDns
        leafDns := leafDns
        distinctIps := accepted.distinctIps
        csrIps := csrIps
        leafIps := leafIps
        csrOthers := csrOthers
        leafOthers := leafOthers
        leafKey := leafKey.symm.trans leafSpki
        beforeKey := beforeKey.symm
        policyKey := policyKey }⟩
  · intro csrPem policy csr h
    rw [validateCsrIdentity, requested_names_signable plain h]

end

/-! A host whose leaf and request have an address besides the name. -/

def Sample.address : IpAddress := .v4 0x0a000001#32

def Sample.addressedLoad (data : Bytes) : Option Certificate :=
  (load data).map fun c => { c with subjectAlternativeName := some [.dns "U", .ip address] }

def Sample.addressed : Library := { library with
  ipAddress text := if text = "10.0.0.1" then some address else none
  ipText _ := "10.0.0.1"
  loadDer := addressedLoad
  loadPem data := (addressedLoad data).map fun c => [c]
  loadCsr _ := some ⟨"CN=u", [7], some (.rsa, some 2048), some [.ip address, .dns "u"], none,
    [1, 2, 840, 113549, 1, 1, 12], some (some .sha384), true⟩
  rfc4514 subject := if '=' ∈ subject.toList then some subject else none
  unsafeCategory c := decide (c.toNat < 32) }

def Sample.addressedRequest : CertificateImportRequest :=
  { request with policy := ⟨some 1, "CN=u", ["u"], ["10.0.0.1"]⟩ }

theorem Sample.addressed_plain : addressed.PlainTexts where
  parses text a _ h := by
    simp only [addressed] at h ⊢
    split at h
    · simpa using h
    · cases h
  bounded _ _ _ _ := by
    change "10.0.0.1".toList ≠ [] ∧ "10.0.0.1".toList.length ≤ 64
    decide
  characters _ _ _ _ := by
    change "10.0.0.1".toList.all addressCharacter = true
    decide
  safe c h := by
    have printable : ¬ c.toNat < 32 := by
      rcases h with alphanumeric | other
      · simp only [Char.isAlphanum, Char.isAlpha, Char.isUpper, Char.isLower, Char.isDigit, Bool.or_eq_true,
          Bool.and_eq_true, decide_eq_true_eq, ge_iff_le, UInt32.le_iff_toNat_le] at alphanumeric
        have low : 48 ≤ c.val.toNat := by
          rcases alphanumeric with (upper | lower) | digit
          · exact Nat.le_trans (by decide) upper.1
          · exact Nat.le_trans (by decide) lower.1
          · exact digit.1
        simp only [Char.toNat]
        omega
      · simp only [List.mem_cons, List.not_mem_nil, or_false] at other
        rcases other with rfl | rfl | rfl <;> decide
    simpa [addressed] using printable
  subject text name h := by
    simp only [addressed] at h
    split at h
    · assumption
    · cases h

theorem addressed_leaf_is_exact :
    (∃ plan, prepareCertificateImport Sample.addressed Sample.addressedRequest ⟨0, 0⟩ = .ok plan) ∧
      ∃ before csr leaf addresses,
        SameIdentity Sample.addressed Sample.addressedRequest.policy addresses before csr leaf := by
  have prepared : ∃ plan, prepareCertificateImport Sample.addressed Sample.addressedRequest ⟨0, 0⟩ = .ok plan :=
    ⟨_, rfl⟩
  obtain ⟨plan, run⟩ := id prepared
  obtain ⟨before, csr, leaf, addresses, _, _, _, _, same⟩ :=
    (identity_is_exact Sample.addressed_plain).1 _ _ plan run
  exact ⟨prepared, before, csr, leaf, addresses, same⟩

end CertRenewer
