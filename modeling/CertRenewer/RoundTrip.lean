import CertRenewer.Crash.Values
import CertRenewer.Frames
import CertRenewer.Codec

/-!
# Round trips between the worker and the executor

A message that one module writes is the message that the other reads; a state and
an import request come out of it as they went in, apart from the time that the
executor stamps itself.
-/

namespace CertRenewer.Wire

open Crash Keytool
open Prog (Ensures ensures_any ensures_pure ensures_raise ensures_ofExcept)

/-! ## What the worker sends -/

section
variable {α : Type} {m : Worker.Work α} {Q : α → Prop} {p : Worker.Peers}

theorem ensures_check (r : Result α) : Ensures (Worker.check r) (fun a => r = .ok a) := by
  cases r with
  | ok a => exact ensures_pure rfl
  | error e => exact ensures_raise _

theorem ensures_insist (q : Prop) [Decidable q] (message : String) : Ensures (Worker.insist q message) (fun _ => q) := by
  unfold Worker.insist
  split
  · rename_i known
    exact ensures_pure known
  · exact ensures_raise _

theorem ensures_during {message : String} (h : Ensures m Q) : Ensures (Worker.during message m) Q :=
  h.handle fun _ => ensures_raise _

/-- What is known of a request that a run of the worker has built. -/
structure Built (p : Worker.Peers) (config : Worker.ProductionConfig) (request : CertificateImportRequest) : Prop where
  policy : request.policy = config.policy
  observed : ∃ inspection, inspectPublicKeystoreState p.lib request.before = .ok inspection ∧
    config.policy.expectedSpkiSha256 = some inspection.certificate.spkiSha256
  issuer : ∃ now, Worker.validateIssuedSignaturePolicy p config.authority.caPem config.authority.signingDigest
    config.authority.issuedSignatureOid now = .ok request.issuance.trustedCaData
  lifetimeDays : request.issuance.lifetimeDays = config.authority.lifetimeDays
  signingDigest : request.issuance.expectedSignatureHash = config.authority.signingDigest
  signatureOid : request.issuance.expectedSignatureOid = config.authority.issuedSignatureOid

theorem ensures_validateSettings (config : Worker.ProductionConfig) (minimum : Option Int) :
    Ensures (Worker.validateSettings p config minimum) (fun caPem => ∃ now,
      Worker.validateIssuedSignaturePolicy p config.authority.caPem config.authority.signingDigest
        config.authority.issuedSignatureOid now = .ok caPem) := by
  refine ensures_during (.after fun _ => .after fun _ => .after fun _ => .after fun now => ?_)
  exact (ensures_check _).mono fun _ h => ⟨now, h⟩

theorem ensures_inspectCurrent (policy : CertificatePolicy) :
    Ensures (Worker.inspectCurrent p policy) (fun state => ∃ inspection, inspectPublicKeystoreState p.lib state = .ok inspection ∧
      policy.expectedSpkiSha256 = some inspection.certificate.spkiSha256) := by
  refine ensures_during (.after fun _ => .after fun state => (ensures_check _).bind fun inspection accepted => ?_)
  exact (ensures_insist _ _).bind fun _ same => ensures_pure ⟨inspection, accepted, same⟩

theorem ensures_validateIssued {config : Worker.ProductionConfig} {minimum : Option Int} {before : PublicKeystoreState}
    {csrPem issued caPem : Bytes}
    (observed : ∃ inspection, inspectPublicKeystoreState p.lib before = .ok inspection ∧
      config.policy.expectedSpkiSha256 = some inspection.certificate.spkiSha256)
    (issuer : ∃ now, Worker.validateIssuedSignaturePolicy p config.authority.caPem config.authority.signingDigest
      config.authority.issuedSignatureOid now = .ok caPem) :
    Ensures (Worker.validateIssued p config minimum before csrPem issued caPem) (fun built => Built p config built.1) := by
  refine ensures_during (.after fun time => .after fun now => .after fun plan => ?_)
  split
  · exact fun _ => trivial
  · exact .after fun _ => ensures_pure ⟨rfl, observed, issuer, rfl, rfl, rfl⟩

theorem ensures_runToInstallation (config : Worker.ProductionConfig) (install : Bool) (minimum : Option Int) :
    Ensures (Worker.runToInstallation p config install minimum) (fun built => Built p config built.1) := by
  refine (ensures_validateSettings config minimum).bind fun caPem issuer => ?_
  have inspected : Ensures (Worker.during "Renewal stopped during current UniFi inspection" do
      Worker.setStage .inspection
      Worker.inspectCurrent p config.policy) _ := ensures_during (.after fun _ => ensures_inspectCurrent config.policy)
  refine inspected.bind fun before observed => .after fun csr => .after fun caref => .after fun certificate => ?_
  refine .after fun issued => (ensures_validateIssued observed issuer).bind fun built known => ?_
  obtain ⟨request, plan⟩ := built
  cases install with
  | false => exact ensures_pure known
  | true => exact .after fun _ => ensures_pure known

end

/-! ## What the executor makes of it -/

/-- What is known of a request that the executor has decoded. -/
theorem decodeImportRequest_rebuilds (x : Session) (before csrPem issued : Json) (w : World) :
    Prog.Holds (decodeImportRequest x (requestFields before csrPem issued))
      (fun request _ => ∃ freshness, rebuildRequest x [before, csrPem, issued] freshness = .ok request)
      (fun _ _ => True) (fun _ => True) w := by
  have decoded : Ensures (decodeImportRequest x (requestFields before csrPem issued))
      (fun request => ∃ freshness, rebuildRequest x [before, csrPem, issued] freshness = .ok request) := by
    unfold decodeImportRequest
    rw [exactDict_request]
    refine (ensures_ofExcept _).bind fun fields same => ?_
    obtain rfl := Except.ok.inj same
    refine .after fun freshness => (ensures_ofExcept _).bind fun request rebuilt => ?_
    exact .after fun _ => .after fun _ => .after fun _ => .after fun _ => ensures_pure ⟨freshness, rebuilt⟩
  exact decoded w

/-- What the library promises of the PEM of a certificate it has read: it looks
like one, and reading it gives a certificate with the same PEM. -/
structure Reencodes (lib : Library) : Prop where
  armoured : ∀ data certificates c, lib.loadPem data = some certificates → c ∈ certificates → looksLikePem c.pem = true
  same : ∀ data certificates c again a, lib.loadPem data = some certificates → c ∈ certificates →
    lib.loadPem c.pem = some again → a ∈ again → a.pem = c.pem

/-- `parse_policy` keeps the PEM of the CA that it read. -/
def FromFile (lib : Library) (policy : RenewalPolicy) : Prop :=
  ∃ data certificates ca, lib.loadPem data = some certificates ∧ ca ∈ certificates ∧ policy.caPem = ca.pem

theorem reencoded {lib : Library} {policy : RenewalPolicy} {now : Time} {ca : Certificate} (reencodes : Reencodes lib)
    (file : FromFile lib policy) (h : validateInstallationCa lib policy.caPem now = .ok ca) : ca.pem = policy.caPem := by
  obtain ⟨data, certificates, original, loaded, member, same⟩ := file
  have armoured : looksLikePem policy.caPem = true := same ▸ reencodes.armoured data certificates original loaded member
  simp only [validateInstallationCa, loadTrustCertificates, armoured, ↓reduceIte, bind_eq_ok, require_eq_ok, orFail_eq_ok] at h
  obtain ⟨listed, ⟨_, _, _, _, _, _, again, read, _, _, _, _, all⟩, rest⟩ := h
  obtain rfl := Except.ok.inj all
  split at rest
  · rename_i only
    simp only [bind_eq_ok] at rest
    obtain ⟨_, _, _, _, _, _, found⟩ := rest
    obtain rfl := Except.ok.inj found
    rw [same] at read ⊢
    exact reencodes.same data certificates original _ _ loaded member read List.mem_cons_self
  · cases rest

theorem built_issuer {p : Worker.Peers} {config : Worker.ProductionConfig} {request : CertificateImportRequest}
    (built : Built p config request) (reencodes : Reencodes p.lib) (file : FromFile p.lib config.authority) :
    request.issuance.trustedCaData = config.authority.caPem := by
  obtain ⟨now, validated⟩ := built.issuer
  simp only [Worker.validateIssuedSignaturePolicy, bind_eq_ok] at validated
  obtain ⟨ca, accepted, rest⟩ := validated
  rw [← reencoded reencodes file accepted]
  split at rest
  · simp only [bind_eq_ok] at rest
    obtain ⟨_, _, _, _, _, _, _, _, last⟩ := rest
    exact (Except.ok.inj last).symm
  · cases rest

/-- The worker's policy is the executor's, with the key that the worker expects. -/
theorem config_policy {p : Worker.Peers} {config : Worker.ProductionConfig} (h : Worker.loadProductionConfig p = .ok config) :
    ∃ key, config.policy = ⟨some key, config.authority.subject, config.authority.dnsSans, config.authority.ipSans⟩ := by
  simp only [Worker.loadProductionConfig, bind_eq_ok, orFail_eq_ok] at h
  obtain ⟨value, _, _, _, ⟨authority, description⟩, _, h⟩ := h
  unfold Worker.parseConfig at h
  split at h
  · simp only [bind_eq_ok] at h
    obtain ⟨fields, _, _, _, policy, identity, _, _, _, _, days, _, text, _, last⟩ := h
    obtain rfl := Except.ok.inj last
    simp only [RenewalPolicy.certificatePolicy, bind_eq_ok, orFail_eq_ok] at identity
    obtain ⟨key, _, same⟩ := identity
    exact ⟨key, (Except.ok.inj same).symm⟩
  · cases h

/-- A request that the executor decodes is the request that the worker built. -/
theorem decoded_request {lib : Library} {x : Session} {p : Worker.Peers} {config : Worker.ProductionConfig}
    {sent received : CertificateImportRequest} {freshness : Time} (executor : x.host.lib = reading lib)
    (worker : p.lib = reading lib) (loaded : Worker.loadProductionConfig p = .ok config) (shared : x.policy = config.authority)
    (reencodes : Reencodes p.lib) (file : FromFile p.lib config.authority) (built : Built p config sent)
    (h : rebuildRequest x [stateFields sent.before, encodeBinary sent.csrPem, encodeBinary sent.issuedCertificate] freshness =
      .ok received) :
    received = { sent with issuance := { sent.issuance with freshnessReferenceTime := freshness } } := by
  obtain ⟨inspection, accepted, expected⟩ := built.observed
  rw [worker] at accepted
  simp only [rebuildRequest, decodeState_fields executor accepted, executor, bind_eq_ok] at h
  obtain ⟨before, first, again, second, policy, identity, csrPem, csr, issued, certificate, last⟩ := h
  obtain rfl := Except.ok.inj first
  obtain rfl : inspection = again := Except.ok.inj (accepted.symm.trans second)
  have sameCsr := binary_encode_eq_ok csr
  have sameIssued := binary_encode_eq_ok certificate
  have samePolicy : policy = sent.policy := by
    obtain ⟨key, same⟩ := config_policy loaded
    have known : key = inspection.certificate.spkiSha256 := by
      rw [same] at expected
      exact Option.some.inj expected
    simp only [RenewalPolicy.certificatePolicy, bind_eq_ok, orFail_eq_ok, Option.some.injEq] at identity
    obtain ⟨_, rfl, made⟩ := identity
    rw [built.policy, same, known, ← Except.ok.inj made, shared]
  rw [← Except.ok.inj last, sameCsr, sameIssued, samePolicy, shared]
  have issuer := built_issuer built reencodes file
  obtain ⟨_, _, _, _, ⟨_, _, _, _, _⟩⟩ := sent
  obtain ⟨_, _, _, days, digest, oid⟩ := built
  simp only at issuer days digest oid
  rw [issuer, days, digest, oid]

/-! ## The round trips -/

/-- The bytes of a frame and more, in chunks that come before the deadline, each
of them waited for before it. -/
structure Delivers (clock : Nat → Int) (deadline : Int) (bytes extra : Bytes) (later : List Arrival) (c : Connection) :
    Prop where
  offers : Offers deadline (bytes ++ extra) later c
  punctual : Punctual clock deadline bytes.length c

/-- The reader returns the value and leaves what is behind the frame. -/
def Receives (m : Io Document) (value : Document) (extra : Bytes) (later : List Arrival) (c : Connection) : Prop :=
  Prog.Returns m (fun again t => again.Same value ∧ stream t.arrivals = extra ++ stream later) c

theorem readFrame_receives {json : JournalText.Decoder} {clock : Nat → Int} {deadline : Int} {value : Document}
    {bytes extra : Bytes} {later : List Arrival} {c : Connection} (reads : Reads json value) (dict : value.distinct = true)
    (sent : frame value = .ok bytes) (delivers : Delivers clock deadline bytes extra later c) :
    Receives (readFrame json clock deadline) value extra later c := by
  refine (readFrame_reads reads dict sent delivers.punctual delivers.offers).mono (fun again t read => ?_) (fun _ _ no => no)
    fun _ no => no
  obtain ⟨rfl, ⟨cut, arrivals, _, rest⟩⟩ := read
  refine ⟨value.sorted_sorted, ?_⟩
  rw [arrivals, ← rest]
  exact List.flatMap_append ..

/-- The messages of either module are read by the other as they were written, and
states and import requests come back as they were. -/
theorem wire_round_trip (lib : Library) (json : JournalText.Decoder) (clock : Nat → Int) :
    (∀ value data, Reads json value → value.distinct = true → dumps value = .ok data → data.length ≤ maxMessageBytes →
      ∃ bytes, bytes.length = 4 + data.length ∧
        Service.writeMessage value = .ok bytes ∧ Client.writeMessage value (.ok ()) = .ok bytes ∧
        ∀ extra later c,
          (∀ deadline, Delivers clock deadline bytes extra later c →
            Receives (Service.readMessage json clock (some deadline)) value extra later c) ∧
          (Delivers clock (clock c.readings + socketTimeout) bytes extra later { c with readings := c.readings + 1 } →
            Receives (Service.readMessage json clock none) value extra later c ∧
            Receives (Client.readMessage json clock) value extra later c)) ∧
    (∀ (x : Session) (p : Worker.Peers), x.host.lib = reading lib → p.lib = reading lib →
      ∀ state inspection, inspectPublicKeystoreState (reading lib) state = .ok inspection →
        (Service.encodeState x state >>= Worker.decodeState p) = .ok state ∧
        (Client.encodeState p state >>= CertRenewer.decodeState x) = .ok state) ∧
    ∀ (x : Session) (p : Worker.Peers) (config : Worker.ProductionConfig), x.host.lib = reading lib → p.lib = reading lib →
      Worker.loadProductionConfig p = .ok config → x.policy = config.authority → Reencodes p.lib →
      FromFile p.lib config.authority →
        ∀ install minimum s request plan s', Worker.runToInstallation p config install minimum s = (.ok (request, plan), s') →
          ∀ value w received w', Client.encodeImportRequest p request = .ok value →
            decodeImportRequest x value w = (.ok received, w') →
              ∃ freshness, received = { request with
                issuance := { request.issuance with freshnessReferenceTime := freshness } } := by
  refine ⟨fun value data reads dict text fits => ?_, fun x p executor worker state inspection accepted => ?_,
    fun x p config executor worker loaded shared reencodes file install minimum s request plan s' run value w received w'
      encoded decoded => ?_⟩
  · have sent := frame_of_short text fits
    refine ⟨packLength data.length ++ data, by rw [List.length_append, packLength_length], sent, ?_, ?_⟩
    · unfold Client.writeMessage
      rw [sent]
      rfl
    · refine fun extra later c => ⟨fun deadline delivers => readFrame_receives reads dict sent delivers, fun delivers => ?_⟩
      exact ⟨readFrame_receives reads dict sent delivers, readFrame_receives reads dict sent delivers⟩
  · have same : p.lib = x.host.lib := worker.trans executor.symm
    simp only [Service.encodeState, Client.encodeState, encodeState, executor, worker, accepted, decodeState_eq same,
      bind_eq_ok]
    exact ⟨⟨_, ⟨_, rfl, rfl⟩, decodeState_fields executor accepted⟩, ⟨_, ⟨_, rfl, rfl⟩, decodeState_fields executor accepted⟩⟩
  · have built : Built p config request := (ensures_runToInstallation config install minimum s).ok run
    simp only [Client.encodeImportRequest, encodeImportRequest, encodeState, bind_eq_ok] at encoded
    obtain ⟨_, ⟨_, _, state⟩, last⟩ := encoded
    obtain rfl := Except.ok.inj state
    obtain rfl := Except.ok.inj last
    obtain ⟨freshness, rebuilt⟩ := (decodeImportRequest_rebuilds x _ _ _ w).ok decoded
    exact ⟨freshness, decoded_request executor worker loaded shared reencodes file built rebuilt⟩

/-! A worker and an executor that share a small host, and the shortest message. -/

def Sample.armour (der : Bytes) : Bytes := pemPrefix ++ der

def Sample.certificate (der spki : Bytes) (ca : Bool) : Certificate :=
  { CertRenewer.Sample.certificate der spki ca with
    pem := armour der, signatureAlgorithmOid := [1, 2, 840, 113549, 1, 1, 11] }

/-- The issued certificate comes with a line end. -/
def Sample.load (data : Bytes) : Option Certificate :=
  if data = [1] then some (certificate [1] [7] false)
  else if data = [2, 2] then some (certificate [2, 2] [8] true)
  else if data = [51, 10] then some (certificate [51] [7] false)
  else none

def Sample.lib : Library := { CertRenewer.Sample.library with
  loadDer := load
  loadPem data := if pemPrefix.isPrefixOf data then (load (data.drop 10)).map fun c => [c] else none }

def Sample.policy : RenewalPolicy := { CertRenewer.Sample.policy with
  caPem := armour [2, 2], issuedSignatureOid := [1, 2, 840, 113549, 1, 1, 11] }

def Sample.response (result : Json) : Json :=
  .object [("version", .int 2), ("ok", .bool true), ("result", result)]

def Sample.peers : Worker.Peers where
  lib := reading lib
  lock := .acquired
  authority := some (policy, "ca")
  configuration := some (.object [
    ("expected_spki_sha256", .string "0000000000000000000000000000000000000000000000000000000000000001"),
    ("opnsense", .object [("base_url", .null), ("timeout_seconds", .null), ("tls_ca_name", .null)]),
    ("certificate_description", .string "unifi")])
  connectable _ := true
  opnsenseClient := true
  clock _ := 0
  executor n := .answered (response (if n = 1 then .object [("state", stateFields Worker.Sample.collected)]
    else .object [("csr_pem", encodeBinary [0])]))
  opnsense n := .answered (
    if n = 3 then .object [("rows", .array [.object [("descr", .string "ca"), ("caref", .string "0123456789abc")]]),
      ("count", .int 1)]
    else if n = 4 then .object [("result", .string "saved"), ("uuid", .string "00000000-0000-0000-0000-000000000000")]
    else .object [("status", .string "ok"), ("payload", .string "3")])

def Sample.config : Worker.ProductionConfig := ⟨policy, "ca", ⟨some 1, "CN=u", ["u"], []⟩, "unifi", 30⟩

def Sample.session : Session := ⟨⟨reading lib, fun _ => none⟩, policy, CertRenewer.Sample.oracle []⟩

def Sample.request : CertificateImportRequest where
  before := Worker.Sample.collected
  policy := config.policy
  csrPem := [0]
  issuedCertificate := [51, 10]
  issuance := ⟨armour [2, 2], 1, .sha256, [1, 2, 840, 113549, 1, 1, 11], 0⟩

def Sample.plan : CertificateImportPlan where
  replyPem := armour [51] ++ armour [2, 2]
  certificateChainDer := [[51], [2, 2]]
  issued := ⟨"CN=u", "CN=ca", 1, 0, microsecondsPerDay, 1, 1, .rsa, some 2048, ["u"], [], none,
    [1, 2, 840, 113549, 1, 1, 11], some .sha256⟩

/-- What the worker sends for it. -/
def Sample.value : Json := requestFields (stateFields Worker.Sample.collected) (encodeBinary [0]) (encodeBinary [51, 10])

theorem Sample.accepted :
    ∃ inspection, inspectPublicKeystoreState (reading lib) Worker.Sample.collected = .ok inspection :=
  exists_ok (by decide +kernel)

theorem Sample.load_pem {data : Bytes} {c : Certificate} (h : load data = some c) :
    c.pem = armour [1] ∨ c.pem = armour [2, 2] ∨ c.pem = armour [51] := by
  unfold load at h
  split at h
  · cases h
    exact Or.inl rfl
  · split at h
    · cases h
      exact Or.inr (Or.inl rfl)
    · split at h
      · cases h
        exact Or.inr (Or.inr rfl)
      · cases h

theorem Sample.loadPem_pem {data : Bytes} {certificates : List Certificate} {c : Certificate}
    (h : lib.loadPem data = some certificates) (member : c ∈ certificates) : load (data.drop 10) = some c := by
  change (if pemPrefix.isPrefixOf data then (load (data.drop 10)).map fun c => [c] else none) = some certificates at h
  split at h
  · obtain ⟨only, loaded, rfl⟩ := Option.map_eq_some_iff.mp h
    rw [loaded, List.mem_singleton.mp member]
  · cases h

theorem Sample.reencodes : Reencodes lib where
  armoured data certificates c loaded member := by
    rcases load_pem (loadPem_pem loaded member) with pem | pem | pem
    all_goals
      rw [pem]
      decide +kernel
  same data certificates c again a loaded member reloaded found := by
    have second := loadPem_pem reloaded found
    rcases load_pem (loadPem_pem loaded member) with pem | pem | pem
    · rw [pem] at second ⊢
      cases second
      rfl
    · rw [pem] at second ⊢
      cases second
      rfl
    · rw [pem] at second
      cases second

def Sample.decoder : JournalText.Decoder where
  decode _ data := JournalText.decodeAscii data
  scan text := if text = [110, 117, 108, 108] then some .null else none

/-- The frame of `null` in three chunks, and a byte behind it. -/
def Sample.connection : Connection :=
  ⟨0, [⟨0, some [0, 0]⟩, ⟨0, some [0, 4, 110]⟩, ⟨1, some [117, 108, 108, 7]⟩]⟩

theorem sample_round_trip :
    Receives (Service.readMessage Sample.decoder (fun _ => 0) (some 5)) .null [7] [] Sample.connection ∧
    (Service.encodeState Sample.session Worker.Sample.collected >>= Worker.decodeState Sample.peers) =
      .ok Worker.Sample.collected ∧
    ∃ value received, Client.encodeImportRequest Sample.peers Sample.request = .ok value ∧
      (decodeImportRequest Sample.session value CertRenewer.Sample.start).1 = .ok received ∧
      ∃ freshness, received = { Sample.request with
        issuance := { Sample.request.issuance with freshnessReferenceTime := freshness } } := by
  obtain ⟨messages, states, requests⟩ := wire_round_trip Sample.lib Sample.decoder (fun _ => 0)
  refine ⟨?_, ?_, ?_⟩
  · have reads : Reads Sample.decoder .null := ⟨fun _ _ h => h, rfl, rfl⟩
    obtain ⟨bytes, _, written, _, received⟩ := messages .null [110, 117, 108, 108] reads rfl (by decide +kernel) (by decide)
    have frame : bytes = [0, 0, 0, 4, 110, 117, 108, 108] := by
      have known : Service.writeMessage .null = .ok [0, 0, 0, 4, 110, 117, 108, 108] := by decide +kernel
      exact Except.ok.inj (written.symm.trans known)
    subst frame
    refine (received [7] [] Sample.connection).1 5 ⟨⟨⟨_, (List.append_nil _).symm, ?_, by decide +kernel⟩⟩, fun _ _ => by decide⟩
    simp only [Timely, Sample.connection, List.forall_mem_cons]
    exact ⟨⟨by decide, _, rfl, by decide⟩, ⟨by decide, _, rfl, by decide⟩, ⟨by decide, _, rfl, by decide⟩, by simp⟩
  · obtain ⟨inspection, accepted⟩ := Sample.accepted
    exact (states Sample.session Sample.peers rfl rfl _ inspection accepted).1
  · have ran (p : Worker.Peers) (x : Session) (config : Worker.ProductionConfig) (s : Worker.Progress) (w : World)
        (sent received : CertificateImportRequest) (plan : CertificateImportPlan) (value : Json)
        (executor : x.host.lib = reading Sample.lib) (worker : p.lib = reading Sample.lib)
        (loaded : Worker.loadProductionConfig p = .ok config) (shared : x.policy = config.authority)
        (reencodes : Reencodes p.lib) (file : FromFile p.lib config.authority)
        (run : (Worker.runToInstallation p config false none s).1 = .ok (sent, plan))
        (encoded : Client.encodeImportRequest p sent = .ok value)
        (decoded : (decodeImportRequest x value w).1 = .ok received) :
        ∃ freshness, received = { sent with issuance := { sent.issuance with freshnessReferenceTime := freshness } } :=
      requests x p config executor worker loaded shared reencodes file false none s sent plan _ (Prog.eq_of_fst run)
        value w received _ encoded (Prog.eq_of_fst decoded)
    have file : FromFile Sample.peers.lib Sample.config.authority :=
      ⟨Sample.armour [2, 2], _, Sample.certificate [2, 2] [8] true, rfl, List.mem_cons_self, rfl⟩
    have encoded : Client.encodeImportRequest Sample.peers Sample.request = .ok Sample.value := by
      obtain ⟨inspection, accepted⟩ := Sample.accepted
      have state : Client.encodeState Sample.peers Sample.request.before = .ok (stateFields Worker.Sample.collected) :=
        bind_eq_ok.mpr ⟨inspection, accepted, rfl⟩
      exact bind_eq_ok.mpr ⟨_, state, rfl⟩
    have reencodes : Reencodes Sample.peers.lib := ⟨Sample.reencodes.armoured, Sample.reencodes.same⟩
    have decoded : (decodeImportRequest Sample.session Sample.value CertRenewer.Sample.start).1 = .ok Sample.request := by
      decide +kernel
    exact ⟨Sample.value, Sample.request, encoded, decoded, ran Sample.peers Sample.session Sample.config
      (Worker.begin_ .renew) CertRenewer.Sample.start Sample.request Sample.request Sample.plan Sample.value rfl rfl
      (by decide +kernel) rfl reencodes file (by decide +kernel) encoded decoded⟩

end CertRenewer.Wire
