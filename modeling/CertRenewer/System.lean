import CertRenewer.Protocol

/-!
# Runs

The executor serves operations one after another, each in a new executor
object, under whatever the outside does to it; in between the power can fail,
the service can come and go, and a lock that was kept can be given up. The host
code stays the same; policy and outside are each operation's own.
-/

namespace CertRenewer

open Crash

inductive Operation where
  | inspect
  | generateCsr (policy : CertificatePolicy)
  | install (request : CertificateImportRequest)
  | verifyPending
  | recover (startup : Bool)
  | message (message : Option Json)

def execute (x : Session) : Operation → Exec Unit
  | .inspect => do let _ ← inspectPublicState x
  | .generateCsr policy => do let _ ← generateCsr x policy
  | .install request => do let _ ← installCertificate x request
  | .verifyPending => do let _ ← verifyPending x
  | .recover startup => do let _ ← recover x startup
  | .message value => do let _ ← handle x value

/-- What can happen next. An operation ends as its oracle decides: it returns,
raises, or is cut off. -/
inductive Move where
  | operate (x : Session) (o : Operation)
  | powerLoss (kept : List Bool) (torn : Nat → Content) (service : Service)
  | environment (service : Service) (held : Bool)

/-- A new executor object. -/
def World.fresh (w : World) : World := { w with process := {} }

def Move.apply : Move → World → World
  | .operate x o, w => (execute x o w.fresh).2
  | .powerLoss kept torn service, w =>
    { w.fresh with disk := w.disk.lose kept torn, service := service, held := false }
  | .environment service held, w => { w.fresh with service := service, held := held }

def run (moves : List Move) (w : World) : World := moves.foldl (fun w m => m.apply w) w

/-- The moves of an installation of this program. -/
def Move.On (host : Host) : Move → Prop
  | .operate x _ => x.host = host
  | _ => True

def Move.Powered : Move → Prop
  | .powerLoss _ _ _ => False
  | _ => True

/-- The moves of the executor service: it serves messages, and recovers when
it starts. -/
def Move.Served : Move → Prop
  | .operate _ (.message _) => True
  | .operate _ (.recover true) => True
  | .operate _ _ => False
  | _ => True

/-- What every move keeps, every run keeps. -/
theorem run_keeps {I : World → Prop} {moves : List Move} {w : World} (start : I w)
    (step : ∀ m ∈ moves, ∀ w, I w → I (m.apply w)) : I (run moves w) := by
  induction moves generalizing w with
  | nil => exact start
  | cons m rest ih =>
    have first : I (m.apply w) := step m (by simp) w start
    exact ih first fun m' hm w' hw => step m' (by simp [hm]) w' hw

/-! ## A host to run on

A small host on which whole runs can be evaluated: a certificate is known by its
DER bytes, a store by its leaf. -/

def Sample.certificate (der spki : Bytes) (ca : Bool) : Certificate where
  der := der
  pem := der
  subject := "CN=u"
  issuer := "CN=ca"
  serialNumber := 1
  notValidBefore := 0
  notValidAfter := microsecondsPerDay
  spki := spki
  publicKey := some (.rsa, some 2048)
  subjectAlternativeName := some [.dns "u"]
  subjectKeyIdentifier := none
  signatureAlgorithmOid := [1]
  signatureHash := some (some .sha256)
  basicConstraintsCa := some ca
  extendedKeyUsage := some [serverAuth]
  keyUsage := some ⟨true, false, true, false, false, ca, false⟩

def Sample.load (data : Bytes) : Option Certificate :=
  if data = [1] then some (certificate [1] [7] false)
  else if data = [2, 2] then some (certificate [2, 2] [8] true)
  else if data = [3, 3, 3] then some (certificate [3, 3, 3] [7] false)
  else none

def Sample.library : Library where
  sha256 data := .ofNat 256 data.length
  ipAddress _ := none
  ipText _ := ""
  loadDer := load
  loadPem data := (load data).map fun c => [c]
  loadCsr _ := some ⟨"CN=u", [7], some (.rsa, some 2048), some [.dns "u"], none,
    [1, 2, 840, 113549, 1, 1, 12], some (some .sha384), true⟩
  selfIssued _ := true
  verifiesPath _ _ _ _ := true
  rfc4514 subject := some subject
  certificatePem _ := true
  trustPem _ := true
  csrEnvelope _ := true
  keytoolMetadata _ := .ok (⟨"PKCS12", "SUN"⟩, ⟨"", "", 2⟩)
  scanCollection output := .ok ⟨"", [output, [2, 2]]⟩
  unsafeCategory _ := false

/-- keytool lists a store as its leaf. -/
def Sample.host : Host where
  lib := library
  listing
    | .store bytes => some bytes
    | _ => none

def Sample.policy : RenewalPolicy := ⟨0, "CN=u", ["u"], [], [2, 2], 1, .sha256, [1]⟩

def Sample.oracle (trouble : List (Nat × Verdict)) : Oracle where
  verdict n := (trouble.lookup n).getD .proceed
  clock _ := 0
  lingers _ := false
  partly _ := []
  encodedSize _ := 1
  imported _ := ⟨.store [3, 3, 3], 1⟩
  csrOutput _ := [0]
  served _ := some [3, 3, 3]

def Sample.session (trouble : List (Nat × Verdict)) : Session := ⟨host, policy, oracle trouble⟩

def Sample.request : CertificateImportRequest where
  before := ⟨"", [[1], [2, 2]]⟩
  policy := ⟨some 1, "CN=u", ["u"], []⟩
  csrPem := [0]
  issuedCertificate := [3, 3, 3]
  issuance := ⟨[2, 2], 1, .sha256, [1], 0⟩

/-- The message that asks for it. -/
def Sample.message : Json := .object [
  ("version", .int 2),
  ("operation", .string "install"),
  ("arguments", .object [
    ("policy_digest", .string "0000000000000000000000000000000000000000000000000000000000000000"),
    ("request", .object [
      ("before", .object [
        ("keytool_output", .string ""),
        ("certificate_chain_der", .array [.string "AQ==", .string "AgI="])]),
      ("csr_pem", .string "AA=="),
      ("issued_certificate", .string "AwMD")])])]

/-- Only the keystore is there. -/
def Sample.dir : Dir Name where
  durable n := if n = .canonical then some 0 else none
  pending := []
  next := 1
  fresh image h n i hi := by
    rw [(isImage_nil _ _).mp h] at hi
    simp only at hi
    split at hi
    · cases hi
      decide
    · cases hi

def Sample.start : World where
  disk := ⟨0, fun _ => ⟨0, true, 0o600, abc, abc, 1, 0, 0, .store [1], .store [1]⟩, dir⟩
  service := ⟨true, true, false⟩
  process := {}
  held := false
  uuids := 0
  tick := 0
  trace := []

end CertRenewer
