import CertRenewer.Checks
import CertRenewer.Json
import CertRenewer.Text

/-!
# Container vulnerability reports

`scripts/compare_container_vulnerabilities.py` up to `normalize_findings`: the
HIGH and CRITICAL findings of a Trivy report, by an identity that does not
depend on the image that was scanned. Everything that is not as expected is an
`InvalidReportError`.
-/

namespace CertRenewer.Gate

structure InvalidReportError where
  message : String
  deriving DecidableEq, Repr

abbrev Checked := Except InvalidReportError

def invalid {α : Type} (message : String) : Checked α := .error ⟨message⟩

/-- `BLOCKING_SEVERITIES`. -/
inductive Severity where
  | critical
  | high
  deriving DecidableEq, Repr

def Severity.parse : String → Option Severity
  | "CRITICAL" => some .critical
  | "HIGH" => some .high
  | _ => none

/-- `SEVERITY_ORDER`. -/
def Severity.order : Severity → Nat
  | .critical => 0
  | .high => 1

/-- A component identity stable across derivative and upstream artifacts. -/
structure FindingIdentity where
  resultClass : String
  resultType : String
  target : String
  vulnerabilityId : String
  packageName : String
  packageId : String
  packagePath : String
  installedVersion : String
  deriving DecidableEq, Repr

structure Finding where
  identity : FindingIdentity
  severity : Severity
  fixedVersion : String
  deriving DecidableEq, Repr

namespace FindingIdentity

/-- The tuple that orders identities. -/
def fields (i : FindingIdentity) : List String :=
  [i.resultClass, i.resultType, i.target, i.vulnerabilityId, i.packageName, i.packageId,
    i.packagePath, i.installedVersion]

theorem fields_injective : Function.Injective fields := by
  rintro ⟨_, _, _, _, _, _, _, _⟩ ⟨_, _, _, _, _, _, _, _⟩ h
  simpa [fields] using h

instance : LinearOrder FindingIdentity := LinearOrder.lift' fields fields_injective

end FindingIdentity

/-- A dictionary of findings by identity. -/
abbrev Findings := Finmap fun _ : FindingIdentity => Finding

/-! ## Reading a report -/

abbrev Fields := List (String × Json)

def requiredText (value : Option Json) (description : String) : Checked String :=
  match value with
  | some (.string text) => do
    check (text ≠ "") ⟨s!"{description} must be non-empty text"⟩
    .ok text
  | _ => invalid s!"{description} must be non-empty text"

def optionalText (container : Fields) (key description : String) : Checked String :=
  match container.lookup key with
  | none => .ok ""
  | some (.string text) => .ok text
  | some _ => invalid s!"{description} must be text when present"

/-- The target of an operating-system result names the scanned image; this is
what derivative and upstream share in its place. -/
def osTarget (report : Fields) : Checked String :=
  match report.lookup "Metadata" with
  | some (.object metadata) =>
    match metadata.lookup "OS" with
    | some (.object system) => do
      let family ← requiredText (system.lookup "Family") "Metadata.OS.Family"
      let name ← requiredText (system.lookup "Name") "Metadata.OS.Name"
      .ok s!"os:{family}/{name}"
    | _ => invalid "OS findings require object Metadata.OS"
  | _ => invalid "OS findings require object Metadata"

/-- Where a vulnerability was found. -/
structure Context where
  resultClass : String
  resultType : String
  target : String
  deriving DecidableEq, Repr

def readContext (report result : Fields) : Checked Context := do
  let target ← requiredText (result.lookup "Target") "result Target"
  let resultClass ← requiredText (result.lookup "Class") "result Class"
  let resultType ← requiredText (result.lookup "Type") "result Type"
  let stableTarget ← if resultClass = "os-pkgs" then osTarget report else .ok target
  .ok ⟨resultClass, resultType, stableTarget⟩

/-- What a record of a result says, once it is an object. -/
def readFields (role : String) (context : Context) (vulnerability : Fields) : Checked Finding := do
  let severity ← requiredText (vulnerability.lookup "Severity") "finding Severity"
  let severity ← match Severity.parse severity with
    | some severity => .ok severity
    | none => invalid s!"{role} report contains a finding outside the requested HIGH/CRITICAL severity scope"
  let vulnerabilityId ←
    requiredText (vulnerability.lookup "VulnerabilityID") "finding VulnerabilityID"
  let packageName ← requiredText (vulnerability.lookup "PkgName") "finding PkgName"
  let packageId ← optionalText vulnerability "PkgID" "finding PkgID"
  let packagePath ← optionalText vulnerability "PkgPath" "finding PkgPath"
  let installedVersion ←
    requiredText (vulnerability.lookup "InstalledVersion") "finding InstalledVersion"
  let fixedVersion ← optionalText vulnerability "FixedVersion" "finding FixedVersion"
  .ok {
    identity := {
      resultClass := context.resultClass
      resultType := context.resultType
      target := context.target
      vulnerabilityId := vulnerabilityId
      packageName := packageName
      packageId := packageId
      packagePath := packagePath
      installedVersion := installedVersion }
    severity := severity
    fixedVersion := fixedVersion }

def readFinding (role : String) (context : Context) (resultIndex findingIndex : Nat)
    (vulnerability : Json) : Checked Finding :=
  match vulnerability with
  | .object fields => readFields role context fields
  | _ => invalid s!"{role} result {resultIndex} finding {findingIndex} must be an object"

/-- A finding that was read before must be read the same again. -/
def record (role : String) (normalized : Findings) (finding : Finding) : Checked Findings := do
  match normalized.lookup finding.identity with
  | some previous =>
    check (previous = finding) ⟨s!"{role} report contains conflicting duplicate findings"⟩
  | none => .ok ()
  .ok (normalized.insert finding.identity finding)

def readVulnerabilities (role : String) (resultIndex : Nat) (result : Fields) :
    Checked (List Json) :=
  match result.lookup "Vulnerabilities" with
  | none => .ok []
  | some (.array vulnerabilities) => .ok vulnerabilities
  | some _ => invalid s!"{role} result {resultIndex} Vulnerabilities must be an array"

def normalizeResult (role : String) (report : Fields) (normalized : Findings)
    (entry : Json × Nat) : Checked Findings :=
  let (result, index) := entry
  match result with
  | .object fields => do
    let context ← readContext report fields
    let vulnerabilities ← readVulnerabilities role index fields
    vulnerabilities.zipIdx.foldlM (fun normalized (vulnerability, findingIndex) => do
      let finding ← readFinding role context index findingIndex vulnerability
      record role normalized finding) normalized
  | _ => invalid s!"{role} result {index} must be an object"

/-- The checks on the report as a whole. -/
def readResults (role : String) (report : Fields) : Checked (List Json) := do
  check ((report.lookup "SchemaVersion").any Json.equalsTwo)
    ⟨s!"{role} report does not use Trivy schema version 2"⟩
  match report.lookup "ArtifactType" with
  | some (.string "container_image") => .ok ()
  | _ => invalid s!"{role} report is not a container-image report"
  match report.lookup "Results" with
  | none => invalid s!"{role} report is missing Results"
  | some (.array results) => do
    check (results ≠ []) ⟨s!"{role} report Results must not be empty"⟩
    .ok results
  | some _ => invalid s!"{role} report Results must be an array"

def normalizeFindings (report : Json) (role : String) : Checked Findings :=
  match report with
  | .object fields => do
    let results ← readResults role fields
    results.zipIdx.foldlM (normalizeResult role fields) ∅
  | _ => invalid s!"{role} report must be a JSON object"

end CertRenewer.Gate
