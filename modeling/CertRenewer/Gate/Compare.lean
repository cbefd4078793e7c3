import CertRenewer.Gate.Exceptions
import CertRenewer.Gate.Normalized

/-!
# The comparison

`compare_reports`, `apply_exceptions` and `main`: which findings the derivative
image introduces, which it inherits, possibly at a newer Debian version, and
which it removes; and the exit status that follows.
-/

namespace CertRenewer.Gate

structure PackageUpgrade where
  upstream : Finding
  derivative : Finding
  deriving DecidableEq, Repr

structure Comparison where
  introduced : List Finding
  inherited : List Finding
  removed : List Finding
  accepted : List ImageException
  packageUpgrades : List PackageUpgrade
  deriving DecidableEq, Repr

/-! ## Order and upgrade scopes -/

/-- `_finding_sort_key`. -/
def findingSortKey (f : Finding) : Nat ×ₗ List String :=
  toLex (f.severity.order, [f.identity.vulnerabilityId, f.identity.packageName,
    f.identity.installedVersion, f.identity.resultClass, f.identity.resultType, f.identity.target,
    f.identity.packageId, f.identity.packagePath])

/-- Only canonical Debian package identifiers may match across versions; the
scope keeps every other field of the identity. -/
def debianUpgradeScope (i : FindingIdentity) : Option FindingIdentity :=
  if i.resultClass ≠ "os-pkgs" ∨ i.resultType ≠ "debian" ∨
      ¬ "os:debian/".toList <+: i.target.toList ∨
      i.packageId ≠ i.packageName ++ "@" ++ i.installedVersion then none
  else some { i with packageId := "", installedVersion := "" }

/-- The pattern `(?:[0-9]+:)?[0-9][A-Za-z0-9.+:~\-]*`, whose epoch is also a
digit followed by characters of the class. -/
def debianVersion (version : String) : Bool :=
  match version.toList with
  | first :: rest => first.isDigit && rest.all fun c => c.isAlphanum || ".+:~-".toList.contains c
  | [] => false

/-- Debian's own comparator decides which version is newer. -/
def debianVersionIncreased (tools : Tools) (derivative upstream : String) : Checked Bool := do
  check (derivative.toList.length ≤ 256 ∧ debianVersion derivative = true)
    ⟨"invalid Debian package version for comparison"⟩
  check (upstream.toList.length ≤ 256 ∧ debianVersion upstream = true)
    ⟨"invalid Debian package version for comparison"⟩
  match tools.dpkg derivative upstream with
  | none => invalid "Debian version comparison is unavailable"
  | some (returncode, stderr) => do
    check ((returncode = 0 ∨ returncode = 1) ∧ stderr = false)
      ⟨"Debian version comparison failed closed"⟩
    .ok (returncode == 0)

abbrev Groups := Finmap fun _ : FindingIdentity => List FindingIdentity

def addCandidate (groups : Groups) (identity : FindingIdentity) : Groups :=
  match debianUpgradeScope identity with
  | some scope => groups.insert scope ((groups.lookup scope).getD [] ++ [identity])
  | none => groups

def upgradeCandidates (identities : Finset FindingIdentity) : Groups :=
  identities.sort.foldl addCandidate ∅

/-! ## Comparing -/

/-- The three sets of identities and the upgrades found so far. -/
structure Sorting where
  introduced : Finset FindingIdentity
  inherited : Finset FindingIdentity
  removed : Finset FindingIdentity
  packageUpgrades : List PackageUpgrade

/-- `findings[key]`. -/
def fetch (findings : Findings) (key : FindingIdentity) : Checked Finding :=
  match findings.lookup key with
  | some finding => .ok finding
  | none => invalid "KeyError"

section
variable (tools : Tools) (derivative upstream : Findings)

/-- One scope that both reports have. Several versions make the attribution
ambiguous, and stay introduced. -/
def matchScope (s : Sorting) (scope : FindingIdentity) : Checked Sorting :=
  match (upgradeCandidates derivative.keys).lookup scope, (upgradeCandidates upstream.keys).lookup scope with
  | some [newKey], some [oldKey] =>
    if newKey ∉ s.introduced ∨ oldKey ∉ s.removed then .ok s
    else do
      let new ← fetch derivative newKey
      let old ← fetch upstream oldKey
      if (new.severity, new.fixedVersion) ≠ (old.severity, old.fixedVersion) then .ok s
      else do
        let increased ← debianVersionIncreased tools newKey.installedVersion oldKey.installedVersion
        if increased then
          .ok {
            introduced := s.introduced.erase newKey
            removed := s.removed.erase oldKey
            inherited := insert newKey s.inherited
            packageUpgrades := s.packageUpgrades ++ [⟨old, new⟩] }
        else .ok s
  | _, _ => .ok s

def sortedFindings (findings : Findings) (keys : Finset FindingIdentity) : Checked (List Finding) := do
  let found ← keys.sort.mapM (fetch findings)
  .ok (found.insertionSort fun a b => findingSortKey a ≤ findingSortKey b)

/-- The scopes with upgrade candidates in both reports, in the order the loop
takes them. -/
def sharedScopes (derivative upstream : Findings) : List FindingIdentity :=
  ((upgradeCandidates derivative.keys).keys ∩ (upgradeCandidates upstream.keys).keys).sort

/-- `compare_reports`, once both reports are normalised. -/
def compareFindings : Checked Comparison := do
  check (∀ key ∈ derivative.keys ∩ upstream.keys, derivative.lookup key = upstream.lookup key)
    ⟨"shared finding metadata differs between scan reports"⟩
  let scopes := (upgradeCandidates derivative.keys).keys ∩ (upgradeCandidates upstream.keys).keys
  let result ← scopes.sort.foldlM (matchScope tools derivative upstream) {
    introduced := derivative.keys \ upstream.keys
    inherited := derivative.keys ∩ upstream.keys
    removed := upstream.keys \ derivative.keys
    packageUpgrades := [] }
  let introduced ← sortedFindings derivative result.introduced
  let inherited ← sortedFindings derivative result.inherited
  let removed ← sortedFindings upstream result.removed
  .ok ⟨introduced, inherited, removed, [], result.packageUpgrades⟩

end

def compareReports (tools : Tools) (derivativeReport upstreamReport : Json) : Checked Comparison := do
  let derivative ← normalizeFindings derivativeReport "derivative"
  let upstream ← normalizeFindings upstreamReport "upstream"
  compareFindings tools derivative upstream

/-! ## The gate -/

def Comparison.unexceptedFixable (c : Comparison) : List Finding :=
  c.inherited.filter fun f => f.fixedVersion ≠ "" ∧ f ∉ c.accepted.map ImageException.finding

def Comparison.blocked (c : Comparison) : Bool := !(c.introduced.isEmpty && c.unexceptedFixable.isEmpty)

/-- Introduced findings are never eligible, even if someone lists them. -/
def applyExceptions (c : Comparison) (exceptions : List ImageException) (upstreamImage platform : String) :
    Checked Comparison := do
  scanContext upstreamImage platform
  .ok { c with accepted := exceptions.filter fun entry =>
    entry.upstreamImage = upstreamImage ∧ entry.platform = platform ∧ entry.finding ∈ c.inherited ∧
      entry.finding.fixedVersion ≠ "" }

/-- What `json.load` makes of a text: a value, or the first thing it raises. A
repeated key is met when its object ends, before the text can go wrong later. -/
inductive Reading where
  | value (value : Json)
  | repeated
  /-- `OSError`, `UnicodeError` or `json.JSONDecodeError`. -/
  | undecodable
  /-- `RecursionError`, or the plain `ValueError` of an integer with too many digits. -/
  | uncaught

/-- A file of the command line, its size when it can be found. -/
structure ReportFile where
  size : Option Nat
  reading : Reading

/-- What ends a comparison without a result. `main` catches only the first. -/
inductive Failure where
  | invalid (error : InvalidReportError)
  | uncaught

def raising {α : Type} : Checked α → Except Failure α
  | .ok a => .ok a
  | .error error => .error (.invalid error)

theorem raising_ok {α : Type} {x : Checked α} {a : α} : raising x = .ok a ↔ x = .ok a := by
  cases x <;> simp [raising]

theorem raising_ne_uncaught {α : Type} {x : Checked α} : raising x ≠ .error .uncaught := by
  cases x <;> simp [raising]

def maxReportBytes : Nat := 128 * 1024 * 1024

def maxExceptionBytes : Nat := 1024 * 1024

def loadReport (file : ReportFile) (role : String) (maximum : Nat) : Except Failure Json := do
  match file.size with
  | none => .error (.invalid ⟨s!"{role} report is not readable"⟩)
  | some size => do
    check (size ≠ 0) (.invalid ⟨s!"{role} report is empty"⟩)
    check (size ≤ maximum) (.invalid ⟨s!"{role} report exceeds the size limit"⟩)
  match file.reading with
  | .value value => do
    check (value.distinct = true) (.invalid ⟨"JSON contains a duplicate object key"⟩)
    match value with
    | .object _ => .ok value
    | _ => .error (.invalid ⟨s!"{role} report must be a JSON object"⟩)
  | .repeated => .error (.invalid ⟨"JSON contains a duplicate object key"⟩)
  | .undecodable => .error (.invalid ⟨s!"{role} report is not valid UTF-8 JSON"⟩)
  | .uncaught => .error .uncaught

structure Arguments where
  derivativeReport : ReportFile
  upstreamReport : ReportFile
  exceptions : Option ReportFile
  upstreamImage : String
  platform : String

def loadExceptions (tools : Tools) (file : ReportFile) : Except Failure (List ImageException) := do
  let policy ← loadReport file "exception" maxExceptionBytes
  raising (readRegistry tools policy)

def runComparison (tools : Tools) (arguments : Arguments) : Except Failure Comparison := do
  let derivative ← loadReport arguments.derivativeReport "derivative" maxReportBytes
  let upstream ← loadReport arguments.upstreamReport "upstream" maxReportBytes
  let comparison ← raising (compareReports tools derivative upstream)
  match arguments.exceptions with
  | none => .ok comparison
  | some file => do
    let exceptions ← loadExceptions tools file
    raising (applyExceptions comparison exceptions arguments.upstreamImage arguments.platform)

/-- The exit status of `main`, which is 1 too when Python prints a traceback. -/
def main (tools : Tools) (arguments : Arguments) : Nat :=
  match runComparison tools arguments with
  | .ok comparison => if comparison.blocked then 1 else 0
  | .error (.invalid _) => 2
  | .error .uncaught => 1

end CertRenewer.Gate
