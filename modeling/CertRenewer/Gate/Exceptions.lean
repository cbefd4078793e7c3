import CertRenewer.Gate.Report

/-!
# The exception registry

`load_exceptions` and what it reads: a registry of reviewed findings, each bound
to one upstream image and one platform and for at most ninety days.
-/

namespace CertRenewer.Gate

/-- A calendar date, in the order of its fields. -/
structure Date where
  year : Nat
  month : Nat
  day : Nat
  deriving DecidableEq, Repr

namespace Date

def fields (d : Date) : List Nat := [d.year, d.month, d.day]

theorem fields_injective : Function.Injective fields := by
  rintro ⟨_, _, _⟩ ⟨_, _, _⟩ h
  simpa [fields] using h

instance : LinearOrder Date := LinearOrder.lift' fields fields_injective

def leap (year : Nat) : Bool := year % 4 == 0 && (year % 100 != 0 || year % 400 == 0)

def daysInMonth (year month : Nat) : Nat :=
  if month = 2 then (if leap year then 29 else 28)
  else if month ∈ [4, 6, 9, 11] then 30
  else 31

/-- `date.toordinal`. -/
def toOrdinal (d : Date) : Nat :=
  let y := d.year - 1
  y * 365 + y / 4 - y / 100 + y / 400 +
    ((List.range (d.month - 1)).map fun m => daysInMonth d.year (m + 1)).sum + d.day

/-- `date.fromisoformat` on a text of the form `YYYY-MM-DD`. -/
def ofParts (year month day : Nat) : Option Date :=
  if 1 ≤ year ∧ 1 ≤ month ∧ month ≤ 12 ∧ 1 ≤ day ∧ day ≤ daysInMonth year month then
    some ⟨year, month, day⟩
  else none

end Date

structure ImageException where
  identifier : String
  upstreamImage : String
  platform : String
  finding : Finding
  owner : String
  reviewedBy : String
  reviewedOn : Date
  expiresOn : Date
  trackingUrl : String
  exposure : String
  reason : String
  mitigation : String
  deriving DecidableEq, Repr

/-- What is outside the comparator: `dpkg --compare-versions` (`none` when it
cannot be run, else its exit status and whether it wrote to its error output),
what `urlsplit` makes of a network location it cannot accept, and the date. -/
structure Tools where
  dpkg : String → String → Option (Int × Bool)
  netlocAccepted : String → Bool
  today : Date

/-! ## Texts -/

/-- The text is its own `strip`. -/
def stripped (text : List Char) : Bool :=
  !(text.head?.any Text.isSpace) && !(text.getLast?.any Text.isSpace)

def reviewText (value : Option Json) (description : String) (empty : Bool) : Checked String :=
  match value with
  | some (.string text) => do
    let characters := text.toList
    check (characters.length ≤ 2048 ∧ stripped characters = true ∧ (empty = true ∨ characters ≠ []) ∧
        ¬(characters.any fun c => c.toNat < 32 || c.toNat == 127) = true)
      ⟨s!"{description} must be bounded plain text"⟩
    .ok text
  | _ => invalid s!"{description} must be bounded plain text"

def reviewDate (value : Option Json) (description : String) : Checked Date :=
  match value with
  | some (.string text) =>
    match text.toList with
    | [a, b, c, d, '-', e, f, '-', g, h] => do
      check ([a, b, c, d, e, f, g, h].all Char.isDigit = true) ⟨s!"{description} must be a YYYY-MM-DD date"⟩
      match Date.ofParts (Json.natural [a, b, c, d]) (Json.natural [e, f]) (Json.natural [g, h]) with
      | some date => .ok date
      | none => invalid s!"{description} is not a calendar date"
    | _ => invalid s!"{description} must be a YYYY-MM-DD date"
  | _ => invalid s!"{description} must be a YYYY-MM-DD date"

/-- `PINNED_IMAGE.fullmatch`. -/
def pinnedImage (text : String) : Bool :=
  let (name, digest) := text.toList.span (· != '@')
  let digits := digest.drop 8
  name.head?.any Char.isAlphanum && name.all (fun c => c.isAlphanum || "._:/-".toList.contains c) &&
    digest.take 8 == "@sha256:".toList && digits.length == 64 &&
    digits.all fun c => ('a' ≤ c && c ≤ 'f') || c.isDigit

/-- `PLATFORM.fullmatch`. -/
def exactPlatform (text : String) : Bool :=
  let plain part := !part.isEmpty && part.all fun c => c.isLower || c.isDigit
  match text.toList.splitOn '/' with
  | [os, machine] => os == "linux".toList && plain machine
  | [os, machine, variant] => os == "linux".toList && plain machine && plain variant
  | _ => false

def scanContext (upstreamImage platform : String) : Checked Unit := do
  check (pinnedImage upstreamImage = true) ⟨"exception context requires a digest-pinned upstream image"⟩
  check (exactPlatform platform = true) ⟨"exception context requires an exact Linux platform"⟩

/-- `EX-[A-Z0-9][A-Z0-9-]{0,63}`. -/
def exceptionIdentifier (text : String) : Bool :=
  match text.toList with
  | 'E' :: 'X' :: '-' :: first :: rest =>
    (first.isUpper || first.isDigit) && rest.length ≤ 63 &&
      rest.all fun c => c.isUpper || c.isDigit || c == '-'
  | _ => false

/-- `urlsplit` finds an HTTPS scheme, a host, and neither user nor password. A
reviewed text has nothing that `urlsplit` would strip. -/
def httpsLink (tools : Tools) (text : String) : Bool :=
  let (scheme, rest) := text.toList.span (· != ':')
  match rest with
  | ':' :: '/' :: '/' :: rest =>
    let netloc := rest.takeWhile fun c => c != '/' && c != '?' && c != '#'
    let userinfo := (netloc.reverse.dropWhile (· != '@')).reverse
    let host := (netloc.reverse.takeWhile (· != '@')).reverse
    -- a bracketed host ends at its bracket, any other at its port
    let hostname := match host.dropWhile (· != '[') with
      | _ :: bracketed => bracketed.takeWhile (· != ']')
      | [] => host.takeWhile (· != ':')
    scheme.map Char.toLower == "https".toList && (netloc.contains '[' == netloc.contains ']') &&
      tools.netlocAccepted (String.ofList netloc) && !hostname.isEmpty &&
      (userinfo == [] || userinfo == ['@'] || userinfo == [':', '@'])
  | _ => false

/-! ## Entries -/

def exactFields (value : Option Json) (expected : List String) (description : String) :
    Checked Fields :=
  match value with
  | some (.object fields) => do
    check ((∀ name ∈ fields.map Prod.fst, name ∈ expected) ∧
      ∀ name ∈ expected, name ∈ fields.map Prod.fst)
      ⟨s!"{description} has missing or unexpected fields"⟩
    .ok fields
  | _ => invalid s!"{description} has missing or unexpected fields"

def recordFields : List String :=
  ["identifier", "upstream_image", "platform", "finding", "owner", "reviewed_by", "reviewed_on",
    "expires_on", "tracking_url", "exposure", "reason", "mitigation"]

def identityFields : List String :=
  ["result_class", "result_type", "target", "vulnerability_id", "package_name", "package_id",
    "package_path", "installed_version"]

def readExceptedIdentity (value : Option Json) : Checked FindingIdentity := do
  let raw ← exactFields value identityFields "exception finding identity"
  let text (key : String) (empty : Bool) := reviewText (raw.lookup key) s!"exception finding {key}" empty
  let resultClass ← text "result_class" false
  let resultType ← text "result_type" false
  let target ← text "target" false
  let vulnerabilityId ← text "vulnerability_id" false
  let packageName ← text "package_name" false
  let packageId ← text "package_id" true
  let packagePath ← text "package_path" true
  let installedVersion ← text "installed_version" false
  .ok ⟨resultClass, resultType, target, vulnerabilityId, packageName, packageId, packagePath,
    installedVersion⟩

def readExceptedFinding (value : Option Json) : Checked Finding := do
  let data ← exactFields value ["identity", "severity", "fixed_version"] "exception finding"
  let identity ← readExceptedIdentity (data.lookup "identity")
  let severity ← reviewText (data.lookup "severity") "exception severity" false
  let severity ← match Severity.parse severity with
    | some severity => .ok severity
    | none => invalid "exceptions apply only to HIGH/CRITICAL findings"
  let fixedVersion ← reviewText (data.lookup "fixed_version") "exception fixed_version" false
  .ok ⟨identity, severity, fixedVersion⟩

/-- One entry of the registry, by itself. -/
def readException (tools : Tools) (raw : Json) : Checked ImageException := do
  let entry ← exactFields (some raw) recordFields "exception"
  let text (key : String) := reviewText (entry.lookup key) s!"exception {key}" false
  let identifier ← text "identifier"
  let upstreamImage ← text "upstream_image"
  let platform ← text "platform"
  let owner ← text "owner"
  let reviewedBy ← text "reviewed_by"
  let trackingUrl ← text "tracking_url"
  let exposure ← text "exposure"
  let reason ← text "reason"
  let mitigation ← text "mitigation"
  check (exceptionIdentifier identifier = true) ⟨"exception identifier must start with EX- and be unique"⟩
  scanContext upstreamImage platform
  check (httpsLink tools trackingUrl = true) ⟨"exception tracking_url must be an HTTPS remediation link"⟩
  let finding ← readExceptedFinding (entry.lookup "finding")
  let reviewedOn ← reviewDate (entry.lookup "reviewed_on") "reviewed_on"
  let expiresOn ← reviewDate (entry.lookup "expires_on") "expires_on"
  check (¬(tools.today < reviewedOn ∨ expiresOn ≤ tools.today))
    ⟨"exception review is in the future or has expired"⟩
  let days : Int := expiresOn.toOrdinal - reviewedOn.toOrdinal
  check (0 < days ∧ days ≤ 90) ⟨"exception lifetime must be between 1 and 90 days"⟩
  .ok {
    identifier := identifier
    upstreamImage := upstreamImage
    platform := platform
    finding := finding
    owner := owner
    reviewedBy := reviewedBy
    reviewedOn := reviewedOn
    expiresOn := expiresOn
    trackingUrl := trackingUrl
    exposure := exposure
    reason := reason
    mitigation := mitigation }

def ImageException.scope (e : ImageException) : String × String × FindingIdentity :=
  (e.upstreamImage, e.platform, e.finding.identity)

/-- An entry repeats neither the identifier nor the scope of an earlier one. -/
def addException (tools : Tools) (result : List ImageException) (raw : Json) :
    Checked (List ImageException) := do
  let entry ← readException tools raw
  check (entry.identifier ∉ result.map ImageException.identifier ∧
      entry.scope ∉ result.map ImageException.scope)
    ⟨"duplicate exception identifier or finding scope"⟩
  .ok (result ++ [entry])

def readRegistry (tools : Tools) (policy : Json) : Checked (List ImageException) := do
  let fields ← exactFields (some policy) ["schema_version", "exceptions"] "exception registry"
  match fields.lookup "schema_version" with
  | some (.int 1) => .ok ()
  | _ => invalid "unsupported exception registry schema"
  let entries ← match fields.lookup "exceptions" with
    | some (.array entries) => do
      check (entries.length ≤ 256) ⟨"exception registry must contain at most 256 entries"⟩
      .ok entries
    | _ => invalid "exception registry must contain at most 256 entries"
  let result ← entries.foldlM (addException tools) []
  .ok (result.insertionSort fun a b => a.identifier ≤ b.identifier)

end CertRenewer.Gate
