import CertRenewer.Protocol
import CertRenewer.Text

/-!
# Keytool listings

`_parse_collection` of `unifi_executor.py` and `parse_keytool_metadata` of
`unifi_client.py`, on the text keytool prints. Sections are split where a line
after LF starts with `Alias name: `; names, metadata and certificates are read
from the lines of `splitlines`, which end at other characters too.
-/

namespace CertRenewer.Keytool

open Text

def maxMetadataValueChars : Nat := 256
def expectedAlias : List Char := "unifi".toList
def expectedEntryType : List Char := "PrivateKeyEntry".toList

/-! ## Metadata -/

/-- `_validate_metadata_value`. -/
def validateMetadataValue (value : List Char) (label : String) : Result Unit := do
  require (value ≠ []) s!"{label} must not be empty"
  require (value.length ≤ maxMetadataValueChars) s!"{label} exceeds the size limit"
  require (!value.any fun c => decide (c.toNat < 32) || c.toNat == 127) s!"{label} contains control characters"

/-- `_optional_single_value`. -/
def optionalSingleValue (occurrences : List (List Char)) (label : String) : Result (Option (List Char)) :=
  match occurrences with
  | [] => .ok none
  | [value] => do
    validateMetadataValue value label
    .ok (some value)
  | _ => fail s!"{label} metadata is duplicated"

/-- `_require_single_value`. -/
def requireSingleValue (occurrences : List (List Char)) (label : String) : Result (List Char) := do
  orFail (← optionalSingleValue occurrences label) s!"{label} metadata is missing"

/-- `line.partition(":")`, when there is a colon. -/
def partitionColon (line : List Char) : Option (List Char × List Char) :=
  match line.span (· ≠ ':') with
  | (label, _ :: value) => some (label, value)
  | _ => none

/-- The values collected for one alias. -/
structure Section where
  aliasName : List Char
  entryTypes : List (List Char)
  chainLengths : List (List Char)
  deriving DecidableEq, Repr

/-- The values collected so far, the current alias first. -/
structure Collected where
  types : List (List Char)
  providers : List (List Char)
  sections : List Section
  deriving DecidableEq, Repr

def keystoreType : List Char := "Keystore type".toList
def keystoreProvider : List Char := "Keystore provider".toList
def aliasName : List Char := "Alias name".toList
def entryType : List Char := "Entry type".toList
def chainLength : List Char := "Certificate chain length".toList

/-- What a line with this label adds. -/
def addValue (c : Collected) (label value : List Char) : Collected :=
  if label = keystoreType then { c with types := c.types ++ [value] }
  else if label = keystoreProvider then { c with providers := c.providers ++ [value] }
  else if label = aliasName then { c with sections := ⟨value, [], []⟩ :: c.sections }
  else
    match c.sections with
    | [] => c
    | current :: others =>
      if label = entryType then
        { c with sections := { current with entryTypes := current.entryTypes ++ [value] } :: others }
      else if label = chainLength then
        { c with sections := { current with chainLengths := current.chainLengths ++ [value] } :: others }
      else c

def addLine (c : Collected) (line : List Char) : Collected :=
  match partitionColon line with
  | some (label, value) => addValue c (strip label) (strip value)
  | none => c

/-- The sections of the expected alias. Each name is checked on the way. -/
def matchingSections : List Section → Result (List Section)
  | [] => .ok []
  | s :: rest => do
    validateMetadataValue s.aliasName "alias name"
    let others ← matchingSections rest
    .ok (if s.aliasName = expectedAlias then s :: others else others)

/-- What is read of the one section of the alias. -/
def readSection (s : Section) : Result AliasMetadata := do
  validateMetadataValue s.aliasName "alias name"
  let entry ← requireSingleValue s.entryTypes "entry type"
  require (entry = expectedEntryType) "expected alias does not contain a PrivateKeyEntry"
  let digits ← requireSingleValue s.chainLengths "certificate chain length"
  require (digits.all fun c => '0' ≤ c && c ≤ '9') "certificate chain length is not a valid integer"
  let length := Nat.ofDigitChars 10 digits 0
  require (1 ≤ length) "certificate chain length must be positive"
  .ok ⟨.ofList s.aliasName, .ofList entry, length⟩

def readCollected (c : Collected) : Result (KeystoreMetadata × AliasMetadata) := do
  let type ← requireSingleValue c.types "keystore type"
  let provider ← requireSingleValue c.providers "keystore provider"
  match ← matchingSections c.sections.reverse with
  | [] => fail "expected alias is missing"
  | [s] =>
    let metadata ← readSection s
    .ok (⟨.ofList type, .ofList provider⟩, metadata)
  | _ => fail "expected alias metadata is duplicated"

/-- `parse_keytool_metadata`. -/
def parseKeytoolMetadata (output : List Char) : Result (KeystoreMetadata × AliasMetadata) := do
  require (output ≠ []) "keytool output must not be empty"
  require (output.length ≤ maxKeytoolOutputChars) "keytool output exceeds the size limit"
  readCollected ((splitlines output).foldl addLine ⟨[], [], []⟩)

/-! ## Sections -/

def marker : List Char := "Alias name: ".toList

/-- `re.split` at the marker: the characters of the marker still to be skipped,
whether a line starts here, and the part read so far. -/
def sectionsFrom : Nat → Bool → List Char → List Char → List (List Char)
  | _, _, part, [] => [part]
  | skip + 1, _, part, _ :: rest => sectionsFrom skip false part rest
  | 0, start, part, c :: rest =>
    if start && marker.isPrefixOf (c :: rest) then part :: sectionsFrom 11 false [] rest
    else sectionsFrom 0 (c == '\n') (part ++ [c]) rest

def sections (text : List Char) : List (List Char) := sectionsFrom 0 true [] text

/-- The sections with this first line. A section without lines is an error. -/
def namedSections : List (List Char) → Result (List (List Char))
  | [] => .ok []
  | part :: rest => do
    let first ← orFail (splitlines part).head? "list index out of range"
    let others ← namedSections rest
    .ok (if first = expectedAlias then part :: others else others)

/-- The preamble and the one section of the alias. -/
def selected (text : List Char) : Result (List Char) :=
  match sections text with
  | [] => fail "expected alias is missing or duplicated"
  | preamble :: parts => do
    match ← namedSections parts with
    | [part] => .ok (preamble ++ marker ++ part)
    | _ => fail "expected alias is missing or duplicated"

/-! ## Certificates -/

def beginCertificate : List Char := "-----BEGIN CERTIFICATE-----".toList
def endCertificate : List Char := "-----END CERTIFICATE-----".toList

/-- `[A-Za-z0-9+/=]{1,128}`. -/
def encodedLine (line : List Char) : Bool :=
  decide (1 ≤ line.length ∧ line.length ≤ 128) && line.all fun c => c.isAlphanum || c == '+' || c == '/' || c == '='

/-- The blocks of the lines, after those of the current block. -/
def blocksFrom : Option (List (List Char)) → List (List Char) → Result (List (List (List Char)))
  | none, [] => .ok []
  | some _, [] => fail "unterminated public certificate block"
  | current, line :: rest =>
    let line := strip line
    if line = beginCertificate then
      match current with
      | some _ => fail "nested public certificate block"
      | none => blocksFrom (some [line]) rest
    else if line = endCertificate then
      match current with
      | none => fail "unexpected public certificate terminator"
      | some lines => do
        let others ← blocksFrom none rest
        .ok ((lines ++ [line]) :: others)
    else
      match current with
      | none => blocksFrom none rest
      | some lines => do
        require (encodedLine line = true) "invalid public certificate encoding"
        blocksFrom (some (lines ++ [line])) rest

/-- The bytes of a block: its lines, joined. -/
def blockBytes (lines : List (List Char)) : Bytes :=
  (['\n'].intercalate lines).map fun c => .ofNat c.toNat

/-- The text a state keeps of the metadata. -/
def render (store : KeystoreMetadata) (entry : AliasMetadata) : String :=
  "Keystore type: " ++ store.keystoreType ++ "\nKeystore provider: " ++ store.provider ++
    "\nAlias name: " ++ entry.aliasName ++ "\nEntry type: " ++ entry.entryType ++
    "\nCertificate chain length: " ++ toString entry.certificateChainLength ++ "\n"

/-- `_parse_collection` after the one alias is selected. -/
def readSelected (lib : Library) (text : List Char) : Result PublicKeystoreState := do
  let (store, entry) ← parseKeytoolMetadata text
  let blocks ← blocksFrom none (splitlines text)
  require (1 ≤ blocks.length ∧ blocks.length ≤ 10) "invalid public certificate collection"
  let chain ← blocks.mapM fun block => do
    match lib.loadPem (blockBytes block) with
    | some (c :: _) => .ok c.der
    | _ => fail "Unable to load PEM file"
  .ok ⟨render store entry, chain⟩

/-- `_parse_collection`, before it inspects its result. -/
def scanCollection (lib : Library) (data : Bytes) : Result PublicKeystoreState := do
  require (data.length ≤ maxKeytoolOutputChars) "public collection exceeds limit"
  let text ← orFail (decodeUtf8 data) "invalid UTF-8"
  readSelected lib (← selected text)

/-- The library with the program's own readers of keytool output. -/
def reading (lib : Library) : Library := { lib with
  keytoolMetadata output := parseKeytoolMetadata output.toList
  scanCollection := scanCollection lib }

end CertRenewer.Keytool
