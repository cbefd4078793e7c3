import CertRenewer.Checks
import CertRenewer.Text

/-!
# The status of a release signature

`approved_signature` of `scripts/verify_release_signature.py`. The status is a
line protocol whose lines end at LF and which carries free text, such as the
user name of a key. The code splits it with `str.splitlines`, which ends a line
at nine other characters as well.
-/

namespace CertRenewer.ReleaseSignature

open Text

abbrev Word := List Char

structure SignatureError where
  message : String
  deriving DecidableEq, Repr

abbrev Checked := Except SignatureError

def approvedPrimary : Word := "02EBB31CC0032A86C2C0401A1534542E61DC82D3".toList

def badStatus : List Word :=
  ["BADSIG", "ERRSIG", "EXPSIG", "EXPKEYSIG", "REVKEYSIG", "NO_PUBKEY", "KEYEXPIRED", "KEYREVOKED",
    "SIGEXPIRED", "FAILURE", "ERROR", "NODATA"].map String.toList

/-- `FINGERPRINT.fullmatch`. -/
def fingerprint (word : Word) : Bool :=
  word.length == 40 && word.all fun c => ('0' ≤ c && c ≤ '9') || ('A' ≤ c && c ≤ 'F')

def marker : List Char := "[GNUPG:] ".toList

/-- `line.removeprefix("[GNUPG:] ").split()`. -/
def fields (line : List Char) : List Word :=
  words (if marker.isPrefixOf line then line.drop marker.length else line)

def hasKeyword (keyword : String) (record : List Word) : Bool := record.head? == some keyword.toList

def wellFormed (line : List Char) : Bool :=
  marker.isPrefixOf line && (match fields line with
    | [] => false
    | keyword :: _ => !badStatus.contains keyword)

/-- `approved_signature`, once the status is split into lines. -/
def approveLines (lines : List (List Char)) : Checked Word := do
  let records := lines.map fields
  check (lines.all wellFormed = true) ⟨"signature verification reported an error"⟩
  match records.filter (hasKeyword "VALIDSIG") with
  | [record] => do
    check (record.length = 11 ∧ records.countP (hasKeyword "GOODSIG") = 1 ∧
        records.countP (hasKeyword "NEWSIG") = 1)
      ⟨"exactly one valid, current signature is required"⟩
    check (record[1]?.any fingerprint = true ∧ record[10]? = some approvedPrimary ∧
        (record[8]?.any fun hash => ["8", "9", "10"].any fun h => h.toList == hash) = true ∧
        record[9]? = some "00".toList)
      ⟨"signature is outside the approved signer or algorithm policy"⟩
    .ok approvedPrimary
  | _ => .error ⟨"exactly one valid, current signature is required"⟩

def approvedSignature (status : List UInt8) : Checked Word :=
  match decodeUtf8 status with
  | some text => approveLines (splitlines text)
  | none => .error ⟨"invalid signature status encoding"⟩

/-! ## The line protocol -/

/-- An approved signature record. -/
structure Approves (record : List Word) : Prop where
  size : record.length = 11
  signer : record[1]?.any fingerprint = true
  hash : record[8]? = some "8".toList ∨ record[8]? = some "9".toList ∨ record[8]? = some "10".toList
  textClass : record[9]? = some "00".toList
  primary : record[10]? = some approvedPrimary

/-- What the lines of an approved status are. -/
structure ApprovedLines (lines : List (List Char)) : Prop where
  marked : ∀ line ∈ lines, marker <+: line
  keyed : ∀ line ∈ lines, ∃ keyword, (fields line).head? = some keyword ∧ keyword ∉ badStatus
  good : (lines.map fields).countP (hasKeyword "GOODSIG") = 1
  new : (lines.map fields).countP (hasKeyword "NEWSIG") = 1
  valid : ∃ record, (lines.map fields).filter (hasKeyword "VALIDSIG") = [record] ∧ Approves record

/-- The status as its producer means it: the lines are those that LF ends. -/
def Approved (status : List UInt8) : Prop := ∃ text, decodeUtf8 status = some text ∧ ApprovedLines (lfLines text)

section
variable {lines lines' : List (List Char)} {line line' : List Char}

theorem wellFormed_iff : wellFormed line = true ↔
    marker <+: line ∧ ∃ keyword, (fields line).head? = some keyword ∧ keyword ∉ badStatus := by
  rw [wellFormed, Bool.and_eq_true, List.isPrefixOf_iff_prefix]
  cases fields line with
  | nil => simp
  | cons keyword rest => simp

theorem any_hash {hash : Option Word} :
    (hash.any fun hash => ["8", "9", "10"].any fun h => h.toList == hash) = true ↔
      hash = some "8".toList ∨ hash = some "9".toList ∨ hash = some "10".toList := by
  cases hash with
  | none => simp
  | some hash =>
    simp only [Option.any_some, List.any_cons, List.any_nil, Bool.or_false, Bool.or_eq_true, beq_iff_eq,
      Option.some.injEq]
    exact or_congr eq_comm (or_congr eq_comm eq_comm)

theorem approveLines_ok {primary : Word} :
    approveLines lines = .ok primary ↔ ApprovedLines lines ∧ primary = approvedPrimary := by
  simp only [approveLines, bind_eq_ok, check_ok, exists_const, any_hash]
  constructor
  · rintro ⟨all, run⟩
    have each (line : List Char) (member : line ∈ lines) :=
      wellFormed_iff.mp (List.all_eq_true.mp all line member)
    split at run
    · rename_i record one
      simp only [bind_eq_ok, check_ok, exists_const, Except.ok.injEq] at run
      obtain ⟨⟨size, good, new⟩, ⟨signer, primary, hash, textClass⟩, rfl⟩ := run
      exact ⟨⟨fun line member => (each line member).1, fun line member => (each line member).2, good, new,
        record, one, size, signer, hash, textClass, primary⟩, rfl⟩
    · cases run
  · rintro ⟨⟨marked, keyed, good, new, record, one, approves⟩, rfl⟩
    refine ⟨List.all_eq_true.mpr fun line member => ?_, ?_⟩
    · exact wellFormed_iff.mpr ⟨marked line member, keyed line member⟩
    · rw [one]
      simp only [bind_eq_ok, check_ok, exists_const]
      exact ⟨⟨approves.size, good, new⟩,
        ⟨approves.signer, approves.primary, approves.hash, approves.textClass⟩, trivial⟩

/-! ## Lines without other line breaks -/

/-- The text ends its lines at LF, or at CR LF, and nowhere else. -/
def PlainLines : List Char → Prop
  | [] => True
  | '\r' :: '\n' :: rest => PlainLines rest
  | c :: rest => (isLineBreak c = true → c = '\n') ∧ PlainLines rest

theorem plainLines_of_lf {text : List Char} (only : ∀ c ∈ text, isLineBreak c = true → c = '\n') :
    PlainLines text := by
  fun_induction PlainLines text with
  | case1 => trivial
  | case2 rest ih => exact ih fun c member => only c (by simp [member])
  | case3 c rest _ ih =>
    exact ⟨only c List.mem_cons_self, ih fun c member => only c (List.mem_cons_of_mem _ member)⟩

/-- A line and the same line with the CR of its end. -/
def SameLine (line line' : List Char) : Prop := line' = line ∨ line' = line ++ ['\r']

theorem SameLine.marked (h : SameLine line line') : marker.isPrefixOf line' = marker.isPrefixOf line := by
  rcases h with rfl | rfl
  · rfl
  · rw [Bool.eq_iff_iff, List.isPrefixOf_iff_prefix, List.isPrefixOf_iff_prefix]
    constructor
    · rintro ⟨rest, eq⟩
      rcases List.eq_nil_or_concat rest with rfl | ⟨front, last, rfl⟩
      · -- the marker does not end with CR
        have ends := congrArg List.getLast? eq
        rw [List.append_nil, List.getLast?_concat] at ends
        exact absurd ends (by decide)
      · rw [List.concat_eq_append, ← List.append_assoc] at eq
        exact ⟨front, (List.append_inj' eq rfl).1⟩
    · exact fun ⟨rest, eq⟩ => ⟨rest ++ ['\r'], by rw [← List.append_assoc, eq]⟩

theorem SameLine.fields (h : SameLine line line') : fields line' = fields line := by
  have marked := h.marked
  unfold ReleaseSignature.fields
  rw [marked]
  rcases h with rfl | rfl
  · rfl
  · have space : isSpace '\r' = true := by decide
    split
    · rename_i starts
      have long := (List.isPrefixOf_iff_prefix.mp starts).length_le
      rw [List.drop_append_of_le_length long, words_concat_space _ space]
    · rw [words_concat_space _ space]

theorem SameLine.wellFormed (h : SameLine line line') : wellFormed line' = wellFormed line := by
  unfold ReleaseSignature.wellFormed
  rw [h.marked, h.fields]

theorem approveLines_congr (h : List.Forall₂ SameLine lines lines') : approveLines lines' = approveLines lines := by
  have records : lines'.map fields = lines.map fields := by
    induction h with
    | nil => rfl
    | cons same _ ih => rw [List.map_cons, List.map_cons, ih, same.fields]
  have all : lines'.all wellFormed = lines.all wellFormed := by
    clear records
    induction h with
    | nil => rfl
    | cons same _ ih => rw [List.all_cons, List.all_cons, ih, same.wellFormed]
  unfold approveLines
  rw [records, all]

/-- Plain lines are the lines of both splitters. -/
theorem splitlines_plain {text : List Char} (line : List Char) (h : PlainLines text) :
    List.Forall₂ SameLine (linesFrom line text) (lfLinesFrom line text) := by
  fun_induction linesFrom line text with
  | case1 => exact .nil
  | case2 line some =>
    rw [lfLinesFrom, if_neg some]
    exact .cons (Or.inl rfl) .nil
  | case3 line rest ih =>
    simp only [PlainLines] at h
    exact .cons (Or.inr rfl) (ih h)
  | case4 line c rest other break_ ih =>
    rw [PlainLines] at h
    · obtain ⟨only, plain⟩ := h
      obtain rfl := only break_
      exact .cons (Or.inl rfl) (ih plain)
    · exact other
  | case5 line c rest other inside ih =>
    rw [PlainLines] at h
    · rw [lfLinesFrom, if_neg (by rintro rfl; exact inside (by decide))]
      exact ih h.2
    · exact other

end

/-! ## Where the two readings part -/

/-- The status read line by line as its producer ends them. -/
def approvedByLf (status : List UInt8) : Checked Word :=
  match decodeUtf8 status with
  | some text => approveLines (lfLines text)
  | none => .error ⟨"invalid signature status encoding"⟩

theorem approved_iff {status : List UInt8} : Approved status ↔ approvedByLf status = .ok approvedPrimary := by
  unfold Approved approvedByLf
  cases decodeUtf8 status with
  | none => simp
  | some text => simp [approveLines_ok]

/-- The code approves the status exactly when the line protocol does. -/
def Faithful (status : List UInt8) : Prop :=
  (∃ primary, approvedSignature status = .ok primary) ↔ Approved status

theorem approvedSignature_ok {status : List UInt8} :
    (∃ primary, approvedSignature status = .ok primary) ↔ approvedSignature status = .ok approvedPrimary := by
  unfold approvedSignature
  cases decodeUtf8 status with
  | none => simp
  | some text => simp [approveLines_ok]

/-- The other line breaks, with their encodings. -/
def otherBreaks : List (Char × List UInt8) :=
  [('\r', [13]), (Char.ofNat 11, [11]), (Char.ofNat 12, [12]), (Char.ofNat 28, [28]), (Char.ofNat 29, [29]),
    (Char.ofNat 30, [30]), (Char.ofNat 0x85, [0xc2, 0x85]), (Char.ofNat 0x2028, [0xe2, 0x80, 0xa8]),
    (Char.ofNat 0x2029, [0xe2, 0x80, 0xa9])]

theorem mem_otherBreaks {c : Char} (breaks : isLineBreak c = true) (other : c ≠ '\n') :
    ∃ encoding, (c, encoding) ∈ otherBreaks := by
  have code : c.toNat ∈ [10, 13, 11, 12, 28, 29, 30, 0x85, 0x2028, 0x2029] := by
    simp only [isLineBreak, Bool.or_eq_true, Bool.and_eq_true, decide_eq_true_eq, beq_iff_eq] at breaks
    simp only [List.mem_cons, List.not_mem_nil, or_false]
    omega
  have all : ∀ n ∈ [10, 13, 11, 12, 28, 29, 30, 0x85, 0x2028, 0x2029], Char.ofNat n ≠ '\n' →
      ∃ entry ∈ otherBreaks, entry.1 = Char.ofNat n := by decide
  obtain ⟨⟨_, encoding⟩, member, rfl⟩ := all c.toNat code (by rwa [Char.ofNat_toNat])
  exact ⟨encoding, by simpa using member⟩

def ascii (text : String) : List UInt8 := text.toList.map fun c => UInt8.ofNat c.toNat

/-- A status whose one signature record stands inside the user name, after the
given bytes. -/
def forged (bytes : List UInt8) : List UInt8 :=
  ascii "[GNUPG:] NEWSIG\n[GNUPG:] GOODSIG 1534542E61DC82D3 Mallory" ++ bytes ++
    ascii "[GNUPG:] VALIDSIG 02EBB31CC0032A86C2C0401A1534542E61DC82D3 2026-09-18 1789689600 0 4 0 1 10 00 " ++
    ascii "02EBB31CC0032A86C2C0401A1534542E61DC82D3\n"

theorem forged_approved : ∀ entry ∈ otherBreaks,
    approvedSignature (forged entry.2) = .ok approvedPrimary ∧
      approvedByLf (forged entry.2) ≠ .ok approvedPrimary := by
  decide +kernel

/-- A record in the text of another one is approved. -/
theorem forged_record_is_approved : ¬ Faithful (forged [0xe2, 0x80, 0xa8]) := by
  have both := forged_approved (Char.ofNat 0x2028, [0xe2, 0x80, 0xa8]) (by decide)
  rw [Faithful, approvedSignature_ok, approved_iff]
  exact fun same => both.2 (same.mp both.1)

/-- A status whose lines end at LF or CR LF alone is read as it is meant; and
none of the other line breaks can be allowed without a forged record. -/
theorem plain_status_is_read_faithfully (status : List UInt8) :
    ((∀ text, decodeUtf8 status = some text → PlainLines text) → Faithful status) ∧
      ∀ c, isLineBreak c = true → c ≠ '\n' →
        ∃ encoding, (c, encoding) ∈ otherBreaks ∧ ¬ Faithful (forged encoding) := by
  refine ⟨fun plain => ?_, fun c breaks other => ?_⟩
  · rw [Faithful, approvedSignature_ok, approved_iff]
    unfold approvedSignature approvedByLf
    cases decoded : decodeUtf8 status with
    | none => exact Iff.rfl
    | some text =>
      have same : approveLines (lfLines text) = approveLines (splitlines text) :=
        approveLines_congr (splitlines_plain [] (plain text decoded))
      simp only [same]
  · obtain ⟨encoding, member⟩ := mem_otherBreaks breaks other
    have both := forged_approved (c, encoding) member
    refine ⟨encoding, member, ?_⟩
    rw [Faithful, approvedSignature_ok, approved_iff]
    exact fun same => both.2 (same.mp both.1)

/-- With LF in that place the record is a line of its own, and the status approved
under both readings. -/
theorem genuine_record_is_approved :
    approvedSignature (forged [10]) = .ok approvedPrimary ∧ Faithful (forged [10]) := by
  refine ⟨by decide +kernel, (plain_status_is_read_faithfully (forged [10])).1 fun text decoded => ?_⟩
  have only : (decodeUtf8 (forged [10])).all
      (fun text => text.all fun c => isLineBreak c = true → c = '\n') = true := by
    decide +kernel
  rw [decoded, Option.all_some, List.all_eq_true] at only
  exact plainLines_of_lf fun c member => of_decide_eq_true (only c member)

end CertRenewer.ReleaseSignature
