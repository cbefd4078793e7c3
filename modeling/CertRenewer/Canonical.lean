import CertRenewer.Collection
import CertRenewer.Worker

/-!
# Canonical states

What the collector keeps of a listing is written anew from what it read. Reading
it again gives the same, so that two collected states are equal as values exactly
when they are equal to every comparison the program makes.
-/

namespace CertRenewer.Keytool

open Text

/-! ## Values -/

/-- Part of a line, stripped. -/
structure Trimmed (value : List Char) : Prop where
  inside : ∀ c ∈ value, isLineBreak c = false
  trimmed : strip value = value

/-- A value the metadata can have. -/
structure Value (value : List Char) : Prop extends Trimmed value where
  valid : ∀ label, validateMetadataValue value label = .ok ()

theorem validateMetadataValue_eq_ok {value : List Char} {label : String} {u : Unit} :
    validateMetadataValue value label = .ok u ↔ value ≠ [] ∧ value.length ≤ maxMetadataValueChars ∧
      (value.any fun c => decide (c.toNat < 32) || c.toNat == 127) = false := by
  simp [validateMetadataValue, bind_eq_ok, require_eq_ok]

theorem requireSingleValue_eq_ok {occurrences : List (List Char)} {label : String} {value : List Char} :
    requireSingleValue occurrences label = .ok value ↔
      occurrences = [value] ∧ validateMetadataValue value label = .ok () := by
  match occurrences with
  | [] => simp [requireSingleValue, optionalSingleValue, bind_eq_ok, orFail_eq_ok]
  | [other] =>
    simp only [requireSingleValue, optionalSingleValue, bind_eq_ok, orFail_eq_ok, Except.ok.injEq]
    constructor
    · rintro ⟨_, ⟨⟨⟩, valid, rfl⟩, same⟩
      cases same
      exact ⟨rfl, valid⟩
    · rintro ⟨same, valid⟩
      cases same
      exact ⟨_, ⟨(), valid, rfl⟩, rfl⟩
  | _ :: _ :: _ => simp [requireSingleValue, optionalSingleValue, bind_eq_ok, fail]

theorem Trimmed.value {value : List Char} {label : String} (h : Trimmed value)
    (valid : validateMetadataValue value label = .ok ()) : Value value :=
  ⟨h, fun _ => validateMetadataValue_eq_ok.mpr (validateMetadataValue_eq_ok.mp valid)⟩

theorem partitionColon_mem {line label value : List Char} (h : partitionColon line = some (label, value)) :
    ∀ c ∈ value, c ∈ line := by
  intro c member
  rw [partitionColon, List.span_eq_takeWhile_dropWhile] at h
  split at h
  · rename_i _ _ separator rest same
    cases h
    have whole : line.dropWhile (· ≠ ':') = separator :: value := (Prod.ext_iff.mp same).2
    exact (List.dropWhile_sublist _).subset (whole ▸ List.mem_cons_of_mem _ member)
  · cases h

/-- Everything collected for the store is part of a line. -/
def Collected.Trim (c : Collected) : Prop :=
  (∀ value ∈ c.types, Trimmed value) ∧ ∀ value ∈ c.providers, Trimmed value

theorem addLine_trim {c : Collected} {line : List Char} (inside : ∀ d ∈ line, isLineBreak d = false) (h : c.Trim) :
    (addLine c line).Trim := by
  unfold addLine
  split
  · rename_i label value found
    have mine : Trimmed (strip value) :=
      ⟨fun d member => inside d (partitionColon_mem found d (mem_of_mem_strip member)), strip_strip value⟩
    unfold addValue
    split
    · refine ⟨?_, h.2⟩
      simpa [or_imp, forall_and] using ⟨h.1, mine⟩
    split
    · refine ⟨h.1, ?_⟩
      simpa [or_imp, forall_and] using ⟨h.2, mine⟩
    split
    · exact h
    split
    · exact h
    split
    · exact h
    split
    · exact h
    · exact h
  · exact h

theorem foldl_trim {lines : List (List Char)} {c : Collected} (h : c.Trim)
    (inside : ∀ line ∈ lines, ∀ d ∈ line, isLineBreak d = false) : (lines.foldl addLine c).Trim := by
  induction lines generalizing c with
  | nil => exact h
  | cons line lines ih =>
    obtain ⟨here, later⟩ := List.forall_mem_cons.mp inside
    exact ih (addLine_trim here h) later

/-! ## What is read -/

theorem matchingSections_alias {sections found : List Section} (h : matchingSections sections = .ok found) :
    ∀ s ∈ found, s.aliasName = expectedAlias := by
  induction sections generalizing found with
  | nil =>
    cases h
    simp
  | cons s rest ih =>
    simp only [matchingSections, bind_eq_ok, Except.ok.injEq] at h
    obtain ⟨_, _, others, run, rfl⟩ := h
    split
    · rename_i mine
      exact List.forall_mem_cons.mpr ⟨mine, ih run⟩
    · exact ih run

theorem ofDigitChars_lt {digits : List Char} (h : (digits.all fun c => '0' ≤ c && c ≤ '9') = true) :
    Nat.ofDigitChars 10 digits 0 < 10 ^ digits.length := by
  induction digits using List.reverseRecOn with
  | nil => simp
  | append_singleton digits c ih =>
    rw [List.all_append, Bool.and_eq_true] at h
    have before := ih h.1
    have digit : c.toNat - '0'.toNat < 10 := by
      have range := h.2
      simp only [List.all_cons, List.all_nil, Bool.and_true, Bool.and_eq_true, decide_eq_true_eq, Char.le_def,
        UInt32.le_iff_toNat_le] at range
      have high : c.toNat ≤ 57 := range.2
      have zero : '0'.toNat = 48 := rfl
      omega
    rw [Nat.ofDigitChars_append, Nat.ofDigitChars_cons, Nat.ofDigitChars_nil, List.length_append, List.length_singleton,
      Nat.pow_succ]
    omega

/-- What the metadata of an accepted listing can be. -/
inductive Metadata : KeystoreMetadata → AliasMetadata → Prop where
  | mk {type provider : List Char} {length : Nat} (types : Value type) (providers : Value provider)
    (positive : 1 ≤ length) (bounded : length < 10 ^ maxMetadataValueChars) :
    Metadata ⟨.ofList type, .ofList provider⟩ ⟨.ofList expectedAlias, .ofList expectedEntryType, length⟩

theorem readSection_spec {s : Section} {entry : AliasMetadata} (mine : s.aliasName = expectedAlias)
    (h : readSection s = .ok entry) :
    ∃ length, entry = ⟨.ofList expectedAlias, .ofList expectedEntryType, length⟩ ∧ 1 ≤ length ∧
      length < 10 ^ maxMetadataValueChars := by
  simp only [readSection, bind_eq_ok, require_eq_ok, requireSingleValue_eq_ok, Except.ok.injEq] at h
  obtain ⟨_, _, type, _, _, rfl, digits, ⟨_, valid⟩, _, decimal, _, positive, rfl⟩ := h
  refine ⟨_, by rw [mine], positive, Nat.lt_of_lt_of_le (ofDigitChars_lt decimal) ?_⟩
  exact Nat.pow_le_pow_right (by decide) (validateMetadataValue_eq_ok.mp valid).2.1

theorem parse_spec {text : List Char} {store : KeystoreMetadata} {entry : AliasMetadata}
    (h : parseKeytoolMetadata text = .ok (store, entry)) : Metadata store entry := by
  simp only [parseKeytoolMetadata, bind_eq_ok] at h
  obtain ⟨_, _, _, _, read⟩ := h
  have trim : ((splitlines text).foldl addLine ⟨[], [], []⟩).Trim :=
    foldl_trim ⟨by simp, by simp⟩ fun line member => isLineBreak_of_mem_linesFrom (by simp) member
  generalize (splitlines text).foldl addLine ⟨[], [], []⟩ = c at read trim
  simp only [readCollected, bind_eq_ok, requireSingleValue_eq_ok] at read
  obtain ⟨type, ⟨types, typed⟩, provider, ⟨providers, provided⟩, named, found, read⟩ := read
  rcases named with _ | ⟨s, _ | ⟨_, _⟩⟩
  · cases read
  · simp only [bind_eq_ok, Except.ok.injEq, Prod.mk.injEq] at read
    obtain ⟨entry, run, rfl, rfl⟩ := read
    obtain ⟨length, rfl, positive, bounded⟩ := readSection_spec (matchingSections_alias found s (by simp)) run
    exact .mk ((trim.1 type (by simp [types])).value typed) ((trim.2 provider (by simp [providers])).value provided)
      positive bounded
  · cases read

/-! ## What is written -/

/-- A line of the metadata. -/
def field (label value : List Char) : List Char := label ++ ':' :: ' ' :: value

theorem addLine_field (c : Collected) {label value : List Char} (plain : ':' ∉ label) (stripped : strip label = label)
    (trimmed : strip value = value) : addLine c (field label value) = addValue c label value := by
  have here : ∀ d ∈ label, decide (d ≠ ':') = true := by
    intro d member
    exact decide_eq_true fun same => plain (same ▸ member)
  have parts : partitionColon (field label value) = some (label, ' ' :: value) := by
    rw [partitionColon, List.span_eq_takeWhile_dropWhile, field, List.takeWhile_append_of_pos here,
      List.dropWhile_append_of_pos here]
    simp
  have padded : strip (' ' :: value) = strip value := rfl
  simp only [addLine, parts, stripped, padded, trimmed]

theorem toDigits_value {n : Nat} (bounded : n < 10 ^ maxMetadataValueChars) : Value (Nat.toDigits 10 n) := by
  have digit {c : Char} (member : c ∈ Nat.toDigits 10 n) : 48 ≤ c.toNat ∧ c.toNat ≤ 57 := by
    have range := Nat.isDigit_of_mem_toDigits (by decide) (by decide) member
    simpa [Char.isDigit, UInt32.le_iff_toNat_le] using range
  have space {c : Char} (member : c ∈ Nat.toDigits 10 n) : isSpace c = false := by
    have range := digit member
    simp only [isSpace, Bool.or_eq_false_iff, Bool.and_eq_false_iff, decide_eq_false_iff_not, beq_eq_false_iff_ne]
    omega
  refine ⟨⟨fun c member => ?_, ?_⟩, fun label => validateMetadataValue_eq_ok.mpr ⟨Nat.toDigits_ne_nil, ?_, ?_⟩⟩
  · have range := digit member
    simp only [isLineBreak, Bool.or_eq_false_iff, Bool.and_eq_false_iff, decide_eq_false_iff_not, beq_eq_false_iff_ne]
    omega
  · have first : (Nat.toDigits 10 n).dropWhile isSpace = Nat.toDigits 10 n := by
      rw [List.dropWhile_eq_self_iff]
      intro long
      simp [space (List.getElem_mem long)]
    rw [strip, first, List.rdropWhile_eq_self_iff]
    intro some
    simp [space (List.getLast_mem some)]
  · exact (Nat.length_toDigits_le_iff (by decide) (by decide)).mpr bounded
  · rw [List.any_eq_false]
    intro c member
    have range := digit member
    simp only [Bool.or_eq_true, decide_eq_true_eq, beq_iff_eq, not_or]
    omega

theorem field_inside {label value : List Char} (outer : ∀ c ∈ label, isLineBreak c = false)
    (inner : ∀ c ∈ value, isLineBreak c = false) : ∀ c ∈ field label value, isLineBreak c = false := by
  intro c member
  rw [field, List.mem_append, List.mem_cons, List.mem_cons] at member
  rcases member with here | rfl | rfl | here
  · exact outer c here
  · rfl
  · rfl
  · exact inner c here

/-- The lines that are written. -/
def written (type provider : List Char) (length : Nat) : List (List Char) :=
  [field keystoreType type, field keystoreProvider provider, field aliasName expectedAlias,
    field entryType expectedEntryType, field chainLength (Nat.toDigits 10 length)]

theorem render_toList (type provider : List Char) (length : Nat) :
    (render ⟨.ofList type, .ofList provider⟩ ⟨.ofList expectedAlias, .ofList expectedEntryType, length⟩).toList =
      ((written type provider length).map (· ++ ['\n'])).flatten := by
  have first : "Keystore type: ".toList = keystoreType ++ [':', ' '] := by decide +kernel
  have second : "\nKeystore provider: ".toList = '\n' :: keystoreProvider ++ [':', ' '] := by decide +kernel
  have third : "\nAlias name: ".toList = '\n' :: aliasName ++ [':', ' '] := by decide +kernel
  have fourth : "\nEntry type: ".toList = '\n' :: entryType ++ [':', ' '] := by decide +kernel
  have fifth : "\nCertificate chain length: ".toList = '\n' :: chainLength ++ [':', ' '] := by decide +kernel
  have last : "\n".toList = ['\n'] := by decide +kernel
  have digits : (toString length).toList = Nat.toDigits 10 length := Nat.toList_repr
  unfold render written field
  -- The labels are named, so that their characters stay out of the comparison.
  generalize "Keystore type: " = a, "\nKeystore provider: " = b, "\nAlias name: " = c, "\nEntry type: " = d,
    "\nCertificate chain length: " = e, "\n" = f, toString length = g at *
  generalize keystoreType = a', keystoreProvider = b', aliasName = c', entryType = d', chainLength = e' at *
  generalize expectedAlias = name, expectedEntryType = entry
  simp [first, second, third, fourth, fifth, last, digits]

theorem splitlines_lines {lines : List (List Char)} (h : ∀ line ∈ lines, ∀ c ∈ line, isLineBreak c = false) :
    splitlines ((lines.map (· ++ ['\n'])).flatten) = lines := by
  induction lines with
  | nil => rfl
  | cons line lines ih =>
    obtain ⟨here, later⟩ := List.forall_mem_cons.mp h
    rw [List.map_cons, List.flatten_cons, List.append_assoc, List.singleton_append, splitlines_line _ here, ih later]

theorem written_inside {type provider : List Char} {length : Nat} (types : Value type) (providers : Value provider)
    (bounded : length < 10 ^ maxMetadataValueChars) :
    ∀ line ∈ written type provider length, ∀ c ∈ line, isLineBreak c = false := by
  have first := inside_of_all (by decide : (keystoreType.all fun c => !isLineBreak c) = true)
  have second := inside_of_all (by decide : (keystoreProvider.all fun c => !isLineBreak c) = true)
  have third := inside_of_all (by decide : (aliasName.all fun c => !isLineBreak c) = true)
  have fourth := inside_of_all (by decide : (entryType.all fun c => !isLineBreak c) = true)
  have fifth := inside_of_all (by decide : (chainLength.all fun c => !isLineBreak c) = true)
  have name := inside_of_all (by decide : (expectedAlias.all fun c => !isLineBreak c) = true)
  have kind := inside_of_all (by decide : (expectedEntryType.all fun c => !isLineBreak c) = true)
  simp only [written, List.mem_cons, List.not_mem_nil, or_false, forall_eq_or_imp, forall_eq]
  exact ⟨field_inside first types.inside, field_inside second providers.inside, field_inside third name,
    field_inside fourth kind, field_inside fifth (toDigits_value bounded).inside⟩

theorem foldl_written {type provider : List Char} {length : Nat} (types : Value type) (providers : Value provider)
    (bounded : length < 10 ^ maxMetadataValueChars) :
    (written type provider length).foldl addLine ⟨[], [], []⟩ =
      ⟨[type], [provider], [⟨expectedAlias, [expectedEntryType], [Nat.toDigits 10 length]⟩]⟩ := by
  have name : strip expectedAlias = expectedAlias := by decide
  have type_ : strip expectedEntryType = expectedEntryType := by decide
  have number := (toDigits_value bounded).trimmed
  simp only [written, List.foldl_cons, List.foldl_nil]
  rw [addLine_field _ (by decide) (by decide) number, addLine_field _ (by decide) (by decide) type_,
    addLine_field _ (by decide) (by decide) name, addLine_field _ (by decide) (by decide) providers.trimmed,
    addLine_field _ (by decide) (by decide) types.trimmed]
  rfl

theorem length_written {type provider : List Char} {length : Nat} (types : Value type) (providers : Value provider)
    (bounded : length < 10 ^ maxMetadataValueChars) :
    (((written type provider length).map (· ++ ['\n'])).flatten).length ≤ 1024 := by
  have one := (validateMetadataValue_eq_ok.mp (types.valid "")).2.1
  have two := (validateMetadataValue_eq_ok.mp (providers.valid "")).2.1
  have three := (validateMetadataValue_eq_ok.mp ((toDigits_value bounded).valid "")).2.1
  have labels : keystoreType.length + keystoreProvider.length + aliasName.length + entryType.length +
      chainLength.length + expectedAlias.length + expectedEntryType.length ≤ 100 := by decide
  have limit : maxMetadataValueChars = 256 := rfl
  simp only [written, field, List.map_cons, List.map_nil, List.flatten_cons, List.flatten_nil, List.length_append,
    List.length_cons, List.length_nil]
  omega

/-- What is written is read again as what it was written from. -/
theorem parse_render {store : KeystoreMetadata} {entry : AliasMetadata} (h : Metadata store entry) :
    parseKeytoolMetadata (render store entry).toList = .ok (store, entry) := by
  cases h with
  | @mk type provider length types providers positive bounded =>
    have number := toDigits_value bounded
    have decimal : ((Nat.toDigits 10 length).all fun c => '0' ≤ c && c ≤ '9') = true := by
      rw [List.all_eq_true]
      intro c member
      have range := Nat.isDigit_of_mem_toDigits (by decide) (by decide) member
      simpa [Char.isDigit, Char.le_def] using range
    have name (label : String) : validateMetadataValue expectedAlias label = .ok () :=
      validateMetadataValue_eq_ok.mpr (by decide)
    have type_ (label : String) : validateMetadataValue expectedEntryType label = .ok () :=
      validateMetadataValue_eq_ok.mpr (by decide)
    have some : ((written type provider length).map (· ++ ['\n'])).flatten ≠ [] := by simp [written]
    have short : (((written type provider length).map (· ++ ['\n'])).flatten).length ≤ maxKeytoolOutputChars :=
      Nat.le_trans (length_written types providers bounded) (by decide)
    rw [render_toList, parseKeytoolMetadata, splitlines_lines (written_inside types providers bounded),
      foldl_written types providers bounded]
    simp only [require, check, some, short, readCollected, requireSingleValue,
      optionalSingleValue, types.valid, providers.valid, List.reverse_cons, List.reverse_nil, List.nil_append,
      matchingSections, name, readSection, type_, number.valid, decimal, orFail, Nat.ofDigitChars_ten_toDigits,
      positive, ne_eq, not_false_eq_true, ↓reduceIte, bind, Except.bind]

/-! ## Collected states -/

section
variable {lib : Library}

/-- A state that was read from some listing. -/
def Collects (lib : Library) (state : PublicKeystoreState) : Prop :=
  ∃ data, parseCollection (reading lib) data = .ok state

/-- A collected state: it is written from what was read, and all that was read
but the chain is as expected. -/
structure Canonical (lib : Library) (state : PublicKeystoreState) (text : List Char) : Prop where
  again : ∃ store entry, parseKeytoolMetadata text = .ok (store, entry) ∧ state.keytoolOutput = render store entry ∧
    parseKeytoolMetadata state.keytoolOutput.toList = .ok (store, entry)
  output : state.keytoolOutput =
    render ⟨"PKCS12", "SUN"⟩ ⟨.ofList expectedAlias, .ofList expectedEntryType, state.certificateChainDer.length⟩
  inspected : ∃ info, inspectPublicKeystoreState (reading lib) state = .ok info

theorem readSelected_output {text : List Char} {state : PublicKeystoreState} (h : readSelected lib text = .ok state) :
    ∃ store entry, parseKeytoolMetadata text = .ok (store, entry) ∧ state.keytoolOutput = render store entry := by
  simp only [readSelected, bind_eq_ok, Except.ok.injEq] at h
  obtain ⟨⟨store, entry⟩, read, _, _, _, _, _, _, rfl⟩ := h
  exact ⟨store, entry, read, rfl⟩

theorem parseCollection_canonical {data : Bytes} {state : PublicKeystoreState}
    (h : parseCollection (reading lib) data = .ok state) :
    ∃ whole text, decodeUtf8 data = some whole ∧ selected whole = .ok text ∧ Canonical lib state text := by
  simp only [parseCollection, bind_eq_ok, Except.ok.injEq] at h
  obtain ⟨state, scanned, info, inspected, rfl⟩ := h
  have scan : scanCollection lib data = .ok state := scanned
  simp only [scanCollection, bind_eq_ok, orFail_eq_ok] at scan
  obtain ⟨_, _, whole, decoded, text, found, read⟩ := scan
  obtain ⟨store, entry, first, output⟩ := readSelected_output read
  have metadata := parse_spec first
  obtain ⟨length, rfl⟩ : ∃ length, entry = ⟨.ofList expectedAlias, .ofList expectedEntryType, length⟩ := by
    cases metadata
    exact ⟨_, rfl⟩
  have again := parse_render metadata
  rw [← output] at again
  refine ⟨whole, text, decoded, found, ⟨store, _, first, output, again⟩, ?_, info, inspected⟩
  simp only [inspectPublicKeystoreState, bind_eq_ok, require_eq_ok] at inspected
  obtain ⟨_, _, _, _, ⟨keystore, metadata'⟩, reread, _, _, _, rfl, _, chain, _⟩ := inspected
  have same := Except.ok.inj (again.symm.trans reread)
  cases same
  have chain : length = state.certificateChainDer.length := chain
  rw [output, chain]

/-- A collected state is known by its chain. -/
theorem Canonical.eq_iff {first second : PublicKeystoreState} {text text' : List Char} (h : Canonical lib first text)
    (h' : Canonical lib second text') : first = second ↔ first.certificateChainDer = second.certificateChainDer := by
  constructor
  · rintro rfl
    rfl
  · intro same
    have output : first.keytoolOutput = second.keytoolOutput := by rw [h.output, h'.output, same]
    cases first
    cases second
    simp_all

theorem samePublic_eq {first second : PublicKeystoreState} {text text' : List Char} (h : Canonical lib first text)
    (h' : Canonical lib second text') : samePublic (reading lib) first second = .ok (decide (first = second)) := by
  obtain ⟨a, here⟩ := h.inspected
  obtain ⟨b, there⟩ := h'.inspected
  simp only [samePublic, here, there, bind, Except.bind]
  by_cases same : first = second
  · subst same
    cases here.symm.trans there
    simp
  · have chain : first.certificateChainDer ≠ second.certificateChainDer := fun chain => same ((h.eq_iff h').mpr chain)
    simp [same, chain]

theorem Collects.canonical {state : PublicKeystoreState} (h : Collects lib state) : ∃ text, Canonical lib state text := by
  obtain ⟨_, run⟩ := h
  obtain ⟨_, text, _, _, canonical⟩ := parseCollection_canonical run
  exact ⟨text, canonical⟩

end

end CertRenewer.Keytool

namespace CertRenewer.Worker

open Crash Keytool

/-! ## The worker's own test -/

def stale : Fault := .stopped "stale public import request"

/-- The executor answers with states it collected. -/
def Answers (lib : Library) (p : Peers) : Prop :=
  ∀ n response result state, p.executor n = .answered response → decodeResponse response = .ok result →
    (only "state" result >>= decodeState p) = .ok state → Collects lib state

variable {α β : Type} {p : Peers} {lib : Library} {s : Progress}

/-- What a step keeps of the client, and that it does not fail the test. -/
def Fresh (m : Work α) (Q : α → Prop) : Prop :=
  ∀ s, Prog.Holds m (fun a t => t.installed = s.installed ∧ t.exclusive = s.exclusive ∧ Q a) (fun f _ => f ≠ stale)
    (fun _ => True) s

theorem Fresh.bind {m : Work β} {f : β → Work α} {P : β → Prop} {Q : α → Prop} (first : Fresh m P)
    (rest : ∀ b, P b → Fresh (f b) Q) : Fresh (m >>= f) Q := by
  intro s
  refine Prog.holds_bind_of (first s) fun b t known => ?_
  exact (rest b known.2.2 t).mono (fun a u later => ⟨later.1.trans known.1, later.2.1.trans known.2.1, later.2.2⟩)
    (fun _ _ h => h) fun _ h => h

theorem fresh_pure (a : α) : Fresh (pure a : Work α) (· = a) := fun _ => ⟨rfl, rfl, rfl⟩

theorem fresh_check (r : Result α) : Fresh (check r) (fun a => r = .ok a) := by
  intro s
  cases r with
  | ok a => exact ⟨rfl, rfl, rfl⟩
  | error e => exact fun same => by cases same

theorem fresh_update {f : Progress → Progress} (same : ∀ s, (f s).installed = s.installed ∧ (f s).exclusive = s.exclusive) :
    Fresh (Prog.update f : Work Unit) (fun _ => True) := fun s => ⟨(same s).1, (same s).2, trivial⟩

theorem fresh_stop {message : String} {Q : α → Prop} (other : message ≠ "stale public import request") :
    Fresh (stop message : Work α) Q := fun _ same => other (Fault.stopped.inj same)

theorem fresh_insist {q : Prop} [Decidable q] {message : String} (other : message ≠ "stale public import request") :
    Fresh (insist q message) (fun _ => q) := by
  intro s
  unfold insist
  split
  · exact ⟨rfl, rfl, by assumption⟩
  · exact fresh_stop other s

theorem fresh_nextCall : Fresh nextCall (fun _ => True) := fun _ => ⟨rfl, rfl, trivial⟩

theorem fresh_clocks : Fresh (clocks p) (fun _ => True) := fun _ => ⟨rfl, rfl, trivial⟩

theorem fresh_dispatched (operation : OperationName) : Fresh (dispatched operation) (fun _ => True) := by
  cases operation
  all_goals exact fun _ => ⟨rfl, rfl, trivial⟩

theorem fresh_call (operation : OperationName) :
    Fresh (call p operation) (fun result => ∃ n response, p.executor n = .answered response ∧
      decodeResponse response = .ok result) := by
  intro s
  unfold call during
  rw [Prog.holds_handle]
  have masked (cause : Fault) : Fault.masked "UniFi executor request failed" cause ≠ stale := by
    intro same
    cases same
  refine (Fresh.bind fresh_nextCall (fun n _ => ?_) s).mono (fun _ _ h => h) (fun cause _ _ => masked cause) fun _ h => h
  split
  · exact fresh_stop (by decide)
  · exact (fresh_dispatched operation).bind fun _ _ => fresh_stop (by decide)
  · rename_i response answered
    refine (fresh_dispatched operation).bind fun _ _ => ?_
    exact fun s => (fresh_check (decodeResponse response) s).mono
      (fun result t h => ⟨h.1, h.2.1, n, response, answered, h.2.2⟩) (fun _ _ h => h) fun _ h => h

/-- A program that does not fail the test. -/
def Passes (m : Work α) (s : Progress) : Prop := Prog.Holds m (fun _ _ => True) (fun f _ => f ≠ stale) (fun _ => True) s

theorem Fresh.passes {m : Work α} {Q : α → Prop} (h : Fresh m Q) (s : Progress) : Passes m s :=
  (h s).mono (fun _ _ _ => trivial) (fun _ _ h => h) fun _ h => h

theorem Fresh.then {m : Work β} {f : β → Work α} {P : β → Prop} (first : Fresh m P)
    (rest : ∀ b t, t.installed = s.installed → t.exclusive = s.exclusive → P b → Passes (f b) t) :
    Passes (m >>= f) s :=
  Prog.holds_bind_of (first s) fun b t known => rest b t known.1 known.2.1 known.2.2

/-- `inspect_public_state` when the executor is asked. -/
def readState (p : Peers) : Work PublicKeystoreState := do
  let result ← call p .inspect
  check (only "state" result >>= decodeState p)

theorem fresh_readState : Fresh (readState p) (fun state => ∃ n response result, p.executor n = .answered response ∧
    decodeResponse response = .ok result ∧ (only "state" result >>= decodeState p) = .ok state) := by
  refine (fresh_call .inspect).bind fun result answered => ?_
  obtain ⟨n, response, sent, decoded⟩ := answered
  exact fun t => (fresh_check _ t).mono (fun _ _ h => ⟨h.1, h.2.1, n, response, result, sent, decoded, h.2.2⟩)
    (fun _ _ h => h) fun _ h => h

theorem boundaryInspect_of_none (h : s.installed = none) : boundaryInspect p s = readState p s := by
  obtain ⟨_, _, _, exclusive, _, _⟩ := s
  cases h
  cases exclusive
  all_goals rfl

theorem boundaryInspect_passes : Passes (boundaryInspect p) s := by
  have asked : Passes (readState p) s := fresh_readState.passes s
  obtain ⟨_, _, _, exclusive, installed, _⟩ := s
  cases installed with
  | none =>
    unfold Passes Prog.Holds at asked ⊢
    rw [boundaryInspect_of_none rfl]
    exact asked
  | some state =>
    cases exclusive with
    | true => exact trivial
    | false => exact asked

/-- The import of a request for the current state. -/
theorem boundaryImport_passes {request : CertificateImportRequest} : Passes (boundaryImport p request request.before) s := by
  unfold boundaryImport
  rw [Passes, Prog.holds_bind]
  refine Fresh.then (fresh_insist (by decide)) fun _ t _ _ _ => ?_
  have same : (insist (request.before = request.before) "stale public import request" : Work Unit) = pure () := by
    simp [insist]
  rw [same]
  refine Fresh.then (fresh_pure ()) fun _ t _ _ _ => Fresh.then (fresh_check _) fun _ t _ _ _ => ?_
  refine Fresh.then (fresh_call .install) fun _ t _ _ _ => Fresh.then (fresh_check _) fun _ t _ _ _ => ?_
  exact trivial

theorem boundaryImport_stale {request : CertificateImportRequest} {current : PublicKeystoreState}
    (exclusive : s.exclusive = true) (installed : s.installed = none) :
    (boundaryImport p request current s).1 = .raised stale ↔ request.before ≠ current := by
  constructor
  · rintro failed rfl
    have passes : Passes (boundaryImport p request request.before) s := boundaryImport_passes
    exact passes.raised (Prog.eq_of_fst failed) rfl
  · intro different
    have first : (insist (s.exclusive = true ∧ s.installed = none) "exclusive executor client context required" :
        Work Unit) = pure () := if_pos ⟨exclusive, installed⟩
    have second : (insist (request.before = current) "stale public import request" : Work Unit) =
        stop "stale public import request" := if_neg different
    unfold boundaryImport
    rw [Prog.bind_apply]
    simp only [Prog.read, id, first, second]
    rfl

theorem Passes.bind {m : Work β} {f : β → Work α} (first : Passes m s) (rest : ∀ b t, Passes (f b) t) :
    Passes (m >>= f) s :=
  Prog.holds_bind_of first fun b t _ => rest b t

theorem Passes.inspect {f : PublicKeystoreState → Work α} (none : s.installed = none)
    (h : Passes (readState p >>= f) s) : Passes (boundaryInspect p >>= f) s := by
  unfold Passes Prog.Holds at h ⊢
  rw [Prog.bind_apply] at h ⊢
  rw [boundaryInspect_of_none none]
  exact h

theorem exclusively_passes {m : Work α} (h : ∀ t, t.installed = none → Passes m t) : Passes (exclusively m) s := by
  unfold exclusively
  rw [Passes, Prog.holds_bind]
  refine Fresh.then (fresh_insist (by decide)) fun _ t _ _ _ => ?_
  rw [Passes, Prog.holds_bind, Prog.holds_update, Prog.holds_ensure]
  exact (h _ rfl).mono (fun _ _ _ => trivial) (fun _ _ passed => passed) fun _ h => h

/-- No installation over collected states fails the boundary's own test. -/
theorem installCertificate_passes {request : CertificateImportRequest} (before : Collects lib request.before)
    (answers : Answers lib p) :
    Prog.Holds (installCertificate p request) (fun _ _ => True) (fun f _ => ∀ message, f ≠ .masked message stale)
      (fun _ => True) s := by
  unfold installCertificate
  rw [Prog.holds_handle]
  refine Prog.Holds.mono (Q := fun _ _ => True) (E := fun f _ => f ≠ stale) (D := fun _ => True) (s := s) ?_
    (fun _ _ _ => trivial) (fun cause t passed => ?_) fun _ h => h
  · refine Fresh.then (fresh_update fun _ => ⟨rfl, rfl⟩) fun _ t _ _ _ => ?_
    refine (exclusively_passes fun t none => ?_).bind fun _ t => trivial
    refine Fresh.then fresh_clocks fun _ u kept _ _ => Fresh.then (fresh_check _) fun _ v kept' _ _ => ?_
    refine Passes.inspect (kept'.trans (kept.trans none)) (Fresh.then fresh_readState fun current _ _ _ answered => ?_)
    obtain ⟨n, response, result, sent, decoded, read⟩ := answered
    refine Fresh.then (fresh_check _) fun _ _ _ _ _ => Fresh.then (fresh_check _) fun _ _ _ _ _ => ?_
    refine Fresh.then (fresh_insist (by decide)) fun _ _ _ _ same => ?_
    -- The client has just compared the chains, and a collected state is known by its chain.
    obtain ⟨_, mine⟩ := before.canonical
    obtain ⟨_, theirs⟩ := (answers n response result current sent decoded read).canonical
    obtain rfl := (theirs.eq_iff mine).mpr same.2
    refine Fresh.then (fresh_update fun _ => ⟨rfl, rfl⟩) fun _ _ _ _ _ => boundaryImport_passes.bind fun _ _ => ?_
    refine Fresh.then (fresh_update fun _ => ⟨rfl, rfl⟩) fun _ _ _ _ _ => boundaryInspect_passes.bind fun _ _ => ?_
    exact Fresh.then fresh_clocks fun _ _ _ _ _ => (fresh_check _).passes _
  · intro message same
    cases same
    exact passed rfl

/-- Collected states are equal as values exactly when every comparison of the
program finds them equal, and they are read again as what they were built from. -/
theorem collected_states_are_canonical (lib : Library) :
    (∀ d₁ d₂ s₁ s₂, parseCollection (reading lib) d₁ = .ok s₁ → parseCollection (reading lib) d₂ = .ok s₂ →
      (s₁ = s₂ ↔ samePublic (reading lib) s₁ s₂ = .ok true) ∧
      (∃ i₁ i₂, inspectPublicKeystoreState (reading lib) s₁ = .ok i₁ ∧
        inspectPublicKeystoreState (reading lib) s₂ = .ok i₂ ∧
        (s₁ = s₂ ↔ i₂ = i₁ ∧ s₂.certificateChainDer = s₁.certificateChainDer)) ∧
      (s₁ = s₂ ↔ s₁.certificateChainDer = s₂.certificateChainDer)) ∧
    (∀ data state, parseCollection (reading lib) data = .ok state →
      ∃ whole text store entry, Text.decodeUtf8 data = some whole ∧ selected whole = .ok text ∧
        parseKeytoolMetadata text = .ok (store, entry) ∧ state.keytoolOutput = render store entry ∧
        parseKeytoolMetadata state.keytoolOutput.toList = .ok (store, entry)) ∧
    (∀ (p : Peers) (request : CertificateImportRequest) (current : PublicKeystoreState) (s : Progress),
      p.lib = reading lib → Collects lib request.before → Collects lib current → s.exclusive = true →
      s.installed = none →
        ((boundaryImport p request current s).1 = .raised stale ↔
          samePublic (reading lib) current request.before ≠ .ok true) ∧
        ∃ old now, inspectPublicKeystoreState p.lib request.before = .ok old ∧
          inspectPublicKeystoreState p.lib current = .ok now ∧
          ((boundaryImport p request current s).1 = .raised stale ↔
            ¬(now = old ∧ current.certificateChainDer = request.before.certificateChainDer))) ∧
    ∀ (p : Peers) (request : CertificateImportRequest) (s : Progress), Collects lib request.before → Answers lib p →
      ∀ message, (installCertificate p request s).1 ≠ .raised (.masked message stale) := by
  refine ⟨fun d₁ d₂ s₁ s₂ first second => ?_, fun data state h => ?_,
    fun p request current s same before now exclusive installed => ?_, fun p request s before answers message h => ?_⟩
  · obtain ⟨_, _, _, _, a⟩ := parseCollection_canonical first
    obtain ⟨_, _, _, _, b⟩ := parseCollection_canonical second
    refine ⟨by simp [samePublic_eq a b], ?_, a.eq_iff b⟩
    obtain ⟨i₁, here⟩ := a.inspected
    obtain ⟨i₂, there⟩ := b.inspected
    refine ⟨i₁, i₂, here, there, fun same => ?_, fun same => (a.eq_iff b).mpr same.2.symm⟩
    subst same
    exact ⟨Except.ok.inj (there.symm.trans here), rfl⟩
  · obtain ⟨whole, text, decoded, found, canonical⟩ := parseCollection_canonical h
    obtain ⟨store, entry, read, output, again⟩ := canonical.again
    exact ⟨whole, text, store, entry, decoded, found, read, output, again⟩
  · obtain ⟨_, old⟩ := before.canonical
    obtain ⟨_, new⟩ := now.canonical
    obtain ⟨i, here⟩ := old.inspected
    obtain ⟨j, there⟩ := new.inspected
    rw [boundaryImport_stale exclusive installed, same]
    refine ⟨?_, i, j, here, there, ?_⟩
    · simp [samePublic_eq new old, eq_comm]
    · rw [ne_eq, not_iff_not]
      refine ⟨fun same => ?_, fun same => (old.eq_iff new).mpr same.2.symm⟩
      rw [← same] at there ⊢
      exact ⟨Except.ok.inj (there.symm.trans here), rfl⟩
  · have passes : Prog.Holds (installCertificate p request) (fun _ _ => True)
        (fun f _ => ∀ message, f ≠ .masked message stale) (fun _ => True) s := installCertificate_passes before answers
    exact passes.raised (Prog.eq_of_fst h) message rfl

/-! An executor with one store, and a worker that asks it. -/

def Sample.collected : PublicKeystoreState :=
  ⟨render ⟨"PKCS12", "SUN"⟩ ⟨"unifi", "PrivateKeyEntry", 2⟩, [[1], [2, 2]]⟩

def Sample.answer : Json := .object [("version", .int 2), ("ok", .bool true), ("result", .object [("state", .object
  [("keytool_output", .string collected.keytoolOutput),
    ("certificate_chain_der", .array [.string "AQ==", .string "AgI="])])])]

def Sample.peers : Peers where
  lib := reading Keytool.Sample.armouring
  lock := .acquired
  authority := none
  configuration := none
  connectable _ := true
  opnsenseClient := true
  clock _ := 0
  executor _ := .answered answer
  opnsense _ := .refused

def Sample.collectedRequest : CertificateImportRequest := { CertRenewer.Sample.request with before := collected }

theorem Sample.collects : Collects Keytool.Sample.armouring collected :=
  ⟨Keytool.Sample.collection [Keytool.Sample.other, Keytool.Sample.unifi], by decide +kernel⟩

theorem Sample.answers : Answers Keytool.Sample.armouring peers := by
  intro n response result state sent decoded read
  cases sent
  have whole : (decodeResponse answer >>= only "state" >>= decodeState peers) = .ok collected := by decide +kernel
  rw [decoded] at whole
  have same : state = collected := Except.ok.inj (read.symm.trans whole)
  rw [same]
  exact collects

theorem sample_states_are_canonical :
    samePublic (reading Keytool.Sample.armouring) Sample.collected Sample.collected = .ok true ∧
    ((boundaryImport Sample.peers Sample.collectedRequest Sample.collected { begin_ .renew with exclusive := true }).1 =
      .raised stale ↔
        samePublic (reading Keytool.Sample.armouring) Sample.collected Sample.collectedRequest.before ≠ .ok true) ∧
    ∀ message, (installCertificate Sample.peers Sample.collectedRequest (begin_ .renew)).1 ≠ .raised (.masked message stale) := by
  obtain ⟨equal, _, strict, never⟩ := collected_states_are_canonical Keytool.Sample.armouring
  refine ⟨?_, ?_, never _ _ _ Sample.collects Sample.answers⟩
  · exact (equal (Keytool.Sample.collection [Keytool.Sample.unifi])
      (Keytool.Sample.collection [Keytool.Sample.other, Keytool.Sample.unifi]) _ _ (by decide +kernel)
      (by decide +kernel)).1.mp rfl
  · exact (strict Sample.peers Sample.collectedRequest Sample.collected _ rfl Sample.collects Sample.collects rfl rfl).1

end CertRenewer.Worker
