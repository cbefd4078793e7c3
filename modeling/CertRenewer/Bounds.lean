import CertRenewer.Crash.Values
import CertRenewer.Codec

/-!
# How much the executor has to say

The certificates of a collected state come out of the lines of one listing, and
no line is in two blocks: together they are no longer than the listing. After a
renewal the chain is the issued certificate and one CA. Both are far from the
limit of a message.
-/

namespace CertRenewer.Keytool

open Text

/-! ## Lines -/

/-- The characters of some lines, each with its end. -/
def extent (lines : List (List Char)) : Nat := (lines.map fun line => line.length + 1).sum

@[simp] theorem extent_nil : extent [] = 0 := rfl

@[simp] theorem extent_cons (line : List Char) (lines : List (List Char)) :
    extent (line :: lines) = line.length + 1 + extent lines := rfl

@[simp] theorem extent_append (first second : List (List Char)) :
    extent (first ++ second) = extent first + extent second := by
  simp [extent]

theorem extent_linesFrom (line text : List Char) : extent (linesFrom line text) ≤ line.length + text.length + 1 := by
  fun_induction linesFrom line text with
  | case1 => simp
  | case2 => simp
  | case3 line text ih =>
    simp only [extent_cons, List.length_cons, List.length_nil] at ih ⊢
    omega
  | case4 line c text other break_ ih =>
    simp only [extent_cons, List.length_cons, List.length_nil] at ih ⊢
    omega
  | case5 line c text other inside ih =>
    simp only [List.length_append, List.length_cons, List.length_nil] at ih ⊢
    omega

theorem strip_length (text : List Char) : (strip text).length ≤ text.length :=
  Nat.le_trans (List.rdropWhile_prefix isSpace _).length_le (List.length_dropWhile_le isSpace text)

theorem extent_strip (lines : List (List Char)) : extent (lines.map strip) ≤ extent lines := by
  induction lines with
  | nil => exact Nat.le_refl _
  | cons line lines ih =>
    have here := strip_length line
    simp only [List.map_cons, extent_cons]
    omega

/-! ## Blocks -/

theorem Blocks.extent_le {lines : List (List Char)} {blocks : List (List (List Char))} (h : Blocks lines blocks) :
    (blocks.map extent).sum ≤ extent lines := by
  induction h with
  | nil => simp
  | outside plain rest ih =>
    rw [extent_cons]
    omega
  | @block first last inner lines blocks begins plain encoded ends rest ih =>
    have opening := begins ▸ strip_length first
    have closing := ends ▸ strip_length last
    have middle := extent_strip inner
    simp only [List.map_cons, List.sum_cons, extent_cons, extent_append, extent_nil]
    omega

theorem blockBytes_length (block : List (List Char)) : (blockBytes block).length ≤ extent block := by
  unfold blockBytes
  rw [List.length_map]
  induction block with
  | nil => simp
  | cons line block ih =>
    cases block with
    | nil => simp
    | cons next block =>
      rw [List.intercalate_cons_cons, extent_cons]
      simp only [List.length_append, List.length_cons, List.length_nil]
      omega

/-- A certificate is no longer than the text it was read from. -/
def Compact (lib : Library) : Prop :=
  ∀ data c rest, lib.loadPem data = some (c :: rest) → c.der.length ≤ data.length

section
variable {lib : Library}

theorem loaded_length (compact : Compact lib) {blocks : List (List (List Char))} {chain : List Bytes}
    (h : List.Forall₂ (fun block der => ∃ c rest, lib.loadPem (blockBytes block) = some (c :: rest) ∧ c.der = der)
      blocks chain) : (chain.map List.length).sum ≤ (blocks.map extent).sum := by
  induction h with
  | nil => exact Nat.le_refl _
  | @cons block der blocks chain here _ ih =>
    obtain ⟨c, rest, found, rfl⟩ := here
    have size := Nat.le_trans (compact _ c rest found) (blockBytes_length block)
    simp only [List.map_cons, List.sum_cons]
    omega

theorem readSelected_chain (compact : Compact lib) {text : List Char} {state : PublicKeystoreState}
    (h : readSelected lib text = .ok state) :
    (state.certificateChainDer.map List.length).sum ≤ maxKeytoolOutputChars + 1 := by
  simp only [readSelected, bind_eq_ok, Except.ok.injEq] at h
  obtain ⟨metadata, read, blocks, scanned, _, _, chain, loaded, rfl⟩ := h
  have short : text.length ≤ maxKeytoolOutputChars := by
    simp only [parseKeytoolMetadata, bind_eq_ok, require_eq_ok] at read
    obtain ⟨_, _, _, fits, _⟩ := read
    exact fits
  have certificates : (chain.map List.length).sum ≤ (blocks.map extent).sum := by
    refine loaded_length compact ((mapM_eq_ok.mp loaded).imp fun block der here => ?_)
    split at here
    · rename_i c rest found
      exact ⟨c, rest, found, Except.ok.inj here⟩
    · cases here
  calc (chain.map List.length).sum
    _ ≤ (blocks.map extent).sum := certificates
    _ ≤ extent (splitlines text) := (blocksFrom_iff.mp scanned).extent_le
    _ ≤ [].length + text.length + 1 := extent_linesFrom [] text
    _ ≤ maxKeytoolOutputChars + 1 := by
      rw [List.length_nil, Nat.zero_add]
      exact Nat.succ_le_succ short

/-! ## States -/

/-- What bounds a state in a response. -/
structure Bounded (state : PublicKeystoreState) : Prop where
  output : state.keytoolOutput.toList.length ≤ 1024
  chain : state.certificateChainDer.length ≤ 10
  bytes : (state.certificateChainDer.map List.length).sum ≤ 2 * maxCertificateDerBytes

theorem render_length {store : KeystoreMetadata} {entry : AliasMetadata} (h : Metadata store entry) :
    (render store entry).toList.length ≤ 1024 := by
  cases h with
  | mk types providers _ bounded =>
    rw [render_toList]
    exact length_written types providers bounded

theorem parseCollection_bounded (compact : Compact lib) {data : Bytes} {state : PublicKeystoreState}
    (h : parseCollection (reading lib) data = .ok state) : Bounded state := by
  simp only [parseCollection, bind_eq_ok, Except.ok.injEq] at h
  obtain ⟨state, scanned, info, inspected, rfl⟩ := h
  have scan : scanCollection lib data = .ok state := scanned
  simp only [scanCollection, bind_eq_ok] at scan
  obtain ⟨_, _, whole, _, text, _, read⟩ := scan
  obtain ⟨store, entry, metadata, output⟩ := readSelected_output read
  refine ⟨?_, (inspect_length inspected).2, Nat.le_trans (readSelected_chain compact read) (by decide)⟩
  rw [output]
  exact render_length (parse_spec metadata)

theorem inspect_metadata {state : PublicKeystoreState} {i : UnifiCertificateInspection}
    (h : inspectPublicKeystoreState (reading lib) state = .ok i) : Metadata i.keystore i.aliasMetadata := by
  simp only [inspectPublicKeystoreState, bind_eq_ok] at h
  obtain ⟨_, _, _, _, ⟨keystore, entry⟩, metadata, _, _, _, _, _, _, last⟩ := h
  rw [← Except.ok.inj last]
  exact parse_spec metadata

end

end CertRenewer.Keytool

namespace CertRenewer

open Crash Keytool
open Prog (Ensures ensures_pure ensures_raise ensures_ofExcept)

/-! ## What the executor returns -/

section
variable {α : Type} {x : Session} {Q : α → Prop}

theorem ensures_locked {body : Exec α} (h : Ensures body Q) : Ensures (locked x body) Q :=
  Ensures.ensure (Ensures.handle (.after fun _ => h) fun _ => ensures_raise _)

theorem ensures_collect (n : Name) :
    Ensures (collect x n) (fun state => ∃ data, parseCollection x.host.lib data = .ok state) := by
  refine .after fun _ => .after fun _ => .after fun _ => .after fun data => .after fun _ => ?_
  exact (ensures_ofExcept _).mono fun _ parsed => ⟨data, parsed⟩

theorem ensures_inspectPublicState :
    Ensures (inspectPublicState x) (fun state => ∃ data, parseCollection x.host.lib data = .ok state) := by
  refine .after fun p => ?_
  split
  · exact ensures_collect .canonical
  · exact ensures_locked (.after fun _ => ensures_collect .canonical)

theorem validateRequestedCsr_length {lib : Library} {csrPem : Bytes} {policy : CertificatePolicy} {info : CsrInfo}
    (h : validateRequestedCsr lib csrPem policy = .ok info) : csrPem.length ≤ maxCsrPemBytes := by
  simp only [validateRequestedCsr, inspectCsr, bind_eq_ok, require_eq_ok] at h
  obtain ⟨_, _, _, ⟨_, _, _, fits, _⟩, _⟩ := h
  exact fits

theorem ensures_generateCsr (policy : CertificatePolicy) :
    Ensures (generateCsr x policy) (fun pem => pem.length ≤ maxCsrPemBytes) := by
  refine .after fun command => .after fun _ => ensures_locked ?_
  refine .after fun _ => .after fun before => .after fun state => .after fun id => .after fun _ => ?_
  refine .after fun dname => .after fun ext => .after fun result => .after fun _ => ?_
  refine (ensures_ofExcept _).bind fun info valid => .after fun _ => ?_
  exact ensures_pure (validateRequestedCsr_length valid)

theorem ensures_exclusive {expectedBefore : PublicKeystoreState} {body : Exec α} (h : Ensures body Q) :
    Ensures (exclusive x expectedBefore body) Q := by
  refine ensures_locked (.after fun begun => Ensures.handle ?_ fun _ => .after fun _ => ensures_raise _)
  exact .after fun _ => h.bind fun result known => .after fun _ => ensures_pure known

theorem ensures_installCertificate (request : CertificateImportRequest) :
    Ensures (installCertificate x request)
      (fun i => ∃ after, inspectPublicKeystoreState x.host.lib after = .ok i) := by
  refine Ensures.handle (ensures_exclusive ?_) fun _ => .after fun _ => ensures_raise _
  refine .after fun _ => .after fun _ => .after fun _ => .after fun _ => .after fun _ => .after fun _ => ?_
  refine .after fun _ => .after fun _ => .after fun _ => .after fun after => .after fun now => ?_
  refine (ensures_ofExcept _).mono fun i verified => ⟨after, ?_⟩
  simp only [verifyCertificateImport, bind_eq_ok] at verified
  obtain ⟨_, _, _, inspected, _, _, _, _, _, _, _, _, last⟩ := verified
  rwa [← Except.ok.inj last]

/-- The state that is built of an inspection and the chain of a plan. -/
theorem inspectionState_bounded {lib : Library} (same : x.host.lib = reading lib) {after state : PublicKeystoreState}
    {i : UnifiCertificateInspection} {request : CertificateImportRequest} {now : Clock} {plan : CertificateImportPlan}
    (inspected : inspectPublicKeystoreState x.host.lib after = .ok i)
    (prepared : prepareCertificateImport x.host.lib request now = .ok plan)
    (h : inspectionState x i plan.certificateChainDer = .ok state) : Bounded state := by
  simp only [inspectionState, bind_eq_ok] at h
  obtain ⟨again, accepted, last⟩ := h
  rw [same] at inspected accepted
  have limits := (Wire.inspect_bounds accepted).2
  have length := (inspect_length accepted).2
  obtain rfl := Except.ok.inj last
  obtain ⟨_, _, _, leaf, _, _, _, _, _, _, ca, _, _, chain⟩ := prepare_spec x.host.lib prepared
  refine ⟨render_length (inspect_metadata inspected), length, ?_⟩
  rw [chain] at limits ⊢
  simp only [List.forall_mem_cons] at limits
  simp only [List.map_cons, List.map_nil, List.sum_cons, List.sum_nil]
  omega

end

end CertRenewer
