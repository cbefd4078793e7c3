import CertRenewer.Canonical

/-!
# What the messages say

`_encode_state`, `_encode_import_request` and their decoders, which
`unifi_executor_service.py` and `unifi_executor_client.py` each have for
themselves. Bytes are in base64.
-/

namespace CertRenewer.Wire

open Crash Keytool

/-! ## Base64 -/

def base64Digit (value : Nat) : Char := (base64Alphabet[value]?).getD 'A'

/-- `base64.b64encode`. -/
def b64encode : Bytes → List Char
  | [] => []
  | [a] =>
    let n := a.toNat * 16
    [base64Digit (n / 64), base64Digit (n % 64), '=', '=']
  | [a, b] =>
    let n := (a.toNat * 256 + b.toNat) * 4
    [base64Digit (n / 4096), base64Digit (n / 64 % 64), base64Digit (n % 64), '=']
  | a :: b :: c :: rest =>
    let n := (a.toNat * 256 + b.toNat) * 256 + c.toNat
    base64Digit (n / 262144) :: base64Digit (n / 4096 % 64) :: base64Digit (n / 64 % 64) ::
      base64Digit (n % 64) :: b64encode rest

theorem base64Value_digit (value : Nat) (h : value < 64) :
    base64Value (base64Digit value) = some value ∧ base64Digit value ≠ '=' := by
  have all : ∀ k : Fin 64, base64Value (base64Digit k) = some k.val ∧ base64Digit k ≠ '=' := by decide +kernel
  exact all ⟨value, h⟩

theorem b64encode_length (data : Bytes) : (b64encode data).length = (data.length + 2) / 3 * 4 := by
  fun_induction b64encode data with
  | case1 => rfl
  | case2 => simp
  | case3 => simp
  | case4 a b c rest n ih =>
    simp only [List.length_cons, ih]
    omega

theorem ofNat_mod (a : UInt8) (n : Nat) : UInt8.ofNat (n * 256 + a.toNat) = a := by
  apply UInt8.toNat_inj.mp
  have small := a.toNat_lt
  rw [UInt8.toNat_ofNat']
  omega

theorem b64decode_three {a b c : Char} {u v w : Nat} (first : base64Value a = some u) (second : base64Value b = some v)
    (third : base64Value c = some w) (last : c ≠ '=') :
    b64decode [a, b, c, '='] = some [.ofNat (((u * 64 + v) * 64 + w) / 1024), .ofNat (((u * 64 + v) * 64 + w) / 4)] := by
  rw [b64decode]
  · simp only [first, second, third, Option.bind_eq_bind, Option.bind_some]
  · exact last

theorem b64decode_four {a b c d : Char} {u v w z : Nat} {rest : List Char} {tail : Bytes}
    (first : base64Value a = some u) (second : base64Value b = some v)
    (third : base64Value c = some w) (fourth : base64Value d = some z) (last : d ≠ '=') (more : b64decode rest = some tail) :
    b64decode (a :: b :: c :: d :: rest) = some (.ofNat ((((u * 64 + v) * 64 + w) * 64 + z) / 65536) ::
      .ofNat ((((u * 64 + v) * 64 + w) * 64 + z) / 256) :: .ofNat (((u * 64 + v) * 64 + w) * 64 + z) :: tail) := by
  rw [b64decode]
  · simp only [first, second, third, fourth, more, Option.bind_eq_bind, Option.bind_some]
  · exact fun _ same _ => last same
  · exact fun same _ => last same

theorem b64decode_encode (data : Bytes) : b64decode (b64encode data) = some data := by
  fun_induction b64encode data with
  | case1 => rfl
  | case2 a n =>
    have small : n < 4096 := by
      have := a.toNat_lt
      omega
    have first := base64Value_digit (n / 64) (by omega)
    have second := base64Value_digit (n % 64) (by omega)
    have back : (n / 64 * 64 + n % 64) / 16 = 0 * 256 + a.toNat := by omega
    simp only [b64decode, first.1, second.1, Option.bind_eq_bind, Option.bind_some, back, ofNat_mod]
  | case3 a b n =>
    have small : n < 262144 := by
      have := a.toNat_lt
      have := b.toNat_lt
      omega
    have first := base64Value_digit (n / 4096) (by omega)
    have second := base64Value_digit (n / 64 % 64) (by omega)
    have third := base64Value_digit (n % 64) (by omega)
    have whole : (n / 4096 * 64 + n / 64 % 64) * 64 + n % 64 = n := by omega
    have front : n / 1024 = 0 * 256 + a.toNat := by
      have := b.toNat_lt
      omega
    have back : n / 4 = a.toNat * 256 + b.toNat := by omega
    rw [b64decode_three first.1 second.1 third.1 third.2, whole, front, back, ofNat_mod, ofNat_mod]
  | case4 a b c rest n ih =>
    have small : n < 16777216 := by
      have := a.toNat_lt
      have := b.toNat_lt
      have := c.toNat_lt
      omega
    have first := base64Value_digit (n / 262144) (by omega)
    have second := base64Value_digit (n / 4096 % 64) (by omega)
    have third := base64Value_digit (n / 64 % 64) (by omega)
    have fourth := base64Value_digit (n % 64) (by omega)
    have whole : ((n / 262144 * 64 + n / 4096 % 64) * 64 + n / 64 % 64) * 64 + n % 64 = n := by omega
    have front : n / 65536 = 0 * 256 + a.toNat := by
      have := b.toNat_lt
      have := c.toNat_lt
      omega
    have middle : n / 256 = a.toNat * 256 + b.toNat := by
      have := c.toNat_lt
      omega
    rw [b64decode_four first.1 second.1 third.1 fourth.1 fourth.2 ih, whole, front, middle, ofNat_mod, ofNat_mod]
    exact congrArg (fun last => some (a :: b :: last :: rest)) (ofNat_mod c _)

def encodeBinary (value : Bytes) : Json := .string (.ofList (b64encode value))

/-- `_binary` reads what `_encode_binary` writes. -/
theorem binary_encode {data : Bytes} {maximum : Nat} (h : data.length ≤ maximum) :
    binary (encodeBinary data) maximum = .ok data := by
  have short : (b64encode data).length ≤ (maximum + 2) / 3 * 4 := by
    rw [b64encode_length]
    exact Nat.mul_le_mul_right 4 (Nat.div_le_div_right (Nat.add_le_add_right h 2))
  simp only [binary, encodeBinary, String.toList_ofList, bind_eq_ok, require_eq_ok, orFail_eq_ok]
  exact ⟨(), short, data, b64decode_encode data, (), h, rfl⟩

/-- Whatever `_binary` reads of what `_encode_binary` writes. -/
theorem binary_encode_eq_ok {data result : Bytes} {maximum : Nat} (h : binary (encodeBinary data) maximum = .ok result) :
    result = data := by
  simp only [binary, encodeBinary, String.toList_ofList, bind_eq_ok, require_eq_ok, orFail_eq_ok, b64decode_encode] at h
  obtain ⟨_, _, read, same, _, _, last⟩ := h
  rw [← Except.ok.inj last, ← Option.some.inj same]

/-! ## States -/

def stateFields (state : PublicKeystoreState) : Json := .object [
  ("keytool_output", .string state.keytoolOutput),
  ("certificate_chain_der", .array (state.certificateChainDer.map encodeBinary))]

def encodeState (lib : Library) (state : PublicKeystoreState) : Result Json := do
  let _ ← inspectPublicKeystoreState lib state
  .ok (stateFields state)

def requestFields (before csrPem issued : Json) : Json := .object [
  ("before", before), ("csr_pem", csrPem), ("issued_certificate", issued)]

def encodeImportRequest (lib : Library) (request : CertificateImportRequest) : Result Json := do
  let before ← encodeState lib request.before
  .ok (requestFields before (encodeBinary request.csrPem) (encodeBinary request.issuedCertificate))

/-- `_encode_state` of the service. -/
def Service.encodeState (x : Session) (state : PublicKeystoreState) : Result Json := Wire.encodeState x.host.lib state

/-- `_encode_state` of the client. -/
def Client.encodeState (p : Worker.Peers) (state : PublicKeystoreState) : Result Json := Wire.encodeState p.lib state

/-- `_encode_import_request` of the client. -/
def Client.encodeImportRequest (p : Worker.Peers) (request : CertificateImportRequest) : Result Json :=
  Wire.encodeImportRequest p.lib request

theorem exactDict_state (state : PublicKeystoreState) :
    exactDict (stateFields state) ["keytool_output", "certificate_chain_der"] =
      .ok [.string state.keytoolOutput, .array (state.certificateChainDer.map encodeBinary)] := rfl

theorem exactDict_request (before csrPem issued : Json) :
    exactDict (requestFields before csrPem issued) ["before", "csr_pem", "issued_certificate"] =
      .ok [before, csrPem, issued] := rfl

theorem forM_eq_ok {α : Type} {f : α → Result Unit} {items : List α} {u : Unit} (h : items.forM f = .ok u) :
    ∀ item ∈ items, f item = .ok () := by
  induction items with
  | nil => simp
  | cons item rest ih =>
    simp only [List.forM, bind_eq_ok] at h
    obtain ⟨_, first, others⟩ := h
    exact List.forall_mem_cons.mpr ⟨first, ih others⟩

theorem exists_ok {α : Type} {r : Result α} (h : r.toOption.isSome = true) : ∃ a, r = .ok a := by
  cases r with
  | ok a => exact ⟨a, rfl⟩
  | error e => cases h

/-- What a state that is accepted is known to be. -/
theorem inspect_bounds {lib : Library} {state : PublicKeystoreState} {i : UnifiCertificateInspection}
    (h : inspectPublicKeystoreState (reading lib) state = .ok i) :
    state.keytoolOutput.toList.length ≤ maxKeytoolOutputChars ∧
      ∀ der ∈ state.certificateChainDer, der.length ≤ maxCertificateDerBytes := by
  simp only [inspectPublicKeystoreState, bind_eq_ok, require_eq_ok] at h
  obtain ⟨_, _, _, chain, _, metadata, _⟩ := h
  constructor
  · replace metadata : parseKeytoolMetadata state.keytoolOutput.toList = .ok _ := metadata
    simp only [parseKeytoolMetadata, bind_eq_ok, require_eq_ok] at metadata
    obtain ⟨_, _, _, fits, _⟩ := metadata
    exact fits
  · intro der member
    have checked := forM_eq_ok chain der member
    simp only [bind_eq_ok, require_eq_ok] at checked
    obtain ⟨_, fits, _⟩ := checked
    exact fits

/-- Both decoders read the same. -/
theorem decodeState_eq {x : Session} {p : Worker.Peers} (same : p.lib = x.host.lib) (value : Json) :
    Worker.decodeState p value = CertRenewer.decodeState x value := by
  unfold Worker.decodeState CertRenewer.decodeState
  generalize p.lib = theirs at same
  subst same
  rfl

theorem mapM_binary {chain : List Bytes} (h : ∀ der ∈ chain, der.length ≤ maxCertificateDerBytes) :
    (chain.map encodeBinary).mapM (fun item => binary item maxCertificateDerBytes) = .ok chain := by
  rw [mapM_eq_ok, List.forall₂_map_left_iff, List.forall₂_same]
  exact fun der member => binary_encode (h der member)

/-- A state that is accepted comes back as it was. -/
theorem decodeState_fields {lib : Library} {x : Session} {state : PublicKeystoreState} {i : UnifiCertificateInspection}
    (same : x.host.lib = reading lib) (h : inspectPublicKeystoreState (reading lib) state = .ok i) :
    CertRenewer.decodeState x (stateFields state) = .ok state := by
  obtain ⟨output, chain⟩ := inspect_bounds h
  have length := inspect_length h
  unfold CertRenewer.decodeState
  rw [exactDict_state, same]
  refine bind_eq_ok.mpr ⟨_, rfl, ?_⟩
  simp only [bind_eq_ok, require_eq_ok, List.length_map]
  exact ⟨(), output, (), length, _, mapM_binary chain, i, h, rfl⟩

end CertRenewer.Wire
