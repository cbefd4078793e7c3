import CertRenewer.Bounds
import CertRenewer.Frames

/-!
# What the executor answers

`handle` and `serve_forever` of `unifi_executor_service.py`, from the bytes that
a client sends to the bytes that it gets. Only an error of the socket is caught
around the answer, so that the service lives as long as every answer fits into a
message.
-/

namespace CertRenewer

open Crash Keytool JournalText
open Prog (Ensures ensures_pure ensures_raise ensures_ofExcept ensures_guard)

/-! ## Values and documents -/

namespace Json

mutual

def document : Json → Document
  | .null => .null
  | .bool value => .bool value
  | .int value => .int value
  | .float text => .real text.toList
  | .string value => .string (points value)
  | .array items => .array (documents items)
  | .object fields => .object (members fields)

def documents : List Json → List Document
  | [] => []
  | item :: rest => item.document :: documents rest

def members : List (String × Json) → List (List Nat × Document)
  | [] => []
  | (name, value) :: rest => (points name, value.document) :: members rest

end

end Json

namespace Document

/-- A surrogate stands for no character; it is read as the replacement
character, which no check of the executor tells from it. -/
def character (point : Nat) : Char := if point.isValidChar then .ofNat point else '\uFFFD'

def text (points : List Nat) : String := .ofList (points.map character)

mutual

def json : Document → Json
  | .null => .null
  | .bool value => .bool value
  | .int value => .int value
  | .real literal => .float (.ofList literal)
  | .string points => .string (text points)
  | .array items => .array (jsons items)
  | .object members => .object (fields members)

def jsons : List Document → List Json
  | [] => []
  | item :: rest => item.json :: jsons rest

def fields : List (List Nat × Document) → List (String × Json)
  | [] => []
  | (name, value) :: rest => (text name, value.json) :: fields rest

end

end Document

/-! ## Responses -/

/-- The values of `_RECOVERY_RESULTS`. -/
def RecoveryOutcome.text : RecoveryOutcome → String
  | .noActiveTransaction => "no_active_transaction"
  | .recoveredOld => "recovered_old"
  | .serviceResumedPendingLiveVerification => "service_resumed_pending_live_verification"
  | .renewalFinalized => "renewal_finalized"

/-- What `dispatch` returns. -/
def Reply.json : Reply → Json
  | .state seen => .object [("state", Wire.stateFields seen)]
  | .csrPem pem => .object [("csr_pem", Wire.encodeBinary pem)]
  | .outcome found => .object [("outcome", .string found.text)]

def Response.json : Response → Json
  | .ok result => .object [("version", .int protocolVersion), ("ok", .bool true), ("result", result.json)]
  | .failed => .object [("version", .int protocolVersion), ("ok", .bool false),
      ("error", .string "executor_operation_failed")]

namespace Wire

/-! ## The service -/

/-- A client: what comes from its socket, whether the socket takes the timeout of
the answer, and after how many bytes of the answer it fails, if it does. -/
structure Caller where
  incoming : Connection
  configurable : Bool
  gone : Option Nat

/-- The answer to a client: what was to be sent, what has been, and the result of
`handle`. -/
structure Answer where
  response : Response
  bytes : Bytes
  received : Bytes
  sent : Bool

section
variable (x : Session) (json : Decoder) (clock : Nat → Int)

def readRequest : Io Document := do
  let now ← monotonic clock
  Service.readMessage json clock (some (now + requestReadTimeout))

/-- The request, or nothing where reading it raised. -/
def receive (caller : Caller) : Option Json :=
  match readRequest json clock caller.incoming with
  | (.ok value, _) => if caller.configurable then some value.json else none
  | _ => none

/-- `handle`. Each request has a new executor; what the socket fails with is caught,
and nothing else. -/
def Service.handle (caller : Caller) : Exec Answer := do
  Prog.update World.fresh
  let response ← CertRenewer.handle x (receive json clock caller)
  let bytes ← lift (Service.writeMessage response.json.document)
  match caller.gone with
  | none => pure ⟨response, bytes, bytes, true⟩
  | some n => pure ⟨response, bytes, bytes.take n, false⟩

/-- `serve_forever`, over the connections that are accepted. -/
def Service.serveForever : List Caller → Exec (List Answer)
  | [] => pure []
  | caller :: rest => do
    let answer ← Service.handle x json clock caller
    let others ← serveForever rest
    pure (answer :: others)

end

/-! ## Sizes -/

theorem base64Digit_printable (value : Nat) : Printable (base64Digit value).toNat := by
  have all : ∀ k : Fin 64, Printable (base64Digit k).toNat := by decide +kernel
  have length : base64Alphabet.length = 64 := by decide +kernel
  by_cases small : value < 64
  · exact all ⟨value, small⟩
  · have none_ : base64Alphabet[value]? = none := List.getElem?_eq_none (by omega)
    rw [base64Digit, none_]
    decide

theorem b64encode_printable (data : Bytes) : ∀ c ∈ b64encode data, Printable c.toNat := by
  have padding : Printable '='.toNat := by decide
  fun_induction b64encode data with
  | case1 => simp
  | case2 =>
    simp only [List.forall_mem_cons, base64Digit_printable, padding, true_and]
    simp
  | case3 =>
    simp only [List.forall_mem_cons, base64Digit_printable, padding, true_and]
    simp
  | case4 a b c rest n ih =>
    simp only [List.forall_mem_cons, base64Digit_printable, true_and]
    exact ih

theorem short_binary (data : Bytes) : Short (2 * data.length + 4) (encodeBinary data).document.sorted.write := by
  have text : points (.ofList (b64encode data)) = (b64encode data).map Char.toNat := by
    rw [points, String.toList_ofList]
  have quoted : Short ((b64encode data).length + 2) (Document.quote (points (.ofList (b64encode data)))) := by
    rw [text]
    refine (short_quote ?_).mono (by rw [List.length_map])
    rw [List.forall_mem_map]
    exact b64encode_printable data
  refine quoted.mono ?_
  rw [b64encode_length]
  omega

theorem hexDigit_ascii (n : Nat) : (Document.hexDigit (n % 16)).toNat < 128 := by
  have all : ∀ k : Fin 16, (Document.hexDigit k).toNat < 128 := by decide
  exact all ⟨n % 16, Nat.mod_lt n (by decide)⟩

theorem short_escapeUnit (n : Nat) : Short 6 (Document.escapeUnit n) where
  ascii := by
    simp only [Document.escapeUnit, List.forall_mem_cons, hexDigit_ascii, true_and]
    exact ⟨by decide, by decide, by simp⟩
  length := Nat.le_refl 6

theorem short_escape (point : Nat) : Short 12 (Document.escape point) := by
  have two (c : Char) (ascii : c.toNat < 128) : Short 12 ['\\', c] := by
    refine Short.mono (m := 2) ⟨?_, Nat.le_refl 2⟩ (by decide)
    simp only [List.forall_mem_cons, ascii, true_and]
    exact ⟨by decide, by simp⟩
  unfold Document.escape
  iterate 7 (split; exact two _ (by decide))
  split
  · rename_i printable
    have valid : point.isValidChar := Or.inl (Nat.lt_of_le_of_lt printable.2 (by decide))
    refine Short.mono (m := 1) ⟨?_, Nat.le_refl 1⟩ (by decide)
    rw [List.forall_mem_singleton, Char.ofNat, dif_pos valid]
    exact Nat.lt_of_le_of_lt printable.2 (by decide)
  · split
    · exact (short_escapeUnit _).mono (by decide)
    · exact (short_escapeUnit _).append (short_escapeUnit _)

theorem short_text (text : List Nat) : Short (12 * text.length + 2) (Document.quote text) := by
  have inner : Short (12 * text.length) (text.flatMap Document.escape) := by
    induction text with
    | nil => exact ⟨by simp, by simp⟩
    | cons point rest ih =>
      rw [List.flatMap_cons]
      refine ((short_escape point).append ih).mono ?_
      rw [List.length_cons]
      omega
  exact (inner.append (⟨by simp, by simp⟩ : Short 1 ['"'])).cons (by decide)

theorem short_chain (chain : List Bytes) :
    Short (2 * (chain.map List.length).sum + 5 * chain.length)
      (Document.writeItems (Document.sortedItems (Json.documents (chain.map encodeBinary)))) := by
  induction chain with
  | nil => exact ⟨by simp [Json.documents, Document.sortedItems, Document.writeItems],
      by simp [Json.documents, Document.sortedItems, Document.writeItems]⟩
  | cons der chain ih =>
    refine ((short_binary der).items ih).mono ?_
    simp only [List.map_cons, List.sum_cons, List.length_cons]
    omega

theorem stateFields_sorted (state : PublicKeystoreState) : (stateFields state).document.sorted = .object [
    (points "certificate_chain_der",
      .array (Document.sortedItems (Json.documents (state.certificateChainDer.map encodeBinary)))),
    (points "keytool_output", .string (points state.keytoolOutput))] := rfl

theorem response_sorted (reply : Reply) : (Response.ok reply).json.document.sorted = .object [
    (points "ok", .bool true), (points "result", reply.json.document.sorted), (points "version", .int 2)] := rfl

theorem short_none : Short 0 (Document.writeMembers []) := ⟨by simp [Document.writeMembers], by simp [Document.writeMembers]⟩

theorem short_state {state : PublicKeystoreState} (h : Bounded state) :
    Short (5 * 2 ^ 20) (stateFields state).document.sorted.write := by
  have output : Short (12 * 1024 + 2) (Document.quote (points state.keytoolOutput)) := by
    refine (short_text _).mono ?_
    have length := h.output
    rw [points, List.length_map]
    omega
  have chain := short_member (by decide) (by decide : (points "certificate_chain_der").length ≤ 21)
    (short_chain state.certificateChainDer).array
  have text := @short_member 14 _ (points "keytool_output") (.string (points state.keytoolOutput)) (by decide) (by decide) output
  rw [stateFields_sorted]
  refine (chain.members (text.members short_none)).object.mono ?_
  have most := h.bytes
  have few := h.chain
  have limit : maxCertificateDerBytes = 2 ^ 20 := by decide
  omega

/-! ## Answers -/

/-- The closed shapes of a successful response, and what bounds them. -/
inductive Fits : OperationName → Reply → Prop where
  | inspect {state : PublicKeystoreState} (bounded : Bounded state) : Fits .inspect (.state state)
  | generateCsr {pem : Bytes} (bounded : pem.length ≤ maxCsrPemBytes) : Fits .generateCsr (.csrPem pem)
  | install {state : PublicKeystoreState} (bounded : Bounded state) : Fits .install (.state state)
  | recover (outcome : RecoveryOutcome) : Fits .recover (.outcome outcome)
  | verifyPending : Fits .verifyPending (.outcome .renewalFinalized)

theorem short_outcome (outcome : RecoveryOutcome) : Short 50 (Document.quote (points outcome.text)) := by
  refine (@short_quote (points outcome.text) ?_).mono ?_
  · cases outcome
    all_goals decide
  · cases outcome
    all_goals decide

theorem short_reply {operation : OperationName} {reply : Reply} (h : Fits operation reply) :
    Short (6 * 2 ^ 20) reply.json.document.sorted.write := by
  have only {m n : Nat} {name : List Nat} {value : Document} (printable : ∀ p ∈ name, Printable p)
      (length : name.length ≤ m) (short : Short n value.write) (le : m + n + 6 ≤ 6 * 2 ^ 20) :
      Short (6 * 2 ^ 20) (Document.write (.object [(name, value)])) :=
    ((short_member printable length short).members short_none).object.mono le
  have state {seen : PublicKeystoreState} (bounded : Bounded seen) :
      Short (6 * 2 ^ 20) (Reply.state seen).json.document.sorted.write :=
    only (by decide) (by decide : (points "state").length ≤ 5) (short_state bounded) (by decide)
  have outcome (found : RecoveryOutcome) : Short (6 * 2 ^ 20) (Reply.outcome found).json.document.sorted.write :=
    @only _ _ _ (.string (points found.text)) (by decide) (by decide : (points "outcome").length ≤ 7)
      (short_outcome found) (by decide)
  cases h with
  | inspect bounded => exact state bounded
  | generateCsr bounded =>
    refine only (by decide) (by decide : (points "csr_pem").length ≤ 7) (short_binary _) ?_
    have limit : maxCsrPemBytes = 2 ^ 16 := by decide
    omega
  | install bounded => exact state bounded
  | recover found => exact outcome found
  | verifyPending => exact outcome .renewalFinalized

/-- Every successful response fits into a message. -/
theorem writeMessage_fits {operation : OperationName} {reply : Reply} (h : Fits operation reply) :
    ∃ bytes, Service.writeMessage (Response.ok reply).json.document = .ok bytes := by
  have ok := @short_member 2 5 (points "ok") (.bool true) (by decide) (by decide) (short_bool true)
  have result := short_member (by decide) (by decide : (points "result").length ≤ 6) (short_reply h)
  have version := @short_member 7 20 (points "version") (.int 2) (by decide) (by decide) (short_int (by decide))
  have whole := (ok.members (result.members (version.members short_none))).object
  obtain ⟨data, encoded, _, length, _⟩ := encodeAscii_short whole
  have fits : data.length ≤ maxMessageBytes := Nat.le_trans length (by decide)
  have text : dumps (Response.ok reply).json.document = .ok data := by
    rw [dumps, response_sorted, encoded]
    rfl
  exact ⟨_, frame_of_short text fits⟩

section
variable {x : Session} {lib : Library}

theorem ensures_serveInspect (same : x.host.lib = reading lib) (compact : Compact lib) (arguments : Json) :
    Ensures (serveInspect x arguments) (Fits .inspect) := by
  refine .after fun _ => ensures_inspectPublicState.bind fun state collected => ?_
  obtain ⟨data, parsed⟩ := collected
  rw [same] at parsed
  refine (ensures_ofExcept _).mono fun reply encoded => ?_
  simp only [CertRenewer.encodeState, bind_eq_ok] at encoded
  obtain ⟨_, _, last⟩ := encoded
  rw [← Except.ok.inj last]
  exact .inspect (parseCollection_bounded compact parsed)

theorem ensures_serveGenerateCsr (arguments : Json) : Ensures (serveGenerateCsr x arguments) (Fits .generateCsr) := by
  refine .after fun fields => ?_
  split
  · refine .after fun _ => .after fun policy => (ensures_generateCsr policy).bind fun pem bounded => ?_
    exact ensures_pure (.generateCsr bounded)
  · exact ensures_raise _

theorem ensures_serveInstall (same : x.host.lib = reading lib) (arguments : Json) :
    Ensures (serveInstall x arguments) (Fits .install) := by
  refine .after fun fields => ?_
  split
  · refine .after fun _ => .after fun request => (ensures_installCertificate request).bind fun inspection known => ?_
    obtain ⟨after, inspected⟩ := known
    refine .after fun now => (ensures_ofExcept _).bind fun plan prepared => (ensures_ofExcept _).bind fun state built => ?_
    refine (ensures_ofExcept _).mono fun reply encoded => ?_
    simp only [CertRenewer.encodeState, bind_eq_ok] at encoded
    obtain ⟨_, _, last⟩ := encoded
    rw [← Except.ok.inj last]
    exact .install (inspectionState_bounded same inspected prepared built)
  · exact ensures_raise _

theorem ensures_serveVerifyPending (arguments : Json) :
    Ensures (serveVerifyPending x arguments) (Fits .verifyPending) := by
  refine .after fun _ => .after fun outcome => (ensures_guard _ _).bind fun _ finalized => ?_
  rw [finalized]
  exact ensures_pure .verifyPending

theorem ensures_dispatch (same : x.host.lib = reading lib) (compact : Compact lib) (message : Json) :
    Ensures (dispatch x message) (fun reply => ∃ operation arguments,
      decodeEnvelope message = .ok (operation, arguments) ∧ Fits operation reply) := by
  refine (ensures_ofExcept _).bind fun envelope decoded => ?_
  obtain ⟨operation, arguments⟩ := envelope
  have served {m : Exec Reply} (h : Ensures m (Fits operation)) : Ensures m (fun reply => ∃ operation arguments,
      decodeEnvelope message = .ok (operation, arguments) ∧ Fits operation reply) :=
    h.mono fun _ fits => ⟨operation, arguments, decoded, fits⟩
  cases operation with
  | inspect => exact served (ensures_serveInspect same compact arguments)
  | generateCsr => exact served (ensures_serveGenerateCsr arguments)
  | install => exact served (ensures_serveInstall same arguments)
  | recover => exact served (.after fun _ => .after fun outcome => ensures_pure (.recover outcome))
  | verifyPending => exact served (ensures_serveVerifyPending arguments)

theorem handle_answers (same : x.host.lib = reading lib) (compact : Compact lib) (message : Option Json) (w : World) :
    Prog.Holds (CertRenewer.handle x message)
      (fun response _ => response = .failed ∨ ∃ value operation arguments reply, message = some value ∧
        decodeEnvelope value = .ok (operation, arguments) ∧ response = .ok reply ∧ Fits operation reply)
      (fun _ _ => False) (fun _ => True) w := by
  unfold CertRenewer.handle
  rw [Prog.holds_handle]
  cases message with
  | none => exact Or.inl rfl
  | some value =>
    refine Prog.holds_bind_of ((ensures_dispatch same compact value w).mono (fun _ _ h => h) (fun _ _ _ => Or.inl rfl)
      fun _ h => h) fun reply t known => ?_
    obtain ⟨operation, arguments, decoded, fits⟩ := known
    exact Or.inr ⟨value, operation, arguments, reply, rfl, decoded, rfl, fits⟩

end

/-! ## The service lives -/

/-- What is known of the answer to a client. -/
structure Answered (json : Decoder) (clock : Nat → Int) (refusal : Bytes) (caller : Caller) (answer : Answer) : Prop where
  written : Service.writeMessage answer.response.json.document = .ok answer.bytes
  fits : answer.bytes.length ≤ 4 + maxMessageBytes
  shape : answer.response = .failed ∧ answer.bytes = refusal ∨ ∃ message operation arguments reply,
    receive json clock caller = some message ∧ decodeEnvelope message = .ok (operation, arguments) ∧
      answer.response = .ok reply ∧ Fits operation reply
  received : answer.received <+: answer.bytes
  sent : answer.sent = true ↔ caller.gone = none

section
variable {x : Session} {lib : Library} {json : Decoder} {clock : Nat → Int} {refusal : Bytes}

theorem service_handle (same : x.host.lib = reading lib) (compact : Compact lib)
    (fixed : Service.writeMessage Response.failed.json.document = .ok refusal) (caller : Caller) (w : World) :
    Prog.Holds (Service.handle x json clock caller) (fun answer _ => Answered json clock refusal caller answer)
      (fun _ _ => False) (fun _ => True) w := by
  unfold Service.handle
  rw [Prog.holds_bind, Prog.holds_update]
  refine Prog.holds_bind_of (handle_answers same compact _ _) fun response t known => ?_
  obtain ⟨bytes, written, shape⟩ : ∃ bytes, Service.writeMessage response.json.document = .ok bytes ∧
      (response = .failed ∧ bytes = refusal ∨ ∃ message operation arguments reply,
        receive json clock caller = some message ∧ decodeEnvelope message = .ok (operation, arguments) ∧
          response = .ok reply ∧ Fits operation reply) := by
    rcases known with rfl | ⟨message, operation, arguments, reply, read, decoded, rfl, closed⟩
    · exact ⟨refusal, fixed, Or.inl ⟨rfl, rfl⟩⟩
    · obtain ⟨bytes, written⟩ := writeMessage_fits closed
      exact ⟨bytes, written, Or.inr ⟨message, operation, arguments, reply, read, decoded, rfl, closed⟩⟩
  rw [written]
  cases gone : caller.gone with
  | none => exact ⟨written, frame_length written, shape, List.prefix_refl bytes, by simp [gone]⟩
  | some n => exact ⟨written, frame_length written, shape, List.take_prefix n bytes, by simp [gone]⟩

theorem service_serveForever (same : x.host.lib = reading lib) (compact : Compact lib)
    (fixed : Service.writeMessage Response.failed.json.document = .ok refusal) (callers : List Caller) (w : World) :
    Prog.Holds (Service.serveForever x json clock callers)
      (fun answers _ => List.Forall₂ (Answered json clock refusal) callers answers) (fun _ _ => False) (fun _ => True) w := by
  induction callers generalizing w with
  | nil => exact .nil
  | cons caller rest ih =>
    refine Prog.holds_bind_of (service_handle same compact fixed caller w) fun answer t here => ?_
    exact Prog.holds_bind_of (ih t) fun answers _ later => .cons here later

end

/-- No client raises anything into the service, whatever it sends and whenever it
leaves: it is answered with a closed shape that fits into a message, or with the
one error, whose bytes are always the same. -/
theorem no_client_stops_the_service :
    ∃ refusal : Bytes, ∀ (lib : Library) (x : Session) (json : Decoder) (clock : Nat → Int),
      x.host.lib = reading lib → Compact lib →
      (∀ caller w, Prog.Holds (Service.handle x json clock caller)
        (fun answer _ => Answered json clock refusal caller answer) (fun _ _ => False) (fun _ => True) w) ∧
      ∀ callers w, Prog.Holds (Service.serveForever x json clock callers)
        (fun answers _ => List.Forall₂ (Answered json clock refusal) callers answers)
        (fun _ _ => False) (fun _ => True) w := by
  obtain ⟨refusal, fixed⟩ : ∃ refusal, Service.writeMessage Response.failed.json.document = .ok refusal :=
    exists_ok (by decide +kernel)
  refine ⟨refusal, fun lib x json clock same compact => ⟨fun caller w => ?_, fun callers w => ?_⟩⟩
  · exact service_handle same compact fixed caller w
  · exact service_serveForever same compact fixed callers w

/-! One client says nothing and another asks for a recovery. -/

def Sample.executor : Session :=
  ⟨⟨reading Keytool.Sample.armouring, fun _ => some (Keytool.Sample.collection [Keytool.Sample.unifi])⟩,
    CertRenewer.Sample.policy, CertRenewer.Sample.oracle []⟩

def Sample.recovery : Document := .object [(points "arguments", .object []),
  (points "operation", .string (points "recover")), (points "version", .int 2)]

def Sample.scanner : Decoder where
  decode _ data := decodeAscii data
  scan text := if text = recovery.sorted.write.map Char.toNat then some recovery.sorted else none

def Sample.silent : Caller := ⟨⟨0, []⟩, true, some 2⟩

def Sample.asking : Caller := ⟨⟨0, [⟨3, some ((frame recovery).toOption.getD [])⟩]⟩, true, none⟩

theorem Sample.compact : Compact Keytool.Sample.armouring := by
  intro data c rest h
  change (if data = (Keytool.Sample.armoured "AQ==").map (fun c => .ofNat c.toNat) then
      (CertRenewer.Sample.load [1]).map fun c => [c]
    else if data = (Keytool.Sample.armoured "AgI=").map (fun c => .ofNat c.toNat) then
      (CertRenewer.Sample.load [2, 2]).map fun c => [c]
    else none) = some (c :: rest) at h
  split at h
  · rename_i same
    cases h
    rw [same]
    decide +kernel
  · split at h
    · rename_i same
      cases h
      rw [same]
      decide +kernel
    · cases h

theorem Sample.receive_asking : receive scanner (fun _ => 0) asking = some recovery.json := by
  obtain ⟨bytes, sent⟩ : ∃ bytes, frame recovery = .ok bytes := exists_ok (by decide +kernel)
  have some_ : bytes ≠ [] := by
    obtain ⟨data, rfl, _⟩ := frame_eq_ok sent
    simp [packLength]
  have known : scanner.scan (recovery.sorted.write.map Char.toNat) = some recovery.sorted := by
    unfold scanner
    simp only [↓reduceIte]
  have reads : Reads scanner recovery := ⟨fun _ _ h => h, by decide +kernel, known⟩
  have arrivals : asking.incoming.arrivals = [⟨3, some bytes⟩] := by
    change [Arrival.mk 3 (some ((frame recovery).toOption.getD []))] = _
    rw [sent]
    rfl
  have limit : (3 : Int) < 0 + requestReadTimeout := by decide
  have offers : Offers (0 + requestReadTimeout) (bytes ++ []) [] ⟨1, asking.incoming.arrivals⟩ := by
    refine ⟨asking.incoming.arrivals, (List.append_nil _).symm, ?_, ?_⟩
    · rw [arrivals, Timely, List.forall_mem_singleton]
      exact ⟨limit, bytes, rfl, some_⟩
    · rw [arrivals, List.append_nil]
      exact List.append_nil bytes
  have punctual : Punctual (fun _ => 0) (0 + requestReadTimeout) bytes.length ⟨1, asking.incoming.arrivals⟩ :=
    fun _ _ => Int.lt_trans (by decide : (0 : Int) < 3) limit
  obtain ⟨value, run, same, _⟩ := (readFrame_reads reads (by decide +kernel) sent punctual offers).exists
  have whole : readRequest scanner (fun _ => 0) asking.incoming =
      readFrame scanner (fun _ => 0) (0 + requestReadTimeout) ⟨1, asking.incoming.arrivals⟩ := rfl
  have sorted : recovery.sorted = recovery := rfl
  rw [receive, whole, Prog.eq_of_fst run, same, sorted]
  rfl

/-- The executor's answer goes out as it is. -/
theorem handle_of_response {x : Session} {json : Decoder} {clock : Nat → Int} {caller : Caller} {w : World}
    {response : Response} {bytes : Bytes}
    (handled : (CertRenewer.handle x (receive json clock caller) w.fresh).1 = .ok response)
    (written : Service.writeMessage response.json.document = .ok bytes) (there : caller.gone = none) :
    (Service.handle x json clock caller w).1 = .ok ⟨response, bytes, bytes, true⟩ := by
  unfold Service.handle
  rw [Prog.bind_apply]
  dsimp only [Prog.update]
  rw [Prog.bind_apply, Prog.eq_of_fst handled]
  dsimp only
  rw [written, there]
  rfl

theorem sample_service_lives :
    ∃ refusal : Bytes,
      (∀ e, (Service.serveForever Sample.executor Sample.scanner (fun _ => 0) [Sample.silent, Sample.asking]
        CertRenewer.Sample.start).1 ≠ .raised e) ∧
      ∃ answer, (Service.handle Sample.executor Sample.scanner (fun _ => 0) Sample.asking CertRenewer.Sample.start).1 =
          .ok answer ∧
        answer.response = .ok (.outcome .noActiveTransaction) ∧
        Answered Sample.scanner (fun _ => 0) refusal Sample.asking answer := by
  obtain ⟨refusal, all⟩ := no_client_stops_the_service
  have served (x : Session) (json : Decoder) (clock : Nat → Int) (same : x.host.lib = reading Keytool.Sample.armouring)
      (callers : List Caller) (w : World) (e : Error) : (Service.serveForever x json clock callers w).1 ≠ .raised e :=
    fun raised => ((all _ x json clock same Sample.compact).2 callers w).raised (Prog.eq_of_fst raised)
  have answered (x : Session) (json : Decoder) (clock : Nat → Int) (same : x.host.lib = reading Keytool.Sample.armouring)
      (caller : Caller) (w : World) (answer : Answer) (run : (Service.handle x json clock caller w).1 = .ok answer) :
      Answered json clock refusal caller answer :=
    ((all _ x json clock same Sample.compact).1 caller w).ok (Prog.eq_of_fst run)
  have handled : (CertRenewer.handle Sample.executor (receive Sample.scanner (fun _ => 0) Sample.asking)
      CertRenewer.Sample.start.fresh).1 = .ok (.ok (.outcome .noActiveTransaction)) := by
    rw [Sample.receive_asking]
    decide +kernel
  obtain ⟨bytes, written⟩ : ∃ bytes,
      Service.writeMessage (Response.ok (.outcome .noActiveTransaction)).json.document = .ok bytes :=
    exists_ok (by decide +kernel)
  have run := handle_of_response handled written rfl
  exact ⟨refusal, served _ _ _ rfl _ _, _, run, rfl, answered _ _ _ rfl _ _ _ run⟩

end Wire

end CertRenewer
