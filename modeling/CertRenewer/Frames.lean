import CertRenewer.JournalCodec
import CertRenewer.Crash.Program

/-!
# Messages on the socket

`_write_message` and `_read_message` of `unifi_executor_service.py` and of
`unifi_executor_client.py`: a length of four bytes, then a JSON text. The peer's
bytes come in chunks of any size, at any time, and may end or fail anywhere.
-/

namespace CertRenewer.Wire

open Crash JournalText

def maxMessageBytes : Nat := 8 * 1024 * 1024

/-- In microseconds. -/
def socketTimeout : Int := 300 * 1000000
def requestReadTimeout : Int := 10 * 1000000

inductive Failure where
  | timeout
  | value
  | os
  deriving DecidableEq, Repr

/-- Bytes that are there from some time on, none at the end of the stream; or
an error. -/
structure Arrival where
  came : Int
  bytes : Option Bytes
  deriving DecidableEq, Repr

/-- The readings of the clock so far, and what is still to come. -/
structure Connection where
  readings : Nat
  arrivals : List Arrival
  deriving DecidableEq, Repr

abbrev Io := Prog Connection Failure

/-! ## Writing -/

/-- `struct.pack("!I", length)`. -/
def packLength (length : Nat) : Bytes :=
  [.ofNat (length / 2 ^ 24), .ofNat (length / 2 ^ 16), .ofNat (length / 2 ^ 8), .ofNat length]

/-- `struct.unpack("!I", header)[0]`. -/
def unpackLength (header : Bytes) : Nat := header.foldl (fun n b => n * 256 + b.toNat) 0

/-- `json.dumps` without blanks, in ASCII. -/
def dumps (value : Document) : Result Bytes :=
  orFail (encodeAscii value.sorted.write) "'ascii' codec can't encode characters"

def frame (value : Document) : Result Bytes := do
  let data ← dumps value
  require (data.length ≤ maxMessageBytes) "ValueError"
  .ok (packLength data.length ++ data)

/-- The bytes that `_write_message` of the service sends. -/
def Service.writeMessage (value : Document) : Result Bytes := frame value

/-- The bytes that `_write_message` of the client sends, after its hook. -/
def Client.writeMessage (value : Document) (beforeSend : Result Unit) : Result Bytes := do
  let bytes ← frame value
  beforeSend
  .ok bytes

/-! ## Reading -/

section
variable (json : Decoder) (clock : Nat → Int)

def monotonic : Io Int := do
  let n ← Prog.read Connection.readings
  Prog.update fun c => { c with readings := n + 1 }
  pure (clock n)

/-- `recv`, with a timeout at the deadline. -/
def recv (limit : Nat) (deadline : Int) : Io Bytes := do
  match ← Prog.read Connection.arrivals with
  | [] => Prog.raise .timeout
  | ⟨came, bytes⟩ :: rest =>
    if deadline ≤ came then Prog.raise .timeout
    else
      match bytes with
      | none => Prog.raise .os
      | some bytes =>
        Prog.update fun c => { c with
          arrivals := if bytes.length ≤ limit then rest else ⟨came, some (bytes.drop limit)⟩ :: rest }
        pure (bytes.take limit)

/-- The loop of `_read_exact`. -/
def readExact (length : Nat) (deadline : Int) (data : Bytes) : Io Bytes :=
  if _full : length ≤ data.length then pure data
  else do
    let now ← monotonic clock
    if deadline - now ≤ 0 then Prog.raise .timeout
    else do
      let chunk ← recv (length - data.length) deadline
      if _ended : chunk = [] then Prog.raise .value else readExact length deadline (data ++ chunk)
  termination_by length - data.length
  decreasing_by
    have := List.length_pos_iff.mpr _ended
    rw [List.length_append]
    omega

/-- `json.loads` of the bytes, with the hook that refuses a repeated name. -/
def loads (data : Bytes) : Option Document := do
  let text ← json.decode .utf8 data
  let document ← json.scan text
  document.load

def readFrame (deadline : Int) : Io Document := do
  let header ← readExact clock 4 deadline []
  let length := unpackLength header
  if 1 ≤ length ∧ length ≤ maxMessageBytes then do
    let data ← readExact clock length deadline []
    match loads json data with
    | some value => pure value
    | none => Prog.raise .value
  else Prog.raise .value

/-- `_read_message` of the service. -/
def Service.readMessage (deadline : Option Int) : Io Document := do
  match deadline with
  | some deadline => readFrame json clock deadline
  | none => do
    let now ← monotonic clock
    readFrame json clock (now + socketTimeout)

/-- `_read_message` of the client. -/
def Client.readMessage : Io Document := do
  let now ← monotonic clock
  readFrame json clock (now + socketTimeout)

end

/-! ## The length -/

theorem packLength_length (n : Nat) : (packLength n).length = 4 := rfl

theorem unpack_pack {n : Nat} (h : n < 2 ^ 32) : unpackLength (packLength n) = n := by
  simp only [packLength, unpackLength, List.foldl_cons, List.foldl_nil, UInt8.toNat_ofNat']
  omega

/-! ## The stream -/

def stream (arrivals : List Arrival) : Bytes := arrivals.flatMap fun a => a.bytes.getD []

/-- Chunks that come before the deadline, each with a byte at least. -/
def Timely (deadline : Int) (cut : List Arrival) : Prop :=
  ∀ a ∈ cut, a.came < deadline ∧ ∃ bytes, a.bytes = some bytes ∧ bytes ≠ []

/-- A connection with chunks that come in time, which hold these bytes. -/
structure Offers (deadline : Int) (bytes : Bytes) (later : List Arrival) (c : Connection) : Prop where
  chunks : ∃ cut, c.arrivals = cut ++ later ∧ Timely deadline cut ∧ stream cut = bytes

/-- `recv` takes the beginning of what is offered, some of it and no more than
it was asked for. -/
theorem recv_takes {limit : Nat} {deadline : Int} {bytes : Bytes} {later : List Arrival} {c : Connection}
    (offers : Offers deadline bytes later c) (asked : 0 < limit) (some_ : bytes ≠ []) :
    Prog.Returns (recv limit deadline) (fun chunk t => chunk ≠ [] ∧ chunk.length ≤ limit ∧
      t.readings = c.readings ∧ ∃ rest, bytes = chunk ++ rest ∧ Offers deadline rest later t) c := by
  obtain ⟨cut, arrivals, timely, rfl⟩ := offers.chunks
  cases cut with
  | nil => exact absurd rfl some_
  | cons a rest =>
    obtain ⟨came, given⟩ := a
    obtain ⟨⟨early, here, rfl, nonempty⟩, others⟩ := List.forall_mem_cons.mp timely
    unfold Prog.Returns recv
    rw [Prog.holds_bind, Prog.holds_read, arrivals]
    dsimp only [List.cons_append]
    rw [if_neg (Int.not_le.mpr early)]
    rw [Prog.holds_bind, Prog.holds_update, Prog.holds_pure]
    have whole : stream (⟨came, some here⟩ :: rest) = here ++ stream rest := rfl
    refine ⟨?_, List.length_take_le _ _, rfl, here.drop limit ++ stream rest, ?_, ?_⟩
    · rw [ne_eq, List.take_eq_nil_iff]
      rintro (none | none)
      · omega
      · exact nonempty none
    · rw [whole, ← List.append_assoc, List.take_append_drop]
    · by_cases all : here.length ≤ limit
      · refine ⟨rest, ?_, others, ?_⟩
        · simp only [all, ↓reduceIte]
        · rw [List.drop_eq_nil_of_le all, List.nil_append]
      · refine ⟨⟨came, some (here.drop limit)⟩ :: rest, ?_, ?_, rfl⟩
        · simp only [all, ↓reduceIte, List.cons_append]
        · refine List.forall_mem_cons.mpr ⟨⟨early, _, rfl, ?_⟩, others⟩
          rw [ne_eq, List.drop_eq_nil_iff]
          exact all

/-- The readings of the clock that the next `n` chunks may need. -/
def Punctual (clock : Nat → Int) (deadline : Int) (n : Nat) (c : Connection) : Prop :=
  ∀ k < n, clock (c.readings + k) < deadline

theorem readExact_reads {clock : Nat → Int} {length : Nat} {deadline : Int} {data want extra : Bytes}
    {later : List Arrival} {c : Connection} (size : length = data.length + want.length)
    (punctual : Punctual clock deadline want.length c) (offers : Offers deadline (want ++ extra) later c) :
    Prog.Returns (readExact clock length deadline data) (fun read t => read = data ++ want ∧
      (∃ n ≤ want.length, t.readings = c.readings + n) ∧ Offers deadline extra later t) c := by
  -- Every chunk leaves fewer bytes to wait for.
  induction rest : want.length using Nat.strongRecOn generalizing data want c with
  | _ n ih =>
    subst rest
    unfold Prog.Returns
    rw [readExact]
    by_cases full : length ≤ data.length
    · rw [dif_pos full]
      obtain rfl : want = [] := List.length_eq_zero_iff.mp (by omega)
      exact ⟨by simp, ⟨0, by simp, rfl⟩, offers⟩
    · rw [dif_neg full]
      have more : 0 < want.length := by omega
      have now : clock c.readings < deadline := punctual 0 more
      simp only [monotonic, Prog.holds_bind, Prog.holds_read, Prog.holds_update, Prog.holds_pure]
      rw [if_neg (by omega), Prog.holds_bind]
      have waiting : Offers deadline (want ++ extra) later { c with readings := c.readings + 1 } := ⟨offers.chunks⟩
      have asked : 0 < length - data.length := by omega
      have some_ : want ++ extra ≠ [] := fun none => by
        rw [(List.append_eq_nil_iff.mp none).1] at more
        cases more
      refine (recv_takes waiting asked some_).mono (fun chunk t taken => ?_) (fun _ _ no => no) fun _ no => no
      obtain ⟨nonempty, short, readings, left, split, offers'⟩ := taken
      rw [dif_neg nonempty]
      -- The chunk is the beginning of what is wanted.
      have fits : chunk.length ≤ want.length := by omega
      obtain ⟨rest, rfl⟩ : chunk <+: want :=
        List.prefix_of_prefix_length_le ⟨left, split.symm⟩ (List.prefix_append want extra) fits
      obtain rfl : left = rest ++ extra := by
        rw [List.append_assoc] at split
        exact (List.append_cancel_left split).symm
      have progress : 0 < chunk.length := List.length_pos_iff.mpr nonempty
      rw [List.length_append] at punctual size fits
      have later_ : Punctual clock deadline rest.length t := by
        intro k small
        have reading := punctual (1 + k) (by omega)
        rw [readings]
        rwa [← Nat.add_assoc] at reading
      refine (ih rest.length (by rw [List.length_append]; omega) (by rw [List.length_append]; omega) later_ offers' rfl).mono
        (fun read u done => ?_) (fun _ _ no => no) fun _ no => no
      obtain ⟨rfl, ⟨n, few, count⟩, offers''⟩ := done
      refine ⟨by rw [List.append_assoc], ⟨1 + n, ?_, ?_⟩, offers''⟩
      · rw [List.length_append]
        omega
      · rw [count, readings, Nat.add_assoc]

/-! ## Messages -/

/-- What the reader relies on: bytes of ASCII are UTF-8, no text is no document,
and the scanner reads back what is written of the value. -/
structure Reads (json : Decoder) (value : Document) : Prop where
  ascii : ∀ data text, decodeAscii data = some text → json.decode .utf8 data = some text
  empty : json.scan [] = none
  inverse : json.scan (value.sorted.write.map Char.toNat) = some value.sorted

/-- A frame is the length and the text of the value. -/
theorem frame_eq_ok {value : Document} {bytes : Bytes} (h : frame value = .ok bytes) :
    ∃ data : Bytes, bytes = packLength data.length ++ data ∧ data.length ≤ maxMessageBytes ∧
      decodeAscii data = some (value.sorted.write.map Char.toNat) := by
  simp only [frame, dumps, bind_eq_ok, orFail_eq_ok, require_eq_ok] at h
  obtain ⟨data, encoded, _, fits, sent⟩ := h
  have ascii : ∀ c ∈ value.sorted.write, c.toNat < 128 := by
    unfold encodeAscii at encoded
    split at encoded
    · rename_i all
      simpa using all
    · cases encoded
  obtain ⟨other, same, _, _, decoded⟩ := encodeAscii_short ⟨ascii, Nat.le_refl _⟩
  obtain rfl : other = data := Option.some.inj (same.symm.trans encoded)
  exact ⟨other, (Except.ok.inj sent).symm, fits, decoded⟩

theorem frame_length {value : Document} {bytes : Bytes} (h : frame value = .ok bytes) :
    bytes.length ≤ 4 + maxMessageBytes := by
  obtain ⟨data, rfl, fits, _⟩ := frame_eq_ok h
  rw [List.length_append, packLength_length]
  exact Nat.add_le_add_left fits 4

theorem frame_of_short {value : Document} {data : Bytes} (text : dumps value = .ok data)
    (fits : data.length ≤ maxMessageBytes) : frame value = .ok (packLength data.length ++ data) := by
  simp only [frame, text, bind_eq_ok, require_eq_ok]
  exact ⟨data, rfl, (), fits, rfl⟩

theorem loads_written {json : Decoder} {value : Document} {data : Bytes} (reads : Reads json value)
    (dict : value.distinct = true) (decoded : decodeAscii data = some (value.sorted.write.map Char.toNat)) :
    loads json data = some value.sorted := by
  have loaded : value.sorted.load = some value.sorted := by
    rw [Document.load_eq, if_pos (value.distinct_sorted dict)]
  simp only [loads, reads.ascii data _ decoded, reads.inverse, loaded, Option.bind_eq_bind, Option.bind_some]

theorem written_nonempty {json : Decoder} {value : Document} {data : Bytes} (reads : Reads json value)
    (decoded : decodeAscii data = some (value.sorted.write.map Char.toNat)) : 1 ≤ data.length := by
  by_contra none
  obtain rfl : data = [] := List.length_eq_zero_iff.mp (by omega)
  have inverse := reads.inverse
  have text : ([] : List Nat) = value.sorted.write.map Char.toNat := (decodeAscii_eq_some.mp decoded).2.symm
  rw [← text, reads.empty] at inverse
  cases inverse

/-- A frame that comes in time is read as its value, and nothing behind it. -/
theorem readFrame_reads {json : Decoder} {clock : Nat → Int} {deadline : Int} {value : Document} {bytes extra : Bytes}
    {later : List Arrival} {c : Connection} (reads : Reads json value) (dict : value.distinct = true)
    (sent : frame value = .ok bytes) (punctual : Punctual clock deadline bytes.length c)
    (offers : Offers deadline (bytes ++ extra) later c) :
    Prog.Returns (readFrame json clock deadline) (fun again t => again = value.sorted ∧ Offers deadline extra later t) c := by
  obtain ⟨data, rfl, fits, decoded⟩ := frame_eq_ok sent
  rw [List.append_assoc] at offers
  have size : (packLength data.length ++ data).length = 4 + data.length := by
    rw [List.length_append, packLength_length]
  rw [size] at punctual
  unfold Prog.Returns readFrame
  rw [Prog.holds_bind]
  have first : Punctual clock deadline (packLength data.length).length c := fun k small =>
    punctual k (by rw [packLength_length] at small; omega)
  refine (readExact_reads (by simp [packLength_length]) first offers).mono (fun header t taken => ?_) (fun _ _ no => no)
    fun _ no => no
  obtain ⟨rfl, ⟨n, few, count⟩, waiting⟩ := taken
  have length : unpackLength ([] ++ packLength data.length) = data.length :=
    unpack_pack (Nat.lt_of_le_of_lt fits (by decide))
  dsimp only
  rw [length, if_pos ⟨written_nonempty reads decoded, fits⟩, Prog.holds_bind]
  have second : Punctual clock deadline data.length t := by
    intro k small
    rw [packLength_length] at few
    rw [count, Nat.add_assoc]
    exact punctual (n + k) (by omega)
  refine (readExact_reads (by simp) second waiting).mono (fun read u taken => ?_) (fun _ _ no => no) fun _ no => no
  obtain ⟨whole, _, rest⟩ := taken
  rw [whole, List.nil_append, loads_written reads dict decoded]
  exact ⟨rfl, rest⟩

end CertRenewer.Wire
