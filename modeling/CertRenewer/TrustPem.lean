import CertRenewer.Certificate

/-!
# The trust bundle scanner

`_validate_trust_pem_structure` of `certificate.py`: a byte cursor that goes
over the bundle once. It accepts exactly the bundles of the grammar below, and
every text that the pattern for a single certificate matches.
-/

namespace CertRenewer.TrustPem

/-! ## The scanner -/

/-- `-----BEGIN CERTIFICATE-----`. -/
def pemBegin : Bytes :=
  [45, 45, 45, 45, 45, 66, 69, 71, 73, 78, 32, 67, 69, 82, 84, 73, 70, 73, 67, 65, 84, 69,
    45, 45, 45, 45, 45]

/-- `-----END CERTIFICATE-----`. -/
def pemEnd : Bytes :=
  [45, 45, 45, 45, 45, 69, 78, 68, 32, 67, 69, 82, 84, 73, 70, 73, 67, 65, 84, 69,
    45, 45, 45, 45, 45]

def pemWhitespace : Bytes := [32, 9, 13, 10]

def pemTrailingWhitespace : Bytes := [32, 9, 13, 10, 11, 12]

def pemBase64Bytes : Bytes :=
  ((List.range 26).map fun n => UInt8.ofNat (65 + n)) ++
    ((List.range 26).map fun n => UInt8.ofNat (97 + n)) ++
    ((List.range 10).map fun n => UInt8.ofNat (48 + n)) ++ [43, 47, 61]

def malformed {α : Type} : Result α := fail "trusted CA data is malformed"

/-- `data.startswith(marker, position)`. -/
def startsWith (data marker : Bytes) (position : Nat) : Bool := marker.isPrefixOf (data.drop position)

/-- The cursor after all bytes of the set. -/
def skip (data set : Bytes) (position : Nat) : Nat :=
  position + ((data.drop position).takeWhile fun byte => set.contains byte).length

/-- Where the first line ends, without a carriage return before its newline. -/
def lineEnd (rest : Bytes) : Nat :=
  if 0 < rest.idxOf 10 ∧ rest[rest.idxOf 10 - 1]? = some 13 then rest.idxOf 10 - 1 else rest.idxOf 10

/-- One line of a body: the cursor after its newline. -/
def bodyLine (data : Bytes) (position : Nat) : Result Nat :=
  if 10 ∈ data.drop position then
    if lineEnd (data.drop position) = 0 ∨
        ∃ byte ∈ (data.drop position).take (lineEnd (data.drop position)), byte ∉ pemBase64Bytes then
      malformed
    else .ok (position + (data.drop position).idxOf 10 + 1)
  else malformed

theorem bodyLine_advances {data : Bytes} {position next : Nat} (h : bodyLine data position = .ok next) :
    position < next ∧ next ≤ data.length := by
  unfold bodyLine at h
  split at h
  · rename_i found
    have inside := List.idxOf_lt_length_of_mem found
    rw [List.length_drop] at inside
    split at h
    · cases h
    · cases h
      omega
  · cases h

/-- The lines up to the end marker: the cursor at the marker, and their number. -/
def scanBody (data : Bytes) (position bodyLines : Nat) : Result (Nat × Nat) :=
  if startsWith data pemEnd position then .ok (position, bodyLines)
  else
    match h : bodyLine data position with
    | .ok next => scanBody data next (bodyLines + 1)
    | .error e => .error e
termination_by data.length - position
decreasing_by
  have := bodyLine_advances h
  omega

/-- The newline after a begin marker. -/
def lineBreak (data : Bytes) (position : Nat) : Result Nat :=
  if startsWith data [13, 10] position then .ok (position + 2)
  else if startsWith data [10] position then .ok (position + 1)
  else malformed

/-- One round of the loop: the cursor after a block, or `none` where the rest of
the data is white space. -/
def scanBlock (data : Bytes) (position blocks : Nat) : Result (Option Nat) :=
  let position := skip data pemWhitespace position
  if position = data.length then .ok none
  -- vertical tab and form feed are accepted after the last block only
  else if blocks ≠ 0 ∧ (data[position]? = some 11 ∨ data[position]? = some 12) then
    if skip data pemTrailingWhitespace position = data.length then .ok none else malformed
  else if startsWith data pemBegin position then do
    let position ← lineBreak data (position + pemBegin.length)
    let (position, bodyLines) ← scanBody data position 0
    if bodyLines = 0 then malformed else .ok (some (position + pemEnd.length))
  else malformed

theorem scanBody_advances {data : Bytes} {position bodyLines next lines : Nat}
    (h : scanBody data position bodyLines = .ok (next, lines)) :
    position ≤ next ∧ startsWith data pemEnd next = true := by
  fun_induction scanBody data position bodyLines with
  | case1 position bodyLines found =>
    cases h
    exact ⟨le_rfl, found⟩
  | case2 position bodyLines _ after line ih =>
    obtain ⟨later, found⟩ := ih h
    have := bodyLine_advances line
    exact ⟨by omega, found⟩
  | case3 => cases h

theorem lineBreak_advances {data : Bytes} {position next : Nat} (h : lineBreak data position = .ok next) :
    position < next := by
  unfold lineBreak at h
  split at h
  · cases h
    omega
  · split at h
    · cases h
      omega
    · cases h

/-- Every round of the loop that goes on moves the cursor forward. -/
theorem scanBlock_advances {data : Bytes} {position blocks next : Nat}
    (h : scanBlock data position blocks = .ok (some next)) : position < next ∧ next ≤ data.length := by
  unfold scanBlock at h
  dsimp only at h
  split at h
  · cases h
  split at h
  · split at h
    · cases h
    · cases h
  split at h
  · simp only [bind_eq_ok, Prod.exists] at h
    obtain ⟨start, newline, last, lines, body, h⟩ := h
    split at h
    · cases h
    · cases h
      have begun := lineBreak_advances newline
      obtain ⟨later, found⟩ := scanBody_advances body
      have skipped : position ≤ skip data pemWhitespace position := Nat.le_add_right _ _
      have fits := (List.isPrefixOf_iff_prefix.mp found).length_le
      rw [List.length_drop] at fits
      have size : pemEnd.length = 25 := rfl
      omega
  · cases h

/-- The loop of `_validate_trust_pem_structure`. -/
def scanFrom (data : Bytes) (position blocks : Nat) : Result Unit :=
  if position < data.length then
    match h : scanBlock data position blocks with
    | .ok (some next) => scanFrom data next (blocks + 1)
    | .ok none => if blocks = 0 then malformed else .ok ()
    | .error e => .error e
  else if blocks = 0 then malformed else .ok ()
termination_by data.length - position
decreasing_by
  have := scanBlock_advances h
  omega

def validateTrustPemStructure (data : Bytes) : Result Unit := scanFrom data 0 0

/-! ## The grammar -/

def Eol (bytes : Bytes) : Prop := bytes = [10] ∨ bytes = [13, 10]

/-- A line of base64 text. -/
def Line (line : Bytes) : Prop :=
  ∃ text eol, text ≠ [] ∧ (∀ byte ∈ text, byte ∈ pemBase64Bytes) ∧ Eol eol ∧ line = text ++ eol

/-- One certificate, with the white space before it. -/
def Block (block : Bytes) : Prop :=
  ∃ space eol lines, (∀ byte ∈ space, byte ∈ pemWhitespace) ∧ Eol eol ∧
    lines ≠ [] ∧ (∀ line ∈ lines, Line line) ∧
    block = space ++ (pemBegin ++ (eol ++ (lines.flatten ++ pemEnd)))

def Bundle (data : Bytes) : Prop :=
  ∃ blocks tail, blocks ≠ [] ∧ (∀ block ∈ blocks, Block block) ∧
    (∀ byte ∈ tail, byte ∈ pemTrailingWhitespace) ∧ data = blocks.flatten ++ tail

section
variable {data rest : Bytes} {position next : Nat}

/-! ## Lines -/

theorem newline_not_base64 : (10 : UInt8) ∉ pemBase64Bytes := by decide

theorem return_not_base64 : (13 : UInt8) ∉ pemBase64Bytes := by decide

theorem dash_not_base64 : (45 : UInt8) ∉ pemBase64Bytes := by decide

theorem drop_after {front : Bytes} (eq : data.drop position = front ++ rest) :
    data.drop (position + front.length) = rest := by
  rw [← List.drop_drop, eq, List.drop_left]

theorem idxOf_newline {line : Bytes} (plain : 10 ∉ line) : (line ++ 10 :: rest).idxOf 10 = line.length := by
  rw [List.idxOf_append_of_notMem plain, List.idxOf_cons_self, Nat.add_zero]

theorem lineEnd_concat {text : Bytes} {last : UInt8} (plain : 10 ∉ text ++ [last]) :
    lineEnd ((text ++ [last]) ++ 10 :: rest) = if last = 13 then text.length else text.length + 1 := by
  have found : ((text ++ [last]) ++ 10 :: rest)[text.length]? = some last := by simp
  simp only [lineEnd, idxOf_newline plain, List.length_append, List.length_singleton,
    Nat.add_sub_cancel, found, Option.some.injEq]
  simp

theorem bodyLine_sound (h : bodyLine data position = .ok next) :
    ∃ line, Line line ∧ next = position + line.length ∧ data.drop position = line ++ data.drop next := by
  unfold bodyLine at h
  split at h
  case isFalse => cases h
  rename_i found
  obtain ⟨line, rest, eq, plain⟩ := List.eq_append_cons_of_mem found
  rw [eq, idxOf_newline plain] at h
  split at h
  · cases h
  rename_i good
  cases h
  have after : data.drop (position + line.length + 1) = rest := by
    rw [Nat.add_assoc, ← List.drop_drop, eq, ← List.drop_drop, List.drop_left, List.drop_one, List.tail_cons]
  rw [after]
  -- the line ends before its last byte when that is a carriage return
  rcases List.eq_nil_or_concat line with rfl | ⟨text, last, rfl⟩
  · exact absurd (Or.inl (by simp [lineEnd])) good
  · rw [List.concat_eq_append] at plain eq good ⊢
    obtain ⟨filled, base64⟩ := not_or.mp good
    rw [lineEnd_concat plain] at filled base64
    push Not at base64
    by_cases carriage : last = 13
    · subst carriage
      rw [if_pos rfl] at filled base64
      refine ⟨text ++ [13, 10], ⟨text, [13, 10], ?_, ?_, Or.inr rfl, rfl⟩, by simp [Nat.add_assoc],
        by simp [eq]⟩
      · rintro rfl
        exact filled rfl
      · intro byte member
        exact base64 byte (by simpa using member)
    · rw [if_neg carriage] at base64
      refine ⟨text ++ [last] ++ [10], ⟨text ++ [last], [10], by simp, ?_, Or.inl rfl, rfl⟩,
        by simp [Nat.add_assoc], by simp [eq]⟩
      intro byte member
      refine base64 byte ?_
      rwa [List.take_append_of_le_length (by simp), List.take_of_length_le (by simp)]

theorem bodyLine_complete {line : Bytes} (h : Line line) (eq : data.drop position = line ++ rest) :
    bodyLine data position = .ok (position + line.length) := by
  obtain ⟨text, eol, filled, base64, ends, rfl⟩ := h
  have plain : 10 ∉ text := fun member => newline_not_base64 (base64 _ member)
  rcases ends with rfl | rfl
  · obtain ⟨front, last, rfl⟩ := (List.eq_nil_or_concat text).resolve_left filled
    rw [List.concat_eq_append] at eq plain base64 ⊢
    have carriage : last ≠ 13 := by
      rintro rfl
      exact return_not_base64 (base64 _ (by simp))
    have shape : data.drop position = (front ++ [last]) ++ 10 :: rest := by simpa using eq
    unfold bodyLine
    rw [shape, if_pos (by simp), lineEnd_concat plain, if_neg carriage, idxOf_newline plain, if_neg]
    · simp [Nat.add_assoc]
    · rintro (no | ⟨byte, member, no⟩)
      · cases no
      · refine no (base64 byte ?_)
        rwa [List.take_append_of_le_length (by simp), List.take_of_length_le (by simp)] at member
  · have plain : 10 ∉ text ++ [13] := by simp [plain]
    have shape : data.drop position = (text ++ [13]) ++ 10 :: rest := by simpa using eq
    unfold bodyLine
    rw [shape, if_pos (by simp), lineEnd_concat plain, if_pos rfl, idxOf_newline plain, if_neg]
    · simp [Nat.add_assoc]
    · rintro (no | ⟨byte, member, no⟩)
      · exact filled (List.length_eq_zero_iff.mp no)
      · refine no (base64 byte ?_)
        simpa using member

/-! ## Bodies -/

theorem scanBody_sound {bodyLines lines : Nat} (h : scanBody data position bodyLines = .ok (next, lines)) :
    ∃ body : List Bytes, (∀ line ∈ body, Line line) ∧ lines = bodyLines + body.length ∧
      next = position + body.flatten.length ∧ data.drop position = body.flatten ++ data.drop next := by
  fun_induction scanBody data position bodyLines with
  | case1 position bodyLines _ =>
    cases h
    exact ⟨[], by simp, by simp, by simp, by simp⟩
  | case2 position bodyLines _ after found ih =>
    obtain ⟨body, all, rfl, rfl, eq⟩ := ih h
    obtain ⟨line, here, rfl, first⟩ := bodyLine_sound found
    refine ⟨line :: body, List.forall_mem_cons.mpr ⟨here, all⟩, ?_, ?_, ?_⟩
    · rw [List.length_cons]
      omega
    · rw [List.flatten_cons, List.length_append]
      omega
    · rw [first, eq, List.flatten_cons, List.append_assoc]
  | case3 => cases h

theorem line_not_end {line : Bytes} (h : Line line) (eq : data.drop position = line ++ rest) :
    startsWith data pemEnd position = false := by
  obtain ⟨text, eol, filled, base64, _, rfl⟩ := h
  obtain ⟨first, text, rfl⟩ := List.exists_cons_of_ne_nil filled
  have other : (45 : UInt8) ≠ first := by
    rintro rfl
    exact dash_not_base64 (base64 _ (by simp))
  rw [startsWith, eq, pemEnd]
  simp [List.isPrefixOf, other]

theorem scanBody_complete {body : List Bytes} (all : ∀ line ∈ body, Line line) {bodyLines : Nat}
    (eq : data.drop position = body.flatten ++ (pemEnd ++ rest)) :
    scanBody data position bodyLines =
      .ok (position + body.flatten.length, bodyLines + body.length) := by
  induction body generalizing position bodyLines with
  | nil =>
    have found : startsWith data pemEnd position = true := by
      rw [startsWith, eq]
      exact List.isPrefixOf_iff_prefix.mpr (by simp)
    rw [scanBody, if_pos found]
    rfl
  | cons line body ih =>
    obtain ⟨here, all⟩ := List.forall_mem_cons.mp all
    rw [List.flatten_cons, List.append_assoc] at eq
    have step := bodyLine_complete here eq
    have later := drop_after eq
    have unended : ¬ startsWith data pemEnd position = true := by
      rw [line_not_end here eq]
      decide
    rw [scanBody, if_neg unended]
    split
    · rename_i after found
      cases step.symm.trans found
      rw [ih all later, List.flatten_cons, List.length_append, List.length_cons, Nat.add_assoc,
        Nat.add_assoc, Nat.add_comm 1]
    · rename_i found
      cases step.symm.trans found

/-! ## Blocks -/

theorem lineBreak_sound (h : lineBreak data position = .ok next) :
    ∃ eol, Eol eol ∧ next = position + eol.length ∧ data.drop position = eol ++ data.drop next := by
  unfold lineBreak startsWith at h
  split at h
  · rename_i found
    cases h
    obtain ⟨rest, eq⟩ := List.isPrefixOf_iff_prefix.mp found
    have after : data.drop (position + 2) = rest := drop_after eq.symm
    exact ⟨[13, 10], Or.inr rfl, rfl, by rw [after, eq]⟩
  · split at h
    · rename_i found
      cases h
      obtain ⟨rest, eq⟩ := List.isPrefixOf_iff_prefix.mp found
      have after : data.drop (position + 1) = rest := drop_after eq.symm
      exact ⟨[10], Or.inl rfl, rfl, by rw [after, eq]⟩
    · cases h

theorem lineBreak_complete {eol : Bytes} (h : Eol eol) (eq : data.drop position = eol ++ rest) :
    lineBreak data position = .ok (position + eol.length) := by
  unfold lineBreak startsWith
  rw [eq]
  rcases h with rfl | rfl
  · rfl
  · rfl

theorem skip_drop {set : Bytes} : ∃ space, (∀ byte ∈ space, byte ∈ set) ∧
    skip data set position = position + space.length ∧
    data.drop position = space ++ data.drop (skip data set position) := by
  refine ⟨(data.drop position).takeWhile fun byte => set.contains byte, fun byte member => ?_, rfl, ?_⟩
  · simpa using List.mem_takeWhile_imp member
  · obtain ⟨rest, eq⟩ := List.takeWhile_prefix (l := data.drop position) fun byte => set.contains byte
    rw [skip, drop_after eq.symm, eq]

theorem skip_stops {set : Bytes} {byte : UInt8} (found : data[skip data set position]? = some byte) :
    byte ∉ set := by
  have eq := (List.takeWhile_append_dropWhile (p := fun byte => set.contains byte)
    (l := data.drop position)).symm
  have stop := List.head?_dropWhile_not (fun byte => set.contains byte) (data.drop position)
  rw [← List.head?_drop, skip, drop_after eq] at found
  rw [found] at stop
  simpa using stop

theorem skip_eq {set space : Bytes} {first : UInt8} (all : ∀ byte ∈ space, byte ∈ set) (other : first ∉ set)
    (eq : data.drop position = space ++ first :: rest) : skip data set position = position + space.length := by
  rw [skip, eq, List.takeWhile_append_of_pos (by simpa using all),
    List.takeWhile_cons_of_neg (by simpa using other), List.append_nil]

theorem skip_all {set space : Bytes} (all : ∀ byte ∈ space, byte ∈ set) (eq : data.drop position = space) :
    skip data set position = position + space.length := by
  rw [skip, eq, List.takeWhile_eq_self_iff.mpr (by simpa using all)]

theorem scanBlock_sound {blocks : Nat} (h : scanBlock data position blocks = .ok (some next)) :
    ∃ block, Block block ∧ next = position + block.length ∧
      data.drop position = block ++ data.drop next := by
  obtain ⟨space, white, skipped, eq⟩ := @skip_drop data position pemWhitespace
  unfold scanBlock at h
  dsimp only at h
  split at h
  · cases h
  split at h
  · split at h
    · cases h
    · cases h
  split at h
  case isFalse => cases h
  rename_i begun
  simp only [bind_eq_ok, Prod.exists] at h
  obtain ⟨start, newline, last, lines, run, h⟩ := h
  split at h
  · cases h
  rename_i filled
  cases h
  obtain ⟨_, ended⟩ := scanBody_advances run
  obtain ⟨rest, begin_⟩ := List.isPrefixOf_iff_prefix.mp begun
  obtain ⟨eol, ends, rfl, first⟩ := lineBreak_sound newline
  obtain ⟨body, all, rfl, rfl, text⟩ := scanBody_sound run
  obtain ⟨after, end_⟩ := List.isPrefixOf_iff_prefix.mp ended
  rw [Nat.zero_add] at filled
  have some : body ≠ [] := fun none => filled (by rw [none]; rfl)
  rw [drop_after begin_.symm] at first
  refine ⟨space ++ (pemBegin ++ (eol ++ (body.flatten ++ pemEnd))),
    ⟨space, eol, body, white, ends, some, all, rfl⟩, ?_, ?_⟩
  · rw [skipped]
    simp only [List.length_append]
    omega
  · rw [drop_after end_.symm, eq, ← begin_, first, text, ← end_]
    simp only [List.append_assoc]

theorem scanBlock_ends {blocks : Nat} (h : scanBlock data position blocks = .ok none) :
    ∀ byte ∈ data.drop position, byte ∈ pemTrailingWhitespace := by
  obtain ⟨space, white, skipped, eq⟩ := @skip_drop data position pemWhitespace
  have space_trailing (byte : UInt8) (member : byte ∈ space) : byte ∈ pemTrailingWhitespace :=
    (show pemWhitespace ⊆ pemTrailingWhitespace by decide) (white byte member)
  unfold scanBlock at h
  dsimp only at h
  rw [eq]
  split at h
  · rename_i finished
    rw [finished, List.drop_length, List.append_nil]
    exact space_trailing
  split at h
  · split at h
    case isFalse => cases h
    rename_i finished
    obtain ⟨tail, trailing, _, eq'⟩ := @skip_drop data (skip data pemWhitespace position) pemTrailingWhitespace
    rw [finished, List.drop_length, List.append_nil] at eq'
    rw [eq']
    exact List.forall_mem_append.mpr ⟨space_trailing, trailing⟩
  split at h
  case isFalse => cases h
  simp only [bind_eq_ok, Prod.exists] at h
  obtain ⟨_, _, _, _, _, h⟩ := h
  split at h
  · cases h
  · cases h

theorem scanBlock_complete {block : Bytes} (h : Block block) (eq : data.drop position = block ++ rest)
    {blocks : Nat} : scanBlock data position blocks = .ok (some (position + block.length)) := by
  obtain ⟨space, eol, body, white, ends, filled, all, rfl⟩ := h
  simp only [List.append_assoc] at eq
  have skipped : skip data pemWhitespace position = position + space.length :=
    @skip_eq data _ position _ _ 45 white (by decide) eq
  have here := drop_after eq
  have first : data[position + space.length]? = some 45 := by
    rw [← List.head?_drop, here]
    rfl
  have inside : position + space.length ≠ data.length := by
    intro finished
    rw [finished, List.drop_length] at here
    cases here
  have begun : startsWith data pemBegin (position + space.length) = true := by
    rw [startsWith, here]
    exact List.isPrefixOf_iff_prefix.mpr (by simp)
  have newline := lineBreak_complete ends (drop_after here)
  have run := @scanBody_complete data rest _ body all 0 (drop_after (drop_after here))
  unfold scanBlock
  rw [skipped, if_neg inside, if_neg (by simp [first]), if_pos begun, newline]
  have some : 0 + body.length ≠ 0 := by simpa using filled
  change (scanBody data _ 0 >>= _) = _
  rw [run]
  change (if 0 + body.length = 0 then malformed else _) = _
  rw [if_neg some]
  simp only [List.length_append, Nat.add_assoc]

theorem scanBlock_trailing {blocks : Nat} (some : blocks ≠ 0) (inside : position ≤ data.length)
    (trailing : ∀ byte ∈ data.drop position, byte ∈ pemTrailingWhitespace) :
    scanBlock data position blocks = .ok none := by
  obtain ⟨space, white, skipped, eq⟩ := @skip_drop data position pemWhitespace
  unfold scanBlock
  by_cases finished : skip data pemWhitespace position = data.length
  · rw [if_pos finished]
  rw [if_neg finished]
  rw [eq] at trailing
  obtain ⟨_, trailing⟩ := List.forall_mem_append.mp trailing
  -- what follows the white space is a vertical tab or a form feed
  have short : skip data pemWhitespace position < data.length := by
    have length := congrArg List.length eq
    rw [List.length_append, List.length_drop, List.length_drop] at length
    omega
  have found := List.getElem?_eq_getElem short
  have member : data[skip data pemWhitespace position] ∈ pemTrailingWhitespace := by
    refine trailing _ ?_
    rw [List.drop_eq_getElem_cons short]
    exact List.mem_cons_self
  have other := skip_stops found
  have blank : ∀ byte ∈ pemTrailingWhitespace, byte ∉ pemWhitespace → byte = 11 ∨ byte = 12 := by decide +kernel
  have odd := blank _ member other
  rw [if_pos ⟨some, by simpa [found] using odd⟩, skip_all trailing rfl, List.length_drop, if_pos (by omega)]

/-! ## The loop -/

theorem scanFrom_sound {blocks : Nat} (h : scanFrom data position blocks = .ok ()) :
    ∃ more tail, (blocks ≠ 0 ∨ more ≠ []) ∧ (∀ block ∈ more, Block block) ∧
      (∀ byte ∈ tail, byte ∈ pemTrailingWhitespace) ∧ data.drop position = more.flatten ++ tail := by
  fun_induction scanFrom data position blocks with
  | case1 position blocks _ next found ih =>
    obtain ⟨more, tail, _, all, trailing, eq⟩ := ih h
    obtain ⟨block, here, rfl, first⟩ := scanBlock_sound found
    refine ⟨block :: more, tail, Or.inr (by simp), List.forall_mem_cons.mpr ⟨here, all⟩, trailing, ?_⟩
    rw [first, eq, List.flatten_cons, List.append_assoc]
  | case2 => cases h
  | case3 position blocks _ found some =>
    exact ⟨[], data.drop position, Or.inl some, by simp, scanBlock_ends found, by simp⟩
  | case4 => cases h
  | case5 => cases h
  | case6 position blocks finished some =>
    exact ⟨[], [], Or.inl some, by simp, by simp, by simpa using finished⟩

theorem scanFrom_complete {more : List Bytes} {tail : Bytes} {blocks : Nat} (some : blocks ≠ 0 ∨ more ≠ [])
    (all : ∀ block ∈ more, Block block) (trailing : ∀ byte ∈ tail, byte ∈ pemTrailingWhitespace)
    (eq : data.drop position = more.flatten ++ tail) : scanFrom data position blocks = .ok () := by
  induction more generalizing position blocks with
  | nil =>
    have some := some.resolve_right (by simp)
    rw [scanFrom]
    split
    · rename_i inside
      have finished := scanBlock_trailing some inside.le (by rwa [eq])
      split
      · rename_i found
        cases finished.symm.trans found
      · rfl
      · rename_i found
        cases finished.symm.trans found
    · rfl
  | cons block more ih =>
    obtain ⟨here, all⟩ := List.forall_mem_cons.mp all
    rw [List.flatten_cons, List.append_assoc] at eq
    have step := @scanBlock_complete data _ position block here eq blocks
    have moves := scanBlock_advances step
    rw [scanFrom, if_pos (by omega)]
    split
    · rename_i found
      cases step.symm.trans found
      exact ih (Or.inl (by omega)) all (drop_after eq)
    · rename_i found
      cases step.symm.trans found
    · rename_i found
      cases step.symm.trans found

theorem validate_iff_bundle : validateTrustPemStructure data = .ok () ↔ Bundle data := by
  constructor
  · intro h
    obtain ⟨blocks, tail, some, all, trailing, eq⟩ := scanFrom_sound h
    exact ⟨blocks, tail, some.resolve_left (by simp), all, trailing, eq⟩
  · rintro ⟨blocks, tail, some, all, trailing, eq⟩
    exact scanFrom_complete (Or.inr some) all trailing eq

end

/-! ## The pattern for one certificate -/

def oneOf (bytes : Bytes) : RegularExpression UInt8 := (bytes.map .char).foldr (· + ·) 0

def literal (bytes : Bytes) : RegularExpression UInt8 := (bytes.map .char).foldr (· * ·) 1

def oneOrMore (pattern : RegularExpression UInt8) : RegularExpression UInt8 := pattern * pattern.star

/-- `\r?\n`. -/
def newlinePattern : RegularExpression UInt8 := (1 + .char 13) * .char 10

/-- `_CERTIFICATE_PEM_RE`. -/
def certificatePemRe : RegularExpression UInt8 :=
  (oneOf pemWhitespace).star * literal pemBegin * newlinePattern *
    oneOrMore (oneOrMore (oneOf pemBase64Bytes) * newlinePattern) *
    literal pemEnd * (oneOf pemWhitespace).star

section
variable {bytes text : Bytes}

theorem mem_oneOf : text ∈ (oneOf bytes).matches' ↔ ∃ byte ∈ bytes, text = [byte] := by
  induction bytes with
  | nil => simp [oneOf]
  | cons byte bytes ih =>
    have split : oneOf (byte :: bytes) = .char byte + oneOf bytes := rfl
    rw [split, RegularExpression.matches'_add, Language.mem_add, ih, List.exists_mem_cons_iff]
    rfl

theorem mem_literal : text ∈ (literal bytes).matches' ↔ text = bytes := by
  induction bytes generalizing text with
  | nil => rfl
  | cons byte bytes ih =>
    have split : literal (byte :: bytes) = .char byte * literal bytes := rfl
    rw [split, RegularExpression.matches'_mul, Language.mem_mul]
    constructor
    · rintro ⟨_, rfl, rest, member, rfl⟩
      rw [ih.mp member]
      rfl
    · rintro rfl
      exact ⟨[byte], rfl, bytes, ih.mpr rfl, rfl⟩

theorem mem_star_oneOf (member : text ∈ (oneOf bytes).star.matches') : ∀ byte ∈ text, byte ∈ bytes := by
  rw [RegularExpression.matches'_star, Language.mem_kstar] at member
  obtain ⟨parts, rfl, all⟩ := member
  intro byte found
  obtain ⟨part, there, found⟩ := List.mem_flatten.mp found
  obtain ⟨other, good, rfl⟩ := mem_oneOf.mp (all part there)
  rwa [List.mem_singleton.mp found]

theorem mem_oneOrMore {pattern : RegularExpression UInt8} (member : text ∈ (oneOrMore pattern).matches') :
    ∃ parts : List Bytes, parts ≠ [] ∧ (∀ part ∈ parts, part ∈ pattern.matches') ∧ text = parts.flatten := by
  rw [oneOrMore, RegularExpression.matches'_mul, Language.mem_mul] at member
  obtain ⟨first, here, rest, later, rfl⟩ := member
  rw [RegularExpression.matches'_star, Language.mem_kstar] at later
  obtain ⟨parts, rfl, all⟩ := later
  exact ⟨first :: parts, by simp, List.forall_mem_cons.mpr ⟨here, all⟩, rfl⟩

theorem mem_newlinePattern (member : text ∈ newlinePattern.matches') : Eol text := by
  rw [newlinePattern, RegularExpression.matches'_mul, Language.mem_mul] at member
  obtain ⟨optional, member, _, rfl, rfl⟩ := member
  rcases (Language.mem_add _ _ _).mp member with rfl | rfl
  · exact Or.inl rfl
  · exact Or.inr rfl

theorem mem_linePattern (member : text ∈ (oneOrMore (oneOf pemBase64Bytes) * newlinePattern).matches') :
    Line text := by
  rw [RegularExpression.matches'_mul, Language.mem_mul] at member
  obtain ⟨base64, member, eol, newline, rfl⟩ := member
  obtain ⟨parts, some, all, rfl⟩ := mem_oneOrMore member
  refine ⟨parts.flatten, eol, fun none => ?_, fun byte found => ?_, mem_newlinePattern newline, rfl⟩
  · obtain ⟨part, parts, rfl⟩ := List.exists_cons_of_ne_nil some
    obtain ⟨_, _, rfl⟩ := mem_oneOf.mp (all part List.mem_cons_self)
    cases none
  · obtain ⟨part, there, found⟩ := List.mem_flatten.mp found
    obtain ⟨other, good, rfl⟩ := mem_oneOf.mp (all part there)
    rwa [List.mem_singleton.mp found]

/-- A text the pattern matches is a bundle of one block. -/
theorem certificatePemRe_bundle {data : Bytes} (member : data ∈ certificatePemRe.matches') : Bundle data := by
  simp only [certificatePemRe, RegularExpression.matches'_mul, Language.mem_mul] at member
  obtain ⟨_, ⟨_, ⟨_, ⟨_, ⟨space, white, _, begins, rfl⟩, eol, newline, rfl⟩, text, lines, rfl⟩,
    _, ends, rfl⟩, tail, blank, rfl⟩ := member
  obtain ⟨body, some, all, rfl⟩ := mem_oneOrMore lines
  obtain rfl := mem_literal.mp begins
  obtain rfl := mem_literal.mp ends
  refine ⟨[space ++ (pemBegin ++ (eol ++ (body.flatten ++ pemEnd)))], tail, by simp, ?_, ?_, by simp⟩
  · rw [List.forall_mem_singleton]
    exact ⟨space, eol, body, mem_star_oneOf white, mem_newlinePattern newline, some,
      fun line there => mem_linePattern (all line there), rfl⟩
  · intro byte found
    exact (show pemWhitespace ⊆ pemTrailingWhitespace by decide) (mem_star_oneOf blank byte found)

end

/-- The scanner accepts exactly its grammar; its cursor moves forward in every
round of both loops; and it accepts what the single-certificate pattern does. -/
theorem trust_scanner_accepts_grammar (data : Bytes) :
    (validateTrustPemStructure data = .ok () ↔ Bundle data) ∧
      (∀ position blocks next, scanBlock data position blocks = .ok (some next) →
        position < next ∧ next ≤ data.length) ∧
      (∀ position next, bodyLine data position = .ok next → position < next ∧ next ≤ data.length) ∧
      (data ∈ certificatePemRe.matches' → validateTrustPemStructure data = .ok ()) :=
  ⟨validate_iff_bundle, fun _ _ _ => scanBlock_advances, fun _ _ => bodyLine_advances,
    fun member => validate_iff_bundle.mpr (certificatePemRe_bundle member)⟩

end CertRenewer.TrustPem
