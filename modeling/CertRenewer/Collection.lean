import CertRenewer.Keytool
import CertRenewer.System

/-!
# What a listing says of one alias

A listing is a preamble and the sections of its aliases. The reader finds the
sections where they were put, takes the one of the alias, and looks at nothing
else.
-/

namespace CertRenewer.Keytool

open Text

/-! ## Sections -/

/-- A line of the text starts with the marker. -/
def marked : Bool → List Char → Bool
  | _, [] => false
  | start, c :: rest => start && marker.isPrefixOf (c :: rest) || marked (c == '\n') rest

/-- A preamble, and for each section the text after its marker. -/
def listing (preamble : List Char) (parts : List (List Char)) : List Char :=
  preamble ++ (parts.map (marker ++ ·)).flatten

/-- Every section starts a line, and no other line starts with the marker. -/
structure Listing (preamble : List Char) (parts : List (List Char)) : Prop where
  clean : marked true preamble = false
  starts : preamble = [] ∨ preamble.getLast? = some '\n'
  unmarked : ∀ part ∈ parts, marked false part = false
  lines : ∀ part ∈ parts.dropLast, part.getLast? = some '\n'

theorem sectionsFrom_marker (part rest : List Char) :
    sectionsFrom 0 true part (marker ++ rest) = part :: sectionsFrom 0 false [] rest := rfl

/-- A text that ends its last line has no beginning of a marker at its end. -/
theorem isPrefixOf_append {text rest : List Char} (last : text.getLast? = some '\n')
    (h : marker.isPrefixOf (text ++ rest) = true) : marker.isPrefixOf text = true := by
  rw [List.isPrefixOf_iff_prefix] at h ⊢
  rcases Nat.le_total marker.length text.length with short | long
  · exact List.prefix_of_prefix_length_le h (List.prefix_append text rest) short
  · have inside : text <+: marker := List.prefix_of_prefix_length_le (List.prefix_append text rest) h long
    have member : '\n' ∈ marker := inside.subset (List.mem_of_getLast? last)
    exact absurd member (by decide)

theorem sectionsFrom_line {text : List Char} {start : Bool} (part rest : List Char)
    (clean : marked start text = false) (last : text.getLast? = some '\n') :
    sectionsFrom 0 start part (text ++ marker ++ rest) = (part ++ text) :: sectionsFrom 0 false [] rest := by
  induction text generalizing start part with
  | nil => cases last
  | cons c text ih =>
    rw [marked, Bool.or_eq_false_iff] at clean
    have here : (start && marker.isPrefixOf (c :: (text ++ marker ++ rest))) = false := by
      have first := clean.1
      rw [Bool.and_eq_false_iff] at first ⊢
      refine first.imp id fun absent => ?_
      rw [Bool.eq_false_iff] at absent ⊢
      refine fun present => absent (@isPrefixOf_append _ (marker ++ rest) last ?_)
      simpa using present
    have next : sectionsFrom 0 start part (c :: text ++ marker ++ rest) =
        sectionsFrom 0 (c == '\n') (part ++ [c]) (text ++ marker ++ rest) := by
      simp only [List.cons_append, sectionsFrom, here]
      rfl
    rw [next]
    cases text with
    | nil =>
      obtain rfl : c = '\n' := by simpa using last
      rfl
    | cons d text =>
      rw [ih _ clean.2 (by simpa using last)]
      simp

theorem sectionsFrom_last {text : List Char} {start : Bool} (part : List Char) (clean : marked start text = false) :
    sectionsFrom 0 start part text = [part ++ text] := by
  induction text generalizing start part with
  | nil => simp [sectionsFrom]
  | cons c text ih =>
    rw [marked, Bool.or_eq_false_iff] at clean
    simp only [sectionsFrom, clean.1, Bool.false_eq_true, ↓reduceIte, ih _ clean.2]
    simp

theorem sectionsFrom_parts {text : List Char} {start : Bool} {parts : List (List Char)}
    (clean : marked start text = false) (first : parts ≠ [] → start = true ∧ text = [] ∨ text.getLast? = some '\n')
    (unmarked : ∀ part ∈ parts, marked false part = false)
    (lines : ∀ part ∈ parts.dropLast, part.getLast? = some '\n') :
    sectionsFrom 0 start [] (listing text parts) = text :: parts := by
  induction parts generalizing start text with
  | nil => simpa [listing] using sectionsFrom_last [] clean
  | cons part parts ih =>
    have rest : sectionsFrom 0 false [] (listing part parts) = part :: parts := by
      refine ih (unmarked part List.mem_cons_self) (fun some => Or.inr ?_)
        (fun other member => unmarked other (List.mem_cons_of_mem _ member)) fun other member => ?_
      · refine lines part ?_
        rw [List.dropLast_cons_of_ne_nil some]
        exact List.mem_cons_self
      · refine lines other ?_
        rw [List.dropLast_cons_of_ne_nil fun none => by simp [none] at member]
        exact List.mem_cons_of_mem _ member
    have shape : listing text (part :: parts) = text ++ marker ++ listing part parts := by
      simp [listing]
    rw [shape]
    rcases first (by simp) with ⟨rfl, rfl⟩ | last
    · rw [List.nil_append, sectionsFrom_marker, rest]
    · rw [sectionsFrom_line [] _ clean last, rest]
      rfl

theorem sections_listing {preamble : List Char} {parts : List (List Char)} (h : Listing preamble parts) :
    sections (listing preamble parts) = preamble :: parts :=
  sectionsFrom_parts h.clean (fun _ => h.starts.imp (fun none => ⟨rfl, none⟩) id) h.unmarked h.lines

/-! ## The alias -/

/-- The first line of a section. -/
def firstLine (part : List Char) : Option (List Char) := (splitlines part).head?

/-- A section of another alias: its first line is there, and is no empty line. -/
def Other (part : List Char) : Prop :=
  ∃ line, firstLine part = some line ∧ line ≠ [] ∧ line ≠ expectedAlias

theorem namedSections_eq {parts : List (List Char)} (h : ∀ part ∈ parts, firstLine part ≠ none) :
    namedSections parts = .ok (parts.filter fun part => firstLine part = some expectedAlias) := by
  induction parts with
  | nil => rfl
  | cons part parts ih =>
    obtain ⟨line, found⟩ := Option.ne_none_iff_exists'.mp (h part List.mem_cons_self)
    have here : (splitlines part).head? = some line := found
    rw [namedSections, ih fun other member => h other (List.mem_cons_of_mem _ member), here]
    by_cases same : line = expectedAlias
    · simp [orFail, bind, Except.bind, same, found]
    · simp [orFail, bind, Except.bind, same, found]

/-- A section without lines fails the reading, and otherwise the sections of the
alias are counted. -/
theorem namedSections_ok {parts named : List (List Char)} (h : namedSections parts = .ok named) :
    named = parts.filter fun part => firstLine part = some expectedAlias := by
  induction parts generalizing named with
  | nil =>
    cases h
    rfl
  | cons part parts ih =>
    simp only [namedSections, bind_eq_ok, orFail_eq_ok, Except.ok.injEq] at h
    obtain ⟨line, found, others, run, rfl⟩ := h
    have here : firstLine part = some line := found
    rw [ih run]
    by_cases same : line = expectedAlias
    · simp [same, here]
    · simp [same, here]

theorem filter_others {parts : List (List Char)} (h : ∀ part ∈ parts, Other part) :
    (parts.filter fun part => firstLine part = some expectedAlias) = [] := by
  rw [List.filter_eq_nil_iff]
  intro part member
  obtain ⟨line, found, _, other⟩ := h part member
  simp [found, other]

/-- The other sections are left out. -/
theorem selected_listing {preamble unifi : List Char} {before after : List (List Char)}
    (h : Listing preamble (before ++ unifi :: after)) (mine : firstLine unifi = some expectedAlias)
    (earlier : ∀ part ∈ before, Other part) (later : ∀ part ∈ after, Other part) :
    selected (listing preamble (before ++ unifi :: after)) = .ok (preamble ++ marker ++ unifi) := by
  have lines (part : List Char) (member : part ∈ before ++ unifi :: after) : firstLine part ≠ none := by
    rcases List.mem_append.mp member with there | there
    · obtain ⟨line, found, _⟩ := earlier part there
      simp [found]
    · rcases List.mem_cons.mp there with rfl | there
      · simp [mine]
      · obtain ⟨line, found, _⟩ := later part there
        simp [found]
  have named : namedSections (before ++ unifi :: after) = .ok [unifi] := by
    rw [namedSections_eq lines, List.filter_append, filter_others earlier, List.filter_cons_of_pos (by simp [mine]),
      filter_others later]
    rfl
  simp only [selected, sections_listing h, named, bind, Except.bind]

theorem selected_count {preamble text : List Char} {parts : List (List Char)} (h : Listing preamble parts)
    (run : selected (listing preamble parts) = .ok text) :
    (parts.filter fun part => firstLine part = some expectedAlias).length = 1 := by
  simp only [selected, sections_listing h, bind_eq_ok] at run
  obtain ⟨named, found, run⟩ := run
  rw [← namedSections_ok found]
  match named, run with
  | [part], _ => rfl
  | [], run => cases run
  | _ :: _ :: _, run => cases run

/-! ## Certificate blocks -/

/-- A line that neither begins nor ends a block. -/
def Plain (line : List Char) : Prop := strip line ≠ beginCertificate ∧ strip line ≠ endCertificate

/-- The certificate blocks of some lines, in order. -/
inductive Blocks : List (List Char) → List (List (List Char)) → Prop where
  | nil : Blocks [] []
  | outside {line : List Char} {lines : List (List Char)} {blocks : List (List (List Char))} (plain : Plain line)
    (rest : Blocks lines blocks) : Blocks (line :: lines) blocks
  | block {first last : List Char} {inner lines : List (List Char)} {blocks : List (List (List Char))}
    (begins : strip first = beginCertificate) (plain : ∀ line ∈ inner, Plain line)
    (encoded : ∀ line ∈ inner, encodedLine (strip line) = true) (ends : strip last = endCertificate)
    (rest : Blocks lines blocks) : Blocks (first :: (inner ++ last :: lines))
      ((beginCertificate :: (inner.map strip ++ [endCertificate])) :: blocks)

theorem blocksFrom_inner {inner lines : List (List Char)} {last : List Char} {current : List (List Char)}
    (plain : ∀ line ∈ inner, Plain line) (encoded : ∀ line ∈ inner, encodedLine (strip line) = true)
    (ends : strip last = endCertificate) :
    blocksFrom (some current) (inner ++ last :: lines) =
      (do
        let others ← blocksFrom none lines
        .ok ((current ++ inner.map strip ++ [endCertificate]) :: others)) := by
  induction inner generalizing current with
  | nil =>
    rw [List.nil_append, blocksFrom]
    simp only [ends, List.map_nil, List.append_nil]
    rfl
  | cons line inner ih =>
    obtain ⟨here, later⟩ := List.forall_mem_cons.mp plain
    obtain ⟨good, others⟩ := List.forall_mem_cons.mp encoded
    rw [List.cons_append, blocksFrom]
    simp only [here.1, here.2, ↓reduceIte, good, require, check, bind, Except.bind]
    rw [ih later others]
    simp [bind, Except.bind]

theorem Blocks.run {lines : List (List Char)} {blocks : List (List (List Char))} (h : Blocks lines blocks) :
    blocksFrom none lines = .ok blocks := by
  induction h with
  | nil => rfl
  | outside plain _ ih =>
    rw [blocksFrom]
    simp only [plain.1, plain.2, ↓reduceIte, ih]
  | block begins plain encoded ends _ ih =>
    rw [blocksFrom]
    simp only [begins, ↓reduceIte]
    rw [blocksFrom_inner plain encoded ends, ih]
    simp [bind, Except.bind]

/-- What the scan accepts after the beginning of a block is the rest of it. -/
theorem blocksFrom_ok {current : Option (List (List Char))} {lines : List (List Char)}
    {blocks : List (List (List Char))} (h : blocksFrom current lines = .ok blocks) :
    match current with
    | none => Blocks lines blocks
    | some open_ => ∃ inner last after others, lines = inner ++ last :: after ∧ (∀ line ∈ inner, Plain line) ∧
        (∀ line ∈ inner, encodedLine (strip line) = true) ∧ strip last = endCertificate ∧
        Blocks after others ∧ blocks = (open_ ++ inner.map strip ++ [endCertificate]) :: others := by
  induction lines generalizing current blocks with
  | nil =>
    cases current with
    | none =>
      cases h
      exact .nil
    | some open_ => cases h
  | cons line lines ih =>
    have different : endCertificate ≠ beginCertificate := by decide
    cases current with
    | none =>
      rw [blocksFrom] at h
      by_cases begins : strip line = beginCertificate
      · simp only [begins, ↓reduceIte] at h
        obtain ⟨inner, last, after, others, rfl, plain, encoded, ends, rest, rfl⟩ := ih h
        exact .block begins plain encoded ends rest
      · by_cases ends : strip line = endCertificate
        · simp only [ends, different, ↓reduceIte] at h
          cases h
        · simp only [begins, ends, ↓reduceIte] at h
          exact .outside ⟨begins, ends⟩ (ih h)
    | some open_ =>
      rw [blocksFrom] at h
      by_cases begins : strip line = beginCertificate
      · simp only [begins, ↓reduceIte] at h
        cases h
      · by_cases ends : strip line = endCertificate
        · simp only [ends, different, ↓reduceIte, bind_eq_ok, Except.ok.injEq] at h
          obtain ⟨others, run, rfl⟩ := h
          exact ⟨[], line, lines, others, rfl, by simp, by simp, ends, ih run, by simp⟩
        · simp only [begins, ends, ↓reduceIte, bind_eq_ok, require_eq_ok] at h
          obtain ⟨_, good, run⟩ := h
          obtain ⟨inner, last, after, others, rfl, plain, encoded, ended, rest, rfl⟩ := ih run
          exact ⟨line :: inner, last, after, others, rfl, List.forall_mem_cons.mpr ⟨⟨begins, ends⟩, plain⟩,
            List.forall_mem_cons.mpr ⟨good, encoded⟩, ended, rest, by simp⟩

theorem blocksFrom_iff {lines : List (List Char)} {blocks : List (List (List Char))} :
    blocksFrom none lines = .ok blocks ↔ Blocks lines blocks :=
  ⟨fun h => blocksFrom_ok h, Blocks.run⟩

/-- A line that cannot stand in a block. -/
structure Foreign (line : List Char) : Prop where
  plain : Plain line
  unencoded : encodedLine (strip line) = false

/-- No block goes across a foreign line. -/
theorem Blocks.split {before after : List (List Char)} {line : List Char} {blocks : List (List (List Char))}
    (foreign : Foreign line) (h : Blocks (before ++ line :: after) blocks) :
    ∃ first second, Blocks before first ∧ Blocks after second ∧ blocks = first ++ second := by
  generalize whole : before ++ line :: after = lines at h
  induction h generalizing before with
  | nil => simp at whole
  | @outside other lines blocks plain rest ih =>
    cases before with
    | nil =>
      obtain ⟨rfl, rfl⟩ := List.cons.inj whole
      exact ⟨[], blocks, .nil, rest, rfl⟩
    | cons _ before =>
      obtain ⟨rfl, tail⟩ := List.cons.inj whole
      obtain ⟨first, second, here, there, rfl⟩ := ih tail
      exact ⟨first, second, .outside plain here, there, rfl⟩
  | @block opening last inner lines blocks begins plain encoded ends rest ih =>
    cases before with
    | nil =>
      obtain ⟨rfl, _⟩ := List.cons.inj whole
      exact absurd begins foreign.plain.1
    | cons _ before =>
      obtain ⟨rfl, tail⟩ := List.cons.inj whole
      -- The line is none of the block's, so that the block ends before it.
      rcases List.append_eq_append_iff.mp tail with ⟨more, rfl, later⟩ | ⟨more, rfl, later⟩
      · cases more with
        | nil =>
          obtain ⟨rfl, _⟩ := List.cons.inj later
          exact absurd ends foreign.plain.2
        | cons _ more =>
          obtain ⟨rfl, _⟩ := List.cons.inj later
          have bad := encoded line (by simp)
          rw [foreign.unencoded] at bad
          cases bad
      · cases more with
        | nil =>
          obtain ⟨rfl, _⟩ := List.cons.inj later
          exact absurd ends foreign.plain.2
        | cons _ more =>
          obtain ⟨rfl, rest'⟩ := List.cons.inj later
          obtain ⟨first, second, here, there, rfl⟩ := ih rest'.symm
          exact ⟨_, second, .block begins plain encoded ends here, there, rfl⟩

theorem splitlines_after {preamble : List Char} (rest : List Char)
    (starts : preamble = [] ∨ preamble.getLast? = some '\n') :
    splitlines (preamble ++ rest) = splitlines preamble ++ splitlines rest := by
  rcases starts with rfl | last
  · rfl
  · exact linesFrom_append [] rest last

/-- The lines of what was selected: the section's name is on the marker's line. -/
theorem splitlines_selected {preamble unifi : List Char} (starts : preamble = [] ∨ preamble.getLast? = some '\n')
    (mine : firstLine unifi = some expectedAlias) :
    ∃ others, splitlines unifi = expectedAlias :: others ∧
      splitlines (preamble ++ marker ++ unifi) =
        splitlines preamble ++ (marker ++ expectedAlias) :: others := by
  obtain ⟨others, lines⟩ : ∃ others, splitlines unifi = expectedAlias :: others := by
    rw [firstLine, List.head?_eq_some_iff] at mine
    exact mine
  have marked : splitlines (marker ++ unifi) = (marker ++ expectedAlias) :: others := by
    rw [splitlines, linesFrom_inside [] unifi (inside_of_all (by decide))]
    exact linesFrom_extend marker lines
  exact ⟨others, lines, by rw [List.append_assoc, splitlines_after _ starts, marked]⟩

theorem blocks_selected {preamble unifi : List Char} {blocks : List (List (List Char))}
    (starts : preamble = [] ∨ preamble.getLast? = some '\n') (mine : firstLine unifi = some expectedAlias)
    (h : Blocks (splitlines (preamble ++ marker ++ unifi)) blocks) :
    ∃ first second, Blocks (splitlines preamble) first ∧ Blocks (splitlines unifi) second ∧
      blocks = first ++ second := by
  obtain ⟨others, lines, all⟩ := splitlines_selected starts mine
  have foreign : Foreign (marker ++ expectedAlias) := ⟨⟨by decide, by decide⟩, by decide⟩
  rw [all] at h
  obtain ⟨first, second, here, there, rfl⟩ := h.split foreign
  refine ⟨first, second, here, ?_, rfl⟩
  rw [lines]
  exact .outside ⟨by decide, by decide⟩ there

/-! ## One alias of many -/

/-- A certificate block, and the certificate loaded from it. -/
def Loads (lib : Library) (block : List (List Char)) (der : Bytes) : Prop :=
  ∃ c others, lib.loadPem (blockBytes block) = some (c :: others) ∧ c.der = der

/-- A listing with one section between others, as keytool prints it. -/
structure Placed (preamble unifi : List Char) (before after : List (List Char)) (data : Bytes) : Prop where
  listed : Listing preamble (before ++ unifi :: after)
  earlier : ∀ part ∈ before, Other part
  later : ∀ part ∈ after, Other part
  decodes : decodeUtf8 data = some (listing preamble (before ++ unifi :: after))

section
variable {lib : Library} {preamble unifi : List Char} {before after : List (List Char)} {data : Bytes}

/-- A listing with fewer sections takes fewer bytes. -/
theorem Placed.alone_le {alone : Bytes} (h : Placed preamble unifi before after data)
    (only : decodeUtf8 alone = some (listing preamble [unifi])) : alone.length ≤ data.length := by
  rw [decodeUtf8_length only, decodeUtf8_length h.decodes]
  simp only [listing, List.map_append, List.sum_append, List.map_cons, List.map_nil, List.flatten_append,
    List.flatten_cons, List.flatten_nil, List.append_nil]
  omega

theorem Placed.selected_eq (h : Placed preamble unifi before after data)
    (mine : firstLine unifi = some expectedAlias) :
    selected (listing preamble (before ++ unifi :: after)) = .ok (preamble ++ marker ++ unifi) :=
  selected_listing h.listed mine h.earlier h.later

/-- What is read of a placed section does not depend on where it stands. -/
theorem Placed.scan_eq (h : Placed preamble unifi before after data) (mine : firstLine unifi = some expectedAlias)
    (fits : data.length ≤ maxKeytoolOutputChars) :
    scanCollection lib data = readSelected lib (preamble ++ marker ++ unifi) := by
  simp only [scanCollection, require, check, fits, h.decodes, orFail, h.selected_eq mine, bind, Except.bind]
  rfl

theorem readSelected_blocks {text : List Char} {state : PublicKeystoreState}
    (h : readSelected lib text = .ok state) :
    ∃ blocks, Blocks (splitlines text) blocks ∧ List.Forall₂ (Loads lib) blocks state.certificateChainDer := by
  simp only [readSelected, bind_eq_ok, Except.ok.injEq] at h
  obtain ⟨⟨store, entry⟩, _, blocks, run, _, _, chain, loaded, rfl⟩ := h
  refine ⟨blocks, blocksFrom_iff.mp run, (mapM_eq_ok.mp loaded).imp fun block der found => ?_⟩
  cases loads : lib.loadPem (blockBytes block) with
  | none =>
    rw [loads] at found
    cases found
  | some certificates =>
    rw [loads] at found
    cases certificates with
    | nil => cases found
    | cons c others =>
      cases found
      exact ⟨c, others, loads, rfl⟩

/-- A section with the alias's name decides what is read of a listing, wherever
the other sections stand and whatever is in them. -/
theorem collection_isolates_alias (lib : Library) (preamble unifi : List Char) :
    (firstLine unifi = some expectedAlias →
      ∀ before after data, Placed preamble unifi before after data → data.length ≤ maxKeytoolOutputChars →
        (∀ before' after' data', Placed preamble unifi before' after' data' →
          data'.length ≤ maxKeytoolOutputChars →
            parseCollection (reading lib) data = parseCollection (reading lib) data') ∧
        (∀ alone, decodeUtf8 alone = some (listing preamble [unifi]) →
          parseCollection (reading lib) data = parseCollection (reading lib) alone) ∧
        ∀ state, parseCollection (reading lib) data = .ok state →
          ∃ outer own, Blocks (splitlines preamble) outer ∧ Blocks (splitlines unifi) own ∧
            List.Forall₂ (Loads lib) (outer ++ own) state.certificateChainDer) ∧
    ∀ parts data, Listing preamble parts → decodeUtf8 data = some (listing preamble parts) →
      (parts.filter fun part => firstLine part = some expectedAlias).length ≠ 1 →
        ∀ state, parseCollection (reading lib) data ≠ .ok state := by
  refine ⟨fun mine before after data placed fits => ⟨?_, ?_, ?_⟩, ?_⟩
  · intro before' after' data' placed' fits'
    have same : scanCollection lib data = scanCollection lib data' := by
      rw [placed.scan_eq mine fits, placed'.scan_eq mine fits']
    simp only [parseCollection, reading, same]
  · intro alone only
    have single : Placed preamble unifi [] [] alone := by
      refine ⟨⟨placed.listed.clean, placed.listed.starts, ?_, ?_⟩, ?_, ?_, only⟩
      · intro part member
        exact placed.listed.unmarked part (by simp_all)
      · simp
      · simp
      · simp
    have same : scanCollection lib data = scanCollection lib alone := by
      rw [placed.scan_eq mine fits, single.scan_eq mine (Nat.le_trans (placed.alone_le only) fits)]
    simp only [parseCollection, reading, same]
  · intro state h
    simp only [parseCollection, reading, bind_eq_ok, Except.ok.injEq] at h
    obtain ⟨_, scanned, _, _, rfl⟩ := h
    rw [placed.scan_eq mine fits] at scanned
    obtain ⟨blocks, found, loaded⟩ := readSelected_blocks scanned
    obtain ⟨outer, own, above, inside, rfl⟩ := blocks_selected placed.listed.starts mine found
    exact ⟨outer, own, above, inside, loaded⟩
  · intro parts data listed decodes count state h
    simp only [parseCollection, reading, scanCollection, bind_eq_ok, orFail_eq_ok, decodes] at h
    obtain ⟨_, ⟨_, _, _, same, text, found, _⟩, _⟩ := h
    cases same
    exact count (selected_count listed found)

end

/-! A host that loads certificates from their armour. -/

def Sample.armoured (line : String) : List Char :=
  beginCertificate ++ '\n' :: line.toList ++ '\n' :: endCertificate

def Sample.armouring : Library := { CertRenewer.Sample.library with
  loadPem data :=
    if data = (armoured "AQ==").map (fun c => .ofNat c.toNat) then
      (CertRenewer.Sample.load [1]).map fun c => [c]
    else if data = (armoured "AgI=").map (fun c => .ofNat c.toNat) then
      (CertRenewer.Sample.load [2, 2]).map fun c => [c]
    else none }

def Sample.preamble : List Char := "Keystore type: PKCS12\nKeystore provider: SUN\n\n".toList

def Sample.unifi : List Char :=
  "unifi\nEntry type: PrivateKeyEntry\nCertificate chain length: 02\n".toList ++
    armoured "AQ==" ++ '\n' :: armoured "AgI=" ++ ['\n']

/-- A section with a block that never ends. -/
def Sample.other : List Char :=
  "ca\nEntry type: trustedCertEntry\n-----BEGIN CERTIFICATE-----\n".toList

def Sample.collection (parts : List (List Char)) : Bytes :=
  (listing preamble parts).map fun c => .ofNat c.toNat

theorem Sample.placed : Placed preamble unifi [other] [] (collection [other, unifi]) where
  listed := ⟨by decide +kernel, by decide +kernel, by decide +kernel, by decide +kernel⟩
  earlier := by
    simp only [List.mem_singleton, forall_eq]
    exact ⟨"ca".toList, by decide +kernel, by decide +kernel, by decide +kernel⟩
  later := by simp
  decodes := by decide +kernel

theorem sample_collection_isolates :
    parseCollection (reading Sample.armouring) (Sample.collection [Sample.other, Sample.unifi]) =
      parseCollection (reading Sample.armouring) (Sample.collection [Sample.unifi]) ∧
    parseCollection (reading Sample.armouring) (Sample.collection [Sample.unifi]) =
      .ok ⟨render ⟨"PKCS12", "SUN"⟩ ⟨"unifi", "PrivateKeyEntry", 2⟩, [[1], [2, 2]]⟩ :=
  ⟨((collection_isolates_alias Sample.armouring Sample.preamble Sample.unifi).1 (by decide +kernel) _ _ _
    Sample.placed (by decide +kernel)).2.1 _ (by decide +kernel), by decide +kernel⟩

end CertRenewer.Keytool
