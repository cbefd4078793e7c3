import CertRenewer.JournalText

/-!
# What the journal is read as

Every value the check accepts is written as one ASCII text that both readers
read as the same value, and no reader accepts a repeated name.
-/

namespace CertRenewer.JournalText

/-! ## What the check sees -/

theorem lookup_mem {fields : List (List Nat × Document)} {name : List Nat} {value : Document}
    (h : fields.lookup name = some value) : (name, value) ∈ fields := by
  induction fields with
  | nil => cases h
  | cons field rest ih =>
    obtain ⟨other, first⟩ := field
    rw [List.lookup_cons] at h
    by_cases same : name = other
    · subst same
      simp only [beq_self_eq_true, Option.some.injEq] at h
      rw [h]
      exact List.mem_cons_self
    · simp only [beq_eq_false_iff_ne.mpr same] at h
      exact List.mem_cons_of_mem _ (ih h)

theorem members_eq_ok {value : Document} {names : List (List Nat)} {message : String} {values : List Document}
    (h : members value names message = .ok values) :
    ∃ fields, value = .object fields ∧ (∀ field ∈ fields, field.1 ∈ names) ∧
      List.Forall₂ (fun name item => (name, item) ∈ fields) names values := by
  cases value with
  | object fields =>
    simp only [members, bind_eq_ok, require_eq_ok, sameSet, Bool.and_eq_true, List.all_eq_true, decide_eq_true_eq] at h
    obtain ⟨_, ⟨inside, _⟩, run⟩ := h
    refine ⟨fields, rfl, fun field member => inside _ (List.mem_map_of_mem member), ?_⟩
    exact (mapM_eq_ok.mp run).imp fun _ _ found => lookup_mem (orFail_eq_ok.mp found)
  | _ => cases h

theorem hexText_eq_ok {n : Nat} {value : Document} {message : String} {text : List Nat} :
    hexText n value message = .ok text ↔ value = .string text ∧ hexadecimal n text = true := by
  cases value with
  | string other =>
    simp only [hexText, bind_eq_ok, require_eq_ok, Except.ok.injEq, Document.string.injEq]
    constructor
    · rintro ⟨_, valid, rfl⟩
      exact ⟨rfl, valid⟩
    · rintro ⟨rfl, valid⟩
      exact ⟨(), valid, rfl⟩
  | _ => simp [hexText, fail]

theorem flag_eq_ok {value : Document} {message : String} {b : Bool} : flag value message = .ok b ↔ value = .bool b := by
  cases value with
  | bool other => simp [flag]
  | _ => simp [flag, fail]

theorem phaseOf_eq_ok {value : Document} {message : String} {phase : Phase} :
    phaseOf value message = .ok phase ↔ value = .string (points (Phase.text phase)) := by
  cases value with
  | string text =>
    simp only [phaseOf, orFail_eq_ok, Document.string.injEq]
    constructor
    · intro found
      simpa [eq_comm] using List.find?_some found
    · rintro rfl
      cases phase
      all_goals decide +kernel
  | _ => simp [phaseOf, fail]

theorem inode_eq_ok {value : Document} {id : Nat × Nat} :
    inode value = .ok id ↔ value = .array [.int id.1, .int id.2] := by
  constructor
  · intro h
    unfold inode at h
    split at h
    · rename_i dev ino
      simp only [bind_eq_ok, require_eq_ok, Except.ok.injEq] at h
      obtain ⟨_, ⟨first, second⟩, rfl⟩ := h
      simp only [Int.toNat_of_nonneg first, Int.toNat_of_nonneg second]
    · cases h
  · rintro rfl
    simp [inode, bind_eq_ok, require_eq_ok]

theorem isVersion2_iff {value : Document} : isVersion2 value = true ↔ value = .int 2 := by
  constructor
  · intro h
    unfold isVersion2 at h
    split at h
    · rfl
    · cases h
  · rintro rfl
    rfl

/-! ## Identities -/

def Identity.document (id : Identity) : Document :=
  .object [(points "chain", .array (id.chain.map .string)), (points "spki", .string id.spki)]

structure Identity.Valid (id : Identity) : Prop where
  spki : hexadecimal 64 id.spki = true
  chain : ∀ digest ∈ id.chain, hexadecimal 64 digest = true
  length : 1 ≤ id.chain.length ∧ id.chain.length ≤ 10

theorem mapM_hexText {items : List Document} {texts : List (List Nat)} {message : String} :
    (items.mapM fun item => hexText 64 item message) = .ok texts ↔
      items = texts.map .string ∧ ∀ text ∈ texts, hexadecimal 64 text = true := by
  rw [mapM_eq_ok]
  constructor
  · intro h
    induction h with
    | nil => simp
    | cons here _ ih =>
      obtain ⟨rfl, valid⟩ := hexText_eq_ok.mp here
      exact ⟨by rw [ih.1, List.map_cons], List.forall_mem_cons.mpr ⟨valid, ih.2⟩⟩
  · rintro ⟨rfl, valid⟩
    rw [List.forall₂_map_left_iff, List.forall₂_same]
    exact fun text member => hexText_eq_ok.mpr ⟨rfl, valid text member⟩

theorem sortedItems_strings (texts : List (List Nat)) :
    Document.sortedItems (texts.map .string) = texts.map .string := by
  rw [Document.sortedItems_eq_map, List.map_map]
  rfl

theorem nodup_of_distinct {fields : List (List Nat × Document)} (h : (Document.object fields).distinct = true) :
    (fields.map Prod.fst).Nodup ∧ Document.distinctMembers fields = true := by
  simpa [Document.distinct] using h

theorem distinct_of_mem {fields : List (List Nat × Document)} (h : Document.distinctMembers fields = true)
    {field : List Nat × Document} (member : field ∈ fields) : field.2.distinct = true := by
  induction fields with
  | nil => cases member
  | cons first rest ih =>
    rw [Document.distinctMembers, Bool.and_eq_true] at h
    rcases List.mem_cons.mp member with rfl | later
    · exact h.1
    · exact ih h.2 later

/-- A dictionary of these members, put in order. -/
theorem sorted_object {fields listed : List (List Nat × Document)} {names : List (List Nat)}
    (distinct : (Document.object fields).distinct = true) (named : listed.map Prod.fst = names)
    (ordered : names.Pairwise (· < ·))
    (inside : ∀ member ∈ listed, ∃ value, (member.1, value) ∈ fields ∧ value.sorted = member.2)
    (all : ∀ field ∈ fields, field.1 ∈ names) : (Document.object fields).sorted = .object listed := by
  subst named
  rw [Document.sorted, Document.sortedMembers_eq_map]
  congr 1
  refine Document.sortMembers_eq ?_ (List.pairwise_map.mp ordered) ?_ ?_
  · rw [List.map_map]
    exact (nodup_of_distinct distinct).1
  · intro member there
    obtain ⟨value, found, same⟩ := inside member there
    rw [List.mem_map]
    exact ⟨_, found, by rw [same]⟩
  · intro member there
    obtain ⟨field, found, rfl⟩ := List.mem_map.mp there
    exact all field found

theorem identity_ok {value : Document} {id : Identity} (h : identity value = .ok id) :
    id.Valid ∧ (value.distinct = true → value.sorted = id.document) := by
  simp only [identity, bind_eq_ok] at h
  obtain ⟨values, found, h⟩ := h
  obtain ⟨fields, rfl, inside, listed⟩ := members_eq_ok found
  cases listed with
  | @cons _ spki _ _ first rest =>
  cases rest with
  | @cons _ chain _ _ second rest =>
  cases rest
  cases chain with
  | array items =>
    simp only [bind_eq_ok, require_eq_ok, hexText_eq_ok, mapM_hexText, Except.ok.injEq] at h
    obtain ⟨_, length, _, ⟨rfl, spki⟩, texts, ⟨rfl, chain⟩, rfl⟩ := h
    refine ⟨⟨spki, chain, by simpa using length⟩, fun distinct => ?_⟩
    refine @sorted_object _ _ [points "chain", points "spki"] distinct rfl (by decide) ?_ ?_
    · simp only [List.forall_mem_cons, List.not_mem_nil, false_imp_iff, implies_true, and_true]
      exact ⟨⟨_, second, by rw [Document.sorted, sortedItems_strings]⟩, _, first, rfl⟩
    · intro field member
      have name := inside field member
      simp only [List.mem_cons, List.not_mem_nil, or_false] at name ⊢
      exact name.symm
  | _ => cases h

theorem identity_document {id : Identity} (h : id.Valid) : identity id.document = .ok id := by
  have found : members id.document [points "spki", points "chain"] "invalid journal public identity" =
      .ok [.string id.spki, .array (id.chain.map .string)] := rfl
  have spki : hexText 64 (.string id.spki) "invalid journal public identity" = .ok id.spki :=
    hexText_eq_ok.mpr ⟨rfl, h.spki⟩
  have chain : ((id.chain.map Document.string).mapM fun item => hexText 64 item "invalid journal public identity") =
      .ok id.chain := mapM_hexText.mpr ⟨rfl, h.chain⟩
  simp only [identity, bind_eq_ok]
  refine ⟨_, found, ?_⟩
  simp only [bind_eq_ok, require_eq_ok, Except.ok.injEq]
  exact ⟨(), by simpa using h.length, _, spki, _, chain, rfl⟩

/-! ## Journals -/

def inodeDocument (id : Nat × Nat) : Document := .array [.int id.1, .int id.2]

def optionalDocument {α : Type} (write : α → Document) : Option α → Document
  | none => .null
  | some a => write a

/-- The value with its members in the order of their names. -/
def Fields.document (f : Fields) : Document := .object [
  (points "commit_possible", .bool f.commitPossible),
  (points "issued", optionalDocument Identity.document f.issued),
  (points "old", f.old.document),
  (points "old_inode", inodeDocument f.oldInode),
  (points "phase", .string (points (Phase.text f.phase))),
  (points "policy_digest", .string f.policyDigest),
  (points "resume", .bool f.resume),
  (points "rollback_expected", .bool f.rollbackExpected),
  (points "stage_inode", optionalDocument inodeDocument f.stageInode),
  (points "transaction", .string f.transaction),
  (points "version", .int 2)]

def orderedNames : List (List Nat) :=
  ["commit_possible", "issued", "old", "old_inode", "phase", "policy_digest", "resume", "rollback_expected",
    "stage_inode", "transaction", "version"].map points

structure Fields.Valid (f : Fields) : Prop where
  policyDigest : hexadecimal 64 f.policyDigest = true
  transaction : hexadecimal 32 f.transaction = true
  old : f.old.Valid
  issued : ∀ id, f.issued = some id → id.Valid
  consistent : f.consistent = .ok ()

theorem optional_ok {α : Type} {read : Document → Result α} {value : Document} {found : Option α}
    (h : optional read value = .ok found) :
    value = .null ∧ found = none ∨ ∃ a, read value = .ok a ∧ found = some a := by
  cases value with
  | null =>
    cases h
    exact Or.inl ⟨rfl, rfl⟩
  | _ =>
    simp only [optional, bind_eq_ok, Except.ok.injEq] at h
    obtain ⟨a, run, rfl⟩ := h
    exact Or.inr ⟨a, run, rfl⟩

theorem optional_document {α : Type} {read : Document → Result α} {write : α → Document} {found : Option α}
    (some_ : ∀ a, found = some a → read (write a) = .ok a ∧ write a ≠ .null) :
    optional read (optionalDocument write found) = .ok found := by
  cases found with
  | none => rfl
  | some a =>
    obtain ⟨run, value⟩ := some_ a rfl
    change optional read (write a) = _
    unfold optional
    split
    · rename_i same
      exact absurd same value
    · rw [run]
      rfl

theorem inode_sorted {value : Document} {id : Nat × Nat} (h : inode value = .ok id) : value.sorted = inodeDocument id := by
  rw [inode_eq_ok.mp h]
  rfl

/-- What the check accepts is, put in order, the value of what it saw. -/
theorem validateJournal_ok {value : Document} {f : Fields} (h : validateJournal value = .ok f) :
    f.Valid ∧ (value.distinct = true → value.sorted = f.document) := by
  simp only [validateJournal, bind_eq_ok] at h
  obtain ⟨values, found, h⟩ := h
  obtain ⟨fields, rfl, inside, listed⟩ := members_eq_ok found
  rcases listed with _ | ⟨version, _ | ⟨policyDigest, _ | ⟨transaction, _ | ⟨phase, _ | ⟨resume, _ | ⟨old, _ | ⟨issued,
    _ | ⟨oldInode, _ | ⟨stageInode, _ | ⟨rollback, _ | ⟨commit, ⟨⟩⟩⟩⟩⟩⟩⟩⟩⟩⟩⟩⟩
  · simp only [bind_eq_ok, require_eq_ok, isVersion2_iff, hexText_eq_ok, phaseOf_eq_ok, flag_eq_ok, Except.ok.injEq] at h
    obtain ⟨_, rfl, _, ⟨rfl, digest⟩, _, ⟨rfl, uuid⟩, _, rfl, _, rfl, _, rfl, _, rfl, _, first, _, second, _, third, _,
      fourth, _, consistent, rfl⟩ := h
    refine ⟨⟨digest, uuid, (identity_ok first).1, ?_, consistent⟩, fun distinct => ?_⟩
    · rintro id rfl
      rcases optional_ok second with ⟨_, no⟩ | ⟨_, run, same⟩
      · cases no
      · cases same
        exact (identity_ok run).1
    · have inner := (nodup_of_distinct distinct).2
      refine @sorted_object _ _ orderedNames distinct rfl (by decide) ?_ ?_
      · simp only [List.forall_mem_cons, List.not_mem_nil, false_imp_iff, implies_true, and_true]
        refine ⟨⟨_, commit, rfl⟩, ⟨_, issued, ?_⟩, ⟨_, old, (identity_ok first).2 (distinct_of_mem inner old)⟩,
          ⟨_, oldInode, inode_sorted third⟩, ⟨_, phase, rfl⟩, ⟨_, policyDigest, rfl⟩, ⟨_, resume, rfl⟩,
          ⟨_, rollback, rfl⟩, ⟨_, stageInode, ?_⟩, ⟨_, transaction, rfl⟩, _, version, rfl⟩
        · rcases optional_ok second with ⟨rfl, rfl⟩ | ⟨_, run, rfl⟩
          · rfl
          · exact (identity_ok run).2 (distinct_of_mem inner issued)
        · rcases optional_ok fourth with ⟨rfl, rfl⟩ | ⟨_, run, rfl⟩
          · rfl
          · exact inode_sorted run
      · intro field member
        have name := inside field member
        revert name
        generalize field.1 = name
        have all : ∀ name ∈ fieldNames, name ∈ orderedNames := by decide
        exact all name

theorem validateJournal_document {f : Fields} (h : f.Valid) : validateJournal f.document = .ok f := by
  have issued : optional identity (optionalDocument Identity.document f.issued) = .ok f.issued :=
    optional_document fun id same => ⟨identity_document (h.issued id same), fun no => by cases no⟩
  have stageInode : optional inode (optionalDocument inodeDocument f.stageInode) = .ok f.stageInode :=
    optional_document fun id _ => ⟨inode_eq_ok.mpr rfl, fun no => by cases no⟩
  have found : members f.document fieldNames "invalid recovery journal" = .ok [.int 2, .string f.policyDigest,
      .string f.transaction, .string (points (Phase.text f.phase)), .bool f.resume, f.old.document,
      optionalDocument Identity.document f.issued, inodeDocument f.oldInode,
      optionalDocument inodeDocument f.stageInode, .bool f.rollbackExpected, .bool f.commitPossible] := rfl
  simp only [validateJournal, bind_eq_ok]
  refine ⟨_, found, ?_⟩
  simp only [bind_eq_ok, require_eq_ok, isVersion2_iff, hexText_eq_ok, phaseOf_eq_ok, flag_eq_ok, Except.ok.injEq]
  exact ⟨(), trivial, _, ⟨rfl, h.policyDigest⟩, _, ⟨rfl, h.transaction⟩, f.phase, rfl, _, rfl, _, rfl, _, rfl, _,
    identity_document h.old, _, issued, f.oldInode, inode_eq_ok.mpr rfl, _, stageInode, (), h.consistent, rfl⟩

theorem distinctItems_strings (texts : List (List Nat)) :
    Document.distinctItems (texts.map .string) = true := by
  induction texts with
  | nil => rfl
  | cons text rest ih => exact ih

theorem identity_distinct (id : Identity) : id.document.distinct = true := by
  have names : [points "chain", points "spki"].Nodup := by decide
  simp only [Identity.document, Document.distinct, Document.distinctMembers, distinctItems_strings, List.map_cons,
    List.map_nil, names, decide_true, Bool.and_self]

theorem document_distinct (f : Fields) : f.document.distinct = true := by
  have names : orderedNames.Nodup := by decide
  have issued : (optionalDocument Identity.document f.issued).distinct = true := by
    cases f.issued with
    | none => rfl
    | some id => exact identity_distinct id
  have stageInode : (optionalDocument inodeDocument f.stageInode).distinct = true := by
    cases f.stageInode with
    | none => rfl
    | some id => rfl
  have named : decide orderedNames.Nodup = true := decide_eq_true names
  unfold Fields.document
  rw [Document.distinct, Bool.and_eq_true]
  refine ⟨named, ?_⟩
  simp only [Document.distinctMembers, issued, stageInode, identity_distinct, Bool.and_eq_true]
  simp [Document.distinct, inodeDocument, Document.distinctItems]

theorem document_sorted {f : Fields} (h : f.Valid) : f.document.sorted = f.document :=
  (validateJournal_ok (validateJournal_document h)).2 (document_distinct f)

/-! ## The text -/

/-- A code point that stands for itself between quotes. -/
def Printable (point : Nat) : Prop := 32 ≤ point ∧ point ≤ 126 ∧ point ≠ 34 ∧ point ≠ 92

instance : DecidablePred Printable := fun _ => inferInstanceAs (Decidable (_ ∧ _))

theorem escape_printable {point : Nat} (h : Printable point) : Document.escape point = [Char.ofNat point] := by
  obtain ⟨low, high, quote, slash⟩ := h
  unfold Document.escape
  rw [if_neg quote, if_neg slash, if_neg (by omega), if_neg (by omega), if_neg (by omega), if_neg (by omega),
    if_neg (by omega), if_pos ⟨low, high⟩]

/-- An ASCII text of at most this many characters. -/
structure Short (n : Nat) (text : List Char) : Prop where
  ascii : ∀ c ∈ text, c.toNat < 128
  length : text.length ≤ n

theorem Short.append {m n : Nat} {a b : List Char} (first : Short m a) (second : Short n b) : Short (m + n) (a ++ b) where
  ascii := by
    intro c member
    rcases List.mem_append.mp member with here | here
    · exact first.ascii c here
    · exact second.ascii c here
  length := by
    rw [List.length_append]
    exact Nat.add_le_add first.length second.length

theorem Short.cons {n : Nat} {c : Char} {text : List Char} (here : c.toNat < 128) (h : Short n text) :
    Short (n + 1) (c :: text) where
  ascii := List.forall_mem_cons.mpr ⟨here, h.ascii⟩
  length := Nat.succ_le_succ h.length

theorem Short.mono {m n : Nat} {text : List Char} (h : Short m text) (le : m ≤ n) : Short n text :=
  ⟨h.ascii, Nat.le_trans h.length le⟩

theorem short_of_all {n : Nat} {text : List Char} (h : (text.all fun c => decide (c.toNat < 128)) = true)
    (length : text.length ≤ n) : Short n text := ⟨by simpa using h, length⟩

theorem short_quote {text : List Nat} (h : ∀ p ∈ text, Printable p) : Short (text.length + 2) (Document.quote text) := by
  have inner : Short text.length (text.flatMap Document.escape) := by
    induction text with
    | nil => exact ⟨by simp, by simp⟩
    | cons p rest ih =>
      obtain ⟨here, later⟩ := List.forall_mem_cons.mp h
      rw [List.flatMap_cons, escape_printable here]
      refine (ih later).cons ?_
      have valid : p.isValidChar := Or.inl (Nat.lt_of_le_of_lt here.2.1 (by decide))
      rw [Char.ofNat, dif_pos valid]
      exact Nat.lt_of_le_of_lt here.2.1 (by decide)
  exact (inner.append (⟨by simp, by simp⟩ : Short 1 ['"'])).cons (by decide)

theorem short_hex {n : Nat} {text : List Nat} (h : hexadecimal n text = true) :
    Short (n + 2) (Document.write (.string text)) := by
  simp only [hexadecimal, Bool.and_eq_true, beq_iff_eq, List.all_eq_true, Bool.or_eq_true, decide_eq_true_eq] at h
  obtain ⟨rfl, digits⟩ := h
  refine short_quote fun p member => ?_
  have digit := digits p member
  exact ⟨by omega, by omega, by omega, by omega⟩

theorem Short.items {m n : Nat} {item : Document} {rest : List Document} (first : Short m item.write)
    (others : Short n (Document.writeItems rest)) : Short (m + n + 1) (Document.writeItems (item :: rest)) := by
  cases rest with
  | nil => exact first.mono (by omega)
  | cons next rest => exact (first.append (others.cons (by decide))).mono (by omega)

theorem Short.members {m n : Nat} {name : List Nat} {value : Document} {rest : List (List Nat × Document)}
    (first : Short m (Document.quote name ++ ':' :: value.write)) (others : Short n (Document.writeMembers rest)) :
    Short (m + n + 1) (Document.writeMembers ((name, value) :: rest)) := by
  cases rest with
  | nil => exact first.mono (by omega)
  | cons next rest => exact (first.append (others.cons (by decide))).mono (by omega)

theorem short_items {n : Nat} {items : List Document} (h : ∀ item ∈ items, Short n item.write) :
    Short (items.length * (n + 1)) (Document.writeItems items) := by
  induction items with
  | nil => exact ⟨by simp [Document.writeItems], by simp [Document.writeItems]⟩
  | cons item rest ih =>
    obtain ⟨here, later⟩ := List.forall_mem_cons.mp h
    refine (here.items (ih later)).mono ?_
    rw [List.length_cons, Nat.add_one_mul]
    omega

theorem short_members {n : Nat} {members : List (List Nat × Document)}
    (h : ∀ member ∈ members, Short n (Document.quote member.1 ++ ':' :: member.2.write)) :
    Short (members.length * (n + 1)) (Document.writeMembers members) := by
  induction members with
  | nil => exact ⟨by simp [Document.writeMembers], by simp [Document.writeMembers]⟩
  | cons member rest ih =>
    obtain ⟨here, later⟩ := List.forall_mem_cons.mp h
    refine (here.members (ih later)).mono ?_
    rw [List.length_cons, Nat.add_one_mul]
    omega

/-- A member with one of the names. -/
theorem short_member {m n : Nat} {name : List Nat} {value : Document} (short : ∀ p ∈ name, Printable p)
    (length : name.length ≤ m) (h : Short n value.write) :
    Short (m + n + 3) (Document.quote name ++ ':' :: value.write) :=
  ((short_quote short).append (h.cons (by decide))).mono (by omega)

theorem Short.object {n : Nat} {members : List (List Nat × Document)} (h : Short n (Document.writeMembers members)) :
    Short (n + 2) (Document.write (.object members)) :=
  (h.append (⟨by simp, by simp⟩ : Short 1 ['\x7d'])).cons (by decide)

theorem Short.array {n : Nat} {items : List Document} (h : Short n (Document.writeItems items)) :
    Short (n + 2) (Document.write (.array items)) :=
  (h.append (⟨by simp, by simp⟩ : Short 1 [']'])).cons (by decide)

/-- An object with members of at most this length. -/
theorem short_object {n : Nat} {members : List (List Nat × Document)}
    (h : ∀ member ∈ members, Short n (Document.quote member.1 ++ ':' :: member.2.write)) :
    Short (members.length * (n + 1) + 2) (Document.write (.object members)) :=
  (short_members h).object

theorem short_array {n : Nat} {items : List Document} (h : ∀ item ∈ items, Short n item.write) :
    Short (items.length * (n + 1) + 2) (Document.write (.array items)) :=
  (short_items h).array

theorem short_identity {id : Identity} (h : id.Valid) : Short 1400 id.document.write := by
  have array : Short 672 (Document.write (.array (id.chain.map .string))) := by
    refine (short_array (n := 66) ?_).mono ?_
    · simp only [List.forall_mem_map]
      exact fun text member => short_hex (h.chain text member)
    · have length := h.length.2
      rw [List.length_map]
      omega
  refine (short_object (n := 680) ?_).mono (by simp)
  simp only [List.forall_mem_cons, List.not_mem_nil, false_imp_iff, implies_true, and_true]
  exact ⟨short_member (by decide) (by decide : _ ≤ 5) array,
    (short_member (by decide) (by decide : _ ≤ 4) (short_hex h.spki)).mono (by decide)⟩

theorem short_int {n : Nat} (h : n < 2 ^ 64) : Short 20 (Document.write (.int n)) := by
  have text : Document.write (.int n) = Nat.toDigits 10 n := Nat.toList_repr
  rw [text]
  refine ⟨fun c member => ?_, (Nat.length_toDigits_le_iff (by decide) (by decide)).mpr (Nat.lt_trans h (by decide))⟩
  have digit := Nat.isDigit_of_mem_toDigits (by decide) (by decide) member
  simp only [Char.isDigit, Bool.and_eq_true, decide_eq_true_eq, ge_iff_le, UInt32.le_iff_toNat_le] at digit
  exact Nat.lt_of_le_of_lt digit.2 (by decide)

/-- Device and inode numbers of 64 bits. -/
structure Fields.Fits (f : Fields) : Prop where
  oldInode : f.oldInode.1 < 2 ^ 64 ∧ f.oldInode.2 < 2 ^ 64
  stageInode : ∀ id, f.stageInode = some id → id.1 < 2 ^ 64 ∧ id.2 < 2 ^ 64

theorem short_inode {id : Nat × Nat} (h : id.1 < 2 ^ 64 ∧ id.2 < 2 ^ 64) : Short 44 (inodeDocument id).write := by
  refine (short_array (n := 20) ?_).mono (by simp)
  simp only [List.forall_mem_cons, List.not_mem_nil, false_imp_iff, implies_true, and_true]
  exact ⟨short_int h.1, short_int h.2⟩

theorem short_bool (b : Bool) : Short 5 (Document.write (.bool b)) := by
  cases b with
  | true => exact short_of_all (by decide) (by decide)
  | false => exact short_of_all (by decide) (by decide)

theorem short_optional {α : Type} {n : Nat} {write : α → Document} {found : Option α} (four : 4 ≤ n)
    (h : ∀ a, found = some a → Short n (write a).write) : Short n (optionalDocument write found).write := by
  cases found with
  | none =>
    have null : Short 4 (Document.write .null) := short_of_all (by decide) (by decide)
    exact null.mono four
  | some a => exact h a rfl

theorem short_phase (phase : Phase) : Short 50 (Document.write (.string (points (Phase.text phase)))) := by
  refine (@short_quote (points (Phase.text phase)) ?_).mono ?_
  · cases phase
    all_goals decide
  · cases phase
    all_goals decide

theorem short_journal {f : Fields} (valid : f.Valid) (fits : f.Fits) : Short maxJournal f.document.write := by
  have name {n : Nat} {name : List Nat} {value : Document} (known : name ∈ orderedNames) (short : Short n value.write)
      (le : n ≤ 1400) : Short 1420 (Document.quote name ++ ':' :: value.write) := by
    have all : ∀ name ∈ orderedNames, (∀ p ∈ name, Printable p) ∧ name.length ≤ 17 := by decide
    obtain ⟨printable, length⟩ := all name known
    exact (short_member printable length short).mono (by omega)
  refine (short_object (n := 1420) ?_).mono (by simp [maxJournal])
  simp only [List.forall_mem_cons, List.not_mem_nil, false_imp_iff, implies_true, and_true]
  refine ⟨name (by decide) (short_bool _) (by decide), name (by decide) ?_ (Nat.le_refl 1400),
    name (by decide) (short_identity valid.old) (by decide), name (by decide) (short_inode fits.oldInode) (by decide),
    name (by decide) (short_phase _) (by decide), name (by decide) (short_hex valid.policyDigest) (by decide),
    name (by decide) (short_bool _) (by decide), name (by decide) (short_bool _) (by decide),
    name (by decide) ?_ (by decide : 44 ≤ 1400), name (by decide) (short_hex valid.transaction) (by decide),
    name (by decide) (short_int (by decide : 2 < 2 ^ 64)) (by decide)⟩
  · exact short_optional (by decide) fun id same => short_identity (valid.issued id same)
  · exact short_optional (by decide) fun id same => short_inode (fits.stageInode id same)

/-! ## The readers -/

/-- What the readers rely on: bytes of ASCII are UTF-8, and no document has a
NUL in its text. -/
structure Decoder.Standard (json : Decoder) : Prop where
  ascii : ∀ data text, decodeAscii data = some text → json.decode .utf8 data = some text
  control : ∀ text, 0 ∈ text → json.scan text = none

theorem decodeAscii_eq_some {data : Bytes} {text : List Nat} :
    decodeAscii data = some text ↔ (∀ b ∈ data, b < 128) ∧ text = data.map UInt8.toNat := by
  by_cases all : ∀ b ∈ data, b < 128
  · have run : decodeAscii data = some (data.map UInt8.toNat) := if_pos (by simpa using all)
    rw [run, Option.some.injEq]
    exact ⟨fun same => ⟨all, same.symm⟩, fun same => same.2.symm⟩
  · have run : decodeAscii data = none := if_neg (by simpa using all)
    rw [run]
    exact ⟨(fun no => nomatch no), fun h => absurd h.1 all⟩

theorem detectEncoding_ascii {data : Bytes} (ascii : ∀ b ∈ data, b < 128) (control : 0 ∉ data) :
    detectEncoding data = .utf8 := by
  have absent {first : UInt8} (mark : List UInt8) (h : first = 0 ∨ ¬first < 128) :
      (first :: mark).isPrefixOf data = false := by
    rw [Bool.eq_false_iff]
    intro found
    have member : first ∈ data := (List.isPrefixOf_iff_prefix.mp found).subset List.mem_cons_self
    rcases h with rfl | high
    · exact control member
    · exact high (ascii first member)
  unfold detectEncoding
  rw [absent _ (Or.inl rfl), absent _ (Or.inr (by decide)), absent _ (Or.inr (by decide)),
    absent _ (Or.inr (by decide)), absent _ (Or.inr (by decide))]
  simp only [Bool.or_self, Bool.false_eq_true, ↓reduceIte]
  split
  · exact absurd (by simp) control
  · exact absurd (by simp) control
  · exact absurd (by simp) control
  · exact absurd (by simp) control
  · rfl

/-- A document of ASCII is the same document to both readers. -/
theorem decode_ascii {json : Decoder} (standard : json.Standard) {data : Bytes} {text : List Nat} {document : Document}
    (ascii : decodeAscii data = some text) (read : json.scan text = some document) :
    json.decode (detectEncoding data) data = some text := by
  obtain ⟨low, rfl⟩ := decodeAscii_eq_some.mp ascii
  have control : 0 ∉ data := by
    intro zero
    have none := standard.control _ (List.mem_map_of_mem (f := UInt8.toNat) zero)
    rw [read] at none
    cases none
  rw [detectEncoding_ascii low control]
  exact standard.ascii data _ ascii

theorem take_file {file : Bytes} (h : (file.take (maxJournal + 1)).length ≤ maxJournal) :
    file.take (maxJournal + 1) = file := by
  rw [List.length_take] at h
  exact List.take_of_length_le (by omega)

theorem readJournal_ok {json : Decoder} {file : Bytes} {value : Document} (h : readJournal json file = .ok value) :
    ∃ text, json.decode (detectEncoding file) file = some text ∧ json.scan text = some value ∧ value.distinct = true := by
  simp only [readJournal, bind_eq_ok, require_eq_ok, orFail_eq_ok, Document.load_eq] at h
  obtain ⟨_, fits, text, decoded, document, read, loaded⟩ := h
  rw [take_file fits] at decoded
  split at loaded
  · cases loaded
    exact ⟨text, decoded, read, by assumption⟩
  · cases loaded

theorem readAsciiJournal_ok {json : Decoder} {file : Bytes} {value : Document}
    (h : readAsciiJournal json file = .ok value) :
    ∃ text, decodeAscii file = some text ∧ json.scan text = some value ∧ value.distinct = true := by
  simp only [readAsciiJournal, bind_eq_ok, require_eq_ok, orFail_eq_ok, Document.load_eq] at h
  obtain ⟨_, fits, text, decoded, document, read, loaded⟩ := h
  rw [take_file fits] at decoded
  split at loaded
  · cases loaded
    exact ⟨text, decoded, read, by assumption⟩
  · cases loaded

theorem encodeAscii_short {n : Nat} {text : List Char} (h : Short n text) :
    ∃ data : Bytes, encodeAscii text = some data ∧ (∀ b ∈ data, b < 128) ∧ data.length ≤ n ∧
      decodeAscii data = some (text.map Char.toNat) := by
  have all : (text.all fun c => decide (c.toNat < 128)) = true := by simpa using h.ascii
  have small (c : Char) (member : c ∈ text) : (UInt8.ofNat c.toNat).toNat = c.toNat := by
    rw [UInt8.toNat_ofNat']
    exact Nat.mod_eq_of_lt (Nat.lt_trans (h.ascii c member) (by decide))
  have low : ∀ b ∈ text.map fun c => UInt8.ofNat c.toNat, b < 128 := by
    rw [List.forall_mem_map]
    intro c member
    rw [UInt8.lt_iff_toNat_lt, small c member]
    exact h.ascii c member
  have run : encodeAscii text = some (text.map fun c => UInt8.ofNat c.toNat) := if_pos all
  refine ⟨_, run, low, by simpa using h.length, decodeAscii_eq_some.mpr ⟨low, ?_⟩⟩
  rw [List.map_map]
  exact List.map_congr_left fun c member => (small c member).symm

/-- What is written is read as the same value by both readers, and neither reads
a document that repeats a name. -/
theorem journal_codec_is_exact (json : Decoder) (standard : json.Standard) :
    (∀ value fields, value.distinct = true → validateJournal value = .ok fields → fields.Fits →
      json.scan (value.sorted.write.map Char.toNat) = some value.sorted →
        ∃ data again, writeJournal value = .ok data ∧ (∀ b ∈ data, b < 128) ∧ data.length ≤ maxJournal ∧
          readJournal json data = .ok again ∧ readAsciiJournal json data = .ok again ∧
          again.Same value ∧ validateJournal again = .ok fields) ∧
    ∀ data text document,
      (json.decode (detectEncoding data) data = some text ∨ decodeAscii data = some text) →
      json.scan text = some document → document.distinct = false →
        (∀ value, readJournal json data ≠ .ok value) ∧ ∀ value, readAsciiJournal json data ≠ .ok value := by
  refine ⟨fun value fields dict accepted fits inverse => ?_, fun data text document decoded read repeats => ?_⟩
  · obtain ⟨valid, sorted⟩ := validateJournal_ok accepted
    have same := sorted dict
    obtain ⟨data, encoded, ascii, length, decoded⟩ := encodeAscii_short (short_journal valid fits)
    rw [same] at inverse
    have whole : data.take (maxJournal + 1) = data := List.take_of_length_le (by omega)
    have loaded : fields.document.load = some fields.document := by
      rw [Document.load_eq, if_pos (document_distinct fields)]
    refine ⟨data, fields.document, ?_, ascii, length, ?_, ?_, ?_, validateJournal_document valid⟩
    · simp only [writeJournal, same, encoded, bind_eq_ok, orFail_eq_ok, require_eq_ok]
      exact ⟨data, rfl, (), length, rfl⟩
    · simp only [readJournal, whole, bind_eq_ok, orFail_eq_ok, require_eq_ok]
      exact ⟨(), length, _, decode_ascii standard decoded inverse, _, inverse, loaded⟩
    · simp only [readAsciiJournal, whole, bind_eq_ok, orFail_eq_ok, require_eq_ok]
      exact ⟨(), length, _, decoded, _, inverse, loaded⟩
    · rw [Document.Same, same]
      exact document_sorted valid
  · constructor
    · intro value h
      obtain ⟨text', decoded', read', dict⟩ := readJournal_ok h
      have wide : json.decode (detectEncoding data) data = some text :=
        decoded.elim id fun ascii => decode_ascii standard ascii read
      cases wide.symm.trans decoded'
      cases read.symm.trans read'
      rw [repeats] at dict
      cases dict
    · intro value h
      obtain ⟨text', decoded', read', dict⟩ := readAsciiJournal_ok h
      have narrow : text = text' := by
        rcases decoded with wide | ascii
        · exact Option.some.inj (wide.symm.trans (decode_ascii standard decoded' read'))
        · exact Option.some.inj (ascii.symm.trans decoded')
      subst narrow
      cases read.symm.trans read'
      rw [repeats] at dict
      cases dict

/-! A journal before its first import, as it is first built, and a text that says
twice what its version is. -/

def Sample.digest : List Nat := List.replicate 64 97

def Sample.fields : Fields where
  policyDigest := digest
  transaction := List.replicate 32 48
  phase := .quiescing
  resume := true
  old := ⟨digest, [digest, digest]⟩
  issued := none
  oldInode := (2049, 131)
  stageInode := none
  rollbackExpected := false
  commitPossible := false

def Sample.value : Document := .object [
  (points "version", .int 2),
  (points "policy_digest", .string digest),
  (points "transaction", .string (List.replicate 32 48)),
  (points "phase", .string (points "quiescing")),
  (points "resume", .bool true),
  (points "old", .object [(points "spki", .string digest), (points "chain", .array [.string digest, .string digest])]),
  (points "issued", .null),
  (points "old_inode", .array [.int 2049, .int 131]),
  (points "stage_inode", .null),
  (points "rollback_expected", .bool false),
  (points "commit_possible", .bool false)]

def Sample.twice : Document := .object [(points "version", .int 2), (points "version", .int 2)]

/-- A scanner that knows these two texts. -/
def Sample.decoder : Decoder where
  decode _ data := decodeAscii data
  scan text :=
    if text = value.sorted.write.map Char.toNat then some value.sorted
    else if text = twice.write.map Char.toNat then some twice
    else none

theorem Sample.standard : decoder.Standard where
  ascii _ _ h := h
  control text zero := by
    have first : 0 ∉ value.sorted.write.map Char.toNat := by decide +kernel
    have second : 0 ∉ twice.write.map Char.toNat := by decide +kernel
    have one : text ≠ value.sorted.write.map Char.toNat := fun same => first (same ▸ zero)
    have two : text ≠ twice.write.map Char.toNat := fun same => second (same ▸ zero)
    unfold decoder
    simp only [one, two, ↓reduceIte]

theorem sample_journal_codec :
    (∃ data again, writeJournal Sample.value = .ok data ∧ (∀ b ∈ data, b < 128) ∧ data.length ≤ maxJournal ∧
      readJournal Sample.decoder data = .ok again ∧ readAsciiJournal Sample.decoder data = .ok again ∧
      again.Same Sample.value ∧ validateJournal again = .ok Sample.fields) ∧
    ∀ value, readJournal Sample.decoder (Sample.twice.write.map fun c => .ofNat c.toNat) ≠ .ok value := by
  obtain ⟨exact_, repeated⟩ := journal_codec_is_exact Sample.decoder Sample.standard
  have known : Sample.decoder.scan (Sample.value.sorted.write.map Char.toNat) = some Sample.value.sorted := by
    unfold Sample.decoder
    simp only [↓reduceIte]
  refine ⟨exact_ Sample.value Sample.fields (by decide +kernel) (by decide +kernel)
    ⟨by decide +kernel, (fun _ no => nomatch no)⟩ known, ?_⟩
  have other : Sample.twice.write.map Char.toNat ≠ Sample.value.sorted.write.map Char.toNat := by decide +kernel
  have read : Sample.decoder.scan (Sample.twice.write.map Char.toNat) = some Sample.twice := by
    unfold Sample.decoder
    simp only [other, ↓reduceIte]
  exact (repeated _ _ Sample.twice (Or.inr (by decide +kernel)) read (by decide +kernel)).1

end CertRenewer.JournalText
