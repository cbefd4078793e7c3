import Mathlib

/-!
# JSON documents

What a JSON text says, with every member it names, in its order and as often as
it names it. A string is the list of its code points, so that a surrogate has a
place in it.
-/

namespace CertRenewer

inductive Document where
  | null
  | bool (value : Bool)
  | int (value : Int)
  | real (literal : List Char)
  | string (points : List Nat)
  | array (items : List Document)
  | object (members : List (List Nat × Document))

namespace Document

/-! ## Dictionaries

A hook makes a dictionary of the members of each object, the inner ones first,
and fails where a name is already in it. -/

/-- The loop over the pairs, after those that are in the dictionary. -/
def insertAll (dict : List (List Nat × Document)) : List (List Nat × Document) → Option (List (List Nat × Document))
  | [] => some dict
  | (name, value) :: rest =>
    if name ∈ dict.map Prod.fst then none else insertAll (dict ++ [(name, value)]) rest

mutual

def load : Document → Option Document
  | .array items => (loadItems items).map .array
  | .object members => ((loadMembers members).bind (insertAll [])).map .object
  | document => some document

def loadItems : List Document → Option (List Document)
  | [] => some []
  | item :: rest => do some ((← load item) :: (← loadItems rest))

def loadMembers : List (List Nat × Document) → Option (List (List Nat × Document))
  | [] => some []
  | (name, value) :: rest => do some ((name, ← load value) :: (← loadMembers rest))

end

mutual

/-- No object in the document names a member twice. -/
def distinct : Document → Bool
  | .array items => distinctItems items
  | .object members => decide (members.map Prod.fst).Nodup && distinctMembers members
  | _ => true

def distinctItems : List Document → Bool
  | [] => true
  | item :: rest => item.distinct && distinctItems rest

def distinctMembers : List (List Nat × Document) → Bool
  | [] => true
  | (_, value) :: rest => value.distinct && distinctMembers rest

end

theorem insertAll_eq (dict pairs : List (List Nat × Document)) (fresh : (dict.map Prod.fst).Nodup) :
    insertAll dict pairs = if ((dict ++ pairs).map Prod.fst).Nodup then some (dict ++ pairs) else none := by
  induction pairs generalizing dict with
  | nil => simp [insertAll, fresh]
  | cons pair rest ih =>
    obtain ⟨name, value⟩ := pair
    by_cases there : name ∈ dict.map Prod.fst
    · have twice : ¬((dict ++ (name, value) :: rest).map Prod.fst).Nodup := by
        rw [List.map_append, List.map_cons, List.nodup_append]
        rintro ⟨_, _, apart⟩
        exact apart name there name List.mem_cons_self rfl
      rw [insertAll, if_pos there, if_neg twice]
    · have next : ((dict ++ [(name, value)]).map Prod.fst).Nodup := by
        rw [List.map_append, List.nodup_append]
        refine ⟨fresh, by simp, ?_⟩
        rintro other before _ (last : _ ∈ [name]) rfl
        exact there (List.mem_singleton.mp last ▸ before)
      rw [insertAll, if_neg there, ih _ next, List.append_assoc]
      rfl

mutual

/-- A document is loaded as it is, when no name is repeated at any depth. -/
theorem load_eq : ∀ d : Document, load d = if d.distinct then some d else none
  | .null | .bool _ | .int _ | .real _ | .string _ => by simp [load, distinct]
  | .array items => by
    rw [load, loadItems_eq items, distinct]
    split
    · rfl
    · rfl
  | .object members => by
    rw [load, loadMembers_eq members, distinct]
    by_cases inner : distinctMembers members = true
    · have run := insertAll_eq [] members (by simp)
      rw [List.nil_append] at run
      simp only [inner, ↓reduceIte, Option.bind_some, run, Bool.and_true, decide_eq_true_eq]
      split
      · rfl
      · rfl
    · simp [inner]

theorem loadItems_eq : ∀ items : List Document, loadItems items = if distinctItems items then some items else none
  | [] => rfl
  | item :: rest => by
    rw [loadItems, load_eq item, loadItems_eq rest, distinctItems]
    cases item.distinct
    · simp
    · cases distinctItems rest
      · simp
      · simp

theorem loadMembers_eq : ∀ members : List (List Nat × Document),
    loadMembers members = if distinctMembers members then some members else none
  | [] => rfl
  | (name, value) :: rest => by
    rw [loadMembers, load_eq value, loadMembers_eq rest, distinctMembers]
    cases value.distinct
    · simp
    · cases distinctMembers rest
      · simp
      · simp

end

/-! ## The order of members -/

/-- Members in the order of their names. -/
def sortMembers (members : List (List Nat × Document)) : List (List Nat × Document) :=
  members.insertionSort fun a b => a.1 ≤ b.1

mutual

/-- The document with the members of every object in the order of their names. -/
def sorted : Document → Document
  | .array items => .array (sortedItems items)
  | .object members => .object (sortMembers (sortedMembers members))
  | document => document

def sortedItems : List Document → List Document
  | [] => []
  | item :: rest => item.sorted :: sortedItems rest

def sortedMembers : List (List Nat × Document) → List (List Nat × Document)
  | [] => []
  | (name, value) :: rest => (name, value.sorted) :: sortedMembers rest

end

/-- Two documents say the same when their dictionaries have the same members. -/
def Same (first second : Document) : Prop := first.sorted = second.sorted

theorem sortedItems_eq_map (items : List Document) : sortedItems items = items.map sorted := by
  induction items with
  | nil => rfl
  | cons item rest ih => rw [sortedItems, ih, List.map_cons]

theorem sortedMembers_eq_map (members : List (List Nat × Document)) :
    sortedMembers members = members.map fun member => (member.1, member.2.sorted) := by
  induction members with
  | nil => rfl
  | cons member rest ih => rw [sortedMembers, ih, List.map_cons]

theorem eq_of_name_eq {members : List (List Nat × Document)} (distinct : (members.map Prod.fst).Nodup)
    {a b : List Nat × Document} (ha : a ∈ members) (hb : b ∈ members) (same : a.1 = b.1) : a = b :=
  List.inj_on_of_nodup_map distinct ha hb same

theorem sortMembers_ordered (members : List (List Nat × Document)) :
    (sortMembers members).Pairwise fun a b => a.1 ≤ b.1 := by
  have total : Std.Total fun a b : List Nat × Document => a.1 ≤ b.1 := ⟨fun a b => le_total a.1 b.1⟩
  have transitive : IsTrans (List Nat × Document) fun a b => a.1 ≤ b.1 := ⟨fun _ _ _ => le_trans⟩
  exact List.pairwise_insertionSort _ members

/-- The members of a dictionary, listed in the order of their names. -/
theorem sortMembers_eq {members listed : List (List Nat × Document)} (distinct : (members.map Prod.fst).Nodup)
    (ordered : listed.Pairwise fun a b => a.1 < b.1) (inside : ∀ member ∈ listed, member ∈ members)
    (all : ∀ member ∈ members, member.1 ∈ listed.map Prod.fst) : sortMembers members = listed := by
  have once : listed.Nodup := by
    refine ordered.imp ?_
    rintro a _ less rfl
    exact List.lt_irrefl _ less
  have weak : listed.Pairwise fun a b => a.1 ≤ b.1 := ordered.imp fun less => le_of_lt less
  have permuted : (sortMembers members).Perm listed := by
    refine (List.perm_insertionSort _ members).trans ((List.perm_ext_iff_of_nodup distinct.of_map once).mpr ?_)
    intro member
    constructor
    · intro there
      obtain ⟨other, found, same⟩ := List.mem_map.mp (all member there)
      exact eq_of_name_eq distinct (inside other found) there same ▸ found
    · exact inside member
  refine List.Perm.eq_of_pairwise ?_ (sortMembers_ordered members) weak permuted
  intro a b ha hb le ge
  exact eq_of_name_eq distinct ((List.mem_insertionSort _).mp ha) (inside b hb) (le_antisymm le ge)

theorem mem_sortMembers {members : List (List Nat × Document)} {member : List Nat × Document} :
    member ∈ sortMembers members ↔ member ∈ members := List.mem_insertionSort _

theorem distinctMembers_iff {members : List (List Nat × Document)} :
    distinctMembers members = true ↔ ∀ member ∈ members, member.2.distinct = true := by
  induction members with
  | nil => simp [distinctMembers]
  | cons member rest ih => simp [distinctMembers, ih]

theorem sortedMembers_names (members : List (List Nat × Document)) :
    (sortedMembers members).map Prod.fst = members.map Prod.fst := by
  rw [sortedMembers_eq_map, List.map_map]
  rfl

mutual

/-- The order of members decides nothing about their names. -/
theorem distinct_sorted : ∀ d : Document, d.distinct = true → d.sorted.distinct = true
  | .null, _ | .bool _, _ | .int _, _ | .real _, _ | .string _, _ => rfl
  | .array items, h => by
    rw [sorted, distinct]
    exact distinct_sortedItems items h
  | .object members, h => by
    simp only [distinct, Bool.and_eq_true, decide_eq_true_eq] at h
    simp only [sorted, distinct, Bool.and_eq_true, decide_eq_true_eq]
    constructor
    · have permuted : (sortMembers (sortedMembers members)).Perm (sortedMembers members) := List.perm_insertionSort _ _
      rw [(permuted.map Prod.fst).nodup_iff, sortedMembers_names]
      exact h.1
    · rw [distinctMembers_iff]
      intro member there
      rw [mem_sortMembers] at there
      exact distinctMembers_iff.mp (distinct_sortedMembers members h.2) member there

theorem distinct_sortedItems : ∀ items : List Document, distinctItems items = true → distinctItems (sortedItems items) = true
  | [], _ => rfl
  | item :: rest, h => by
    simp only [distinctItems, Bool.and_eq_true] at h
    simp only [sortedItems, distinctItems, Bool.and_eq_true]
    exact ⟨distinct_sorted item h.1, distinct_sortedItems rest h.2⟩

theorem distinct_sortedMembers : ∀ members : List (List Nat × Document),
    distinctMembers members = true → distinctMembers (sortedMembers members) = true
  | [], _ => rfl
  | (name, value) :: rest, h => by
    simp only [distinctMembers, Bool.and_eq_true] at h
    simp only [sortedMembers, distinctMembers, Bool.and_eq_true]
    exact ⟨distinct_sorted value h.1, distinct_sortedMembers rest h.2⟩

end

mutual

theorem sorted_sorted : ∀ d : Document, d.sorted.sorted = d.sorted
  | .null | .bool _ | .int _ | .real _ | .string _ => rfl
  | .array items => by
    rw [sorted, sorted, sortedItems_sortedItems items]
  | .object members => by
    rw [sorted, sorted]
    have again : sortedMembers (sortMembers (sortedMembers members)) = sortMembers (sortedMembers members) := by
      rw [sortedMembers_eq_map (sortMembers _)]
      refine (List.map_congr_left fun member there => ?_).trans (List.map_id _)
      rw [mem_sortMembers] at there
      exact Prod.ext rfl (sortedMembers_fixed members member there)
    rw [again]
    exact congrArg Document.object (List.Pairwise.insertionSort_eq (sortMembers_ordered _))

theorem sortedItems_sortedItems : ∀ items : List Document, sortedItems (sortedItems items) = sortedItems items
  | [] => rfl
  | item :: rest => by
    rw [sortedItems, sortedItems, sorted_sorted item, sortedItems_sortedItems rest]

theorem sortedMembers_fixed : ∀ (members : List (List Nat × Document)), ∀ member ∈ sortedMembers members,
    member.2.sorted = member.2
  | [], _, no => nomatch no
  | (name, value) :: rest, member, there => by
    rw [sortedMembers] at there
    rcases List.mem_cons.mp there with rfl | there
    · exact sorted_sorted value
    · exact sortedMembers_fixed rest member there

end

/-! ## The text of a document -/

def hexDigit (n : Nat) : Char := if n < 10 then Char.ofNat (48 + n) else Char.ofNat (87 + n)

/-- An escape of four digits. -/
def escapeUnit (n : Nat) : List Char :=
  ['\\', 'u', hexDigit (n / 4096 % 16), hexDigit (n / 256 % 16), hexDigit (n / 16 % 16), hexDigit (n % 16)]

/-- A code point between quotes, in ASCII. -/
def escape (point : Nat) : List Char :=
  if point = 34 then ['\\', '"']
  else if point = 92 then ['\\', '\\']
  else if point = 10 then ['\\', 'n']
  else if point = 13 then ['\\', 'r']
  else if point = 9 then ['\\', 't']
  else if point = 12 then ['\\', 'f']
  else if point = 8 then ['\\', 'b']
  else if 32 ≤ point ∧ point ≤ 126 then [Char.ofNat point]
  else if point < 0x10000 then escapeUnit point
  else escapeUnit (0xd800 + (point - 0x10000) / 1024 % 1024) ++ escapeUnit (0xdc00 + (point - 0x10000) % 1024)

def quote (points : List Nat) : List Char := '"' :: points.flatMap escape ++ ['"']

mutual

/-- The text without blanks, with every character outside ASCII escaped. -/
def write : Document → List Char
  | .null => "null".toList
  | .bool true => "true".toList
  | .bool false => "false".toList
  | .int value => (toString value).toList
  | .real literal => literal
  | .string points => quote points
  | .array items => '[' :: writeItems items ++ [']']
  | .object members => '\x7b' :: writeMembers members ++ ['\x7d']

def writeItems : List Document → List Char
  | [] => []
  | [item] => write item
  | item :: rest => write item ++ ',' :: writeItems rest

def writeMembers : List (List Nat × Document) → List Char
  | [] => []
  | [(name, value)] => quote name ++ ':' :: write value
  | (name, value) :: rest => quote name ++ ':' :: write value ++ ',' :: writeMembers rest

end

end Document

end CertRenewer
