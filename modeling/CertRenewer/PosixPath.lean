import Mathlib

/-!
# POSIX paths

`normpath`, `join`, `commonpath` and `relpath` of Python's `posixpath`, and what they do
on absolute paths: a normal path is a slash and the names it goes through.
-/

namespace PosixPath

abbrev Path := List Char

def current : Path := ['.']
def parent : Path := ['.', '.']

def components (p : Path) : List Path := p.splitOn '/'
def joinNames (names : List Path) : Path := ['/'].intercalate names

def isabs (p : Path) : Bool := p.head? == some '/'

/-- `posixpath.join` of two paths. -/
def join (a b : Path) : Path :=
  if isabs b then b
  else if a = [] ∨ a.getLast? = some '/' then a ++ b
  else a ++ '/' :: b

/-- Two slashes at the start stay two, any other number becomes one. -/
def initialSlashes : Path → Nat
  | '/' :: '/' :: '/' :: _ => 1
  | '/' :: '/' :: _ => 2
  | '/' :: _ => 1
  | _ => 0

/-- One component in the loop of `normpath`; what is kept is in reverse order. -/
def push (absolute : Bool) (kept : List Path) (c : Path) : List Path :=
  if c = [] ∨ c = current then kept
  else if c ≠ parent ∨ (absolute = false ∧ kept = []) ∨ kept.head? = some parent then c :: kept
  else kept.tail

def normpath (p : Path) : Path :=
  let names := ((components p).foldl (push (initialSlashes p != 0)) []).reverse
  let result := List.replicate (initialSlashes p) '/' ++ joinNames names
  if result = [] then current else result

def commonPrefix : List Path → List Path → List Path
  | a :: as, b :: bs => if a = b then a :: commonPrefix as bs else []
  | _, _ => []

def names (p : Path) : List Path := (components p).filter fun c => c ≠ [] ∧ c ≠ current

/-- `posixpath.commonpath` of two paths; an absolute and a relative one have none. -/
def commonpath (a b : Path) : Option Path :=
  if isabs a = isabs b then
    some ((if isabs a then ['/'] else []) ++ joinNames (commonPrefix (names a) (names b)))
  else none

/-- `posixpath.relpath` of absolute paths. -/
def relpath (path start : Path) : Path :=
  let origin := (components (normpath start)).filter (· ≠ [])
  let destination := (components (normpath path)).filter (· ≠ [])
  let common := (commonPrefix origin destination).length
  let rel := List.replicate (origin.length - common) parent ++ destination.drop common
  if rel = [] then current else joinNames rel

/-! ## Components -/

/-- A name a normal path goes through. -/
structure Proper (c : Path) : Prop where
  some : c ≠ []
  current : c ≠ current
  parent : c ≠ parent
  single : '/' ∉ c

theorem components_slash (p : Path) : components ('/' :: p) = [] :: components p := by
  simp [components, List.splitOn_cons_eq_if_modifyHead]

theorem components_trailing (p : Path) : components (p ++ ['/']) = components p ++ [[]] :=
  List.splitOn_append_cons_self p []

theorem components_joinNames {cs : List Path} (some : cs ≠ []) (single : ∀ c ∈ cs, '/' ∉ c) :
    components (joinNames cs) = cs :=
  List.splitOn_intercalate '/' single some

theorem joinNames_append {as : List Path} {c : Path} (some : as ≠ []) :
    joinNames (as ++ [c]) = joinNames as ++ '/' :: c := by
  induction as with
  | nil => exact absurd rfl some
  | cons a rest ih =>
    cases rest with
    | nil => simp [joinNames, List.intercalate_cons_cons]
    | cons b more =>
      have later := ih (List.cons_ne_nil b more)
      simp only [joinNames, List.cons_append, List.intercalate_cons_cons] at later ⊢
      rw [later]
      simp

theorem single_of_mem {p c : Path} (there : c ∈ components p) : '/' ∉ c := by
  induction p generalizing c with
  | nil =>
    rw [components, List.splitOn_nil] at there
    rw [List.mem_singleton.1 there]
    exact List.not_mem_nil
  | cons a rest ih =>
    rw [components, List.splitOn_cons_eq_if_modifyHead] at there
    split at there <;> rename_i slash
    · rcases List.mem_cons.1 there with rfl | later
      · exact List.not_mem_nil
      · exact ih later
    · cases parts : rest.splitOn '/' with
      | nil => exact absurd parts (List.splitOn_ne_nil '/' rest)
      | cons first others =>
        rw [parts, List.modifyHead_cons] at there
        rcases List.mem_cons.1 there with rfl | later
        · intro no
          rcases List.mem_cons.1 no with same | later
          · exact slash (beq_iff_eq.2 same.symm)
          · exact ih (by rw [components, parts]; exact List.mem_cons_self) later
        · exact ih (by rw [components, parts]; exact List.mem_cons_of_mem _ later)

/-! ## Normal paths -/

/-- The path through these names. -/
def through (cs : List Path) : Path := '/' :: joinNames cs

theorem proper_append {cs : List Path} {c : Path} (proper : ∀ d ∈ cs, Proper d) (last : Proper c) :
    ∀ d ∈ cs ++ [c], Proper d := by
  intro d there
  rcases List.mem_append.1 there with before | here
  · exact proper d before
  · rw [List.mem_singleton.1 here]
    exact last

theorem push_proper {kept : List Path} {c : Path} (proper : ∀ d ∈ kept, Proper d) (single : '/' ∉ c) :
    ∀ d ∈ push true kept c, Proper d := by
  intro d there
  unfold push at there
  split at there <;> rename_i skip
  · exact proper d there
  · obtain ⟨some, other⟩ := not_or.1 skip
    split at there <;> rename_i keep
    · rcases List.mem_cons.1 there with rfl | before
      · rcases keep with up | ⟨no, -⟩ | top
        · exact ⟨some, other, up, single⟩
        · cases no
        · have upward := proper parent (List.mem_of_mem_head? top)
          exact absurd rfl upward.parent
      · exact proper d before
    · exact proper d (List.mem_of_mem_tail there)

theorem foldl_proper {cs kept : List Path} (single : ∀ c ∈ cs, '/' ∉ c) (proper : ∀ d ∈ kept, Proper d) :
    ∀ d ∈ cs.foldl (push true) kept, Proper d := by
  induction cs generalizing kept with
  | nil => exact proper
  | cons c rest ih =>
    have here := push_proper proper (single c List.mem_cons_self)
    exact ih (fun d there => single d (List.mem_cons_of_mem _ there)) here

theorem foldl_keeps {cs kept : List Path} (proper : ∀ c ∈ cs, Proper c) :
    cs.foldl (push true) kept = cs.reverse ++ kept := by
  induction cs generalizing kept with
  | nil => rfl
  | cons c rest ih =>
    have here := proper c List.mem_cons_self
    have kept' : push true kept c = c :: kept := by
      simp [push, here.some, here.current, here.parent]
    rw [List.foldl_cons, kept', ih fun d there => proper d (List.mem_cons_of_mem _ there)]
    simp

/-- Where an absolute path leads, whatever detours it takes. -/
theorem normpath_through {p : Path} (absolute : initialSlashes p = 1) :
    ∃ cs, (∀ c ∈ cs, Proper c) ∧ normpath p = through cs := by
  refine ⟨((components p).foldl (push true) []).reverse, ?_, ?_⟩
  · intro c there
    exact foldl_proper (fun d => single_of_mem) (fun _ no => by cases no) c (List.mem_reverse.1 there)
  · simp [normpath, absolute, through]

theorem initialSlashes_through {cs : List Path} (proper : ∀ c ∈ cs, Proper c) :
    initialSlashes (through cs) = 1 := by
  cases cs with
  | nil => rfl
  | cons c rest =>
    have here := proper c List.mem_cons_self
    cases c with
    | nil => exact absurd rfl here.some
    | cons a more =>
      have other : a ≠ '/' := fun same => here.single (same ▸ List.mem_cons_self)
      have start : ∃ tail, through ((a :: more) :: rest) = '/' :: a :: tail := by
        cases rest with
        | nil => exact ⟨more, by simp [through, joinNames]⟩
        | cons d later =>
          exact ⟨more ++ '/' :: joinNames (d :: later),
            by simp [through, joinNames, List.intercalate_cons_cons]⟩
      obtain ⟨tail, same⟩ := start
      rw [same]
      unfold initialSlashes
      split <;> simp_all

theorem components_root : components (through []) = [[], []] := by
  have root : through [] = ['/'] := rfl
  have nothing : components [] = [[]] := List.splitOn_nil '/'
  rw [root, components_slash, nothing]

theorem components_through {cs : List Path} (some : cs ≠ []) (proper : ∀ c ∈ cs, Proper c) :
    components (through cs) = [] :: cs := by
  rw [through, components_slash, components_joinNames some fun c there => (proper c there).single]

/-- A path without detours is its own normal path. -/
theorem normpath_proper {cs : List Path} (proper : ∀ c ∈ cs, Proper c) :
    normpath (through cs) = through cs := by
  have kept : (components (through cs)).foldl (push true) [] = cs.reverse := by
    by_cases none : cs = []
    · subst none
      rfl
    · rw [components_through none proper]
      change List.foldl (push true) (push true [] []) cs = _
      rw [show push true [] [] = [] from rfl, foldl_keeps proper, List.append_nil]
  have slashes := initialSlashes_through proper
  have absolute : ((1 : Nat) != 0) = true := rfl
  simp only [normpath, slashes, absolute, kept]
  simp [through]

theorem filter_proper {cs : List Path} {keep : Path → Bool} (all : ∀ c ∈ cs, keep c = true)
    (none : keep [] = false) (proper : ∀ c ∈ cs, Proper c) :
    (components (through cs)).filter keep = cs := by
  by_cases empty : cs = []
  · subst empty
    rw [components_root]
    simp [none]
  · rw [components_through empty proper, List.filter_cons_of_neg (by simp [none])]
    exact List.filter_eq_self.2 all

theorem names_through {cs : List Path} (proper : ∀ c ∈ cs, Proper c) : names (through cs) = cs := by
  refine filter_proper (fun c there => ?_) (by simp) proper
  have here := proper c there
  simp [here.some, here.current]

theorem commonPrefix_append (as bs : List Path) : commonPrefix as (as ++ bs) = as := by
  induction as with
  | nil => cases bs <;> rfl
  | cons a rest ih => simp [commonPrefix, ih]

theorem commonpath_through {as bs : List Path} (proper : ∀ c ∈ as ++ bs, Proper c) :
    commonpath (through as) (through (as ++ bs)) = some (through as) := by
  have left : ∀ c ∈ as, Proper c := fun c there => proper c (List.mem_append_left bs there)
  unfold commonpath
  rw [names_through left, names_through proper, commonPrefix_append]
  simp [isabs, through]

theorem relpath_through {as bs : List Path} (some : bs ≠ []) (proper : ∀ c ∈ as ++ bs, Proper c) :
    relpath (through (as ++ bs)) (through as) = joinNames bs := by
  have left : ∀ c ∈ as, Proper c := fun c there => proper c (List.mem_append_left bs there)
  have origin : (components (through as)).filter (· ≠ []) = as :=
    filter_proper (fun c there => by simp [(left c there).some]) (by simp) left
  have destination : (components (through (as ++ bs))).filter (· ≠ []) = as ++ bs :=
    filter_proper (fun c there => by simp [(proper c there).some]) (by simp) proper
  simp only [relpath, normpath_proper left, normpath_proper proper, origin, destination, commonPrefix_append]
  simp [some]

theorem through_getLast {cs : List Path} (some : cs ≠ []) (proper : ∀ c ∈ cs, Proper c) :
    (through cs).getLast? ≠ Option.some '/' := by
  intro ending
  obtain ⟨start, same⟩ := List.getLast?_eq_some_iff.1 ending
  have parts := components_through some proper
  rw [same, components_trailing] at parts
  obtain ⟨before, last, rfl⟩ := (List.eq_nil_or_concat cs).resolve_left some
  rw [List.concat_eq_append] at parts proper
  have both := congrArg List.getLast? parts
  rw [List.getLast?_append_of_ne_nil _ (by simp), ← List.cons_append,
    List.getLast?_append_of_ne_nil _ (by simp)] at both
  have here := proper last (by simp)
  exact here.some (Option.some.inj both).symm

/-- A name is joined to a path as the last it goes through. -/
theorem join_through {cs : List Path} {c : Path} (proper : ∀ d ∈ cs, Proper d) (last : Proper c) :
    join (through cs) c = through (cs ++ [c]) := by
  have relative : isabs c = false := by
    cases c with
    | nil => rfl
    | cons a rest =>
      have other : a ≠ '/' := fun same => last.single (same ▸ List.mem_cons_self)
      simp [isabs, other]
  by_cases none : cs = []
  · subst none
    simp [join, relative, through, joinNames]
  · have ending := through_getLast none proper
    have slashed : ¬(through cs = [] ∨ (through cs).getLast? = some '/') := by
      rintro (empty | slash)
      · cases empty
      · exact ending slash
    simp only [join, relative, if_neg slashed]
    simp [through, joinNames_append none]

end PosixPath
