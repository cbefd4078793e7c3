import CertRenewer.Gate.Decision

/-!
# The order of a report does not matter

The scanner may list results and records in any order, split the records of a
component over several results, and repeat a record. None of this changes what
the comparison says, nor does the order of the exception registry.
-/

namespace CertRenewer.Gate

/-- An object with one field set. -/
def withField (fields : Fields) (key : String) (value : Json) : Fields :=
  (key, value) :: fields.filter fun entry => entry.1 ≠ key

def withRecords (result : Fields) (vulnerabilities : List Json) : Json :=
  .object (withField result "Vulnerabilities" (.array vulnerabilities))

/-- Results that give their records the same context, up to the name of the
image in the target of an operating-system result. -/
structure SameComponent (one other : Fields) : Prop where
  resultClass : one.lookup "Class" = other.lookup "Class"
  resultType : one.lookup "Type" = other.lookup "Type"
  target : one.lookup "Class" ≠ some (.string "os-pkgs") → one.lookup "Target" = other.lookup "Target"

/-- One change to the results of a report. -/
inductive Rearranges : List Json → List Json → Prop
  | results {results results' : List Json} (_ : results.Perm results') : Rearranges results results'
  | records {before after : List Json} {fields : Fields} {vs vs' : List Json} (_ : Lists fields vs)
      (_ : vs.Perm vs') :
      Rearranges (before ++ .object fields :: after) (before ++ withRecords fields vs' :: after)
  | repeated {before after : List Json} {fields : Fields} {vs : List Json} {v : Json}
      (_ : Lists fields vs) (_ : v ∈ vs) :
      Rearranges (before ++ .object fields :: after) (before ++ withRecords fields (v :: vs) :: after)
  | moved {rest : List Json} {one other : Fields} {vs ws : List Json} {v : Json}
      (_ : Lists one (v :: vs)) (_ : Lists other ws) (_ : SameComponent one other) :
      Rearranges (.object one :: .object other :: rest)
        (withRecords one vs :: withRecords other (v :: ws) :: rest)

/-- One change to a report. -/
inductive Reorders : Json → Json → Prop
  | intro {report : Fields} {results results' : List Json}
      (_ : report.lookup "Results" = some (.array results)) (_ : Rearranges results results') :
      Reorders (.object report) (.object (withField report "Results" (.array results')))

/-- Reports that differ only by such changes, in either direction. -/
def Reordered : Json → Json → Prop := Relation.EqvGen Reorders

/-- A registry with the same entries in another order. -/
inductive Shuffles : Json → Json → Prop
  | intro {fields : Fields} {raws raws' : List Json}
      (_ : fields.lookup "exceptions" = some (.array raws)) (_ : raws.Perm raws') :
      Shuffles (.object fields) (.object (withField fields "exceptions" (.array raws')))

def Shuffled : Json → Json → Prop := Relation.EqvGen Shuffles

/-- Both fail or both return the same. -/
def Agree {α : Type} (one other : Checked α) : Prop :=
  (∃ e e', one = .error e ∧ other = .error e') ∨ ∃ a, one = .ok a ∧ other = .ok a

section
variable {fields report : Fields} {key : String} {value : Json} {role : String}

theorem lookup_withField : (withField fields key value).lookup key = some value := by
  simp [withField]

theorem lookup_withField_of_ne {other : String} (ne : other ≠ key) :
    (withField fields key value).lookup other = fields.lookup other := by
  have head : (other == key) = false := by simpa using ne
  rw [withField, List.lookup_cons, head]
  induction fields with
  | nil => rfl
  | cons entry fields ih =>
    obtain ⟨name, content⟩ := entry
    by_cases same : name = key
    · subst same
      rw [List.filter_cons_of_neg (by simp), List.lookup_cons, head]
      exact ih
    · rw [List.filter_cons_of_pos (by simpa using same), List.lookup_cons, List.lookup_cons]
      cases other == name with
      | true => rfl
      | false => exact ih

theorem lists_withField {vs ws : List Json} :
    Lists (withField fields "Vulnerabilities" (.array vs)) ws ↔ ws = vs := by
  simp [Lists, lookup_withField, eq_comm]

theorem readContext_withRecords {vs : List Json} :
    readContext report (withField fields "Vulnerabilities" (.array vs)) = readContext report fields := by
  simp only [readContext, lookup_withField_of_ne (show "Target" ≠ "Vulnerabilities" by decide),
    lookup_withField_of_ne (show "Class" ≠ "Vulnerabilities" by decide),
    lookup_withField_of_ne (show "Type" ≠ "Vulnerabilities" by decide)]

theorem readContext_withResults {results : List Json} {result : Fields} :
    readContext (withField report "Results" (.array results)) result = readContext report result := by
  simp only [readContext, osTarget, lookup_withField_of_ne (show "Metadata" ≠ "Results" by decide)]

/-! ## Results -/

theorem wellFormed_iff {vs : List Json} (lists : Lists fields vs) :
    WellFormed role report (.object fields) ↔
      ∃ context, readContext report fields = .ok context ∧ ∀ v ∈ vs, ∃ f, Denotes role context v f := by
  constructor
  · rintro ⟨_, context, ws, ⟨⟩, read, lists', all⟩
    exact ⟨context, read, lists.unique lists' ▸ all⟩
  · rintro ⟨context, read, all⟩
    exact ⟨fields, context, vs, rfl, read, lists, all⟩

theorem occursIn_iff {vs : List Json} {f : Finding} (lists : Lists fields vs) :
    OccursIn role report (.object fields) f ↔
      ∃ context, readContext report fields = .ok context ∧ ∃ v ∈ vs, Denotes role context v f := by
  constructor
  · rintro ⟨_, context, ws, ⟨⟩, read, lists', found⟩
    exact ⟨context, read, lists.unique lists' ▸ found⟩
  · rintro ⟨context, read, found⟩
    exact ⟨fields, context, vs, rfl, read, lists, found⟩

theorem wellFormed_withRecords {vs : List Json} : WellFormed role report (withRecords fields vs) ↔
    ∃ context, readContext report fields = .ok context ∧ ∀ v ∈ vs, ∃ f, Denotes role context v f := by
  rw [withRecords, wellFormed_iff (lists_withField.mpr rfl), readContext_withRecords]

theorem occursIn_withRecords {vs : List Json} {f : Finding} :
    OccursIn role report (withRecords fields vs) f ↔
      ∃ context, readContext report fields = .ok context ∧ ∃ v ∈ vs, Denotes role context v f := by
  rw [withRecords, occursIn_iff (lists_withField.mpr rfl), readContext_withRecords]

theorem readContext_ok {result : Fields} {context : Context} : readContext report result = .ok context ↔
    ∃ target, requiredText (result.lookup "Target") "result Target" = .ok target ∧
      requiredText (result.lookup "Class") "result Class" = .ok context.resultClass ∧
      requiredText (result.lookup "Type") "result Type" = .ok context.resultType ∧
      (if context.resultClass = "os-pkgs" then osTarget report else .ok target) = .ok context.target := by
  simp only [readContext, bind_eq_ok]
  constructor
  · rintro ⟨target, text, resultClass, classText, resultType, typeText, run⟩
    by_cases os : resultClass = "os-pkgs"
    · simp only [os, if_true, bind_eq_ok] at run
      obtain ⟨stable, read, ⟨⟩⟩ := run
      exact ⟨target, text, os ▸ classText, typeText, by simpa using read⟩
    · simp only [os, if_false, bind_eq_ok] at run
      obtain ⟨stable, read, ⟨⟩⟩ := run
      exact ⟨target, text, classText, typeText, by simpa [os] using read⟩
  · rintro ⟨target, text, classText, typeText, stable⟩
    refine ⟨target, text, _, classText, _, typeText, ?_⟩
    by_cases os : context.resultClass = "os-pkgs"
    · rw [if_pos os] at stable ⊢
      exact bind_eq_ok.mpr ⟨_, stable, rfl⟩
    · rw [if_neg os] at stable ⊢
      exact bind_eq_ok.mpr ⟨_, stable, rfl⟩

theorem SameComponent.context {one other : Fields} {context context' : Context}
    (h : SameComponent one other) (read : readContext report one = .ok context)
    (read' : readContext report other = .ok context') : context = context' := by
  obtain ⟨target, text, classText, typeText, stable⟩ := readContext_ok.mp read
  obtain ⟨target', text', classText', typeText', stable'⟩ := readContext_ok.mp read'
  rw [← h.resultClass, classText] at classText'
  rw [← h.resultType, typeText] at typeText'
  have sameClass := Except.ok.inj classText'
  have sameType := Except.ok.inj typeText'
  rw [← sameClass] at stable'
  have sameTarget : context.target = context'.target := by
    by_cases os : context.resultClass = "os-pkgs"
    · rw [if_pos os] at stable stable'
      exact Except.ok.inj (stable.symm.trans stable')
    · have plain : one.lookup "Class" ≠ some (.string "os-pkgs") := by
        intro found
        rw [found] at classText
        exact os (by simpa [requiredText, check, bind, Except.bind] using classText.symm)
      rw [if_neg os] at stable stable'
      rw [← h.target plain, text] at text'
      rw [← Except.ok.inj text'] at stable'
      exact Except.ok.inj (stable.symm.trans stable')
  cases context
  cases context'
  exact congr (congr (congrArg Context.mk sameClass) sameType) sameTarget

/-- Two lists of results that are read alike. -/
structure ReadAlike (role : String) (report : Fields) (results results' : List Json) : Prop where
  empty : results = [] ↔ results' = []
  wellFormed : (∀ r ∈ results, WellFormed role report r) ↔ ∀ r ∈ results', WellFormed role report r
  occurs : (∀ r ∈ results, WellFormed role report r) →
    ∀ f, Occurs role report results f ↔ Occurs role report results' f

/-- The records of one result count as a set. -/
theorem readAlike_records {before after vs vs' : List Json} (lists : Lists fields vs)
    (same : ∀ v, v ∈ vs' ↔ v ∈ vs) :
    ReadAlike role report (before ++ .object fields :: after)
      (before ++ withRecords fields vs' :: after) where
  empty := by simp
  wellFormed := by
    have here : WellFormed role report (.object fields) ↔ WellFormed role report (withRecords fields vs') := by
      rw [wellFormed_iff lists, wellFormed_withRecords]
      simp only [same]
    simp only [List.forall_mem_append, List.forall_mem_cons, here]
  occurs _ f := by
    have here : OccursIn role report (.object fields) f ↔ OccursIn role report (withRecords fields vs') f := by
      rw [occursIn_iff lists, occursIn_withRecords]
      simp only [same]
    simp only [Occurs, List.mem_append, List.mem_cons, or_and_right, exists_or, exists_eq_left, here]

/-- A record may stand in either of two results of one component. -/
theorem readAlike_moved {rest vs ws : List Json} {one other : Fields} {v : Json}
    (lists : Lists one (v :: vs)) (lists' : Lists other ws) (h : SameComponent one other) :
    ReadAlike role report (.object one :: .object other :: rest)
      (withRecords one vs :: withRecords other (v :: ws) :: rest) where
  empty := by simp
  wellFormed := by
    simp only [List.forall_mem_cons, wellFormed_iff lists, wellFormed_iff lists', wellFormed_withRecords]
    constructor
    · rintro ⟨⟨context, read, first, all⟩, ⟨context', read', all'⟩, later⟩
      obtain rfl := h.context read read'
      exact ⟨⟨context, read, all⟩, ⟨context, read', first, all'⟩, later⟩
    · rintro ⟨⟨context, read, all⟩, ⟨context', read', first, all'⟩, later⟩
      obtain rfl := h.context read read'
      exact ⟨⟨context, read, first, all⟩, ⟨context, read', all'⟩, later⟩
  occurs all f := by
    simp only [List.forall_mem_cons, wellFormed_iff lists, wellFormed_iff lists'] at all
    obtain ⟨⟨context, read, _⟩, ⟨context', read', _⟩, _⟩ := all
    obtain rfl := h.context read read'
    simp only [Occurs, List.exists_mem_cons_iff, occursIn_iff lists, occursIn_iff lists',
      occursIn_withRecords, read, read', Except.ok.injEq, exists_eq_left']
    grind

theorem Rearranges.readAlike {results results' : List Json} (h : Rearranges results results') :
    ReadAlike role report results results' := by
  cases h with
  | results perm =>
    refine ⟨⟨fun eq => ?_, fun eq => ?_⟩, ?_, fun _ f => ?_⟩
    · rw [eq] at perm
      exact perm.symm.eq_nil
    · rw [eq] at perm
      exact perm.eq_nil
    · simp only [perm.mem_iff]
    · simp only [Occurs, perm.mem_iff]
  | records lists perm => exact readAlike_records lists fun v => perm.symm.mem_iff
  | repeated lists member =>
    refine readAlike_records lists fun w => ?_
    rw [List.mem_cons]
    exact ⟨fun w => w.elim (fun eq => eq ▸ member) id, Or.inr⟩
  | moved lists lists' same => exact readAlike_moved lists lists' same

/-! ## Reports -/

theorem readResults_ok {results : List Json} : readResults role report = .ok results ↔
    (report.lookup "SchemaVersion").any Json.equalsTwo = true ∧
      report.lookup "ArtifactType" = some (.string "container_image") ∧
      report.lookup "Results" = some (.array results) ∧ results ≠ [] := by
  unfold readResults
  rw [bind_eq_ok]
  simp only [check_ok, exists_const]
  refine and_congr_right fun _ => ?_
  split
  · rename_i artifact
    rw [bind_eq_ok, artifact]
    split
    · rename_i missing
      simp [missing, invalid]
    · rename_i listed
      simp only [bind_eq_ok, check_ok, Except.ok.injEq, listed, Option.some.injEq, Json.array.injEq]
      constructor
      · rintro ⟨_, _, _, filled, rfl⟩
        exact ⟨trivial, rfl, filled⟩
      · rintro ⟨_, rfl, filled⟩
        exact ⟨(), trivial, (), filled, rfl⟩
    · rename_i other listed
      simp only [listed, invalid, reduceCtorEq, and_false, exists_false, false_iff, Option.some.injEq]
      rintro ⟨_, eq, _⟩
      exact other results eq
  · rename_i other
    refine iff_of_false (fun run => ?_) (fun both => other both.1)
    obtain ⟨_, ⟨⟩, _⟩ := bind_eq_ok.mp run

theorem wellFormed_withResults {results : List Json} {r : Json} :
    WellFormed role (withField report "Results" (.array results)) r ↔ WellFormed role report r := by
  simp only [WellFormed, readContext_withResults]

theorem occurs_withResults {results rs : List Json} {f : Finding} :
    Occurs role (withField report "Results" (.array results)) rs f ↔ Occurs role report rs f := by
  simp only [Occurs, OccursIn, readContext_withResults]

theorem readResults_withResults {results rs : List Json} :
    readResults role (withField report "Results" (.array results)) = .ok rs ↔
      (report.lookup "SchemaVersion").any Json.equalsTwo = true ∧
        report.lookup "ArtifactType" = some (.string "container_image") ∧ results = rs ∧ rs ≠ [] := by
  rw [readResults_ok, lookup_withField, lookup_withField_of_ne (by decide),
    lookup_withField_of_ne (by decide), Option.some.injEq, Json.array.injEq]

/-- One change does not change what the report is normalised to. -/
theorem Reorders.normalized {r r' : Json} (h : Reorders r r') (d : Findings) :
    normalizeFindings r role = .ok d ↔ normalizeFindings r' role = .ok d := by
  obtain @⟨report, results, results', listed, rearranged⟩ := h
  have alike := @Rearranges.readAlike report role _ _ rearranged
  rw [normalizeFindings_ok, normalizeFindings_ok]
  constructor
  · rintro ⟨_, rs, ⟨⟩, read, all, collects⟩
    obtain ⟨schema, artifact, listed', filled⟩ := readResults_ok.mp read
    obtain rfl : results = rs := by simpa [listed] using listed'
    refine ⟨_, results', rfl, ?_, fun r member => ?_, collects.congr fun f => ?_⟩
    · exact readResults_withResults.mpr ⟨schema, artifact, rfl, fun no => filled (alike.empty.mpr no)⟩
    · exact wellFormed_withResults.mpr (alike.wellFormed.mp all r member)
    · rw [occurs_withResults, alike.occurs all]
  · rintro ⟨_, rs, ⟨⟩, read, all, collects⟩
    obtain ⟨schema, artifact, rfl, filled⟩ := readResults_withResults.mp read
    have all := alike.wellFormed.mpr fun r member => wellFormed_withResults.mp (all r member)
    refine ⟨report, results, rfl, ?_, all, collects.congr fun f => ?_⟩
    · exact readResults_ok.mpr ⟨schema, artifact, listed, fun no => filled (alike.empty.mp no)⟩
    · rw [occurs_withResults, alike.occurs all]

theorem Reordered.normalized {r r' : Json} (h : Reordered r r') (d : Findings) :
    normalizeFindings r role = .ok d ↔ normalizeFindings r' role = .ok d := by
  induction h with
  | rel _ _ h => exact h.normalized d
  | refl => exact Iff.rfl
  | symm _ _ _ ih => exact ih.symm
  | trans _ _ _ _ _ ih ih' => exact ih.trans ih'

/-! ## Registries -/

variable {tools : Tools} {entries : List ImageException}

/-- Entries with distinct identifiers have one order. -/
theorem sorted_perm {added added' : List ImageException} (perm : added.Perm added')
    (distinct : Distinct added) :
    added.insertionSort (fun a b => a.identifier ≤ b.identifier) =
      added'.insertionSort fun a b => a.identifier ≤ b.identifier := by
  refine List.Perm.eq_of_pairwise (fun a b memA memB le ge => ?_) (List.pairwise_insertionSort _ _)
    (List.pairwise_insertionSort _ _)
    (((List.perm_insertionSort _ _).trans perm).trans (List.perm_insertionSort _ _).symm)
  have memA := (List.mem_insertionSort _).mp memA
  have memB := perm.mem_iff.mpr ((List.mem_insertionSort _).mp memB)
  exact List.inj_on_of_nodup_map distinct.1 memA memB (le_antisymm le ge)

theorem entered_perm {raws raws' : List Json} (perm : raws.Perm raws')
    (h : ∃ added, List.Forall₂ (fun raw e => readException tools raw = .ok e) raws added ∧
      Distinct added ∧ entries = added.insertionSort fun a b => a.identifier ≤ b.identifier) :
    ∃ added, List.Forall₂ (fun raw e => readException tools raw = .ok e) raws' added ∧
      Distinct added ∧ entries = added.insertionSort fun a b => a.identifier ≤ b.identifier := by
  obtain ⟨added, reads, distinct, rfl⟩ := h
  obtain ⟨added', reads', perm'⟩ := List.perm_comp_forall₂ perm.symm reads
  have distinct' : Distinct added' :=
    ⟨(perm'.map _).nodup_iff.mpr distinct.1, (perm'.map _).nodup_iff.mpr distinct.2⟩
  exact ⟨added', reads', distinct', (sorted_perm perm' distinct').symm⟩

theorem mem_withField {name : String} (present : key ∈ fields.map Prod.fst) :
    name ∈ (withField fields key value).map Prod.fst ↔ name ∈ fields.map Prod.fst := by
  simp only [withField, List.map_cons, List.mem_cons, List.mem_map, List.mem_filter, decide_eq_true_eq]
  constructor
  · rintro (rfl | ⟨entry, ⟨member, _⟩, rfl⟩)
    · exact List.mem_map.mp present
    · exact ⟨entry, member, rfl⟩
  · rintro ⟨entry, member, rfl⟩
    by_cases same : entry.1 = key
    · exact Or.inl same
    · exact Or.inr ⟨entry, ⟨member, same⟩, rfl⟩

theorem mem_of_lookup (found : fields.lookup key = some value) : key ∈ fields.map Prod.fst := by
  induction fields with
  | nil => cases found
  | cons entry fields ih =>
    rw [List.lookup_cons] at found
    by_cases same : key = entry.1
    · simp [same]
    · rw [show (key == entry.1) = false by simpa using same] at found
      exact List.mem_cons_of_mem _ (ih found)

/-- The parts of a registry that do not depend on its entries. -/
def Policy (fields : Fields) : Prop :=
  (∀ name ∈ fields.map Prod.fst, name ∈ ["schema_version", "exceptions"]) ∧
    (∀ name ∈ ["schema_version", "exceptions"], name ∈ fields.map Prod.fst) ∧
    fields.lookup "schema_version" = some (.int 1)

theorem enters_object {raws : List Json} : Enters (.object fields) raws ↔
    Policy fields ∧ fields.lookup "exceptions" = some (.array raws) ∧ raws.length ≤ 256 := by
  simp only [Enters, exactFields, bind_eq_ok, check_ok, Except.ok.injEq, exists_const]
  constructor
  · rintro ⟨_, ⟨names, rfl⟩, version, listed, short⟩
    exact ⟨⟨names.1, names.2, version⟩, listed, short⟩
  · rintro ⟨⟨one, two, version⟩, listed, short⟩
    exact ⟨fields, ⟨⟨one, two⟩, rfl⟩, version, listed, short⟩

theorem policy_withField (found : fields.lookup "exceptions" = some value) {content : Json} :
    Policy (withField fields "exceptions" content) ↔ Policy fields := by
  simp only [Policy, mem_withField (mem_of_lookup found), lookup_withField_of_ne (show
    "schema_version" ≠ "exceptions" by decide)]

theorem Shuffles.registry {p p' : Json} (h : Shuffles p p') (entries : List ImageException) :
    readRegistry tools p = .ok entries ↔ readRegistry tools p' = .ok entries := by
  obtain @⟨fields, raws, raws', listed, perm⟩ := h
  simp only [readRegistry_ok, enters_object, policy_withField listed, lookup_withField, listed,
    Option.some.injEq, Json.array.injEq]
  constructor
  · rintro ⟨_, added, ⟨policy, rfl, short⟩, read⟩
    obtain ⟨added', read'⟩ := entered_perm perm ⟨added, read⟩
    exact ⟨raws', added', ⟨policy, rfl, perm.length_eq ▸ short⟩, read'⟩
  · rintro ⟨_, added, ⟨policy, rfl, short⟩, read⟩
    obtain ⟨added', read'⟩ := entered_perm perm.symm ⟨added, read⟩
    exact ⟨raws, added', ⟨policy, rfl, perm.length_eq ▸ short⟩, read'⟩

theorem Shuffled.registry {p p' : Json} (h : Shuffled p p') (entries : List ImageException) :
    readRegistry tools p = .ok entries ↔ readRegistry tools p' = .ok entries := by
  induction h with
  | rel _ _ h => exact h.registry entries
  | refl => exact Iff.rfl
  | symm _ _ _ ih => exact ih.symm
  | trans _ _ _ _ _ ih ih' => exact ih.trans ih'

/-! ## The comparison -/

theorem agree_of_iff {α : Type} {one other : Checked α} (h : ∀ a, one = .ok a ↔ other = .ok a) :
    Agree one other := by
  cases one with
  | ok a => exact Or.inr ⟨a, rfl, (h a).mp rfl⟩
  | error e =>
    cases other with
    | ok a => cases (h a).mpr rfl
    | error e' => exact Or.inl ⟨e, e', rfl, rfl⟩

/-- The comparison once the exceptions of a registry are applied. -/
def compareReviewed (tools : Tools) (derivativeReport upstreamReport policy : Json)
    (upstreamImage platform : String) : Checked Comparison := do
  let comparison ← compareReports tools derivativeReport upstreamReport
  let exceptions ← readRegistry tools policy
  applyExceptions comparison exceptions upstreamImage platform

/-- Reports and registries in another order are compared alike. -/
theorem comparison_ignores_order {derivative derivative' upstream upstream' policy policy' : Json}
    (derivatives : Reordered derivative derivative') (upstreams : Reordered upstream upstream')
    (policies : Shuffled policy policy') :
    Agree (compareReports tools derivative upstream) (compareReports tools derivative' upstream') ∧
      ∀ upstreamImage platform,
        Agree (compareReviewed tools derivative upstream policy upstreamImage platform)
          (compareReviewed tools derivative' upstream' policy' upstreamImage platform) := by
  have compared (c : Comparison) : compareReports tools derivative upstream = .ok c ↔
      compareReports tools derivative' upstream' = .ok c := by
    simp only [compareReports_ok, derivatives.normalized, upstreams.normalized]
  refine ⟨agree_of_iff compared, fun upstreamImage platform => agree_of_iff fun c => ?_⟩
  simp only [compareReviewed, bind_eq_ok, compared, policies.registry]

end

/-- The report of one package with its record listed twice. -/
def repeatedReport (version : String) : Json :=
  .object (withField (packageFields version) "Results" (.array [
    withRecords (packageResult version) [packageRecord version, packageRecord version]]))

theorem repeated_record_is_compared_alike :
    Agree (compareReports twoVersions (packageReport "2") (packageReport "1"))
      (compareReports twoVersions (repeatedReport "2") (packageReport "1")) := by
  have repeated : Reordered (packageReport "2") (repeatedReport "2") := by
    have rearranged := @Rearranges.repeated [] [] (packageResult "2") [packageRecord "2"] (packageRecord "2")
      (Or.inl rfl) (by simp)
    exact Relation.EqvGen.rel _ _ (Reorders.intro rfl rearranged)
  have same : Reordered (packageReport "1") (packageReport "1") := Relation.EqvGen.refl _
  have policy : Shuffled (.object [("schema_version", .int 1), ("exceptions", .array [])])
      (.object [("schema_version", .int 1), ("exceptions", .array [])]) := Relation.EqvGen.refl _
  exact (comparison_ignores_order repeated same policy).1

end CertRenewer.Gate
