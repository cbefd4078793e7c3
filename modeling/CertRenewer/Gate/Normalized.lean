import CertRenewer.Gate.Report

/-!
# What a normalised report holds

`normalize_findings` goes through the report record by record and stops at the
first that it cannot read or that contradicts an earlier one. What it returns
does not depend on the way through: it is the set of the findings that occur.
-/

namespace CertRenewer.Gate

/-! ## Collecting without contradiction -/

/-- The dictionary holds exactly the findings in `S`, each under its identity. -/
def Collects (d : Findings) (S : Finding → Prop) : Prop :=
  ∀ k f, d.lookup k = some f ↔ S f ∧ f.identity = k

def Unambiguous (S : Finding → Prop) : Prop := ∀ f g, S f → S g → f.identity = g.identity → f = g

/-- A step that adds the findings `T x` of a good `x` and fails on every other,
and on a contradiction. -/
structure Gathers {α : Type} (step : Findings → α → Checked Findings) (Good : α → Prop)
    (T : α → Finding → Prop) : Prop where
  sound : ∀ {d d' S x}, Collects d S → step d x = .ok d' →
    Good x ∧ Collects d' fun f => S f ∨ T x f
  complete : ∀ {d S x}, Collects d S → Good x → Unambiguous (fun f => S f ∨ T x f) →
    ∃ d', step d x = .ok d'

section
variable {α : Type} {d d' : Findings} {S : Finding → Prop}

theorem collects_empty : Collects ∅ fun _ => False := by
  intro k f
  simp

theorem Collects.unambiguous (h : Collects d S) : Unambiguous S := by
  intro f g hf hg same
  have found := (h g.identity f).mpr ⟨hf, same⟩
  exact Option.some.inj (found.symm.trans ((h g.identity g).mpr ⟨hg, rfl⟩))

theorem Collects.congr {T : Finding → Prop} (h : Collects d S) (same : ∀ f, S f ↔ T f) :
    Collects d T := by
  intro k f
  rw [h k f, same f]

theorem Collects.unique (h : Collects d S) (h' : Collects d' S) : d = d' := by
  refine Finmap.ext_lookup fun k => Option.ext fun f => ?_
  exact (h k f).trans (h' k f).symm

theorem Collects.mem_keys (h : Collects d S) {k : FindingIdentity} :
    k ∈ d.keys ↔ ∃ f, S f ∧ f.identity = k := by
  rw [Finmap.mem_keys, Finmap.mem_iff]
  exact exists_congr fun f => h k f

theorem Collects.insert {f : Finding} (h : Collects d S)
    (agrees : ∀ g, S g → g.identity = f.identity → g = f) :
    Collects (d.insert f.identity f) fun g => S g ∨ g = f := by
  intro k g
  by_cases same : k = f.identity
  · subst same
    rw [Finmap.lookup_insert, Option.some.injEq]
    constructor
    · rintro rfl
      exact ⟨Or.inr rfl, rfl⟩
    · rintro ⟨old | rfl, identity⟩
      · exact (agrees g old identity).symm
      · rfl
  · rw [Finmap.lookup_insert_of_ne _ same, h k g]
    constructor
    · exact fun ⟨old, identity⟩ => ⟨Or.inl old, identity⟩
    · rintro ⟨old | rfl, identity⟩
      · exact ⟨old, identity⟩
      · exact absurd identity.symm same

/-- A whole list is gathered as its members are. -/
theorem Gathers.fold {step : Findings → α → Checked Findings} {Good : α → Prop}
    {T : α → Finding → Prop} (h : Gathers step Good T) :
    Gathers (fun d (xs : List α) => xs.foldlM step d) (fun xs => ∀ x ∈ xs, Good x)
      fun xs f => ∃ x ∈ xs, T x f where
  sound := by
    intro d d' S xs collects run
    induction xs generalizing d S with
    | nil =>
      cases run
      exact ⟨by simp, collects.congr fun f => by simp⟩
    | cons x xs ih =>
      rw [List.foldlM_cons, bind_eq_ok] at run
      obtain ⟨d'', first, rest⟩ := run
      obtain ⟨good, collects⟩ := h.sound collects first
      obtain ⟨all, collects⟩ := ih collects rest
      refine ⟨List.forall_mem_cons.mpr ⟨good, all⟩, collects.congr fun f => ?_⟩
      simp only [List.exists_mem_cons_iff, or_assoc]
  complete := by
    intro d S xs collects all clear
    induction xs generalizing d S with
    | nil => exact ⟨d, rfl⟩
    | cons x xs ih =>
      obtain ⟨good, all⟩ := List.forall_mem_cons.mp all
      have first : Unambiguous fun f => S f ∨ T x f := fun f g hf hg =>
        clear f g (hf.imp_right fun hx => ⟨x, by simp, hx⟩) (hg.imp_right fun hx => ⟨x, by simp, hx⟩)
      obtain ⟨d', run⟩ := h.complete collects good first
      have later : Unambiguous fun f => (S f ∨ T x f) ∨ ∃ y ∈ xs, T y f := by
        simpa only [List.exists_mem_cons_iff, or_assoc] using clear
      obtain ⟨d'', rest⟩ := ih (h.sound collects run).2 all later
      exact ⟨d'', by rw [List.foldlM_cons, bind_eq_ok]; exact ⟨d', run, rest⟩⟩

end

/-! ## The findings of a report -/

/-- The finding a record denotes, wherever it stands. -/
def Denotes (role : String) (context : Context) (vulnerability : Json) (f : Finding) : Prop :=
  ∃ fields, vulnerability = .object fields ∧ readFields role context fields = .ok f

/-- The records of a result. -/
def Lists (result : Fields) (vulnerabilities : List Json) : Prop :=
  result.lookup "Vulnerabilities" = some (.array vulnerabilities) ∨
    (result.lookup "Vulnerabilities" = none ∧ vulnerabilities = [])

/-- A result that can be read throughout. -/
def WellFormed (role : String) (report : Fields) (result : Json) : Prop :=
  ∃ fields context vulnerabilities, result = .object fields ∧ readContext report fields = .ok context ∧
    Lists fields vulnerabilities ∧ ∀ v ∈ vulnerabilities, ∃ f, Denotes role context v f

def OccursIn (role : String) (report : Fields) (result : Json) (f : Finding) : Prop :=
  ∃ fields context vulnerabilities, result = .object fields ∧ readContext report fields = .ok context ∧
    Lists fields vulnerabilities ∧ ∃ v ∈ vulnerabilities, Denotes role context v f

def Occurs (role : String) (report : Fields) (results : List Json) (f : Finding) : Prop :=
  ∃ result ∈ results, OccursIn role report result f

section
variable {role : String} {report result : Fields} {context : Context} {index : Nat}

theorem mem_zipIdx_fst {α : Type} {xs : List α} {x : α} : x ∈ xs ↔ ∃ i, (x, i) ∈ xs.zipIdx := by
  have firsts : x ∈ xs.zipIdx.map Prod.fst ↔ x ∈ xs := by rw [List.zipIdx_map_fst]
  rw [← firsts, List.mem_map]
  constructor
  · rintro ⟨⟨_, i⟩, member, rfl⟩
    exact ⟨i, member⟩
  · exact fun ⟨i, member⟩ => ⟨_, member, rfl⟩

theorem exists_mem_zipIdx {α : Type} {xs : List α} {P : α → Prop} :
    (∃ x ∈ xs.zipIdx, P x.1) ↔ ∃ x ∈ xs, P x := by
  constructor
  · exact fun ⟨x, member, hx⟩ => ⟨x.1, mem_zipIdx_fst.mpr ⟨x.2, member⟩, hx⟩
  · rintro ⟨x, member, hx⟩
    obtain ⟨i, member⟩ := mem_zipIdx_fst.mp member
    exact ⟨(x, i), member, hx⟩

theorem forall_mem_zipIdx {α : Type} {xs : List α} {P : α → Prop} :
    (∀ x ∈ xs.zipIdx, P x.1) ↔ ∀ x ∈ xs, P x := by
  constructor
  · intro all x member
    obtain ⟨i, member⟩ := mem_zipIdx_fst.mp member
    exact all (x, i) member
  · exact fun all x member => all x.1 (mem_zipIdx_fst.mpr ⟨x.2, member⟩)

theorem Lists.unique {vs ws : List Json} (h : Lists result vs) (k : Lists result ws) : vs = ws := by
  rcases h with h | ⟨h, rfl⟩ <;> rcases k with k | ⟨k, rfl⟩
  · simpa using h.symm.trans k
  · cases h.symm.trans k
  · cases h.symm.trans k
  · rfl

theorem Denotes.unique {v : Json} {f g : Finding} (h : Denotes role context v f)
    (k : Denotes role context v g) : f = g := by
  obtain ⟨_, rfl, read⟩ := h
  obtain ⟨_, ⟨⟩, again⟩ := k
  exact Except.ok.inj (read.symm.trans again)

theorem readFinding_ok {i j : Nat} {v : Json} {f : Finding} :
    readFinding role context i j v = .ok f ↔ Denotes role context v f := by
  cases v <;> simp [readFinding, Denotes, invalid]

theorem readVulnerabilities_ok {vs : List Json} :
    readVulnerabilities role index result = .ok vs ↔ Lists result vs := by
  unfold readVulnerabilities Lists
  split
  · rename_i h
    simp [h, eq_comm]
  · rename_i h
    simp [h]
  · rename_i value other h
    simp only [invalid, reduceCtorEq, h, Option.some.injEq, false_and, or_false, false_iff]
    exact fun eq => other vs eq

theorem record_ok {d d' : Findings} {f : Finding} : record role d f = .ok d' ↔
    (∀ g, d.lookup f.identity = some g → g = f) ∧ d' = d.insert f.identity f := by
  unfold record
  cases found : d.lookup f.identity with
  | none => simp [bind, Except.bind, eq_comm]
  | some previous =>
    simp only [bind_eq_ok, check_ok, Except.ok.injEq, Option.some.injEq, forall_eq', exists_const]
    exact and_congr_right fun _ => eq_comm

theorem gathers_record : Gathers (record role) (fun _ => True) fun f g => g = f where
  sound := by
    intro d d' S f collects run
    obtain ⟨agrees, rfl⟩ := record_ok.mp run
    exact ⟨trivial, collects.insert fun g hg same => agrees g ((collects _ _).mpr ⟨hg, same⟩)⟩
  complete := by
    intro d S f collects _ clear
    refine ⟨d.insert f.identity f, record_ok.mpr ⟨fun g found => ?_, rfl⟩⟩
    obtain ⟨hg, same⟩ := (collects _ _).mp found
    exact clear g f (Or.inl hg) (Or.inr rfl) same

/-- One record of a result. -/
theorem gathers_vulnerability : Gathers
    (fun normalized (entry : Json × Nat) => do
      let finding ← readFinding role context index entry.2 entry.1
      record role normalized finding)
    (fun entry => ∃ f, Denotes role context entry.1 f) fun entry f => Denotes role context entry.1 f where
  sound := by
    intro d d' S entry collects run
    simp only [bind_eq_ok, readFinding_ok] at run
    obtain ⟨f, denotes, run⟩ := run
    refine ⟨⟨f, denotes⟩, (gathers_record.sound collects run).2.congr fun g => ?_⟩
    exact or_congr_right ⟨fun eq => eq ▸ denotes, fun other => other.unique denotes⟩
  complete := by
    intro d S entry collects ⟨f, denotes⟩ clear
    have clear : Unambiguous fun g => S g ∨ g = f := by
      intro g h hg hh
      refine clear g h (hg.imp_right fun eq => ?_) (hh.imp_right fun eq => ?_)
      · rw [eq]
        exact denotes
      · rw [eq]
        exact denotes
    obtain ⟨d', run⟩ := (@gathers_record role).complete collects trivial clear
    exact ⟨d', bind_eq_ok.mpr ⟨f, readFinding_ok.mpr denotes, run⟩⟩

theorem normalizeResult_ok {fields : Fields} {d d' : Findings} :
    normalizeResult role report d (.object fields, index) = .ok d' ↔
      ∃ context vulnerabilities, readContext report fields = .ok context ∧
        Lists fields vulnerabilities ∧ vulnerabilities.zipIdx.foldlM (fun normalized entry => do
          let finding ← readFinding role context index entry.2 entry.1
          record role normalized finding) d = .ok d' := by
  simp only [normalizeResult, bind_eq_ok, readVulnerabilities_ok]
  constructor
  · rintro ⟨context, read, vs, lists, run⟩
    exact ⟨context, vs, read, lists, run⟩
  · rintro ⟨context, vs, read, lists, run⟩
    exact ⟨context, read, vs, lists, run⟩

theorem gathers_result : Gathers (normalizeResult role report) (fun entry => WellFormed role report entry.1)
    fun entry f => OccursIn role report entry.1 f where
  sound := by
    rintro d d' S ⟨result, index⟩ collects run
    cases result with
    | object fields =>
      obtain ⟨context, vs, read, lists, run⟩ := normalizeResult_ok.mp run
      obtain ⟨all, collects⟩ := gathers_vulnerability.fold.sound collects run
      refine ⟨⟨fields, context, vs, rfl, read, lists, ?_⟩, collects.congr fun f => or_congr_right ?_⟩
      · exact forall_mem_zipIdx.mp all
      · rw [exists_mem_zipIdx (P := fun v => Denotes role context v f)]
        constructor
        · exact fun found => ⟨fields, context, vs, rfl, read, lists, found⟩
        · rintro ⟨_, _, _, ⟨⟩, read', lists', found⟩
          cases read.symm.trans read'
          rwa [lists.unique lists']
    | _ => cases run
  complete := by
    rintro d S ⟨_, index⟩ collects ⟨fields, context, vs, rfl, read, lists, all⟩ clear
    have clear : Unambiguous fun f => S f ∨ ∃ entry ∈ vs.zipIdx, Denotes role context entry.1 f := by
      intro f g hf hg
      refine clear f g (hf.imp_right fun h => ?_) (hg.imp_right fun h => ?_)
      · exact ⟨fields, context, vs, rfl, read, lists, exists_mem_zipIdx.mp h⟩
      · exact ⟨fields, context, vs, rfl, read, lists, exists_mem_zipIdx.mp h⟩
    obtain ⟨d', run⟩ := (@gathers_vulnerability role context index).fold.complete collects
      (forall_mem_zipIdx.mpr all) clear
    exact ⟨d', normalizeResult_ok.mpr ⟨context, vs, read, lists, run⟩⟩

/-- A report is normalised exactly when every result can be read and no two
findings contradict each other, and then to the findings that occur in it. -/
theorem normalizeFindings_ok {value : Json} {d : Findings} : normalizeFindings value role = .ok d ↔
    ∃ report results, value = .object report ∧ readResults role report = .ok results ∧
      (∀ result ∈ results, WellFormed role report result) ∧ Collects d (Occurs role report results) := by
  cases value with
  | object report =>
    simp only [normalizeFindings, bind_eq_ok]
    constructor
    · rintro ⟨results, read, run⟩
      obtain ⟨all, collects⟩ := gathers_result.fold.sound collects_empty run
      refine ⟨report, results, rfl, read, forall_mem_zipIdx.mp all, collects.congr fun f => ?_⟩
      rw [false_or, exists_mem_zipIdx (P := fun result => OccursIn role report result f)]
      rfl
    · rintro ⟨_, results, ⟨⟩, read, all, collects⟩
      have same (f : Finding) : (False ∨ ∃ entry ∈ results.zipIdx, OccursIn role report entry.1 f) ↔
          Occurs role report results f := by
        rw [false_or, exists_mem_zipIdx (P := fun result => OccursIn role report result f)]
        rfl
      have clear := (collects.congr fun f => (same f).symm).unambiguous
      obtain ⟨d', run⟩ := gathers_result.fold.complete collects_empty (forall_mem_zipIdx.mpr all) clear
      have again := (gathers_result.fold.sound collects_empty run).2
      obtain rfl : d' = d := (again.congr same).unique collects
      exact ⟨results, read, run⟩
  | _ => simp [normalizeFindings, invalid]

/-- Each finding is kept under its own identity. -/
theorem normalized_identity {value : Json} {d : Findings} (h : normalizeFindings value role = .ok d)
    {k : FindingIdentity} {f : Finding} (found : d.lookup k = some f) : f.identity = k := by
  obtain ⟨_, _, _, _, _, collects⟩ := normalizeFindings_ok.mp h
  exact ((collects k f).mp found).2

end

end CertRenewer.Gate
