import CertRenewer.Gate.Partition

/-!
# The decision of the gate

When `main` exits 0, 1 or 2, said of the findings of the two reports and of the
registry, without the comparison in between. A file that `json.load` fails on
with an exception `load_report` does not catch ends `main` with a traceback, and
so with the status of a blocked image.
-/

namespace CertRenewer.Gate

/-- The finding is in the upstream report too, or is the newer version of the
one finding that took its place there. -/
def Attributed (tools : Tools) (derivative upstream : Findings) (f : Finding) : Prop :=
  f.identity ∈ upstream.keys ∨
    ∃ scope g, Sole derivative.keys scope f.identity ∧ Sole upstream.keys scope g.identity ∧
      Has upstream g ∧ g.identity ∉ derivative.keys ∧
      g.severity = f.severity ∧ g.fixedVersion = f.fixedVersion ∧
      debianVersionIncreased tools f.identity.installedVersion g.identity.installedVersion = .ok true

/-- A review for this image and platform that holds today. -/
structure Reviewed (tools : Tools) (arguments : Arguments) (e : ImageException) (f : Finding) : Prop where
  image : e.upstreamImage = arguments.upstreamImage
  platform : e.platform = arguments.platform
  finding : e.finding = f
  begun : e.reviewedOn ≤ tools.today
  current : tools.today < e.expiresOn
  bounded : e.expiresOn.toOrdinal ≤ e.reviewedOn.toOrdinal + 90

/-- The entries of the registry, none if no registry is given. -/
def Registers (tools : Tools) (arguments : Arguments) (entries : List ImageException) : Prop :=
  match arguments.exceptions with
  | none => entries = []
  | some file => loadExceptions tools file = .ok entries ∧
    scanContext arguments.upstreamImage arguments.platform = .ok ()

/-- Both reports can be read, and agree on what they share. -/
structure Scanned (arguments : Arguments) (derivative upstream : Findings) : Prop where
  scanned : ∃ report, loadReport arguments.derivativeReport "derivative" maxReportBytes = .ok report ∧
    normalizeFindings report "derivative" = .ok derivative
  pinned : ∃ report, loadReport arguments.upstreamReport "upstream" maxReportBytes = .ok report ∧
    normalizeFindings report "upstream" = .ok upstream
  shared : ∀ f g, Has derivative f → Has upstream g → f.identity = g.identity →
    f.severity = g.severity ∧ f.fixedVersion = g.fixedVersion

/-- Everything can be read. -/
structure Given (tools : Tools) (arguments : Arguments) (derivative upstream : Findings)
    (entries : List ImageException) : Prop extends Scanned arguments derivative upstream where
  registry : Registers tools arguments entries

/-- What the gate asks of every finding of the derivative image. -/
def Acceptable (tools : Tools) (arguments : Arguments) (derivative upstream : Findings)
    (entries : List ImageException) (f : Finding) : Prop :=
  Attributed tools derivative upstream f ∧
    (f.fixedVersion = "" ∨ ∃ e ∈ entries, Reviewed tools arguments e f)

/-- `dpkg` answers for every pair it is asked about. -/
def Comparable (tools : Tools) (derivative upstream : Findings) : Prop :=
  ∀ p, Candidate derivative upstream p → ∃ b, p.compared tools = .ok b

/-- The file is opened, and `json.load` raises what `load_report` lets pass. -/
structure ReportFile.Uncaught (file : ReportFile) (maximum : Nat) : Prop where
  found : ∃ size, file.size = some size ∧ size ≠ 0 ∧ size ≤ maximum
  uncaught : file.reading = .uncaught

/-- The files in the order `main` opens them, each only if nothing before it was
refused. -/
inductive Aborted (tools : Tools) (arguments : Arguments) : Prop
  | derivative (uncaught : arguments.derivativeReport.Uncaught maxReportBytes)
  | upstream (report : Json)
      (load : loadReport arguments.derivativeReport "derivative" maxReportBytes = .ok report)
      (uncaught : arguments.upstreamReport.Uncaught maxReportBytes)
  | registry (derivative upstream : Findings) (file : ReportFile)
      (scanned : Scanned arguments derivative upstream)
      (comparable : Comparable tools derivative upstream)
      (listed : arguments.exceptions = some file)
      (uncaught : file.Uncaught maxExceptionBytes)

section
variable {tools : Tools} {arguments : Arguments} {derivative upstream : Findings}
variable {entries : List ImageException} {c : Comparison} {f : Finding}

/-! ## The files -/

theorem loadReport_uncaught {file : ReportFile} {role : String} {maximum : Nat} :
    loadReport file role maximum = .error .uncaught ↔ file.Uncaught maximum := by
  obtain ⟨size, reading⟩ := file
  constructor
  · intro run
    unfold loadReport at run
    rcases size with _ | size
    · simp [bind, Except.bind] at run
    simp only [bind_eq_error, check_error, reduceCtorEq, and_false, false_or, check_ok] at run
    obtain ⟨_, nonempty, _, bounded, run⟩ := run
    refine ⟨⟨size, rfl, nonempty, bounded⟩, ?_⟩
    cases reading with
    | uncaught => rfl
    | value value =>
      simp only [bind_eq_error, check_error, reduceCtorEq, and_false, false_or] at run
      obtain ⟨_, _, run⟩ := run
      cases value <;> simp at run
    | repeated => simp at run
    | undecodable => simp at run
  · rintro ⟨⟨size, rfl, nonempty, bounded⟩, rfl⟩
    simp [loadReport, check, nonempty, bounded, bind, Except.bind]

theorem loadExceptions_uncaught {file : ReportFile} :
    loadExceptions tools file = .error .uncaught ↔ file.Uncaught maxExceptionBytes := by
  simp only [loadExceptions, bind_eq_error, loadReport_uncaught, raising_ne_uncaught, and_false,
    exists_false, or_false]

/-! ## The registry -/

def ImageException.Current (tools : Tools) (e : ImageException) : Prop :=
  e.reviewedOn ≤ tools.today ∧ tools.today < e.expiresOn ∧
    e.expiresOn.toOrdinal ≤ e.reviewedOn.toOrdinal + 90

theorem readException_current {raw : Json} {e : ImageException} (h : readException tools raw = .ok e) :
    e.Current tools := by
  simp only [readException, bind_eq_ok, check_ok, Except.ok.injEq] at h
  obtain ⟨_, _, _, _, _, _, _, _, _, _, _, _, _, _, _, _, _, _, _, _, _, _, _, _, _, _, _, _, reviewedOn,
    _, expiresOn, _, _, current, _, lifetime, rfl⟩ := h
  obtain ⟨begun, unexpired⟩ := not_or.mp current
  refine ⟨not_lt.mp begun, not_le.mp unexpired, ?_⟩
  show expiresOn.toOrdinal ≤ reviewedOn.toOrdinal + 90
  omega

/-- The entries of a registry are read one by one and are unique twice over. -/
def Distinct (entries : List ImageException) : Prop :=
  (entries.map ImageException.identifier).Nodup ∧ (entries.map ImageException.scope).Nodup

theorem distinct_append_singleton {e : ImageException} : Distinct (entries ++ [e]) ↔
    Distinct entries ∧ e.identifier ∉ entries.map ImageException.identifier ∧
      e.scope ∉ entries.map ImageException.scope := by
  simp only [Distinct, List.map_append, List.map_singleton, List.nodup_append, List.nodup_singleton,
    List.mem_singleton, forall_eq, true_and]
  grind

theorem addException_ok {raw : Json} {result : List ImageException} :
    addException tools entries raw = .ok result ↔
      ∃ e, readException tools raw = .ok e ∧ e.identifier ∉ entries.map ImageException.identifier ∧
        e.scope ∉ entries.map ImageException.scope ∧ result = entries ++ [e] := by
  simp only [addException, bind_eq_ok, check_ok, Except.ok.injEq]
  constructor
  · rintro ⟨e, read, _, ⟨one, two⟩, rfl⟩
    exact ⟨e, read, one, two, rfl⟩
  · rintro ⟨e, read, one, two, rfl⟩
    exact ⟨e, read, (), ⟨one, two⟩, rfl⟩

theorem addExceptions_ok {raws : List Json} {result : List ImageException} (unique : Distinct entries) :
    raws.foldlM (addException tools) entries = .ok result ↔
      ∃ added, List.Forall₂ (fun raw e => readException tools raw = .ok e) raws added ∧
        result = entries ++ added ∧ Distinct result := by
  induction raws generalizing entries with
  | nil =>
    simp only [List.foldlM_nil, pure, Except.pure, Except.ok.injEq, List.forall₂_nil_left_iff,
      exists_eq_left, List.append_nil]
    exact ⟨fun eq => eq ▸ ⟨rfl, unique⟩, fun ⟨eq, _⟩ => eq.symm⟩
  | cons raw raws ih =>
    simp only [List.foldlM_cons, bind_eq_ok, addException_ok]
    constructor
    · rintro ⟨_, ⟨e, read, one, two, rfl⟩, run⟩
      obtain ⟨added, reads, rfl, distinct⟩ := (ih (distinct_append_singleton.mpr ⟨unique, one, two⟩)).mp run
      exact ⟨e :: added, .cons read reads, by simp, distinct⟩
    · rintro ⟨_, reads, rfl, distinct⟩
      cases reads with
      | @cons _ e _ added read reads =>
        have split : entries ++ e :: added = (entries ++ [e]) ++ added := by simp
        rw [split] at distinct
        have start : Distinct (entries ++ [e]) := by
          obtain ⟨one, two⟩ := distinct
          rw [List.map_append] at one two
          exact ⟨(List.nodup_append.mp one).1, (List.nodup_append.mp two).1⟩
        obtain ⟨_, one, two⟩ := distinct_append_singleton.mp start
        exact ⟨_, ⟨e, read, one, two, rfl⟩, (ih start).mpr ⟨added, reads, split, split ▸ distinct⟩⟩

/-- The entries a registry lists. -/
def Enters (policy : Json) (raws : List Json) : Prop :=
  ∃ fields, exactFields (some policy) ["schema_version", "exceptions"] "exception registry" = .ok fields ∧
    fields.lookup "schema_version" = some (.int 1) ∧
    fields.lookup "exceptions" = some (.array raws) ∧ raws.length ≤ 256

theorem readRegistry_ok {policy : Json} : readRegistry tools policy = .ok entries ↔
    ∃ raws added, Enters policy raws ∧
      List.Forall₂ (fun raw e => readException tools raw = .ok e) raws added ∧ Distinct added ∧
      entries = added.insertionSort fun a b => a.identifier ≤ b.identifier := by
  have empty : Distinct [] := ⟨List.nodup_nil, List.nodup_nil⟩
  unfold readRegistry
  rw [bind_eq_ok]
  constructor
  · rintro ⟨fields, exact, run⟩
    split at run
    · rename_i raws listed
      split at run
      · rename_i version
        simp only [bind_eq_ok, check_ok, Except.ok.injEq] at run
        obtain ⟨_, _, _, short, _, rfl, result, run, rfl⟩ := run
        obtain ⟨added, reads, eq, distinct⟩ := (addExceptions_ok empty).mp run
        obtain rfl : result = added := eq
        exact ⟨raws, result, ⟨fields, exact, version, listed, short⟩, reads, distinct, rfl⟩
      · cases run
    · split at run
      · cases run
      · cases run
  · rintro ⟨raws, added, ⟨fields, exact, version, listed, short⟩, reads, distinct, rfl⟩
    refine ⟨fields, exact, ?_⟩
    simp only [version, listed, bind_eq_ok, check_ok]
    exact ⟨(), trivial, (), short, raws, rfl, added,
      (addExceptions_ok empty).mpr ⟨added, reads, rfl, distinct⟩, rfl⟩

theorem exists_read {raws : List Json} {added : List ImageException} {e : ImageException}
    (reads : List.Forall₂ (fun raw e => readException tools raw = .ok e) raws added) (member : e ∈ added) :
    ∃ raw ∈ raws, readException tools raw = .ok e := by
  induction reads with
  | nil => cases member
  | cons read _ ih =>
    rcases List.mem_cons.mp member with rfl | later
    · exact ⟨_, List.mem_cons_self, read⟩
    · obtain ⟨raw, there, read⟩ := ih later
      exact ⟨raw, List.mem_cons_of_mem _ there, read⟩

theorem Registers.current (h : Registers tools arguments entries) : ∀ e ∈ entries, e.Current tools := by
  unfold Registers at h
  split at h
  · simp [h]
  · simp only [loadExceptions, bind_eq_ok, raising_ok, readRegistry_ok] at h
    obtain ⟨⟨_, _, raws, added, _, reads, _, rfl⟩, _⟩ := h
    intro e member
    obtain ⟨raw, _, read⟩ := exists_read reads ((List.mem_insertionSort _).mp member)
    exact readException_current read

/-! ## The decision -/

def Comparison.accept (c : Comparison) (arguments : Arguments) (entries : List ImageException) : Comparison :=
  { c with accepted := entries.filter fun entry =>
    entry.upstreamImage = arguments.upstreamImage ∧ entry.platform = arguments.platform ∧
      entry.finding ∈ c.inherited ∧ entry.finding.fixedVersion ≠ "" }

theorem Accounts.accept_nil (h : Accounts tools derivative upstream c) : c.accept arguments [] = c := by
  obtain ⟨_, _, _, accepted, _⟩ := c
  obtain rfl : accepted = [] := h.unaccepted
  rfl

theorem Scanned.accounts (h : Scanned arguments derivative upstream)
    (run : compareFindings tools derivative upstream = .ok c) : Accounts tools derivative upstream c := by
  obtain ⟨⟨_, _, one⟩, ⟨_, _, two⟩, _⟩ := h
  exact compareFindings_accounts (normalized_keyed one) (normalized_keyed two) run

theorem compareReports_scanned {report report' : Json}
    (load : loadReport arguments.derivativeReport "derivative" maxReportBytes = .ok report)
    (load' : loadReport arguments.upstreamReport "upstream" maxReportBytes = .ok report') :
    compareReports tools report report' = .ok c ↔
      ∃ derivative upstream, Scanned arguments derivative upstream ∧
        compareFindings tools derivative upstream = .ok c := by
  rw [compareReports_ok]
  constructor
  · rintro ⟨derivative, upstream, one, two, run⟩
    have accounts := compareFindings_accounts (normalized_keyed one) (normalized_keyed two) run
    refine ⟨derivative, upstream, ⟨⟨report, load, one⟩, ⟨report', load', two⟩, ?_⟩, run⟩
    intro f g hf hg same
    obtain rfl := accounts.shared f g hf hg same
    exact ⟨rfl, rfl⟩
  · rintro ⟨derivative, upstream, ⟨⟨_, again, one⟩, ⟨_, again', two⟩, _⟩, run⟩
    cases load.symm.trans again
    cases load'.symm.trans again'
    exact ⟨derivative, upstream, one, two, run⟩

theorem Scanned.compares (h : Scanned arguments derivative upstream) :
    (∃ c, compareFindings tools derivative upstream = .ok c) ↔ Comparable tools derivative upstream := by
  obtain ⟨⟨_, _, one⟩, ⟨_, _, two⟩, shared⟩ := h
  constructor
  · rintro ⟨c, run⟩ p candidate
    exact compareFindings_compares (normalized_keyed one) (normalized_keyed two) run candidate
  · intro comparable
    refine compareFindings_ends (normalized_keyed one) (normalized_keyed two) ?_ comparable
    rintro ⟨i, s, v⟩ ⟨j, s', v'⟩ hf hg same
    obtain ⟨severity, fixed⟩ := shared _ _ hf hg same
    cases same
    cases severity
    cases fixed
    rfl

theorem runComparison_ok : runComparison tools arguments = .ok c ↔
    ∃ derivative upstream entries found, Given tools arguments derivative upstream entries ∧
      compareFindings tools derivative upstream = .ok found ∧ c = found.accept arguments entries := by
  simp only [runComparison, bind_eq_ok, raising_ok]
  constructor
  · rintro ⟨report, load, report', load', found, compared, rest⟩
    obtain ⟨derivative, upstream, scanned, run⟩ := (compareReports_scanned load load').mp compared
    cases registry : arguments.exceptions with
    | none =>
      rw [registry] at rest
      cases rest
      refine ⟨derivative, upstream, [], c, ⟨scanned, ?_⟩, run, (scanned.accounts run).accept_nil.symm⟩
      simp [Registers, registry]
    | some file =>
      simp only [registry, raising_ok, applyExceptions, bind_eq_ok, Except.ok.injEq] at rest
      obtain ⟨entries, loaded, _, context, rfl⟩ := rest
      refine ⟨derivative, upstream, entries, found, ⟨scanned, ?_⟩, run, rfl⟩
      simp only [Registers, registry]
      exact ⟨loaded, context⟩
  · rintro ⟨derivative, upstream, entries, found, ⟨scanned, registers⟩, run, rfl⟩
    obtain ⟨report, load, _⟩ := scanned.scanned
    obtain ⟨report', load', _⟩ := scanned.pinned
    refine ⟨report, load, report', load', found,
      (compareReports_scanned load load').mpr ⟨derivative, upstream, scanned, run⟩, ?_⟩
    cases registry : arguments.exceptions with
    | none =>
      simp only [Registers, registry] at registers
      rw [registers, (scanned.accounts run).accept_nil]
    | some file =>
      simp only [Registers, registry] at registers
      simp only [raising_ok, applyExceptions, bind_eq_ok]
      exact ⟨entries, registers.1, (), registers.2, rfl⟩

theorem runComparison_uncaught :
    runComparison tools arguments = .error .uncaught ↔ Aborted tools arguments := by
  simp only [runComparison, bind_eq_error, loadReport_uncaught, raising_ne_uncaught, false_or, raising_ok]
  constructor
  · rintro (first | ⟨report, load, second | ⟨report', load', found, compared, rest⟩⟩)
    · exact .derivative first
    · exact .upstream report load second
    obtain ⟨derivative, upstream, scanned, run⟩ := (compareReports_scanned load load').mp compared
    cases registry : arguments.exceptions with
    | none =>
      rw [registry] at rest
      cases rest
    | some file =>
      simp only [registry, bind_eq_error, loadExceptions_uncaught, raising_ne_uncaught, and_false,
        exists_false, or_false] at rest
      exact .registry derivative upstream file scanned (scanned.compares.mp ⟨found, run⟩) registry rest
  · rintro (first | ⟨report, load, second⟩ | ⟨derivative, upstream, file, scanned, comparable, listed, third⟩)
    · exact Or.inl first
    · exact Or.inr ⟨report, load, Or.inl second⟩
    obtain ⟨found, run⟩ := scanned.compares.mpr comparable
    obtain ⟨report, load, _⟩ := scanned.scanned
    obtain ⟨report', load', _⟩ := scanned.pinned
    refine Or.inr ⟨report, load, Or.inr ⟨report', load', found,
      (compareReports_scanned load load').mpr ⟨derivative, upstream, scanned, run⟩, ?_⟩⟩
    simp only [listed, bind_eq_error, loadExceptions_uncaught]
    exact Or.inl third

theorem attributed_iff (has : Has derivative f) : Attributed tools derivative upstream f ↔
    f.identity ∈ upstream.keys ∨ ∃ p, Upgraded tools derivative upstream p ∧ p.derivative = f := by
  by_cases there : f.identity ∈ upstream.keys
  · exact iff_of_true (Or.inl there) (Or.inl there)
  refine or_congr_right ⟨?_, ?_⟩
  · rintro ⟨scope, g, new, old, hg, absent, severity, fixed, newer⟩
    exact ⟨⟨g, f⟩, ⟨⟨⟨scope, new, old⟩, has, hg, there, absent, severity.symm, fixed.symm⟩, newer⟩, rfl⟩
  · rintro ⟨p, hp, rfl⟩
    obtain ⟨scope, new, old⟩ := hp.alone
    exact ⟨scope, p.upstream, new, old, hp.old, hp.removed, hp.same.1.symm, hp.same.2.symm, hp.newer⟩

/-- Nothing blocks exactly when every finding of the derivative is acceptable. -/
theorem accept_blocked (given : Given tools arguments derivative upstream entries)
    (accounts : Accounts tools derivative upstream c) :
    (c.accept arguments entries).blocked = false ↔
      ∀ f, Has derivative f → Acceptable tools arguments derivative upstream entries f := by
  have clear : (c.accept arguments entries).blocked = false ↔
      (∀ f, f ∉ c.introduced) ∧ ∀ f ∈ c.inherited, f.fixedVersion = "" ∨
        ∃ e ∈ entries, Reviewed tools arguments e f := by
    simp only [Comparison.blocked, Bool.not_eq_false', Bool.and_eq_true, List.isEmpty_iff]
    refine and_congr List.eq_nil_iff_forall_not_mem ?_
    simp only [Comparison.unexceptedFixable, List.filter_eq_nil_iff, decide_eq_true_eq, not_and, not_not]
    refine forall₂_congr fun f inherited => ?_
    rw [← or_iff_not_imp_left, List.mem_map]
    by_cases unfixed : f.fixedVersion = ""
    · exact iff_of_true (Or.inl unfixed) (Or.inl unfixed)
    refine or_congr_right ⟨?_, ?_⟩
    · rintro ⟨e, member, rfl⟩
      simp only [Comparison.accept, List.mem_filter, decide_eq_true_eq] at member
      obtain ⟨member, image, platform, _⟩ := member
      obtain ⟨begun, current, bounded⟩ := given.registry.current e member
      exact ⟨e, member, image, platform, rfl, begun, current, bounded⟩
    · rintro ⟨e, member, image, platform, rfl, _⟩
      refine ⟨e, ?_, rfl⟩
      simp only [Comparison.accept, List.mem_filter, decide_eq_true_eq]
      exact ⟨member, image, platform, inherited, unfixed⟩
  rw [clear]
  constructor
  · rintro ⟨none, covered⟩ f has
    have kept : f.identity ∈ upstream.keys ∨ ∃ p, Upgraded tools derivative upstream p ∧ p.derivative = f := by
      by_contra lost
      obtain ⟨absent, unmoved⟩ := not_or.mp lost
      exact none f ((accounts.introduced f).mpr ⟨has, absent, fun p hp eq => unmoved ⟨p, hp, eq⟩⟩)
    exact ⟨(attributed_iff has).mpr kept, covered f ((accounts.inherited f).mpr ⟨has, kept⟩)⟩
  · intro all
    refine ⟨fun f introduced => ?_, fun f inherited => ?_⟩
    · obtain ⟨has, absent, unmoved⟩ := (accounts.introduced f).mp introduced
      rcases (attributed_iff has).mp (all f has).1 with there | ⟨p, hp, eq⟩
      · exact absent there
      · exact unmoved p hp eq
    · exact (all f ((accounts.inherited f).mp inherited).1).2

theorem Given.main_eq (h : Given tools arguments derivative upstream entries)
    (comparable : Comparable tools derivative upstream) :
    (main tools arguments = 0 ∧
      ∀ f, Has derivative f → Acceptable tools arguments derivative upstream entries f) ∨
    (main tools arguments = 1 ∧
      ¬ ∀ f, Has derivative f → Acceptable tools arguments derivative upstream entries f) := by
  obtain ⟨found, run⟩ := h.compares.mpr comparable
  have eq := runComparison_ok.mpr ⟨derivative, upstream, entries, found, h, run, rfl⟩
  have status : main tools arguments = if (found.accept arguments entries).blocked then 1 else 0 := by
    rw [main, eq]
  rw [← accept_blocked h (h.accounts run), status]
  cases (found.accept arguments entries).blocked with
  | true => exact Or.inr ⟨rfl, by simp⟩
  | false => exact Or.inl ⟨rfl, rfl⟩

theorem Aborted.main_eq (h : Aborted tools arguments) : main tools arguments = 1 := by
  rw [main, runComparison_uncaught.mpr h]

theorem main_eq_two : main tools arguments = 2 ↔
    ¬ (∃ derivative upstream entries, Given tools arguments derivative upstream entries ∧
      Comparable tools derivative upstream) ∧ ¬ Aborted tools arguments := by
  constructor
  · intro status
    refine ⟨?_, fun aborted => by cases status.symm.trans aborted.main_eq⟩
    rintro ⟨derivative, upstream, entries, given, comparable⟩
    rcases given.main_eq comparable with ⟨other, _⟩ | ⟨other, _⟩
    · cases status.symm.trans other
    · cases status.symm.trans other
  · rintro ⟨none, unaborted⟩
    rw [main]
    cases run : runComparison tools arguments with
    | ok c =>
      obtain ⟨derivative, upstream, entries, found, given, compared, _⟩ := runComparison_ok.mp run
      exact absurd ⟨derivative, upstream, entries, given, given.compares.mp ⟨found, compared⟩⟩ none
    | error failure =>
      cases failure with
      | invalid error => rfl
      | uncaught => exact absurd (runComparison_uncaught.mp run) unaborted

/-- A finding that waits for an answer of `dpkg` is not attributed without it. -/
theorem comparable_of_attributed (all : ∀ f, Has derivative f → Attributed tools derivative upstream f) :
    Comparable tools derivative upstream := by
  intro p candidate
  rcases (attributed_iff candidate.new).mp (all _ candidate.new) with there | ⟨q, hq, same⟩
  · exact absurd there candidate.introduced
  · obtain rfl := hq.toCandidate.unique candidate (by rw [same])
    exact ⟨true, hq.newer⟩

/-- The exit status of the gate, for all files, registries and dates. -/
theorem gate_decision : (main tools arguments = 0 ↔
      ∃ derivative upstream entries, Given tools arguments derivative upstream entries ∧
        ∀ f, Has derivative f → Acceptable tools arguments derivative upstream entries f) ∧
    (main tools arguments = 1 ↔
      (∃ derivative upstream entries, Given tools arguments derivative upstream entries ∧
        Comparable tools derivative upstream ∧
        ∃ f, Has derivative f ∧ ¬ Acceptable tools arguments derivative upstream entries f) ∨
      Aborted tools arguments) ∧
    (main tools arguments = 2 ↔
      ¬ (∃ derivative upstream entries, Given tools arguments derivative upstream entries ∧
        Comparable tools derivative upstream) ∧ ¬ Aborted tools arguments) := by
  -- a status other than 2 comes from inputs that can be compared, or from a traceback
  have given (status : main tools arguments ≠ 2) : (∃ derivative upstream entries,
      Given tools arguments derivative upstream entries ∧ Comparable tools derivative upstream) ∨
      Aborted tools arguments := by
    rw [or_iff_not_imp_left]
    exact fun none => not_not.mp fun unaborted => status (main_eq_two.mpr ⟨none, unaborted⟩)
  refine ⟨⟨fun status => ?_, ?_⟩, ⟨fun status => ?_, ?_⟩, main_eq_two⟩
  · rcases given (by rw [status]; decide) with ⟨derivative, upstream, entries, given, comparable⟩ | aborted
    · rcases given.main_eq comparable with ⟨_, all⟩ | ⟨other, _⟩
      · exact ⟨derivative, upstream, entries, given, all⟩
      · cases status.symm.trans other
    · cases status.symm.trans aborted.main_eq
  · rintro ⟨derivative, upstream, entries, given, all⟩
    rcases given.main_eq (comparable_of_attributed fun f has => (all f has).1) with ⟨status, _⟩ | ⟨_, no⟩
    · exact status
    · exact absurd all no
  · refine (given (by rw [status]; decide)).imp_left ?_
    rintro ⟨derivative, upstream, entries, given, comparable⟩
    rcases given.main_eq comparable with ⟨other, _⟩ | ⟨_, no⟩
    · cases status.symm.trans other
    · push Not at no
      exact ⟨derivative, upstream, entries, given, comparable, no⟩
  · rintro (⟨derivative, upstream, entries, given, comparable, f, has, no⟩ | aborted)
    · rcases given.main_eq comparable with ⟨_, all⟩ | ⟨status, _⟩
      · exact absurd (all f has) no
      · exact status
    · exact aborted.main_eq

end

end CertRenewer.Gate
