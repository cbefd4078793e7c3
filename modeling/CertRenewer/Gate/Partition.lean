import CertRenewer.Gate.Compare

/-!
# No finding is lost

What `compare_reports` makes of two sets of findings: every finding of either
report is accounted for exactly once. The loop over the upgrade scopes moves
findings between three sets; its invariant says what was moved, in terms of the
two reports alone.
-/

namespace CertRenewer.Gate

/-! ## Upgrade scopes -/

/-- The one identity of the set in this scope. -/
def Sole (ids : Finset FindingIdentity) (scope key : FindingIdentity) : Prop :=
  ∀ k, k ∈ ids ∧ debianUpgradeScope k = some scope ↔ k = key

section
variable {ids : Finset FindingIdentity} {scope key : FindingIdentity}

theorem lookup_foldl_addCandidate (keys : List FindingIdentity) (groups : Groups) :
    (keys.foldl addCandidate groups).lookup scope =
      match keys.filter fun k => debianUpgradeScope k = some scope with
      | [] => groups.lookup scope
      | more => some ((groups.lookup scope).getD [] ++ more) := by
  induction keys generalizing groups with
  | nil => rfl
  | cons k keys ih =>
    rw [List.foldl_cons, ih]
    by_cases here : debianUpgradeScope k = some scope
    · have found : (addCandidate groups k).lookup scope = some ((groups.lookup scope).getD [] ++ [k]) := by
        simp [addCandidate, here, Finmap.lookup_insert]
      rw [found, List.filter_cons_of_pos (by simpa using here)]
      cases keys.filter fun k => debianUpgradeScope k = some scope with
      | nil => rfl
      | cons => simp
    · have kept : (addCandidate groups k).lookup scope = groups.lookup scope := by
        unfold addCandidate
        split
        · rename_i other found
          exact Finmap.lookup_insert_of_ne _ fun same => here (by rw [found, same])
        · rfl
      rw [kept, List.filter_cons_of_neg (by simpa using here)]

theorem lookup_upgradeCandidates : (upgradeCandidates ids).lookup scope =
    match ids.sort.filter fun k => debianUpgradeScope k = some scope with
    | [] => none
    | more => some more := by
  rw [upgradeCandidates, lookup_foldl_addCandidate]
  cases ids.sort.filter fun k => debianUpgradeScope k = some scope with
  | nil => rfl
  | cons => rfl

theorem filter_eq_singleton {α : Type} {xs : List α} {p : α → Bool} {a : α} (distinct : xs.Nodup) :
    xs.filter p = [a] ↔ ∀ x, x ∈ xs ∧ p x = true ↔ x = a := by
  constructor
  · intro eq x
    rw [← List.mem_filter, eq, List.mem_singleton]
  · intro all
    refine List.perm_singleton.mp ((List.perm_ext_iff_of_nodup (distinct.filter p) (by simp)).mpr fun x => ?_)
    rw [List.mem_filter, all x, List.mem_singleton]

/-- A group of one is the sole identity of its scope. -/
theorem lookup_eq_singleton : (upgradeCandidates ids).lookup scope = some [key] ↔ Sole ids scope key := by
  have single := filter_eq_singleton (p := fun k => decide (debianUpgradeScope k = some scope)) (a := key)
    (ids.sort_nodup (· ≤ ·))
  simp only [Finset.mem_sort, decide_eq_true_eq] at single
  rw [lookup_upgradeCandidates, Sole, ← single]
  cases ids.sort.filter fun k => decide (debianUpgradeScope k = some scope) with
  | nil => simp
  | cons => simp

theorem Sole.mem (h : Sole ids scope key) : key ∈ ids := ((h key).mpr rfl).1

theorem Sole.scoped (h : Sole ids scope key) : debianUpgradeScope key = some scope := ((h key).mpr rfl).2

theorem Sole.unique {key' : FindingIdentity} (h : Sole ids scope key) (h' : Sole ids scope key') :
    key = key' := (h' key).mp ⟨h.mem, h.scoped⟩

theorem Sole.mem_groups (h : Sole ids scope key) : scope ∈ (upgradeCandidates ids).keys := by
  rw [Finmap.mem_keys, Finmap.mem_iff]
  exact ⟨[key], lookup_eq_singleton.mpr h⟩

end

/-! ## The loop -/

/-- The dictionary holds this finding. -/
def Has (d : Findings) (f : Finding) : Prop := d.lookup f.identity = some f

def Keyed (d : Findings) : Prop := ∀ k f, d.lookup k = some f → f.identity = k

/-- A finding of the derivative and one of the upstream report that are alone in
one upgrade scope, are not in the other report, and agree in severity and fix. -/
structure Candidate (derivative upstream : Findings) (p : PackageUpgrade) : Prop where
  alone : ∃ scope, Sole derivative.keys scope p.derivative.identity ∧
    Sole upstream.keys scope p.upstream.identity
  new : Has derivative p.derivative
  old : Has upstream p.upstream
  introduced : p.derivative.identity ∉ upstream.keys
  removed : p.upstream.identity ∉ derivative.keys
  same : p.derivative.severity = p.upstream.severity ∧ p.derivative.fixedVersion = p.upstream.fixedVersion

def PackageUpgrade.compared (tools : Tools) (p : PackageUpgrade) : Checked Bool :=
  debianVersionIncreased tools p.derivative.identity.installedVersion p.upstream.identity.installedVersion

/-- What the comparison takes for an upgrade. -/
structure Upgraded (tools : Tools) (derivative upstream : Findings) (p : PackageUpgrade) : Prop
    extends Candidate derivative upstream p where
  newer : p.compared tools = .ok true

/-- The state after the scopes `done`. -/
structure Sorted (tools : Tools) (derivative upstream : Findings) (done : List FindingIdentity)
    (s : Sorting) : Prop where
  introduced : ∀ k, k ∈ s.introduced ↔ k ∈ derivative.keys ∧ k ∉ upstream.keys ∧
    ∀ p ∈ s.packageUpgrades, p.derivative.identity ≠ k
  inherited : ∀ k, k ∈ s.inherited ↔ k ∈ derivative.keys ∧
    (k ∈ upstream.keys ∨ ∃ p ∈ s.packageUpgrades, p.derivative.identity = k)
  removed : ∀ k, k ∈ s.removed ↔ k ∈ upstream.keys ∧ k ∉ derivative.keys ∧
    ∀ p ∈ s.packageUpgrades, p.upstream.identity ≠ k
  upgraded : ∀ p, p ∈ s.packageUpgrades ↔ Upgraded tools derivative upstream p ∧
    ∃ scope ∈ done, debianUpgradeScope p.derivative.identity = some scope
  distinct : s.packageUpgrades.Nodup

section
variable {tools : Tools} {derivative upstream : Findings} {p q : PackageUpgrade} {s s' : Sorting}
variable {scope : FindingIdentity} {done : List FindingIdentity}

theorem Has.mem {d : Findings} {f : Finding} (h : Has d f) : f.identity ∈ d.keys :=
  Finmap.mem_keys.mpr (Finmap.mem_of_lookup_eq_some h)

theorem Has.unique {d : Findings} {f g : Finding} (h : Has d f) (h' : Has d g)
    (same : f.identity = g.identity) : f = g := by
  unfold Has at h h'
  rw [same, h'] at h
  exact (Option.some.inj h).symm

theorem Keyed.has {d : Findings} (h : Keyed d) {k : FindingIdentity} {f : Finding}
    (found : d.lookup k = some f) : Has d f ∧ f.identity = k := by
  have identity := h k f found
  exact ⟨by rw [Has, identity]; exact found, identity⟩

theorem fetch_ok {d : Findings} {k : FindingIdentity} {f : Finding} :
    fetch d k = .ok f ↔ d.lookup k = some f := by
  unfold fetch
  cases d.lookup k <;> simp [invalid]

theorem Candidate.scope_eq (h : Candidate derivative upstream p) :
    debianUpgradeScope p.derivative.identity = debianUpgradeScope p.upstream.identity := by
  obtain ⟨scope, new, old⟩ := h.alone
  rw [new.scoped, old.scoped]

/-- A scope has at most one candidate. -/
theorem Candidate.unique (h : Candidate derivative upstream p) (h' : Candidate derivative upstream q)
    (same : debianUpgradeScope p.derivative.identity = debianUpgradeScope q.derivative.identity) :
    p = q := by
  obtain ⟨scope, new, old⟩ := h.alone
  obtain ⟨scope', new', old'⟩ := h'.alone
  obtain rfl : scope = scope' := by
    rw [new.scoped, new'.scoped] at same
    exact Option.some.inj same
  have derivative := h.new.unique h'.new (new.unique new')
  have upstream := h.old.unique h'.old (old.unique old')
  cases p
  cases q
  exact congrArg₂ PackageUpgrade.mk upstream derivative

/-- What one scope does to the state: nothing, or its candidate is compared. -/
theorem matchScope_cases (keyed : Keyed derivative) (keyed' : Keyed upstream)
    (h : Sorted tools derivative upstream done s) (fresh : scope ∉ done) :
    (matchScope tools derivative upstream s scope = .ok s ∧
      ∀ p, Candidate derivative upstream p → debianUpgradeScope p.derivative.identity ≠ some scope) ∨
    ∃ p, Candidate derivative upstream p ∧ debianUpgradeScope p.derivative.identity = some scope ∧
      matchScope tools derivative upstream s scope = (do
        let increased ← p.compared tools
        if increased then
          .ok {
            introduced := s.introduced.erase p.derivative.identity
            removed := s.removed.erase p.upstream.identity
            inherited := insert p.derivative.identity s.inherited
            packageUpgrades := s.packageUpgrades ++ [p] }
        else .ok s) := by
  -- a candidate of the scope is alone in both groups
  have alone (p : PackageUpgrade) (hp : Candidate derivative upstream p)
      (here : debianUpgradeScope p.derivative.identity = some scope) :
      (upgradeCandidates derivative.keys).lookup scope = some [p.derivative.identity] ∧
        (upgradeCandidates upstream.keys).lookup scope = some [p.upstream.identity] := by
    obtain ⟨own, new, old⟩ := hp.alone
    obtain rfl : own = scope := Option.some.inj (new.scoped.symm.trans here)
    exact ⟨lookup_eq_singleton.mpr new, lookup_eq_singleton.mpr old⟩
  unfold matchScope
  split
  · rename_i newKey oldKey one other
    have new := lookup_eq_singleton.mp one
    have old := lookup_eq_singleton.mp other
    -- no upgrade of an earlier scope has moved either of them
    have unmoved (q : PackageUpgrade) (member : q ∈ s.packageUpgrades) :
        debianUpgradeScope q.derivative.identity ≠ some scope := by
      intro same
      obtain ⟨_, earlier, mem, found⟩ := (h.upgraded q).mp member
      rw [same] at found
      exact fresh (Option.some.inj found ▸ mem)
    split
    · rename_i moved
      refine Or.inl ⟨rfl, fun p hp here => ?_⟩
      obtain ⟨group, group'⟩ := alone p hp here
      cases one.symm.trans group
      cases other.symm.trans group'
      rcases moved with no | no
      · refine no ((h.introduced _).mpr ⟨new.mem, hp.introduced, fun q member same => ?_⟩)
        exact unmoved q member (by rw [same]; exact here)
      · refine no ((h.removed _).mpr ⟨old.mem, hp.removed, fun q member same => ?_⟩)
        have candidate := ((h.upgraded q).mp member).1.toCandidate
        exact unmoved q member (by rw [candidate.scope_eq, same]; exact old.scoped)
    · rename_i kept
      obtain ⟨inNew, inOld⟩ := not_or.mp kept
      obtain ⟨_, absent, _⟩ := (h.introduced _).mp (not_not.mp inNew)
      obtain ⟨_, absent', _⟩ := (h.removed _).mp (not_not.mp inOld)
      obtain ⟨f, found⟩ := Finmap.mem_iff.mp (Finmap.mem_keys.mp new.mem)
      obtain ⟨g, found'⟩ := Finmap.mem_iff.mp (Finmap.mem_keys.mp old.mem)
      obtain ⟨hasNew, rfl⟩ := keyed.has found
      obtain ⟨hasOld, rfl⟩ := keyed'.has found'
      simp only [fetch, found, found', bind, Except.bind]
      by_cases agrees : (f.severity, f.fixedVersion) = (g.severity, g.fixedVersion)
      · rw [if_neg (not_not.mpr agrees)]
        refine Or.inr ⟨⟨g, f⟩, ⟨⟨scope, new, old⟩, hasNew, hasOld, absent, absent', ?_⟩, new.scoped, rfl⟩
        simpa using agrees
      · rw [if_pos agrees]
        refine Or.inl ⟨rfl, fun p hp here => agrees ?_⟩
        obtain ⟨group, group'⟩ := alone p hp here
        have isNew := hasNew.unique hp.new (List.singleton_inj.mp (Option.some.inj (one.symm.trans group)))
        have isOld := hasOld.unique hp.old (List.singleton_inj.mp (Option.some.inj (other.symm.trans group')))
        rw [isNew, isOld, hp.same.1, hp.same.2]
  · rename_i groups
    refine Or.inl ⟨rfl, fun p hp here => ?_⟩
    obtain ⟨group, group'⟩ := alone p hp here
    exact groups _ _ group group'

theorem Sorted.unmatched (h : Sorted tools derivative upstream done s)
    (none : ∀ p, Upgraded tools derivative upstream p →
      debianUpgradeScope p.derivative.identity ≠ some scope) :
    Sorted tools derivative upstream (done ++ [scope]) s := by
  refine { h with upgraded := fun p => ?_ }
  rw [h.upgraded p]
  refine and_congr_right fun hp => ⟨?_, ?_⟩
  · rintro ⟨earlier, mem, found⟩
    exact ⟨earlier, by simp [mem], found⟩
  · rintro ⟨earlier, mem, found⟩
    rcases List.mem_append.mp mem with mem | mem
    · exact ⟨earlier, mem, found⟩
    · obtain rfl := List.mem_singleton.mp mem
      exact absurd found (none p hp)

theorem Sorted.matched (h : Sorted tools derivative upstream done s) (hp : Upgraded tools derivative upstream p)
    (here : debianUpgradeScope p.derivative.identity = some scope) (fresh : scope ∉ done) :
    Sorted tools derivative upstream (done ++ [scope]) {
      introduced := s.introduced.erase p.derivative.identity
      removed := s.removed.erase p.upstream.identity
      inherited := insert p.derivative.identity s.inherited
      packageUpgrades := s.packageUpgrades ++ [p] } where
  introduced k := by
    simp only [Finset.mem_erase, h.introduced, List.mem_append, List.mem_singleton]
    constructor
    · rintro ⟨other, mem, absent, unmoved⟩
      refine ⟨mem, absent, ?_⟩
      rintro q (member | rfl)
      · exact unmoved q member
      · exact other.symm
    · rintro ⟨mem, absent, unmoved⟩
      exact ⟨(unmoved p (Or.inr rfl)).symm, mem, absent, fun q member => unmoved q (Or.inl member)⟩
  inherited k := by
    simp only [Finset.mem_insert, h.inherited, List.mem_append, List.mem_singleton]
    constructor
    · rintro (rfl | ⟨mem, there | ⟨q, member, same⟩⟩)
      · exact ⟨hp.new.mem, Or.inr ⟨p, Or.inr rfl, rfl⟩⟩
      · exact ⟨mem, Or.inl there⟩
      · exact ⟨mem, Or.inr ⟨q, Or.inl member, same⟩⟩
    · rintro ⟨mem, there | ⟨q, member | rfl, same⟩⟩
      · exact Or.inr ⟨mem, Or.inl there⟩
      · exact Or.inr ⟨mem, Or.inr ⟨q, member, same⟩⟩
      · exact Or.inl same.symm
  removed k := by
    simp only [Finset.mem_erase, h.removed, List.mem_append, List.mem_singleton]
    constructor
    · rintro ⟨other, mem, absent, unmoved⟩
      refine ⟨mem, absent, ?_⟩
      rintro q (member | rfl)
      · exact unmoved q member
      · exact other.symm
    · rintro ⟨mem, absent, unmoved⟩
      exact ⟨(unmoved p (Or.inr rfl)).symm, mem, absent, fun q member => unmoved q (Or.inl member)⟩
  upgraded q := by
    simp only [List.mem_append, List.mem_singleton, h.upgraded]
    constructor
    · rintro (⟨hq, earlier, mem, found⟩ | rfl)
      · exact ⟨hq, earlier, Or.inl mem, found⟩
      · exact ⟨hp, scope, Or.inr rfl, here⟩
    · rintro ⟨hq, earlier, mem | rfl, found⟩
      · exact Or.inl ⟨hq, earlier, mem, found⟩
      · exact Or.inr (hq.toCandidate.unique hp.toCandidate (found.trans here.symm))
  distinct := by
    refine List.Nodup.append h.distinct (by simp) ?_
    intro q member same
    obtain rfl := List.mem_singleton.mp same
    obtain ⟨_, earlier, mem, found⟩ := (h.upgraded q).mp member
    exact fresh (Option.some.inj (found.symm.trans here) ▸ mem)

theorem matchScope_keeps (keyed : Keyed derivative) (keyed' : Keyed upstream)
    (h : Sorted tools derivative upstream done s) (fresh : scope ∉ done)
    (run : matchScope tools derivative upstream s scope = .ok s') :
    Sorted tools derivative upstream (done ++ [scope]) s' := by
  rcases matchScope_cases keyed keyed' h fresh with ⟨eq, none⟩ | ⟨p, candidate, here, eq⟩
  · cases eq.symm.trans run
    exact h.unmatched fun p hp => none p hp.toCandidate
  · rw [eq, bind_eq_ok] at run
    obtain ⟨increased, compared, run⟩ := run
    cases increased with
    | true =>
      cases run
      exact h.matched ⟨candidate, compared⟩ here fresh
    | false =>
      cases run
      refine h.unmatched fun q hq there => ?_
      obtain rfl := hq.toCandidate.unique candidate (there.trans here.symm)
      cases compared.symm.trans hq.newer

/-- The loop over all scopes. -/
theorem matchScopes_keeps (keyed : Keyed derivative) (keyed' : Keyed upstream) {scopes : List FindingIdentity}
    (distinct : (done ++ scopes).Nodup) (h : Sorted tools derivative upstream done s)
    (run : scopes.foldlM (matchScope tools derivative upstream) s = .ok s') :
    Sorted tools derivative upstream (done ++ scopes) s' := by
  induction scopes generalizing done s with
  | nil =>
    cases run
    simpa using h
  | cons scope scopes ih =>
    rw [List.foldlM_cons, bind_eq_ok] at run
    obtain ⟨next, first, rest⟩ := run
    have split : done ++ scope :: scopes = (done ++ [scope]) ++ scopes := by simp
    have fresh : scope ∉ done := fun mem =>
      (List.disjoint_of_nodup_append distinct) mem (by simp)
    rw [split] at distinct ⊢
    exact ih distinct (matchScope_keeps keyed keyed' h fresh first) rest

/-- It ends only when every candidate could be compared. -/
theorem matchScopes_compares (keyed : Keyed derivative) (keyed' : Keyed upstream)
    {scopes : List FindingIdentity} (distinct : (done ++ scopes).Nodup)
    (h : Sorted tools derivative upstream done s)
    (run : scopes.foldlM (matchScope tools derivative upstream) s = .ok s')
    (candidate : Candidate derivative upstream p) (mem : scope ∈ scopes)
    (here : debianUpgradeScope p.derivative.identity = some scope) : ∃ b, p.compared tools = .ok b := by
  induction scopes generalizing done s with
  | nil => cases mem
  | cons first scopes ih =>
    rw [List.foldlM_cons, bind_eq_ok] at run
    obtain ⟨next, step, rest⟩ := run
    have split : done ++ first :: scopes = (done ++ [first]) ++ scopes := by simp
    have fresh : first ∉ done := fun mem =>
      (List.disjoint_of_nodup_append distinct) mem (by simp)
    rcases List.mem_cons.mp mem with rfl | later
    · rcases matchScope_cases keyed keyed' h fresh with ⟨_, none⟩ | ⟨q, candidate', there, eq⟩
      · exact absurd here (none p candidate)
      · obtain rfl := candidate.unique candidate' (here.trans there.symm)
        rw [eq, bind_eq_ok] at step
        obtain ⟨b, compared, _⟩ := step
        exact ⟨b, compared⟩
    · rw [split] at distinct
      exact ih distinct (matchScope_keeps keyed keyed' h fresh step) rest later

/-- And it does end then. -/
theorem matchScopes_ends (keyed : Keyed derivative) (keyed' : Keyed upstream) {scopes : List FindingIdentity}
    (distinct : (done ++ scopes).Nodup) (h : Sorted tools derivative upstream done s)
    (comparable : ∀ p, Candidate derivative upstream p → ∃ b, p.compared tools = .ok b) :
    ∃ s', scopes.foldlM (matchScope tools derivative upstream) s = .ok s' := by
  induction scopes generalizing done s with
  | nil => exact ⟨s, rfl⟩
  | cons scope scopes ih =>
    have split : done ++ scope :: scopes = (done ++ [scope]) ++ scopes := by simp
    have fresh : scope ∉ done := fun mem =>
      (List.disjoint_of_nodup_append distinct) mem (by simp)
    have first : ∃ next, matchScope tools derivative upstream s scope = .ok next := by
      rcases matchScope_cases keyed keyed' h fresh with ⟨eq, _⟩ | ⟨p, candidate, _, eq⟩
      · exact ⟨s, eq⟩
      · obtain ⟨b, compared⟩ := comparable p candidate
        rw [eq, compared]
        cases b with
        | true => exact ⟨_, rfl⟩
        | false => exact ⟨s, rfl⟩
    obtain ⟨next, first⟩ := first
    rw [split] at distinct
    obtain ⟨s', rest⟩ := ih distinct (matchScope_keeps keyed keyed' h fresh first)
    exact ⟨s', by rw [List.foldlM_cons, bind_eq_ok]; exact ⟨next, first, rest⟩⟩

/-! ## Sorting -/

theorem findingSortKey_identity {f g : Finding} (same : findingSortKey f = findingSortKey g) :
    f.identity = g.identity := by
  obtain ⟨⟨_, _, _, _, _, _, _, _⟩, _, _⟩ := f
  obtain ⟨⟨_, _, _, _, _, _, _, _⟩, _, _⟩ := g
  have texts := congrArg (fun k => (ofLex k).2) same
  simp only [findingSortKey, ofLex_toLex, List.cons.injEq, and_true] at texts
  simp [texts]

def Ordered (findings : List Finding) : Prop :=
  findings.Pairwise fun f g => findingSortKey f < findingSortKey g

theorem Ordered.nodup {findings : List Finding} (h : Ordered findings) : findings.Nodup :=
  h.imp fun less same => absurd (same ▸ less) (lt_irrefl _)

theorem fetch_all {d : Findings} (keyed : Keyed d) {keys : List FindingIdentity} {found : List Finding}
    (run : keys.mapM (fetch d) = .ok found) :
    found.map Finding.identity = keys ∧ ∀ f ∈ found, Has d f := by
  induction keys generalizing found with
  | nil =>
    cases run
    simp
  | cons k keys ih =>
    simp only [List.mapM_cons, bind_eq_ok, fetch_ok, pure, Except.pure, Except.ok.injEq] at run
    obtain ⟨f, first, rest, run, rfl⟩ := run
    obtain ⟨has, rfl⟩ := keyed.has first
    obtain ⟨keys, all⟩ := ih run
    exact ⟨by rw [List.map_cons, keys], List.forall_mem_cons.mpr ⟨has, all⟩⟩

theorem fetch_ends {d : Findings} {keys : List FindingIdentity} (known : ∀ k ∈ keys, k ∈ d.keys) :
    ∃ found, keys.mapM (fetch d) = .ok found := by
  induction keys with
  | nil => exact ⟨[], rfl⟩
  | cons k keys ih =>
    obtain ⟨here, later⟩ := List.forall_mem_cons.mp known
    obtain ⟨f, found⟩ := Finmap.mem_iff.mp (Finmap.mem_keys.mp here)
    obtain ⟨rest, run⟩ := ih later
    refine ⟨f :: rest, ?_⟩
    simp only [List.mapM_cons, bind_eq_ok, fetch_ok]
    exact ⟨f, found, rest, run, rfl⟩

theorem sortedFindings_ok {d : Findings} (keyed : Keyed d) {keys : Finset FindingIdentity}
    {findings : List Finding} (run : sortedFindings d keys = .ok findings) :
    (∀ f, f ∈ findings ↔ Has d f ∧ f.identity ∈ keys) ∧ Ordered findings := by
  rw [sortedFindings, bind_eq_ok] at run
  obtain ⟨found, run, eq⟩ := run
  cases eq
  obtain ⟨identities, all⟩ := fetch_all keyed run
  have members (f : Finding) : f ∈ found ↔ Has d f ∧ f.identity ∈ keys := by
    rw [← Finset.mem_sort (· ≤ ·) (s := keys), ← identities, List.mem_map]
    constructor
    · exact fun member => ⟨all f member, f, member, rfl⟩
    · rintro ⟨has, g, member, same⟩
      rwa [has.unique (all g member) same.symm]
  refine ⟨fun f => by rw [List.mem_insertionSort, members], ?_⟩
  -- distinct identities have distinct keys, so the order is strict
  have distinct : found.Pairwise fun f g => findingSortKey f ≠ findingSortKey g := by
    have nodup : (found.map Finding.identity).Nodup := identities ▸ keys.sort_nodup (· ≤ ·)
    exact (List.pairwise_map.mp nodup).imp fun other same => other (findingSortKey_identity same)
  have apart := ((List.perm_insertionSort (fun f g => findingSortKey f ≤ findingSortKey g) found).pairwise_iff
    fun other => other.symm).mpr distinct
  have ordered := List.pairwise_insertionSort (fun f g => findingSortKey f ≤ findingSortKey g) found
  exact (ordered.and apart).imp fun ⟨le, ne⟩ => lt_of_le_of_ne le ne

theorem sortedFindings_ends {d : Findings} {keys : Finset FindingIdentity} (known : keys ⊆ d.keys) :
    ∃ findings, sortedFindings d keys = .ok findings := by
  obtain ⟨found, run⟩ := @fetch_ends d (keys.sort (· ≤ ·)) fun k member => known (by simpa using member)
  exact ⟨_, bind_eq_ok.mpr ⟨found, run, rfl⟩⟩

/-! ## The comparison -/

/-- What a comparison says, in terms of the two reports. -/
structure Accounts (tools : Tools) (derivative upstream : Findings) (c : Comparison) : Prop where
  shared : ∀ f g, Has derivative f → Has upstream g → f.identity = g.identity → f = g
  introduced : ∀ f, f ∈ c.introduced ↔ Has derivative f ∧ f.identity ∉ upstream.keys ∧
    ∀ p, Upgraded tools derivative upstream p → p.derivative ≠ f
  inherited : ∀ f, f ∈ c.inherited ↔ Has derivative f ∧
    (f.identity ∈ upstream.keys ∨ ∃ p, Upgraded tools derivative upstream p ∧ p.derivative = f)
  removed : ∀ f, f ∈ c.removed ↔ Has upstream f ∧ f.identity ∉ derivative.keys ∧
    ∀ p, Upgraded tools derivative upstream p → p.upstream ≠ f
  upgraded : ∀ p, p ∈ c.packageUpgrades ↔ Upgraded tools derivative upstream p
  distinct : c.packageUpgrades.Nodup
  ordered : Ordered c.introduced ∧ Ordered c.inherited ∧ Ordered c.removed
  unaccepted : c.accepted = []

/-- The sets the loop starts from. -/
def unmatched (derivative upstream : Findings) : Sorting where
  introduced := derivative.keys \ upstream.keys
  inherited := derivative.keys ∩ upstream.keys
  removed := upstream.keys \ derivative.keys
  packageUpgrades := []

theorem sorted_unmatched : Sorted tools derivative upstream [] (unmatched derivative upstream) where
  introduced k := by simp [unmatched]
  inherited k := by simp [unmatched]
  removed k := by simp [unmatched]
  upgraded p := by simp [unmatched]
  distinct := List.nodup_nil

theorem sharedScopes_nodup : ([] ++ sharedScopes derivative upstream).Nodup :=
  Finset.sort_nodup _ (· ≤ ·)

theorem Candidate.shared (h : Candidate derivative upstream p) :
    ∃ scope ∈ sharedScopes derivative upstream, debianUpgradeScope p.derivative.identity = some scope := by
  obtain ⟨scope, new, old⟩ := h.alone
  refine ⟨scope, ?_, new.scoped⟩
  rw [sharedScopes, Finset.mem_sort, Finset.mem_inter]
  exact ⟨new.mem_groups, old.mem_groups⟩

theorem compareFindings_ok {c : Comparison} : compareFindings tools derivative upstream = .ok c ↔
    (∀ key ∈ derivative.keys ∩ upstream.keys, derivative.lookup key = upstream.lookup key) ∧
      ∃ result introduced inherited removed,
        (sharedScopes derivative upstream).foldlM (matchScope tools derivative upstream)
          (unmatched derivative upstream) = .ok result ∧
        sortedFindings derivative result.introduced = .ok introduced ∧
        sortedFindings derivative result.inherited = .ok inherited ∧
        sortedFindings upstream result.removed = .ok removed ∧
        c = ⟨introduced, inherited, removed, [], result.packageUpgrades⟩ := by
  simp only [compareFindings, bind_eq_ok, check_ok, Except.ok.injEq]
  constructor
  · rintro ⟨_, shared, result, run, introduced, one, inherited, two, removed, three, rfl⟩
    exact ⟨shared, result, introduced, inherited, removed, run, one, two, three, rfl⟩
  · rintro ⟨shared, result, introduced, inherited, removed, run, one, two, three, rfl⟩
    exact ⟨(), shared, result, run, introduced, one, inherited, two, removed, three, rfl⟩

/-- After the loop the upgrades are exactly those the two reports allow. -/
theorem Sorted.upgrades {result : Sorting}
    (h : Sorted tools derivative upstream (sharedScopes derivative upstream) result) (p : PackageUpgrade) :
    p ∈ result.packageUpgrades ↔ Upgraded tools derivative upstream p := by
  rw [h.upgraded]
  exact ⟨And.left, fun hp => ⟨hp, hp.toCandidate.shared⟩⟩

theorem compareFindings_accounts (keyed : Keyed derivative) (keyed' : Keyed upstream) {c : Comparison}
    (run : compareFindings tools derivative upstream = .ok c) : Accounts tools derivative upstream c := by
  obtain ⟨shared, result, introduced, inherited, removed, loop, one, two, three, rfl⟩ :=
    compareFindings_ok.mp run
  have sorted : Sorted tools derivative upstream (sharedScopes derivative upstream) result := by
    simpa using matchScopes_keeps keyed keyed' sharedScopes_nodup sorted_unmatched loop
  obtain ⟨mems, order⟩ := sortedFindings_ok keyed one
  obtain ⟨mems', order'⟩ := sortedFindings_ok keyed two
  obtain ⟨mems'', order''⟩ := sortedFindings_ok keyed' three
  have new (f : Finding) (has : Has derivative f) (p : PackageUpgrade)
      (hp : Upgraded tools derivative upstream p) : p.derivative.identity = f.identity ↔ p.derivative = f :=
    ⟨hp.new.unique has, congrArg _⟩
  have old (f : Finding) (has : Has upstream f) (p : PackageUpgrade)
      (hp : Upgraded tools derivative upstream p) : p.upstream.identity = f.identity ↔ p.upstream = f :=
    ⟨hp.old.unique has, congrArg _⟩
  refine ⟨?_, fun f => ?_, fun f => ?_, fun f => ?_, sorted.upgrades, sorted.distinct,
    ⟨order, order', order''⟩, rfl⟩
  · intro f g hf hg same
    have eq := shared f.identity (Finset.mem_inter.mpr ⟨hf.mem, same ▸ hg.mem⟩)
    rw [hf, same, hg] at eq
    exact Option.some.inj eq
  · simp only [mems, sorted.introduced, sorted.upgrades]
    constructor
    · rintro ⟨has, -, absent, unmoved⟩
      exact ⟨has, absent, fun p hp eq => unmoved p hp (congrArg _ eq)⟩
    · rintro ⟨has, absent, unmoved⟩
      exact ⟨has, has.mem, absent, fun p hp same => unmoved p hp ((new f has p hp).mp same)⟩
  · simp only [mems', sorted.inherited, sorted.upgrades]
    constructor
    · rintro ⟨has, -, there | ⟨p, hp, same⟩⟩
      · exact ⟨has, Or.inl there⟩
      · exact ⟨has, Or.inr ⟨p, hp, (new f has p hp).mp same⟩⟩
    · rintro ⟨has, there | ⟨p, hp, rfl⟩⟩
      · exact ⟨has, has.mem, Or.inl there⟩
      · exact ⟨has, has.mem, Or.inr ⟨p, hp, rfl⟩⟩
  · simp only [mems'', sorted.removed, sorted.upgrades]
    constructor
    · rintro ⟨has, -, absent, unmoved⟩
      exact ⟨has, absent, fun p hp eq => unmoved p hp (congrArg _ eq)⟩
    · rintro ⟨has, absent, unmoved⟩
      exact ⟨has, has.mem, absent, fun p hp same => unmoved p hp ((old f has p hp).mp same)⟩

/-- Two reports that agree on what they share are compared, if `dpkg` can
compare every candidate. -/
theorem compareFindings_ends (keyed : Keyed derivative) (keyed' : Keyed upstream)
    (shared : ∀ f g, Has derivative f → Has upstream g → f.identity = g.identity → f = g)
    (comparable : ∀ p, Candidate derivative upstream p → ∃ b, p.compared tools = .ok b) :
    ∃ c, compareFindings tools derivative upstream = .ok c := by
  obtain ⟨result, loop⟩ := matchScopes_ends keyed keyed' sharedScopes_nodup sorted_unmatched comparable
  have sorted := matchScopes_keeps keyed keyed' sharedScopes_nodup sorted_unmatched loop
  have one : result.introduced ⊆ derivative.keys := fun k member => ((sorted.introduced k).mp member).1
  have two : result.inherited ⊆ derivative.keys := fun k member => ((sorted.inherited k).mp member).1
  have three : result.removed ⊆ upstream.keys := fun k member => ((sorted.removed k).mp member).1
  obtain ⟨introduced, one⟩ := sortedFindings_ends one
  obtain ⟨inherited, two⟩ := sortedFindings_ends two
  obtain ⟨removed, three⟩ := sortedFindings_ends three
  refine ⟨_, compareFindings_ok.mpr ⟨fun k both => ?_, result, _, _, _, loop, one, two, three, rfl⟩⟩
  obtain ⟨here, there⟩ := Finset.mem_inter.mp both
  obtain ⟨f, found⟩ := Finmap.mem_iff.mp (Finmap.mem_keys.mp here)
  obtain ⟨g, found'⟩ := Finmap.mem_iff.mp (Finmap.mem_keys.mp there)
  obtain ⟨hf, identity⟩ := keyed.has found
  obtain ⟨hg, identity'⟩ := keyed'.has found'
  rw [found, found', shared f g hf hg (identity.trans identity'.symm)]

theorem compareFindings_compares (keyed : Keyed derivative) (keyed' : Keyed upstream) {c : Comparison}
    (run : compareFindings tools derivative upstream = .ok c) (candidate : Candidate derivative upstream p) :
    ∃ b, p.compared tools = .ok b := by
  obtain ⟨_, result, _, _, _, loop, _⟩ := compareFindings_ok.mp run
  obtain ⟨scope, mem, here⟩ := candidate.shared
  exact matchScopes_compares keyed keyed' sharedScopes_nodup sorted_unmatched loop candidate mem here

theorem compareReports_ok {derivativeReport upstreamReport : Json} {c : Comparison} :
    compareReports tools derivativeReport upstreamReport = .ok c ↔
      ∃ derivative upstream, normalizeFindings derivativeReport "derivative" = .ok derivative ∧
        normalizeFindings upstreamReport "upstream" = .ok upstream ∧
        compareFindings tools derivative upstream = .ok c := by
  simp only [compareReports, bind_eq_ok]
  constructor
  · rintro ⟨derivative, one, upstream, two, run⟩
    exact ⟨derivative, upstream, one, two, run⟩
  · rintro ⟨derivative, upstream, one, two, run⟩
    exact ⟨derivative, one, upstream, two, run⟩

theorem normalized_keyed {role : String} {report : Json} {d : Findings}
    (h : normalizeFindings report role = .ok d) : Keyed d := fun _ _ => normalized_identity h

/-- Two identities that differ in the package version alone. -/
def SamePackage (i j : FindingIdentity) : Prop :=
  { i with packageId := "", installedVersion := "" } = { j with packageId := "", installedVersion := "" }

theorem debianUpgradeScope_some {i : FindingIdentity} (h : debianUpgradeScope i = some scope) :
    scope = { i with packageId := "", installedVersion := "" } := by
  unfold debianUpgradeScope at h
  split at h
  · cases h
  · exact (Option.some.inj h).symm

theorem Candidate.samePackage (h : Candidate derivative upstream p) :
    SamePackage p.derivative.identity p.upstream.identity := by
  obtain ⟨scope, new, old⟩ := h.alone
  exact (debianUpgradeScope_some new.scoped).symm.trans (debianUpgradeScope_some old.scoped)

section
variable {c : Comparison}

theorem Accounts.derivative_once (h : Accounts tools derivative upstream c) {f : Finding}
    (has : Has derivative f) : (c.introduced ++ c.inherited).count f = 1 := by
  have nodup : (c.introduced ++ c.inherited).Nodup := by
    refine List.Nodup.append h.ordered.1.nodup h.ordered.2.1.nodup fun g introduced inherited => ?_
    obtain ⟨_, absent, unmoved⟩ := (h.introduced g).mp introduced
    obtain ⟨_, there | ⟨p, hp, eq⟩⟩ := (h.inherited g).mp inherited
    · exact absent there
    · exact unmoved p hp eq
  refine List.count_eq_one_of_mem nodup (List.mem_append.mpr ?_)
  by_cases kept : f.identity ∈ upstream.keys ∨ ∃ p, Upgraded tools derivative upstream p ∧ p.derivative = f
  · exact Or.inr ((h.inherited f).mpr ⟨has, kept⟩)
  · obtain ⟨absent, unmoved⟩ := not_or.mp kept
    exact Or.inl ((h.introduced f).mpr ⟨has, absent, fun p hp eq => unmoved ⟨p, hp, eq⟩⟩)

theorem Accounts.derivatives_nodup (h : Accounts tools derivative upstream c) :
    (c.packageUpgrades.map PackageUpgrade.derivative).Nodup := by
  refine List.Nodup.map_on (fun p hp q hq same => ?_) h.distinct
  have candidate := ((h.upgraded p).mp hp).toCandidate
  exact candidate.unique ((h.upgraded q).mp hq).toCandidate (by rw [same])

theorem Accounts.upstreams_nodup (h : Accounts tools derivative upstream c) :
    (c.packageUpgrades.map PackageUpgrade.upstream).Nodup := by
  refine List.Nodup.map_on (fun p hp q hq same => ?_) h.distinct
  have candidate := ((h.upgraded p).mp hp).toCandidate
  have candidate' := ((h.upgraded q).mp hq).toCandidate
  exact candidate.unique candidate' (by rw [candidate.scope_eq, candidate'.scope_eq, same])

/-- What can become of a finding of the upstream report. -/
inductive Fate (c : Comparison) (g : Finding) : Prop
  | inherited (kept : g ∈ c.inherited) (_ : g ∉ c.removed)
      (_ : g ∉ c.packageUpgrades.map PackageUpgrade.upstream)
  | removed (gone : g ∈ c.removed) (_ : g ∉ c.inherited)
      (_ : g ∉ c.packageUpgrades.map PackageUpgrade.upstream)
  | upgraded (once : (c.packageUpgrades.map PackageUpgrade.upstream).count g = 1)
      (_ : g ∉ c.inherited) (_ : g ∉ c.removed)

theorem Accounts.upstream_fate (keyed : Keyed derivative) (h : Accounts tools derivative upstream c)
    {g : Finding} (has : Has upstream g) : Fate c g := by
  have unlisted (p : PackageUpgrade) (hp : Upgraded tools derivative upstream p)
      (here : g.identity ∈ derivative.keys) : p.upstream ≠ g := by
    rintro rfl
    exact hp.removed here
  have uninherited (absent : g.identity ∉ derivative.keys) : g ∉ c.inherited := fun kept =>
    absent ((h.inherited g).mp kept).1.mem
  have unupgraded (none : ∀ p, Upgraded tools derivative upstream p → p.upstream ≠ g) :
      g ∉ c.packageUpgrades.map PackageUpgrade.upstream := by
    intro member
    obtain ⟨p, hp, eq⟩ := List.mem_map.mp member
    exact none p ((h.upgraded p).mp hp) eq
  by_cases here : g.identity ∈ derivative.keys
  · -- the derivative report has the same finding
    obtain ⟨f, found⟩ := Finmap.mem_iff.mp (Finmap.mem_keys.mp here)
    refine Fate.inherited ?_ (fun gone => ((h.removed g).mp gone).2.1 here)
      (unupgraded fun p hp => unlisted p hp here)
    obtain ⟨hf, identity⟩ := keyed.has found
    obtain rfl := h.shared f g hf has identity
    exact (h.inherited f).mpr ⟨hf, Or.inl has.mem⟩
  · by_cases moved : ∃ p, Upgraded tools derivative upstream p ∧ p.upstream = g
    · obtain ⟨p, hp, rfl⟩ := moved
      refine Fate.upgraded (List.count_eq_one_of_mem h.upstreams_nodup ?_) (uninherited here) ?_
      · exact List.mem_map.mpr ⟨p, (h.upgraded p).mpr hp, rfl⟩
      · exact fun gone => ((h.removed _).mp gone).2.2 p hp rfl
    · have none (p : PackageUpgrade) (hp : Upgraded tools derivative upstream p) : p.upstream ≠ g :=
        fun eq => moved ⟨p, hp, eq⟩
      exact Fate.removed ((h.removed g).mpr ⟨has, here, none⟩) (uninherited here) (unupgraded none)

end

/-- No finding of either report is lost or counted twice. -/
theorem every_finding_is_counted_once {derivativeReport upstreamReport : Json} {c : Comparison}
    (run : compareReports tools derivativeReport upstreamReport = .ok c) :
    ∃ derivative upstream, normalizeFindings derivativeReport "derivative" = .ok derivative ∧
      normalizeFindings upstreamReport "upstream" = .ok upstream ∧
      (∀ f, Has derivative f → (c.introduced ++ c.inherited).count f = 1) ∧
      (∀ g, Has upstream g → Fate c g) ∧
      (c.packageUpgrades.map PackageUpgrade.derivative).Nodup ∧
      (c.packageUpgrades.map PackageUpgrade.upstream).Nodup ∧
      (∀ p ∈ c.packageUpgrades, p.derivative ∈ c.inherited ∧
        p.derivative.identity ∉ upstream.keys ∧ p.upstream.identity ∉ derivative.keys ∧
        SamePackage p.derivative.identity p.upstream.identity ∧
        p.derivative.severity = p.upstream.severity ∧
        p.derivative.fixedVersion = p.upstream.fixedVersion) ∧
      Ordered c.introduced ∧ Ordered c.inherited ∧ Ordered c.removed := by
  obtain ⟨derivative, upstream, one, two, run⟩ := compareReports_ok.mp run
  have keyed := normalized_keyed one
  have accounts := compareFindings_accounts keyed (normalized_keyed two) run
  refine ⟨derivative, upstream, one, two, fun f has => accounts.derivative_once has,
    fun g has => accounts.upstream_fate keyed has, accounts.derivatives_nodup, accounts.upstreams_nodup,
    fun p member => ?_, accounts.ordered⟩
  have upgraded := (accounts.upgraded p).mp member
  exact ⟨(accounts.inherited _).mpr ⟨upgraded.new, Or.inr ⟨p, upgraded, rfl⟩⟩, upgraded.introduced,
    upgraded.removed, upgraded.samePackage, upgraded.same⟩

end

/-! A report with one Debian package, at a version of its own. -/

def packageRecord (version : String) : Json :=
  .object [
    ("Severity", .string "HIGH"), ("VulnerabilityID", .string "CVE-1"), ("PkgName", .string "tar"),
    ("PkgID", .string ("tar@" ++ version)), ("InstalledVersion", .string version)]

def packageResult (version : String) : Fields :=
  [("Target", .string "image"), ("Class", .string "os-pkgs"), ("Type", .string "debian"),
    ("Vulnerabilities", .array [packageRecord version])]

def packageFields (version : String) : Fields :=
  [("SchemaVersion", .int 2),
    ("ArtifactType", .string "container_image"),
    ("Metadata", .object [("OS", .object [("Family", .string "debian"), ("Name", .string "12")])]),
    ("Results", .array [.object (packageResult version)])]

def packageReport (version : String) : Json := .object (packageFields version)

def packageFinding (version : String) : Finding :=
  ⟨⟨"os-pkgs", "debian", "os:debian/12", "CVE-1", "tar", "tar@" ++ version, "", version⟩, .high, ""⟩

/-- A `dpkg` that knows two versions. -/
def twoVersions : Tools where
  dpkg a b := some (if a = "2" ∧ b = "1" then 0 else 1, false)
  netlocAccepted _ := true
  today := ⟨2026, 1, 1⟩

theorem upgraded_package_is_counted_once :
    compareReports twoVersions (packageReport "2") (packageReport "1") =
      .ok ⟨[], [packageFinding "2"], [], [], [⟨packageFinding "1", packageFinding "2"⟩]⟩ ∧
    ∃ derivative upstream, normalizeFindings (packageReport "2") "derivative" = .ok derivative ∧
      normalizeFindings (packageReport "1") "upstream" = .ok upstream := by
  have run : compareReports twoVersions (packageReport "2") (packageReport "1") =
      .ok ⟨[], [packageFinding "2"], [], [], [⟨packageFinding "1", packageFinding "2"⟩]⟩ := by
    decide +kernel
  obtain ⟨derivative, upstream, one, two, _⟩ := every_finding_is_counted_once run
  exact ⟨run, derivative, upstream, one, two⟩

end CertRenewer.Gate
