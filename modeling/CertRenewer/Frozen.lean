import CertRenewer.Failures
import CertRenewer.JournalCodec

/-!
# Journals that cannot be used

A journal that is not accepted, or is another policy's, stops every operation
before it does anything: no operation succeeds, and none leaves more behind than
the lock.
-/

namespace CertRenewer

open Crash

/-- Neither a stop nor a start, and no run of keytool. -/
abbrev Inert (e : Entry) : Prop :=
  e.event ≠ .stopIssued ∧ e.event ≠ .startIssued ∧ ∀ n command, e.event ≠ .keytool n command

/-- There is a journal, and this executor has no use for it. -/
def Unusable (x : Session) (w : World) : Prop :=
  ∃ i, w.disk.dir.visible .journal = some i ∧
    ∀ j, (w.disk.files i).content = .journal j → j.validate = .ok () → j.policyDigest ≠ x.policy.digest

/-- A program that gets nowhere over a journal of no use. -/
def Freezes {α : Type} (x : Session) (m : Exec α) : Prop :=
  ∀ w, Unusable x w → Prog.Holds m (fun _ _ => False) (fun _ => Passive Inert w) (Passive Inert w) w

section
variable {α β : Type} {x : Session} {w t : World}

theorem guards_inert (e : Event) (h : e.guards = true) : Always Inert e := by
  refine fun _ _ _ => ⟨?_, ?_, ?_⟩
  · rintro rfl
    cases h
  · rintro rfl
    cases h
  · rintro n command rfl
    cases h

theorem Unusable.after (h : Unusable x w) (passive : Passive Inert w t) : Unusable x t := by
  obtain ⟨i, seen, useless⟩ := h
  refine ⟨i, (passive.names .journal (by decide)).trans seen, ?_⟩
  rw [passive.files i (w.disk.dir.visible_lt seen)]
  exact useless

/-! ## Rules -/

theorem Freezes.bind {m : Exec β} {f : β → Exec α} (h : Freezes x m) : Freezes x (m >>= f) := fun w useless =>
  Prog.holds_bind_of (h w useless) fun _ _ no => no.elim

theorem Looks.freezes {m : Exec β} {f : β → Exec α} (h : Looks Inert m) (rest : ∀ b, Freezes x (f b)) :
    Freezes x (m >>= f) := by
  intro w useless
  refine Prog.holds_bind.2 ((h w).mono (fun b t known => ?_) (fun _ _ h => h) fun _ h => h)
  exact (rest b t (useless.after known.1)).mono (fun _ _ no => no) (fun _ _ h => known.1.trans h) fun _ h => known.1.trans h

theorem Reads.passive {m : Exec α} {S : α → View → Prop} (h : Reads m S) (e : Logs Inert m) (w : World) :
    Prog.Holds m (fun a t => Passive Inert w t ∧ S a w.view) (fun _ => Passive Inert w) (Passive Inert w) w :=
  ((h w).and (e.emits w)).mono
    (fun _ _ known => ⟨⟨.of_disk known.1.1.disk, known.1.1.service, known.1.1.uuids, known.2.1⟩, known.1.2⟩)
    (fun _ _ known => ⟨.of_disk known.1.disk, known.1.service, known.1.uuids, known.2⟩)
    fun _ known => ⟨.of_disk known.1.disk, known.1.service, known.1.uuids, known.2⟩

/-- A reading that would contradict the journal. -/
theorem Reads.freezes {m : Exec α} {S : α → View → Prop} (h : Reads m S) (e : Logs Inert m)
    (no : ∀ a w, Unusable x w → ¬S a w.view) : Freezes x m := fun w useless =>
  (h.passive e w).mono (fun a _ known => no a w useless known.2) (fun _ _ h => h) fun _ h => h

theorem freezes_handle {m : Exec α} {h : Error → Exec α} (first : Freezes x m) (rescue : ∀ e, Freezes x (h e)) :
    Freezes x (Prog.handle m h) := by
  intro w useless
  rw [Prog.holds_handle]
  refine (first w useless).mono (fun _ _ no => no) (fun e t known => ?_) fun _ h => h
  exact (rescue e t (useless.after known)).mono (fun _ _ no => no) (fun _ _ h => known.trans h) fun _ h => known.trans h

theorem freezes_raise (e : Error) : Freezes x (Prog.raise e : Exec α) := fun w _ => Passive.refl Inert w

theorem freezes_locked {body : Exec α} (h : Freezes x body) : Freezes x (locked x body) := by
  intro w useless
  have inner : Freezes x (mask "UniFi executor operation failed; recovery may be required" (do acquire x; body)) :=
    freezes_handle (Looks.freezes (looks_acquire x guards_inert) fun _ => h) fun e => freezes_raise _
  unfold locked
  rw [Prog.holds_ensure]
  refine (inner w useless).mono (fun _ _ no => no.elim) (fun _ t known => ?_) fun _ h => h
  exact (looks_release x guards_inert t).mono (fun _ _ h => known.trans h.1) (fun _ _ h => known.trans h)
    fun _ h => known.trans h

theorem freezes_noTransaction : Freezes x (noTransaction x) := by
  refine (reads_noTransaction x).freezes (logs_noTransaction x) ?_
  rintro _ w ⟨i, seen, _⟩ known
  rw [World.view_disk, seen] at known
  exact nomatch known.1

/-! ## Operations -/

theorem freezes_loadJournal : Freezes x (loadJournal x) := by
  intro w useless
  obtain ⟨i, seen, unusable⟩ := useless
  unfold loadJournal
  refine Prog.holds_bind_of ((reads_readJournal x).passive (logs_readJournal x) w) ?_
  rintro j t ⟨passive, k, there, content⟩
  cases seen.symm.trans there
  cases valid : j.validate with
  | error e => exact passive
  | ok u =>
    -- The journal is accepted and in memory by now; only its policy is left.
    have other : ¬j.policyDigest = x.policy.digest := unusable j content valid
    have kept : Passive Inert w { t with process := { t.process with journal := some j } } :=
      passive.trans ⟨.of_disk rfl, rfl, rfl, [], rfl, by simp⟩
    change Prog.Holds (demand (j.policyDigest = x.policy.digest) "pending transaction policy differs from executor" >>=
      fun _ => pure j) _ _ _ { t with process := { t.process with journal := some j } }
    rw [Prog.holds_bind, demand, Prog.holds_guard]
    exact ⟨fun same => absurd same other, fun _ => kept⟩

/-- What begins with the question whether there is a journal. -/
theorem freezes_exists {f : Bool → Exec α} (present : Freezes x (f true)) : Freezes x (exists_ x .journal >>= f) := by
  intro w useless
  obtain ⟨i, seen, _⟩ := id useless
  refine Prog.holds_bind_of ((reads_exists x .journal).passive (logs_exists x .journal) w) ?_
  rintro b t ⟨passive, known⟩
  have yes : b = true := by
    rw [known, World.view_disk, seen]
    rfl
  subst yes
  exact (present t (useless.after passive)).mono (fun _ _ no => no) (fun _ _ h => passive.trans h) fun _ h => passive.trans h

theorem freezes_recover (startup : Bool) : Freezes x (recover x startup) :=
  freezes_locked (freezes_exists freezes_loadJournal.bind)

theorem freezes_verifyPending : Freezes x (verifyPending x) := by
  refine freezes_locked (Freezes.bind (freezes_exists ?_))
  exact Looks.freezes (looks_demand _ _) fun _ => freezes_loadJournal.bind

theorem freezes_generateCsr (policy : CertificatePolicy) : Freezes x (generateCsr x policy) :=
  Looks.freezes (looks_lift _) fun _ => Looks.freezes (looks_demand _ _) fun _ =>
    freezes_locked freezes_noTransaction.bind

theorem freezes_installCertificate (request : CertificateImportRequest) : Freezes x (installCertificate x request) := by
  refine freezes_handle (freezes_locked (Freezes.bind freezes_noTransaction.bind)) fun e => ?_
  exact Looks.freezes (looks_read _) fun _ => freezes_raise _

/-- An inspection by a new executor. -/
theorem inspectPublicState_freezes (useless : Unusable x w) (fresh : w.process.locked = false) :
    Prog.Holds (inspectPublicState x) (fun _ _ => False) (fun _ => Passive Inert w) (Passive Inert w) w := by
  unfold inspectPublicState
  rw [Prog.holds_bind, Prog.holds_read, if_neg (by simp [fresh])]
  exact freezes_locked freezes_noTransaction.bind w useless

end

/-! ## From the bytes of the file -/

namespace JournalText

def digitValue (point : Nat) : Nat := if point ≤ 57 then point - 48 else point - 87

def hexValue (text : List Nat) : Nat := text.foldl (fun n point => n * 16 + digitValue point) 0

def Identity.publicId (id : Identity) : PublicId :=
  ⟨.ofNat 256 (hexValue id.spki), id.chain.map fun digest => .ofNat 256 (hexValue digest)⟩

/-- The journal an accepted value is. -/
def Fields.journal (f : Fields) : Journal where
  version := 2
  policyDigest := .ofNat 256 (hexValue f.policyDigest)
  transaction := hexValue f.transaction
  phase := f.phase
  resume := f.resume
  old := f.old.publicId
  issued := f.issued.map Identity.publicId
  oldInode := ⟨f.oldInode.1, f.oldInode.2⟩
  stageInode := f.stageInode.map fun id => ⟨id.1, id.2⟩
  rollbackExpected := f.rollbackExpected
  commitPossible := f.commitPossible

/-- What a file with these bytes holds, as a journal. -/
def fileContent (json : Decoder) (bytes : Bytes) : Content :=
  match readJournal json bytes >>= validateJournal with
  | .ok fields => .journal fields.journal
  | .error _ => .other bytes

theorem hexValue_concat (text : List Nat) (point : Nat) :
    hexValue (text ++ [point]) = hexValue text * 16 + digitValue point := by
  simp [hexValue]

/-- The digits of a number are those it was spelled with. -/
theorem hexValue_digit {text : List Nat} (digits : ∀ p ∈ text, digitValue p < 16) {i : Nat} (h : i < text.length) :
    hexValue text / 16 ^ (text.length - 1 - i) % 16 = digitValue text[i] := by
  induction text using List.reverseRecOn with
  | nil => cases h
  | append_singleton text last ih =>
    rw [List.forall_mem_append] at digits
    have small : digitValue last < 16 := digits.2 last (by simp)
    have length : (text ++ [last]).length - 1 = text.length := by simp
    rw [length, hexValue_concat]
    by_cases final : i = text.length
    · subst final
      rw [Nat.sub_self, Nat.pow_zero, Nat.div_one, List.getElem_concat_length rfl]
      omega
    · have before : i < text.length := by
        rw [List.length_append, List.length_singleton] at h
        omega
      have shift : text.length - i = (text.length - 1 - i) + 1 := by omega
      rw [shift, Nat.pow_succ', ← Nat.div_div_eq_div_mul, List.getElem_append_left before]
      have whole : (hexValue text * 16 + digitValue last) / 16 = hexValue text := by omega
      rw [whole, ih digits.1 before]

theorem hexValue_lt {text : List Nat} (digits : ∀ p ∈ text, digitValue p < 16) : hexValue text < 16 ^ text.length := by
  induction text using List.reverseRecOn with
  | nil => decide
  | append_singleton text last ih =>
    rw [List.forall_mem_append] at digits
    have before := ih digits.1
    have small : digitValue last < 16 := digits.2 last (by simp)
    rw [hexValue_concat, List.length_append, List.length_singleton, Nat.pow_succ]
    omega

theorem digit_text : ∀ point < 103, 48 ≤ point ∧ point ≤ 57 ∨ 97 ≤ point ∧ point ≤ 102 →
    digitValue point < 16 ∧ ((hexDigits[digitValue point]?).getD '0').toNat = point := by decide

/-- A digest is spelled in one way only. -/
theorem hex_of_hexValue {text : List Nat} {digest : Sha256} (h : hexadecimal 64 text = true)
    (same : BitVec.ofNat 256 (hexValue text) = digest) : text = digest.hex.map Char.toNat := by
  simp only [hexadecimal, Bool.and_eq_true, beq_iff_eq, List.all_eq_true, Bool.or_eq_true, decide_eq_true_eq] at h
  obtain ⟨length, points⟩ := h
  have digit (p : Nat) (member : p ∈ text) :
      digitValue p < 16 ∧ ((hexDigits[digitValue p]?).getD '0').toNat = p := by
    have range := points p member
    exact digit_text p (by omega) range
  have small : ∀ p ∈ text, digitValue p < 16 := fun p member => (digit p member).1
  have value : digest.toNat = hexValue text := by
    rw [← same, BitVec.toNat_ofNat]
    refine Nat.mod_eq_of_lt ?_
    have bound := hexValue_lt small
    rw [length] at bound
    exact Nat.lt_of_lt_of_le bound (by decide)
  refine List.ext_getElem ?_ fun i below _ => ?_
  · simp [Sha256.hex, length]
  · have here := hexValue_digit small below
    rw [length] at here
    have last : 63 - i = 64 - 1 - i := rfl
    simp only [Sha256.hex, List.getElem_map, List.getElem_range, value, last, here]
    exact (digit _ (List.getElem_mem below)).2.symm

theorem fileContent_journal {json : Decoder} {bytes : Bytes} {j : Journal} (h : fileContent json bytes = .journal j) :
    ∃ fields, (readJournal json bytes >>= validateJournal) = .ok fields ∧ j = fields.journal := by
  unfold fileContent at h
  split at h
  · rename_i fields run
    cases h
    exact ⟨fields, run, rfl⟩
  · cases h

/-- The bytes are not a journal, or are a journal of another policy. -/
def Rejects (json : Decoder) (x : Session) (bytes : Bytes) : Prop :=
  (∀ fields, (readJournal json bytes >>= validateJournal) ≠ .ok fields) ∨
    ∃ fields, (readJournal json bytes >>= validateJournal) = .ok fields ∧
      fields.policyDigest ≠ x.policy.digest.hex.map Char.toNat

end JournalText

open JournalText in
theorem Rejects.unusable {json : Decoder} {x : Session} {w : World} {i : Nat} {bytes : Bytes}
    (h : Rejects json x bytes) (seen : w.disk.dir.visible .journal = some i)
    (content : (w.disk.files i).content = fileContent json bytes) : Unusable x w := by
  refine ⟨i, seen, fun j journal _ same => ?_⟩
  rw [content] at journal
  obtain ⟨fields, run, rfl⟩ := fileContent_journal journal
  rcases h with none | ⟨other, run', different⟩
  · exact none fields run
  · cases run.symm.trans run'
    simp only [bind_eq_ok] at run
    obtain ⟨value, _, accepted⟩ := run
    exact different (hex_of_hexValue (validateJournal_ok accepted).1.policyDigest same)

theorem Passive.of_fresh {P : Entry → Prop} {w t : World} (h : Passive P w.fresh t) : Passive P w t :=
  (passive_fresh w).trans h

/-- Over a journal that is not accepted, or is another policy's, every operation
fails and leaves the five names, their files and the service as they were. -/
theorem unusable_journals_freeze (json : JournalText.Decoder) (x : Session) (w : World) (i : Nat) (bytes : Bytes)
    (seen : w.disk.dir.visible .journal = some i)
    (content : (w.disk.files i).content = JournalText.fileContent json bytes)
    (rejected : JournalText.Rejects json x bytes) (o : Operation) (direct : ∀ message, o ≠ .message message) :
    (execute x o w.fresh).1 ≠ .ok () ∧ Passive Inert w (execute x o w.fresh).2 := by
  have useless : Unusable x w.fresh := Rejects.unusable rejected seen content
  have frozen : Prog.Holds (execute x o) (fun _ _ => False) (fun _ => Passive Inert w.fresh) (Passive Inert w.fresh)
      w.fresh := by
    cases o with
    | inspect =>
      exact Prog.holds_bind_of (inspectPublicState_freezes useless rfl) fun _ _ no => no.elim
    | generateCsr policy => exact (freezes_generateCsr policy).bind w.fresh useless
    | install request => exact (freezes_installCertificate request).bind w.fresh useless
    | verifyPending => exact freezes_verifyPending.bind w.fresh useless
    | recover startup => exact (freezes_recover startup).bind w.fresh useless
    | message message => exact absurd rfl (direct message)
  refine ⟨fun returned => frozen.ok (Prog.eq_of_fst returned), Passive.of_fresh ?_⟩
  exact (frozen.mono (fun _ _ no => no.elim) (fun _ _ h => h) fun _ h => h).final

/-! An empty file where the journal is. -/

def Sample.torn : World := { start with
  disk := ⟨0, fun i => ⟨0, true, 0o600, 0, 0, 0, 0, 0, if i = 1 then .other [] else .store [1],
    if i = 1 then .other [] else .store [1]⟩, dir.create .journal⟩ }

theorem torn_journal_freezes :
    (execute (Sample.session []) (.recover true) Sample.torn.fresh).1 ≠ .ok () ∧
      Passive Inert Sample.torn (execute (Sample.session []) (.recover true) Sample.torn.fresh).2 := by
  refine unusable_journals_freeze JournalText.Sample.decoder (Sample.session []) Sample.torn 1 [] (by decide +kernel) ?_ ?_
    (.recover true) (fun _ no => nomatch no)
  · decide +kernel
  · refine Or.inl fun fields accepted => ?_
    simp only [bind_eq_ok] at accepted
    obtain ⟨value, read, _⟩ := accepted
    have none : (JournalText.readJournal JournalText.Sample.decoder []).toOption.isNone = true := by decide +kernel
    rw [read] at none
    cases none

end CertRenewer
