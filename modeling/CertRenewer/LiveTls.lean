import CertRenewer.System

/-!
# Live TLS verification

`unifi_tls.py`: connections to the resumed endpoint until one of them decides.
Only a failure before authentication is retried, within a deadline and a number
of attempts. Times are exact numbers of seconds, of any size: the range of
`settimeout` and `sleep`, which raise `OverflowError` over `2 ^ 63` nanoseconds,
is left out (a renewal policy allows no timeout over 120 seconds). A
configuration value that is not a finite number is refused before anything else
and has no place here.
-/

namespace CertRenewer.LiveTls

/-- The subclasses of `LiveTLSVerificationError`. -/
inductive VerificationError where
  | configuration (message : String)
  | endpointNotReady (message : String)
  | authentication (message : String)
  | handshake (message : String)
  | servedCertificateMismatch (message : String)
  deriving DecidableEq, Repr

/-! ## Configuration -/

structure LiveTlsEndpoint where
  address : String
  serverHostname : String
  port : Int
  deriving DecidableEq, Repr

structure ReadinessPolicy where
  timeoutSeconds : ℚ
  attemptTimeoutSeconds : ℚ
  retryDelaySeconds : ℚ
  maxAttempts : Nat
  deriving DecidableEq, Repr

def maxHostChars : Nat := 253
def maxLeafDerBytes : Nat := 64 * 1024
def maxAttempts : Nat := 1000

abbrev Checked := Except VerificationError

/-- `_DNS_LABEL.fullmatch`. -/
def dnsLabel (label : List Char) : Bool :=
  label.length ≤ 63 && label.head?.any Char.isAlphanum && label.getLast?.any Char.isAlphanum &&
    label.all fun c => c.isAlphanum || c == '-'

def validateIpAddress (lib : Library) (value : String) : Checked Unit := do
  check (value ≠ "" ∧ value.toList.length ≤ maxHostChars) (.configuration "invalid UniFi TLS connection address")
  check ('%' ∉ value.toList) (.configuration "invalid UniFi TLS connection address")
  check ((lib.ipAddress value).isSome = true) (.configuration "UniFi TLS connection address must be numeric")

def validateHost (lib : Library) (value label : String) : Checked Unit := do
  check (value ≠ "" ∧ value.toList.length ≤ maxHostChars) (.configuration s!"invalid UniFi TLS {label}")
  check ('%' ∉ value.toList) (.configuration s!"invalid UniFi TLS {label}")
  if (lib.ipAddress value).isSome then .ok ()
  else do
    check (value.toList.all fun c => c.toNat < 128) (.configuration s!"invalid UniFi TLS {label}")
    let name := if value.toList.getLast? = some '.' then value.toList.dropLast else value.toList
    check (name ≠ [] ∧ (name.splitOn '.').all dnsLabel = true) (.configuration s!"invalid UniFi TLS {label}")

def validateLiveTlsConfiguration (lib : Library) (endpoint : LiveTlsEndpoint) (readiness : ReadinessPolicy) :
    Checked Unit := do
  validateIpAddress lib endpoint.address
  validateHost lib endpoint.serverHostname "server identity"
  check (1 ≤ endpoint.port ∧ endpoint.port ≤ 65535) (.configuration "invalid UniFi TLS port")
  check (0 < readiness.timeoutSeconds) (.configuration "invalid UniFi readiness timeout")
  check (0 < readiness.attemptTimeoutSeconds) (.configuration "invalid UniFi readiness attempt timeout")
  check (0 ≤ readiness.retryDelaySeconds) (.configuration "invalid UniFi readiness retry delay")
  check (1 ≤ readiness.maxAttempts ∧ readiness.maxAttempts ≤ maxAttempts)
    (.configuration "invalid UniFi readiness attempt limit")

/-- `_PreparedLiveTLSVerification`. What its TLS context makes of a peer is part
of the handshake. -/
structure Prepared where
  endpoint : LiveTlsEndpoint
  readiness : ReadinessPolicy
  deriving DecidableEq, Repr

/-- `context` tells whether `create_client_tls_context` makes a context of a CA. -/
def prepareLiveTlsVerification (lib : Library) (context : Bytes → Bool) (now : Time)
    (endpoint : LiveTlsEndpoint) (readiness : ReadinessPolicy) (trustedCaData : Bytes) :
    Checked Prepared := do
  validateLiveTlsConfiguration lib endpoint readiness
  check (trustedCaData ≠ []) (.configuration "explicit UniFi TLS CA data is required")
  match validateInstallationCa lib trustedCaData now with
  | .error _ => .error (.configuration "invalid UniFi TLS trust configuration")
  | .ok ca => do
    check (context ca.pem = true) (.configuration "invalid UniFi TLS trust configuration")
    .ok ⟨endpoint, readiness⟩

def canonicalLeaf (lib : Library) (value : Bytes) : Checked Bytes := do
  check (1 ≤ value.length ∧ value.length ≤ maxLeafDerBytes) (.configuration "invalid expected UniFi certificate")
  match lib.loadDer value with
  | none => .error (.configuration "invalid expected UniFi certificate")
  | some c => do
    check (c.der = value) (.configuration "expected UniFi certificate is not canonical DER")
    .ok c.der

/-! ## One connection -/

/-- The exceptions of a connection. -/
inductive Raised where
  | sslCertVerification
  | ssl
  | os
  | invalidPeer
  deriving DecidableEq, Repr

/-- A verification error is a TLS error, and a TLS error is an `OSError`. -/
def Raised.isSslCertVerificationError : Raised → Bool
  | .sslCertVerification => true
  | _ => false

def Raised.isSslError : Raised → Bool
  | .sslCertVerification | .ssl => true
  | _ => false

def Raised.isOsError : Raised → Bool
  | .sslCertVerification | .ssl | .os => true
  | .invalidPeer => false

abbrev Attempt := Except Raised Bytes

/-- What the peer does in the TLS handshake. -/
inductive Handshake where
  | certVerificationError
  | sslError
  | osError
  | authenticated (leaf : Option Bytes)
  deriving DecidableEq, Repr

/-- What an attempt meets: whether a socket can be opened, whether it connects,
and the handshake. -/
structure Peer where
  opens : Bool
  connects : Bool
  handshake : Handshake

/-- The successive readings of the clock, and the peer at each attempt. -/
structure Environment where
  clock : Nat → ℚ
  peer : Nat → Peer

inductive Event where
  | read (time : ℚ)
  | enter (deadline : ℚ)
  | leave (outcome : Attempt)
  | sleep (delay : ℚ)

/-- How often the clock was read, and everything that was done. -/
structure Session where
  readings : Nat
  log : List Event

def Session.note (s : Session) (e : Event) : Session := { s with log := s.log ++ [e] }

section
variable (env : Environment)

def time (s : Session) : ℚ := env.clock s.readings

/-- The session after `time.monotonic()`. -/
def Session.tick (s : Session) : Session :=
  { readings := s.readings + 1, log := s.log ++ [.read (time env s)] }

def peerLeaf : Option Bytes → Attempt
  | some leaf => if 1 ≤ leaf.length ∧ leaf.length ≤ maxLeafDerBytes then .ok leaf else .error .invalidPeer
  | none => .error .invalidPeer

/-- `_connect_and_get_leaf`. -/
def connectAndGetLeaf (peer : Peer) (deadline : ℚ) (s : Session) : Attempt × Session :=
  if !peer.opens then (.error .os, s)
  else if deadline - time env s ≤ 0 then (.error .os, s.tick env)
  else if !peer.connects then (.error .os, s.tick env)
  else
    let s := s.tick env
    if deadline - time env s ≤ 0 then (.error .os, s.tick env)
    else
      match peer.handshake with
      | .certVerificationError => (.error .sslCertVerification, s.tick env)
      | .sslError => (.error .ssl, s.tick env)
      | .osError => (.error .os, s.tick env)
      | .authenticated leaf => (peerLeaf leaf, s.tick env)

/-- The attempt, between its two marks in the log. -/
def attemptOnce (peer : Peer) (deadline : ℚ) (s : Session) : Attempt × Session :=
  let (outcome, s) := connectAndGetLeaf env peer deadline (s.note (.enter deadline))
  (outcome, s.note (.leave outcome))

/-! ## The loop -/

def notReady : VerificationError :=
  .endpointNotReady "UniFi TLS endpoint did not become ready within the bounded policy"

variable (lib : Library) (readiness : ReadinessPolicy) (expected : Bytes) (deadline : ℚ)

/-- The pause before the next attempt, never past the deadline. -/
def pause (s : Session) : Session :=
  let delay := min readiness.retryDelaySeconds (max 0 (deadline - time env s))
  if delay ≠ 0 then (s.tick env).note (.sleep delay) else s.tick env

/-- The attempts from `attempt` on, `left` of them. -/
def attemptsFrom : (left attempt : Nat) → Session → Checked Sha256 × Session
  | 0, _, s => (.error notReady, s)
  | left + 1, attempt, s =>
    if deadline - time env s ≤ 0 then (.error notReady, s.tick env)
    else
      let s := s.tick env
      let attemptDeadline := min deadline (time env s + readiness.attemptTimeoutSeconds)
      match attemptOnce env (env.peer attempt) attemptDeadline (s.tick env) with
      | (.error e, s) =>
        if e.isSslCertVerificationError then
          (.error (.authentication "UniFi TLS chain or hostname validation failed"), s)
        else if e.isSslError then (.error (.handshake "UniFi TLS handshake failed"), s)
        else if e.isOsError then
          if left = 0 then (.error notReady, s)
          else attemptsFrom left (attempt + 1) (pause env readiness deadline s)
        else (.error (.handshake "UniFi TLS peer returned invalid certificate data"), s)
      | (.ok served, s) =>
        if served ≠ expected then
          (.error (.servedCertificateMismatch
            "UniFi served certificate differs from the issued certificate"), s)
        else (.ok (lib.sha256 served), s)

end

/-- `verify_prepared_live_tls_certificate`. -/
def verifyPreparedLiveTlsCertificate (lib : Library) (env : Environment) (prepared : Prepared)
    (expectedLeafDer : Bytes) : Checked Sha256 × List Event :=
  match canonicalLeaf lib expectedLeafDer with
  | .error e => (.error e, [])
  | .ok expected =>
    let start : Session := ⟨0, []⟩
    let deadline := time env start + prepared.readiness.timeoutSeconds
    let (result, s) := attemptsFrom env lib prepared.readiness expected deadline
      prepared.readiness.maxAttempts 0 (start.tick env)
    (result, s.log)

/-! ## What the log shows -/

def Event.outcome? : Event → Option Attempt
  | .leave outcome => some outcome
  | _ => none

def Event.isEnter : Event → Bool
  | .enter _ => true
  | _ => false

def outcomes (log : List Event) : List Attempt := log.filterMap Event.outcome?

/-- When an event may follow what was done before. An attempt follows two
readings, the first before the deadline, and ends by the deadline; a pause is
within the time that remains at the reading just before it. -/
def Allowed (deadline : ℚ) (before : List Event) : Event → Prop
  | .enter d => d ≤ deadline ∧
    ∃ earlier t t', before = earlier ++ [.read t, .read t'] ∧ t < deadline
  | .sleep delay => ∃ earlier t, before = earlier ++ [.read t] ∧ 0 < delay ∧ delay ≤ deadline - t
  | .read _ | .leave _ => True

def Paced (deadline : ℚ) (log : List Event) : Prop :=
  ∀ before e after, log = before ++ e :: after → Allowed deadline before e

/-- The result an attempt that is not retried leads to. -/
def verdict (lib : Library) (expected : Bytes) : Attempt → Checked Sha256
  | .ok served =>
    if served = expected then .ok (lib.sha256 served)
    else .error (.servedCertificateMismatch "UniFi served certificate differs from the issued certificate")
  | .error .sslCertVerification => .error (.authentication "UniFi TLS chain or hostname validation failed")
  | .error .ssl => .error (.handshake "UniFi TLS handshake failed")
  | .error .invalidPeer => .error (.handshake "UniFi TLS peer returned invalid certificate data")
  | .error .os => .error notReady

/-- Connection errors, and then possibly one attempt that decides. -/
def Decides (lib : Library) (expected : Bytes) (attempts : List Attempt) (result : Checked Sha256) : Prop :=
  ∃ plain, (∀ o ∈ plain, o = .error .os) ∧
    ((attempts = plain ∧ result = .error notReady) ∨
      ∃ o, o ≠ .error .os ∧ attempts = plain ++ [o] ∧ result = verdict lib expected o)

section
variable {env : Environment} {lib : Library} {readiness : ReadinessPolicy} {expected : Bytes}
variable {deadline : ℚ} {log : List Event} {s : Session} {e : Event}

theorem paced_nil : Paced deadline [] := by
  intro before e after eq
  cases before <;> cases eq

theorem Paced.snoc (h : Paced deadline log) (ok : Allowed deadline log e) : Paced deadline (log ++ [e]) := by
  intro before e' after eq
  rcases List.eq_nil_or_concat after with rfl | ⟨front, last, rfl⟩
  · obtain ⟨rfl, same⟩ := List.append_inj' eq rfl
    cases same
    exact ok
  · rw [List.concat_eq_append, ← List.cons_append, ← List.append_assoc] at eq
    obtain ⟨shorter, _⟩ := List.append_inj' eq rfl
    exact h before e' front shorter

theorem Paced.tick (h : Paced deadline s.log) : Paced deadline (s.tick env).log := h.snoc trivial

theorem outcomes_tick : outcomes (s.tick env).log = outcomes s.log := by
  simp [Session.tick, outcomes, Event.outcome?]

theorem entries_tick : (s.tick env).log.countP Event.isEnter = s.log.countP Event.isEnter := by
  simp [Session.tick, Event.isEnter]

/-- A connection does nothing to the log but read the clock. -/
theorem connectAndGetLeaf_log {peer : Peer} {d : ℚ} :
    ∃ reads : List ℚ, (connectAndGetLeaf env peer d s).2.log = s.log ++ reads.map Event.read := by
  have one : ∃ reads : List ℚ, (s.tick env).log = s.log ++ reads.map Event.read := ⟨[_], rfl⟩
  have two : ∃ reads : List ℚ, ((s.tick env).tick env).log = s.log ++ reads.map Event.read :=
    ⟨[_, _], by simp [Session.tick]; exact ⟨rfl, rfl⟩⟩
  unfold connectAndGetLeaf
  split
  · exact ⟨[], by simp⟩
  split
  · exact one
  split
  · exact one
  dsimp only
  split
  · exact two
  split
  · exact two
  · exact two
  · exact two
  · exact two

theorem Paced.reads (h : Paced deadline log) (times : List ℚ) : Paced deadline (log ++ times.map Event.read) := by
  induction times generalizing log with
  | nil => simpa using h
  | cons t times ih =>
    rw [List.map_cons, List.append_cons]
    exact ih (h.snoc trivial)

/-- What an attempt adds to the log. -/
structure Attempted (deadline : ℚ) (s s' : Session) (more : List Attempt) : Prop where
  paced : Paced deadline s'.log
  outcomes : outcomes s'.log = outcomes s.log ++ more
  entries : s'.log.countP Event.isEnter = s.log.countP Event.isEnter + more.length

theorem Attempted.trans {s s' s'' : Session} {more later : List Attempt} (h : Attempted deadline s s' more)
    (h' : Attempted deadline s' s'' later) : Attempted deadline s s'' (more ++ later) where
  paced := h'.paced
  outcomes := by rw [h'.outcomes, h.outcomes, List.append_assoc]
  entries := by rw [h'.entries, h.entries, List.length_append, Nat.add_assoc]

theorem Attempted.tick {s s' : Session} {more : List Attempt} (h : Attempted deadline s s' more) :
    Attempted deadline s (s'.tick env) more where
  paced := h.paced.tick
  outcomes := by rw [outcomes_tick, h.outcomes]
  entries := by rw [entries_tick, h.entries]

theorem attempted_nothing (h : Paced deadline s.log) : Attempted deadline s s [] := ⟨h, by simp, rfl⟩

theorem attemptOnce_spec {peer : Peer} {d : ℚ} (h : Paced deadline s.log)
    (ok : Allowed deadline s.log (.enter d)) :
    Attempted deadline s (attemptOnce env peer d s).2 [(attemptOnce env peer d s).1] := by
  obtain ⟨reads, log⟩ := @connectAndGetLeaf_log env (s.note (.enter d)) peer d
  have log : (attemptOnce env peer d s).2.log =
      s.log ++ [.enter d] ++ reads.map Event.read ++ [.leave (attemptOnce env peer d s).1] :=
    congrArg (· ++ [Event.leave _]) log
  have quiet : (reads.map Event.read).filterMap Event.outcome? = [] := by simp [Event.outcome?]
  have still : (reads.map Event.read).countP Event.isEnter = 0 := by simp [Event.isEnter]
  refine ⟨?_, ?_, ?_⟩
  · rw [log]
    exact ((h.snoc ok).reads reads).snoc trivial
  · rw [log, outcomes, List.filterMap_append, List.filterMap_append, List.filterMap_append, quiet]
    simp [outcomes, Event.outcome?]
  · rw [log, List.countP_append, List.countP_append, List.countP_append, still]
    simp [Event.isEnter]

theorem pause_spec (sensible : 0 ≤ readiness.retryDelaySeconds) (h : Paced deadline s.log) :
    Attempted deadline s (pause env readiness deadline s) [] := by
  have ticked : Attempted deadline s (s.tick env) [] := (attempted_nothing h).tick
  unfold pause
  dsimp only
  split
  · rename_i slept
    refine ⟨ticked.paced.snoc ⟨s.log, time env s, rfl, ?_⟩, ?_, ?_⟩
    · -- a pause other than zero means that time remains
      rcases le_or_gt (deadline - time env s) 0 with late | early
      · rw [max_eq_left late, min_eq_right sensible] at slept
        exact absurd rfl slept
      · rw [max_eq_right early.le] at slept ⊢
        have positive := le_min sensible early.le
        exact ⟨lt_of_le_of_ne positive slept.symm, min_le_right _ _⟩
    · rw [← ticked.outcomes]
      simp [Session.note, outcomes, Event.outcome?]
    · rw [← ticked.entries]
      simp [Session.note, Event.isEnter]
  · exact ticked

theorem decides_more {attempts : List Attempt} {result : Checked Sha256} (h : Decides lib expected attempts result) :
    Decides lib expected (.error .os :: attempts) result := by
  obtain ⟨plain, all, h⟩ := h
  refine ⟨.error .os :: plain, List.forall_mem_cons.mpr ⟨rfl, all⟩, ?_⟩
  rcases h with ⟨rfl, eq⟩ | ⟨o, decisive, rfl, eq⟩
  · exact Or.inl ⟨rfl, eq⟩
  · exact Or.inr ⟨o, decisive, rfl, eq⟩

theorem decides_now {o : Attempt} (decisive : o ≠ .error .os) : Decides lib expected [o] (verdict lib expected o) :=
  ⟨[], by simp, Or.inr ⟨o, decisive, rfl, rfl⟩⟩

theorem decides_none : Decides lib expected [] (.error notReady) := ⟨[], by simp, Or.inl ⟨rfl, rfl⟩⟩

theorem attemptsFrom_spec (sensible : 0 ≤ readiness.retryDelaySeconds) (left attempt : Nat)
    (h : Paced deadline s.log) :
    ∃ more, Attempted deadline s (attemptsFrom env lib readiness expected deadline left attempt s).2 more ∧
      more.length ≤ left ∧
      Decides lib expected more (attemptsFrom env lib readiness expected deadline left attempt s).1 := by
  induction left generalizing attempt s with
  | zero => exact ⟨[], attempted_nothing h, le_rfl, decides_none⟩
  | succ left ih =>
    unfold attemptsFrom
    split
    · exact ⟨[], (attempted_nothing h).tick, Nat.zero_le _, decides_none⟩
    rename_i early
    dsimp only
    have ready : Allowed deadline ((s.tick env).tick env).log
        (.enter (min deadline (time env (s.tick env) + readiness.attemptTimeoutSeconds))) :=
      ⟨min_le_left _ _, s.log, time env s, time env (s.tick env), by simp [Session.tick, time],
        by linarith⟩
    have once := @attemptOnce_spec env deadline _ (env.peer attempt) _ h.tick.tick ready
    have start : Attempted deadline s ((s.tick env).tick env) [] := (attempted_nothing h).tick.tick
    have done := start.trans once
    revert done
    cases attemptOnce env (env.peer attempt) _ ((s.tick env).tick env) with
    | mk o t =>
      intro done
      cases o with
      | ok served =>
        refine ⟨[.ok served], ?_, by simp, ?_⟩
        · dsimp only
          split
          · exact done
          · exact done
        · dsimp only
          have result := @decides_now lib expected (.ok served) (by simp)
          rw [verdict] at result
          by_cases same : served = expected
          · rw [if_pos same] at result
            rwa [if_neg (not_not.mpr same)]
          · rw [if_neg same] at result
            rwa [if_pos same]
      | error raised =>
        cases raised with
        | sslCertVerification => exact ⟨_, done, by simp, decides_now (by simp)⟩
        | ssl => exact ⟨_, done, by simp, decides_now (by simp)⟩
        | invalidPeer => exact ⟨_, done, by simp, decides_now (by simp)⟩
        | os =>
          change ∃ more, Attempted _ _ (if left = 0 then _ else _ : _ × _).2 _ ∧ _ ∧
            Decides _ _ _ (if left = 0 then _ else _ : _ × _).1
          split
          · exact ⟨_, done, by simp, decides_more decides_none⟩
          · have paused : Attempted deadline t (pause env readiness deadline t) [] :=
              pause_spec sensible done.paced
            obtain ⟨more, rest, short, result⟩ := ih (attempt + 1) paused.paced
            refine ⟨.error .os :: more, ?_, by simpa using short, decides_more result⟩
            exact (done.trans paused).trans rest

/-! ## The whole verification -/

/-- The first attempt that is not a plain connection error. -/
def decisive (attempts : List Attempt) : Option Attempt := attempts.find? fun o => o ≠ .error .os

theorem Decides.of_decisive {attempts : List Attempt} {result : Checked Sha256}
    (h : Decides lib expected attempts result) :
    (decisive attempts = none ∧ result = .error notReady) ∨
      ∃ plain o, decisive attempts = some o ∧ attempts = plain ++ [o] ∧
        (∀ p ∈ plain, p = .error .os) ∧ result = verdict lib expected o := by
  obtain ⟨plain, all, h⟩ := h
  have skipped : decisive plain = none := by
    refine List.find?_eq_none.mpr fun o member => ?_
    simpa using all o member
  rcases h with ⟨rfl, eq⟩ | ⟨o, other, rfl, eq⟩
  · exact Or.inl ⟨skipped, eq⟩
  · refine Or.inr ⟨plain, o, ?_, rfl, all, eq⟩
    rw [decisive, List.find?_append, ← decisive, skipped]
    simp [other]

theorem verdict_ok {o : Attempt} {digest : Sha256} :
    verdict lib expected o = .ok digest ↔ o = .ok expected ∧ digest = lib.sha256 expected := by
  cases o with
  | ok served =>
    rw [verdict]
    by_cases same : served = expected
    · subst same
      simp [eq_comm]
    · simp [same]
  | error raised => cases raised <;> simp [verdict]

theorem accepted_retryDelay {endpoint : LiveTlsEndpoint}
    (h : validateLiveTlsConfiguration lib endpoint readiness = .ok ()) : 0 ≤ readiness.retryDelaySeconds := by
  simp only [validateLiveTlsConfiguration, bind_eq_ok, check_ok] at h
  obtain ⟨_, _, _, _, _, _, _, _, _, _, _, sensible, _⟩ := h
  exact sensible

/-- Only an accepted configuration is prepared. -/
theorem prepareLiveTlsVerification_accepted {context : Bytes → Bool} {now : Time}
    {endpoint : LiveTlsEndpoint} {trustedCaData : Bytes} {prepared : Prepared}
    (h : prepareLiveTlsVerification lib context now endpoint readiness trustedCaData = .ok prepared) :
    validateLiveTlsConfiguration lib prepared.endpoint prepared.readiness = .ok () := by
  rw [prepareLiveTlsVerification, bind_eq_ok] at h
  obtain ⟨_, accepted, h⟩ := h
  rw [bind_eq_ok] at h
  obtain ⟨_, _, h⟩ := h
  split at h
  · cases h
  · rw [bind_eq_ok] at h
    obtain ⟨_, _, h⟩ := h
    cases h
    exact accepted

theorem canonicalLeaf_ok {value leaf : Bytes} (h : canonicalLeaf lib value = .ok leaf) : leaf = value := by
  rw [canonicalLeaf, bind_eq_ok] at h
  obtain ⟨_, _, h⟩ := h
  split at h
  · cases h
  · rw [bind_eq_ok] at h
    obtain ⟨_, same, h⟩ := h
    cases h
    exact check_ok.mp same

/-- What a verification does and returns. -/
structure Verification (lib : Library) (readiness : ReadinessPolicy) (started : ℚ) (expected : Bytes)
    (result : Checked Sha256) (log : List Event) : Prop where
  bounded : log.countP Event.isEnter ≤ readiness.maxAttempts
  completed : (outcomes log).length = log.countP Event.isEnter
  paced : Paced (started + readiness.timeoutSeconds) log
  returns : (∃ digest, result = .ok digest) ↔ decisive (outcomes log) = some (.ok expected)
  decided : ∀ o, decisive (outcomes log) = some o → result = verdict lib expected o ∧
    ∃ plain, (∀ p ∈ plain, p = .error .os) ∧ outcomes log = plain ++ [o]
  undecided : decisive (outcomes log) = none → result = .error notReady ∨
    (log = [] ∧ ∃ e, canonicalLeaf lib expected = .error e ∧ result = .error e)

theorem attempted_verification {s s' : Session} {more : List Attempt} {started : ℚ}
    {result : Checked Sha256} (fresh : outcomes s.log = [] ∧ s.log.countP Event.isEnter = 0)
    (attempted : Attempted (started + readiness.timeoutSeconds) s s' more)
    (short : more.length ≤ readiness.maxAttempts) (decides : Decides lib expected more result) :
    Verification lib readiness started expected result s'.log := by
  have all : outcomes s'.log = more := by rw [attempted.outcomes, fresh.1, List.nil_append]
  have count : s'.log.countP Event.isEnter = more.length := by
    rw [attempted.entries, fresh.2, Nat.zero_add]
  refine ⟨count ▸ short, by rw [all, count], attempted.paced, ?_, ?_, ?_⟩
  all_goals rw [all]
  · rcases decides.of_decisive with ⟨none, rfl⟩ | ⟨plain, o, some, _, _, rfl⟩
    · simp [none]
    · simp only [some, verdict_ok, Option.some.injEq, exists_and_left, exists_eq, and_true]
  · intro o found
    rcases decides.of_decisive with ⟨none, _⟩ | ⟨plain, o', some, eq, plains, result⟩
    · cases none.symm.trans found
    · cases some.symm.trans found
      exact ⟨result, plain, plains, eq⟩
  · intro missing
    rcases decides.of_decisive with ⟨_, eq⟩ | ⟨plain, o, some, _⟩
    · exact Or.inl eq
    · cases some.symm.trans missing

end

/-- The retry loop, for every accepted policy, every clock and every peer. -/
theorem live_tls_retry_loop (lib : Library) (env : Environment) (prepared : Prepared) (expected : Bytes)
    (accepted : validateLiveTlsConfiguration lib prepared.endpoint prepared.readiness = .ok ()) :
    Verification lib prepared.readiness (env.clock 0) expected
      (verifyPreparedLiveTlsCertificate lib env prepared expected).1
      (verifyPreparedLiveTlsCertificate lib env prepared expected).2 := by
  unfold verifyPreparedLiveTlsCertificate
  cases leaf : canonicalLeaf lib expected with
  | error e =>
    refine ⟨Nat.zero_le _, rfl, paced_nil, by simp [outcomes, decisive], fun o found => ?_, fun _ => ?_⟩
    · cases found
    · exact Or.inr ⟨rfl, e, leaf, rfl⟩
  | ok value =>
    obtain rfl := canonicalLeaf_ok leaf
    have start : Paced (env.clock 0 + prepared.readiness.timeoutSeconds) (Session.tick env ⟨0, []⟩).log :=
      paced_nil.snoc trivial
    obtain ⟨more, attempted, short, decides⟩ := attemptsFrom_spec
      (accepted_retryDelay accepted) prepared.readiness.maxAttempts 0 start
    exact attempted_verification ⟨rfl, rfl⟩ attempted short decides

/-! ## A second attempt -/

def Sample.library : Library := { CertRenewer.Sample.library with
  ipAddress := fun text => if text = "::1" then some (.v6 1) else none }

/-- The default policy. -/
def Sample.prepared : Prepared where
  endpoint := ⟨"::1", "unifi", 8443⟩
  readiness := ⟨60, 5, 1 / 2, 120⟩

/-- The first connection is refused, the second meets the store's leaf. A second
goes by between any two readings of the clock. -/
def Sample.environment : Environment where
  clock n := n
  peer n := ⟨true, n ≠ 0, .authenticated (some [3, 3, 3])⟩

/-- A connection error is retried, and the expected leaf ends the loop. -/
theorem second_attempt_is_verified :
    prepareLiveTlsVerification Sample.library (fun _ => true) 0 Sample.prepared.endpoint
        Sample.prepared.readiness [2, 2] = .ok Sample.prepared ∧
      outcomes (verifyPreparedLiveTlsCertificate Sample.library Sample.environment Sample.prepared
        [3, 3, 3]).2 = [.error .os, .ok [3, 3, 3]] ∧
      Verification Sample.library Sample.prepared.readiness 0 [3, 3, 3] (.ok (.ofNat 256 3))
        (verifyPreparedLiveTlsCertificate Sample.library Sample.environment Sample.prepared [3, 3, 3]).2 := by
  have prepared : prepareLiveTlsVerification Sample.library (fun _ => true) 0 Sample.prepared.endpoint
      Sample.prepared.readiness [2, 2] = .ok Sample.prepared := by decide +kernel
  have result : (verifyPreparedLiveTlsCertificate Sample.library Sample.environment Sample.prepared
      [3, 3, 3]).1 = .ok (.ofNat 256 3) := by decide +kernel
  refine ⟨prepared, by decide +kernel, ?_⟩
  rw [← result]
  exact live_tls_retry_loop Sample.library Sample.environment Sample.prepared [3, 3, 3]
    (prepareLiveTlsVerification_accepted prepared)

end CertRenewer.LiveTls
