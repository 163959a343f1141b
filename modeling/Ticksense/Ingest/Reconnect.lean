import Mathlib.Data.List.DropRight
import Ticksense.Python.Float

/-!
# Reconnecting

The outer loop of the ingest client runs one session after the other.  A session that fails is
followed by a wait, longer each time, and after too many failures the client gives up.  The number
of failures is set back when a session returns, not when it streams.

* `reaction`, `retriesAfter` — the body of the loop, and the loop.
* `GivesUpOnlyOnOutage` — only sessions that produced nothing count.
* `gives_up_only_on_outage_iff` — when the loop keeps to that.
-/

namespace Ticksense

/-- `_MAX_RETRIES` -/
def maxRetries : ℕ := 10

/-- `_BACKOFF_BASE`, in seconds. -/
def backoffBase : ℕ := 1

/-- `_BACKOFF_CAP`, in seconds. -/
def backoffCap : ℕ := 60

/-- How a session went: the number of events it handed to the producer, and the exception that ended
it, if one did. -/
structure SessionOutcome where
  produced : ℕ
  raised : Option PyError
deriving DecidableEq, Repr

/-- What the loop does behind a session. -/
inductive Reaction
  | reconnect
  | sleep (seconds : ℕ)
  | reraise (e : PyError)
deriving DecidableEq, Repr

/-- The body of the loop of `run`: the new number of retries, and what is done. -/
def reaction (retries : ℕ) (outcome : SessionOutcome) : ℕ × Reaction :=
  match outcome.raised with
  | none => (0, .reconnect)
  | some e =>
      let retries := retries + 1
      let backoff := min (backoffBase * 2 ^ retries) backoffCap
      if retries > maxRetries then (retries, .reraise e) else (retries, .sleep backoff)

/-- The loop: the number of retries behind these sessions, unless it has been left. -/
def retriesAfter (sessions : List SessionOutcome) : Option ℕ :=
  sessions.foldlM (fun retries outcome =>
    match reaction retries outcome with
    | (_, .reraise _) => none
    | (retries, _) => some retries) 0

/-- What the loop does behind a session that comes after others, if it comes to that. -/
def reactionTo (sessions : List SessionOutcome) (outcome : SessionOutcome) : Option Reaction :=
  (retriesAfter sessions).map fun retries => (reaction retries outcome).2

/-! ## Which failures count -/

def SessionOutcome.failed (outcome : SessionOutcome) : Bool := outcome.raised.isSome

/-- Failed without an event. -/
def SessionOutcome.silent (outcome : SessionOutcome) : Bool :=
  outcome.failed && outcome.produced = 0

/-- The failures since the last session that returned. -/
def failuresInRow (sessions : List SessionOutcome) : ℕ :=
  (sessions.rtakeWhile SessionOutcome.failed).length

/-- The failures without an event since the last session that returned or produced one. -/
def silentInRow (sessions : List SessionOutcome) : ℕ :=
  (sessions.rtakeWhile SessionOutcome.silent).length

/-- The client gives up only when too many sessions in a row have failed without an event, and waits
twice as long for each of them. -/
def GivesUpOnlyOnOutage (sessions : List SessionOutcome) : Prop :=
  ∀ before outcome, before ++ [outcome] <+: sessions →
    ∀ r, reactionTo before outcome = some r →
      (∀ e, r = .reraise e → maxRetries < silentInRow (before ++ [outcome])) ∧
      ∀ k, silentInRow (before ++ [outcome]) = k → 0 < k → k ≤ maxRetries →
        r = .sleep (min (2 ^ k) backoffCap)

/-- No session is one failure too many. -/
def Bearable (sessions : List SessionOutcome) : Prop :=
  ∀ past, past <+: sessions → failuresInRow past ≤ maxRetries

section Loop

variable {before sessions : List SessionOutcome} {outcome : SessionOutcome}

lemma failuresInRow_append_singleton (before : List SessionOutcome) (outcome : SessionOutcome) :
    failuresInRow (before ++ [outcome]) = if outcome.failed then failuresInRow before + 1 else 0 := by
  rw [failuresInRow, List.rtakeWhile_concat]
  split_ifs
  · rw [List.length_append, List.length_singleton, failuresInRow]
  · rfl

lemma silentInRow_append_singleton (before : List SessionOutcome) (outcome : SessionOutcome) :
    silentInRow (before ++ [outcome]) = if outcome.silent then silentInRow before + 1 else 0 := by
  rw [silentInRow, List.rtakeWhile_concat]
  split_ifs
  · rw [List.length_append, List.length_singleton, silentInRow]
  · rfl

lemma bearable_append_singleton :
    Bearable (before ++ [outcome]) ↔
      Bearable before ∧ failuresInRow (before ++ [outcome]) ≤ maxRetries := by
  constructor
  · intro h
    exact ⟨fun past hpast => h past (hpast.trans (List.prefix_append _ _)),
      h _ (List.prefix_refl _)⟩
  · rintro ⟨hbefore, hlast⟩ past hpast
    rcases List.prefix_concat_iff.mp hpast with rfl | hpast
    · exact hlast
    · exact hbefore past hpast

lemma reaction_of_failed (h : outcome.failed = true) (retries : ℕ) :
    ∃ e, reaction retries outcome = (retries + 1,
      if maxRetries < retries + 1 then .reraise e
      else .sleep (min (2 ^ (retries + 1)) backoffCap)) := by
  obtain ⟨e, he⟩ := Option.isSome_iff_exists.mp h
  refine ⟨e, ?_⟩
  simp only [reaction, he, backoffBase, one_mul]
  split_ifs <;> rfl

lemma reaction_of_not_failed (h : outcome.failed = false) (retries : ℕ) :
    reaction retries outcome = (0, .reconnect) := by
  have hnone : outcome.raised = none := Option.isSome_eq_false_iff.mp h |> Option.isNone_iff_eq_none.mp
  simp only [reaction, hnone]

lemma retriesAfter_append_singleton (before : List SessionOutcome) (outcome : SessionOutcome) :
    retriesAfter (before ++ [outcome]) = (retriesAfter before).bind fun retries =>
      if outcome.failed then if maxRetries < retries + 1 then none else some (retries + 1)
      else some 0 := by
  rw [retriesAfter, List.foldlM_append, retriesAfter]
  refine congrArg _ (funext fun retries => ?_)
  rw [List.foldlM_cons]
  cases hfailed : outcome.failed with
  | false => rw [reaction_of_not_failed hfailed]; rfl
  | true =>
      obtain ⟨e, he⟩ := reaction_of_failed hfailed retries
      rw [he, if_pos rfl]
      split_ifs <;> rfl

/-- **The loop counts failures in a row.** -/
lemma retriesAfter_eq_some {retries : ℕ} : retriesAfter sessions = some retries ↔
    Bearable sessions ∧ retries = failuresInRow sessions := by
  induction sessions using List.reverseRecOn generalizing retries with
  | nil =>
      have hbearable : Bearable [] := by
        intro past hpast
        rw [List.prefix_nil.mp hpast]
        exact Nat.zero_le _
      rw [and_iff_right hbearable]
      exact Option.some_inj.trans eq_comm
  | append_singleton before outcome ih =>
      rw [retriesAfter_append_singleton, bearable_append_singleton, failuresInRow_append_singleton,
        Option.bind_eq_some_iff]
      constructor
      · rintro ⟨past, hpast, hstep⟩
        obtain ⟨hbearable, rfl⟩ := ih.mp hpast
        split_ifs at hstep ⊢ with hfailed hmany
        · exact ⟨⟨hbearable, not_lt.mp hmany⟩, (Option.some.inj hstep).symm⟩
        · exact ⟨⟨hbearable, Nat.zero_le _⟩, (Option.some.inj hstep).symm⟩
      · rintro ⟨⟨hbearable, hlast⟩, rfl⟩
        refine ⟨failuresInRow before, ih.mpr ⟨hbearable, rfl⟩, ?_⟩
        split_ifs at hlast ⊢ with hfailed hmany
        · exact absurd hlast (not_le.mpr hmany)
        · rfl
        · rfl

lemma reactionTo_eq_some {r : Reaction} : reactionTo before outcome = some r ↔
    Bearable before ∧ r = (reaction (failuresInRow before) outcome).2 := by
  rw [reactionTo, Option.map_eq_some_iff]
  constructor
  · rintro ⟨retries, hretries, rfl⟩
    obtain ⟨hbearable, rfl⟩ := retriesAfter_eq_some.mp hretries
    exact ⟨hbearable, rfl⟩
  · rintro ⟨hbearable, rfl⟩
    exact ⟨_, retriesAfter_eq_some.mpr ⟨hbearable, rfl⟩, rfl⟩

/-- Where no session that streamed fails before one that did not, all failures in a row are
silent. -/
lemma silentInRow_eq (hsilent : outcome.silent = true)
    (h : ∀ past last next, past ++ [last, next] <+: before ++ [outcome] → last.failed = true →
      next.silent = true → last.silent = true) :
    silentInRow (before ++ [outcome]) = failuresInRow (before ++ [outcome]) := by
  have hfailed : outcome.failed = true := (Bool.and_eq_true_iff.mp hsilent).1
  rw [silentInRow_append_singleton, failuresInRow_append_singleton, if_pos hsilent, if_pos hfailed]
  induction before using List.reverseRecOn generalizing outcome with
  | nil => rfl
  | append_singleton past last ih =>
      rw [silentInRow_append_singleton, failuresInRow_append_singleton]
      cases hlast : last.failed with
      | false =>
          have hloud : last.silent = false := by rw [SessionOutcome.silent, hlast]; rfl
          rw [hloud]
          rfl
      | true =>
          have hquiet := h past last outcome (by simp) hlast hsilent
          rw [hquiet, if_pos rfl, if_pos rfl, ih hquiet ?_ hlast]
          intro past' last' next hpast
          exact h past' last' next (hpast.trans (List.prefix_append _ _))

/-! ## One session -/

/-- The client does as it should behind a session. -/
def Fair (before : List SessionOutcome) (outcome : SessionOutcome) (r : Reaction) : Prop :=
  (∀ e, r = .reraise e → maxRetries < silentInRow (before ++ [outcome])) ∧
    ∀ k, silentInRow (before ++ [outcome]) = k → 0 < k → k ≤ maxRetries →
      r = .sleep (min (2 ^ k) backoffCap)

lemma givesUpOnlyOnOutage_iff : GivesUpOnlyOnOutage sessions ↔
    ∀ before outcome, before ++ [outcome] <+: sessions → Bearable before →
      Fair before outcome (reaction (failuresInRow before) outcome).2 := by
  constructor
  · intro h before outcome hbefore hbearable
    exact h before outcome hbefore _ (reactionTo_eq_some.mpr ⟨hbearable, rfl⟩)
  · intro h before outcome hbefore r hr
    obtain ⟨hbearable, rfl⟩ := reactionTo_eq_some.mp hr
    exact h before outcome hbefore hbearable

/-- A session that returns is followed by the next. -/
lemma fair_of_not_failed (h : outcome.failed = false) :
    Fair before outcome (reaction (failuresInRow before) outcome).2 := by
  have hloud : outcome.silent = false := by rw [SessionOutcome.silent, h]; rfl
  rw [reaction_of_not_failed h, Fair, silentInRow_append_singleton, hloud]
  refine ⟨fun e he => ?_, fun k hk hpos => ?_⟩
  · cases he
  · exact absurd hk hpos.ne

/-- A session that streamed and failed must not be one failure too many. -/
lemma fair_iff_of_streamed (hfailed : outcome.failed = true) (hproduced : outcome.produced ≠ 0) :
    Fair before outcome (reaction (failuresInRow before) outcome).2 ↔
      failuresInRow before < maxRetries := by
  obtain ⟨e, he⟩ := reaction_of_failed hfailed (failuresInRow before)
  have hloud : outcome.silent = false := by simp [SessionOutcome.silent, hproduced]
  rw [he, Fair, silentInRow_append_singleton, hloud]
  constructor
  · rintro ⟨hreraise, -⟩
    by_contra hmany
    rw [if_pos (by omega)] at hreraise
    exact absurd (hreraise e rfl) (Nat.not_lt_zero _)
  · intro hfew
    rw [if_neg (by omega)]
    refine ⟨fun e he => ?_, fun k hk hpos => ?_⟩
    · cases he
    · exact absurd hk hpos.ne

/-- A silent failure is waited for as long as the retries count the silent ones. -/
lemma fair_of_count (hfailed : outcome.failed = true)
    (hcount : silentInRow (before ++ [outcome]) = failuresInRow before + 1) :
    Fair before outcome (reaction (failuresInRow before) outcome).2 := by
  obtain ⟨e, he⟩ := reaction_of_failed hfailed (failuresInRow before)
  rw [he, Fair, hcount]
  refine ⟨fun e he => ?_, fun k hk hpos hk' => ?_⟩
  · split_ifs at he with hover
    exact hover
  · subst hk
    rw [if_neg (not_lt.mpr hk')]

/-- Behind a failure that streamed, the wait for a silent one is too long. -/
lemma not_fair_behind_streamed {past : List SessionOutcome} {last : SessionOutcome}
    (hlast : last.failed = true) (hstreamed : last.produced ≠ 0) (hsilent : outcome.silent = true) :
    ¬ Fair (past ++ [last]) outcome (reaction (failuresInRow (past ++ [last])) outcome).2 := by
  intro hfair
  obtain ⟨e, he⟩ := reaction_of_failed (Bool.and_eq_true_iff.mp hsilent).1
    (failuresInRow (past ++ [last]))
  have hloud : last.silent = false := by simp [SessionOutcome.silent, hstreamed]
  have hcount : silentInRow (past ++ [last] ++ [outcome]) = 1 := by
    rw [silentInRow_append_singleton, silentInRow_append_singleton, hsilent, hloud]
    rfl
  have hfailures : failuresInRow (past ++ [last]) = failuresInRow past + 1 := by
    rw [failuresInRow_append_singleton, hlast]
    rfl
  -- the count is one, but the wait is that of a later failure
  have hwait := hfair.2 1 hcount one_pos (by decide)
  rw [he, hfailures] at hwait
  split_ifs at hwait
  rw [Reaction.sleep.injEq, backoffCap] at hwait
  have hpow : 2 ^ 2 ≤ 2 ^ (failuresInRow past + 1 + 1) := Nat.pow_le_pow_right two_pos (by omega)
  omega

end Loop

/-- **When the client gives up only on an outage**: among the sessions it gets to, no session that
failed after producing events is directly followed by one that failed without, or is itself one
failure too many. -/
theorem gives_up_only_on_outage_iff (sessions : List SessionOutcome) :
    GivesUpOnlyOnOutage sessions ↔
      ∀ before outcome, before ++ [outcome] <+: sessions → Bearable before →
        outcome.failed = true →
          (outcome.produced ≠ 0 → failuresInRow before < maxRetries) ∧
          (outcome.produced = 0 → ∀ last ∈ before.getLast?, last.failed = true →
            last.produced = 0) := by
  rw [givesUpOnlyOnOutage_iff]
  constructor
  · intro h before outcome hbefore hbearable hfailed
    have hfair := h before outcome hbefore hbearable
    refine ⟨fun hproduced => (fair_iff_of_streamed hfailed hproduced).mp hfair, ?_⟩
    intro hproduced last hlast hlastFailed
    by_contra hstreamed
    have hsilent : outcome.silent = true := by simp [SessionOutcome.silent, hfailed, hproduced]
    obtain ⟨past, rfl⟩ := List.getLast?_eq_some_iff.mp hlast
    exact not_fair_behind_streamed hlastFailed hstreamed hsilent hfair
  · intro h before outcome hbefore hbearable
    cases hfailed : outcome.failed with
    | false => exact fair_of_not_failed hfailed
    | true =>
        by_cases hproduced : outcome.produced = 0
        · have hsilent : outcome.silent = true := by
            simp [SessionOutcome.silent, hfailed, hproduced]
          refine fair_of_count hfailed ?_
          rw [silentInRow_eq hsilent ?_, failuresInRow_append_singleton, if_pos hfailed]
          -- all failures before it were within bounds, so the condition applies to them too
          intro past last next hpast hlast hnext
          have hstep : (past ++ [last]) ++ [next] <+: before ++ [outcome] := by simpa using hpast
          have hpast' : past ++ [last] <+: before := by
            rcases List.prefix_concat_iff.mp hstep with heq | hprefix
            · exact (List.append_inj_left' heq rfl) ▸ List.prefix_refl _
            · exact (List.prefix_append _ _).trans hprefix
          obtain ⟨hnextFailed, hnextProduced⟩ := Bool.and_eq_true_iff.mp hnext
          have hstreamed := (h _ next (hstep.trans hbefore)
            (fun p hp => hbearable p (hp.trans hpast')) hnextFailed).2
            (of_decide_eq_true hnextProduced) last (by simp) hlast
          simp [SessionOutcome.silent, hlast, hstreamed]
        · exact (fair_iff_of_streamed hfailed hproduced).mpr
            ((h before outcome hbefore hbearable hfailed).1 hproduced)

/-- **Eleven days of streaming** end the client, if each day ends with a lost connection. -/
theorem streaming_sessions_exhaust_retries :
    ¬ ∀ sessions, GivesUpOnlyOnOutage sessions := by
  intro h
  have hrun := h (List.replicate 11 ⟨1000, some (.connectionError)⟩) (List.replicate 10 _) _
    (List.prefix_refl _) (.reraise .connectionError) (by decide)
  exact absurd (hrun.1 _ rfl) (by decide)

end Ticksense
