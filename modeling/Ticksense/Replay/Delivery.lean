import Ticksense.Replay.Budget

/-!
# What a live replay has delivered

`events_produced` counts the sends when they are enqueued.  Nobody waits for their outcomes, and the
producer is given the name of the target topic as the address of its brokers.

* `durable` — how many records have arrived in the target topic on the brokers of the settings.
* `Outcomes` — the invariant: every send is on its way, or appended once, or has failed.
* `produced_eq_durable_iff` — `events_produced` is that number if and only if every send has
  succeeded, on those brokers.  `failed_sends_are_counted` is a replay that returns with failed ones.
-/

namespace Ticksense

/-- The address given to the producer leads to the brokers of the settings. -/
def SameBrokers (out : Outside) (args : ReplayArgs) : Prop :=
  out.cluster args.settings.targetTopic = out.cluster args.settings.kafkaBootstrapServers

instance (out : Outside) (args : ReplayArgs) : Decidable (SameBrokers out args) :=
  inferInstanceAs (Decidable (_ = _))

/-- The records of a replay in the target topic, on the brokers of the settings. -/
def durable (out : Outside) (args : ReplayArgs) (s : ReplayState) : ℕ :=
  if SameBrokers out args then s.appended.length else 0

/-! ## Outcomes -/

/-- No send is handled twice, only the delivered ones are appended, and none is pending when the
replay has returned. -/
structure Outcomes (out : Outside) (s : ReplayState) : Prop where
  once : (s.pending ++ s.appended).Nodup
  delivered : ∀ m ∈ s.appended, out.delivered m.index = true
  flushed : s.control = .returned → s.pending = []

section Steps

variable {out : Outside} {args : ReplayArgs} {dryRun : Bool} {s t : ReplayState}
  {loop : PartitionReplay}

lemma Outcomes.startFrom (source : String) (ranges : List OffsetRange) :
    Outcomes out (replayFrom out args dryRun source ranges) :=
  ⟨.nil, by simp [replayFrom], fun _ => rfl⟩

lemma Outcomes.leave (h : Outcomes out s) : Outcomes out (s.leave loop) :=
  ⟨h.once, h.delivered, by simp [ReplayState.leave]⟩

/-- A send gets a number that no earlier one has. -/
lemma Outcomes.count (h : Outcomes out s) (hbooks : Books out args dryRun s) (offset : ℤ)
    (record : Record) : Outcomes out (s.count dryRun loop offset record) := by
  cases dryRun with
  | true => exact ⟨h.once, h.delivered, by simp [ReplayState.count]⟩
  | false =>
      refine ⟨?_, h.delivered, by simp [ReplayState.count]⟩
      have hnew : ∀ m ∈ s.pending ++ s.appended,
          m ≠ (⟨s.sent.length, record.key, record.value⟩ : Send) := by
        rintro m hm rfl
        have := hbooks.index_lt (hbooks.enqueued _ (List.mem_append.mp hm))
        simp at this
      simp only [ReplayState.count, Bool.false_eq_true, if_false, ReplayState.send]
      rw [List.append_assoc, List.singleton_append, List.perm_middle.nodup_iff, List.nodup_cons]
      exact ⟨fun hm => hnew _ hm rfl, h.once⟩

lemma Outcomes.advanced (h : Outcomes out s) (hbooks : Books out args dryRun s)
    (hstep : Advanced args dryRun s t) : Outcomes out t := by
  cases hstep with
  | halt => exact ⟨h.once, h.delivered, by simp⟩
  | enter => exact ⟨h.once, h.delivered, by simp⟩
  | leave => exact h.leave
  | count loop offset record => exact h.count hbooks offset record
  | finish _ hpending => exact ⟨h.once, h.delivered, fun _ => hpending⟩

lemma Outcomes.handled (h : Outcomes out s) {m : Send} (hm : m ∈ s.pending) :
    Outcomes out (s.handled out args m) := by
  have hsame : (s.pending.erase m ++ (s.appended ++ [m])).Perm (s.pending ++ s.appended) := by
    rw [← List.append_assoc]
    refine List.perm_append_comm.trans ?_
    rw [List.singleton_append, ← List.cons_append]
    exact (List.perm_cons_erase hm).symm.append_right _
  have hflushed : s.control = .returned → s.pending.erase m = [] := by
    intro hreturned
    rw [h.flushed hreturned] at hm
    cases hm
  rw [ReplayState.handled]
  by_cases hdelivered : out.delivered m.index = true
  · rw [if_pos hdelivered]
    refine ⟨hsame.nodup_iff.mpr h.once, ?_, hflushed⟩
    intro m' hm'
    rcases List.mem_append.mp hm' with hold | hnew
    · exact h.delivered m' hold
    · rw [List.mem_singleton.mp hnew]
      exact hdelivered
  · rw [if_neg hdelivered]
    exact ⟨h.once.sublist (List.erase_sublist.append_right _), h.delivered, hflushed⟩

/-- **One step**, the ends of streams included. -/
lemma Outcomes.step (h : Outcomes out s) (hbooks : Books out args dryRun s)
    (hstep : StreamStep out args dryRun s t) : Outcomes out t ∧ Books out args dryRun t := by
  cases hstep with
  | replay hstep =>
      refine ⟨?_, hbooks.step hstep⟩
      cases hstep with
      | advance hadvance => exact h.advanced hbooks (advance_eq_some_iff.mp hadvance)
      | deliver m hdeliver =>
          obtain ⟨hm, _, rfl⟩ := deliver_eq_some_iff.mp hdeliver
          exact h.handled hm
  | exhausted loop _ hcontrol _ => exact ⟨h.leave, hbooks.leave hcontrol⟩

/-- **Every run** keeps track of its sends. -/
lemma outcomes_of_reaches {source : String} {ranges : List OffsetRange}
    (hreach : Machine.Reaches (StreamStep out args dryRun)
      (replayFrom out args dryRun source ranges) s) :
    Outcomes out s ∧ Books out args dryRun s :=
  Machine.invariant (P := fun s => Outcomes out s ∧ Books out args dryRun s)
    (fun _ _ hs hstep => hs.1.step hs.2 hstep) ⟨.startFrom source ranges, .startFrom source ranges⟩
    hreach

/-- With no send on its way, the appended sends are the delivered ones. -/
lemma Outcomes.appended_perm (h : Outcomes out s) (hbooks : Books out args dryRun s)
    (hpending : s.pending = []) :
    s.appended.Perm (s.sent.filter fun m => out.delivered m.index) := by
  have honce := h.once
  rw [hpending, List.nil_append] at honce
  have hsent : s.sent.Nodup := by
    refine List.Nodup.of_map Send.index ?_
    rw [hbooks.numbered]
    exact List.nodup_range
  refine (List.perm_ext_iff_of_nodup honce (hsent.filter _)).mpr fun m => ?_
  rw [List.mem_filter]
  constructor
  · intro hm
    exact ⟨hbooks.enqueued m (Or.inr hm), h.delivered m hm⟩
  · rintro ⟨hm, hdelivered⟩
    exact (hbooks.kept m hm hdelivered).resolve_left (by simp [hpending])

end Steps

/-! ## What is reported -/

/-- **When the report of a live replay is true.**  Whenever a live replay over any list of ranges
returns, `events_produced` is the number of records that have arrived in the target topic on the
brokers of the settings, if and only if each of its sends was delivered, and to those brokers. -/
theorem produced_eq_durable_iff (out : Outside) (args : ReplayArgs) (source : String)
    (ranges : List OffsetRange) (s : ReplayState)
    (hreach : Machine.Reaches (StreamStep out args false)
      (replayFrom out args false source ranges) s) (hreturned : s.control = .returned) :
    durable out args s = s.stats.eventsProduced ↔
      ∀ m ∈ s.sent, SameBrokers out args ∧ out.delivered m.index = true := by
  obtain ⟨houtcomes, hbooks⟩ := outcomes_of_reaches hreach
  have hproduced := hbooks.produced
  rw [hreturned] at hproduced
  simp only [Control.eventsProduced, Nat.add_zero] at hproduced
  have hlength := (houtcomes.appended_perm hbooks (houtcomes.flushed hreturned)).length_eq
  rw [durable, hproduced]
  by_cases hsame : SameBrokers out args
  · rw [if_pos hsame, hlength, List.length_filter_eq_length_iff]
    simp only [hsame, true_and]
  · rw [if_neg hsame, eq_comm, List.length_eq_zero_iff, List.eq_nil_iff_forall_not_mem]
    simp only [hsame, false_and, imp_false]

/-- The same where every send arrives. -/
def arrivingOutside : Outside :=
  { evenOutside with delivered := fun _ => true }

/-- Two records, one of each partition, and both arrive. -/
theorem produced_eq_durable_iff_sample : ∃ s : ReplayState, s.control = .returned ∧
    s.stats.eventsProduced = 2 ∧ durable arrivingOutside twoEvents s = s.stats.eventsProduced := by
  refine ⟨_, ?_, ?_, (produced_eq_durable_iff arrivingOutside twoEvents "iceberg"
    [⟨0, 0, 1⟩, ⟨1, 0, 2⟩] _
    (reaches_streamStep (reaches_runFor arrivingOutside twoEvents false 20 _)) ?_).mpr ?_⟩
  · rfl
  · rfl
  · rfl
  · exact fun m _ => ⟨rfl, rfl⟩

/-- **Failed sends are counted.**  Both sends of this replay fail; it returns, and reports two. -/
theorem failed_sends_are_counted :
    ¬ ∀ (out : Outside) (args : ReplayArgs) (source : String) (ranges : List OffsetRange)
      (s : ReplayState),
      Machine.Reaches (ReplayStep out args false) (replayFrom out args false source ranges) s →
      s.control = .returned → durable out args s = s.stats.eventsProduced := by
  intro h
  have hdurable := h evenOutside twoEvents "iceberg" [⟨0, 0, 1⟩, ⟨1, 0, 2⟩] _
    (reaches_runFor evenOutside twoEvents false 20 _) rfl
  revert hdurable
  decide +kernel

end Ticksense
