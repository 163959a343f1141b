import Ticksense.Replay.Delivery

/-!
# The copies that come back

When the target topic is the source topic, each partition is what it was before the replay, followed
by the copies that have come back to it, one right behind the other.

* `copies` — the copies in a partition, in their order.
* `Tracked` — the invariant that ties the logs to the sends.
* `copies_length_le`, `exists_pending_copy` — how many there are, and that one more is on its way as
  long as a send to the partition has not been handled.
-/

namespace Ticksense

section Machine

variable (out : Outside) (args : ReplayArgs)

/-- The copies that have come back to a partition. -/
def copies (s : ReplayState) (partition : ℤ) : List Record :=
  if loopsBack out args then
    (s.appended.filter fun m => out.route m.index = partition).map (Send.record out)
  else []

/-- The send arrives, and in this partition. -/
def arrives (partition : ℤ) (i : ℕ) : Bool :=
  out.delivered i && out.route i = partition

/-- How many of the first `n` records read come back to a partition. -/
def copiesTo (dryRun : Bool) (partition : ℤ) (n : ℕ) : ℕ :=
  if dryRun = false ∧ loopsBack out args = true then (List.range n).countP (arrives out partition)
  else 0

/-- What has been sent is where the logs say. -/
structure Tracked (dryRun : Bool) (s : ReplayState) : Prop where
  books : Books out args dryRun s
  outcomes : Outcomes out s
  logs : ∀ p, s.log p = (out.topic.log p).appendAll (copies out args s p)

end Machine

variable {out : Outside} {args : ReplayArgs} {dryRun : Bool} {s t : ReplayState}

/-! ## Steps -/

lemma copies_handled (s : ReplayState) (m : Send) (p : ℤ) :
    copies out args (s.handled out args m) p =
      if out.delivered m.index = true ∧ loopsBack out args = true ∧ out.route m.index = p then
        copies out args s p ++ [m.record out]
      else copies out args s p := by
  rw [copies, copies, ReplayState.handled]
  by_cases hdelivered : out.delivered m.index = true
  · by_cases hback : loopsBack out args = true
    · by_cases hroute : out.route m.index = p
      · simp [hdelivered, hback, hroute, List.filter_append]
      · simp [hdelivered, hback, hroute, List.filter_append]
    · simp [hdelivered, hback]
  · simp [hdelivered]

lemma log_handled_apply (s : ReplayState) (m : Send) (p : ℤ) :
    (s.handled out args m).log p =
      if out.delivered m.index = true ∧ loopsBack out args = true ∧ out.route m.index = p then
        (s.log p).append (m.record out)
      else s.log p := by
  rw [ReplayState.handled]
  by_cases hdelivered : out.delivered m.index = true
  · by_cases hback : loopsBack out args = true
    · by_cases hroute : out.route m.index = p
      · subst hroute
        simp [hdelivered, hback]
      · have hother : p ≠ out.route m.index := fun heq => hroute heq.symm
        simp [hdelivered, hback, hroute, Function.update_of_ne hother]
    · simp [hdelivered, hback]
  · simp [hdelivered]

lemma Tracked.step (h : Tracked out args dryRun s) (hstep : ReplayStep out args dryRun s t) :
    Tracked out args dryRun t := by
  obtain ⟨houtcomes, hbooks⟩ := h.outcomes.step h.books (.replay hstep)
  refine ⟨hbooks, houtcomes, ?_⟩
  cases hstep with
  | advance hadvance =>
      cases advance_eq_some_iff.mp hadvance with
      | count => cases dryRun <;> exact h.logs
      | _ => exact h.logs
  | deliver m hdeliver =>
      obtain ⟨_, _, rfl⟩ := deliver_eq_some_iff.mp hdeliver
      intro p
      rw [copies_handled, log_handled_apply]
      split_ifs
      · rw [OffsetLog.appendAll_append, ← h.logs]
      · exact h.logs p

lemma Tracked.start : Tracked out args dryRun (replayStart out args dryRun) := by
  refine ⟨.start, ⟨?_, ?_, fun _ => replayStart_pending out args dryRun⟩, fun p => ?_⟩
  · simp
  · simp
  · simp [copies, OffsetLog.appendAll]

/-! ## Counting the copies -/

lemma Tracked.sent_countP (h : Tracked out args dryRun s) (p : ℤ) :
    (s.sent.filter fun m => arrives out p m.index).length =
      (List.range s.sent.length).countP (arrives out p) := by
  rw [← h.books.numbered, List.countP_map, ← List.countP_eq_length_filter]
  rfl

lemma Tracked.sent_nodup (h : Tracked out args dryRun s) : s.sent.Nodup := by
  refine List.Nodup.of_map Send.index ?_
  rw [h.books.numbered]
  exact List.nodup_range

lemma Tracked.appended_nodup (h : Tracked out args dryRun s) : s.appended.Nodup :=
  (List.nodup_append.mp h.outcomes.once).2.1

/-- A live replay has sent what it has read. -/
lemma Tracked.copiesTo_eq (h : Tracked out args dryRun s) (hback : loopsBack out args = true)
    {m : Send} (hm : m ∈ s.sent) (p : ℤ) :
    copiesTo out args dryRun p s.read.length =
      (s.sent.filter fun m => arrives out p m.index).length := by
  have hlength := h.books.sent_length
  have hpos := List.length_pos_of_mem hm
  cases dryRun with
  | true =>
      rw [if_pos rfl] at hlength
      omega
  | false =>
      rw [if_neg (by simp)] at hlength
      rw [copiesTo, if_pos ⟨rfl, hback⟩, h.sent_countP, hlength]

/-- There are no more copies in a partition than sends that arrive there. -/
lemma Tracked.copies_length_le (h : Tracked out args dryRun s) (p : ℤ) :
    (copies out args s p).length ≤ copiesTo out args dryRun p s.read.length := by
  rw [copies]
  split_ifs with hback
  · rw [List.length_map]
    cases hhere : s.appended.filter fun m => out.route m.index = p with
    | nil => simp
    | cons m rest =>
        have hm : m ∈ s.appended := List.mem_of_mem_filter (hhere ▸ List.mem_cons_self)
        rw [h.copiesTo_eq hback (h.books.enqueued m (Or.inr hm)), ← hhere]
        refine (List.subperm_of_subset (h.appended_nodup.filter _) ?_).length_le
        intro m' hm'
        obtain ⟨happended, hroute⟩ := List.mem_filter.mp hm'
        refine List.mem_filter.mpr ⟨h.books.enqueued m' (Or.inr happended), ?_⟩
        simpa [arrives, h.outcomes.delivered m' happended] using hroute
  · exact Nat.zero_le _

/-- With fewer copies than sends that arrive, one is pending; some send is first in the queue of its
partition. -/
lemma Tracked.exists_pending_copy (h : Tracked out args dryRun s) {p : ℤ}
    (hlt : (copies out args s p).length < copiesTo out args dryRun p s.read.length) :
    ∃ m ∈ s.pending, out.route m.index = p ∧
      ∀ m' ∈ s.pending, m'.index < m.index → out.route m'.index ≠ p := by
  have hback : loopsBack out args = true := by
    by_contra hno
    rw [copiesTo, if_neg (fun hand => hno hand.2)] at hlt
    omega
  have hlive : dryRun = false := by
    by_contra hno
    rw [copiesTo, if_neg (fun hand => hno hand.1)] at hlt
    omega
  have hlength := h.books.sent_length
  rw [hlive, if_neg (by simp)] at hlength
  rw [copies, if_pos hback, List.length_map, copiesTo, if_pos ⟨hlive, hback⟩, ← hlength,
    ← h.sent_countP] at hlt
  have hmissing : ∃ m ∈ s.pending, out.route m.index = p := by
    by_contra hnone
    refine absurd hlt (not_lt.mpr (List.subperm_of_subset (h.sent_nodup.filter _) ?_).length_le)
    intro m hm
    obtain ⟨hsent, harrives⟩ := List.mem_filter.mp hm
    simp only [arrives, Bool.and_eq_true, decide_eq_true_eq] at harrives
    refine List.mem_filter.mpr ⟨?_, by simpa using harrives.2⟩
    rcases h.books.kept m hsent harrives.1 with hpending | happended
    · exact absurd ⟨m, hpending, harrives.2⟩ hnone
    · exact happended
  exact exists_first (P := fun m => out.route m.index = p) hmissing

/-! ## What the consumer gets -/

/-- The offset of the first copy that a reader at the start of the range can get. -/
def OffsetRange.base (topic : Topic) (range : OffsetRange) : ℤ :=
  max range.startOffset (topic.log range.partition).logEnd

/-- How many copies lie before it. -/
def OffsetRange.skipped (topic : Topic) (range : OffsetRange) : ℕ :=
  (range.base topic - (topic.log range.partition).logEnd).toNat

lemma Tracked.fetch_of_cons (h : Tracked out args dryRun s) {loop : PartitionReplay}
    {e : ℤ × Record} {later : List (ℤ × Record)}
    (hsince : (out.topic.log loop.range.partition).since loop.position = e :: later) :
    (s.log loop.range.partition).fetch loop.position = some e := by
  rw [h.logs]
  exact OffsetLog.fetch_appendAll_of_cons hsince _

lemma Tracked.fetch_of_nil (h : Tracked out args dryRun s) {loop : PartitionReplay}
    (hsince : (out.topic.log loop.range.partition).since loop.position = [])
    (hle : loop.position ≤ (s.log loop.range.partition).logEnd) :
    (s.log loop.range.partition).fetch loop.position =
      (copies out args s loop.range.partition)[loop.rest.skipped out.topic]?.map
        fun record => (loop.rest.base out.topic, record) := by
  rw [h.logs, OffsetLog.logEnd_appendAll] at hle
  rw [h.logs, OffsetLog.fetch_appendAll_of_nil hsince hle]
  rfl

/-- A copy has the payload of one of the records read. -/
lemma Tracked.payload_of_copy (h : Tracked out args dryRun s) {p : ℤ} {copy : Record}
    (hcopy : copy ∈ copies out args s p) :
    (copy.key, copy.value) ∈ s.read.map SourceRecord.payload := by
  rw [copies] at hcopy
  split_ifs at hcopy
  · obtain ⟨m, hm, rfl⟩ := List.mem_map.mp hcopy
    have hsent := h.books.enqueued m (Or.inr (List.mem_of_mem_filter hm))
    have hpayload : m.payload ∈ s.sent.map Send.payload := List.mem_map_of_mem hsent
    rw [h.books.sent] at hpayload
    split_ifs at hpayload
    · cases hpayload
    · exact hpayload
  · cases hcopy

end Ticksense
