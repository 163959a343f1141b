import Ticksense.Replay.Budget

/-!
# Streams that do not grow

Where nothing comes back to the source topic, the ranges and the logs alone say what a replay reads.
A range that begins past the end of its partition is read from the earliest record on
(`auto_offset_reset="earliest"`), and only the end of the range is tested.

* `handedFrom` — what the consumer of a range is handed, and `Streaming`, the invariant: what has
  been read, followed by what is ahead as far as the budget goes, stays the same.
* `replay_accounts_iff` — the accounts are exact in every run that returns if and only if the ranges
  that are opened do not begin past the end of their partitions.
* `record_before_range_is_counted` — one that does.
-/

namespace Ticksense

/-- What the consumer of a range is handed from a position on. -/
def handedFrom (topic : Topic) (range : OffsetRange) (position : ℤ) : List SourceRecord :=
  (((topic.log range.partition).unread position).filter (·.1 < range.endOffset)).map
    (placed range.partition)

/-- What it is handed altogether. -/
def OffsetRange.handed (topic : Topic) (range : OffsetRange) : List SourceRecord :=
  handedFrom topic range range.startOffset

/-- What is ahead of a replay. -/
def ReplayState.streamAhead (topic : Topic) (s : ReplayState) : List SourceRecord :=
  match s.control with
  | .next => s.ranges.flatMap (OffsetRange.handed topic)
  | .reading loop =>
      handedFrom topic loop.range loop.position ++ s.ranges.flatMap (OffsetRange.handed topic)
  | _ => []

/-- The replay is on the way to reading `R`. -/
structure Streaming (out : Outside) (args : ReplayArgs) (dryRun : Bool) (R : List SourceRecord)
    (s : ReplayState) : Prop where
  books : Books out args dryRun s
  grown : Grown out args s
  plan : s.read ++ capped args.maxEvents s.read.length (s.streamAhead out.topic) = R
  calm : ∀ e, s.control ≠ .raised e

section Steps

variable {out : Outside} {args : ReplayArgs} {dryRun : Bool} {R : List SourceRecord}
  {s t : ReplayState} {loop : PartitionReplay} {ranges : List OffsetRange}

lemma handedFrom_of_fetch {topic : Topic} {range : OffsetRange} {position : ℤ} {e : ℤ × Record}
    (hfetch : (topic.log range.partition).fetch position = some e) :
    handedFrom topic range position =
      if e.1 < range.endOffset then placed range.partition e :: handedFrom topic range (e.1 + 1)
      else [] := by
  rw [OffsetLog.fetch_eq_head?] at hfetch
  obtain ⟨rest, hunread⟩ : ∃ rest, (topic.log range.partition).unread position = e :: rest :=
    List.head?_eq_some_iff.mp hfetch
  rw [handedFrom, handedFrom, hunread, OffsetLog.unread_succ hunread]
  split_ifs with hlt
  · rw [List.filter_cons_of_pos (by simpa using hlt), List.map_cons]
  · have hsorted := (topic.log range.partition).unread_sorted position
    rw [hunread, List.pairwise_cons] at hsorted
    rw [List.map_eq_nil_iff, List.filter_eq_nil_iff]
    intro x hx
    rcases List.mem_cons.mp hx with rfl | hx
    · simpa using hlt
    · have := hsorted.1 x hx
      simp only [decide_eq_true_eq]
      omega

/-- With the budget used up or nothing ahead, everything has been read. -/
lemma Streaming.read_eq (h : Streaming out args dryRun R s)
    (hdone : s.streamAhead out.topic = [] ∨ budgetSpent args.maxEvents s.read.length = true) :
    s.read = R := by
  rcases hdone with hnil | hspent
  · simpa [hnil] using h.plan
  · simpa [capped_of_spent hspent] using h.plan

/-- A range is left with nothing of it ahead. -/
lemma Streaming.leave (h : Streaming out args dryRun R s) (hcontrol : s.control = .reading loop)
    (hdone : handedFrom out.topic loop.range loop.position = [] ∨
      budgetSpent args.maxEvents s.read.length = true) :
    Streaming out args dryRun R (s.leave loop) := by
  refine ⟨h.books.leave hcontrol, h.grown, ?_, fun e => Control.noConfusion⟩
  have hplan := h.plan
  simp only [ReplayState.streamAhead, hcontrol] at hplan
  rcases hdone with hnil | hspent
  · rwa [hnil, List.nil_append] at hplan
  · rw [capped_of_spent hspent] at hplan
    show s.read ++ capped args.maxEvents s.read.length _ = R
    rwa [capped_of_spent hspent]

/-- **One pass of the machine** where nothing comes back. -/
lemma Streaming.advanced (h : Streaming out args dryRun R s) (hquiet : Quiet out args dryRun)
    (hstep : Advanced args dryRun s t) :
    Streaming out args dryRun R t ∧ t.distance R < s.distance R := by
  have hbooks := h.books.advanced hstep
  have hgrown := h.grown.advanced hstep
  have hplan := h.plan
  cases hstep with
  | halt hcontrol hdone =>
      refine ⟨⟨hbooks, hgrown, ?_, fun e => Control.noConfusion⟩, ?_⟩
      · rw [ReplayState.streamAhead, capped_nil, List.append_nil]
        refine h.read_eq (hdone.imp (fun hnil => ?_) fun hspent => ?_)
        · simp [ReplayState.streamAhead, hcontrol, hnil]
        · exact h.books.read_of_next hcontrol ▸ hspent
      · simp only [ReplayState.distance, hcontrol]
        omega
  | enter range rest hcontrol hranges hbudget =>
      refine ⟨⟨hbooks, hgrown, ?_, fun e => Control.noConfusion⟩, ?_⟩
      · simpa only [ReplayState.streamAhead, hcontrol, hranges, List.flatMap_cons,
          OffsetRange.handed] using hplan
      · simp only [ReplayState.distance, hcontrol, hranges, List.length_cons]
        omega
  | leave loop offset record hcontrol hfetch hstops =>
      refine ⟨h.leave hcontrol ?_, distance_leave s hcontrol⟩
      refine ((h.books.stops_iff hcontrol offset).mp hstops).imp_left fun hge => ?_
      rw [h.grown.log_eq h.books hquiet] at hfetch
      rw [handedFrom_of_fetch hfetch, if_neg (not_lt.mpr hge)]
  | count loop offset record hcontrol hfetch hstops =>
      have hgoes := mt (h.books.stops_iff hcontrol offset).mpr (by simp [hstops])
      rw [not_or, not_le, Bool.not_eq_true] at hgoes
      rw [h.grown.log_eq h.books hquiet] at hfetch
      simp only [ReplayState.streamAhead, hcontrol] at hplan
      rw [handedFrom_of_fetch hfetch, if_pos hgoes.1, List.cons_append, capped_cons hgoes.2] at hplan
      obtain ⟨loop', hloop', hrange, _, hposition, _⟩ := control_count dryRun s loop offset record
      refine ⟨⟨hbooks, hgrown, ?_, ?_⟩, distance_count s hcontrol offset record ?_⟩
      · simp only [ReplayState.streamAhead, hloop', hrange, hposition, ranges_count, read_count,
          List.length_append, List.length_singleton, List.append_assoc, List.singleton_append]
        exact hplan
      · rw [hloop']
        exact fun e => Control.noConfusion
      · rw [← hplan, List.length_append, List.length_cons]
        omega
  | finish hcontrol hpending =>
      refine ⟨⟨hbooks, hgrown, ?_, fun e => Control.noConfusion⟩, ?_⟩
      · simpa only [ReplayState.streamAhead, hcontrol] using hplan
      · simp only [ReplayState.distance, hcontrol]
        omega

/-- **One step**, the broker's steps and the ends of streams included. -/
lemma Streaming.step (h : Streaming out args dryRun R s) (hquiet : Quiet out args dryRun)
    (hstep : StreamStep out args dryRun s t) :
    Streaming out args dryRun R t ∧ t.distance R < s.distance R := by
  cases hstep with
  | replay hstep =>
      cases hkind : hstep with
      | advance hadvance => exact h.advanced hquiet (advance_eq_some_iff.mp hadvance)
      | deliver m hdeliver =>
          obtain ⟨hm, _, rfl⟩ := deliver_eq_some_iff.mp hdeliver
          obtain ⟨hcontrol, hranges, hread, _⟩ := handled_frame out args s m
          refine ⟨⟨h.books.step hstep, h.grown.step hstep, ?_, ?_⟩, distance_handled s hm⟩
          · rw [ReplayState.streamAhead, hread, hcontrol, hranges]
            exact h.plan
          · rw [hcontrol]
            exact h.calm
  | exhausted loop _ hcontrol hfetch =>
      refine ⟨h.leave hcontrol (Or.inl ?_), distance_leave s hcontrol⟩
      rw [h.grown.log_eq h.books hquiet, OffsetLog.fetch_eq_head?, List.head?_eq_none_iff] at hfetch
      rw [handedFrom, hfetch]
      rfl

lemma Streaming.startFrom (source : String) (ranges : List OffsetRange) :
    Streaming out args dryRun
      (capped args.maxEvents 0 (ranges.flatMap (OffsetRange.handed out.topic)))
      (replayFrom out args dryRun source ranges) := by
  refine ⟨.startFrom source ranges, fun p => ⟨[], .refl _, by simp [CopyIn, replayFrom]⟩, ?_, ?_⟩
  · simp only [ReplayState.streamAhead, replayFrom]
    split_ifs with hnil
    · simp [hnil]
    · rfl
  · intro e
    simp only [replayFrom]
    split_ifs <;> exact Control.noConfusion

/-- **Every replay of such streams can return, and has then read the first part of what its consumers
are handed.** -/
lemma exists_returned (hquiet : Quiet out args dryRun) (source : String)
    (ranges : List OffsetRange) :
    ∃ s, Machine.Reaches (StreamStep out args dryRun) (replayFrom out args dryRun source ranges) s ∧
      s.control = .returned ∧
      s.read = capped args.maxEvents 0 (ranges.flatMap (OffsetRange.handed out.topic)) := by
  obtain ⟨s, hreach, hstopped⟩ := Machine.exists_stopped (P := Streaming out args dryRun _)
    (fun _ _ hs hstep => hs.step hquiet hstep) (.startFrom source ranges)
  have hs := Machine.invariant (P := Streaming out args dryRun _)
    (fun _ _ hs hstep => (hs.step hquiet hstep).1) (.startFrom source ranges) hreach
  have hreturned : s.control = .returned := by
    rcases stopped_cases (fun t hstep => hstopped t (.replay hstep)) with
      (hreturned | ⟨e, hraised⟩) | ⟨loop, hcontrol, hwaits⟩
    · exact hreturned
    · exact absurd hraised (hs.calm e)
    · exact absurd (.exhausted loop hquiet hcontrol hwaits) (hstopped _)
  exact ⟨s, hreach, hreturned, hs.read_eq (Or.inl (by rw [ReplayState.streamAhead, hreturned]))⟩

end Steps

/-! ## Ranges that begin past the end -/

section Placed

variable {out : Outside} {args : ReplayArgs} {dryRun : Bool} {ranges before after : List OffsetRange}
  {range : OffsetRange}

lemma mem_capped_of_unspent {α : Type} {maxEvents : Option ℤ} {n : ℕ} {l l' : List α} {a : α}
    (h : budgetSpent maxEvents (n + l.length) = false) : a ∈ capped maxEvents n (l ++ a :: l') := by
  have hroom : budgetSpent maxEvents n = false := by
    rw [Bool.eq_false_iff] at h ⊢
    exact fun hspent => h (budgetSpent_mono hspent (by omega))
  induction l generalizing n with
  | nil =>
      rw [List.nil_append, capped_cons hroom]
      exact List.mem_cons_self
  | cons b l ih =>
      rw [List.cons_append, capped_cons hroom]
      rw [List.length_cons, ← Nat.add_assoc, Nat.add_right_comm] at h
      refine List.mem_cons_of_mem b (ih h ?_)
      rw [Bool.eq_false_iff] at h ⊢
      exact fun hspent => h (budgetSpent_mono hspent (by omega))

/-- What the consumer of a range in place is handed are its records. -/
lemma InPlace.handed_eq_records (h : InPlace out args dryRun range) :
    range.handed out.topic = range.records out.topic := by
  have hgrown : Grown out args (replayFrom out args dryRun "iceberg" []) :=
    fun p => ⟨[], .refl _, by simp [CopyIn, replayFrom]⟩
  exact h.handed_eq hgrown (.startFrom "iceberg" []) (exists_handedTo hgrown range)

/-- The first range that is opened and not in place. -/
lemma exists_first_misplaced (h : ¬ AllInPlace out args dryRun ranges) :
    ∃ before range after, ranges = before ++ range :: after ∧
      budgetSpent args.maxEvents (before.flatMap (OffsetRange.records out.topic)).length = false ∧
      ¬ InPlace out args dryRun range ∧ AllInPlace out args dryRun before := by
  classical
  have hsome : ∃ n, ∃ before range after, before.length = n ∧ ranges = before ++ range :: after ∧
      budgetSpent args.maxEvents (before.flatMap (OffsetRange.records out.topic)).length = false ∧
      ¬ InPlace out args dryRun range := by
    simp only [AllInPlace, not_forall] at h
    obtain ⟨before, range, after, hsplit, hroom, hnot⟩ := h
    exact ⟨_, before, range, after, rfl, hsplit, hroom, hnot⟩
  obtain ⟨before, range, after, hlength, hsplit, hroom, hnot⟩ := Nat.find_spec hsome
  refine ⟨before, range, after, hsplit, hroom, hnot, fun first r rest hfirst hopened => ?_⟩
  by_contra hmisplaced
  refine Nat.find_min hsome (m := first.length) ?_
    ⟨first, r, rest ++ range :: after, rfl, ?_, hopened, hmisplaced⟩
  · rw [← hlength, hfirst, List.length_append, List.length_cons]
    omega
  · rw [hsplit, hfirst, List.append_assoc, List.cons_append]

/-- **A range that is opened past the end of its partition** gives the replay a record that lies
before the range. -/
lemma mem_capped_of_misplaced (hquiet : Quiet out args dryRun)
    (hsplit : ranges = before ++ range :: after)
    (hroom : budgetSpent args.maxEvents
      (before.flatMap (OffsetRange.records out.topic)).length = false)
    (hnot : ¬ InPlace out args dryRun range) (hbefore : AllInPlace out args dryRun before) :
    ∃ e : ℤ × Record, e.1 < range.startOffset ∧ placed range.partition e ∈
      capped args.maxEvents 0 (ranges.flatMap (OffsetRange.handed out.topic)) := by
  have hsame : before.flatMap (OffsetRange.handed out.topic)
      = before.flatMap (OffsetRange.records out.topic) := by
    refine List.flatMap_congr fun r hr => ?_
    obtain ⟨first, rest, rfl⟩ := List.append_of_mem hr
    refine (hbefore first r rest rfl ?_).handed_eq_records
    rw [Bool.eq_false_iff] at hroom ⊢
    refine fun hspent => hroom (budgetSpent_mono hspent ?_)
    rw [List.flatMap_append, List.length_append]
    omega
  simp only [InPlace, not_or, not_and, not_le] at hnot
  obtain ⟨hpast, hopen⟩ := hnot
  obtain ⟨e, he, hlt⟩ : ∃ e ∈ (out.topic.log range.partition).entries, e.1 < range.endOffset := by
    by_contra hnone
    simp only [not_exists, not_and, not_lt] at hnone
    exact (hopen hnone).2 hquiet
  have hunread : (out.topic.log range.partition).unread range.startOffset
      = (out.topic.log range.partition).entries := if_pos hpast
  have hhanded : range.handed out.topic = ((out.topic.log range.partition).entries.filter
      (·.1 < range.endOffset)).map (placed range.partition) := by
    rw [OffsetRange.handed, handedFrom, hunread]
  cases hfirst : (out.topic.log range.partition).entries.filter (·.1 < range.endOffset) with
  | nil =>
      rw [List.filter_eq_nil_iff] at hfirst
      exact absurd (decide_eq_true hlt) (hfirst e he)
  | cons first rest =>
      have hmem : first ∈ (out.topic.log range.partition).entries :=
        (List.mem_filter.mp (hfirst ▸ List.mem_cons_self)).1
      have hbelow := (out.topic.log range.partition).below first hmem
      refine ⟨first, by omega, ?_⟩
      rw [hsplit, List.flatMap_append, List.flatMap_cons, hsame, hhanded, hfirst, List.map_cons,
        List.cons_append]
      exact mem_capped_of_unspent (by rwa [Nat.zero_add])

/-- What a replay with exact accounts has read is in one of its ranges. -/
lemma Accounts.mem_inRange {s : ReplayState} (h : Accounts args dryRun ranges s)
    {r : SourceRecord} (hr : r ∈ s.read) : ∃ range ∈ ranges, r ∈ s.inRange range := by
  obtain ⟨done, rest, parts, hsplit, _, hread, hparts, _⟩ := h.inOrder
  rw [hread, List.mem_flatten] at hr
  obtain ⟨part, hpart, hmem⟩ := hr
  obtain ⟨k, hk, rfl⟩ := List.mem_iff_getElem.mp hpart
  have hlength := hparts.length_eq
  obtain ⟨hinitial, _⟩ := (List.forall₂_iff_get.mp hparts).2 k (by omega) hk
  refine ⟨done[k], ?_, hinitial.subset hmem⟩
  rw [hsplit]
  exact List.mem_append_left _ (List.getElem_mem _)

/-- **Exact accounts in every run** need all ranges that are opened to be in place. -/
lemma allInPlace_of_accounts (hquiet : Quiet out args dryRun) (source : String)
    (hdistinct : (ranges.map OffsetRange.partition).Nodup)
    (h : ∀ s, Machine.Reaches (StreamStep out args dryRun) (replayFrom out args dryRun source ranges)
      s → s.control = .returned → Accounts args dryRun ranges s) :
    AllInPlace out args dryRun ranges := by
  by_contra hnot
  obtain ⟨before, range, after, hsplit, hroom, hmisplaced, hbefore⟩ := exists_first_misplaced hnot
  obtain ⟨e, hlt, hmem⟩ := mem_capped_of_misplaced hquiet hsplit hroom hmisplaced hbefore
  obtain ⟨s, hreach, hreturned, hread⟩ := exists_returned hquiet source ranges
  rw [← hread] at hmem
  obtain ⟨range', hrange', hin⟩ := (h s hreach hreturned).mem_inRange hmem
  obtain ⟨e', he', heq⟩ := List.mem_map.mp hin
  have hpartition : range'.partition = range.partition := congrArg SourceRecord.partition heq
  have hoffset : e'.1 = e.1 := congrArg SourceRecord.offset heq
  have hsame : range' = range := by
    refine List.inj_on_of_nodup_map hdistinct hrange' ?_ hpartition
    rw [hsplit]
    exact List.mem_append_right _ List.mem_cons_self
  rw [hsame] at he'
  have hge := (OffsetLog.mem_within.mp he').2.1
  omega

end Placed

/-- **When the accounts of a replay are exact.**  The ranges are of distinct partitions.  If every
range that the budget lets the replay open is in place, then whenever the replay returns it has read
at most `max_events` records, range by range a first part of the records of the range, and less than
all of them, or nothing of a range, only if the budget is used up; a dry run has sent nothing, a live
run each record it read.  Where nothing comes back to the source topic, so that each partition is one
stream of records, this holds of every replay that returns only then. -/
theorem replay_accounts_iff (out : Outside) (args : ReplayArgs) (dryRun : Bool) (source : String)
    (ranges : List OffsetRange) (hdistinct : (ranges.map OffsetRange.partition).Nodup) :
    (AllInPlace out args dryRun ranges → ∀ s, Machine.Reaches (StreamStep out args dryRun)
      (replayFrom out args dryRun source ranges) s → s.control = .returned →
        Accounts args dryRun ranges s) ∧
    (Quiet out args dryRun → ((∀ s, Machine.Reaches (StreamStep out args dryRun)
      (replayFrom out args dryRun source ranges) s → s.control = .returned →
        Accounts args dryRun ranges s) ↔ AllInPlace out args dryRun ranges)) := by
  have henough : AllInPlace out args dryRun ranges → ∀ s, Machine.Reaches
      (StreamStep out args dryRun) (replayFrom out args dryRun source ranges) s →
        s.control = .returned → Accounts args dryRun ranges s := by
    intro hplaced s hreach hreturned
    have hway := Machine.invariant (P := UnderWay out args dryRun ranges)
      (fun _ _ hs hstep => hs.step hstep) (.startFrom source ranges) hreach
    exact accounts_of_allInPlace hplaced hway hreturned
  exact ⟨henough, fun hquiet => ⟨allInPlace_of_accounts hquiet source hdistinct, henough⟩⟩

/-- The budget ends the replay inside the second range, and the third is not reached; a range past
the end of its partition is not read as it should be. -/
theorem replay_accounts_iff_sample :
    Accounts twoEvents false [⟨0, 0, 1⟩, ⟨1, 0, 2⟩, ⟨2, 0, 2⟩]
        ((replayFrom evenOutside twoEvents false "iceberg"
          [⟨0, 0, 1⟩, ⟨1, 0, 2⟩, ⟨2, 0, 2⟩]).runFor evenOutside twoEvents false 20) ∧
      ¬ ∀ s, Machine.Reaches (StreamStep evenOutside twoEvents false)
        (replayFrom evenOutside twoEvents false "iceberg" [⟨0, 10, 20⟩]) s →
          s.control = .returned → Accounts twoEvents false [⟨0, 10, 20⟩] s := by
  constructor
  · refine (replay_accounts_iff evenOutside twoEvents false "iceberg" _ (by decide)).1 ?_ _
      (reaches_streamStep (reaches_runFor evenOutside twoEvents false 20 _)) rfl
    intro before range after hsplit _
    have hmem : range ∈ before ++ range :: after := List.mem_append_right _ List.mem_cons_self
    rw [← hsplit] at hmem
    have hstart : ∀ r ∈ [(⟨0, 0, 1⟩ : OffsetRange), ⟨1, 0, 2⟩, ⟨2, 0, 2⟩], r.startOffset ≤ 2 := by
      decide
    exact Or.inl (hstart range hmem)
  · intro h
    have hplaced := ((replay_accounts_iff evenOutside twoEvents false "iceberg" [⟨0, 10, 20⟩]
      (by decide)).2 (Or.inr rfl)).mp h [] ⟨0, 10, 20⟩ [] rfl rfl
    rcases hplaced with hstart | ⟨habove, _⟩
    · exact absurd hstart (by decide)
    · exact absurd (habove (0, ⟨none, none, 1000⟩) (by decide)) (by decide)

/-- **A record before the range is counted.**  The range begins past the end of its partition, which
has the offsets 0 and 1; the consumer starts over at the earliest, and one record uses up the
budget. -/
theorem record_before_range_is_counted :
    ¬ ∀ (out : Outside) (args : ReplayArgs) (dryRun : Bool) (source : String)
      (ranges : List OffsetRange) (s : ReplayState), (ranges.map OffsetRange.partition).Nodup →
      Machine.Reaches (StreamStep out args dryRun) (replayFrom out args dryRun source ranges) s →
      s.control = .returned → Accounts args dryRun ranges s := by
  intro h
  have haccounts := h evenOutside { twoEvents with maxEvents := some 1 } true "iceberg"
    [⟨0, 10, 20⟩] _ (by decide) (reaches_streamStep (reaches_runFor evenOutside _ true 5 _)) rfl
  obtain ⟨range, hrange, hin⟩ := haccounts.mem_inRange (r := ⟨0, 0, ⟨none, none, 1000⟩⟩)
    (List.mem_of_mem_head? rfl)
  rw [List.mem_singleton.mp hrange] at hin
  exact absurd hin (by decide)

end Ticksense
