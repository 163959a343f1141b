import Ticksense.Replay.Producer

/-!
# What every replay keeps

Facts about all states of a replay, dry or live, whatever the broker does.

* `Advanced` — the passes of the machine, by name.
* `Books` — the counters agree with what was read and sent, every record read is sent once in live
  mode, and no successful send gets lost between the producer and the broker.
* `Grown` — a partition of the source topic is the log from before the replay, followed by the
  copies that came back to it.
* `ReplayState.runFor` — one of the runs, computed.
-/

namespace Ticksense

/-- `max_events` is reached. -/
def budgetSpent (maxEvents : Option ℤ) (n : ℕ) : Bool :=
  maxEvents.any (· ≤ (n : ℤ))

lemma budgetSpent_mono {maxEvents : Option ℤ} {n k : ℕ} (h : budgetSpent maxEvents n = true)
    (hle : n ≤ k) : budgetSpent maxEvents k = true := by
  cases maxEvents with
  | none => simp [budgetSpent] at h
  | some m =>
      simp only [budgetSpent, Option.any_some, decide_eq_true_eq] at h ⊢
      omega

lemma remaining_spent (maxEvents : Option ℤ) (n : ℕ) :
    (maxEvents.map fun m => m - (n : ℤ)).any (· ≤ 0) = budgetSpent maxEvents n := by
  cases maxEvents with
  | none => simp [budgetSpent]
  | some m => simp [budgetSpent]

/-- What has been read in the range the replay is in. -/
def Control.eventsRead : Control → ℕ
  | .reading loop => loop.eventsRead
  | _ => 0

/-- What has been sent in the range the replay is in. -/
def Control.eventsProduced : Control → ℕ
  | .reading loop => loop.eventsProduced
  | _ => 0

def SourceRecord.payload (r : SourceRecord) : Option (List UInt8) × Option (List UInt8) :=
  (r.record.key, r.record.value)

def Send.payload (m : Send) : Option (List UInt8) × Option (List UInt8) :=
  (m.key, m.value)

section Machine

variable {out : Outside} {args : ReplayArgs} {dryRun : Bool} {s t : ReplayState}

/-! ## The passes -/

/-- A pass of the machine: it stops before the next range, enters it, leaves it, counts a record in
it, or returns once the producer is flushed. -/
inductive Advanced (args : ReplayArgs) (dryRun : Bool) (s : ReplayState) : ReplayState → Prop
  | halt (hcontrol : s.control = .next)
      (hdone : s.ranges = [] ∨ budgetSpent args.maxEvents s.stats.eventsRead = true) :
      Advanced args dryRun s { s with control := .stopping }
  | enter (range : OffsetRange) (rest : List OffsetRange) (hcontrol : s.control = .next)
      (hranges : s.ranges = range :: rest)
      (hbudget : budgetSpent args.maxEvents s.stats.eventsRead = false) :
      Advanced args dryRun s
        { s with
          control := .reading ⟨range,
            args.maxEvents.map fun maxEvents => maxEvents - (s.stats.eventsRead : ℤ),
            range.startOffset, 0, 0⟩
          ranges := rest }
  | leave (loop : PartitionReplay) (offset : ℤ) (record : Record)
      (hcontrol : s.control = .reading loop)
      (hfetch : (s.log loop.range.partition).fetch loop.position = some (offset, record))
      (hstops : loop.stops offset = true) : Advanced args dryRun s (s.leave loop)
  | count (loop : PartitionReplay) (offset : ℤ) (record : Record)
      (hcontrol : s.control = .reading loop)
      (hfetch : (s.log loop.range.partition).fetch loop.position = some (offset, record))
      (hstops : loop.stops offset = false) :
      Advanced args dryRun s (s.count dryRun loop offset record)
  | finish (hcontrol : s.control = .stopping) (hpending : s.pending = []) :
      Advanced args dryRun s { s with control := .returned }

lemma advance_eq_some_iff : s.advance args dryRun = some t ↔ Advanced args dryRun s t := by
  constructor
  · intro h
    unfold ReplayState.advance at h
    cases hcontrol : s.control with
    | next =>
        simp only [hcontrol] at h
        cases hranges : s.ranges with
        | nil =>
            simp only [hranges, Option.some.injEq] at h
            rw [← hranges] at h
            exact h ▸ .halt hcontrol (Or.inl hranges)
        | cons range rest =>
            simp only [hranges, remaining_spent] at h
            cases hbudget : budgetSpent args.maxEvents s.stats.eventsRead with
            | true =>
                simp only [hbudget, if_true, Option.some.injEq] at h
                rw [← hranges] at h
                exact h ▸ .halt hcontrol (Or.inr hbudget)
            | false =>
                simp only [hbudget, Bool.false_eq_true, if_false, Option.some.injEq] at h
                exact h ▸ .enter range rest hcontrol hranges hbudget
    | reading loop =>
        simp only [hcontrol] at h
        cases hfetch : (s.log loop.range.partition).fetch loop.position with
        | none => simp [hfetch] at h
        | some e =>
            simp only [hfetch] at h
            cases hstops : loop.stops e.1 with
            | true =>
                simp only [hstops, if_true, Option.some.injEq] at h
                exact h ▸ .leave loop e.1 e.2 hcontrol hfetch hstops
            | false =>
                simp only [hstops, Bool.false_eq_true, if_false, Option.some.injEq] at h
                exact h ▸ .count loop e.1 e.2 hcontrol hfetch hstops
    | stopping =>
        simp only [hcontrol] at h
        split_ifs at h with hpending
        exact Option.some.inj h ▸ .finish hcontrol hpending
    | returned => simp [hcontrol] at h
    | raised e => simp [hcontrol] at h
  · intro h
    unfold ReplayState.advance
    cases h with
    | halt hcontrol hdone =>
        simp only [hcontrol]
        cases hranges : s.ranges with
        | nil => rfl
        | cons range rest =>
            have hbudget := hdone.resolve_left (by simp [hranges])
            simp only [remaining_spent, hbudget, if_true]
    | enter range rest hcontrol hranges hbudget =>
        simp only [hcontrol, hranges, remaining_spent, hbudget, Bool.false_eq_true, if_false]
    | leave loop offset record hcontrol hfetch hstops => simp only [hcontrol, hfetch, hstops, if_true]
    | count loop offset record hcontrol hfetch hstops =>
        simp only [hcontrol, hfetch, hstops, Bool.false_eq_true, if_false]
    | finish hcontrol hpending => simp only [hcontrol, hpending, if_true]

lemma deliver_eq_some_iff {m : Send} :
    s.deliver out args m = some t ↔ m ∈ s.pending ∧
      (∀ m' ∈ s.pending, m'.index < m.index → out.route m'.index ≠ out.route m.index) ∧
      t = s.handled out args m := by
  rw [ReplayState.deliver]
  split_ifs with hfirst
  · rw [Option.some.injEq]
    constructor
    · rintro rfl
      exact ⟨hfirst.1, hfirst.2, rfl⟩
    · rintro ⟨_, _, rfl⟩
      rfl
  · constructor
    · intro h
      cases h
    · rintro ⟨hm, hearlier, _⟩
      exact absurd ⟨hm, hearlier⟩ hfirst

/-! ## The books -/

/-- The counters and lists of a replay agree. -/
structure Books (out : Outside) (args : ReplayArgs) (dryRun : Bool) (s : ReplayState) : Prop where
  read : s.stats.eventsRead + s.control.eventsRead = s.read.length
  produced : s.stats.eventsProduced + s.control.eventsProduced = s.sent.length
  budget : ∀ loop, s.control = .reading loop →
    loop.maxEvents = args.maxEvents.map fun maxEvents => maxEvents - (s.stats.eventsRead : ℤ)
  sent : s.sent.map Send.payload = if dryRun then [] else s.read.map SourceRecord.payload
  numbered : s.sent.map (·.index) = List.range s.sent.length
  enqueued : ∀ m, m ∈ s.pending ∨ m ∈ s.appended → m ∈ s.sent
  kept : ∀ m ∈ s.sent, out.delivered m.index = true → m ∈ s.pending ∨ m ∈ s.appended

/-- What the stop conditions of the consumer loop test. -/
lemma PartitionReplay.stops_iff (loop : PartitionReplay) (offset : ℤ) :
    loop.stops offset = true ↔
      loop.range.endOffset ≤ offset ∨ ∃ m, loop.maxEvents = some m ∧ m ≤ loop.eventsRead := by
  rw [PartitionReplay.stops]
  split_ifs with hend
  · simp [hend]
  · cases hmax : loop.maxEvents with
    | none => simp [hend]
    | some m => simp [hend]

/-- The same, in terms of what the whole replay has read. -/
lemma Books.stops_iff (h : Books out args dryRun s) {loop : PartitionReplay}
    (hcontrol : s.control = .reading loop) (offset : ℤ) :
    loop.stops offset = true ↔
      loop.range.endOffset ≤ offset ∨ budgetSpent args.maxEvents s.read.length = true := by
  have hread := h.read
  rw [hcontrol] at hread
  simp only [Control.eventsRead] at hread
  rw [loop.stops_iff, h.budget loop hcontrol]
  cases args.maxEvents with
  | none => simp [budgetSpent]
  | some m =>
      simp only [Option.map_some, Option.some.injEq, exists_eq_left', budgetSpent, Option.any_some,
        decide_eq_true_eq]
      omega

/-- A replay that starts has not opened a partition. -/
lemma replayFrom_control (source : String) (ranges : List OffsetRange) (loop : PartitionReplay) :
    (replayFrom out args dryRun source ranges).control ≠ .reading loop := by
  simp only [replayFrom]
  split_ifs <;> simp

lemma Books.startFrom (source : String) (ranges : List OffsetRange) :
    Books out args dryRun (replayFrom out args dryRun source ranges) := by
  refine ⟨?_, ?_, fun loop hloop => absurd hloop (replayFrom_control source ranges loop), ?_, rfl,
    ?_, ?_⟩
  · simp only [replayFrom]
    split_ifs <;> rfl
  · simp only [replayFrom]
    split_ifs <;> rfl
  · cases dryRun <;> rfl
  · simp [replayFrom]
  · simp [replayFrom]

lemma Books.start : Books out args dryRun (replayStart out args dryRun) := by
  rcases replayStart_cases out args dryRun with ⟨e, heq, _⟩ | ⟨source, heq⟩
  · rw [heq]
    have h : Books out args dryRun (replayFrom out args dryRun "unknown" []) := .startFrom _ _
    exact ⟨h.read, h.produced, by simp, h.sent, h.numbered, h.enqueued, h.kept⟩
  · rw [heq]
    exact .startFrom _ _

lemma Books.leave (h : Books out args dryRun s) {loop : PartitionReplay}
    (hcontrol : s.control = .reading loop) : Books out args dryRun (s.leave loop) := by
  have hread := h.read
  have hproduced := h.produced
  rw [hcontrol] at hread hproduced
  exact ⟨hread, hproduced, by simp [ReplayState.leave], h.sent, h.numbered, h.enqueued, h.kept⟩

lemma Books.count (h : Books out args dryRun s) {loop : PartitionReplay}
    (hcontrol : s.control = .reading loop) (offset : ℤ) (record : Record) :
    Books out args dryRun (s.count dryRun loop offset record) := by
  have hread := h.read
  have hproduced := h.produced
  have hbudget := h.budget loop hcontrol
  rw [hcontrol] at hread hproduced
  simp only [Control.eventsRead, Control.eventsProduced] at hread hproduced
  have hsent := h.sent
  cases dryRun with
  | true =>
      refine ⟨?_, ?_, ?_, ?_, h.numbered, h.enqueued, h.kept⟩
      · simp only [ReplayState.count, if_true, Control.eventsRead, List.length_append,
          List.length_singleton]
        omega
      · simpa only [ReplayState.count, if_true, Control.eventsProduced] using hproduced
      · rintro loop' hloop'
        simp only [ReplayState.count, if_true, Control.reading.injEq] at hloop'
        rw [← hloop']
        exact hbudget
      · simpa only [ReplayState.count, if_true] using hsent
  | false =>
      simp only [Bool.false_eq_true, if_false] at hsent
      refine ⟨?_, ?_, ?_, ?_, ?_, ?_, ?_⟩
      · simp only [ReplayState.count, Bool.false_eq_true, if_false, ReplayState.send,
          Control.eventsRead, List.length_append, List.length_singleton]
        omega
      · simp only [ReplayState.count, Bool.false_eq_true, if_false, ReplayState.send,
          Control.eventsProduced, List.length_append, List.length_singleton]
        omega
      · rintro loop' hloop'
        simp only [ReplayState.count, Bool.false_eq_true, if_false, Control.reading.injEq] at hloop'
        rw [← hloop']
        exact hbudget
      · simp [ReplayState.count, ReplayState.send, hsent, Send.payload, SourceRecord.payload]
      · simp [ReplayState.count, ReplayState.send, h.numbered, List.range_succ]
      · intro m hm
        simp only [ReplayState.count, Bool.false_eq_true, if_false, ReplayState.send,
          List.mem_append] at hm ⊢
        rcases hm with (hm | hm) | hm
        · exact Or.inl (h.enqueued m (Or.inl hm))
        · exact Or.inr hm
        · exact Or.inl (h.enqueued m (Or.inr hm))
      · intro m hm hdelivered
        simp only [ReplayState.count, Bool.false_eq_true, if_false, ReplayState.send,
          List.mem_append] at hm ⊢
        rcases hm with hm | hm
        · rcases h.kept m hm hdelivered with hp | ha
          · exact Or.inl (Or.inl hp)
          · exact Or.inr ha
        · exact Or.inl (Or.inr hm)

lemma Books.advanced (h : Books out args dryRun s) (hstep : Advanced args dryRun s t) :
    Books out args dryRun t := by
  have hread := h.read
  have hproduced := h.produced
  cases hstep with
  | halt hcontrol =>
      rw [hcontrol] at hread hproduced
      exact ⟨hread, hproduced, by simp, h.sent, h.numbered, h.enqueued, h.kept⟩
  | enter range rest hcontrol =>
      rw [hcontrol] at hread hproduced
      refine ⟨hread, hproduced, ?_, h.sent, h.numbered, h.enqueued, h.kept⟩
      intro loop hloop
      rw [← Control.reading.inj hloop]
  | leave loop offset record hcontrol => exact h.leave hcontrol
  | count loop offset record hcontrol => exact h.count hcontrol offset record
  | finish hcontrol =>
      rw [hcontrol] at hread hproduced
      exact ⟨hread, hproduced, by simp, h.sent, h.numbered, h.enqueued, h.kept⟩

lemma Books.handled (h : Books out args dryRun s) {m : Send} (hm : m ∈ s.pending) :
    Books out args dryRun (s.handled out args m) := by
  have hkeep : ∀ m' ∈ s.sent, out.delivered m'.index = true → m' ≠ m →
      m' ∈ s.pending.erase m ∨ m' ∈ s.appended := by
    intro m' hm' hdelivered hne
    rcases h.kept m' hm' hdelivered with hp | ha
    · exact Or.inl ((List.mem_erase_of_ne hne).mpr hp)
    · exact Or.inr ha
  rw [ReplayState.handled]
  by_cases hdelivered : out.delivered m.index = true
  · rw [if_pos hdelivered]
    refine ⟨h.read, h.produced, h.budget, h.sent, h.numbered, ?_, ?_⟩
    · intro m' hm'
      simp only [List.mem_append, List.mem_singleton] at hm'
      rcases hm' with hp | ha | rfl
      · exact h.enqueued m' (Or.inl (List.mem_of_mem_erase hp))
      · exact h.enqueued m' (Or.inr ha)
      · exact h.enqueued m' (Or.inl hm)
    · intro m' hm' hd
      by_cases hne : m' = m
      · exact Or.inr (by simp [hne])
      · exact (hkeep m' hm' hd hne).imp_right fun ha => List.mem_append_left _ ha
  · rw [if_neg hdelivered]
    refine ⟨h.read, h.produced, h.budget, h.sent, h.numbered, ?_, ?_⟩
    · intro m' hm'
      exact h.enqueued m' (hm'.imp_left List.mem_of_mem_erase)
    · intro m' hm' hd
      refine hkeep m' hm' hd fun heq => hdelivered ?_
      exact heq ▸ hd

lemma Books.step (h : Books out args dryRun s) (hstep : ReplayStep out args dryRun s t) :
    Books out args dryRun t := by
  cases hstep with
  | advance hadvance => exact h.advanced (advance_eq_some_iff.mp hadvance)
  | deliver m hdeliver =>
      obtain ⟨hm, _, rfl⟩ := deliver_eq_some_iff.mp hdeliver
      exact h.handled hm

/-- **The books agree in every state of a replay.** -/
theorem ReplayReaches.books (h : ReplayReaches out args dryRun s) : Books out args dryRun s :=
  Machine.invariant (P := Books out args dryRun) (fun _ _ hs hstep => hs.step hstep) Books.start h

/-! ## The source topic -/

/-- Some copy has come back to the partition. -/
def CopyIn (out : Outside) (args : ReplayArgs) (s : ReplayState) (partition : ℤ) : Prop :=
  loopsBack out args = true ∧ ∃ m ∈ s.appended, out.route m.index = partition

/-- The partition is what it was, followed by the copies that came back to it. -/
def Grown (out : Outside) (args : ReplayArgs) (s : ReplayState) : Prop :=
  ∀ p, ∃ extra, (out.topic.log p).Extends (s.log p) extra ∧ (extra ≠ [] ↔ CopyIn out args s p)

lemma Grown.handled (h : Grown out args s) (m : Send) : Grown out args (s.handled out args m) := by
  intro p
  obtain ⟨extra, hextends, hextra⟩ := h p
  rw [ReplayState.handled]
  split_ifs with hdelivered hback
  · by_cases hp : out.route m.index = p
    · subst hp
      refine ⟨extra ++ [((s.log (out.route m.index)).logEnd, m.record out)], ?_, ?_⟩
      · simpa using hextends.append (m.record out)
      · simp [CopyIn, hback]
    · refine ⟨extra, ?_, ?_⟩
      · simpa [Function.update_of_ne (Ne.symm hp)] using hextends
      · simp [hextra, CopyIn, hp]
  · refine ⟨extra, hextends, ?_⟩
    simp [hextra, CopyIn, hback]
  · exact ⟨extra, hextends, hextra⟩

lemma Grown.advanced (h : Grown out args s) (hstep : Advanced args dryRun s t) :
    Grown out args t := by
  cases hstep with
  | count => cases dryRun <;> exact h
  | _ => exact h

lemma Grown.step (h : Grown out args s) (hstep : ReplayStep out args dryRun s t) :
    Grown out args t := by
  cases hstep with
  | advance hadvance => exact h.advanced (advance_eq_some_iff.mp hadvance)
  | deliver m hdeliver =>
      obtain ⟨_, _, rfl⟩ := deliver_eq_some_iff.mp hdeliver
      exact h.handled m

lemma Grown.start : Grown out args (replayStart out args dryRun) :=
  fun p => ⟨[], by rw [replayStart_log]; exact .refl _, by simp [CopyIn]⟩

theorem ReplayReaches.grown (h : ReplayReaches out args dryRun s) : Grown out args s :=
  Machine.invariant (P := Grown out args) (fun _ _ hs hstep => hs.step hstep) Grown.start h

end Machine

/-! ## A schedule -/

section Schedule

variable (out : Outside) (args : ReplayArgs) (dryRun : Bool)

/-- The broker handles a send as soon as there is one; the replay goes on when there is none. -/
def ReplayState.promptly (s : ReplayState) : ReplayState :=
  match s.pending with
  | m :: _ => (s.deliver out args m).getD s
  | [] => (s.advance args dryRun).getD s

def ReplayState.runFor : ℕ → ReplayState → ReplayState
  | 0, s => s
  | n + 1, s => ReplayState.runFor n (s.promptly out args dryRun)

lemma reaches_promptly (s : ReplayState) :
    Machine.Reaches (ReplayStep out args dryRun) s (s.promptly out args dryRun) := by
  rw [ReplayState.promptly]
  split
  · next m later hpending =>
      cases hdeliver : s.deliver out args m with
      | none => exact .refl
      | some t => exact .single (.deliver m hdeliver)
  · next hpending =>
      cases hadvance : s.advance args dryRun with
      | none => exact .refl
      | some t => exact .single (.advance hadvance)

lemma reaches_runFor (n : ℕ) (s : ReplayState) :
    Machine.Reaches (ReplayStep out args dryRun) s (s.runFor out args dryRun n) := by
  induction n generalizing s with
  | zero => exact .refl
  | succ n ih => exact (reaches_promptly out args dryRun s).trans (ih _)

end Schedule

end Ticksense
