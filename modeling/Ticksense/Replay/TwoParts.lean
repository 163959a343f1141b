import Ticksense.Replay.LiveRun
import Ticksense.Replay.OffsetCover

/-!
# A window replayed in two parts

A long window can be replayed in parts, one after the other; the second replay finds the topic as
the first has left it.  The parts need not add up to the whole.

* `ReplayEnds.read_eq` — a replay whose ranges all lie before the ends of their partitions reads its
  ranges, dry or live, also when its copies come back.
* `table_parts_add_up_iff` — with the ranges of the table they add up if and only if each partition
  has the rows of the first part before those of the second and no record in between: a record that
  led to no row is lost at the seam.
-/

namespace Ticksense

/-! ## Replays that come to an end -/

/-- A replay has come to an end. -/
structure ReplayEnds (out : Outside) (args : ReplayArgs) (dryRun : Bool) (s : ReplayState) :
    Prop where
  reached : ReplayReaches out args dryRun s
  stopped : Machine.Stopped (ReplayStep out args dryRun) s

/-- The same arguments for another window. -/
def ReplayArgs.window (args : ReplayArgs) (startTs endTs : ℤ) : ReplayArgs :=
  { args with startTs, endTs }

/-- The records of a partition, in the order in which they were read. -/
def ofPartition (p : ℤ) (records : List SourceRecord) : List SourceRecord :=
  records.filter (·.partition = p)

section Closed

variable {out : Outside} {args : ReplayArgs} {dryRun : Bool} {topic : Topic}
  {ranges : List OffsetRange} {s : ReplayState}

lemma announced_of_closed (hclosed : ∀ range ∈ ranges, ¬ OpenEnded topic range) :
    announced topic ranges = ranges.flatMap (OffsetRange.records topic) := by
  induction ranges with
  | nil => rfl
  | cons range rest ih =>
      rw [announced, if_neg (hclosed range List.mem_cons_self),
        ih fun r hr => hclosed r (List.mem_cons_of_mem _ hr), List.flatMap_cons]

lemma harmless_of_closed {n : ℕ} (hclosed : ∀ range ∈ ranges, ¬ OpenEnded out.topic range) :
    Harmless out args dryRun n ranges := by
  induction ranges generalizing n with
  | nil => trivial
  | cons range rest ih =>
      refine .inr ?_
      rw [if_neg (hclosed range List.mem_cons_self)]
      exact ih fun r hr => hclosed r (List.mem_cons_of_mem _ hr)

/-- **What a replay has read** at its end: its ranges, if there is no limit and none of them reaches
the end of its partition.  The copies of a live replay come behind them. -/
lemma ReplayEnds.read_eq (h : ReplayEnds out args dryRun s) (hunlimited : args.maxEvents = none)
    (hplaced : ∀ range ∈ plannedRanges out args, range.Placed out.topic)
    (hclosed : ∀ range ∈ plannedRanges out args, ¬ OpenEnded out.topic range) :
    s.read = (plannedRanges out args).flatMap (OffsetRange.records out.topic) := by
  have hstart : Ongoing out args dryRun (announcement out args) (replayStart out args dryRun) := by
    refine ⟨Books.start, Grown.start, onPlan_start hplaced, ?_⟩
    rw [ahead_start]
    exact harmless_of_closed hclosed
  rw [(hstart.reaches h.reached).read_of_stopped h.stopped, announcement, hunlimited, capped,
    announced_of_closed hclosed]

lemma ofPartition_records (range : OffsetRange) :
    ofPartition range.partition (range.records topic) = range.records topic := by
  refine List.filter_eq_self.mpr fun r hr => ?_
  obtain ⟨e, _, rfl⟩ := List.mem_map.mp hr
  exact decide_eq_true rfl

lemma ofPartition_records_of_ne {range : OffsetRange} {p : ℤ} (h : range.partition ≠ p) :
    ofPartition p (range.records topic) = [] := by
  refine List.filter_eq_nil_iff.mpr fun r hr => ?_
  obtain ⟨e, _, rfl⟩ := List.mem_map.mp hr
  simpa using h

lemma ofPartition_append (p : ℤ) (records records' : List SourceRecord) :
    ofPartition p (records ++ records') = ofPartition p records ++ ofPartition p records' :=
  List.filter_append _ _

/-- A partition without a range. -/
lemma ofPartition_flatMap_of_none {p : ℤ} (h : ∀ range ∈ ranges, range.partition ≠ p) :
    ofPartition p (ranges.flatMap (OffsetRange.records topic)) = [] := by
  induction ranges with
  | nil => rfl
  | cons range rest ih =>
      rw [List.flatMap_cons, ofPartition_append, ofPartition_records_of_ne (h _ List.mem_cons_self),
        ih fun r hr => h r (List.mem_cons_of_mem _ hr), List.append_nil]

/-- A partition with one. -/
lemma ofPartition_flatMap (hnodup : (ranges.map OffsetRange.partition).Nodup) {range : OffsetRange}
    (h : range ∈ ranges) :
    ofPartition range.partition (ranges.flatMap (OffsetRange.records topic))
      = range.records topic := by
  induction ranges with
  | nil => cases h
  | cons first rest ih =>
      rw [List.map_cons, List.nodup_cons] at hnodup
      rw [List.flatMap_cons, ofPartition_append]
      rcases List.mem_cons.mp h with rfl | hrest
      · rw [ofPartition_records, ofPartition_flatMap_of_none, List.append_nil]
        intro r hr hsame
        exact hnodup.1 (hsame ▸ List.mem_map_of_mem hr)
      · rw [ih hnodup.2 hrest, ofPartition_records_of_ne, List.nil_append]
        intro hsame
        exact hnodup.1 (hsame ▸ List.mem_map_of_mem hrest)

end Closed

/-! ## The rows of a window -/

/-- The known offsets of a partition in the rows of a window. -/
def scannedOffsets (rows : List IcebergRow) (symbol : Option String) (startTs endTs p : ℤ) :
    List ℤ :=
  let scan := rows.filter (filterExpr symbol startTs endTs)
  knownOffsets (scan.map (·.kafkaPartition)) (scan.map (·.kafkaOffset)) p

section Rows

variable {rows : List IcebergRow} {symbol : Option String} {a b c o p : ℤ}

lemma mem_scannedOffsets : o ∈ scannedOffsets rows symbol a b p ↔
    (∃ row ∈ rows, filterExpr symbol a b row = true ∧ row.kafkaPartition = p ∧
      row.kafkaOffset = o) ∧ p ≠ -1 ∧ o ≠ -1 := by
  rw [scannedOffsets, mem_knownOffsets, List.zip_map', List.mem_map]
  simp only [List.mem_filter, Prod.mk.injEq, and_assoc]

/-- A row of the window is in one of its parts. -/
lemma filterExpr_parts (hab : a ≤ b) (hbc : b ≤ c) (row : IcebergRow) :
    filterExpr symbol a c row = true ↔
      filterExpr symbol a b row = true ∨ filterExpr symbol b c row = true := by
  have hab' : epochMs a ≤ epochMs b := Int.tdiv_le_tdiv (by decide) hab
  have hbc' : epochMs b ≤ epochMs c := Int.tdiv_le_tdiv (by decide) hbc
  simp only [filterExpr, Bool.and_eq_true, decide_eq_true_eq]
  constructor
  · rintro ⟨⟨hstart, hend⟩, hsymbol⟩
    rcases lt_or_ge row.exchangeEventTs (epochMs b * 1000) with hbefore | hafter
    · exact .inl ⟨⟨hstart, hbefore⟩, hsymbol⟩
    · exact .inr ⟨⟨hafter, hend⟩, hsymbol⟩
  · rintro (⟨⟨hstart, hend⟩, hsymbol⟩ | ⟨⟨hstart, hend⟩, hsymbol⟩)
    · exact ⟨⟨hstart, by omega⟩, hsymbol⟩
    · exact ⟨⟨by omega, hend⟩, hsymbol⟩

lemma mem_scannedOffsets_parts (hab : a ≤ b) (hbc : b ≤ c) :
    o ∈ scannedOffsets rows symbol a c p ↔
      o ∈ scannedOffsets rows symbol a b p ∨ o ∈ scannedOffsets rows symbol b c p := by
  simp only [mem_scannedOffsets, filterExpr_parts hab hbc, or_and_right, and_or_left, exists_or]

/-- The table has ranges for a window if it has known places in it. -/
lemma readOffsetRange_eq_nil_iff :
    readOffsetRange (.ok rows) symbol a b = [] ↔ ∀ p, scannedOffsets rows symbol a b p = [] := by
  constructor
  · intro hnil p
    by_contra hne
    obtain ⟨o, ho⟩ := List.exists_mem_of_ne_nil _ hne
    obtain ⟨r, hr, _⟩ := exists_mem_of_known ho
    exact List.ne_nil_of_mem hr hnil
  · intro hnone
    refine List.eq_nil_iff_forall_not_mem.mpr fun r hr => ?_
    exact List.ne_nil_of_mem (bounds_of_mem hr).1 (hnone r.partition)

/-- Without known places in a window there are none in its parts. -/
lemma readOffsetRange_parts {table : Except PyError (List IcebergRow)} (hab : a ≤ b) (hbc : b ≤ c)
    (h : readOffsetRange table symbol a c = []) :
    readOffsetRange table symbol a b = [] ∧ readOffsetRange table symbol b c = [] := by
  cases table with
  | error e => exact ⟨rfl, rfl⟩
  | ok rows =>
      rw [readOffsetRange_eq_nil_iff] at h ⊢
      rw [readOffsetRange_eq_nil_iff]
      have hnone : ∀ p o, o ∉ scannedOffsets rows symbol a b p ∧
          o ∉ scannedOffsets rows symbol b c p := by
        intro p o
        have ho : o ∉ scannedOffsets rows symbol a c p := by simp [h p]
        rwa [mem_scannedOffsets_parts hab hbc, not_or] at ho
      exact ⟨fun p => List.eq_nil_iff_forall_not_mem.mpr fun o => (hnone p o).1,
        fun p => List.eq_nil_iff_forall_not_mem.mpr fun o => (hnone p o).2⟩

end Rows

/-! ## The ranges of the table -/

section Table

variable {rows : List IcebergRow} {symbol : Option String} {topic : Topic} {a b c p : ℤ}

lemma nodup_readOffsetRange :
    ((readOffsetRange (.ok rows) symbol a b).map OffsetRange.partition).Nodup :=
  List.pairwise_map.mpr ((offsetRanges_ascending _ _).imp fun h => h.ne)

/-- The first and the last known offset of a partition. -/
lemma exists_bounds (h : scannedOffsets rows symbol a b p ≠ []) :
    ∃ lo ∈ scannedOffsets rows symbol a b p, ∃ hi ∈ scannedOffsets rows symbol a b p,
      ∀ o ∈ scannedOffsets rows symbol a b p, lo ≤ o ∧ o ≤ hi := by
  obtain ⟨o, ho⟩ := List.exists_mem_of_ne_nil _ h
  obtain ⟨r, hr, rfl⟩ := exists_mem_of_known ho
  obtain ⟨hstart, hend, hinside⟩ := bounds_of_mem hr
  refine ⟨r.startOffset, hstart, r.endOffset - 1, hend, fun o ho => ?_⟩
  have := hinside o ho
  omega

/-- What is read of a partition with known places. -/
lemma ofPartition_tableRanges {lo hi : ℤ} (hlo : lo ∈ scannedOffsets rows symbol a b p)
    (hhi : hi ∈ scannedOffsets rows symbol a b p)
    (hbounds : ∀ o ∈ scannedOffsets rows symbol a b p, lo ≤ o ∧ o ≤ hi) :
    ofPartition p ((readOffsetRange (.ok rows) symbol a b).flatMap (OffsetRange.records topic))
      = OffsetRange.records topic ⟨p, lo, hi + 1⟩ := by
  obtain ⟨r, hr, rfl⟩ := exists_mem_of_known hlo
  obtain ⟨hstart, hend, hinside⟩ := bounds_of_mem hr
  have hlo' := hinside lo hlo
  have hhi' := hinside hi hhi
  have hstart' := hbounds _ hstart
  have hend' := hbounds _ hend
  have hrange : r = ⟨r.partition, lo, hi + 1⟩ := by
    cases r
    simp only [OffsetRange.mk.injEq, true_and] at *
    omega
  rw [ofPartition_flatMap nodup_readOffsetRange hr, ← hrange]

lemma ofPartition_tableRanges_of_none (h : scannedOffsets rows symbol a b p = []) :
    ofPartition p ((readOffsetRange (.ok rows) symbol a b).flatMap (OffsetRange.records topic))
      = [] := by
  refine ofPartition_flatMap_of_none fun r hr hpartition => ?_
  have hstart := (bounds_of_mem hr).1
  rw [hpartition] at hstart
  exact List.ne_nil_of_mem hstart h

/-- The topic still has the records of the rows, and a later one. -/
structure Kept (topic : Topic) (rows : List IcebergRow) (symbol : Option String) (a b : ℤ) :
    Prop where
  records : ∀ p, ∀ o ∈ scannedOffsets rows symbol a b p, ∃ e ∈ (topic.log p).entries, e.1 = o
  later : ∀ p, ∀ o ∈ scannedOffsets rows symbol a b p, ∃ e ∈ (topic.log p).entries, o < e.1

/-- What a replay reads of a window with rows. -/
lemma ReplayEnds.read_of_table {out : Outside} {args : ReplayArgs} {dryRun : Bool} {s : ReplayState}
    (h : ReplayEnds out (args.window a b) dryRun s) (hunlimited : args.maxEvents = none)
    (htable : out.table = .ok rows) (hrows : readOffsetRange (.ok rows) args.symbol a b ≠ [])
    (hkept : Kept out.topic rows args.symbol a b) :
    s.read = (readOffsetRange (.ok rows) args.symbol a b).flatMap
      (OffsetRange.records out.topic) := by
  have hranges : plannedRanges out (args.window a b)
      = readOffsetRange (.ok rows) args.symbol a b := by
    simp [plannedRanges, resolveRanges, ReplayArgs.window, htable, hrows]
  rw [h.read_eq hunlimited ?_ ?_, hranges]
  · rw [hranges]
    intro r hr
    obtain ⟨hstart, _, hinside⟩ := bounds_of_mem hr
    obtain ⟨e, he, hoffset⟩ := hkept.records r.partition _ hstart
    have hbelow := (out.topic.log r.partition).below e he
    have hstop := (hinside _ hstart).2
    exact ⟨by omega, by omega⟩
  · rw [hranges]
    intro r hr
    obtain ⟨_, hend, _⟩ := bounds_of_mem hr
    obtain ⟨e, he, hlt⟩ := hkept.later r.partition _ hend
    exact List.ne_nil_of_mem (OffsetLog.mem_since.mpr ⟨he, by omega⟩)

/-- The known places of the second part come behind those of the first, and no record lies in
between. -/
def Seamless (log : OffsetLog Record) (before after : List ℤ) : Prop :=
  ∀ o₁ ∈ before, ∀ o₂ ∈ after, o₁ < o₂ ∧
    ∀ e ∈ log.entries, (∃ o ∈ before, e.1 ≤ o) ∨ ∃ o ∈ after, o ≤ e.1

lemma seamless_iff {log : OffsetLog Record} {before after : List ℤ} {lo₁ hi₁ lo₂ hi₂ : ℤ}
    (hhi₁ : hi₁ ∈ before) (hbefore : ∀ o ∈ before, lo₁ ≤ o ∧ o ≤ hi₁)
    (hlo₂ : lo₂ ∈ after) (hafter : ∀ o ∈ after, lo₂ ≤ o ∧ o ≤ hi₂) :
    Seamless log before after ↔ hi₁ < lo₂ ∧ ∀ e ∈ log.entries, e.1 ≤ hi₁ ∨ lo₂ ≤ e.1 := by
  constructor
  · intro h
    refine ⟨(h hi₁ hhi₁ lo₂ hlo₂).1, fun e he => ?_⟩
    rcases (h hi₁ hhi₁ lo₂ hlo₂).2 e he with ⟨o, ho, hle⟩ | ⟨o, ho, hle⟩
    · exact .inl (hle.trans (hbefore o ho).2)
    · exact .inr ((hafter o ho).1.trans hle)
  · rintro ⟨hlt, hnone⟩ o₁ ho₁ o₂ ho₂
    refine ⟨?_, fun e he => ?_⟩
    · have := hbefore o₁ ho₁
      have := hafter o₂ ho₂
      omega
    · rcases hnone e he with hle | hle
      · exact .inl ⟨hi₁, hhi₁, hle⟩
      · exact .inr ⟨lo₂, hlo₂, hle⟩

/-- Windows with the same known places on a partition are read alike there, also when the topic has
grown. -/
lemma ofPartition_tableRanges_congr {old new : Topic} {x y : ℤ} {extra : List (ℤ × Record)}
    (hsame : ∀ o, o ∈ scannedOffsets rows symbol a b p ↔ o ∈ scannedOffsets rows symbol x y p)
    (hrecords : ∀ o ∈ scannedOffsets rows symbol a b p, ∃ e ∈ (old.log p).entries, e.1 = o)
    (hextends : OffsetLog.Extends (old.log p) (new.log p) extra) :
    ofPartition p ((readOffsetRange (.ok rows) symbol a b).flatMap (OffsetRange.records old))
      = ofPartition p ((readOffsetRange (.ok rows) symbol x y).flatMap
        (OffsetRange.records new)) := by
  by_cases hnone : scannedOffsets rows symbol a b p = []
  · rw [ofPartition_tableRanges_of_none hnone, ofPartition_tableRanges_of_none]
    refine List.eq_nil_iff_forall_not_mem.mpr fun o ho => ?_
    exact List.ne_nil_of_mem ((hsame o).mpr ho) hnone
  · obtain ⟨lo, hlo, hi, hhi, hbounds⟩ := exists_bounds hnone
    rw [ofPartition_tableRanges hlo hhi hbounds, ofPartition_tableRanges ((hsame lo).mp hlo)
      ((hsame hi).mp hhi) fun o ho => hbounds o ((hsame o).mpr ho)]
    obtain ⟨e, he, rfl⟩ := hrecords hi hhi
    simp only [OffsetRange.records]
    rw [hextends.within_eq]
    have := (old.log p).below e he
    omega

lemma Kept.mono {old new : Topic} {x y : ℤ} (h : Kept old rows symbol a b)
    (hsub : ∀ p, ∀ o ∈ scannedOffsets rows symbol x y p, o ∈ scannedOffsets rows symbol a b p)
    (hgrown : ∀ p, ∃ extra, OffsetLog.Extends (old.log p) (new.log p) extra) :
    Kept new rows symbol x y := by
  have hstays : ∀ p, ∀ e ∈ (old.log p).entries, e ∈ (new.log p).entries := by
    intro p e he
    obtain ⟨extra, hextends⟩ := hgrown p
    rw [hextends.entries]
    exact List.mem_append_left _ he
  constructor
  · intro p o ho
    obtain ⟨e, he, hoffset⟩ := h.records p o (hsub p o ho)
    exact ⟨e, hstays p e he, hoffset⟩
  · intro p o ho
    obtain ⟨e, he, hlt⟩ := h.later p o (hsub p o ho)
    exact ⟨e, hstays p e he, hlt⟩

/-- **One partition**: the whole is the two parts if and only if there is no seam. -/
lemma ofPartition_parts_iff (hab : a ≤ b) (hbc : b ≤ c) (hkept : Kept topic rows symbol a c) :
    ofPartition p ((readOffsetRange (.ok rows) symbol a c).flatMap (OffsetRange.records topic))
        = ofPartition p ((readOffsetRange (.ok rows) symbol a b).flatMap
            (OffsetRange.records topic)) ++
          ofPartition p ((readOffsetRange (.ok rows) symbol b c).flatMap
            (OffsetRange.records topic)) ↔
      Seamless (topic.log p) (scannedOffsets rows symbol a b p)
        (scannedOffsets rows symbol b c p) := by
  have hparts : ∀ o, o ∈ scannedOffsets rows symbol a c p ↔ o ∈ scannedOffsets rows symbol a b p ∨
      o ∈ scannedOffsets rows symbol b c p := fun o => mem_scannedOffsets_parts hab hbc
  by_cases h₁ : scannedOffsets rows symbol a b p = []
  · rw [ofPartition_tableRanges_of_none h₁, List.nil_append]
    refine iff_of_true (ofPartition_tableRanges_congr (fun o => ?_) (hkept.records p)
      (OffsetLog.Extends.refl _)) ?_
    · rw [hparts, h₁]
      simp
    · rw [h₁]
      simp [Seamless]
  by_cases h₂ : scannedOffsets rows symbol b c p = []
  · rw [ofPartition_tableRanges_of_none h₂, List.append_nil]
    refine iff_of_true (ofPartition_tableRanges_congr (fun o => ?_) (hkept.records p)
      (OffsetLog.Extends.refl _)) ?_
    · rw [hparts, h₂]
      simp
    · rw [h₂]
      simp [Seamless]
  obtain ⟨lo₁, hlo₁, hi₁, hhi₁, hbounds₁⟩ := exists_bounds h₁
  obtain ⟨lo₂, hlo₂, hi₂, hhi₂, hbounds₂⟩ := exists_bounds h₂
  have hlo : min lo₁ lo₂ ∈ scannedOffsets rows symbol a c p := by
    rcases min_choice lo₁ lo₂ with hmin | hmin
    · rw [hmin]
      exact (hparts _).mpr (.inl hlo₁)
    · rw [hmin]
      exact (hparts _).mpr (.inr hlo₂)
  have hhi : max hi₁ hi₂ ∈ scannedOffsets rows symbol a c p := by
    rcases max_choice hi₁ hi₂ with hmax | hmax
    · rw [hmax]
      exact (hparts _).mpr (.inl hhi₁)
    · rw [hmax]
      exact (hparts _).mpr (.inr hhi₂)
  have hbounds : ∀ o ∈ scannedOffsets rows symbol a c p, min lo₁ lo₂ ≤ o ∧ o ≤ max hi₁ hi₂ := by
    intro o ho
    rcases (hparts o).mp ho with ho | ho
    · have := hbounds₁ o ho
      omega
    · have := hbounds₂ o ho
      omega
  rw [ofPartition_tableRanges hlo hhi hbounds, ofPartition_tableRanges hlo₁ hhi₁ hbounds₁,
    ofPartition_tableRanges hlo₂ hhi₂ hbounds₂, seamless_iff hhi₁ hbounds₁ hlo₂ hbounds₂]
  simp only [OffsetRange.records]
  rw [← List.map_append, List.map_inj_right]
  · exact OffsetLog.within_parts_iff (hbounds₁ hi₁ hhi₁).1 (hbounds₂ hi₂ hhi₂).1
      (hkept.records p hi₁ ((hparts _).mpr (.inl hhi₁)))
      (hkept.records p lo₂ ((hparts _).mpr (.inr hlo₂)))
  · rintro ⟨o, r⟩ ⟨o', r'⟩ heq
    rw [SourceRecord.mk.injEq] at heq
    exact Prod.ext heq.2.1 heq.2.2

/-- **When the parts of a window add up** where the table has rows in both: the topic still has the
records of these rows, and a later one behind them on each partition.  The window is replayed once
as a whole, and from the same topic in two parts one after the other, dry or live, while the topic
grows or its copies come back, without a limit.  The whole is the first part and then the second on
every partition if and only if, on every partition with rows in both, the rows of the second come
behind those of the first and no record lies in between.  So a record without a row of its own, of
another symbol or too late, is lost at the seam, and where event times fall along a partition, parts
are read twice or in the wrong order. -/
theorem table_parts_add_up_iff {out₁ out₂ : Outside} (args : ReplayArgs) (hab : a ≤ b)
    (hbc : b ≤ c) (hunlimited : args.maxEvents = none) (htable₁ : out₁.table = .ok rows)
    (htable₂ : out₂.table = .ok rows)
    (hrows₁ : readOffsetRange (.ok rows) args.symbol a b ≠ [])
    (hrows₂ : readOffsetRange (.ok rows) args.symbol b c ≠ [])
    (hgrown : ∀ p, ∃ extra, OffsetLog.Extends (out₁.topic.log p) (out₂.topic.log p) extra)
    (hkept : Kept out₁.topic rows args.symbol a c)
    {dry dry₁ dry₂ : Bool} {s s₁ s₂ : ReplayState} (h : ReplayEnds out₁ (args.window a c) dry s)
    (h₁ : ReplayEnds out₁ (args.window a b) dry₁ s₁)
    (h₂ : ReplayEnds out₂ (args.window b c) dry₂ s₂) :
    (∀ p, ofPartition p s.read = ofPartition p s₁.read ++ ofPartition p s₂.read) ↔
      ∀ p, Seamless (out₁.topic.log p) (scannedOffsets rows args.symbol a b p)
        (scannedOffsets rows args.symbol b c p) := by
  have hsub₁ : ∀ p, ∀ o ∈ scannedOffsets rows args.symbol a b p,
      o ∈ scannedOffsets rows args.symbol a c p :=
    fun p o ho => (mem_scannedOffsets_parts hab hbc).mpr (.inl ho)
  have hsub₂ : ∀ p, ∀ o ∈ scannedOffsets rows args.symbol b c p,
      o ∈ scannedOffsets rows args.symbol a c p :=
    fun p o ho => (mem_scannedOffsets_parts hab hbc).mpr (.inr ho)
  have hrows : readOffsetRange (.ok rows) args.symbol a c ≠ [] :=
    fun hnil => hrows₁ (readOffsetRange_parts hab hbc hnil).1
  have hkept₁ : Kept out₁.topic rows args.symbol a b :=
    hkept.mono hsub₁ fun _ => ⟨[], OffsetLog.Extends.refl _⟩
  rw [h.read_of_table hunlimited htable₁ hrows hkept,
    h₁.read_of_table hunlimited htable₁ hrows₁ hkept₁,
    h₂.read_of_table hunlimited htable₂ hrows₂ (hkept.mono hsub₂ hgrown)]
  refine forall_congr' fun p => ?_
  obtain ⟨extra, hextends⟩ := hgrown p
  rw [← ofPartition_tableRanges_congr (fun _ => Iff.rfl)
    (fun o ho => hkept.records p o (hsub₂ p o ho)) hextends]
  exact ofPartition_parts_iff hab hbc hkept

/-- Four records of one partition, with a timestamp that is less than the one before. -/
def seamTopic : Topic where
  partitions := [1]
  distinct := List.nodup_singleton 1
  log := fun _ => OffsetLog.empty.appendAll
    [⟨none, none, 1000⟩, ⟨none, none, 3000⟩, ⟨none, none, 2000⟩, ⟨none, none, 5000⟩]

def seamOutside (rows : List IcebergRow) : Outside :=
  { sampleOutside with
    table := .ok rows
    topic := seamTopic }

lemma exists_seamRun (rows : List IcebergRow) (hrows : ∀ row ∈ rows, row.kafkaOffset < 4)
    (a b : ℤ) : ∃ s, ReplayEnds (seamOutside rows) (sampleArgs.window a b) true s ∧
      s.read = announcement (seamOutside rows) (sampleArgs.window a b) := by
  have hplaces : KnownPlaces (seamOutside rows) := by
    intro rows' hrows' row hrow _ _
    rw [← Except.ok.inj hrows'] at hrow
    exact hrows row hrow
  obtain ⟨s, hs⟩ : ∃ s, DryRunEnds (seamOutside rows) (sampleArgs.window a b) s :=
    exists_dryRunEnds hplaces
  exact ⟨s, ⟨hs.1, hs.2⟩, hs.read_eq hplaces⟩

/-- Rows of the first and the third record. -/
def seamRows : List IcebergRow :=
  [⟨1500000, .str "btcusdt", 1, 0⟩, ⟨3000000, .str "btcusdt", 1, 2⟩]

/-- The second record is lost. -/
theorem table_parts_add_up_iff_sample :
    ∃ s s₁ s₂ : ReplayState,
      ReplayEnds (seamOutside seamRows) (sampleArgs.window 1000000 4000000) true s ∧
      ReplayEnds (seamOutside seamRows) (sampleArgs.window 1000000 2500000) true s₁ ∧
      ReplayEnds (seamOutside seamRows) (sampleArgs.window 2500000 4000000) true s₂ ∧
      ¬ ∀ p, ofPartition p s.read = ofPartition p s₁.read ++ ofPartition p s₂.read := by
  have hrows : ∀ row ∈ seamRows, row.kafkaOffset < 4 := by decide
  have hoffsets : ∀ row ∈ seamRows, row.kafkaOffset = 0 ∨ row.kafkaOffset = 2 := by decide
  have hplaces : ∀ p, ∀ o ∈ scannedOffsets seamRows none 1000000 4000000 p, o = 0 ∨ o = 2 := by
    intro p o ho
    obtain ⟨⟨row, hrow, _, _, rfl⟩, _⟩ := mem_scannedOffsets.mp ho
    exact hoffsets row hrow
  obtain ⟨s, h, _⟩ := exists_seamRun seamRows hrows 1000000 4000000
  obtain ⟨s₁, h₁, _⟩ := exists_seamRun seamRows hrows 1000000 2500000
  obtain ⟨s₂, h₂, _⟩ := exists_seamRun seamRows hrows 2500000 4000000
  refine ⟨s, s₁, s₂, h, h₁, h₂, fun hall => ?_⟩
  have hkept : Kept (seamOutside seamRows).topic seamRows sampleArgs.symbol 1000000 4000000 := by
    constructor
    · intro p o ho
      rcases hplaces p o ho with rfl | rfl
      · exact ⟨_, .head _, rfl⟩
      · exact ⟨_, .tail _ (.tail _ (.head _)), rfl⟩
    · intro p o ho
      refine ⟨_, .tail _ (.tail _ (.tail _ (.head _))), ?_⟩
      rcases hplaces p o ho with rfl | rfl <;> decide
  have hseamless := (table_parts_add_up_iff sampleArgs (by decide) (by decide) rfl rfl rfl
    (by decide +kernel) (by decide +kernel) (fun _ => ⟨[], OffsetLog.Extends.refl _⟩) hkept
    h h₁ h₂).mp hall 1 0 (by decide +kernel) 2 (by decide +kernel)
  rcases hseamless.2 (1, ⟨none, none, 3000⟩) (.tail _ (.head _)) with ⟨o, ho, hle⟩ | ⟨o, ho, hle⟩
  · revert o
    decide +kernel
  · revert o
    decide +kernel

end Table

end Ticksense
