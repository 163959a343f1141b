import Mathlib.Algebra.BigOperators.Group.Finset.Basic
import Mathlib.Algebra.Order.BigOperators.Group.Finset
import Mathlib.Data.List.Induction
import Mathlib.Data.List.ReduceOption
import Mathlib.Order.Interval.Finset.Nat
import Ticksense.Lib.Machine
import Ticksense.Lib.Transducer

/-!
# A stream job that is restored from checkpoints

A job reads the partitions of a log, each in order, and keeps a state; in between, events of its own
happen to it, such as timers.  Now and then a snapshot of its positions and its state is saved; when
an attempt fails, the next one starts from the saved snapshot, without what of the state is not in a
checkpoint.  The outputs leave on two ways: into a `table`, in transactions that belong to the
snapshots, and into a `topic`, as they come.

* `Step` — everything that can happen, in any order: records arrive, an attempt starts, reads,
  sends, saves, fails; a transaction is committed.
* `Computes` — one run over some interleaving of the partitions, each up to a position, that loses
  nothing but what a new attempt does not have, ends in a state with an output.
* `Consistent`, `consistent_of_reaches` — in every state reached, the table together with the
  prepared transactions is computed by one such run up to the saved positions, and all of it is in
  the topic; the topic holds nothing but outputs of such runs.
* `Computes.withoutCopies` — a job that copies of what it has read do not change computes over a log
  with copies what it computes over the log without them.
* `stuck_before` — no snapshot is ever saved behind a record on which the job fails.
* `can_finish`, `can_finish_iff` — a job that can read every record, and only such a job, can get all
  of it into the table, from every state reached.
* `ahead_of_reaches` — what relates a running attempt to the saved snapshot.
-/

namespace Checkpoint

open Transducer

/-- A job: its state at the start, what it does with an element, the record that an element is, if
it is not an event of the job's own, and the partition of a record.  `Admits` says which elements
the surroundings can make of a record: the same record may be read at another time.  `resume` is
what a new attempt has of a saved state. -/
structure Job (π α ι ε σ ο : Type*) where
  start : σ
  step : σ → ι → Except ε (σ × List ο)
  record : ι → Option α
  partition : α → π
  Admits : ι → Prop
  resume : σ → σ

/-- What is saved: how far each partition has been read, and the state. -/
structure Snapshot (π σ : Type*) where
  position : π → ℕ
  state : σ

/-- A running attempt.  `pending` is its output since the last snapshot, `unsent` the end of that
which is not in the topic yet. -/
structure Attempt (π σ ο : Type*) where
  snapshot : Snapshot π σ
  pending : List ο
  unsent : List ο

/-- The log, the saved snapshot, the outputs that belong to it and are not in the table yet, the two
places outputs go to, and the attempt, if one is running. -/
structure System (π α σ ο : Type*) where
  log : List α
  saved : Snapshot π σ
  prepared : List ο
  table : List ο
  topic : List ο
  attempt : Option (Attempt π σ ο)

variable {π α ι ε σ ο : Type*} [DecidableEq π] (job : Job π α ι ε σ ο)

/-- The records of a partition, in order. -/
def Job.inPartition (p : π) (log : List α) : List α :=
  log.filter fun a => job.partition a = p

/-- Before anything was read. -/
def System.fresh (log : List α) : System π α σ ο :=
  ⟨log, ⟨fun _ => 0, job.start⟩, [], [], [], none⟩

/-- The positions after one more element. -/
def Job.advance (position : π → ℕ) (i : ι) : π → ℕ :=
  match job.record i with
  | none => position
  | some a => Function.update position (job.partition a) (position (job.partition a) + 1)

@[simp] lemma Job.advance_self {i : ι} {a : α} (h : job.record i = some a) (position : π → ℕ) :
    job.advance position i (job.partition a) = position (job.partition a) + 1 := by
  rw [Job.advance, h]
  exact Function.update_self _ _ _

lemma Job.advance_of_ne {i : ι} {p : π} (h : ∀ a ∈ job.record i, p ≠ job.partition a)
    (position : π → ℕ) : job.advance position i p = position p := by
  rw [Job.advance]
  cases hi : job.record i with
  | none => rfl
  | some a => exact Function.update_of_ne (h a hi) _ _

/-- The snapshot after one more element. -/
def Snapshot.next (snapshot : Snapshot π σ) (i : ι) (s : σ) : Snapshot π σ :=
  ⟨job.advance snapshot.position i, s⟩

/-- What a new attempt starts from. -/
def Snapshot.resumed (snapshot : Snapshot π σ) : Snapshot π σ :=
  ⟨snapshot.position, job.resume snapshot.state⟩

/-- The attempt after one more element, with what it wrote. -/
def Attempt.next (a : Attempt π σ ο) (i : ι) (s : σ) (os : List ο) : Attempt π σ ο :=
  ⟨a.snapshot.next job i s, a.pending ++ os, a.unsent ++ os⟩

/-- The element, if it is a record, is the next one of its partition. -/
def Job.IsNext (log : List α) (position : π → ℕ) (i : ι) : Prop :=
  ∀ a ∈ job.record i, (job.inPartition (job.partition a) log)[position (job.partition a)]? = some a

/-- One event. -/
inductive Step : System π α σ ο → System π α σ ο → Prop
  /-- a record arrives -/
  | append (sys : System π α σ ο) (a : α) : Step sys { sys with log := sys.log ++ [a] }
  /-- an attempt starts from what was saved -/
  | restore {sys : System π α σ ο} (h : sys.attempt = none) :
      Step sys { sys with attempt := some ⟨sys.saved.resumed job, [], []⟩ }
  /-- the attempt reads the next record of some partition, or an event of its own happens to it -/
  | read {sys : System π α σ ο} {a : Attempt π σ ο} {i : ι} {s : σ} {os : List ο}
      (ha : sys.attempt = some a) (hi : job.Admits i)
      (hnext : job.IsNext sys.log a.snapshot.position i)
      (hs : job.step a.snapshot.state i = .ok (s, os)) :
      Step sys { sys with attempt := some (a.next job i s os) }
  /-- some outputs reach the topic -/
  | send {sys : System π α σ ο} {a : Attempt π σ ο} {os rest : List ο}
      (ha : sys.attempt = some a) (hunsent : a.unsent = os ++ rest) :
      Step sys { sys with topic := sys.topic ++ os, attempt := some { a with unsent := rest } }
  /-- a snapshot is saved, once the outputs so far are in the topic -/
  | save {sys : System π α σ ο} {a : Attempt π σ ο} (ha : sys.attempt = some a)
      (hsent : a.unsent = []) :
      Step sys { sys with
        saved := a.snapshot
        prepared := sys.prepared ++ a.pending
        attempt := some { a with pending := [] } }
  /-- the prepared outputs reach the table -/
  | commit (sys : System π α σ ο) :
      Step sys { sys with table := sys.table ++ sys.prepared, prepared := [] }
  /-- the attempt fails: a machine is lost, or an element raised -/
  | fail (sys : System π α σ ο) : Step sys { sys with attempt := none }

/-! ## Single runs -/

/-- The elements are the records of each partition up to its position, in order; the partitions may
be interleaved in any way. -/
structure Reads (log : List α) (position : π → ℕ) (is : List ι) : Prop where
  admits : ∀ i ∈ is, job.Admits i
  le : ∀ p, position p ≤ (job.inPartition p log).length
  eq : ∀ p, job.inPartition p (is.filterMap job.record) = (job.inPartition p log).take (position p)

/-- An element, or the start of a new attempt. -/
def Job.event (s : σ) : Option ι → Except ε (σ × List ο)
  | none => .ok (job.resume s, [])
  | some i => job.step s i

/-- **One run** up to the snapshot's positions ends in its state, with this output. -/
def Computes (log : List α) (snapshot : Snapshot π σ) (os : List ο) : Prop :=
  ∃ is : List (Option ι), Reads job log snapshot.position is.reduceOption ∧
    run job.event job.start is = .ok (snapshot.state, os)

variable {job}

omit [DecidableEq π] in
/-- Where a new attempt has all of the saved state, its start does nothing. -/
lemma Job.run_event (hresume : ∀ s, job.resume s = s) (s : σ) (is : List (Option ι)) :
    run job.event s is = run job.step s is.reduceOption := by
  induction is generalizing s with
  | nil => rfl
  | cons i is ih =>
      cases i with
      | none =>
          have hidle : job.event s none = .ok (s, []) := by rw [Job.event, hresume]
          rw [List.reduceOption_cons_of_none, ← ih, run_cons_stutter hidle]
      | some i =>
          rw [List.reduceOption_cons_of_some, run, run, Job.event]
          cases job.step s i with
          | error e => rfl
          | ok r => simp only [ih]

/-- Then it is a run without failures. -/
lemma Computes.run_step {log : List α} {snapshot : Snapshot π σ} {os : List ο}
    (h : Computes job log snapshot os) (hresume : ∀ s, job.resume s = s) :
    ∃ is, Reads job log snapshot.position is ∧
      run job.step job.start is = .ok (snapshot.state, os) := by
  obtain ⟨is, hreads, hrun⟩ := h
  exact ⟨is.reduceOption, hreads, job.run_event hresume job.start is ▸ hrun⟩

/-- A run without failures is one. -/
lemma Computes.of_run {log : List α} {snapshot : Snapshot π σ} {is : List ι} {os : List ο}
    (hreads : Reads job log snapshot.position is)
    (hrun : run job.step job.start is = .ok (snapshot.state, os)) :
    Computes job log snapshot os := by
  have hreduce : ∀ is : List ι, (is.map some).reduceOption = is := by
    intro is
    simp [List.reduceOption]
  have hevents : ∀ (s : σ) (is : List ι), run job.event s (is.map some) = run job.step s is := by
    intro s is
    induction is generalizing s with
    | nil => rfl
    | cons i is ih => simp only [List.map_cons, run, Job.event, ih]
  exact ⟨is.map some, (hreduce is).symm ▸ hreads, (hevents _ is).trans hrun⟩

lemma Job.inPartition_append (p : π) (log log' : List α) :
    job.inPartition p (log ++ log') = job.inPartition p log ++ job.inPartition p log' :=
  List.filter_append _ _

lemma Job.count_inPartition [DecidableEq α] (job : Job π α ι ε σ ο) (a : α) (l : List α) :
    (job.inPartition (job.partition a) l).count a = l.count a := by
  rw [Job.inPartition, List.count_filter (by simp)]

lemma Reads.nil (log : List α) : Reads job log (fun _ => 0) [] :=
  ⟨by simp, by simp, by simp [Job.inPartition]⟩

/-- What was read is in the log. -/
lemma Reads.mem {log : List α} {position : π → ℕ} {is : List ι} (h : Reads job log position is)
    {i : ι} (hi : i ∈ is) {a : α} (ha : job.record i = some a) : a ∈ log := by
  have hmem : a ∈ job.inPartition (job.partition a) (is.filterMap job.record) :=
    List.mem_filter.mpr ⟨List.mem_filterMap.mpr ⟨i, hi, ha⟩, by simp⟩
  rw [h.eq] at hmem
  exact List.mem_of_mem_filter (List.mem_of_mem_take hmem)

/-- Apart from the order, what was read is a part of the log. -/
theorem Reads.subperm {log : List α} {position : π → ℕ} {is : List ι}
    (h : Reads job log position is) : (is.filterMap job.record).Subperm log := by
  classical
  refine List.subperm_ext_iff.mpr fun a _ => ?_
  rw [← job.count_inPartition, ← job.count_inPartition a log, h.eq]
  exact (List.take_sublist _ _).count_le a

/-- Records that arrive later leave a prefix as it was. -/
lemma Reads.append {log : List α} {position : π → ℕ} {is : List ι} (h : Reads job log position is)
    (a : α) : Reads job (log ++ [a]) position is := by
  refine ⟨h.admits, fun p => ?_, fun p => ?_⟩
  · rw [Job.inPartition_append, List.length_append]
    exact le_trans (h.le p) (Nat.le_add_right _ _)
  · rw [h.eq, Job.inPartition_append, List.take_append_of_le_length (h.le p)]

/-- One more element. -/
lemma Reads.next {log : List α} {position : π → ℕ} {is : List ι} (h : Reads job log position is)
    {i : ι} (hi : job.Admits i) (hnext : job.IsNext log position i) :
    Reads job log (job.advance position i) (is ++ [i]) := by
  have hadmits : ∀ j ∈ is ++ [i], job.Admits j := by
    intro j hj
    rcases List.mem_append.mp hj with hj | hj
    · exact h.admits j hj
    · rwa [List.mem_singleton.mp hj]
  have heq : ∀ p, job.inPartition p ((is ++ [i]).filterMap job.record)
      = (job.inPartition p log).take (position p)
        ++ job.inPartition p ([i].filterMap job.record) := by
    intro p
    rw [List.filterMap_append, Job.inPartition_append, h.eq]
  cases hi' : job.record i with
  | none =>
      have hsame : ∀ p, job.advance position i p = position p :=
        fun p => job.advance_of_ne (by simp [hi']) position
      refine ⟨hadmits, fun p => ?_, fun p => ?_⟩
      · rw [hsame]
        exact h.le p
      · rw [heq, hsame]
        simp [hi', Job.inPartition]
  | some a =>
      obtain ⟨hlt, hrecord⟩ := List.getElem?_eq_some_iff.mp (hnext a hi')
      have hother : ∀ {p}, p ≠ job.partition a → job.advance position i p = position p :=
        fun hp => job.advance_of_ne (by simpa [hi'] using hp) position
      refine ⟨hadmits, fun p => ?_, fun p => ?_⟩
      · by_cases hp : p = job.partition a
        · subst hp
          rw [job.advance_self hi']
          exact hlt
        · rw [hother hp]
          exact h.le p
      · rw [heq]
        by_cases hp : p = job.partition a
        · subst hp
          rw [job.advance_self hi', List.take_succ_eq_append_getElem hlt, hrecord]
          simp [Job.inPartition, hi']
        · rw [hother hp]
          simp [Job.inPartition, Ne.symm hp, hi']

lemma Computes.append {log : List α} {snapshot : Snapshot π σ} {os : List ο}
    (h : Computes job log snapshot os) (a : α) : Computes job (log ++ [a]) snapshot os := by
  obtain ⟨is, hreads, hrun⟩ := h
  exact ⟨is, hreads.append a, hrun⟩

lemma Computes.next {log : List α} {snapshot : Snapshot π σ} {os os' : List ο} {i : ι} {s : σ}
    (h : Computes job log snapshot os) (hi : job.Admits i)
    (hnext : job.IsNext log snapshot.position i)
    (hs : job.step snapshot.state i = .ok (s, os')) :
    Computes job log (snapshot.next job i s) (os ++ os') := by
  obtain ⟨is, hreads, hrun⟩ := h
  refine ⟨is ++ [some i], ?_, run_append_ok hrun (run_singleton_ok hs)⟩
  rw [List.reduceOption_append, List.reduceOption_singleton, Option.toList_some]
  exact hreads.next hi hnext

/-- A new attempt starts. -/
lemma Computes.resumed {log : List α} {snapshot : Snapshot π σ} {os : List ο}
    (h : Computes job log snapshot os) : Computes job log (snapshot.resumed job) os := by
  obtain ⟨is, hreads, hrun⟩ := h
  have hlast : run job.event snapshot.state [none] = .ok (job.resume snapshot.state, []) :=
    run_singleton_ok rfl
  refine ⟨is ++ [none], ?_, ?_⟩
  · simpa [List.reduceOption_append, Snapshot.resumed] using hreads
  · simpa [Snapshot.resumed] using run_append_ok hrun hlast

/-- A record in front of the position was read, and did not fail. -/
lemma Computes.reads_before {log : List α} {snapshot : Snapshot π σ} {os : List ο}
    (h : Computes job log snapshot os) {p : π} {n : ℕ} {a : α}
    (ha : (job.inPartition p log)[n]? = some a) (hn : n < snapshot.position p) :
    ∃ s i r, job.Admits i ∧ job.record i = some a ∧ job.step s i = .ok r := by
  obtain ⟨is, hreads, hrun⟩ := h
  have hmem : a ∈ job.inPartition p (is.reduceOption.filterMap job.record) := by
    rw [hreads.eq p]
    refine List.mem_of_getElem? (i := n) ?_
    rw [List.getElem?_take_of_lt hn, ha]
  obtain ⟨i, hi, hrecord⟩ := List.mem_filterMap.mp (List.mem_of_mem_filter hmem)
  obtain ⟨s, r, hstep⟩ := run_ok_step hrun (List.reduceOption_mem_iff.mp hi)
  exact ⟨s, i, r, hreads.admits i hi, hrecord, hstep⟩

/-! ## Copies in the log -/

/-- The record of one element is a copy of that of another. -/
def Job.CopyOf (job : Job π α ι ε σ ο) (copy : α → α → Prop) (i c : ι) : Prop :=
  ∃ a ∈ job.record i, ∃ b ∈ job.record c, copy a b

/-- The records of the elements in a partition. -/
def Job.recordsIn (job : Job π α ι ε σ ο) (p : π) (is : List ι) : List α :=
  job.inPartition p (is.filterMap job.record)

lemma Job.recordsIn_append_of_ne {p : π} {i : ι} (h : ∀ a ∈ job.record i, p ≠ job.partition a)
    (is : List ι) : job.recordsIn p (is ++ [i]) = job.recordsIn p is := by
  rw [recordsIn, recordsIn, List.filterMap_append, inPartition_append]
  cases hi : job.record i with
  | none => simp [inPartition, hi]
  | some a => simp [inPartition, hi, Ne.symm (h a hi)]

lemma Job.recordsIn_append_self {i : ι} {a : α} (h : job.record i = some a) (is : List ι) :
    job.recordsIn (job.partition a) (is ++ [i]) = job.recordsIn (job.partition a) is ++ [a] := by
  rw [recordsIn, recordsIn, List.filterMap_append, inPartition_append]
  simp [inPartition, h]

/-- How far two runs have come: in each partition the rest of one log is the rest of the other one
with copies, of records further on or of those already read. -/
def Job.Beside (job : Job π α ι ε σ ο) (copy : α → α → Prop) (log log' : List α)
    (is is' : List ι) : Prop :=
  ∀ p, ∃ rest rest', job.inPartition p log = job.recordsIn p is ++ rest ∧
    job.inPartition p log' = job.recordsIn p is' ++ rest' ∧
    WithCopies copy (job.recordsIn p is) rest rest'

section Beside

variable {copy : α → α → Prop} {log log' : List α} {is is' : List ι} {i : ι} {a : α}

/-- A step of both. -/
lemma Job.Beside.both (h : job.Beside copy log log' is is')
    (hi : ∀ a ∈ job.record i, ∃ rest rest',
      job.inPartition (job.partition a) log = job.recordsIn (job.partition a) is ++ a :: rest ∧
      job.inPartition (job.partition a) log' = job.recordsIn (job.partition a) is' ++ a :: rest' ∧
      WithCopies copy (a :: job.recordsIn (job.partition a) is) rest rest') :
    job.Beside copy log log' (is ++ [i]) (is' ++ [i]) := by
  intro p
  by_cases hp : ∃ a ∈ job.record i, p = job.partition a
  · obtain ⟨a, ha, rfl⟩ := hp
    obtain ⟨rest, rest', hlog, hlog', hrest⟩ := hi a ha
    refine ⟨rest, rest', ?_, ?_, ?_⟩
    · rw [job.recordsIn_append_self ha, hlog, List.append_assoc, List.singleton_append]
    · rw [job.recordsIn_append_self ha, hlog', List.append_assoc, List.singleton_append]
    · refine hrest.mono fun b hb => ?_
      rw [job.recordsIn_append_self ha, List.mem_append, List.mem_singleton]
      exact (List.mem_cons.mp hb).symm
  · have hne : ∀ a ∈ job.record i, p ≠ job.partition a := fun a ha heq => hp ⟨a, ha, heq⟩
    rw [job.recordsIn_append_of_ne hne, job.recordsIn_append_of_ne hne]
    exact h p

/-- A copy is read in one of them only. -/
lemma Job.Beside.copied (h : job.Beside copy log log' is is') (hi : job.record i = some a)
    {rest rest' : List α}
    (hlog : job.inPartition (job.partition a) log = job.recordsIn (job.partition a) is ++ rest)
    (hlog' : job.inPartition (job.partition a) log'
      = job.recordsIn (job.partition a) is' ++ a :: rest')
    (hrest : WithCopies copy (job.recordsIn (job.partition a) is) rest rest') :
    job.Beside copy log log' is (is' ++ [i]) := by
  intro p
  by_cases hp : p = job.partition a
  · subst hp
    refine ⟨rest, rest', hlog, ?_, hrest⟩
    rw [job.recordsIn_append_self hi, hlog', List.append_assoc, List.singleton_append]
  · rw [job.recordsIn_append_of_ne (by simpa [hi] using hp)]
    exact h p

/-- **Reading a log with copies** is reading the log without them, and copies in between. -/
lemma Job.exists_originals
    (hcopies : ∀ p, WithCopies copy [] (job.inPartition p log) (job.inPartition p log'))
    (is' : List ι) (hread : ∀ p, job.recordsIn p is' <+: job.inPartition p log') :
    ∃ is, WithCopies (job.CopyOf copy) [] is is' ∧ (∀ i ∈ is, i ∈ is') ∧
      job.Beside copy log log' is is' := by
  induction is' using List.reverseRecOn with
  | nil => exact ⟨[], .nil, by simp, fun p => ⟨_, _, rfl, rfl, hcopies p⟩⟩
  | append_singleton is' i ih =>
      have hbefore : ∀ p, job.recordsIn p is' <+: job.recordsIn p (is' ++ [i]) := by
        intro p
        rw [recordsIn, recordsIn, List.filterMap_append, inPartition_append]
        exact List.prefix_append _ _
      obtain ⟨is, hwith, hmem, hbeside⟩ := ih fun p => (hbefore p).trans (hread p)
      have hmem' : ∀ j ∈ is ++ [i], j ∈ is' ++ [i] := by
        intro j hj
        rcases List.mem_append.mp hj with hj | hj
        · exact List.mem_append_left _ (hmem j hj)
        · exact List.mem_append_right _ hj
      cases hi : job.record i with
      | none => exact ⟨is ++ [i], hwith.append_original i, hmem', hbeside.both (by simp [hi])⟩
      | some a =>
          obtain ⟨rest, rest', hlog, hlog', hrest⟩ := hbeside (job.partition a)
          -- the element is the next record of its partition
          obtain ⟨more, hmore⟩ := hread (job.partition a)
          rw [job.recordsIn_append_self hi, List.append_assoc, hlog'] at hmore
          obtain rfl : rest' = a :: more := (List.append_cancel_left hmore).symm
          cases hrest with
          | @original _ rest _ _ hrest =>
              refine ⟨is ++ [i], hwith.append_original i, hmem', hbeside.both ?_⟩
              rintro b hb
              obtain rfl : a = b := Option.some.inj (hi.symm.trans hb)
              exact ⟨rest, more, hlog, hlog', hrest⟩
          | @copied _ _ _ b _ hb hcopy hrest =>
              obtain ⟨j, hj, hrecord⟩ := List.mem_filterMap.mp (List.mem_of_mem_filter hb)
              exact ⟨is, hwith.append_copied (Or.inl hj) ⟨b, hrecord, a, hi, hcopy⟩,
                fun j hj => List.mem_append_left _ (hmem j hj),
                hbeside.copied hi hlog hlog' hrest⟩

end Beside

/-- **Copies in the log change nothing** for a job that they do not change: what is computed over the
log with copies is computed over the log without. -/
theorem Computes.withoutCopies {copy : α → α → Prop} {log log' : List α}
    (hresume : ∀ s, job.resume s = s)
    (hrun : ∀ is is', WithCopies (job.CopyOf copy) [] is is' →
      run job.step job.start is' = run job.step job.start is)
    (hcopies : ∀ p, WithCopies copy [] (job.inPartition p log) (job.inPartition p log'))
    {snapshot : Snapshot π σ} {os : List ο} (h : Computes job log' snapshot os) :
    ∃ position, Computes job log ⟨position, snapshot.state⟩ os ∧
      ((∀ p, snapshot.position p = (job.inPartition p log').length) →
        ∀ p, position p = (job.inPartition p log).length) := by
  obtain ⟨is', hreads, hok⟩ := h.run_step hresume
  have hread : ∀ p, job.recordsIn p is' <+: job.inPartition p log' := by
    intro p
    rw [Job.recordsIn, hreads.eq]
    exact List.take_prefix _ _
  obtain ⟨is, hwith, hmem, hbeside⟩ := job.exists_originals hcopies is' hread
  refine ⟨fun p => (job.recordsIn p is).length, @Computes.of_run _ _ _ _ _ _ _ job log _ is os
    ⟨?_, ?_, ?_⟩ ?_, ?_⟩
  · exact fun i hi => hreads.admits i (hmem i hi)
  · intro p
    obtain ⟨rest, _, hlog, _⟩ := hbeside p
    rw [hlog, List.length_append]
    exact Nat.le_add_right _ _
  · intro p
    obtain ⟨rest, _, hlog, _⟩ := hbeside p
    rw [hlog, List.take_left']
    · rfl
    · rfl
  · rw [← hrun is is' hwith]
    exact hok
  · intro hend p
    obtain ⟨rest, rest', hlog, hlog', hrest⟩ := hbeside p
    have hall : job.recordsIn p is' = job.inPartition p log' := by
      rw [Job.recordsIn, hreads.eq, hend p, List.take_length]
    rw [hall] at hlog'
    obtain rfl : rest' = [] := (List.append_right_eq_self).mp hlog'.symm
    cases hrest
    rw [hlog, List.append_nil]

/-! ## What holds whatever happens -/

/-- **The state of the two outputs.** -/
structure Consistent (job : Job π α ι ε σ ο) (sys : System π α σ ο) : Prop where
  saved : Computes job sys.log sys.saved (sys.table ++ sys.prepared)
  attempt : ∀ a ∈ sys.attempt,
    Computes job sys.log a.snapshot (sys.table ++ sys.prepared ++ a.pending)
  sent : (sys.table ++ sys.prepared).Sublist sys.topic
  sending : ∀ a ∈ sys.attempt, ∃ os, a.pending = os ++ a.unsent ∧
    (sys.table ++ sys.prepared ++ os).Sublist sys.topic
  computed : ∀ o ∈ sys.topic, ∃ snapshot os, Computes job sys.log snapshot os ∧ o ∈ os

lemma consistent_fresh (log : List α) : Consistent job (System.fresh job log) where
  saved := ⟨[], Reads.nil log, rfl⟩
  attempt := by simp [System.fresh]
  sent := by simp [System.fresh]
  sending := by simp [System.fresh]
  computed := by simp [System.fresh]

/-- **One event** keeps the outputs consistent. -/
lemma consistent_step {sys sys' : System π α σ ο} (h : Consistent job sys)
    (hstep : Step job sys sys') : Consistent job sys' := by
  cases hstep with
  | append a =>
      refine ⟨h.saved.append a, fun b hb => (h.attempt b hb).append a, h.sent, h.sending, ?_⟩
      intro o ho
      obtain ⟨snapshot, os, hcomputes, hmem⟩ := h.computed o ho
      exact ⟨snapshot, os, hcomputes.append a, hmem⟩
  | restore hnone =>
      refine ⟨h.saved, ?_, h.sent, ?_, h.computed⟩
      · rintro a ⟨⟩
        simpa using h.saved.resumed
      · rintro a ⟨⟩
        exact ⟨[], rfl, by simpa using h.sent⟩
  | @read a i s os ha hi hnext hs =>
      refine ⟨h.saved, ?_, h.sent, ?_, h.computed⟩
      · rintro b ⟨⟩
        have hnew := (h.attempt a ha).next hi hnext hs
        rwa [List.append_assoc] at hnew
      · rintro b ⟨⟩
        obtain ⟨sent, hpending, hsub⟩ := h.sending a ha
        exact ⟨sent, by simp [Attempt.next, hpending], hsub⟩
  | @send a os rest ha hunsent =>
      obtain ⟨sent, hpending, hsub⟩ := h.sending a ha
      refine ⟨h.saved, ?_, h.sent.trans (List.sublist_append_left _ _), ?_, ?_⟩
      · rintro b ⟨⟩
        exact h.attempt a ha
      · rintro b ⟨⟩
        refine ⟨sent ++ os, by rw [hpending, hunsent, List.append_assoc], ?_⟩
        rw [← List.append_assoc]
        exact hsub.append (List.Sublist.refl os)
      · intro o ho
        rcases List.mem_append.mp ho with ho | ho
        · exact h.computed o ho
        · refine ⟨_, _, h.attempt a ha, ?_⟩
          simp [hpending, hunsent, ho]
  | @save a ha hsent =>
      obtain ⟨sent, hpending, hsub⟩ := h.sending a ha
      rw [hsent, List.append_nil] at hpending
      subst hpending
      refine ⟨?_, ?_, ?_, ?_, h.computed⟩
      · simpa only [List.append_assoc] using h.attempt a ha
      · rintro b ⟨⟩
        simpa only [List.append_assoc, List.append_nil] using h.attempt a ha
      · simpa only [List.append_assoc] using hsub
      · rintro b ⟨⟩
        refine ⟨[], by simp [hsent], ?_⟩
        simpa only [List.append_assoc, List.append_nil] using hsub
  | commit =>
      refine ⟨?_, ?_, ?_, ?_, h.computed⟩
      · simpa using h.saved
      · simpa using h.attempt
      · simpa using h.sent
      · simpa using h.sending
  | fail => exact ⟨h.saved, by simp, h.sent, by simp, h.computed⟩

/-- **Any run.**  Whatever arrives, fails and is restored in between. -/
theorem consistent_of_reaches {log : List α} {sys : System π α σ ο}
    (h : Machine.Reaches (Step job) (System.fresh job log) sys) : Consistent job sys :=
  Machine.invariant (P := Consistent job) (fun _ _ hs hstep => consistent_step hs hstep)
    (consistent_fresh log) h

/-- **A record on which the job fails in every state** is never passed: neither a snapshot nor an
attempt has a position behind it. -/
theorem stuck_before {log : List α} {sys : System π α σ ο}
    (h : Machine.Reaches (Step job) (System.fresh job log) sys) {p : π} {n : ℕ} {a : α}
    (ha : (job.inPartition p sys.log)[n]? = some a)
    (hfails : ∀ s i, job.Admits i → job.record i = some a → ∃ e, job.step s i = .error e) :
    sys.saved.position p ≤ n ∧ ∀ b ∈ sys.attempt, b.snapshot.position p ≤ n := by
  have hbound : ∀ snapshot os, Computes job sys.log snapshot os → snapshot.position p ≤ n := by
    intro snapshot os hcomputes
    by_contra hn
    obtain ⟨s, i, r, hi, hrecord, hstep⟩ := hcomputes.reads_before ha (not_le.mp hn)
    obtain ⟨e, he⟩ := hfails s i hi hrecord
    rw [he] at hstep
    cases hstep
  have hcons := consistent_of_reaches h
  exact ⟨hbound _ _ hcons.saved, fun b hb => hbound _ _ (hcons.attempt b hb)⟩

/-! ## Some runs -/

/-- The snapshot has every record that has arrived. -/
def Snapshot.AtEnd (job : Job π α ι ε σ ο) (log : List α) (snapshot : Snapshot π σ) : Prop :=
  ∀ p, snapshot.position p = (job.inPartition p log).length

/-- What the attempt has written is sent, saved and committed. -/
def System.finish (sys : System π α σ ο) (a : Attempt π σ ο) : System π α σ ο :=
  ⟨sys.log, a.snapshot, [], sys.table ++ (sys.prepared ++ a.pending), sys.topic ++ a.unsent,
    some ⟨a.snapshot, [], []⟩⟩

lemma reaches_finish {sys : System π α σ ο} {a : Attempt π σ ο} (ha : sys.attempt = some a) :
    Machine.Reaches (Step job) sys (sys.finish a) := by
  have hsend : Step job sys
      { sys with topic := sys.topic ++ a.unsent, attempt := some { a with unsent := [] } } :=
    .send ha (List.append_nil a.unsent).symm
  exact ((Relation.ReflTransGen.single hsend).tail (.save rfl rfl)).tail (.commit _)

/-- How many records of each partition are among these. -/
def Job.counts (job : Job π α ι ε σ ο) (records : List α) (p : π) : ℕ :=
  (job.inPartition p records).length

lemma Job.advance_counts (job : Job π α ι ε σ ο) (records : List α) (i : ι) :
    job.advance (job.counts records) i = job.counts (records ++ (job.record i).toList) := by
  funext p
  rw [counts, inPartition_append, List.length_append]
  cases hi : job.record i with
  | none => simp [Job.advance, hi, counts, inPartition]
  | some a =>
      by_cases hp : p = job.partition a
      · subst hp
        rw [job.advance_self hi]
        simp [counts, inPartition]
      · rw [job.advance_of_ne (by simpa [hi] using hp)]
        simp [counts, inPartition, Ne.symm hp]

/-- A running attempt reads records in the order in which they arrived. -/
lemma reaches_read {is : List ι} {sys : System π α σ ο} {a : Attempt π σ ο} {before rest : List α}
    (ha : sys.attempt = some a) (hposition : a.snapshot.position = job.counts before)
    (hlog : sys.log = before ++ is.filterMap job.record ++ rest) (hadmits : ∀ i ∈ is, job.Admits i)
    {s : σ} {os : List ο} (hrun : run job.step a.snapshot.state is = .ok (s, os)) :
    Machine.Reaches (Step job) sys { sys with
      attempt := some ⟨⟨job.counts (before ++ is.filterMap job.record), s⟩, a.pending ++ os,
        a.unsent ++ os⟩ } := by
  induction is generalizing sys a before os with
  | nil =>
      cases hrun
      obtain ⟨⟨position, state⟩, pending, unsent⟩ := a
      obtain rfl : position = job.counts before := hposition
      simp [← ha, Relation.ReflTransGen.refl]
  | cons i is ih =>
      obtain ⟨t, o, os, hstep, hrest, rfl⟩ := run_cons_ok.mp hrun
      have hrecords : (i :: is).filterMap job.record
          = (job.record i).toList ++ is.filterMap job.record := by
        cases hi : job.record i <;> simp [hi]
      rw [hrecords, ← List.append_assoc] at hlog ⊢
      have hnext : job.IsNext sys.log a.snapshot.position i := by
        intro b hb
        rw [hlog, Option.mem_def.mp hb, hposition, List.append_assoc, List.append_assoc,
          Job.inPartition_append, Job.counts, List.getElem?_append_right (le_refl _), Nat.sub_self]
        simp [Job.inPartition]
      have hfirst : Step job sys { sys with attempt := some (a.next job i t o) } :=
        .read ha (hadmits i List.mem_cons_self) hnext hstep
      have hposition' : (a.next job i t o).snapshot.position
          = job.counts (before ++ (job.record i).toList) := by
        rw [← job.advance_counts, ← hposition]
        rfl
      refine .head hfirst ?_
      rw [← List.append_assoc, ← List.append_assoc]
      exact @ih { sys with attempt := some (a.next job i t o) } _ _ rfl hposition' hlog
        (fun j hj => hadmits j (List.mem_cons_of_mem i hj)) _ hrest

/-- **A run with a failure.**  An attempt reads the first records of the log, what it writes is sent,
and it fails.  The next one reads the whole log, and what it writes is sent, saved and committed. -/
lemma reaches_failed_once (job : Job π α ι ε σ ο) {log rest : List α} {is is' : List ι} {s s' : σ}
    {os os' : List ο} (hlog : log = is.filterMap job.record ++ rest)
    (hlog' : log = is'.filterMap job.record) (hadmits : ∀ i ∈ is, job.Admits i)
    (hadmits' : ∀ i ∈ is', job.Admits i)
    (hrun : run job.step (job.resume job.start) is = .ok (s, os))
    (hrun' : run job.step (job.resume job.start) is' = .ok (s', os')) :
    ∃ sys, Machine.Reaches (Step job) (System.fresh job log) sys ∧ sys.log = log ∧
      sys.saved.AtEnd job log ∧ sys.saved.state = s' ∧ sys.prepared = [] ∧ sys.table = os' ∧
      sys.topic = os ++ os' := by
  have hzero : (fun _ => 0) = job.counts [] := by
    funext p
    simp [Job.counts, Job.inPartition]
  have hrestore : ∀ topic : List ο, Machine.Reaches (Step job)
      { System.fresh job log with topic := topic }
      { System.fresh job log with
        topic := topic, attempt := some ⟨⟨fun _ => 0, job.resume job.start⟩, [], []⟩ } :=
    fun topic => .single (.restore rfl)
  have hfirst := (hrestore []).trans (reaches_read rfl hzero hlog hadmits hrun)
  have hsend := (hfirst.tail (.send rfl (List.append_nil os).symm)).tail (.fail _)
  have hsecond := (hrestore os).trans
    (reaches_read rfl hzero (hlog'.trans (List.append_nil _).symm) hadmits' hrun')
  refine ⟨_, (hsend.trans hsecond).trans (reaches_finish rfl), rfl, fun p => ?_, rfl, rfl, ?_, ?_⟩
  · show job.counts ([] ++ is'.filterMap job.record) p = _
    rw [List.nil_append, ← hlog']
    rfl
  · simp [System.finish, System.fresh]
  · simp [System.finish, System.fresh]

/-! ## Nothing is lost for good -/

/-- How many records are left to read. -/
def Job.left (job : Job π α ι ε σ ο) (log : List α) (position : π → ℕ) : ℕ :=
  ∑ p ∈ (log.map job.partition).toFinset, ((job.inPartition p log).length - position p)

section Left

variable {log : List α} {position : π → ℕ}

/-- Where something is left, it is the next record of some partition. -/
lemma Job.exists_next (hle : ∀ p, position p ≤ (job.inPartition p log).length)
    (hend : ¬ ∀ p, position p = (job.inPartition p log).length) :
    ∃ a ∈ log, (job.inPartition (job.partition a) log)[position (job.partition a)]? = some a := by
  rw [not_forall] at hend
  obtain ⟨p, hp⟩ := hend
  have hlt : position p < (job.inPartition p log).length := lt_of_le_of_ne (hle p) hp
  obtain ⟨hmem, hpart⟩ := List.mem_filter.mp (List.getElem_mem hlt)
  refine ⟨_, hmem, ?_⟩
  rw [of_decide_eq_true hpart]
  exact List.getElem?_eq_getElem hlt

section Next

variable {i : ι} {a : α} (hi : job.record i = some a)
  (hnext : (job.inPartition (job.partition a) log)[position (job.partition a)]? = some a)
include hi hnext

lemma Job.advance_le (hle : ∀ p, position p ≤ (job.inPartition p log).length) (p : π) :
    job.advance position i p ≤ (job.inPartition p log).length := by
  by_cases hp : p = job.partition a
  · subst hp
    rw [job.advance_self hi]
    exact (List.getElem?_eq_some_iff.mp hnext).1
  · rw [job.advance_of_ne (by simpa [hi] using hp)]
    exact hle p

lemma Job.left_advance_lt : job.left log (job.advance position i) < job.left log position := by
  obtain ⟨hlt, hget⟩ := List.getElem?_eq_some_iff.mp hnext
  have hmem : a ∈ log := by
    rw [← hget]
    exact List.mem_of_mem_filter (List.getElem_mem hlt)
  refine Finset.sum_lt_sum (fun p _ => ?_) ⟨job.partition a, ?_, ?_⟩
  · by_cases hp : p = job.partition a
    · subst hp
      rw [job.advance_self hi]
      omega
    · rw [job.advance_of_ne (by simpa [hi] using hp)]
  · rw [List.mem_toFinset]
    exact List.mem_map_of_mem hmem
  · rw [job.advance_self hi]
    omega

end Next

/-- **What is left can be read too**, in some order. -/
theorem Reads.exists_all {is : List ι} (h : Reads job log position is)
    (hcan : ∀ a ∈ log, ∃ i, job.Admits i ∧ job.record i = some a) :
    ∃ rest, Reads job log (job.counts log) (is ++ rest) := by
  induction hn : job.left log position using Nat.strong_induction_on generalizing position is with
  | _ n ih =>
      by_cases hend : ∀ p, position p = (job.inPartition p log).length
      · obtain rfl : position = job.counts log := funext hend
        exact ⟨[], by rwa [List.append_nil]⟩
      · obtain ⟨a, ha, hnext⟩ := job.exists_next h.le hend
        obtain ⟨i, hi, hrecord⟩ := hcan a ha
        have hmore := h.next hi fun b hb => by
          rwa [← Option.some.inj (hrecord.symm.trans hb)]
        obtain ⟨rest, hrest⟩ := ih _ (hn ▸ job.left_advance_lt hrecord hnext) hmore rfl
        exact ⟨i :: rest, by rwa [List.append_assoc] at hrest⟩

/-- It is what stands behind the positions. -/
lemma Reads.rest_eq {is rest : List ι} (h : Reads job log position is)
    (hall : Reads job log (job.counts log) (is ++ rest)) (p : π) :
    job.inPartition p (rest.filterMap job.record)
      = (job.inPartition p log).drop (position p) := by
  have heq := hall.eq p
  rw [List.filterMap_append, Job.inPartition_append, h.eq, Job.counts, List.take_length] at heq
  refine List.append_cancel_left (heq.trans ?_)
  exact (List.take_append_drop _ _).symm

end Left

section Progress

variable {Valid : Snapshot π σ → Prop} {log : List α}
  (hread : ∀ snapshot, Valid snapshot → ∀ a ∈ log,
    ∃ i r, job.Admits i ∧ job.record i = some a ∧ job.step snapshot.state i = .ok r)
  (hkeep : ∀ snapshot i s os, job.Admits i → job.IsNext log snapshot.position i → Valid snapshot →
    job.step snapshot.state i = .ok (s, os) → Valid (snapshot.next job i s))
include hread hkeep

/-- A valid attempt that has not read everything can read one more record. -/
lemma can_read {sys : System π α σ ο} {a : Attempt π σ ο} (hlog : sys.log = log)
    (ha : sys.attempt = some a) (hvalid : Valid a.snapshot)
    (hle : ∀ p, a.snapshot.position p ≤ (job.inPartition p log).length)
    (hend : ¬ a.snapshot.AtEnd job log) :
    ∃ b, Step job sys { sys with attempt := some b } ∧ Valid b.snapshot ∧
      job.left log b.snapshot.position < job.left log a.snapshot.position ∧
      ∀ p, b.snapshot.position p ≤ (job.inPartition p log).length := by
  subst hlog
  obtain ⟨record, hmem, hnext⟩ := job.exists_next hle hend
  obtain ⟨i, ⟨s, os⟩, hi, hrecord, hstep⟩ := hread _ hvalid _ hmem
  have hisNext : job.IsNext sys.log a.snapshot.position i := by
    intro b hb
    rwa [← Option.some.inj (hrecord.symm.trans hb)]
  exact ⟨_, .read ha hi hisNext hstep, hkeep _ i s os hi hisNext hvalid hstep,
    job.left_advance_lt hrecord hnext, job.advance_le hrecord hnext hle⟩

/-- It can read everything. -/
lemma can_read_all {sys : System π α σ ο} {a : Attempt π σ ο} (hlog : sys.log = log)
    (ha : sys.attempt = some a) (hvalid : Valid a.snapshot)
    (hle : ∀ p, a.snapshot.position p ≤ (job.inPartition p log).length) :
    ∃ b, Machine.Reaches (Step job) sys { sys with attempt := some b } ∧
      b.snapshot.AtEnd job log ∧ Valid b.snapshot := by
  induction hn : job.left log a.snapshot.position using Nat.strong_induction_on
    generalizing sys a with
  | _ n ih =>
      by_cases hend : a.snapshot.AtEnd job log
      · refine ⟨a, ?_, hend, hvalid⟩
        rw [← ha]
      · obtain ⟨b, hstep, hvalid', hlt, hle'⟩ := can_read hread hkeep hlog ha hvalid hle hend
        obtain ⟨c, hreach, hend'⟩ :=
          @ih _ (hn ▸ hlt) { sys with attempt := some b } b hlog rfl hvalid' hle' rfl
        exact ⟨c, .head hstep hreach, hend'⟩

end Progress

/-- **From every state reached, everything can still get into the table**, whatever has failed
before: there is a continuation that ends with a table computed by one run over the whole log. -/
theorem can_finish {Valid : σ → Prop} {log : List α}
    (hread : ∀ s, Valid s → ∀ a ∈ log,
      ∃ i r, job.Admits i ∧ job.record i = some a ∧ job.step s i = .ok r)
    (hkeep : ∀ s i s' os, job.Admits i → (∀ a ∈ job.record i, a ∈ log) → Valid s →
      job.step s i = .ok (s', os) → Valid s')
    (hresume : ∀ s, Valid s → Valid (job.resume s)) (hstart : Valid job.start) {log₀ : List α}
    {sys : System π α σ ο} (h : Machine.Reaches (Step job) (System.fresh job log₀) sys)
    (hlog : sys.log = log) :
    ∃ sys', Machine.Reaches (Step job) sys sys' ∧ sys'.log = log ∧ sys'.saved.AtEnd job log ∧
      sys'.prepared = [] ∧ Computes job log sys'.saved sys'.table := by
  subst hlog
  have hcons := consistent_of_reaches h
  have hsaved : Valid sys.saved.state := by
    obtain ⟨is, hreads, hrun⟩ := hcons.saved
    refine run_invariant Valid (fun s i hi s' os hs hstep => ?_) hstart hrun
    cases i with
    | none =>
        cases hstep
        exact hresume s hs
    | some i =>
        have hmem := List.reduceOption_mem_iff.mpr hi
        exact hkeep s i s' os (hreads.admits i hmem) (fun a ha => hreads.mem hmem ha) hs hstep
  have hle : ∀ p, sys.saved.position p ≤ (job.inPartition p sys.log).length := by
    obtain ⟨is, hreads, _⟩ := hcons.saved
    exact hreads.le
  -- give up what is running, start again from what was saved, read all, then save and commit
  have hrestart : Machine.Reaches (Step job) sys
      { sys with attempt := some ⟨sys.saved.resumed job, [], []⟩ } :=
    (Relation.ReflTransGen.single (Step.fail sys)).tail (.restore rfl)
  have hkeepAt : ∀ (snapshot : Snapshot π σ) (i : ι) (s : σ) (os : List ο), job.Admits i →
      job.IsNext sys.log snapshot.position i → Valid snapshot.state →
      job.step snapshot.state i = .ok (s, os) → Valid s :=
    fun snapshot i s os hi hnext => hkeep _ i s os hi fun a ha =>
      List.mem_of_mem_filter (List.mem_of_getElem? (hnext a ha))
  obtain ⟨a, hreach, hend, _⟩ := can_read_all
    (fun snapshot : Snapshot π σ => hread snapshot.state) hkeepAt
    (show System.log { sys with attempt := some ⟨sys.saved.resumed job, [], []⟩ } = sys.log from rfl)
    rfl (hresume _ hsaved) hle
  have hall : Machine.Reaches (Step job) sys _ :=
    (hrestart.trans hreach).trans (reaches_finish rfl)
  refine ⟨_, hall, rfl, hend, rfl, ?_⟩
  simpa [System.finish] using (consistent_of_reaches (h.trans hall)).saved

/-- **When everything can get into the table.**  If each record of the log is either one that can be
read in every valid state or one on which the job fails in every state, then from a state reached
some continuation gets everything into the table if and only if there is none of the second kind. -/
theorem can_finish_iff (Valid : σ → Prop) {Good : α → Prop} {log₀ : List α} {sys : System π α σ ο}
    (h : Machine.Reaches (Step job) (System.fresh job log₀) sys) (hstart : Valid job.start)
    (hgood : ∀ s, Valid s → ∀ a ∈ sys.log, Good a →
      ∃ i r, job.Admits i ∧ job.record i = some a ∧ job.step s i = .ok r)
    (hbad : ∀ a ∈ sys.log, ¬ Good a → ∀ s i, job.record i = some a → ∃ e, job.step s i = .error e)
    (hkeep : ∀ s i s' os, job.Admits i → (∀ a ∈ job.record i, a ∈ sys.log) → Valid s →
      job.step s i = .ok (s', os) → Valid s')
    (hresume : ∀ s, Valid s → Valid (job.resume s)) :
    (∃ sys', Machine.Reaches (Step job) sys sys' ∧ sys'.log = sys.log ∧
        sys'.saved.AtEnd job sys.log ∧ sys'.prepared = []) ↔ ∀ a ∈ sys.log, Good a := by
  constructor
  · rintro ⟨sys', hreach, hlog, hend, _⟩ a ha
    by_contra hnot
    have hin : a ∈ job.inPartition (job.partition a) sys.log :=
      List.mem_filter.mpr ⟨ha, decide_eq_true rfl⟩
    obtain ⟨n, hn⟩ := List.getElem?_of_mem hin
    have hbefore := (stuck_before (h.trans hreach) (p := job.partition a) (hlog ▸ hn)
      fun s i _ hi => hbad a ha hnot s i hi).1
    obtain ⟨hlt, _⟩ := List.getElem?_eq_some_iff.mp hn
    rw [hend (job.partition a)] at hbefore
    omega
  · intro hall
    obtain ⟨sys', hreach, hlog, hend, hprepared, _⟩ :=
      can_finish (fun s hs a ha => hgood s hs a ha (hall a ha)) hkeep hresume hstart h rfl
    exact ⟨sys', hreach, hlog, hend, hprepared⟩

/-! ## The running attempt -/

/-- The snapshot that the next element comes to: that of the running attempt, or what an attempt
would start from. -/
def System.current (job : Job π α ι ε σ ο) (sys : System π α σ ο) : Snapshot π σ :=
  match sys.attempt with
  | some a => a.snapshot
  | none => sys.saved.resumed job

/-- **What an event does to it**: a record arrives; or nothing, one element, or a failure, which
leads back to what was saved. -/
lemma Step.current {sys sys' : System π α σ ο} (h : Step job sys sys') :
    (∃ a, sys'.log = sys.log ++ [a]) ∨ sys'.log = sys.log ∧
      (sys'.current job = sys.current job ∨ sys'.current job = sys.saved.resumed job ∨
        ∃ i s os, job.IsNext sys.log (sys.current job).position i ∧
          job.step (sys.current job).state i = .ok (s, os) ∧
          sys'.current job = (sys.current job).next job i s) := by
  cases h with
  | append a => exact .inl ⟨a, rfl⟩
  | restore hnone => exact .inr ⟨rfl, .inr (.inl rfl)⟩
  | @read a i s os ha hi hnext hs =>
      have hcurrent : sys.current job = a.snapshot := by rw [System.current, ha]
      refine .inr ⟨rfl, .inr (.inr ⟨i, s, os, ?_, ?_, ?_⟩)⟩
      · rwa [hcurrent]
      · rwa [hcurrent]
      · rw [hcurrent]
        rfl
  | send ha hunsent =>
      refine .inr ⟨rfl, .inl ?_⟩
      rw [System.current, System.current, ha]
  | save ha hsent =>
      refine .inr ⟨rfl, .inl ?_⟩
      rw [System.current, System.current, ha]
  | commit => exact .inr ⟨rfl, .inl rfl⟩
  | fail => exact .inr ⟨rfl, .inr (.inl rfl)⟩

/-- The log only grows. -/
lemma log_of_reaches {sys sys' : System π α σ ο} (h : Machine.Reaches (Step job) sys sys') :
    sys.log <+: sys'.log := by
  induction h with
  | refl => exact List.prefix_refl _
  | tail _ hstep ih =>
      rcases hstep.current with ⟨a, hlog⟩ | ⟨hlog, _⟩
      · rw [hlog]
        exact ih.trans (List.prefix_append _ _)
      · rwa [hlog]

/-- **How a running attempt stands to what was saved**: what holds of what an attempt starts from and
of a snapshot and itself, and is kept by records that arrive and by elements, holds in every state
reached. -/
theorem ahead_of_reaches {R : List α → Snapshot π σ → Snapshot π σ → Prop}
    (hresumed : ∀ log saved, R log saved (saved.resumed job))
    (hsame : ∀ log saved, R log saved saved)
    (happend : ∀ log a saved now, (∀ p, now.position p ≤ (job.inPartition p log).length) →
      R log saved now → R (log ++ [a]) saved now)
    (hread : ∀ log saved now i s os, job.IsNext log now.position i →
      job.step now.state i = .ok (s, os) → R log saved now → R log saved (now.next job i s))
    {log : List α} {sys : System π α σ ο}
    (h : Machine.Reaches (Step job) (System.fresh job log) sys) :
    R sys.log sys.saved (sys.current job) := by
  have hattempt : Consistent job sys ∧ ∀ a ∈ sys.attempt, R sys.log sys.saved a.snapshot := by
    refine Machine.invariant (P := fun sys => Consistent job sys ∧
      ∀ a ∈ sys.attempt, R sys.log sys.saved a.snapshot) ?_ ⟨consistent_fresh log, by simp [
        System.fresh]⟩ h
    rintro sys sys' ⟨hcons, hinv⟩ hstep
    refine ⟨consistent_step hcons hstep, ?_⟩
    cases hstep with
    | append a =>
        intro b hb
        obtain ⟨is, hreads, _⟩ := hcons.attempt b hb
        exact happend _ a _ _ hreads.le (hinv b hb)
    | restore hnone =>
        rintro a ⟨⟩
        exact hresumed _ _
    | @read a i s os ha hi hnext hs =>
        rintro b ⟨⟩
        exact hread _ _ _ i s os hnext hs (hinv a ha)
    | @send a os rest ha hunsent =>
        rintro b ⟨⟩
        exact hinv a ha
    | save ha hsent =>
        rintro b ⟨⟩
        exact hsame _ _
    | commit => exact hinv
    | fail =>
        rintro b ⟨⟩
  rw [System.current]
  cases ha : sys.attempt with
  | none => exact hresumed _ _
  | some a => exact hattempt.2 a ha

end Checkpoint
