import Ticksense.Replay.IcebergReader

/-!
# The ranges are a tight cover

A precise replay reads the offset ranges of `read_offset_range` and nothing else, so a range that
begins too late loses records and one that ends too late replays foreign ones.  `TightCover` is what
the ranges owe to the scanned rows; `readOffsetRange_tightCover` says that they keep it, on any two
columns and on the columns of any scan.
-/

namespace Ticksense

/-- Both values of a scanned row, partition and offset, are known. -/
def KnownPlace (place : ℤ × ℤ) : Prop := place.1 ≠ -1 ∧ place.2 ≠ -1

/-- What the ranges owe to the places in the scanned rows. -/
structure TightCover (places : List (ℤ × ℤ)) (ranges : List OffsetRange) : Prop where
  ascending : ranges.Pairwise fun r s => r.partition < s.partition
  partitions : ∀ p, (∃! r, r ∈ ranges ∧ r.partition = p) ↔
    ∃ o, (p, o) ∈ places ∧ KnownPlace (p, o)
  nonempty : ∀ r ∈ ranges, r.startOffset < r.endOffset
  first : ∀ r ∈ ranges,
    (r.partition, r.startOffset) ∈ places ∧ KnownPlace (r.partition, r.startOffset)
  last : ∀ r ∈ ranges,
    (r.partition, r.endOffset - 1) ∈ places ∧ KnownPlace (r.partition, r.endOffset - 1)
  covers : ∀ place ∈ places, KnownPlace place → ∃! r, r ∈ ranges ∧ r.Covers place.1 place.2
  empty : ranges = [] ↔ ∀ place ∈ places, ¬ KnownPlace place

lemma mem_knownOffsets_iff {partitions offsets : List ℤ} {p o : ℤ} :
    o ∈ knownOffsets partitions offsets p ↔ (p, o) ∈ partitions.zip offsets ∧ KnownPlace (p, o) :=
  mem_knownOffsets

/-- A range is known by its partition. -/
lemma eq_of_partition {partitions offsets : List ℤ} {r s : OffsetRange}
    (hr : r ∈ offsetRanges partitions offsets) (hs : s ∈ offsetRanges partitions offsets)
    (h : r.partition = s.partition) : r = s := by
  obtain ⟨p, _, rfl⟩ := mem_offsetRanges.mp hr
  obtain ⟨q, _, rfl⟩ := mem_offsetRanges.mp hs
  obtain rfl : p = q := h
  rfl

/-- The ranges are sorted by partition, without repetitions. -/
lemma offsetRanges_ascending (partitions offsets : List ℤ) :
    (offsetRanges partitions offsets).Pairwise fun r s => r.partition < s.partition := by
  rw [offsetRanges]
  split_ifs
  · exact List.Pairwise.nil
  · exact List.Pairwise.nil
  · exact List.pairwise_map.mpr (Dict.pairwise_sorted_items _)

/-- **The ranges of two columns are a tight cover** of the places in their rows. -/
theorem offsetRanges_tightCover (partitions offsets : List ℤ) :
    TightCover (partitions.zip offsets) (offsetRanges partitions offsets) where
  ascending := offsetRanges_ascending partitions offsets
  partitions := by
    intro p
    constructor
    · rintro ⟨r, ⟨hr, rfl⟩, _⟩
      exact ⟨r.startOffset, mem_knownOffsets_iff.mp (bounds_of_mem hr).1⟩
    · rintro ⟨o, ho⟩
      obtain ⟨r, hr, rfl⟩ := exists_mem_of_known (mem_knownOffsets_iff.mpr ho)
      exact ⟨r, ⟨hr, rfl⟩, fun s hs => eq_of_partition hs.1 hr hs.2⟩
  nonempty := by
    intro r hr
    obtain ⟨hstart, _, hinside⟩ := bounds_of_mem hr
    exact (hinside r.startOffset hstart).2
  first := fun r hr => mem_knownOffsets_iff.mp (bounds_of_mem hr).1
  last := fun r hr => mem_knownOffsets_iff.mp (bounds_of_mem hr).2.1
  covers := by
    rintro ⟨p, o⟩ hplace hknown
    have ho := mem_knownOffsets_iff.mpr ⟨hplace, hknown⟩
    obtain ⟨r, hr, rfl⟩ := exists_mem_of_known ho
    refine ⟨r, ⟨hr, rfl, (bounds_of_mem hr).2.2 o ho⟩, ?_⟩
    rintro s ⟨hs, hcovers⟩
    exact eq_of_partition hs hr hcovers.1
  empty := by
    constructor
    · rintro hnil ⟨p, o⟩ hplace hknown
      obtain ⟨r, hr, _⟩ := exists_mem_of_known (mem_knownOffsets_iff.mpr ⟨hplace, hknown⟩)
      rw [hnil] at hr
      cases hr
    · intro hnone
      refine List.eq_nil_iff_forall_not_mem.mpr fun r hr => ?_
      obtain ⟨hplace, hknown⟩ := mem_knownOffsets_iff.mp (bounds_of_mem hr).1
      exact hnone _ hplace hknown

/-- **`read_offset_range` returns a tight cover of the scanned rows.**  The first part is about any
two columns of the same length, the second about those of a table that has been scanned. -/
theorem readOffsetRange_tightCover :
    (∀ partitions offsets : List ℤ, partitions.length = offsets.length →
      TightCover (partitions.zip offsets) (offsetRanges partitions offsets)) ∧
    ∀ (rows : List IcebergRow) (symbol : Option String) (startTs endTs : ℤ),
      TightCover
        ((rows.filter (filterExpr symbol startTs endTs)).map fun row =>
          (row.kafkaPartition, row.kafkaOffset))
        (readOffsetRange (.ok rows) symbol startTs endTs) := by
  refine ⟨fun partitions offsets _ => offsetRanges_tightCover partitions offsets, ?_⟩
  intro rows symbol startTs endTs
  have hcover := offsetRanges_tightCover
    ((rows.filter (filterExpr symbol startTs endTs)).map (·.kafkaPartition))
    ((rows.filter (filterExpr symbol startTs endTs)).map (·.kafkaOffset))
  rw [List.zip_map'] at hcover
  exact hcover

theorem tightCover_sample :
    TightCover (List.zip [1, -1, 0, 1] [7, 3, -1, 5]) [⟨1, 5, 8⟩] := by
  have hcover := readOffsetRange_tightCover.1 [1, -1, 0, 1] [7, 3, -1, 5] rfl
  have hranges : offsetRanges [1, -1, 0, 1] [7, 3, -1, 5] = [⟨1, 5, 8⟩] := by decide
  rw [hranges] at hcover
  exact hcover

end Ticksense
