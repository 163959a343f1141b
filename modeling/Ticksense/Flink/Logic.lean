import Mathlib.Data.List.Sort
import Ticksense.Ingest.OrderBook

/-!
# Book helpers of the streaming jobs

`flink/jobs/flink_lib/logic.py`: the order book the normalize job keeps, as two dictionaries from
price text to quantity text, and what a book-ticker row says about it.

* `applyDepthDiff` — writes a diff into both sides.
* `bestBid`, `bestAsk`, `computeSpread`, `computeMidPrice`, `computeImbalance` — the derived
  numbers.
* `NumericSide` — every price and quantity of a side is a number.  Diffs of numeric levels preserve
  it (`applyLevelUpdates_ok`) and under it no helper raises (`bestBid_ok`, `bestAsk_ok`,
  `computeImbalance_ok`).
-/

namespace Ticksense

open VersionedMap

/-! ## Applying a diff -/

/-- The loop over one side's updates. -/
def applyLevelUpdates (side : Dict String String) :
    List (List String) → Except PyError (Dict String String)
  | [] => .ok side
  | (price :: qty :: _) :: levels =>
      match float qty with
      | .error e => .error e
      | .ok x => applyLevelUpdates (if x.isZero then side.pop price else side.set price qty) levels
  | _ :: _ => .error .indexError

/-- `apply_depth_diff`. -/
def applyDepthDiff (bids asks : Dict String String) (bidUpdates askUpdates : List (List String)) :
    Except PyError (Dict String String × Dict String String) := do
  let bids ← applyLevelUpdates bids bidUpdates
  let asks ← applyLevelUpdates asks askUpdates
  return (bids, asks)

/-! ## The best levels -/

/-- The items of a side with their prices as floats. -/
def priced (items : List (String × String)) : Except PyError (List (PyFloat × String × String)) :=
  items.mapM fun kv => do return (← float kv.1, kv)

/-- The body of `best_bid` and `best_ask`: price and quantity of the level `pick` chooses. -/
def bestLevel (pick : List (PyFloat × String × String) → Option (PyFloat × String × String))
    (side : Dict String String) : Except PyError (Option (PyFloat × PyFloat)) := do
  match pick (← priced side.items) with
  | none => return none
  | some (_, price, qty) => return some (← float price, ← float qty)

/-- `best_bid`: the highest bid. -/
def bestBid (bids : Dict String String) : Except PyError (Option (PyFloat × PyFloat)) :=
  bestLevel (maxBy Prod.fst) bids

/-- `best_ask`: the lowest ask. -/
def bestAsk (asks : Dict String String) : Except PyError (Option (PyFloat × PyFloat)) :=
  bestLevel (minBy Prod.fst) asks

def computeSpread (bbPrice baPrice : PyFloat) : PyFloat := baPrice.sub bbPrice

def computeMidPrice (bbPrice baPrice : PyFloat) : Except PyError PyFloat :=
  (bbPrice.add baPrice).div (.fin 2)

/-- The volume of the first levels of a sorted side. -/
def volume (levels : List (PyFloat × String × String)) (depth : ℕ) : Except PyError PyFloat := do
  return PyFloat.sum (← (levels.take depth).mapM fun l => float l.2.2)

/-- `compute_imbalance`.  Both sorts are stable; the one of the bids is descending. -/
def computeImbalance (bids asks : Dict String String) (depth : ℕ) : Except PyError PyFloat := do
  let sortedBids := (← priced bids.items).insertionSort fun a b => ¬ a.1.lt b.1
  let sortedAsks := (← priced asks.items).insertionSort fun a b => ¬ b.1.lt a.1
  let bidVol ← volume sortedBids depth
  let askVol ← volume sortedAsks depth
  let total := bidVol.add askVol
  if PyFloat.lt (.fin 0) total then bidVol.div total else return .fin (1 / 2)

/-! ## Numeric books -/

def NumericSide (side : Dict String String) : Prop :=
  ∀ price qty, side.get? price = some qty → Numeric price ∧ Numeric qty

def NumericLevels (levels : List (String × String)) : Prop :=
  ∀ level ∈ levels, Numeric level.1 ∧ Numeric level.2

instance (levels : List (String × String)) : Decidable (NumericLevels levels) :=
  inferInstanceAs (Decidable (∀ level ∈ levels, Numeric level.1 ∧ Numeric level.2))

lemma NumericLevels.floatQuantities {levels : List (String × String)} (h : NumericLevels levels) :
    FloatQuantities levels :=
  fun level hlevel => ⟨_, (h level hlevel).2.float_eq⟩

lemma numericSide_empty : NumericSide Dict.empty := by
  intro price qty h
  simp at h

/-- A level in the shape the job reads it. -/
def pair (level : String × String) : List String := [level.1, level.2]

/-- **Writing numeric levels** into a numeric side leaves a numeric side, and patches its map the
way the ingest book's loop does. -/
theorem applyLevelUpdates_ok {levels : List (String × String)} (h : NumericLevels levels)
    {side : Dict String String} (hside : NumericSide side) :
    ∃ side', applyLevelUpdates side (levels.map pair) = .ok side' ∧ NumericSide side' ∧
      side'.get? = patch side.get? (levelEntries levels) := by
  induction levels generalizing side with
  | nil => exact ⟨side, rfl, hside, rfl⟩
  | cons level levels ih =>
      rcases level with ⟨price, qty⟩
      rcases h (price, qty) List.mem_cons_self with ⟨hprice, hqty⟩
      have hlevel : levelOrNone qty = if value qty = 0 then none else some qty := by
        simp [levelOrNone, levelOf, hqty.float_eq]
      have hset : (if (PyFloat.fin (value qty)).isZero then side.pop price
          else side.set price qty).get? = Function.update side.get? price (levelOrNone qty) := by
        rw [hlevel]
        by_cases hz : value qty = 0
        · simp [hz, Dict.get?_pop]
        · simp [hz, Dict.get?_set]
      have hnumeric : NumericSide (if (PyFloat.fin (value qty)).isZero then side.pop price
          else side.set price qty) := by
        intro p q hpq
        rw [hset, Function.update_apply] at hpq
        split_ifs at hpq with hp
        · subst hp
          rw [hlevel] at hpq
          split_ifs at hpq with hz
          rw [← Option.some.inj hpq]
          exact ⟨hprice, hqty⟩
        · exact hside p q hpq
      rcases ih (fun l hl => h l (List.mem_cons_of_mem _ hl)) hnumeric with
        ⟨side', hrun, hside', hmap⟩
      refine ⟨side', ?_, hside', ?_⟩
      · simp only [List.map_cons, pair, applyLevelUpdates, hqty.float_eq]
        exact hrun
      · rw [hmap, hset]
        rfl

/-- **Applying a numeric diff** succeeds, keeps both sides numeric and patches both maps. -/
theorem applyDepthDiff_ok {bidLevels askLevels : List (String × String)}
    (hbids : NumericLevels bidLevels) (hasks : NumericLevels askLevels)
    {bids asks : Dict String String} (hb : NumericSide bids) (ha : NumericSide asks) :
    ∃ bids' asks', applyDepthDiff bids asks (bidLevels.map pair) (askLevels.map pair)
        = .ok (bids', asks') ∧ NumericSide bids' ∧ NumericSide asks' ∧
      bids'.get? = patch bids.get? (levelEntries bidLevels) ∧
      asks'.get? = patch asks.get? (levelEntries askLevels) := by
  rcases applyLevelUpdates_ok hbids hb with ⟨bids', hbrun, hb', hbmap⟩
  rcases applyLevelUpdates_ok hasks ha with ⟨asks', harun, ha', hamap⟩
  refine ⟨bids', asks', ?_, hb', ha', hbmap, hamap⟩
  rw [applyDepthDiff, hbrun, harun]
  rfl

/-! ## The helpers on numeric sides -/

lemma NumericSide.numeric_items {side : Dict String String} (h : NumericSide side) :
    NumericLevels side.items :=
  fun kv hkv => h kv.1 kv.2 (Dict.mem_items_iff.mp hkv)

lemma priced_ok {items : List (String × String)} (h : NumericLevels items) :
    priced items = .ok (items.map fun kv => (.fin (value kv.1), kv)) := by
  induction items with
  | nil => rfl
  | cons kv items ih =>
      have htail := ih fun l hl => h l (List.mem_cons_of_mem _ hl)
      rw [priced] at htail ⊢
      rw [List.mapM_cons, htail, (h kv List.mem_cons_self).1.float_eq]
      rfl

/-- `bestLevel` on a numeric side, for any choice by price that finds a best one. -/
lemma bestLevel_ok {replaces : PyFloat → PyFloat → Bool} {better : ℚ → ℚ → Prop}
    (hpick : ∀ (levels : List (String × String)) (m : String × String),
      pickBy replaces (fun kv => .fin (value kv.1)) levels = some m →
        m ∈ levels ∧ ∀ kv ∈ levels, better (value kv.1) (value m.1))
    {side : Dict String String} (hside : NumericSide side) :
    (side.items = [] ∧ bestLevel (pickBy replaces Prod.fst) side = .ok none) ∨
    ∃ price qty, IsBest better side.get? price qty ∧ Numeric price ∧ Numeric qty ∧
      bestLevel (pickBy replaces Prod.fst) side
        = .ok (some (.fin (value price), .fin (value qty))) := by
  have hpriced := priced_ok hside.numeric_items
  have hmap := pickBy_map replaces (fun kv : String × String => (PyFloat.fin (value kv.1), kv))
    Prod.fst side.items
  cases hchoice : pickBy replaces (fun kv : String × String => .fin (value kv.1)) side.items with
  | none =>
      have hnil := pickBy_eq_none_iff.mp hchoice
      rw [hchoice] at hmap
      refine Or.inl ⟨hnil, ?_⟩
      simp only [bestLevel, hpriced, ok_bind, hmap, Option.map_none, pure_eq_ok]
  | some best =>
      rcases hpick side.items best hchoice with ⟨hmem, hbest⟩
      have hnum := hside.numeric_items best hmem
      rw [hchoice, Option.map_some] at hmap
      refine Or.inr ⟨best.1, best.2, ⟨Dict.mem_items_iff.mp hmem, ?_⟩, hnum.1, hnum.2, ?_⟩
      · intro p q hpq
        exact hbest (p, q) (Dict.mem_items_iff.mpr hpq)
      · simp only [bestLevel, hpriced, ok_bind, hmap, hnum.1.float_eq, hnum.2.float_eq, pure_eq_ok]

section OnNumericSides

variable {bids asks : Dict String String}

/-- **`best_bid` on a numeric side** finds a level with the highest price, and nothing only on the
empty side. -/
theorem bestBid_ok (hb : NumericSide bids) :
    (bids.items = [] ∧ bestBid bids = .ok none) ∨
    ∃ price qty, IsBest (· ≤ ·) bids.get? price qty ∧ Numeric price ∧ Numeric qty ∧
      bestBid bids = .ok (some (.fin (value price), .fin (value qty))) :=
  bestLevel_ok (fun _ _ h => maxBy_spec (fun kv : String × String => value kv.1) h) hb

/-- **`best_ask` on a numeric side** finds a level with the lowest price. -/
theorem bestAsk_ok (ha : NumericSide asks) :
    (asks.items = [] ∧ bestAsk asks = .ok none) ∨
    ∃ price qty, IsBest (· ≥ ·) asks.get? price qty ∧ Numeric price ∧ Numeric qty ∧
      bestAsk asks = .ok (some (.fin (value price), .fin (value qty))) :=
  bestLevel_ok (fun _ _ h => minBy_spec (fun kv : String × String => value kv.1) h) ha

/-- The volume of numeric levels is the sum of their quantities. -/
lemma volume_ok (levels : List (String × String)) (h : NumericLevels levels) (depth : ℕ) :
    volume (levels.map fun kv => (.fin (value kv.1), kv)) depth
      = .ok (.fin ((levels.take depth).map fun kv => value kv.2).sum) := by
  have hmapM : ∀ ls : List (String × String), NumericLevels ls →
      (ls.map fun kv => (PyFloat.fin (value kv.1), kv)).mapM (fun l => float l.2.2)
        = .ok ((ls.map fun kv => value kv.2).map PyFloat.fin) := by
    intro ls hls
    induction ls with
    | nil => rfl
    | cons kv ls ih =>
        have htail := ih fun l hl => hls l (List.mem_cons_of_mem _ hl)
        rw [List.map_cons, List.mapM_cons, htail, (hls kv List.mem_cons_self).2.float_eq]
        rfl
  rw [volume, ← List.map_take, hmapM _ fun l hl => h l (List.mem_of_mem_take hl)]
  rw [ok_bind, PyFloat.sum_map_fin, pure_eq_ok]

/-- The imbalance of numeric sides, as a number. -/
def imbalance (bids asks : Dict String String) (depth : ℕ) : ℚ :=
  let bidVol := (((bids.items.insertionSort fun a b => ¬ value a.1 < value b.1).take depth).map
    fun kv => value kv.2).sum
  let askVol := (((asks.items.insertionSort fun a b => ¬ value b.1 < value a.1).take depth).map
    fun kv => value kv.2).sum
  if 0 < bidVol + askVol then bidVol / (bidVol + askVol) else 1 / 2

/-- **`compute_imbalance` on numeric sides** never raises, and is the imbalance. -/
theorem computeImbalance_ok (hb : NumericSide bids) (ha : NumericSide asks) (depth : ℕ) :
    computeImbalance bids asks depth = .ok (.fin (imbalance bids asks depth)) := by
  have hbids := hb.numeric_items
  have hasks := ha.numeric_items
  have hsortB := List.map_insertionSort (fun a b : String × String => ¬ value a.1 < value b.1)
    (fun a b : PyFloat × String × String => ¬ a.1.lt b.1) (fun kv => (.fin (value kv.1), kv))
    bids.items (by intro a _ b _; simp)
  have hsortA := List.map_insertionSort (fun a b : String × String => ¬ value b.1 < value a.1)
    (fun a b : PyFloat × String × String => ¬ b.1.lt a.1) (fun kv => (.fin (value kv.1), kv))
    asks.items (by intro a _ b _; simp)
  have hvolB := volume_ok (bids.items.insertionSort fun a b => ¬ value a.1 < value b.1)
    (fun l hl => hbids l ((List.mem_insertionSort _).mp hl)) depth
  have hvolA := volume_ok (asks.items.insertionSort fun a b => ¬ value b.1 < value a.1)
    (fun l hl => hasks l ((List.mem_insertionSort _).mp hl)) depth
  simp only [computeImbalance, priced_ok hbids, priced_ok hasks, ok_bind, ← hsortB, ← hsortA, hvolB,
    hvolA, PyFloat.add_fin, PyFloat.lt_fin, decide_eq_true_eq, imbalance]
  split_ifs with htotal
  · rw [PyFloat.div_fin _ (ne_of_gt htotal)]
  · rfl

end OnNumericSides

end Ticksense
