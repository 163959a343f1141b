import Ticksense.Lib.VersionedMap
import Ticksense.Python.Float

/-!
# The exchange

What the whole pipeline is about and never sees directly: the order book the exchange keeps.  It
starts from an initial book and is changed by numbered updates, each of which sets one price level
of one side to a quantity; a zero quantity deletes the level.  Prices and quantities are the texts
the exchange sends, one text per price.

This is the abstract side of the development.  `Exchange.book x n` is the book after update `n`, an
instance of a versioned map (`Lib/VersionedMap.lean`) whose keys are the levels of both sides.
-/

namespace Ticksense

open VersionedMap

inductive Side
  | bid
  | ask
deriving DecidableEq, Repr

/-- The one of two values that belongs to a side. -/
def Side.pick {α : Type} (side : Side) (bid ask : α) : α :=
  match side with
  | .bid => bid
  | .ask => ask

@[simp] lemma Side.pick_bid {α : Type} (bid ask : α) : Side.bid.pick bid ask = bid := rfl

@[simp] lemma Side.pick_ask {α : Type} (bid ask : α) : Side.ask.pick bid ask = ask := rfl

/-- A price level of the book: a side and a price. -/
abbrev Level := Side × String

/-- What a quantity says about its level: nothing is left of a level with quantity zero, any other
quantity is the level's content.  A text that is no float says nothing and raises. -/
def levelOf (qty : String) : Except PyError (Option String) :=
  match float qty with
  | .error e => .error e
  | .ok x => .ok (if x.isZero then none else some qty)

/-- The two sides of a book as one map. -/
def levelMap (bids asks : String → Option String) (level : Level) : Option String :=
  level.1.pick bids asks level.2

/-- The best level of a side: no other level of it has a better price. -/
structure IsBest (better : ℚ → ℚ → Prop) (side : String → Option String) (price qty : String) :
    Prop where
  level : side price = some qty
  best : ∀ p q, side p = some q → better (value p) (value price)

/-- One update of the exchange. -/
structure LevelUpdate where
  side : Side
  price : String
  qty : String
  numeric : Numeric qty

/-- The level an update leaves behind. -/
def LevelUpdate.level (u : LevelUpdate) : Option String :=
  if value u.qty = 0 then none else some u.qty

/-- An exchange history: the initial book and the updates, numbered from `1`. -/
structure Exchange where
  initial : Level → Option String
  update : ℕ → LevelUpdate

/-- The history as a versioned map. -/
def Exchange.history (x : Exchange) : History Level String where
  initial := x.initial
  update := fun n => (((x.update n).side, (x.update n).price), (x.update n).level)

/-- The book after update `n`: the quantity at each price of each side. -/
def Exchange.book (x : Exchange) (n : ℕ) (side : Side) (price : String) : Option String :=
  x.history.version n (side, price)

/-- An update changes its own level only. -/
lemma Exchange.key_of_changed {x : Exchange} {n : ℕ} {side : Side} {price : String}
    (h : x.book (n + 1) side price ≠ x.book n side price) :
    (side, price) = ((x.update (n + 1)).side, (x.update (n + 1)).price) := by
  by_contra hne
  exact h (Function.update_of_ne hne _ _)

/-- The prices that occur in the history. -/
def Exchange.prices (x : Exchange) : Set String :=
  {price | (∃ side, x.initial (side, price) ≠ none) ∨ ∃ n, price = (x.update n).price}

/-- Prices are numbers, and one number is written in one way only. -/
structure Exchange.Canonical (x : Exchange) : Prop where
  numeric : ∀ price ∈ x.prices, Numeric price
  unique : ∀ price ∈ x.prices, ∀ price' ∈ x.prices, value price = value price' → price = price'

/-- A book holds prices of the history only. -/
lemma Exchange.mem_prices {x : Exchange} {n : ℕ} {side : Side} {price qty : String}
    (h : x.book n side price = some qty) : price ∈ x.prices := by
  induction n with
  | zero =>
      refine Or.inl ⟨side, ?_⟩
      have hinit : x.initial (side, price) = some qty := h
      rw [hinit]
      exact Option.some_ne_none qty
  | succ n ih =>
      by_cases hkey : (side, price) = ((x.update (n + 1)).side, (x.update (n + 1)).price)
      · exact Or.inr ⟨n + 1, congrArg Prod.snd hkey⟩
      · refine ih ?_
        rw [← h]
        by_contra hne
        exact hkey (Exchange.key_of_changed (Ne.symm hne))

end Ticksense
