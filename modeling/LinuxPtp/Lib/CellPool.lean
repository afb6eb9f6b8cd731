import Mathlib

/-!
# Reference-counted cells

Cells are taken from a pool, or made where the pool is empty, and return to it
with the release of their last reference.
-/

namespace Cells

/-- The counts of the cells, the cells waiting for reuse, how many cells have
been made, and how many releases found their cell already released. -/
structure CellPool where
  count : ℕ → ℤ
  pool : List ℕ
  made : ℕ
  badPuts : ℕ

namespace CellPool

def empty : CellPool := ⟨fun _ => 0, [], 0, 0⟩

def setCount (cells : CellPool) (cell : ℕ) (count : ℤ) : CellPool :=
  { cells with count := Function.update cells.count cell count }

/-- A cell from the pool, or a new one where there is memory. -/
def allocate (memory : Bool) (cells : CellPool) : Option ℕ × CellPool :=
  match cells.pool with
  | cell :: pool => (some cell, { cells.setCount cell 1 with pool := pool })
  | [] =>
      if memory then
        (some cells.made,
          { cells.setCount cells.made 1 with made := cells.made + 1 })
      else (none, cells)

def get (cell : ℕ) (cells : CellPool) : CellPool :=
  cells.setCount cell (cells.count cell + 1)

/-- The last release puts the cell into the pool. -/
def put (cell : ℕ) (cells : CellPool) : CellPool :=
  let released := cells.setCount cell (cells.count cell - 1)
  { released with
    pool := if cells.count cell - 1 = 0 then cell :: cells.pool else cells.pool
    badPuts := if cells.count cell ≤ 0 then cells.badPuts + 1 else cells.badPuts }

end CellPool

end Cells
