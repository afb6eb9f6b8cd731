import Mathlib

/-!
# Hash tables with chained entries

Entries are kept in buckets by the hash of their key.  A table behaves as a finite
map over all keys, whatever the hash function: an insertion is refused when the key is
there, and otherwise changes the answer for that key only.
-/

/-- Every entry lies in the bucket of its key, and no bucket has a key twice. -/
structure ChainedTable (K V : Type*) (hash : K → ℕ) where
  bucket : ℕ → List (K × V)
  placed : ∀ h, ∀ entry ∈ bucket h, hash entry.1 = h
  distinct : ∀ h, ((bucket h).map Prod.fst).Nodup

namespace ChainedTable

variable {K V : Type*} {hash : K → ℕ} [DecidableEq K]

def empty : ChainedTable K V hash where
  bucket _ := []
  placed := by simp
  distinct := by simp

/-- The first entry of the chain that has the key. -/
def lookup (table : ChainedTable K V hash) (key : K) : Option V :=
  ((table.bucket (hash key)).find? (·.1 == key)).map Prod.snd

/-- A key is missing from the table where it is missing from its chain. -/
theorem lookup_eq_none_iff {table : ChainedTable K V hash} {key : K} :
    table.lookup key = none ↔
      key ∉ (table.bucket (hash key)).map Prod.fst := by
  simp only [lookup, Option.map_eq_none_iff, List.find?_eq_none, List.mem_map,
    not_exists, not_and, beq_iff_eq]

def push (table : ChainedTable K V hash) (key : K) (data : V)
    (hnew : table.lookup key = none) : ChainedTable K V hash where
  bucket h := if h = hash key then (key, data) :: table.bucket h else table.bucket h
  placed h entry hentry := by
    split at hentry
    · rename_i hsame
      rcases List.mem_cons.mp hentry with rfl | hentry
      · exact hsame.symm
      · exact table.placed h entry hentry
    · exact table.placed h entry hentry
  distinct h := by
    split
    · rename_i hsame
      subst hsame
      rw [List.map_cons, List.nodup_cons]
      exact ⟨lookup_eq_none_iff.mp hnew, table.distinct _⟩
    · exact table.distinct h

/-- Keys that are there are refused; so is every key when memory has run out. -/
def insert (table : ChainedTable K V hash) (memory : Bool) (key : K) (data : V) :
    Option (ChainedTable K V hash) :=
  if hnew : table.lookup key = none then
    if memory then some (table.push key data hnew) else none
  else none

section

variable {table later : ChainedTable K V hash} {key : K} {data : V}

@[simp]
theorem lookup_empty (key : K) :
    (empty : ChainedTable K V hash).lookup key = none := rfl

/-- A new entry is found under its key, and hides no other. -/
theorem lookup_push (hnew : table.lookup key = none) (other : K) :
    (table.push key data hnew).lookup other =
      if other = key then some data else table.lookup other := by
  by_cases hother : other = key
  · subst hother
    simp [lookup, push]
  · have hkey : key ≠ other := fun heq => hother heq.symm
    rw [if_neg hother]
    unfold lookup push
    by_cases hhash : hash other = hash key
    · simp [hhash, hkey]
    · simp [hhash]

/-- Exactly the keys that are there are refused, as long as there is memory. -/
theorem insert_eq_none_iff :
    table.insert true key data = none ↔ (table.lookup key).isSome := by
  rw [insert, Option.isSome_iff_ne_none]
  by_cases hnew : table.lookup key = none
  · simp [hnew]
  · simp [hnew]

/-- Without memory nothing is inserted. -/
theorem insert_false : table.insert false key data = none := by
  unfold insert
  split <;> rfl

theorem insert_eq_some {memory : Bool}
    (hinsert : table.insert memory key data = some later) :
    ∃ hnew : table.lookup key = none, later = table.push key data hnew := by
  unfold insert at hinsert
  split at hinsert
  · rename_i hnew
    cases memory
    · simp at hinsert
    · exact ⟨hnew, (Option.some.inj hinsert).symm⟩
  · simp at hinsert

/-- What has been inserted is found under its key. -/
theorem lookup_insert {memory : Bool}
    (hinsert : table.insert memory key data = some later) (other : K) :
    later.lookup other = if other = key then some data else table.lookup other := by
  obtain ⟨hnew, rfl⟩ := insert_eq_some hinsert
  exact lookup_push hnew other

/-- Where there is memory, a new key can be inserted. -/
theorem insert_of_new (hnew : table.lookup key = none) :
    table.insert true key data = some (table.push key data hnew) := by
  rw [insert, dif_pos hnew, if_pos rfl]

/-! ## Histories -/

/-- Insertions one after the other; what is refused changes nothing. -/
def insertAll (table : ChainedTable K V hash) (entries : List (K × V)) :
    ChainedTable K V hash :=
  entries.foldl (fun table entry => (table.insert true entry.1 entry.2).getD table)
    table

/-- The first value that was inserted under a key is found there, and nothing under
any other key. -/
theorem lookup_insertAll (table : ChainedTable K V hash) (entries : List (K × V))
    (key : K) :
    (table.insertAll entries).lookup key =
      (table.lookup key).or (entries.lookup key) := by
  induction entries generalizing table with
  | nil => simp [insertAll]
  | cons entry entries ih =>
    have hstep : ((table.insert true entry.1 entry.2).getD table).lookup key =
        (table.lookup key).or (if key = entry.1 then some entry.2 else none) := by
      rcases hinsert : table.insert true entry.1 entry.2 with _ | later
      · obtain ⟨found, hfound⟩ :=
          Option.isSome_iff_exists.mp (insert_eq_none_iff.mp hinsert)
        by_cases hkey : key = entry.1
        · rw [hkey, Option.getD_none, hfound, Option.some_or]
        · rw [if_neg hkey, Option.or_none, Option.getD_none]
      · obtain ⟨hnew, -⟩ := insert_eq_some hinsert
        rw [Option.getD_some, lookup_insert hinsert]
        by_cases hkey : key = entry.1
        · rw [if_pos hkey, if_pos hkey, hkey, hnew, Option.none_or]
        · rw [if_neg hkey, if_neg hkey, Option.or_none]
    have hcons : table.insertAll (entry :: entries) =
        ((table.insert true entry.1 entry.2).getD table).insertAll entries := rfl
    rw [hcons, ih, hstep, Option.or_assoc, List.lookup_cons]
    congr 1
    by_cases hkey : key = entry.1
    · simp [hkey]
    · simp [hkey, beq_eq_false_iff_ne.mpr hkey]

end

end ChainedTable
