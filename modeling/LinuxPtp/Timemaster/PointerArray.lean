import LinuxPtp.Lib.Doubling

/-!
# Arrays of pointers

Arrays that grow, and that a null pointer ends.  Their capacity is not kept: it is found
again from the number of entries, by doubling.
-/

namespace LinuxPtp.PointerArray

open CheckedInt

/-- A place of a block of memory; pointers that are entries are not null. -/
inductive Cell (P : Type)
  | uninit
  | null
  | entry (pointer : P)
  deriving DecidableEq, Repr

abbrev Block (P : Type) : Type := List (Cell P)

section

variable {P : Type}

/-! ## Operations

Nothing stands for an access out of the block, for the value of a place that was never
written, and for a counter that overflows.  The program ends where memory has run out. -/

def parrayNew : Block P := [.null]

def findEnd : ℤ → Block P → Option ℤ
  | _, [] => none
  | _, .uninit :: _ => none
  | len, .null :: _ => some len
  | len, .entry _ :: rest => (add 32 len 1).bind fun len => findEnd len rest

/-- The loop over the arguments. -/
def countArguments : ℤ → List P → Option ℤ
  | ilen, [] => some ilen
  | ilen, _ :: rest => (add 32 ilen 1).bind fun ilen => countArguments ilen rest

def write (block : Block P) (index : ℤ) (cell : Cell P) : Option (Block P) :=
  if 0 ≤ index ∧ index < block.length then some (block.set index.toNat cell) else none

def xrealloc (block : Block P) (alloced : ℤ) : Block P :=
  block.take alloced.toNat ++ List.replicate (alloced.toNat - block.length) .uninit

/-- The last loop, and the null pointer after it. -/
def writeArguments : Block P → ℤ → List P → Option (Block P)
  | block, len, [] => (sub 32 len 1).bind fun index => write block index .null
  | block, len, p :: rest => do
      let index ← sub 32 len 1
      let len ← add 32 len 1
      let block ← write block index (.entry p)
      writeArguments block len rest

/-- The capacity for a number of entries with the null pointer. -/
def inferCapacity (len : ℤ) : Option ℤ :=
  doubleUntil (fun alloced => shiftLeft 32 alloced 1) 32 1 len

def growCapacity (alloced needed : ℤ) : Option ℤ :=
  doubleUntil (fun alloced => mul 32 alloced 2) 32 alloced needed

def parrayExtend (block : Block P) (items : List P) : Option (Block P) := do
  let last ← findEnd 0 block
  let len ← add 32 last 1
  let ilen ← countArguments 0 items
  let alloced ← inferCapacity len
  let needed ← add 32 len ilen
  if alloced < needed then do
    let alloced ← growCapacity alloced needed
    writeArguments (xrealloc block alloced) len items
  else writeArguments block len items

def parrayAppend (block : Block P) (p : P) : Option (Block P) :=
  parrayExtend block [p]

inductive Call (P : Type)
  | append (p : P)
  | extend (items : List P)

namespace Call

def run (block : Block P) : Call P → Option (Block P)
  | .append p => parrayAppend block p
  | .extend items => parrayExtend block items

def items : Call P → List P
  | .append p => [p]
  | .extend items => items

end Call

def runCalls : List (Call P) → Block P → Option (Block P)
  | [], block => some block
  | call :: rest, block => (call.run block).bind (runCalls rest)

def appended (calls : List (Call P)) : List P := calls.flatMap Call.items

/-! ## The block of an array -/

def capacity (length : ℕ) : ℕ := 2 ^ Nat.clog 2 (length + 1)

/-- The block of an array with these entries, and with this number of places. -/
def blockOf (entries : List P) (size : ℕ) : Block P :=
  entries.map .entry ++ .null :: List.replicate (size - (entries.length + 1)) .uninit

/-- The block that an array with these entries has. -/
def arrayOf (entries : List P) : Block P := blockOf entries (capacity entries.length)

def limit : ℕ := 2 ^ 30

variable {entries items : List P} {rest : Block P} {len : ℤ} {n m : ℕ}

theorem lt_capacity (n : ℕ) : n + 1 ≤ capacity n :=
  Nat.le_pow_clog one_lt_two _

theorem capacity_mono (hle : m ≤ n) : capacity m ≤ capacity n :=
  Nat.pow_le_pow_right two_pos (Nat.clog_mono_right 2 (Nat.succ_le_succ hle))

/-- An array with room for more has the capacity for more. -/
theorem capacity_of_room (hroom : n + m + 1 ≤ capacity n) :
    capacity (n + m) = capacity n := by
  refine le_antisymm ?_ (capacity_mono (Nat.le_add_right n m))
  exact Nat.pow_le_pow_right two_pos ((Nat.clog_le_iff_le_pow one_lt_two).mpr hroom)

theorem fits_iff : Nat.clog 2 n < 32 - 1 ↔ n ≤ limit := by
  rw [limit, ← Nat.clog_le_iff_le_pow one_lt_two]
  exact Nat.lt_succ_iff

theorem length_blockOf {size : ℕ} (hsize : entries.length + 1 ≤ size) :
    (blockOf entries size).length = size := by
  simp only [blockOf, List.length_append, List.length_map, List.length_cons,
    List.length_replicate]
  omega

theorem arrayOf_nil : (arrayOf [] : Block P) = parrayNew := by
  simp [arrayOf, blockOf, capacity, parrayNew]

/-! ## Counting -/

theorem checked_of_le (hle : n < 2 ^ 31) : checked 32 n = some (n : ℤ) :=
  checked_of_inRange ⟨by omega, by omega⟩

theorem inRange_zero : InRange 32 0 := ⟨by norm_num, by norm_num⟩

theorem add_one_of_lt (hlt : n + 1 < 2 ^ 31) :
    add 32 n 1 = some ((n + 1 : ℕ) : ℤ) := by
  rw [add, ← Nat.cast_succ]
  exact checked_of_le hlt

theorem sub_one_of_lt (hlt : n < 2 ^ 31) : sub 32 (n + 1 : ℕ) 1 = some (n : ℤ) := by
  rw [sub, Nat.cast_succ, add_sub_cancel_right]
  exact checked_of_le hlt

theorem findEnd_eq (hlen : 0 ≤ len) (hrange : InRange 32 len) :
    findEnd len (entries.map .entry ++ .null :: rest) =
      checked 32 (len + entries.length) := by
  induction entries generalizing len with
  | nil =>
    rw [List.length_nil, Nat.cast_zero, add_zero, checked_of_inRange hrange]
    rfl
  | cons p entries ih =>
    rw [List.map_cons, List.cons_append, findEnd, List.length_cons, ← add_one_bind hlen]
    refine Option.bind_congr fun next hnext => ?_
    obtain ⟨hnextRange, rfl⟩ := checked_eq_some_iff.mp hnext
    exact ih (by omega) hnextRange

theorem countArguments_eq (hlen : 0 ≤ len) (hrange : InRange 32 len) :
    countArguments len items = checked 32 (len + items.length) := by
  induction items generalizing len with
  | nil =>
    rw [List.length_nil, Nat.cast_zero, add_zero, checked_of_inRange hrange]
    rfl
  | cons p items ih =>
    rw [countArguments, List.length_cons, ← add_one_bind hlen]
    refine Option.bind_congr fun next hnext => ?_
    obtain ⟨hnextRange, rfl⟩ := checked_eq_some_iff.mp hnext
    exact ih (by omega) hnextRange

/-! ## Capacities -/

theorem inferCapacity_eq (hfits : n + 1 ≤ limit) :
    inferCapacity (n + 1 : ℕ) = some (capacity n : ℤ) := by
  have hdoubled := @doubleUntil_eq 32 32 0 (n + 1) _ (doubles_shiftLeft (by decide))
    (by decide) (by decide)
  rw [if_pos (fits_iff.mpr hfits), Nat.zero_max] at hdoubled
  rw [capacity, Nat.cast_pow]
  exact hdoubled

theorem growCapacity_eq (hfits : n + 1 ≤ limit) :
    growCapacity (capacity n) (n + m + 1 : ℕ) =
      if n + m + 1 ≤ limit then some (capacity (n + m) : ℤ) else none := by
  have hle : Nat.clog 2 (n + 1) ≤ Nat.clog 2 (n + m + 1) :=
    Nat.clog_mono_right 2 (by omega)
  have hdoubled := @doubleUntil_eq 32 32 _ (n + m + 1) _ doubles_mul
    (fits_iff.mpr hfits) (Nat.le_add_right_of_le (by decide))
  rw [if_congr fits_iff rfl rfl, max_eq_right hle] at hdoubled
  rw [capacity, capacity, Nat.cast_pow, Nat.cast_pow]
  exact hdoubled

/-! ## Writing -/

theorem write_last {old cell : Cell P} :
    write (entries.map .entry ++ old :: rest) entries.length cell =
      some (entries.map .entry ++ cell :: rest) := by
  have hlength : (entries.length : ℤ) <
      ((entries.map Cell.entry ++ old :: rest).length : ℕ) := by
    simp only [List.length_append, List.length_map, List.length_cons]
    omega
  rw [write, if_pos ⟨by positivity, hlength⟩, Int.toNat_natCast,
    List.set_append_right _ _ (by simp), List.length_map, Nat.sub_self, List.set_cons_zero]

theorem writeArguments_eq (hroom : items.length < rest.length)
    (hfits : entries.length + items.length + 1 < 2 ^ 31) :
    writeArguments (entries.map .entry ++ rest) (entries.length + 1 : ℕ) items =
      some ((entries ++ items).map .entry ++ .null :: rest.drop (items.length + 1)) := by
  induction items generalizing entries rest with
  | nil =>
    obtain ⟨old, rest, rfl⟩ := List.exists_cons_of_length_pos hroom
    rw [writeArguments, sub_one_of_lt (by omega), Option.bind_some, write_last,
      List.append_nil]
    rfl
  | cons p items ih =>
    rw [List.length_cons] at hroom hfits
    obtain ⟨old, rest, rfl⟩ := List.exists_cons_of_length_pos (Nat.zero_lt_of_lt hroom)
    have hlength : (entries ++ [p]).length = entries.length + 1 := by simp
    have hlater := @ih (entries ++ [p]) rest (Nat.lt_of_succ_lt_succ hroom) (by omega)
    rw [hlength, List.map_append, List.append_assoc, List.append_assoc] at hlater
    simp only [writeArguments, Option.bind_eq_bind, Option.bind_some, write_last,
      @sub_one_of_lt entries.length (by omega),
      @add_one_of_lt (entries.length + 1) (by omega)]
    exact hlater

/-- The arguments are written into a block that has room for them. -/
theorem writeArguments_blockOf {size : ℕ} (hsize : entries.length + items.length + 1 ≤ size)
    (hfits : entries.length + items.length + 1 < 2 ^ 31) :
    writeArguments (blockOf entries size) (entries.length + 1 : ℕ) items =
      some (blockOf (entries ++ items) size) := by
  rw [blockOf, writeArguments_eq (by
    rw [List.length_cons, List.length_replicate]
    omega) hfits, List.drop_succ_cons, List.drop_replicate, blockOf, List.length_append]
  congr 4
  omega

theorem xrealloc_blockOf {size larger : ℕ} (hsize : entries.length + 1 ≤ size)
    (hle : size ≤ larger) :
    xrealloc (blockOf entries size) larger = blockOf entries larger := by
  rw [xrealloc, Int.toNat_natCast, length_blockOf hsize,
    List.take_of_length_le (by rw [length_blockOf hsize]; exact hle), blockOf, blockOf,
    List.append_assoc, List.cons_append, ← List.replicate_add]
  congr 4
  omega

/-! ## Calls -/

/-- A call counts what there is and what is to come, and writes into a block that has
room for both. -/
theorem parrayExtend_bind (hfits : entries.length + 1 ≤ limit) :
    parrayExtend (arrayOf entries) items =
      (checked 32 items.length).bind fun ilen =>
        (add 32 (entries.length + 1 : ℕ) ilen).bind fun needed =>
          if (capacity entries.length : ℤ) < needed then
            (growCapacity (capacity entries.length) needed).bind fun alloced =>
              writeArguments (xrealloc (arrayOf entries) alloced)
                (entries.length + 1 : ℕ) items
          else writeArguments (arrayOf entries) (entries.length + 1 : ℕ) items := by
  have hlimit : limit < 2 ^ 31 := by norm_num [limit]
  have hend : findEnd 0 (arrayOf entries) = some (entries.length : ℤ) := by
    rw [arrayOf, blockOf, findEnd_eq le_rfl inRange_zero, zero_add,
      checked_of_le (by omega)]
  have hlen : add 32 entries.length 1 = some ((entries.length + 1 : ℕ) : ℤ) :=
    add_one_of_lt (hfits.trans_lt hlimit)
  have hcount : countArguments 0 items = checked 32 items.length := by
    rw [countArguments_eq le_rfl inRange_zero, zero_add]
  unfold parrayExtend
  rw [hend, hcount, Option.bind_eq_bind, Option.bind_some, hlen, Option.bind_some]
  refine Option.bind_congr fun ilen _ => ?_
  rw [inferCapacity_eq hfits, Option.bind_some]

/-- A call appends its arguments where the capacity for them fits the counters, and
overflows where it does not. -/
theorem parrayExtend_eq (hfits : entries.length + 1 ≤ limit) :
    parrayExtend (arrayOf entries) items =
      if entries.length + items.length + 1 ≤ limit then some (arrayOf (entries ++ items))
      else none := by
  have hlimit : limit < 2 ^ 31 := by norm_num [limit]
  have hcapacity := lt_capacity entries.length
  rw [parrayExtend_bind hfits]
  cases hcounted : checked 32 (items.length : ℤ) with
  | none =>
    rw [Option.bind_none, if_neg fun hroom => ?_]
    rw [checked_of_le (by omega)] at hcounted
    exact Option.some_ne_none _ hcounted
  | some ilen =>
    obtain ⟨-, rfl⟩ := checked_eq_some_iff.mp hcounted
    have hsum : ((entries.length + 1 : ℕ) : ℤ) + items.length =
        (entries.length + items.length + 1 : ℕ) := by
      push_cast
      ring
    rw [Option.bind_some, add, hsum]
    cases hneeded : checked 32 ((entries.length + items.length + 1 : ℕ) : ℤ) with
    | none =>
      rw [Option.bind_none, if_neg fun hroom => ?_]
      rw [checked_of_le (by omega)] at hneeded
      exact Option.some_ne_none _ hneeded
    | some needed =>
      obtain ⟨hrange, rfl⟩ := checked_eq_some_iff.mp hneeded
      have hlarge : entries.length + items.length + 1 < 2 ^ 31 := by
        have := hrange.2
        omega
      rw [Option.bind_some, growCapacity_eq hfits]
      by_cases hgrow : capacity entries.length < entries.length + items.length + 1
      · rw [if_pos (by exact_mod_cast hgrow)]
        by_cases hroom : entries.length + items.length + 1 ≤ limit
        · have hmono := capacity_mono (Nat.le_add_right entries.length items.length)
          rw [if_pos hroom, if_pos hroom, Option.bind_some, arrayOf,
            xrealloc_blockOf hcapacity hmono,
            writeArguments_blockOf (lt_capacity _) hlarge, arrayOf, List.length_append]
        · rw [if_neg hroom, if_neg hroom, Option.bind_none]
      · have hroom := Nat.le_of_not_lt hgrow
        have hpower : capacity entries.length ≤ limit :=
          Nat.pow_le_pow_right two_pos (Nat.lt_succ_iff.mp (fits_iff.mpr hfits))
        rw [if_neg (by exact_mod_cast hgrow), if_pos (hroom.trans hpower), arrayOf,
          writeArguments_blockOf hroom hlarge, arrayOf, List.length_append,
          capacity_of_room hroom]

theorem Call.run_eq (call : Call P) (hfits : entries.length + 1 ≤ limit) :
    call.run (arrayOf entries) =
      if (entries ++ call.items).length + 1 ≤ limit then
        some (arrayOf (entries ++ call.items))
      else none := by
  rw [List.length_append]
  cases call with
  | append p => exact parrayExtend_eq hfits
  | extend items => exact parrayExtend_eq hfits

/-- Calls make the array of all that they append, or overflow. -/
theorem runCalls_eq (calls : List (Call P)) (hfits : entries.length + 1 ≤ limit) :
    runCalls calls (arrayOf entries) =
      if (entries ++ appended calls).length + 1 ≤ limit then
        some (arrayOf (entries ++ appended calls))
      else none := by
  induction calls generalizing entries with
  | nil =>
    have hnone : entries ++ appended ([] : List (Call P)) = entries :=
      List.append_nil entries
    rw [hnone, if_pos hfits, runCalls]
  | cons call rest ih =>
    have hall : entries ++ appended (call :: rest) =
        (entries ++ call.items) ++ appended rest := (List.append_assoc ..).symm
    rw [runCalls, call.run_eq hfits, hall]
    split
    · rename_i hroom
      rw [Option.bind_some, ih hroom]
    · rename_i hfull
      rw [Option.bind_none, if_neg fun hroom => ?_]
      rw [List.length_append] at hroom
      omega

/-! ## Runs from a new array -/

/-- An array has the least capacity for its entries and the null pointer, and the null
pointer ends it. -/
structure Holds (block : Block P) (entries : List P) : Prop where
  capacity : IsLeast {size | entries.length + 1 ≤ size ∧ ∃ k, size = 2 ^ k} block.length
  contents : ∃ rest, block = entries.map .entry ++ .null :: rest

theorem holds_arrayOf (entries : List P) : Holds (arrayOf entries) entries where
  capacity := by
    rw [arrayOf, length_blockOf (lt_capacity _)]
    refine ⟨⟨lt_capacity _, _, rfl⟩, ?_⟩
    rintro size ⟨hsize, k, rfl⟩
    exact Nat.pow_le_pow_right two_pos ((Nat.clog_le_iff_le_pow one_lt_two).mpr hsize)
  contents := ⟨_, rfl⟩

theorem runCalls_parrayNew (calls : List (Call P)) :
    runCalls calls parrayNew =
      if (appended calls).length + 1 ≤ limit then some (arrayOf (appended calls))
      else none := by
  rw [← arrayOf_nil, runCalls_eq calls (by norm_num [limit]), List.nil_append]

/-- Calls never leave the block, and an array holds all that was appended so far. -/
def Grows (calls : List (Call P)) : Prop :=
  ∀ done, done <+: calls →
    ∃ block, runCalls done parrayNew = some block ∧ Holds block (appended done)

/-- An array grows as it should as long as its entries with the null pointer are at most
half of what an integer can count. -/
theorem grows_iff (calls : List (Call P)) :
    Grows calls ↔ (appended calls).length + 1 ≤ 2 ^ 30 := by
  constructor
  · intro hgrows
    obtain ⟨block, hrun, -⟩ := hgrows calls List.prefix_rfl
    rw [runCalls_parrayNew] at hrun
    split at hrun
    · assumption
    · exact absurd hrun (Option.some_ne_none _).symm
  · rintro hfits done ⟨later, rfl⟩
    have hdone : (appended done).length + 1 ≤ limit := by
      rw [appended, List.flatMap_append, List.length_append] at hfits
      exact (Nat.succ_le_succ (Nat.le_add_right _ _)).trans hfits
    refine ⟨arrayOf (appended done), ?_, holds_arrayOf _⟩
    rw [runCalls_parrayNew, if_pos hdone]

theorem length_appended_replicate (p : P) (n : ℕ) :
    (appended (List.replicate n (.append p))).length = n := by
  induction n with
  | zero => rfl
  | succ n ih =>
    rw [List.replicate_succ, appended, List.flatMap_cons, List.length_append]
    exact (congrArg _ ih).trans (Nat.add_comm 1 n)

end

/-- With so many entries the capacity overflows. -/
theorem not_grows_replicate : ¬Grows (List.replicate (2 ^ 30) (Call.append ())) := by
  intro hgrows
  obtain ⟨block, hrun, -⟩ := hgrows _ List.prefix_rfl
  rw [runCalls_parrayNew, length_appended_replicate, if_neg (by norm_num [limit])] at hrun
  exact Option.some_ne_none _ hrun.symm

end LinuxPtp.PointerArray
