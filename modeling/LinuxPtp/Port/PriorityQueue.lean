import LinuxPtp.Lib.BinaryHeap
import LinuxPtp.Lib.CheckedInt
import LinuxPtp.Lib.Stepping

/-!
# The priority queue

The queue that orders the grants of a unicast service by their next transmission.  Its
length and capacity are of type `int` and its entries lie in a block that grows by
reallocation.  An access outside the block and an overflow have no result here.
-/

namespace LinuxPtp.Port

open BinaryHeap CheckedInt Function

variable {α : Type}

/-- The queue, with the number of words in its block. -/
structure PQueue (α : Type) where
  len : ℤ
  max : ℤ
  cells : ℕ
  data : ℕ → α

/-- What the program asks of the queue.  An insertion that has to grow the block finds
other words behind the old ones, or no memory. -/
inductive PQueueCall (α : Type)
  | insert (entry : α) (grown : Option (ℕ → α))
  | extract

inductive PQueueAnswer (α : Type)
  | status (value : ℤ)
  | entry (value : Option α)

def enomem : ℤ := 12

/-- `sizeof(void *)`. -/
def pointerSize : ℕ := 8

/-! ## Indices and words -/

def parentIndex (x : ℤ) : Option ℤ := do
  let next ← add 32 1 x
  let half ← shiftRight 32 next 1
  sub 32 half 1

def leftIndex (x : ℤ) : Option ℤ := do
  let next ← add 32 1 x
  let twice ← shiftLeft 32 next 1
  sub 32 twice 1

def rightIndex (x : ℤ) : Option ℤ := do
  let next ← add 32 1 x
  shiftLeft 32 next 1

def PQueue.read (q : PQueue α) (index : ℤ) : Option α :=
  if 0 ≤ index ∧ index < q.cells then some (q.data index.toNat) else none

def PQueue.write (q : PQueue α) (index : ℤ) (entry : α) : Option (PQueue α) :=
  if 0 ≤ index ∧ index < q.cells then
    some { q with data := update q.data index.toNat entry }
  else none

/-! ## The functions -/

section

variable (cmp : α → α → ℤ)

def pqGreater (q : PQueue α) (a b : ℤ) : Option Bool := do
  let first ← q.read a
  let second ← q.read b
  pure (0 < cmp first second)

/-- One of the two comparisons of `heapify`. -/
def chooseMax (q : PQueue α) (child iMax : ℤ) : Option ℤ :=
  if child < q.len then do
    let isGreater ← pqGreater cmp q child iMax
    pure (if isGreater then child else iMax)
  else pure iMax

/-- `heapify`, which calls itself at most so often. -/
def heapify : ℕ → PQueue α → ℤ → Option (PQueue α)
  | 0, _, _ => none
  | calls + 1, q, index => do
      let left ← leftIndex index
      let right ← rightIndex index
      let iMax ← chooseMax cmp q left index
      let iMax ← chooseMax cmp q right iMax
      if iMax ≠ index then do
        let tmp ← q.read index
        let greatest ← q.read iMax
        let q ← q.write index greatest
        let q ← q.write iMax tmp
        heapify calls q iMax
      else pure q

/-- The loop of `pqueue_insert` with the write behind it. -/
def insertLoop : ℕ → PQueue α → ℤ → α → Option (PQueue α)
  | 0, _, _, _ => none
  | rounds + 1, q, index, d =>
      if index = 0 then q.write index d
      else do
        let above ← parentIndex index
        let entry ← q.read above
        if cmp entry d < 0 then do
          let q ← q.write index entry
          insertLoop rounds q above d
        else q.write index d

/-- `pqueue_create`, given whether either allocation succeeds. -/
def pqueueCreate (null : α) (maxLength : ℤ) (queue block : Bool) : Option (PQueue α) :=
  if queue && block then some ⟨0, maxLength, maxLength.toNat, fun _ => null⟩ else none

def pqueueExtract (q : PQueue α) : Option (Option α × PQueue α) :=
  if q.len = 0 then some (none, q)
  else do
    let data ← q.read 0
    let last ← q.read (q.len - 1)
    let q ← q.write 0 last
    let q := { q with len := q.len - 1 }
    let q ← heapify cmp (q.len.toNat + 1) q 0
    pure (some data, q)

/-- The reallocation of `pqueue_insert`; none inside where there is no memory. -/
def growBlock (q : PQueue α) (grown : Option (ℕ → α)) : Option (Option (PQueue α)) := do
  let twice ← mul 32 2 q.max
  let bytes := (twice % 2 ^ 64).toNat * pointerSize % 2 ^ 64
  match grown with
  | none => pure none
  | some words =>
      let max ← mul 32 q.max 2
      pure (some ⟨q.len, max, bytes / pointerSize,
        fun index => if index < q.cells then q.data index else words index⟩)

def pqueueInsert (q : PQueue α) (d : α) (grown : Option (ℕ → α)) :
    Option (ℤ × PQueue α) := do
  match ← (if q.max ≤ q.len then growBlock q grown else pure (some q)) with
  | none => pure (-enomem, q)
  | some q =>
      let index := q.len
      let len ← add 32 q.len 1
      let q ← insertLoop cmp (index.toNat + 1) { q with len := len } index d
      pure (0, q)

def pqueuePeek (q : PQueue α) : Option (Option α) :=
  if q.len ≠ 0 then (q.read 0).map some else some none

def pqueueServe (q : PQueue α) : PQueueCall α → Option (PQueueAnswer α × PQueue α)
  | .insert entry grown =>
      (pqueueInsert cmp q entry grown).map fun (status, q) => (.status status, q)
  | .extract => (pqueueExtract cmp q).map fun (entry, q) => (.entry entry, q)

def pqueueStep (q : Option (PQueue α)) (call : PQueueCall α) : Option (PQueue α) :=
  q.bind fun q => (pqueueServe cmp q call).map Prod.snd

end

/-! ## The purpose -/

structure TotalPreorder (cmp : α → α → ℤ) : Prop where
  swap : ∀ a b, cmp a b < 0 ↔ 0 < cmp b a
  trans : ∀ a b c, cmp a b ≤ 0 → cmp b c ≤ 0 → cmp a c ≤ 0

def below (cmp : α → α → ℤ) (a b : α) : Prop := cmp a b ≤ 0

instance (cmp : α → α → ℤ) : DecidableRel (below cmp) :=
  fun a b => inferInstanceAs (Decidable (cmp a b ≤ 0))

def PQueue.held (q : PQueue α) : Multiset α := contents q.data q.len.toNat

/-- The entries are in heap order and lie in the block, whose words are the capacity. -/
structure PQueue.Valid (cmp : α → α → ℤ) (q : PQueue α) : Prop where
  ordered : Ordered (below cmp) q.data q.len.toNat
  len_nonneg : 0 ≤ q.len
  len_le : q.len ≤ q.max
  max_pos : 1 ≤ q.max
  max_lt : q.max < 2 ^ 31
  cells_eq : q.cells = q.max

/-- What a call may do: an insertion adds its entry, or finds no memory and changes
nothing; an extraction returns what `pqueue_peek` shows, an entry than which no other is
greater, and removes it. -/
def Refines (cmp : α → α → ℤ) (q q' : PQueue α) : PQueueCall α → PQueueAnswer α → Prop
  | .insert entry grown, .status value =>
      value = 0 ∧ q'.held = entry ::ₘ q.held ∨
        value = -enomem ∧ grown = none ∧ q.len = q.max ∧ q' = q
  | .extract, .entry none => pqueuePeek q = some none ∧ q.held = 0 ∧ q' = q
  | .extract, .entry (some entry) =>
      pqueuePeek q = some (some entry) ∧ q.held = entry ::ₘ q'.held ∧
        ∀ other ∈ q.held, ¬0 < cmp other entry
  | _, _ => False

/-- No index and no capacity outgrows an `int`: an insertion has room or less than 2³⁰
words to double, an extraction has at most 2³⁰ entries to choose from. -/
def Fits (q : PQueue α) : PQueueCall α → Prop
  | .insert _ _ => q.len < q.max ∨ q.max < 2 ^ 30
  | .extract => q.len ≤ 2 ^ 30

instance (q : PQueue α) : (call : PQueueCall α) → Decidable (Fits q call)
  | .insert _ _ => inferInstanceAs (Decidable (_ ∨ _))
  | .extract => inferInstanceAs (Decidable (_ ≤ _))

/-! ## The functions where nothing overflows -/

section

variable {cmp : α → α → ℤ} {q : PQueue α} {n i : ℕ}

theorem add_one_eq (hi : i < 2 ^ 31 - 1) : add 32 1 (i : ℤ) = some (1 + i : ℤ) :=
  checked_of_inRange ⟨by omega, by omega⟩

theorem parentIndex_eq (hpos : 0 < i) (hi : i < 2 ^ 31 - 1) : parentIndex i = some (parent i : ℤ) := by
  have hhalf : InRange 32 ((1 + (i : ℤ)) / 2 ^ (1 : ℤ).toNat - 1) := by
    rw [show (2 : ℤ) ^ (1 : ℤ).toNat = 2 from rfl]
    exact ⟨by omega, by omega⟩
  rw [parentIndex, add_one_eq hi, Option.bind_eq_bind, Option.bind_some, shiftRight,
    if_pos ⟨by decide, by decide⟩, Option.bind_some, sub, checked_of_inRange hhalf,
    show (2 : ℤ) ^ (1 : ℤ).toNat = 2 from rfl, Option.some_inj, parent]
  omega

/-- Doubling does not reach the sign. -/
theorem rightIndex_eq (hi : i + 1 < 2 ^ 30) : rightIndex i = some (right i : ℤ) := by
  have htwice : InRange 32 ((1 + (i : ℤ)) * 2) := ⟨by omega, by omega⟩
  rw [rightIndex, add_one_eq (by omega), Option.bind_eq_bind, Option.bind_some, shiftLeft,
    if_pos ⟨by decide, by decide, by omega⟩, show (2 : ℤ) ^ (1 : ℤ).toNat = 2 from rfl,
    checked_of_inRange htwice, Option.some_inj, right]
  omega

theorem leftIndex_eq (hi : i + 1 < 2 ^ 30) : leftIndex i = some (left i : ℤ) := by
  have hleft : InRange 32 ((right i : ℤ) - 1) := by
    unfold right
    exact ⟨by omega, by omega⟩
  have hright := rightIndex_eq hi
  rw [rightIndex, add_one_eq (by omega), Option.bind_eq_bind, Option.bind_some] at hright
  rw [leftIndex, add_one_eq (by omega), Option.bind_eq_bind, Option.bind_some, hright,
    Option.bind_some, sub, checked_of_inRange hleft, Option.some_inj, left, right]
  omega

theorem read_eq (hi : i < q.cells) : q.read i = some (q.data i) := by
  rw [PQueue.read, if_pos ⟨by omega, by omega⟩, Int.toNat_natCast]

theorem write_eq (hi : i < q.cells) (entry : α) :
    q.write i entry = some { q with data := update q.data i entry } := by
  rw [PQueue.write, if_pos ⟨by omega, by omega⟩, Int.toNat_natCast]

theorem chooseMax_eq (hlen : q.len = n) (hcells : n ≤ q.cells) {child index : ℕ}
    (hindex : child < n → index < q.cells) :
    chooseMax cmp q child index = some (greater (below cmp) q.data n child index : ℤ) := by
  rw [chooseMax, hlen]
  by_cases hchild : child < n
  · rw [if_pos (by omega), pqGreater, read_eq (hchild.trans_le hcells),
      read_eq (hindex hchild)]
    simp only [Option.bind_eq_bind, Option.bind_some, Option.pure_def, greater, below,
      hchild, true_and, not_le, decide_eq_true_eq]
    split <;> rfl
  · rw [if_neg (by omega), greater, if_neg (by tauto)]
    rfl

/-- The recursion of `heapify` lets the entry sink. -/
theorem heapify_eq {calls index : ℕ} (hlen : q.len = n) (hcells : n ≤ q.cells)
    (hsmall : n < 2 ^ 30) (hindex : index + 1 < 2 ^ 30) (hcalls : n - index < calls) :
    heapify cmp calls q index =
      some { q with data := siftDown (below cmp) q.data n index } := by
  induction calls generalizing q index with
  | zero => omega
  | succ calls ih =>
    have hfirst := @chooseMax_eq _ cmp q n hlen hcells (left index) index fun hchild => by
      unfold left at hchild
      omega
    have hsecond := @chooseMax_eq _ cmp q n hlen hcells (right index)
      (greater (below cmp) q.data n (left index) index) fun hchild => by
        unfold right at hchild
        unfold greater
        split <;> omega
    rw [heapify, leftIndex_eq hindex, rightIndex_eq hindex]
    simp only [Option.bind_eq_bind, Option.bind_some, hfirst, hsecond]
    rw [← greatest, siftDown]
    by_cases hstop : greatest (below cmp) q.data n index = index
    · rw [if_neg (by simp [hstop]), if_pos hstop]
      rfl
    · obtain ⟨hlt, hlength⟩ := index_lt_greatest (below cmp) hstop
      rw [if_pos (by exact_mod_cast hstop), if_neg hstop, read_eq (by omega),
        read_eq (by omega)]
      let exchanged := q.data ∘ Equiv.swap index (greatest (below cmp) q.data n index)
      have hsink := @ih { q with data := exchanged } _ hlen hcells (by omega)
        (show n - greatest (below cmp) q.data n index < calls by omega)
      simp only [Option.bind_some]
      rw [write_eq (by omega), Option.bind_some, write_eq (by simp only; omega),
        Option.bind_some]
      simp only [update_update_eq_swap]
      exact hsink

/-- The loop of `pqueue_insert` moves the hole towards the root. -/
theorem insertLoop_eq (horder : TotalPreorder cmp) {rounds index : ℕ} {d : α}
    (hindex : index < q.cells) (hsmall : q.cells < 2 ^ 31) (hrounds : index < rounds) :
    insertLoop cmp rounds q index d =
      some { q with data := siftUp (below cmp) q.data index d } := by
  induction rounds generalizing q index with
  | zero => omega
  | succ rounds ih =>
    rw [insertLoop, siftUp]
    rcases Nat.eq_zero_or_pos index with rfl | hpos
    · rw [if_pos Nat.cast_zero, if_neg (by simp), write_eq hindex]
    have hlt := parent_lt hpos
    have hless : cmp (q.data (parent index)) d < 0 ↔
        ¬below cmp d (q.data (parent index)) := by
      rw [horder.swap, below, not_le]
    rw [if_neg (by omega), parentIndex_eq hpos (by omega)]
    simp only [Option.bind_eq_bind, Option.bind_some, read_eq (hlt.trans hindex)]
    by_cases hmove : cmp (q.data (parent index)) d < 0
    · have hrest := @ih { q with data := update q.data index (q.data (parent index)) }
        (parent index) (hlt.trans hindex) hsmall (by omega)
      rw [if_pos hmove, if_pos ⟨hpos, hless.mp hmove⟩, write_eq hindex, Option.bind_some]
      exact hrest
    · rw [if_neg hmove, if_neg (by tauto), write_eq hindex]

end

/-! ## The calls -/

section

variable {cmp : α → α → ℤ} {q : PQueue α}

theorem TotalPreorder.total (horder : TotalPreorder cmp) : Std.Total (below cmp) where
  total a b := by
    unfold below
    have := horder.swap b a
    omega

theorem TotalPreorder.isTrans (horder : TotalPreorder cmp) : IsTrans α (below cmp) where
  trans := horder.trans

theorem pqueuePeek_eq (hvalid : q.Valid cmp) (hpos : 0 < q.len) :
    pqueuePeek q = some (some (q.data 0)) := by
  have hread := @read_eq _ q 0 (by
    have := hvalid.len_le
    have := hvalid.cells_eq
    omega)
  rw [Nat.cast_zero] at hread
  rw [pqueuePeek, if_pos hpos.ne', hread, Option.map_some]

theorem pqueueExtract_eq {n : ℕ} (hvalid : q.Valid cmp) (hn : q.len = n + 1)
    (hfits : q.len ≤ 2 ^ 30) :
    pqueueExtract cmp q = some (some (q.data 0),
      ⟨n, q.max, q.cells, siftDown (below cmp) (update q.data 0 (q.data n)) n 0⟩) := by
  obtain ⟨-, -, hle, -, -, hcells⟩ := hvalid
  obtain ⟨len, max, cells, data⟩ := q
  simp only at hn hfits hle hcells
  subst hn
  have hroom : 0 < cells ∧ n < cells := by omega
  have hfirst := @read_eq _ ⟨n + 1, max, cells, data⟩ 0 hroom.1
  have hwrite := @write_eq _ ⟨n + 1, max, cells, data⟩ 0 hroom.1 (data n)
  have hsink := @heapify_eq _ cmp ⟨n, max, cells, update data 0 (data n)⟩ n (n + 1) 0 rfl
    hroom.2.le (by omega) (by omega) (by omega)
  rw [Nat.cast_zero] at hfirst hwrite hsink
  rw [pqueueExtract, if_neg (by simp only; omega), hfirst]
  simp only [Option.bind_eq_bind, Option.bind_some, add_sub_cancel_right,
    @read_eq _ ⟨n + 1, max, cells, data⟩ n hroom.2, hwrite, Int.toNat_natCast, hsink]
  rfl

/-- An extraction removes an entry than which no other is greater. -/
theorem pqueueExtract_spec (horder : TotalPreorder cmp) (hvalid : q.Valid cmp)
    (hfits : q.len ≤ 2 ^ 30) :
    ∃ entry q', pqueueExtract cmp q = some (entry, q') ∧ q'.Valid cmp ∧
      Refines cmp q q' .extract (.entry entry) := by
  rcases hvalid.len_nonneg.eq_or_lt with hzero | hpos
  · refine ⟨none, q, by rw [pqueueExtract, if_pos hzero.symm], hvalid, ?_, ?_, rfl⟩
    · rw [pqueuePeek, if_neg (by simp [← hzero])]
    · rw [PQueue.held, ← hzero]
      rfl
  · have htotal := horder.total
    have htrans := horder.isTrans
    obtain ⟨n, hn⟩ : ∃ n : ℕ, q.len = n + 1 := ⟨q.len.toNat - 1, by omega⟩
    have hordered := hvalid.ordered
    rw [hn, show ((n : ℤ) + 1).toNat = n + 1 by omega] at hordered
    obtain ⟨hsunk, hheld⟩ := remove_spec hordered
    have hbefore : q.held = contents q.data (n + 1) := by
      rw [PQueue.held, hn, show ((n : ℤ) + 1).toNat = n + 1 by omega]
    refine ⟨_, _, pqueueExtract_eq hvalid hn hfits, ?_, pqueuePeek_eq hvalid hpos, ?_, ?_⟩
    · have hle := hvalid.len_le
      exact ⟨hsunk, by simp, by simp only; omega, hvalid.max_pos, hvalid.max_lt,
        hvalid.cells_eq⟩
    · rw [hbefore, ← hheld]
      rfl
    · intro other hother
      rw [hbefore, mem_contents] at hother
      obtain ⟨index, hindex, rfl⟩ := hother
      exact not_lt.mpr (hordered.le_root index hindex)

theorem pqueueInsert_of_room (horder : TotalPreorder cmp) (hvalid : q.Valid cmp)
    (hroom : q.len < q.max) (d : α) (grown : Option (ℕ → α)) :
    ∃ q', pqueueInsert cmp q d grown = some (0, q') ∧ q'.Valid cmp ∧
      q'.held = d ::ₘ q.held ∧ q'.len = q.len + 1 ∧ q'.max = q.max := by
  have htotal := horder.total
  have htrans := horder.isTrans
  obtain ⟨hordered, hnonneg, hle, hpos, hlt, hcells⟩ := hvalid
  obtain ⟨n, hn⟩ : ∃ n : ℕ, q.len = n := ⟨q.len.toNat, by omega⟩
  rw [hn, Int.toNat_natCast] at hordered
  have hlength : ((n : ℤ) + 1).toNat = n + 1 := by omega
  obtain ⟨hrisen, hheld⟩ := @insert_spec _ _ _ q.data n d _ _ hordered
  have hloop := @insertLoop_eq _ cmp ⟨n + 1, q.max, q.cells, q.data⟩ horder (n + 1) n d
    (show n < q.cells by omega) (show q.cells < 2 ^ 31 by omega) (by omega)
  refine ⟨⟨n + 1, q.max, q.cells, siftUp (below cmp) q.data n d⟩, ?_,
    ⟨by rwa [hlength], by simp only; omega, by simp only; omega, hpos, hlt, hcells⟩, ?_,
    by rw [hn], rfl⟩
  · rw [pqueueInsert, if_neg (by omega)]
    simp only [Option.bind_eq_bind, Option.bind_some, Option.pure_def, add, hn,
      checked_of_inRange (show InRange 32 ((n : ℤ) + 1) from ⟨by omega, by omega⟩),
      Int.toNat_natCast, hloop]
  · rw [PQueue.held, PQueue.held, hn, hlength]
    exact hheld

/-- The block grows to twice its words and keeps those it had. -/
theorem growBlock_eq (hvalid : q.Valid cmp) (hfits : q.max < 2 ^ 30) (words : ℕ → α) :
    growBlock q (some words) = some (some ⟨q.len, 2 * q.max, 2 * q.cells,
      fun index => if index < q.cells then q.data index else words index⟩) := by
  have hmax := hvalid.max_pos
  have hcells := hvalid.cells_eq
  have hbytes : (2 * q.max % 2 ^ 64).toNat * pointerSize % 2 ^ 64 / pointerSize =
      2 * q.cells := by
    unfold pointerSize
    omega
  have htwice : InRange 32 (2 * q.max) := ⟨by omega, by omega⟩
  rw [growBlock, mul, checked_of_inRange htwice]
  simp only [Option.bind_eq_bind, Option.bind_some, hbytes, mul_comm q.max 2, mul,
    checked_of_inRange htwice, Option.pure_def]

theorem growBlock_none (hvalid : q.Valid cmp) (hfits : q.max < 2 ^ 30) :
    growBlock q none = some none := by
  have hmax := hvalid.max_pos
  rw [growBlock, mul, checked_of_inRange (show InRange 32 (2 * q.max) from
    ⟨by omega, by omega⟩)]
  rfl

/-- An insertion adds the entry, or finds no memory and changes nothing. -/
theorem pqueueInsert_spec (horder : TotalPreorder cmp) (hvalid : q.Valid cmp) {d : α}
    {grown : Option (ℕ → α)} (hfits : q.len < q.max ∨ q.max < 2 ^ 30) :
    ∃ value q', pqueueInsert cmp q d grown = some (value, q') ∧ q'.Valid cmp ∧
      Refines cmp q q' (.insert d grown) (.status value) := by
  by_cases hroom : q.len < q.max
  · obtain ⟨q', hinsert, hvalid', hheld, -⟩ :=
      pqueueInsert_of_room horder hvalid hroom d grown
    exact ⟨0, q', hinsert, hvalid', Or.inl ⟨rfl, hheld⟩⟩
  have hsmall := hfits.resolve_left hroom
  have hfull : q.len = q.max := le_antisymm hvalid.len_le (not_lt.mp hroom)
  cases grown with
  | none =>
    refine ⟨-enomem, q, ?_, hvalid, Or.inr ⟨rfl, rfl, hfull, rfl⟩⟩
    rw [pqueueInsert, if_pos hfull.ge, growBlock_none hvalid hsmall]
    rfl
  | some words =>
    have hcells := hvalid.cells_eq
    have hpos := hvalid.max_pos
    have hnonneg := hvalid.len_nonneg
    -- The rest of the call is that of a queue with room.
    let roomy : PQueue α := ⟨q.len, 2 * q.max, 2 * q.cells,
      fun index => if index < q.cells then q.data index else words index⟩
    have hsame : ∀ index < q.len.toNat, roomy.data index = q.data index :=
      fun index hindex => if_pos (by omega)
    have hordered : Ordered (below cmp) roomy.data q.len.toNat := by
      intro child hchild hcpos
      have hparent := (parent_lt hcpos).trans hchild
      rw [hsame child hchild, hsame _ hparent]
      exact hvalid.ordered child hchild hcpos
    have hroomy : roomy.Valid cmp := ⟨hordered, hnonneg, show q.len ≤ 2 * q.max by omega,
      show 1 ≤ 2 * q.max by omega, show 2 * q.max < 2 ^ 31 by omega,
      show ((2 * q.cells : ℕ) : ℤ) = 2 * q.max by push_cast; omega⟩
    obtain ⟨q', hinsert, hvalid', hheld, -⟩ := pqueueInsert_of_room horder hroomy
      (show q.len < 2 * q.max by omega) d (some words)
    refine ⟨0, q', ?_, hvalid', Or.inl ⟨rfl, ?_⟩⟩
    · rw [← hinsert, pqueueInsert, if_pos hfull.ge, growBlock_eq hvalid hsmall, pqueueInsert,
        if_neg (show ¬2 * q.max ≤ q.len by omega)]
      rfl
    · rw [hheld, PQueue.held, contents_congr hsame]
      rfl

end

/-! ## Size and order -/

section

variable {cmp cmp' : α → α → ℤ} {q q' : PQueue α}

theorem card_held : q.held.card = q.len.toNat := by
  simp [PQueue.held, contents]

/-- The order depends on how the comparison sees the entries of the queue. -/
theorem PQueue.Valid.congr (hvalid : q.Valid cmp)
    (hsame : ∀ a ∈ q.held, ∀ b ∈ q.held, cmp a b = cmp' a b) : q.Valid cmp' := by
  refine ⟨fun child hchild hpos => ?_, hvalid.len_nonneg, hvalid.len_le, hvalid.max_pos,
    hvalid.max_lt, hvalid.cells_eq⟩
  have hmem : ∀ index < q.len.toNat, q.data index ∈ q.held := fun index hindex =>
    mem_contents.mpr ⟨index, hindex, rfl⟩
  have hbelow := hvalid.ordered child hchild hpos
  rwa [below, hsame _ (hmem _ hchild) _ (hmem _ ((parent_lt hpos).trans hchild))] at hbelow

theorem insertLoop_max {rounds : ℕ} {index : ℤ} {d : α}
    (hloop : insertLoop cmp rounds q index d = some q') : q'.max = q.max := by
  have hwrite : ∀ {q q' : PQueue α} {index entry}, q.write index entry = some q' →
      q'.max = q.max := by
    intro q q' index entry hwrite
    rw [PQueue.write] at hwrite
    split at hwrite
    case isTrue => rw [← Option.some.inj hwrite]
    case isFalse => cases hwrite
  induction rounds generalizing q index with
  | zero => cases hloop
  | succ rounds ih =>
    rw [insertLoop] at hloop
    split at hloop
    case isTrue => exact hwrite hloop
    case isFalse =>
      obtain ⟨above, -, hloop⟩ := Option.bind_eq_some_iff.mp hloop
      obtain ⟨entry, -, hloop⟩ := Option.bind_eq_some_iff.mp hloop
      split at hloop
      case isTrue =>
        obtain ⟨moved, hmoved, hloop⟩ := Option.bind_eq_some_iff.mp hloop
        exact (ih hloop).trans (hwrite hmoved)
      case isFalse => exact hwrite hloop

/-- Only a full queue grows. -/
theorem pqueueInsert_max (hvalid : q.Valid cmp) (hfits : q.len < q.max ∨ q.max < 2 ^ 30)
    {d : α} {grown : Option (ℕ → α)} {value : ℤ}
    (hinsert : pqueueInsert cmp q d grown = some (value, q')) :
    q'.max = q.max ∨ q.len = q.max ∧ q'.max = 2 * q.max := by
  have hrest : ∀ {q q' : PQueue α} {value : ℤ}, ((add 32 q.len 1).bind fun len =>
      (insertLoop cmp (q.len.toNat + 1) { q with len := len } q.len d).bind fun q' =>
        some ((0 : ℤ), q')) = some (value, q') → q'.max = q.max := by
    intro q q' value hrest
    obtain ⟨len, -, hrest⟩ := Option.bind_eq_some_iff.mp hrest
    obtain ⟨looped, hloop, hrest⟩ := Option.bind_eq_some_iff.mp hrest
    have hmax := insertLoop_max hloop
    rwa [(Prod.mk.inj (Option.some.inj hrest)).2] at hmax
  rw [pqueueInsert] at hinsert
  by_cases hroom : q.len < q.max
  · rw [if_neg (by omega)] at hinsert
    exact Or.inl (hrest hinsert)
  have hsmall := hfits.resolve_left hroom
  rw [if_pos (by omega)] at hinsert
  cases grown with
  | none =>
    rw [growBlock_none hvalid hsmall] at hinsert
    exact Or.inl (congrArg PQueue.max (Prod.mk.inj (Option.some.inj hinsert)).2.symm)
  | some words =>
    rw [growBlock_eq hvalid hsmall] at hinsert
    exact Or.inr ⟨le_antisymm hvalid.len_le (not_lt.mp hroom), hrest hinsert⟩

/-- An extraction from a queue with entries. -/
theorem pqueueExtract_of_pos (horder : TotalPreorder cmp) (hvalid : q.Valid cmp)
    (hpos : 0 < q.len) (hfits : q.len ≤ 2 ^ 30) :
    ∃ entry q', pqueueExtract cmp q = some (some entry, q') ∧ q'.Valid cmp ∧
      pqueuePeek q = some (some entry) ∧ q.held = entry ::ₘ q'.held ∧
      (∀ other ∈ q.held, ¬0 < cmp other entry) ∧ q'.len + 1 = q.len ∧ q'.max = q.max := by
  obtain ⟨n, hn⟩ : ∃ n : ℕ, q.len = n + 1 := ⟨q.len.toNat - 1, by omega⟩
  have hextract := pqueueExtract_eq hvalid hn hfits
  obtain ⟨entry, q', hresult, hvalid', hrefines⟩ :=
    pqueueExtract_spec horder hvalid hfits
  obtain ⟨rfl, rfl⟩ := Prod.mk.inj (Option.some.inj (hresult.symm.trans hextract))
  obtain ⟨hpeek, hheld, hgreatest⟩ := hrefines
  exact ⟨_, _, hextract, hvalid', hpeek, hheld, hgreatest, hn.symm, rfl⟩

end

/-! ## Runs -/

section

open Stepping

variable {cmp : α → α → ℤ} {null : α}

theorem pqueueServe_spec (horder : TotalPreorder cmp) {q : PQueue α}
    (hvalid : q.Valid cmp) {call : PQueueCall α} (hfits : Fits q call) :
    ∃ answer q', pqueueServe cmp q call = some (answer, q') ∧ q'.Valid cmp ∧
      Refines cmp q q' call answer := by
  cases call with
  | insert entry grown =>
    obtain ⟨value, q', hinsert, hspec⟩ := pqueueInsert_spec horder hvalid hfits
    exact ⟨.status value, q', by rw [pqueueServe, hinsert, Option.map_some], hspec⟩
  | extract =>
    obtain ⟨entry, q', hextract, hspec⟩ := pqueueExtract_spec horder hvalid hfits
    exact ⟨.entry entry, q', by rw [pqueueServe, hextract, Option.map_some], hspec⟩

theorem pqueueCreate_valid {capacity : ℤ} (hpos : 1 ≤ capacity) (hlt : capacity < 2 ^ 31) :
    PQueue.Valid cmp ⟨0, capacity, capacity.toNat, fun _ => null⟩ :=
  ⟨fun child hchild => absurd hchild (by simp), le_rfl, by simp only; omega, hpos, hlt,
    by simp only; omega⟩

/-- From any capacity, after any run that outgrows no `int`, the entries are in heap order
and every further call does what it may do and stays in the block. -/
theorem pqueue_refines (horder : TotalPreorder cmp) {capacity : ℤ} (hpos : 1 ≤ capacity)
    (hlt : capacity < 2 ^ 31) {calls : List (PQueueCall α)}
    (hmeets : Meets (pqueueStep cmp) (fun q call => ∀ q' ∈ q, Fits q' call) calls
      (pqueueCreate null capacity true true)) :
    ∃ q, run (pqueueStep cmp) calls (pqueueCreate null capacity true true) = some q ∧
      q.Valid cmp ∧ ∀ call, Fits q call → ∃ answer q',
        pqueueServe cmp q call = some (answer, q') ∧ q'.Valid cmp ∧
          Refines cmp q q' call answer := by
  have hrun := @Meets.invariant _ _ _ _ (fun q => ∃ q' : PQueue α, q = some q' ∧ q'.Valid cmp)
    (fun q call hfits hvalid => by
      obtain ⟨q', rfl, hvalid⟩ := hvalid
      obtain ⟨answer, next, hserve, hvalid', -⟩ :=
        pqueueServe_spec horder hvalid (hfits q' rfl)
      exact ⟨next, by rw [pqueueStep, Option.bind_some, hserve, Option.map_some], hvalid'⟩)
    _ _ hmeets ⟨_, rfl, pqueueCreate_valid hpos hlt⟩
  obtain ⟨q, hq, hvalid⟩ := hrun
  exact ⟨q, hq, hvalid, fun call hfits => pqueueServe_spec horder hvalid hfits⟩

/-- The difference of two numbers as comparison. -/
theorem totalPreorder_sub : TotalPreorder fun a b : ℤ => a - b :=
  ⟨fun a b => by omega, fun a b c => by omega⟩

theorem pqueue_refines_grown :
    ∃ q, run (pqueueStep fun a b : ℤ => a - b)
        [.insert 3 none, .insert 5 (some fun _ => 0), .extract]
        (pqueueCreate 0 1 true true) = some q ∧
      q.Valid (fun a b : ℤ => a - b) ∧ ∀ call, Fits q call → ∃ answer q',
        pqueueServe (fun a b : ℤ => a - b) q call = some (answer, q') ∧
          q'.Valid (fun a b : ℤ => a - b) ∧
          Refines (fun a b : ℤ => a - b) q q' call answer :=
  pqueue_refines totalPreorder_sub (by decide) (by decide) (by decide +kernel)

/-- A queue fills up. -/
theorem run_fill (horder : TotalPreorder cmp) {capacity : ℕ} (hpos : 1 ≤ capacity)
    (hlt : capacity < 2 ^ 31) {d : α} {grown : Option (ℕ → α)} {n : ℕ} (hn : n ≤ capacity) :
    ∃ q, run (pqueueStep cmp) (List.replicate n (.insert d grown))
        (pqueueCreate null capacity true true) = some q ∧
      q.Valid cmp ∧ q.len = n ∧ q.max = capacity := by
  induction n with
  | zero => exact ⟨_, rfl, pqueueCreate_valid (by omega) (by omega), rfl, rfl⟩
  | succ n ih =>
    obtain ⟨q, hrun, hvalid, hlen, hmax⟩ := ih (by omega)
    obtain ⟨q', hinsert, hvalid', -, hlen', hmax'⟩ :=
      pqueueInsert_of_room horder hvalid (by omega) d grown
    refine ⟨q', ?_, hvalid', by rw [hlen', hlen]; push_cast; rfl, by rw [hmax', hmax]⟩
    rw [List.replicate_succ', run_append, hrun, run_cons, run_nil, pqueueStep,
      Option.bind_some, pqueueServe, hinsert]
    rfl

/-- A full queue of 2³⁰ entries or more cannot double its capacity. -/
theorem run_overfull (horder : TotalPreorder cmp) {capacity : ℕ} (hlarge : 2 ^ 30 ≤ capacity)
    (hlt : capacity < 2 ^ 31) (d : α) (grown : Option (ℕ → α)) :
    run (pqueueStep cmp) (List.replicate (capacity + 1) (.insert d grown))
      (pqueueCreate null capacity true true) = none := by
  obtain ⟨q, hrun, hvalid, hlen, hmax⟩ :=
    @run_fill _ cmp null horder capacity (by omega) hlt d grown capacity le_rfl
  have htwice : growBlock q grown = none := by
    rw [growBlock, mul, checked_eq_none_iff.mpr (by unfold InRange; omega)]
    rfl
  rw [List.replicate_succ', run_append, hrun, run_cons, run_nil, pqueueStep,
    Option.bind_some, pqueueServe, pqueueInsert, if_pos (by omega), htwice]
  rfl

theorem pqueue_overfull :
    run (pqueueStep fun _ _ : Unit => 0)
      (List.replicate (2 ^ 30 + 1) (.insert () (some fun _ => ())))
      (pqueueCreate () (2 ^ 30 : ℕ) true true) = none :=
  run_overfull ⟨fun _ _ => by simp, fun _ _ _ _ _ => le_rfl⟩ le_rfl (by decide) () _

end

end LinuxPtp.Port
