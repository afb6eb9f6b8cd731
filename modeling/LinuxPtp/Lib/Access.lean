import LinuxPtp.Lib.ByteOrder

/-!
# Programs over a byte buffer and their footprints

A parser that works on a raw buffer is safe when every byte it touches lies in
the range it was given.  Programs here run on a buffer that records each
access.  `Confined lo hi` says three things at once: all accesses fall in
`[lo, hi)`, bytes outside are left alone, and the outcome depends on the bytes
inside only.  It is closed under sequencing, so a parser is confined as soon
as its single accesses are.
-/

namespace Access

open ByteOrder

structure Span where
  offset : ℕ
  width : ℕ
  deriving DecidableEq, Repr

def Span.Within (span : Span) (lo hi : ℕ) : Prop :=
  lo ≤ span.offset ∧ span.offset + span.width ≤ hi

/-- The buffer, the accesses made so far (latest first), and whatever else the
program keeps. -/
structure Store (σ : Type) where
  mem : Memory
  spans : List Span
  rest : σ

end Access

/-- A program on a buffer that may stop with an error.  The store is kept in
either case, since an error does not undo what was written. -/
def Access (σ ε α : Type) : Type :=
  Access.Store σ → Except ε α × Access.Store σ

namespace Access

open ByteOrder

variable {σ ε α β : Type}

def ret (value : α) : Access σ ε α :=
  fun store => (.ok value, store)

def andThen (program : Access σ ε α) (next : α → Access σ ε β) :
    Access σ ε β :=
  fun store =>
    match program store with
    | (.ok value, store') => next value store'
    | (.error err, store') => (.error err, store')

instance : Monad (Access σ ε) where
  pure := ret
  bind := andThen

def fail (err : ε) : Access σ ε α :=
  fun store => (.error err, store)

def getRest : Access σ ε σ :=
  fun store => (.ok store.rest, store)

def modifyRest (update : σ → σ) : Access σ ε Unit :=
  fun store => (.ok (), { store with rest := update store.rest })

def readWord (endian : Endian) (offset width : ℕ) : Access σ ε ℕ :=
  fun store =>
    (.ok (hostWord endian store.mem offset width),
      { store with spans := ⟨offset, width⟩ :: store.spans })

def readByte (offset : ℕ) : Access σ ε ℕ :=
  readWord .big offset 1

def writeBytes (offset : ℕ) (bytes : List UInt8) : Access σ ε Unit :=
  fun store =>
    (.ok (), { store with
      mem := storeBytes store.mem offset bytes
      spans := ⟨offset, bytes.length⟩ :: store.spans })

/-- Store a number at `offset` as the host lays it out. -/
def writeWord (endian : Endian) (offset width number : ℕ) :
    Access σ ε Unit :=
  writeBytes offset (endian.encode width number)

/-- Convert the word at `offset` in place. -/
def swapWord (endian : Endian) (offset width : ℕ) : Access σ ε Unit :=
  fun store =>
    (.ok (), { store with
      mem := netSwap endian offset width store.mem
      spans := ⟨offset, width⟩ :: store.spans })

/-- Run `cleanup` on what the program keeps besides the buffer, if it
fails. -/
def onFail (cleanup : σ → σ) (program : Access σ ε α) : Access σ ε α :=
  fun store =>
    match program store with
    | (.ok value, store') => (.ok value, store')
    | (.error err, store') =>
        (.error err, { store' with rest := cleanup store'.rest })

def succeeds (program : Access σ ε Unit) : Access σ ε Bool :=
  fun store =>
    match program store with
    | (.ok _, store') => (.ok true, store')
    | (.error _, store') => (.ok false, store')

/-! ## Running programs -/

@[simp]
theorem pure_run (value : α) (store : Store σ) :
    (pure value : Access σ ε α) store = (.ok value, store) := rfl

/-- One program after the other. -/
theorem bind_run (program : Access σ ε α) (next : α → Access σ ε β)
    (store : Store σ) :
    (program >>= next) store =
      match program store with
      | (.ok value, store') => next value store'
      | (.error err, store') => (.error err, store') := rfl

theorem bind_of_run {program : Access σ ε α} {store store' : Store σ} {value : α}
    (hrun : program store = (.ok value, store')) (next : α → Access σ ε β) :
    (program >>= next) store = next value store' := by
  rw [bind_run, hrun]

theorem writeWord_run (endian : Endian) (offset width number : ℕ) (store : Store σ) :
    (writeWord endian offset width number : Access σ ε Unit) store =
      (.ok (), { store with
        mem := storeBytes store.mem offset (endian.encode width number)
        spans := ⟨offset, (endian.encode width number).length⟩ :: store.spans }) := rfl

theorem modifyRest_run (update : σ → σ) (store : Store σ) :
    (modifyRest update : Access σ ε Unit) store =
      (.ok (), { store with rest := update store.rest }) := rfl

@[simp]
theorem fail_run (err : ε) (store : Store σ) :
    (fail err : Access σ ε α) store = (.error err, store) := rfl

/-- A sequence succeeds exactly when both parts do. -/
theorem bind_eq_ok {program : Access σ ε α} {next : α → Access σ ε β}
    {store final : Store σ} {result : β} :
    (program >>= next) store = (.ok result, final) ↔
      ∃ value middle, program store = (.ok value, middle) ∧
        next value middle = (.ok result, final) := by
  rw [bind_run]
  constructor
  · intro hrun
    split at hrun
    · exact ⟨_, _, ‹_›, hrun⟩
    · simp at hrun
  · rintro ⟨value, middle, hprogram, hnext⟩
    rw [hprogram]
    exact hnext

theorem modifyRest_eq_ok {update : σ → σ} {value : Unit}
    {store final : Store σ}
    (hrun : (modifyRest update : Access σ ε Unit) store = (.ok value, final)) :
    final = { store with rest := update store.rest } := by
  rw [modifyRest_run] at hrun
  exact (Prod.mk.inj hrun).2.symm

/-- A cleanup for failures is not seen in a success. -/
theorem onFail_eq_ok {cleanup : σ → σ} {program : Access σ ε α}
    {store final : Store σ} {result : α} :
    onFail cleanup program store = (.ok result, final) ↔
      program store = (.ok result, final) := by
  unfold onFail
  split <;> simp_all

/-- A check that has passed. -/
theorem ite_fail_eq_ok {condition : Prop} [Decidable condition] {err : ε}
    {program : Access σ ε α} {store final : Store σ} {result : α} :
    (if condition then fail err else program) store = (.ok result, final) ↔
      ¬condition ∧ program store = (.ok result, final) := by
  split <;> simp_all

/-! ## What a program can return -/

/-- Every value the program returns satisfies `post`. -/
def Returns (program : Access σ ε α) (post : α → Prop) : Prop :=
  ∀ ⦃store value final⦄, program store = (.ok value, final) → post value

namespace Returns

variable {post : α → Prop}

theorem trivial (program : Access σ ε α) :
    Returns program fun _ => True :=
  fun _ _ _ _ => True.intro

theorem pure {value : α} (hvalue : post value) :
    Returns (Pure.pure value : Access σ ε α) post := by
  intro store value' final hrun
  obtain rfl : value = value' := by simpa using congrArg Prod.fst hrun
  exact hvalue

theorem fail (err : ε) : Returns (fail err : Access σ ε α) post := by
  intro store value final hrun
  simp at hrun

theorem bind {program : Access σ ε α} {next : α → Access σ ε β}
    {middle : α → Prop} {post : β → Prop}
    (hprogram : Returns program middle)
    (hnext : ∀ value, middle value → Returns (next value) post) :
    Returns (program >>= next) post := by
  intro store result final hrun
  obtain ⟨value, store', hfirst, hsecond⟩ := bind_eq_ok.mp hrun
  exact hnext value (hprogram hfirst) hsecond

theorem ite {condition : Prop} [Decidable condition]
    {yes no : Access σ ε α} (hyes : condition → Returns yes post)
    (hno : ¬condition → Returns no post) :
    Returns (if condition then yes else no) post := by
  split
  · exact hyes ‹_›
  · exact hno ‹_›

theorem mono {program : Access σ ε α} {weaker : α → Prop}
    (hprogram : Returns program post) (hpost : ∀ value, post value → weaker value) :
    Returns program weaker :=
  fun _ _ _ hrun => hpost _ (hprogram hrun)

end Returns

/-! ## Confined programs -/

/-- Two buffers that look the same in `[lo, hi)`. -/
def AgreeOn (lo hi : ℕ) (left right : Memory) : Prop :=
  ∀ i, lo ≤ i → i < hi → left i = right i

theorem AgreeOn.symm {lo hi : ℕ} {left right : Memory}
    (hagree : AgreeOn lo hi left right) : AgreeOn lo hi right left :=
  fun i hlo hhi => (hagree i hlo hhi).symm

theorem AgreeOn.trans {lo hi : ℕ} {left middle right : Memory}
    (hleft : AgreeOn lo hi left middle)
    (hright : AgreeOn lo hi middle right) : AgreeOn lo hi left right :=
  fun i hlo hhi => (hleft i hlo hhi).trans (hright i hlo hhi)

theorem AgreeOn.mono {lo hi lo' hi' : ℕ} {left right : Memory}
    (hagree : AgreeOn lo hi left right) (hlo : lo ≤ lo') (hhi : hi' ≤ hi) :
    AgreeOn lo' hi' left right :=
  fun i hge hlt => hagree i (by omega) (by omega)

theorem AgreeOn.hostWord {lo hi offset width : ℕ} {left right : Memory}
    (hagree : AgreeOn lo hi left right) (endian : Endian)
    (hlo : lo ≤ offset) (hhi : offset + width ≤ hi) :
    hostWord endian left offset width = hostWord endian right offset width :=
  hostWord_congr endian fun i hge hlt => hagree i (by omega) (by omega)

theorem AgreeOn.netWord {lo hi offset width : ℕ} {left right : Memory}
    (hagree : AgreeOn lo hi left right)
    (hlo : lo ≤ offset) (hhi : offset + width ≤ hi) :
    netWord left offset width = netWord right offset width :=
  netWord_congr fun i hge hlt => hagree i (by omega) (by omega)

theorem AgreeOn.netSwap {lo hi offset width : ℕ} {left right : Memory}
    (hagree : AgreeOn lo hi left right) (endian : Endian)
    (hlo : lo ≤ offset) (hhi : offset + width ≤ hi) :
    AgreeOn lo hi (netSwap endian offset width left)
      (netSwap endian offset width right) := by
  intro i hge hlt
  by_cases hword : offset ≤ i ∧ i < offset + width
  · exact netSwap_congr endian
      (fun j hj hj' => hagree j (by omega) (by omega)) hword.1 hword.2
  · rw [netSwap_outside endian _ (by omega), netSwap_outside endian _ (by omega)]
    exact hagree i hge hlt

/-- What a program may do besides accessing the buffer: the errors it may stop
with, how it may change what it keeps, and how much of that it may look at. -/
structure Effects (σ ε : Type) where
  errors : ε → Prop
  updates : σ → σ → Prop
  same : σ → σ → Prop
  refl : ∀ rest, updates rest rest
  trans : ∀ ⦃first second third⦄, updates first second →
    updates second third → updates first third

def Effects.bufferOnly (errors : ε → Prop) : Effects σ ε where
  errors := errors
  updates := Eq
  same _ _ := True
  refl _ := rfl
  trans _ _ _ hleft hright := hleft.trans hright

/-- The footprint of the program lies in `[lo, hi)`, and it does nothing else
than the effects allow. -/
structure Confined (effects : Effects σ ε) (lo hi : ℕ)
    (program : Access σ ε α) : Prop where
  touches : ∀ store, ∃ spans, (∀ span ∈ spans, Span.Within span lo hi) ∧
    (program store).2.spans = spans ++ store.spans
  frame : ∀ store i, i < lo ∨ hi ≤ i →
    (program store).2.mem i = store.mem i
  congr : ∀ left right, AgreeOn lo hi left.mem right.mem →
    effects.same left.rest right.rest →
    (program left).1 = (program right).1 ∧
      effects.same (program left).2.rest (program right).2.rest ∧
      AgreeOn lo hi (program left).2.mem (program right).2.mem
  raises : ∀ ⦃store err final⦄, program store = (.error err, final) →
    effects.errors err
  updates : ∀ store, effects.updates store.rest (program store).2.rest

namespace Confined

variable {effects : Effects σ ε} {lo hi : ℕ}

/-- Outside its bounds a confined program changes nothing. -/
theorem mem_eq {program : Access σ ε α} {store final : Store σ}
    {result : Except ε α} (hprogram : Confined effects lo hi program)
    (hrun : program store = (result, final)) {i : ℕ}
    (houtside : i < lo ∨ hi ≤ i) : final.mem i = store.mem i := by
  have hframe := hprogram.frame store i houtside
  rwa [hrun] at hframe

theorem pure (value : α) :
    Confined effects lo hi (Pure.pure value : Access σ ε α) where
  touches store := ⟨[], by simp, rfl⟩
  frame _ _ _ := rfl
  congr _ _ hmem hrest := ⟨rfl, hrest, hmem⟩
  raises _ _ _ hrun := by simp at hrun
  updates _ := effects.refl _

theorem fail {err : ε} (herr : effects.errors err) :
    Confined effects lo hi (fail err : Access σ ε α) where
  touches store := ⟨[], by simp, rfl⟩
  frame _ _ _ := rfl
  congr _ _ hmem hrest := ⟨rfl, hrest, hmem⟩
  raises _ _ _ hrun := by
    obtain rfl : err = _ := by simpa using congrArg Prod.fst hrun
    exact herr
  updates _ := effects.refl _

theorem getRest
    (hsame : ∀ left right, effects.same left right → left = right) :
    Confined effects lo hi (getRest : Access σ ε σ) where
  touches store := ⟨[], by simp, rfl⟩
  frame _ _ _ := rfl
  congr _ _ hmem hrest := ⟨congrArg Except.ok (hsame _ _ hrest), hrest, hmem⟩
  raises _ _ _ hrun := by simp [Access.getRest] at hrun
  updates _ := effects.refl _

/-- An update of the rest is confined to nothing. -/
theorem modifyRest {update : σ → σ}
    (hupdate : ∀ rest, effects.updates rest (update rest))
    (hsame : ∀ left right, effects.same left right →
      effects.same (update left) (update right)) :
    Confined effects lo hi (modifyRest update : Access σ ε Unit) where
  touches store := ⟨[], by simp, rfl⟩
  frame _ _ _ := rfl
  congr _ _ hmem hrest := ⟨rfl, hsame _ _ hrest, hmem⟩
  raises _ _ _ hrun := by simp [Access.modifyRest] at hrun
  updates _ := hupdate _

/-- The second part need only be confined for the values that the first one
can return. -/
theorem bind_of_returns {program : Access σ ε α} {next : α → Access σ ε β}
    {post : α → Prop} (hprogram : Confined effects lo hi program)
    (hreturns : Returns program post)
    (hnext : ∀ value, post value → Confined effects lo hi (next value)) :
    Confined effects lo hi (program >>= next) where
  touches store := by
    obtain ⟨first, hfirst, hspans⟩ := hprogram.touches store
    rw [bind_run]
    rcases hrun : program store with ⟨_ | value, middle⟩
    · rw [hrun] at hspans
      exact ⟨first, hfirst, hspans⟩
    · rw [hrun] at hspans
      obtain ⟨second, hsecond, hspans'⟩ := (hnext value (hreturns hrun)).touches middle
      refine ⟨second ++ first, ?_, ?_⟩
      · intro span hspan
        rcases List.mem_append.mp hspan with hspan | hspan
        · exact hsecond span hspan
        · exact hfirst span hspan
      · simp only [hspans', List.append_assoc]
        exact congrArg _ hspans
  frame store i houtside := by
    have hmem := hprogram.frame store i houtside
    rw [bind_run]
    rcases hrun : program store with ⟨_ | value, middle⟩
    · rwa [hrun] at hmem
    · rw [hrun] at hmem
      exact ((hnext value (hreturns hrun)).frame middle i houtside).trans hmem
  congr left right hmem hrest := by
    obtain ⟨hvalue, hrest', hmem'⟩ := hprogram.congr left right hmem hrest
    rw [bind_run, bind_run]
    rcases hleft : program left with ⟨leftValue, leftStore⟩
    rcases hright : program right with ⟨rightValue, rightStore⟩
    rw [hleft, hright] at hvalue hrest' hmem'
    obtain rfl : leftValue = rightValue := hvalue
    cases leftValue with
    | error err => exact ⟨rfl, hrest', hmem'⟩
    | ok value =>
      exact (hnext value (hreturns hleft)).congr leftStore rightStore hmem' hrest'
  raises store err final hrun := by
    rw [bind_run] at hrun
    rcases hfirst : program store with ⟨_ | value, middle⟩
    · rw [hfirst] at hrun
      obtain rfl : _ = err := by simpa using congrArg Prod.fst hrun
      exact hprogram.raises hfirst
    · rw [hfirst] at hrun
      exact (hnext value (hreturns hfirst)).raises hrun
  updates store := by
    have hfirst := hprogram.updates store
    rw [bind_run]
    rcases hrun : program store with ⟨_ | value, middle⟩
    · rwa [hrun] at hfirst
    · rw [hrun] at hfirst
      exact effects.trans hfirst
        ((hnext value (hreturns hrun)).updates middle)

theorem bind {program : Access σ ε α} {next : α → Access σ ε β}
    (hprogram : Confined effects lo hi program)
    (hnext : ∀ value, Confined effects lo hi (next value)) :
    Confined effects lo hi (program >>= next) :=
  bind_of_returns hprogram (.trivial program) fun value _ => hnext value

theorem onFail {cleanup : σ → σ} {program : Access σ ε α}
    (hprogram : Confined effects lo hi program)
    (hcleanup : ∀ rest, effects.updates rest (cleanup rest))
    (hsame : ∀ left right, effects.same left right →
      effects.same (cleanup left) (cleanup right)) :
    Confined effects lo hi (onFail cleanup program) where
  touches store := by
    obtain ⟨spans, hspans, hrun⟩ := hprogram.touches store
    refine ⟨spans, hspans, ?_⟩
    unfold Access.onFail
    split <;> simp_all
  frame store i houtside := by
    have hmem := hprogram.frame store i houtside
    unfold Access.onFail
    split <;> simp_all
  congr left right hmem hrest := by
    obtain ⟨hvalue, hrest', hmem'⟩ := hprogram.congr left right hmem hrest
    unfold Access.onFail
    rcases hleft : program left with ⟨leftValue, leftStore⟩
    rcases hright : program right with ⟨rightValue, rightStore⟩
    rw [hleft, hright] at hvalue hrest' hmem'
    obtain rfl : leftValue = rightValue := hvalue
    cases leftValue with
    | error err => exact ⟨rfl, hsame _ _ hrest', hmem'⟩
    | ok value => exact ⟨rfl, hrest', hmem'⟩
  raises store err final hrun := by
    unfold Access.onFail at hrun
    rcases hfirst : program store with ⟨firstErr | value, middle⟩
    · rw [hfirst] at hrun
      obtain rfl : firstErr = err := by simpa using congrArg Prod.fst hrun
      exact hprogram.raises hfirst
    · rw [hfirst] at hrun
      simp at hrun
  updates store := by
    have hrun := hprogram.updates store
    unfold Access.onFail
    rcases hfirst : program store with ⟨_ | value, middle⟩
    · rw [hfirst] at hrun
      exact effects.trans hrun (hcleanup _)
    · rwa [hfirst] at hrun

theorem ite {condition : Prop} [Decidable condition]
    {yes no : Access σ ε α} (hyes : condition → Confined effects lo hi yes)
    (hno : ¬condition → Confined effects lo hi no) :
    Confined effects lo hi (if condition then yes else no) := by
  split
  · exact hyes ‹_›
  · exact hno ‹_›

theorem mono {lo' hi' : ℕ} {program : Access σ ε α}
    (hprogram : Confined effects lo hi program) (hlo : lo' ≤ lo) (hhi : hi ≤ hi') :
    Confined effects lo' hi' program where
  touches store := by
    obtain ⟨spans, hspans, hrun⟩ := hprogram.touches store
    refine ⟨spans, fun span hspan => ?_, hrun⟩
    have := hspans span hspan
    exact ⟨by have := this.1; omega, by have := this.2; omega⟩
  frame store i houtside := hprogram.frame store i (by omega)
  congr left right hmem hrest := by
    obtain ⟨hvalue, hrest', hmem'⟩ :=
      hprogram.congr left right (hmem.mono hlo hhi) hrest
    refine ⟨hvalue, hrest', fun i hge hlt => ?_⟩
    by_cases hinside : lo ≤ i ∧ i < hi
    · exact hmem' i hinside.1 hinside.2
    · rw [hprogram.frame left i (by omega), hprogram.frame right i (by omega)]
      exact hmem i hge hlt
  raises _ _ _ hrun := hprogram.raises hrun
  updates store := hprogram.updates store

/-- A program that works on the buffer only may stand anywhere. -/
theorem ofBuffer {errors : ε → Prop} {program : Access σ ε α}
    (hprogram : Confined (.bufferOnly errors) lo hi program)
    (herrors : ∀ err, errors err → effects.errors err) :
    Confined effects lo hi program where
  touches := hprogram.touches
  frame := hprogram.frame
  congr left right hmem hrest := by
    obtain ⟨hvalue, -, hmem'⟩ := hprogram.congr left right hmem trivial
    have hleft : left.rest = _ := hprogram.updates left
    have hright : right.rest = _ := hprogram.updates right
    exact ⟨hvalue, hleft ▸ hright ▸ hrest, hmem'⟩
  raises _ _ _ hrun := herrors _ (hprogram.raises hrun)
  updates store := by
    have hstore : store.rest = _ := hprogram.updates store
    exact hstore ▸ effects.refl _

/-- A word is read within its bounds. -/
theorem readWord (endian : Endian) {offset width : ℕ} (hlo : lo ≤ offset)
    (hhi : offset + width ≤ hi) :
    Confined effects lo hi (readWord endian offset width : Access σ ε ℕ) where
  touches store :=
    ⟨[⟨offset, width⟩], by simpa using ⟨hlo, hhi⟩, rfl⟩
  frame _ _ _ := rfl
  congr left right hmem hrest :=
    ⟨congrArg Except.ok (hmem.hostWord endian hlo hhi), hrest, hmem⟩
  raises _ _ _ hrun := by simp [Access.readWord] at hrun
  updates _ := effects.refl _

theorem readByte {offset : ℕ} (hlo : lo ≤ offset) (hhi : offset < hi) :
    Confined effects lo hi (readByte offset : Access σ ε ℕ) :=
  readWord .big hlo hhi

/-- Bytes are written within theirs. -/
theorem writeBytes {offset : ℕ} {bytes : List UInt8} (hlo : lo ≤ offset)
    (hhi : offset + bytes.length ≤ hi) :
    Confined effects lo hi (writeBytes offset bytes : Access σ ε Unit) where
  touches store :=
    ⟨[⟨offset, bytes.length⟩], by simpa using ⟨hlo, hhi⟩, rfl⟩
  frame store i houtside := storeBytes_outside _ _ (by omega)
  congr left right hmem hrest := by
    refine ⟨rfl, hrest, fun i hge hlt => ?_⟩
    have := hmem i hge hlt
    simp only [Access.writeBytes, storeBytes, this]
  raises _ _ _ hrun := by simp [Access.writeBytes] at hrun
  updates _ := effects.refl _

theorem writeWord (endian : Endian) {offset width number : ℕ}
    (hlo : lo ≤ offset) (hhi : offset + width ≤ hi) :
    Confined effects lo hi (writeWord endian offset width number : Access σ ε Unit) :=
  writeBytes hlo (by simpa using hhi)

/-- A word is converted within its bounds. -/
theorem swapWord (endian : Endian) {offset width : ℕ} (hlo : lo ≤ offset)
    (hhi : offset + width ≤ hi) :
    Confined effects lo hi (swapWord endian offset width : Access σ ε Unit) where
  touches store :=
    ⟨[⟨offset, width⟩], by simpa using ⟨hlo, hhi⟩, rfl⟩
  frame store i houtside := netSwap_outside endian _ (by omega)
  congr left right hmem hrest := by
    refine ⟨rfl, hrest, fun i hge hlt => ?_⟩
    exact hmem.netSwap endian hlo hhi i hge hlt
  raises _ _ _ hrun := by simp [Access.swapWord] at hrun
  updates _ := effects.refl _

end Confined

end Access
