import LinuxPtp.Lib.Access

/-!
# Conversions in place and programs that undo them

A conversion rewrites the bytes of an interval and looks at nothing else, so
conversions of disjoint intervals commute.  `Restores` says of a program that
it turns bytes which look converted back into given ones, whatever the rest of
the buffer holds.
-/

namespace Access

open ByteOrder

/-- A conversion of the bytes in `[lo, hi)`. -/
structure Conversion where
  lo : ℕ
  hi : ℕ
  apply : Memory → Memory
  frame : ∀ mem i, i < lo ∨ hi ≤ i → apply mem i = mem i
  congr : ∀ left right, AgreeOn lo hi left right →
    AgreeOn lo hi (apply left) (apply right)

namespace Conversion

def Disjoint (left right : Conversion) : Prop :=
  left.hi ≤ right.lo ∨ right.hi ≤ left.lo

theorem Disjoint.symm {left right : Conversion}
    (hdisjoint : left.Disjoint right) : right.Disjoint left :=
  Or.symm hdisjoint

/-- Memories that agree are converted alike. -/
theorem agreeOn_apply {lo hi : ℕ} (conversion : Conversion)
    {left right : Memory} (hagree : AgreeOn lo hi left right)
    (hlo : lo ≤ conversion.lo) (hhi : conversion.hi ≤ hi) :
    AgreeOn lo hi (conversion.apply left) (conversion.apply right) := by
  intro i hge hlt
  by_cases hinside : conversion.lo ≤ i ∧ i < conversion.hi
  · exact conversion.congr left right (hagree.mono hlo hhi) i hinside.1 hinside.2
  · rw [conversion.frame left i (by omega), conversion.frame right i (by omega)]
    exact hagree i hge hlt

/-- Disjoint conversions commute. -/
theorem apply_comm (left right : Conversion)
    (hdisjoint : left.Disjoint right) (mem : Memory) :
    left.apply (right.apply mem) = right.apply (left.apply mem) := by
  have hsplit : left.hi ≤ right.lo ∨ right.hi ≤ left.lo := hdisjoint
  funext i
  by_cases hleft : left.lo ≤ i ∧ i < left.hi
  · rw [right.frame _ i (by omega)]
    refine left.congr _ _ (fun j hge hlt => ?_) i hleft.1 hleft.2
    exact right.frame mem j (by omega)
  · rw [left.frame _ i (by omega)]
    by_cases hright : right.lo ≤ i ∧ i < right.hi
    · refine right.congr _ _ (fun j hge hlt => ?_) i hright.1 hright.2
      exact (left.frame mem j (by omega)).symm
    · rw [right.frame mem i (by omega), right.frame _ i (by omega),
        left.frame mem i (by omega)]

def store (offset : ℕ) (bytes : List UInt8) : Conversion where
  lo := offset
  hi := offset + bytes.length
  apply mem := storeBytes mem offset bytes
  frame mem _ houtside := storeBytes_outside mem bytes houtside
  congr _ _ hagree i hge hlt := storeBytes_congr bytes (hagree i hge hlt)

/-- Three conversions in a row, applied twice, when the outer two undo
themselves. -/
theorem twice_of_involutions (first second third : Conversion)
    (hfirst : ∀ mem, first.apply (first.apply mem) = mem)
    (hthird : ∀ mem, third.apply (third.apply mem) = mem)
    (h₁₂ : first.Disjoint second) (h₁₃ : first.Disjoint third)
    (h₂₃ : second.Disjoint third) (mem : Memory) :
    third.apply (second.apply (first.apply
        (third.apply (second.apply (first.apply mem))))) =
      second.apply (second.apply mem) := by
  calc
    third.apply (second.apply (first.apply
        (third.apply (second.apply (first.apply mem)))))
        = third.apply (second.apply (third.apply
            (second.apply (first.apply (first.apply mem))))) := by
          rw [apply_comm _ _ h₁₃, apply_comm _ _ h₁₂]
    _ = third.apply (third.apply (second.apply (second.apply mem))) := by
          rw [hfirst, apply_comm _ _ h₂₃]
    _ = second.apply (second.apply mem) := hthird _

end Conversion

section

variable {σ ε α β : Type}

/-! ## Runs that succeed -/

/-- Started on `mem`, the program returns `value` and leaves `mem'`, whatever
has been accessed before, and keeps the rest. -/
def Runs (program : Access σ ε α) (mem : Memory) (value : α)
    (mem' : Memory) : Prop :=
  ∀ spans rest, ∃ spans',
    program ⟨mem, spans, rest⟩ = (.ok value, ⟨mem', spans', rest⟩)

namespace Runs

theorem pure (value : α) (mem : Memory) :
    Runs (Pure.pure value : Access σ ε α) mem value mem :=
  fun spans _ => ⟨spans, rfl⟩

theorem bind {program : Access σ ε α} {next : α → Access σ ε β}
    {mem mem' mem'' : Memory} {value : α} {result : β}
    (hprogram : Runs program mem value mem')
    (hnext : Runs (next value) mem' result mem'') :
    Runs (program >>= next) mem result mem'' := by
  intro spans rest
  obtain ⟨spans', hfirst⟩ := hprogram spans rest
  obtain ⟨spans'', hsecond⟩ := hnext spans' rest
  exact ⟨spans'', by rw [bind_run, hfirst]; exact hsecond⟩

theorem readWord (endian : Endian) (offset width : ℕ) (mem : Memory) :
    Runs (readWord endian offset width : Access σ ε ℕ) mem
      (hostWord endian mem offset width) mem :=
  fun _ _ => ⟨_, rfl⟩

theorem writeBytes (offset : ℕ) (bytes : List UInt8) (mem : Memory) :
    Runs (writeBytes offset bytes : Access σ ε Unit) mem ()
      (storeBytes mem offset bytes) :=
  fun _ _ => ⟨_, rfl⟩

/-- To convert a word in place. -/
theorem swapWord (endian : Endian) (offset width : ℕ) (mem : Memory) :
    Runs (swapWord endian offset width : Access σ ε Unit) mem ()
      (netSwap endian offset width mem) :=
  fun _ _ => ⟨_, rfl⟩

/-- A check that is passed. -/
theorem passes {condition : Prop} [Decidable condition] {err : ε}
    {program : Access σ ε α} {mem mem' : Memory} {value : α}
    (hpasses : ¬condition) (hprogram : Runs program mem value mem') :
    Runs (if condition then fail err else program) mem value mem' := by
  rwa [if_neg hpasses]

/-- A program that runs returns nothing else. -/
theorem eq_of_run {program : Access σ ε α} {mem' : Memory}
    {value value' : α} {store final : Store σ}
    (hruns : Runs program store.mem value mem')
    (hrun : program store = (.ok value', final)) :
    value' = value ∧ final.mem = mem' ∧ final.rest = store.rest := by
  obtain ⟨spans', hexpected⟩ := hruns store.spans store.rest
  obtain ⟨hvalue, rfl⟩ := Prod.mk.inj (hrun.symm.trans hexpected)
  exact ⟨Except.ok.inj hvalue, rfl, rfl⟩

end Runs

/-! ## Undoing a conversion -/

/-- On any buffer that looks like `converted` in `[lo, hi)`, the program makes
it look like `original` there and changes nothing else. -/
def Restores (program : Access σ ε Unit) (lo hi : ℕ)
    (converted original : Memory) : Prop :=
  ∀ mem, AgreeOn lo hi mem converted →
    ∃ mem', Runs program mem () mem' ∧ AgreeOn lo hi mem' original ∧
      ∀ i, i < lo ∨ hi ≤ i → mem' i = mem i

namespace Restores

variable {lo hi : ℕ} {converted original : Memory}

theorem pure (hagree : AgreeOn lo hi converted original) :
    Restores (Pure.pure () : Access σ ε Unit) lo hi converted original :=
  fun mem hmem => ⟨mem, .pure () mem, hmem.trans hagree, fun _ _ => rfl⟩

theorem bind {first second : Access σ ε Unit} {middle : Memory}
    (hfirst : Restores first lo hi converted middle)
    (hsecond : Restores second lo hi middle original) :
    Restores (first >>= fun _ => second) lo hi converted original := by
  intro mem hmem
  obtain ⟨mem', hruns, hagree, hframe⟩ := hfirst mem hmem
  obtain ⟨mem'', hruns', hagree', hframe'⟩ := hsecond mem' hagree
  exact ⟨mem'', hruns.bind hruns', hagree', fun i hi =>
    (hframe' i hi).trans (hframe i hi)⟩

/-- Reading sees the converted value. -/
theorem read {reader : Access σ ε α} {value : Memory → α}
    {next : α → Access σ ε Unit}
    (hreader : ∀ mem, Runs reader mem (value mem) mem)
    (hvalue : ∀ mem, AgreeOn lo hi mem converted →
      value mem = value converted)
    (hnext : Restores (next (value converted)) lo hi converted original) :
    Restores (reader >>= next) lo hi converted original := by
  intro mem hmem
  obtain ⟨mem', hruns, hagree, hframe⟩ := hnext mem hmem
  rw [← hvalue mem hmem] at hruns
  exact ⟨mem', (hreader mem).bind hruns, hagree, hframe⟩

theorem readWord {endian : Endian} {offset width : ℕ}
    {next : ℕ → Access σ ε Unit} (hlo : lo ≤ offset)
    (hhi : offset + width ≤ hi)
    (hnext : Restores (next (hostWord endian converted offset width)) lo hi
      converted original) :
    Restores (Access.readWord endian offset width >>= next) lo hi converted
      original :=
  read (Runs.readWord endian offset width)
    (fun _ hmem => hmem.hostWord endian hlo hhi) hnext

theorem conversion {program : Access σ ε Unit} (conversion : Conversion)
    (hruns : ∀ mem, Runs program mem () (conversion.apply mem))
    (hlo : lo ≤ conversion.lo) (hhi : conversion.hi ≤ hi)
    (hagree : AgreeOn lo hi (conversion.apply converted) original) :
    Restores program lo hi converted original :=
  fun mem hmem => ⟨conversion.apply mem, hruns mem,
    (conversion.agreeOn_apply hmem hlo hhi).trans hagree,
    fun i hi => conversion.frame mem i (by omega)⟩

/-- Only the bytes between the bounds matter. -/
theorem congr (converted' original' : Memory) {program : Access σ ε Unit}
    (hrestores : Restores program lo hi converted original)
    (hconverted : AgreeOn lo hi converted' converted)
    (horiginal : AgreeOn lo hi original original') :
    Restores program lo hi converted' original' := by
  intro mem hmem
  obtain ⟨mem', hruns, hagree, hframe⟩ := hrestores mem (hmem.trans hconverted)
  exact ⟨mem', hruns, hagree.trans horiginal, hframe⟩

/-- The bytes around are left alone, so they may be taken in. -/
theorem extend {lo' hi' : ℕ} {program : Access σ ε Unit}
    (hrestores : Restores program lo hi converted original)
    (hlo : lo' ≤ lo) (hhi : hi ≤ hi')
    (houtside : ∀ i, lo' ≤ i → i < hi' → i < lo ∨ hi ≤ i →
      converted i = original i) :
    Restores program lo' hi' converted original := by
  intro mem hmem
  obtain ⟨mem', hruns, hagree, hframe⟩ := hrestores mem (hmem.mono hlo hhi)
  refine ⟨mem', hruns, fun i hge hlt => ?_, fun i hi => hframe i (by omega)⟩
  by_cases hinside : lo ≤ i ∧ i < hi
  · exact hagree i hinside.1 hinside.2
  · rw [hframe i (by omega), hmem i hge hlt]
    exact houtside i hge hlt (by omega)

end Restores

/-! ## Results that depend on an interval -/

/-- On any buffer that looks like `before` in `[lo, hi)`, the program returns
`value`, makes the buffer look like `after` there and changes nothing else. -/
def Yields (program : Access σ ε α) (lo hi : ℕ) (before : Memory) (value : α)
    (after : Memory) : Prop :=
  ∀ mem, AgreeOn lo hi mem before →
    ∃ mem', Runs program mem value mem' ∧ AgreeOn lo hi mem' after ∧
      ∀ i, i < lo ∨ hi ≤ i → mem' i = mem i

namespace Yields

variable {lo hi : ℕ} {before middle after : Memory} {value : α} {result : β}

theorem pure (value : α) (mem : Memory) :
    Yields (Pure.pure value : Access σ ε α) lo hi mem value mem :=
  fun other hother => ⟨other, .pure value other, hother, fun _ _ => rfl⟩

theorem bind {program : Access σ ε α} {next : α → Access σ ε β}
    (hprogram : Yields program lo hi before value middle)
    (hnext : Yields (next value) lo hi middle result after) :
    Yields (program >>= next) lo hi before result after := by
  intro mem hmem
  obtain ⟨mem', hruns, hagree, hframe⟩ := hprogram mem hmem
  obtain ⟨mem'', hruns', hagree', hframe'⟩ := hnext mem' hagree
  exact ⟨mem'', hruns.bind hruns', hagree', fun i hi =>
    (hframe' i hi).trans (hframe i hi)⟩

theorem readWord (endian : Endian) {offset width : ℕ} (hlo : lo ≤ offset)
    (hhi : offset + width ≤ hi) (mem : Memory) :
    Yields (Access.readWord endian offset width : Access σ ε ℕ) lo hi mem
      (hostWord endian mem offset width) mem := by
  intro other hother
  refine ⟨other, ?_, hother, fun _ _ => rfl⟩
  rw [← hother.hostWord endian hlo hhi]
  exact .readWord endian offset width other

/-- A check that is passed. -/
theorem passes {condition : Prop} [Decidable condition] {err : ε}
    {program : Access σ ε α} (hpasses : ¬condition)
    (hprogram : Yields program lo hi before value after) :
    Yields (if condition then fail err else program) lo hi before value after := by
  rwa [if_neg hpasses]

theorem conversion {program : Access σ ε Unit} (conversion : Conversion)
    (hruns : ∀ mem, Runs program mem () (conversion.apply mem))
    (hlo : lo ≤ conversion.lo) (hhi : conversion.hi ≤ hi) (mem : Memory) :
    Yields program lo hi mem () (conversion.apply mem) :=
  Restores.conversion conversion hruns hlo hhi fun _ _ _ => rfl

/-- A program on the buffer whose footprint lies in the interval. -/
theorem of_confined {errors : ε → Prop} {program : Access σ ε α}
    (hconfined : Confined (.bufferOnly errors) lo hi program)
    (hruns : Runs program before value after) :
    Yields program lo hi before value after := by
  intro mem hmem
  let target : Memory := fun i => if lo ≤ i ∧ i < hi then after i else mem i
  refine ⟨target, fun spans rest => ?_, fun i hge hlt => if_pos ⟨hge, hlt⟩,
    fun i hi => if_neg (by omega)⟩
  obtain ⟨spans', hrun⟩ := hruns spans rest
  obtain ⟨hvalue, -, hagree⟩ :=
    hconfined.congr ⟨before, spans, rest⟩ ⟨mem, spans, rest⟩ hmem.symm trivial
  rw [hrun] at hvalue hagree
  have hkept : rest = (program ⟨mem, spans, rest⟩).2.rest :=
    hconfined.updates ⟨mem, spans, rest⟩
  have htarget : (program ⟨mem, spans, rest⟩).2.mem = target := by
    funext i
    by_cases hinside : lo ≤ i ∧ i < hi
    · exact (hagree i hinside.1 hinside.2).symm.trans (if_pos hinside).symm
    · exact (hconfined.frame ⟨mem, spans, rest⟩ i (by omega)).trans
        (if_neg hinside).symm
  refine ⟨(program ⟨mem, spans, rest⟩).2.spans, ?_⟩
  rw [← htarget]
  refine Prod.ext hvalue.symm ?_
  calc
    (program ⟨mem, spans, rest⟩).2
        = ⟨(program ⟨mem, spans, rest⟩).2.mem,
            (program ⟨mem, spans, rest⟩).2.spans,
            (program ⟨mem, spans, rest⟩).2.rest⟩ := rfl
    _ = ⟨(program ⟨mem, spans, rest⟩).2.mem,
          (program ⟨mem, spans, rest⟩).2.spans, rest⟩ := by rw [← hkept]

end Yields

end

end Access
