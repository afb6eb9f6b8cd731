import LinuxPtp.Lib.Stepping

/-!
# Machines that are told the outcomes of choices

An abstract machine cannot know everything that decides what a concrete one
does.  It is told the outcomes it needs, as a list that it draws from.  It
refines to the concrete machine when some list makes it do the same.
-/

namespace Oracle

variable {σ τ α β : Type} {view : σ → List β → τ} {s s' s'' : σ}

/-- With the right outcomes, the abstract function leads from what is seen of
one state to what is seen of the other. -/
def Refines (view : σ → List β → τ) (f : τ → τ) (s s' : σ) : Prop :=
  ∃ drawn, ∀ rest, f (view s (drawn ++ rest)) = view s' rest

theorem Refines.of_eq {f : τ → τ} (hsame : ∀ rest, f (view s rest) = view s' rest) :
    Refines view f s s' :=
  ⟨[], hsame⟩

theorem Refines.refl (s : σ) : Refines view id s s := .of_eq fun _ => rfl

/-- One function after the other. -/
theorem Refines.comp {f g : τ → τ} (hfirst : Refines view f s s')
    (hsecond : Refines view g s' s'') : Refines view (fun t => g (f t)) s s'' := by
  obtain ⟨first, hfirst⟩ := hfirst
  obtain ⟨second, hsecond⟩ := hsecond
  refine ⟨first ++ second, fun rest => ?_⟩
  dsimp only
  rw [List.append_assoc, hfirst, hsecond]

theorem Refines.ifPos {f g : τ → τ} {c : τ → Prop} [DecidablePred c]
    (hc : ∀ rest, c (view s rest)) (hrefines : Refines view f s s') :
    Refines view (fun t => if c t then f t else g t) s s' := by
  obtain ⟨drawn, hrefines⟩ := hrefines
  refine ⟨drawn, fun rest => ?_⟩
  dsimp only
  rw [if_pos (hc _), hrefines]

theorem Refines.ifNeg {f g : τ → τ} {c : τ → Prop} [DecidablePred c]
    (hc : ∀ rest, ¬c (view s rest)) (hrefines : Refines view g s s') :
    Refines view (fun t => if c t then f t else g t) s s' := by
  obtain ⟨drawn, hrefines⟩ := hrefines
  refine ⟨drawn, fun rest => ?_⟩
  dsimp only
  rw [if_neg (hc _), hrefines]

/-- What every step does where the invariant and the condition hold, the run does. -/
theorem Refines.run {inv : σ → Prop} {condition : σ → α → Prop}
    {step : σ → α → σ} {spec : τ → α → τ}
    (hstep : ∀ state action, inv state → condition state action →
      inv (step state action) ∧
        Refines view (fun t => spec t action) state (step state action))
    {actions : List α} {start : σ}
    (hmeets : Stepping.Meets step condition actions start) (hstart : inv start) :
    inv (Stepping.run step actions start) ∧
      Refines view (Stepping.run spec actions) start
        (Stepping.run step actions start) := by
  induction actions generalizing start with
  | nil => exact ⟨hstart, .refl start⟩
  | cons action rest ih =>
    obtain ⟨haction, hrest⟩ := hmeets
    obtain ⟨hkept, hrefines⟩ := hstep start action hstart haction
    obtain ⟨hinv, hrun⟩ := ih hrest hkept
    exact ⟨hinv, hrefines.comp hrun⟩

end Oracle
