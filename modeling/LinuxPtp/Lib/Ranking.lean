import Mathlib

/-!
# Rankings and elections

A comparison yields a number that is positive where its first argument is
preferred.  Where it ranks the candidates, a scan that keeps the candidate
preferred so far elects one that no other beats, and the order of the scan
decides only among candidates that rank alike.
-/

namespace Ranking

variable {α : Type*}

/-! ## The first difference of two words -/

section FirstDifference

variable [LinearOrder α]

/-- Sign of the first difference of two words: negative where the first word
has the smaller letter. -/
def firstDifference : List α → List α → ℤ
  | left :: lefts, right :: rights =>
      if left < right then -1
      else if right < left then 1
      else firstDifference lefts rights
  | _, _ => 0

@[simp]
theorem firstDifference_nil_left (right : List α) :
    firstDifference [] right = 0 := by
  cases right <;> rfl

@[simp]
theorem firstDifference_nil_right (left : List α) :
    firstDifference left [] = 0 := by
  cases left <;> rfl

theorem firstDifference_cons (left right : α) (lefts rights : List α) :
    firstDifference (left :: lefts) (right :: rights) =
      if left < right then -1
      else if right < left then 1
      else firstDifference lefts rights := rfl

@[simp]
theorem firstDifference_cons_self (letter : α) (lefts rights : List α) :
    firstDifference (letter :: lefts) (letter :: rights) =
      firstDifference lefts rights := by
  simp [firstDifference_cons]

@[simp]
theorem firstDifference_self (word : List α) : firstDifference word word = 0 := by
  induction word with
  | nil => rfl
  | cons letter word ih => simpa using ih

theorem firstDifference_swap (left right : List α) :
    firstDifference right left = -firstDifference left right := by
  induction left generalizing right with
  | nil => simp
  | cons first left ih =>
    cases right with
    | nil => simp
    | cons second right =>
      rcases lt_trichotomy first second with hlt | rfl | hgt
      · simp [firstDifference_cons, hlt, hlt.asymm]
      · simpa using ih right
      · simp [firstDifference_cons, hgt, hgt.asymm]

/-- Words of one length without a difference are equal. -/
theorem firstDifference_eq_zero {left right : List α}
    (hlength : left.length = right.length)
    (hzero : firstDifference left right = 0) : left = right := by
  induction left generalizing right with
  | nil => exact (List.length_eq_zero_iff.mp hlength.symm).symm
  | cons first left ih =>
    cases right with
    | nil => simp at hlength
    | cons second right =>
      rcases lt_trichotomy first second with hlt | rfl | hgt
      · simp [firstDifference_cons, hlt] at hzero
      · rw [firstDifference_cons_self] at hzero
        rw [ih (by simpa using hlength) hzero]
      · simp [firstDifference_cons, hgt, hgt.asymm] at hzero

/-- The first difference is a sign. -/
@[simp]
theorem sign_firstDifference (left right : List α) :
    (firstDifference left right).sign = firstDifference left right := by
  induction left generalizing right with
  | nil => simp
  | cons first left ih =>
    cases right with
    | nil => simp
    | cons second right =>
      rw [firstDifference_cons]
      split_ifs
      exacts [rfl, rfl, ih right]

/-- Of two words in two parts, the second part decides where the first parts
are the same. -/
theorem firstDifference_append {left right : List α}
    (hlength : left.length = right.length) (lefts rights : List α) :
    firstDifference (left ++ lefts) (right ++ rights) =
      if firstDifference left right = 0 then firstDifference lefts rights
      else firstDifference left right := by
  induction left generalizing right with
  | nil => simp [List.length_eq_zero_iff.mp hlength.symm]
  | cons first left ih =>
    cases right with
    | nil => simp at hlength
    | cons second right =>
      rcases lt_trichotomy first second with hlt | rfl | hgt
      · simp [firstDifference_cons, hlt]
      · simpa using ih (by simpa using hlength)
      · simp [firstDifference_cons, hgt, hgt.asymm]

/-- Words of one length are ranked by their first difference. -/
theorem firstDifference_trans {left middle right : List α}
    (hleft : left.length = middle.length) (hright : middle.length = right.length)
    (hfirst : firstDifference left middle ≤ 0)
    (hsecond : firstDifference middle right ≤ 0) :
    firstDifference left right ≤ 0 := by
  induction left generalizing middle right with
  | nil => simp
  | cons first left ih =>
    cases middle with
    | nil => simp at hleft
    | cons second middle =>
      cases right with
      | nil => simp at hright
      | cons third right =>
        rcases lt_trichotomy first second with hlt | rfl | hgt
        · rcases lt_trichotomy second third with hlt' | rfl | hgt'
          · simp [firstDifference_cons, hlt.trans hlt']
          · simp [firstDifference_cons, hlt]
          · simp [firstDifference_cons, hgt', hgt'.asymm] at hsecond
        · rcases lt_trichotomy first third with hlt' | rfl | hgt'
          · simp [firstDifference_cons, hlt']
          · rw [firstDifference_cons_self] at hfirst hsecond ⊢
            exact ih (by simpa using hleft) (by simpa using hright) hfirst
              hsecond
          · simp [firstDifference_cons, hgt', hgt'.asymm] at hsecond
        · simp [firstDifference_cons, hgt, hgt.asymm] at hfirst

end FirstDifference

/-! ## Rankings -/

/-- The comparison ranks the candidates: turning the arguments round turns the
sign round, and preference is transitive. -/
structure Ranks (compare : α → α → ℤ) (candidates : Set α) : Prop where
  swap : ∀ a ∈ candidates, ∀ b ∈ candidates, compare b a = -compare a b
  trans : ∀ a ∈ candidates, ∀ b ∈ candidates, ∀ c ∈ candidates,
    0 ≤ compare a b → 0 ≤ compare b c → 0 ≤ compare a c

namespace Ranks

variable {compare : α → α → ℤ} {candidates : Set α}

/-- Strict preference is transitive too. -/
theorem trans_strict (hranks : Ranks compare candidates) {a b c : α}
    (ha : a ∈ candidates) (hb : b ∈ candidates) (hc : c ∈ candidates)
    (hab : 0 < compare a b) (hbc : 0 < compare b c) : 0 < compare a c := by
  have hac := hranks.trans a ha b hb c hc hab.le hbc.le
  refine lt_of_le_of_ne hac fun hzero => ?_
  have hca : 0 ≤ compare c a := by
    rw [hranks.swap a ha c hc, ← hzero, neg_zero]
  have hba := hranks.trans b hb c hc a ha hbc.le hca
  rw [hranks.swap a ha b hb] at hba
  linarith

/-- A missing candidate ranks below every other. -/
theorem option {compare : Option α → Option α → ℤ}
    (hsome : Ranks (fun a b => compare (some a) (some b)) candidates)
    (hleft : ∀ a, 0 < compare (some a) none)
    (hright : ∀ a, compare none (some a) = -compare (some a) none)
    (hnone : compare none none = 0) :
    Ranks compare {a | ∀ b ∈ a, b ∈ candidates} where
  swap := by
    rintro (_ | a) ha (_ | b) hb
    · simp [hnone]
    · simp [hright]
    · exact hright a
    · exact hsome.swap a (ha a rfl) b (hb b rfl)
  trans := by
    rintro (_ | a) ha (_ | b) hb (_ | c) hc hab hbc
    · exact hab
    · exact hbc
    · exact hnone.ge
    · rw [hright] at hab
      linarith [hleft b]
    · exact (hleft a).le
    · rw [hright] at hbc
      linarith [hleft c]
    · exact (hleft a).le
    · exact hsome.trans a (ha a rfl) b (hb b rfl) c (hc c rfl) hab hbc

/-- What ranks candidates ranks fewer of them. -/
theorem mono (hranks : Ranks compare candidates) {fewer : Set α}
    (hfewer : fewer ⊆ candidates) : Ranks compare fewer where
  swap a ha b hb := hranks.swap a (hfewer ha) b (hfewer hb)
  trans a ha b hb c hc :=
    hranks.trans a (hfewer ha) b (hfewer hb) c (hfewer hc)

end Ranks

/-! ## Elections -/

/-- No candidate of the list is preferred to the chosen one. -/
def Unbeaten (compare : α → α → ℤ) (candidates : List α) (chosen : α) : Prop :=
  chosen ∈ candidates ∧ ∀ other ∈ candidates, compare other chosen ≤ 0

/-- The outcome of an election: nobody where there is no candidate, and else
one that no other beats. -/
structure Elects (compare : α → α → ℤ) (candidates : List α)
    (best : Option α) : Prop where
  nobody : best = none ↔ candidates = []
  unbeaten : ∀ chosen ∈ best, Unbeaten compare candidates chosen

/-- The newcomer replaces the candidate held so far where it beats it. -/
def duel (compare : α → α → ℤ) (held newcomer : Option α) : Option α :=
  match newcomer with
  | none => held
  | some next => if ∀ best ∈ held, 0 < compare next best then some next else held

namespace Elects

variable {compare : α → α → ℤ} {members : Set α}

theorem nil : Elects compare [] none := ⟨by simp, by simp⟩

theorem self_eq_zero (hranks : Ranks compare members) {a : α} (ha : a ∈ members) :
    compare a a = 0 := by
  linarith [hranks.swap a ha a ha]

/-- An unbeaten candidate is elected. -/
theorem ofUnbeaten {candidates : List α} {chosen : α}
    (hchosen : Unbeaten compare candidates chosen) :
    Elects compare candidates (some chosen) where
  nobody := by simp [List.ne_nil_of_mem hchosen.1]
  unbeaten other hother := Option.some.inj hother ▸ hchosen

theorem single (hranks : Ranks compare members) {a : α} (ha : a ∈ members) :
    Elects compare [a] (some a) :=
  ofUnbeaten ⟨by simp, fun other hother => by
    rw [List.mem_singleton.mp hother, self_eq_zero hranks ha]⟩

/-- Who does not lose to the best of a list loses to none of it. -/
theorem beats_all (hranks : Ranks compare members) {candidates : List α}
    (hmembers : ∀ a ∈ candidates, a ∈ members) {winner champion : α}
    (hchampion : champion ∈ members)
    (hwinner : Unbeaten compare candidates winner)
    (hbeats : 0 ≤ compare champion winner) :
    ∀ other ∈ candidates, compare other champion ≤ 0 := by
  intro other hother
  have hwinnerMem := hmembers winner hwinner.1
  have hotherMem := hmembers other hother
  have hnext : 0 ≤ compare winner other := by
    rw [hranks.swap other hotherMem winner hwinnerMem]
    linarith [hwinner.2 other hother]
  have hback := hranks.trans champion hchampion winner hwinnerMem other hotherMem
    hbeats hnext
  rw [hranks.swap champion hchampion other hotherMem]
  linarith

/-- The winners of two heats meet in a duel. -/
theorem duel (hranks : Ranks compare members) {first second : List α}
    (hfirst : ∀ a ∈ first, a ∈ members) (hsecond : ∀ a ∈ second, a ∈ members)
    {held newcomer : Option α} (hheld : Elects compare first held)
    (hnewcomer : Elects compare second newcomer) :
    Elects compare (first ++ second) (Ranking.duel compare held newcomer) := by
  cases newcomer with
  | none =>
    rw [hnewcomer.nobody.mp rfl, List.append_nil]
    exact hheld
  | some next =>
    have hnext := hnewcomer.unbeaten next rfl
    have hnextMem := hsecond next hnext.1
    cases held with
    | none =>
      rw [hheld.nobody.mp rfl, List.nil_append]
      simpa [Ranking.duel] using hnewcomer
    | some best =>
      have hbest := hheld.unbeaten best rfl
      have hbestMem := hfirst best hbest.1
      by_cases hbeats : 0 < compare next best
      · have houtcome :
            Ranking.duel compare (some best) (some next) = some next := by
          simp [Ranking.duel, hbeats]
        rw [houtcome]
        refine ofUnbeaten ⟨List.mem_append_right _ hnext.1, fun other hother => ?_⟩
        rcases List.mem_append.mp hother with hin | hin
        · exact beats_all hranks hfirst hnextMem hbest hbeats.le other hin
        · exact hnext.2 other hin
      · have houtcome :
            Ranking.duel compare (some best) (some next) = some best := by
          simp [Ranking.duel, hbeats]
        rw [houtcome]
        refine ofUnbeaten ⟨List.mem_append_left _ hbest.1, fun other hother => ?_⟩
        rcases List.mem_append.mp hother with hin | hin
        · exact hbest.2 other hin
        · refine beats_all hranks hsecond hbestMem hnext ?_ other hin
          rw [hranks.swap next hnextMem best hbestMem]
          linarith

/-- The outcomes of two elections among the same candidates rank alike. -/
theorem alike (hranks : Ranks compare members) {candidates others : List α}
    (hmembers : ∀ a ∈ candidates, a ∈ members)
    (hsame : ∀ a, a ∈ candidates ↔ a ∈ others) {best elected : Option α}
    (hbest : Elects compare candidates best)
    (helected : Elects compare others elected) :
    (best = none ↔ elected = none) ∧
      ∀ chosen ∈ best, ∀ other ∈ elected, compare chosen other = 0 := by
  constructor
  · rw [hbest.nobody, helected.nobody, List.eq_nil_iff_forall_not_mem,
      List.eq_nil_iff_forall_not_mem]
    exact forall_congr' fun a => not_congr (hsame a)
  · intro chosen hchosen other hother
    have hleft := hbest.unbeaten chosen hchosen
    have hright := helected.unbeaten other hother
    have hotherIn := (hsame other).mpr hright.1
    have hle := hright.2 chosen ((hsame chosen).mp hleft.1)
    have hge := hleft.2 other hotherIn
    rw [hranks.swap chosen (hmembers chosen hleft.1) other
      (hmembers other hotherIn)] at hge
    linarith

end Elects

end Ranking
