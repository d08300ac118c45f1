import Mathlib.Tactic

/-!
# Bracket words

A word of opening and closing brackets of several kinds runs on a stack of open brackets. Neutral
symbols leave the stack alone, and nothing gets past a bad one.
-/

namespace Brackets

variable {κ : Type}

inductive Sym (κ : Type) where
  | opening (k : κ)
  | closing (k : κ)
  | neutral
  | bad
  deriving DecidableEq, Repr

def step [DecidableEq κ] : Sym κ → List κ → Option (List κ)
  | .opening k, st => some (k :: st)
  | .closing k, k' :: st => if k = k' then some st else none
  | .closing _, [] => none
  | .neutral, st => some st
  | .bad, _ => none

def run [DecidableEq κ] : List (Sym κ) → List κ → Option (List κ)
  | [], st => some st
  | x :: w, st => (step x st).bind (run w)

/-- Well nested: every bracket is closed by its own kind, and nothing else is. -/
def Balanced [DecidableEq κ] (w : List (Sym κ)) : Prop := run w [] = some []

/-- Brackets of the other kinds count as neutral. -/
def Sym.keep (p : κ → Bool) : Sym κ → Sym κ
  | .opening k => if p k then .opening k else .neutral
  | .closing k => if p k then .closing k else .neutral
  | _ => .neutral

section
variable [DecidableEq κ]

@[simp] theorem run_nil (st : List κ) : run [] st = some st := rfl

@[simp] theorem run_cons (x : Sym κ) (w : List (Sym κ)) (st : List κ) :
    run (x :: w) st = (step x st).bind (run w) := rfl

theorem run_append (u v : List (Sym κ)) (st : List κ) :
    run (u ++ v) st = (run u st).bind (run v) := by
  induction u generalizing st with
  | nil => rfl
  | cons x u ih =>
    simp only [List.cons_append, run_cons]
    cases step x st with
    | none => rfl
    | some st' => exact ih st'

/-- A run goes on over one more symbol. -/
theorem run_concat {w : List (Sym κ)} {x : Sym κ} {st₀ st st' : List κ} (h : run w st₀ = some st)
    (hx : step x st = some st') : run (w ++ [x]) st₀ = some st' := by
  rw [run_append, h]
  simp [hx]

theorem not_bad_of_run {w : List (Sym κ)} {st st' : List κ} (h : run w st = some st') :
    Sym.bad ∉ w := by
  induction w generalizing st with
  | nil => simp
  | cons x w ih =>
    rw [run_cons] at h
    obtain ⟨st₁, hx, hw⟩ := Option.bind_eq_some_iff.mp h
    rintro (_ | ⟨_, hmem⟩)
    · simp [step] at hx
    · exact ih hw hmem

/-- A step that is possible stays possible when some kinds of brackets are left out. -/
theorem step_keep (p : κ → Bool) {x : Sym κ} {st st' : List κ} (h : step x st = some st') :
    step (x.keep p) (st.filter p) = some (st'.filter p) := by
  cases x with
  | opening k =>
    obtain rfl : k :: st = st' := by simpa [step] using h
    by_cases hk : p k = true <;> simp [Sym.keep, step, hk]
  | closing k =>
    cases st with
    | nil => simp [step] at h
    | cons k' st =>
      have hh : k = k' ∧ st = st' := by simpa [step] using h
      obtain ⟨rfl, rfl⟩ := hh
      by_cases hk : p k = true <;> simp [Sym.keep, step, hk]
  | neutral =>
    obtain rfl : st = st' := by simpa [step] using h
    rfl
  | bad => simp [step] at h

end

end Brackets
