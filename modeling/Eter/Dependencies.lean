import Mathlib.Data.List.Basic
import Mathlib.Logic.Relation
import Mathlib.Tactic

/-!
# Dependency graphs

What an object depends on is known only if the object is there, and a dependency may name nothing.
An object is sound if everything that it reaches is there, names only what is there, and lies on no
cycle.
-/

namespace Dependencies

variable {α : Type*} (deps : α → Option (List (Option α)))

/-- `q` is what a dependency of `p` names. -/
def DependsOn (p q : α) : Prop := ∃ ds, deps p = some ds ∧ some q ∈ ds

def Reaches : α → α → Prop := Relation.ReflTransGen (DependsOn deps)

structure Sound (p : α) : Prop where
  resolved : ∀ q, Reaches deps p q → ∃ ds, deps q = some ds ∧ none ∉ ds
  acyclic : ∀ q, Reaches deps p q → ¬ Relation.TransGen (DependsOn deps) q q

/-- With an object goes all that it depends on. -/
def Closed (xs : List α) : Prop := ∀ p ∈ xs, ∀ q, DependsOn deps p q → q ∈ xs

/-- All objects are there, and all their dependencies. -/
def Complete (xs : List α) : Prop :=
  ∀ p ∈ xs, ∃ ds, deps p = some ds ∧ ∀ d ∈ ds, ∃ q ∈ xs, d = some q

variable {deps} {p q : α} {xs : List α} {ds : List (Option α)}

theorem Sound.of_reaches (h : Sound deps p) (hpq : Reaches deps p q) : Sound deps q :=
  ⟨fun r hr => h.resolved r (hpq.trans hr), fun r hr => h.acyclic r (hpq.trans hr)⟩

theorem Sound.of_dependsOn (h : Sound deps p) (hpq : DependsOn deps p q) : Sound deps q :=
  h.of_reaches (.single hpq)

theorem Sound.not_on_cycle (h : Sound deps p) : ¬ Relation.TransGen (DependsOn deps) p p :=
  h.acyclic p .refl

/-- What depends on sound objects alone is sound, unless it lies on a cycle itself. -/
theorem sound_of_dependencies (hds : deps p = some ds) (hnone : none ∉ ds)
    (hsound : ∀ q, some q ∈ ds → Sound deps q)
    (hcycle : ¬ Relation.TransGen (DependsOn deps) p p) : Sound deps p := by
  have hmem : ∀ q, DependsOn deps p q → some q ∈ ds := by
    rintro q ⟨ds', hds', hq⟩
    rw [hds] at hds'
    cases hds'
    exact hq
  constructor
  · intro q hq
    rcases Relation.ReflTransGen.cases_head hq with rfl | ⟨r, hr, hrq⟩
    · exact ⟨ds, hds, hnone⟩
    · exact (hsound r (hmem r hr)).resolved q hrq
  · intro q hq
    rcases Relation.ReflTransGen.cases_head hq with rfl | ⟨r, hr, hrq⟩
    · exact hcycle
    · exact (hsound r (hmem r hr)).acyclic q hrq

theorem Closed.reaches (h : Closed deps xs) (hp : p ∈ xs) (hpq : Reaches deps p q) : q ∈ xs := by
  induction hpq with
  | refl => exact hp
  | tail _ hstep ih => exact h _ ih _ hstep

/-- What is not in a closed list is on no cycle if all that it depends on is in the list. -/
theorem Closed.not_on_cycle (h : Closed deps xs) (hp : p ∉ xs)
    (hall : ∀ q, DependsOn deps p q → q ∈ xs) : ¬ Relation.TransGen (DependsOn deps) p p := by
  intro hcycle
  obtain ⟨q, hq, hqp⟩ := Relation.TransGen.head'_iff.mp hcycle
  exact hp (h.reaches (hall q hq) hqp)

theorem Closed.concat (h : Closed deps xs) (hall : ∀ q, DependsOn deps p q → q ∈ xs) :
    Closed deps (xs ++ [p]) := by
  intro q hq r hr
  rcases List.mem_append.mp hq with hq | hq
  · exact List.mem_append_left _ (h q hq r hr)
  · cases List.mem_singleton.mp hq
    exact List.mem_append_left _ (hall r hr)

theorem Closed.complete (h : Closed deps xs) (hsound : ∀ p ∈ xs, Sound deps p) :
    Complete deps xs := by
  intro p hp
  obtain ⟨ds, hds, hnone⟩ := (hsound p hp).resolved p .refl
  refine ⟨ds, hds, fun d hd => ?_⟩
  cases d with
  | none => exact absurd hd hnone
  | some q => exact ⟨q, h p hp q ⟨ds, hds, hd⟩, rfl⟩

end Dependencies
