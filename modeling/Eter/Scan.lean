import Mathlib.Data.List.Basic
import Mathlib.Tactic

/-!
# Cursors over a bounded range and end-local scanners

A cursor is an offset together with the symbols between it and a fixed end. A scanner moves the
cursor forward. It is end-local when a result that leaves the last `w` symbols unread does not
change if the range ends before `w`: nothing it accepted or rejected depended on them.
-/

namespace Scan

variable {α β γ : Type*}

structure Cursor (α : Type*) where
  pos : ℕ
  rest : List α

namespace Cursor

/-- `c'` is reached from `c` by reading the word `u`. -/
structure Reads (c : Cursor α) (u : List α) (c' : Cursor α) : Prop where
  rest_eq : c.rest = u ++ c'.rest
  pos_eq : c'.pos = c.pos + u.length

theorem Reads.refl (c : Cursor α) : c.Reads [] c := ⟨rfl, rfl⟩

theorem Reads.trans {c₁ c₂ c₃ : Cursor α} {u v : List α} (h₁ : c₁.Reads u c₂)
    (h₂ : c₂.Reads v c₃) : c₁.Reads (u ++ v) c₃ := by
  refine ⟨?_, ?_⟩
  · rw [h₁.rest_eq, h₂.rest_eq, List.append_assoc]
  · rw [h₂.pos_eq, h₁.pos_eq, List.length_append, Nat.add_assoc]

theorem Reads.cons (p : ℕ) (a : α) (as : List α) : Reads ⟨p, a :: as⟩ [a] ⟨p + 1, as⟩ := ⟨rfl, rfl⟩

theorem Reads.length_eq {c c' : Cursor α} {u : List α} (h : c.Reads u c') :
    c.rest.length = u.length + c'.rest.length := by
  rw [h.rest_eq, List.length_append]

theorem Reads.pos_le {c c' : Cursor α} {u : List α} (h : c.Reads u c') : c.pos ≤ c'.pos := by
  have := h.pos_eq
  omega

/-- The same cursor in a range whose end lies `w` further. -/
def extend (c : Cursor α) (w : List α) : Cursor α := ⟨c.pos, c.rest ++ w⟩

@[simp] theorem extend_pos (c : Cursor α) (w : List α) : (c.extend w).pos = c.pos := rfl

@[simp] theorem extend_rest (c : Cursor α) (w : List α) : (c.extend w).rest = c.rest ++ w := rfl

theorem extend_nil (c : Cursor α) : c.extend [] = c := by simp [extend]

theorem extend_injective {c c' : Cursor α} {w : List α} (h : c.extend w = c'.extend w) : c = c' := by
  cases c
  cases c'
  simpa [extend] using h

/-- The same cursor `k` symbols further in, in a range whose end lies `w` further. -/
def relocate (c : Cursor α) (k : ℕ) (w : List α) : Cursor α := ⟨c.pos + k, c.rest ++ w⟩

@[simp] theorem relocate_pos (c : Cursor α) (k : ℕ) (w : List α) :
    (c.relocate k w).pos = c.pos + k := rfl

@[simp] theorem relocate_rest (c : Cursor α) (k : ℕ) (w : List α) :
    (c.relocate k w).rest = c.rest ++ w := rfl

/-- What is read before a cursor of the shorter range stays in the shorter range. -/
theorem Reads.factor {c d : Cursor α} {w v : List α} (h : d.Reads v (c.extend w)) :
    d = (Cursor.mk d.pos (v ++ c.rest)).extend w := by
  cases d
  have := h.rest_eq
  simp only [extend_rest] at this
  simp [extend, this]

/-- A cursor that has not passed the end of `xs` leaves `w` unread. -/
theorem Reads.not_past {p pos : ℕ} {xs w u rest : List α} (h : Reads ⟨p, xs ++ w⟩ u ⟨pos, rest⟩)
    (hle : pos ≤ p + xs.length) : ∃ xs', rest = xs' ++ w ∧ xs = u ++ xs' := by
  have hu : u.length ≤ xs.length := by
    have := h.pos_eq
    dsimp only at this
    omega
  have hr : xs ++ w = u ++ rest := h.rest_eq
  obtain ⟨as, hxs, hrest⟩ | ⟨as, hux, hw⟩ := List.append_eq_append_iff.mp hr
  · obtain rfl : as = [] := by
      rw [hxs, List.length_append] at hu
      exact List.length_eq_zero_iff.mp (by omega)
    exact ⟨[], by simpa using hrest.symm, by simpa using hxs.symm⟩
  · exact ⟨as, hw, hux⟩

theorem Reads.of_extend_nil {p : ℕ} {c : Cursor α} {w u : List α}
    (h : Reads ⟨p, w⟩ u (c.extend w)) : u = [] ∧ c = ⟨p, []⟩ := by
  have hl := h.length_eq
  have hp := h.pos_eq
  simp only [extend_rest, List.length_append, extend_pos] at hl hp
  have hu : u = [] := List.length_eq_zero_iff.mp (by omega)
  have hr : c.rest = [] := List.length_eq_zero_iff.mp (by omega)
  subst hu
  cases c
  simp_all

end Cursor

open Cursor

/-- `while (cursor < end && p(*cursor)) ++cursor`. -/
def skipWhile (p : α → Bool) : ℕ → List α → Cursor α
  | pos, [] => ⟨pos, []⟩
  | pos, a :: as => if p a then skipWhile p (pos + 1) as else ⟨pos, a :: as⟩

theorem skipWhile_reads (p : α → Bool) (pos : ℕ) (as : List α) :
    Reads ⟨pos, as⟩ (as.takeWhile p) (skipWhile p pos as) := by
  induction as generalizing pos with
  | nil => exact Reads.refl _
  | cons a as ih =>
      by_cases h : p a
      · simpa [skipWhile, h] using (Reads.cons pos a as).trans (ih (pos + 1))
      · simpa [skipWhile, h] using Reads.refl _

theorem skipWhile_rest (p : α → Bool) (pos : ℕ) (as : List α) :
    (skipWhile p pos as).rest = as.dropWhile p := by
  induction as generalizing pos with
  | nil => rfl
  | cons a as ih => by_cases h : p a <;> simp [skipWhile, h, ih]

theorem skipWhile_extend (p : α → Bool) (pos : ℕ) (as w : List α) (c : Cursor α)
    (h : skipWhile p pos (as ++ w) = c.extend w) :
    skipWhile p pos as = c ∧ (as ++ w).takeWhile p = as.takeWhile p := by
  induction as generalizing pos with
  | nil =>
      have hr := skipWhile_reads p pos w
      rw [List.nil_append] at h
      rw [h] at hr
      obtain ⟨hu, hc⟩ := hr.of_extend_nil
      exact ⟨hc.symm, by simpa using hu⟩
  | cons a as ih =>
      rw [List.cons_append, skipWhile] at h
      by_cases hp : p a
      · rw [if_pos hp] at h
        obtain ⟨hc, ht⟩ := ih _ h
        exact ⟨by rw [skipWhile, if_pos hp, hc], by simp [hp, ht]⟩
      · rw [if_neg hp] at h
        refine ⟨?_, by simp [hp]⟩
        rw [skipWhile, if_neg hp]
        exact extend_injective h

theorem skipWhile_append_of_all {p : α → Bool} (pos : ℕ) {xs : List α} (w : List α)
    (h : ∀ a ∈ xs, p a = true) : skipWhile p pos (xs ++ w) = skipWhile p (pos + xs.length) w := by
  induction xs generalizing pos with
  | nil => rfl
  | cons a as ih =>
      rw [List.cons_append, skipWhile, if_pos (h a (by simp)), ih _ fun b hb => h b (by simp [hb]),
        List.length_cons, Nat.add_right_comm, Nat.add_assoc]

def Advancing (f : Cursor α → β × Cursor α) : Prop := ∀ c : Cursor α, ∃ u, c.Reads u (f c).2

def EndLocal (f : Cursor α → β × Cursor α) : Prop :=
  ∀ c w b c', f (c.extend w) = (b, c'.extend w) → f c = (b, c')

theorem EndLocal.pure (b : β) : EndLocal (fun c : Cursor α => (b, c)) := by
  intro c w b' c' h
  simp only [Prod.mk.injEq] at h ⊢
  exact ⟨h.1, extend_injective h.2⟩

theorem skipWhile_endLocal (p : α → Bool) :
    EndLocal fun c : Cursor α => (c.rest.takeWhile p, skipWhile p c.pos c.rest) := by
  intro c w b c' h
  simp only [Prod.mk.injEq, extend_pos, extend_rest] at h ⊢
  obtain ⟨hc, ht⟩ := skipWhile_extend p c.pos c.rest w c' h.2
  exact ⟨ht ▸ h.1, hc⟩

/-- The value may also depend on the two offsets. -/
theorem EndLocal.map {f : Cursor α → β × Cursor α} (hf : EndLocal f) (g : ℕ → β → ℕ → γ) :
    EndLocal fun c => (g c.pos (f c).1 (f c).2.pos, (f c).2) := by
  intro c w b c' h
  simp only [Prod.mk.injEq, extend_pos] at h
  have h₁ : f (c.extend w) = ((f (c.extend w)).1, c'.extend w) := by rw [← h.2]
  have h₂ := hf _ _ _ _ h₁
  simp only [h₂, ← h.1, h.2, extend_pos]

/-- Running a second end-local scanner after the first. -/
theorem EndLocal.bind {f : Cursor α → β × Cursor α} {g : β → Cursor α → γ × Cursor α}
    (hf : EndLocal f) (hg : ∀ b, EndLocal (g b)) (ha : ∀ b, Advancing (g b)) :
    EndLocal (fun c => g (f c).1 (f c).2) := by
  intro c w b c' h
  rcases hfc : f (c.extend w) with ⟨b₁, d⟩
  obtain ⟨u, hu⟩ := ha b₁ d
  simp only [hfc] at h
  rw [h] at hu
  have hd := hu.factor
  rw [hd] at hfc h
  have h₁ := hf _ _ _ _ hfc
  simp only [h₁]
  exact hg b₁ _ _ _ _ h

theorem Advancing.bind {f : Cursor α → β × Cursor α} {g : β → Cursor α → γ × Cursor α}
    (hf : Advancing f) (hg : ∀ b, Advancing (g b)) :
    Advancing (fun c => g (f c).1 (f c).2) := by
  intro c
  obtain ⟨u, hu⟩ := hf c
  obtain ⟨v, hv⟩ := hg (f c).1 (f c).2
  exact ⟨u ++ v, hu.trans hv⟩

/-- Take the next symbol if `g` gives it a value; otherwise stay, with the default. -/
def takeIf (g : α → Option β) (default : β) (c : Cursor α) : β × Cursor α :=
  match c.rest with
  | a :: as =>
    match g a with
    | some b => (b, ⟨c.pos + 1, as⟩)
    | none => (default, c)
  | [] => (default, c)

theorem takeIf_advancing (g : α → Option β) (default : β) : Advancing (takeIf g default) := by
  rintro ⟨pos, rest⟩
  cases rest with
  | nil => exact ⟨[], Reads.refl _⟩
  | cons a as =>
      cases hg : g a with
      | some b => exact ⟨[a], by simpa [takeIf, hg] using Reads.cons pos a as⟩
      | none => exact ⟨[], by simpa [takeIf, hg] using Reads.refl _⟩

theorem takeIf_endLocal (g : α → Option β) (default : β) : EndLocal (takeIf g default) := by
  intro c w b c' h
  obtain ⟨u, hu⟩ := takeIf_advancing g default (c.extend w)
  rw [h] at hu
  obtain ⟨pos, rest⟩ := c
  cases rest with
  | cons a as =>
      cases hg : g a with
      | some d =>
          simp only [takeIf, extend, List.cons_append, hg, Prod.mk.injEq] at h ⊢
          exact ⟨h.1, extend_injective h.2⟩
      | none =>
          simp only [takeIf, extend, List.cons_append, hg, Prod.mk.injEq] at h ⊢
          exact ⟨h.1, extend_injective h.2⟩
  | nil =>
      -- a symbol taken from `w` would move the cursor
      obtain ⟨-, rfl⟩ := Reads.of_extend_nil hu
      cases w with
      | nil => exact h
      | cons a as =>
          cases hg : g a with
          | some d => simp [takeIf, extend, hg] at h
          | none => simpa [takeIf, extend, hg] using h

/-! ### Scanners that a delimiter stops -/

theorem skipWhile_relocate {p : α → Bool} {d : α} (hd : p d = false) (k pos : ℕ)
    (as ds : List α) :
    skipWhile p (pos + k) (as ++ d :: ds) = (skipWhile p pos as).relocate k (d :: ds) := by
  induction as generalizing pos with
  | nil => simp [skipWhile, hd, relocate]
  | cons a as ih =>
      by_cases h : p a
      · have hnext := ih (pos + 1)
        rw [Nat.add_right_comm] at hnext
        simp [skipWhile, h, hnext]
      · simp [skipWhile, h, relocate]

/-- When the loop stops before the end, anything may follow. -/
theorem skipWhile_relocate_of_rest {p : α → Bool} {k pos q : ℕ} {as bs w : List α} {b : α}
    (h : skipWhile p pos as = ⟨q, b :: bs⟩) :
    skipWhile p (pos + k) (as ++ w) = ⟨q + k, b :: bs ++ w⟩ := by
  induction as generalizing pos with
  | nil => cases h
  | cons a as ih =>
      rw [List.cons_append]
      unfold skipWhile at h ⊢
      by_cases hp : p a
      · rw [if_pos hp] at h ⊢
        rw [Nat.add_right_comm]
        exact ih h
      · rw [if_neg hp] at h ⊢
        cases h
        rfl

/-- Behind a symbol in `stop` there is nothing the scanner would take, wherever it starts. -/
def Delimited (stop : α → Bool) (f : Cursor α → β × Cursor α) : Prop :=
  ∀ c k d ds, stop d = true →
    f (c.relocate k (d :: ds)) = ((f c).1, (f c).2.relocate k (d :: ds))

theorem Delimited.pure (stop : α → Bool) (b : β) : Delimited stop fun c : Cursor α => (b, c) :=
  fun _ _ _ _ _ => rfl

theorem takeWhile_append_stop {p : α → Bool} {d : α} (hd : p d = false) (as ds : List α) :
    (as ++ d :: ds).takeWhile p = as.takeWhile p := by
  induction as with
  | nil => simp [hd]
  | cons a as ih => by_cases h : p a <;> simp [h, ih]

theorem skipWhile_delimited {stop p : α → Bool} (h : ∀ d, stop d = true → p d = false) :
    Delimited stop fun c : Cursor α => (c.rest.takeWhile p, skipWhile p c.pos c.rest) := by
  intro c k d ds hd
  have hp := h d hd
  exact Prod.ext (takeWhile_append_stop hp c.rest ds) (skipWhile_relocate hp k c.pos c.rest ds)

theorem takeIf_delimited {stop : α → Bool} {g : α → Option β} (default : β)
    (h : ∀ d, stop d = true → g d = none) : Delimited stop (takeIf g default) := by
  rintro ⟨pos, rest⟩ k d ds hd
  cases rest with
  | nil => simp [takeIf, relocate, h d hd]
  | cons a as =>
      cases hg : g a with
      | some b => simp [takeIf, relocate, hg, Nat.add_right_comm]
      | none => simp [takeIf, relocate, hg]

theorem Delimited.bind {stop : α → Bool} {f : Cursor α → β × Cursor α}
    {g : β → Cursor α → γ × Cursor α} (hf : Delimited stop f) (hg : ∀ b, Delimited stop (g b)) :
    Delimited stop (fun c => g (f c).1 (f c).2) := by
  intro c k d ds hd
  dsimp only
  rw [hf c k d ds hd]
  exact hg _ _ k d ds hd

end Scan
