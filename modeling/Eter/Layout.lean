import Mathlib.Tactic

/-!
# Layouts of lists

A layout is a list of pieces, each standing for one entry of a category, at most one, or any number
of them.
-/

namespace Layout

variable {κ α β : Type}

inductive Piece (κ : Type) where
  | one (c : κ)
  | opt (c : κ)
  | many (c : κ)
  deriving DecidableEq, Repr

/-- The entries fit the pieces, one after the other; `R c a` says that `a` is of category `c`. -/
inductive Fits (R : κ → α → Prop) : List (Piece κ) → List α → Prop
  | nil : Fits R [] []
  | one {c a ps as} : R c a → Fits R ps as → Fits R (.one c :: ps) (a :: as)
  | absent {c ps as} : Fits R ps as → Fits R (.opt c :: ps) as
  | present {c a ps as} : R c a → Fits R ps as → Fits R (.opt c :: ps) (a :: as)
  | stop {c ps as} : Fits R ps as → Fits R (.many c :: ps) as
  | more {c a ps as} : R c a → Fits R (.many c :: ps) as → Fits R (.many c :: ps) (a :: as)

theorem Fits.map {R : κ → α → Prop} {S : κ → β → Prop} {f : α → β} {ps : List (Piece κ)}
    {as : List α} (h : Fits R ps as) (hf : ∀ c, ∀ a ∈ as, R c a → S c (f a)) :
    Fits S ps (as.map f) := by
  induction h with
  | nil => exact .nil
  | one hr _ ih =>
    exact .one (hf _ _ (List.mem_cons_self ..) hr)
      (ih fun c a ha => hf c a (List.mem_cons_of_mem _ ha))
  | absent _ ih => exact .absent (ih hf)
  | present hr _ ih =>
    exact .present (hf _ _ (List.mem_cons_self ..) hr)
      (ih fun c a ha => hf c a (List.mem_cons_of_mem _ ha))
  | stop _ ih => exact .stop (ih hf)
  | more hr _ ih =>
    exact .more (hf _ _ (List.mem_cons_self ..) hr)
      (ih fun c a ha => hf c a (List.mem_cons_of_mem _ ha))

theorem Fits.mono {R S : κ → α → Prop} {ps : List (Piece κ)} {as : List α} (h : Fits R ps as)
    (hf : ∀ c, ∀ a ∈ as, R c a → S c a) : Fits S ps as := by
  simpa using h.map (f := id) hf

theorem Fits.many {R : κ → α → Prop} {c : κ} {ps : List (Piece κ)} {as bs : List α}
    (h : ∀ a ∈ as, R c a) (hb : Fits R ps bs) : Fits R (.many c :: ps) (as ++ bs) := by
  induction as with
  | nil => exact .stop hb
  | cons a as ih =>
    exact .more (h a (List.mem_cons_self ..)) (ih fun a ha => h a (List.mem_cons_of_mem _ ha))

theorem Fits.many_last {R : κ → α → Prop} {c : κ} {as : List α} (h : ∀ a ∈ as, R c a) :
    Fits R [.many c] as := by
  simpa using Fits.many h .nil

/-- At most one entry. -/
theorem Fits.opt {R : κ → α → Prop} {c : κ} {ps : List (Piece κ)} {as bs : List α}
    (hlen : as.length ≤ 1) (h : ∀ a ∈ as, R c a) (hb : Fits R ps bs) :
    Fits R (.opt c :: ps) (as ++ bs) := by
  cases as with
  | nil => exact .absent hb
  | cons a as =>
    cases as with
    | nil => exact .present (h a (List.mem_cons_self ..)) hb
    | cons b as => simp at hlen

theorem Fits.opt_last {R : κ → α → Prop} {c : κ} {as : List α} (hlen : as.length ≤ 1)
    (h : ∀ a ∈ as, R c a) : Fits R [.opt c] as := by
  simpa using Fits.opt hlen h .nil

/-- An entry is of the category of one of the pieces. -/
theorem Fits.exists_of_mem {R : κ → α → Prop} {ps : List (Piece κ)} {as : List α}
    (h : Fits R ps as) {a : α} (ha : a ∈ as) :
    ∃ c, R c a ∧ (.one c ∈ ps ∨ .opt c ∈ ps ∨ .many c ∈ ps) := by
  induction h with
  | nil => cases ha
  | one hr _ ih =>
    rcases List.mem_cons.mp ha with rfl | ha
    · exact ⟨_, hr, Or.inl (List.mem_cons_self ..)⟩
    · obtain ⟨c, hc, hmem⟩ := ih ha
      exact ⟨c, hc, by simpa using hmem.imp Or.inr id⟩
  | absent _ ih =>
    obtain ⟨c, hc, hmem⟩ := ih ha
    exact ⟨c, hc, by simpa using hmem.imp id (Or.imp Or.inr id)⟩
  | present hr _ ih =>
    rcases List.mem_cons.mp ha with rfl | ha
    · exact ⟨_, hr, Or.inr (Or.inl (List.mem_cons_self ..))⟩
    · obtain ⟨c, hc, hmem⟩ := ih ha
      exact ⟨c, hc, by simpa using hmem.imp id (Or.imp Or.inr id)⟩
  | stop _ ih =>
    obtain ⟨c, hc, hmem⟩ := ih ha
    exact ⟨c, hc, by simpa using hmem.imp id (Or.imp id Or.inr)⟩
  | more hr _ ih =>
    rcases List.mem_cons.mp ha with rfl | ha
    · exact ⟨_, hr, Or.inr (Or.inr (List.mem_cons_self ..))⟩
    · exact ih ha

end Layout
