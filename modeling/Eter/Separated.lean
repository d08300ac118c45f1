import Mathlib.Computability.Language
import Mathlib.Tactic

/-!
# Words with separators

Symbols of one class with at most one separator between two of them.
-/

namespace Separated

variable {α : Type*} {p : α → Bool} {sep a : α} {w u v : List α}

/-- The words of one symbol. -/
def symbol (p : α → Bool) : Language α := {w | ∃ a, p a = true ∧ w = [a]}

/-- A symbol behind a separator or without one. -/
def next (p : α → Bool) (sep : α) : Language α := (1 + {[sep]}) * symbol p

/-- Symbols with single separators between them. -/
def separated (p : α → Bool) (sep : α) : Language α := symbol p * KStar.kstar (next p sep)

/-- Symbols and separators, no two separators adjacent and none at the end. -/
structure Tidy (p : α → Bool) (sep : α) (w : List α) : Prop where
  all : ∀ a ∈ w, p a = true ∨ a = sep
  single : ¬ [sep, sep] <:+: w
  last : w.getLast? ≠ some sep

theorem mem_next : w ∈ next p sep ↔ ∃ a, p a = true ∧ (w = [a] ∨ w = [sep, a]) := by
  unfold next
  rw [Language.mem_mul]
  constructor
  · rintro ⟨x, hx, y, ⟨a, ha, rfl⟩, rfl⟩
    rcases hx with rfl | rfl
    · exact ⟨a, ha, Or.inl rfl⟩
    · exact ⟨a, ha, Or.inr rfl⟩
  · rintro ⟨a, ha, rfl | rfl⟩
    · exact ⟨[], Or.inl rfl, [a], ⟨a, ha, rfl⟩, rfl⟩
    · exact ⟨[sep], Or.inr rfl, [a], ⟨a, ha, rfl⟩, rfl⟩

theorem nil_notMem_next : [] ∉ next p sep := by
  rw [mem_next]
  rintro ⟨a, -, h | h⟩ <;> cases h

theorem Tidy.nil : Tidy p sep [] := ⟨by simp, by simp, by simp⟩

theorem infix_pair_cons (h : a ≠ sep) : [sep, sep] <:+: a :: w ↔ [sep, sep] <:+: w := by
  rw [List.infix_cons_iff, List.cons_prefix_cons]
  simp [h.symm]

theorem Tidy.cons (hsep : p sep = false) (ha : p a = true) : Tidy p sep (a :: w) ↔ Tidy p sep w := by
  have hne : a ≠ sep := by
    rintro rfl
    rw [ha] at hsep
    cases hsep
  constructor
  · rintro ⟨hall, hsingle, hlast⟩
    refine ⟨fun b hb => hall b (List.mem_cons_of_mem a hb), ?_, fun h => hlast ?_⟩
    · rwa [infix_pair_cons hne] at hsingle
    · rw [List.getLast?_cons, h]
      rfl
  · rintro ⟨hall, hsingle, hlast⟩
    refine ⟨fun b hb => ?_, ?_, fun h => ?_⟩
    · rcases List.mem_cons.mp hb with rfl | hb
      · exact Or.inl ha
      · exact hall b hb
    · rwa [infix_pair_cons hne]
    · rw [List.getLast?_cons] at h
      cases hw : w.getLast? with
      | none =>
        rw [hw] at h
        exact hne (Option.some.inj h)
      | some b =>
        rw [hw] at h
        exact hlast (hw.trans h)

/-- A separator needs a symbol behind it. -/
theorem Tidy.cons_sep (hsep : p sep = false) : Tidy p sep (sep :: w) ↔
    ∃ a v, w = a :: v ∧ p a = true ∧ Tidy p sep w := by
  constructor
  · rintro ⟨hall, hsingle, hlast⟩
    cases w with
    | nil => exact (hlast rfl).elim
    | cons a v =>
      have hne : a ≠ sep := by
        rintro rfl
        exact hsingle ⟨[], v, rfl⟩
      refine ⟨a, v, rfl, (hall a (by simp)).resolve_right hne,
        fun b hb => hall b (List.mem_cons_of_mem sep hb), fun h => hsingle ?_, fun h => hlast ?_⟩
      · exact h.trans (List.suffix_cons sep (a :: v)).isInfix
      · rwa [List.getLast?_cons_cons]
  · rintro ⟨a, v, rfl, ha, hall, hsingle, hlast⟩
    have hne : a ≠ sep := by
      rintro rfl
      rw [ha] at hsep
      cases hsep
    refine ⟨fun b hb => ?_, fun h => ?_, fun h => hlast ?_⟩
    · rcases List.mem_cons.mp hb with rfl | hb
      · exact Or.inr rfl
      · exact hall b hb
    · rw [List.infix_cons_iff, List.cons_prefix_cons, List.cons_prefix_cons] at h
      rcases h with ⟨-, heq, -⟩ | h
      · exact hne heq.symm
      · exact hsingle h
    · rwa [List.getLast?_cons_cons] at h

theorem mem_kstar_next (hsep : p sep = false) :
    w ∈ KStar.kstar (next p sep) ↔ Tidy p sep w := by
  constructor
  · intro h
    obtain ⟨L, rfl, hL⟩ := Language.mem_kstar.mp h
    clear h
    induction L with
    | nil => exact Tidy.nil
    | cons x L ih =>
      have hrest := ih fun y hy => hL y (List.mem_cons_of_mem x hy)
      obtain ⟨a, ha, rfl | rfl⟩ := mem_next.mp (hL x (by simp))
      · exact (Tidy.cons hsep ha).mpr hrest
      · exact (Tidy.cons_sep hsep).mpr ⟨a, L.flatten, rfl, ha, (Tidy.cons hsep ha).mpr hrest⟩
  · intro h
    induction hn : w.length using Nat.strong_induction_on generalizing w with
    | _ n ih =>
      have step : ∀ x v, x ∈ next p sep → v ∈ KStar.kstar (next p sep) →
          x ++ v ∈ KStar.kstar (next p sep) := by
        intro x v hx hv
        rw [← Language.one_add_self_mul_kstar_eq_kstar]
        exact Or.inr (Language.append_mem_mul hx hv)
      cases w with
      | nil => exact Language.nil_mem_kstar _
      | cons a w =>
        rcases h.all a (by simp) with ha | rfl
        · have hrest := (Tidy.cons hsep ha).mp h
          exact step [a] w (mem_next.mpr ⟨a, ha, Or.inl rfl⟩) (ih _ (by simp [← hn]) hrest rfl)
        · obtain ⟨b, v, rfl, hb, htidy⟩ := (Tidy.cons_sep hsep).mp h
          have hrest := (Tidy.cons hsep hb).mp htidy
          exact step [a, b] v (mem_next.mpr ⟨b, hb, Or.inr rfl⟩)
            (ih _ (by simp [← hn]) hrest rfl)

theorem mem_separated (hsep : p sep = false) :
    w ∈ separated p sep ↔ ∃ a u, w = a :: u ∧ p a = true ∧ Tidy p sep u := by
  unfold separated
  rw [Language.mem_mul]
  constructor
  · rintro ⟨x, ⟨a, ha, rfl⟩, u, hu, rfl⟩
    exact ⟨a, u, rfl, ha, (mem_kstar_next hsep).mp hu⟩
  · rintro ⟨a, u, rfl, ha, hu⟩
    exact ⟨[a], ⟨a, ha, rfl⟩, u, (mem_kstar_next hsep).mpr hu, rfl⟩

/-- With a separator allowed in front, the word must only not be empty. -/
theorem mem_next_mul_kstar (hsep : p sep = false) :
    w ∈ next p sep * KStar.kstar (next p sep) ↔ w ≠ [] ∧ Tidy p sep w := by
  rw [← mem_kstar_next hsep]
  constructor
  · intro h
    refine ⟨?_, ?_⟩
    · rintro rfl
      obtain ⟨x, hx, y, -, hxy⟩ := Language.mem_mul.mp h
      obtain rfl := (List.append_eq_nil_iff.mp hxy).1
      exact nil_notMem_next hx
    · rw [← Language.one_add_self_mul_kstar_eq_kstar]
      exact Or.inr h
  · rintro ⟨hne, h⟩
    rw [← Language.one_add_self_mul_kstar_eq_kstar] at h
    exact h.resolve_left hne

/-- A tidy word behind which something else comes is all that can be read. -/
theorem Tidy.takeWhile (h : Tidy p sep w) {q : α → Bool} (hq : ∀ a, q a = true ↔ p a = true ∨ a = sep)
    (hv : v.head?.all (fun a => !q a) = true) : (w ++ v).takeWhile q = w ∧
      (w ++ v).dropWhile q = v := by
  have hall : ∀ a ∈ w, q a = true := fun a ha => (hq a).mpr (h.all a ha)
  rw [List.takeWhile_append_of_pos hall, List.dropWhile_append_of_pos hall]
  cases v with
  | nil => exact ⟨List.append_nil w, rfl⟩
  | cons b v =>
    have hb : q b = false := by simpa using hv
    simp [hb]

end Separated
