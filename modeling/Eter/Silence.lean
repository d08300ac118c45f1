import Eter.Stateful

/-!
# Silent runs

States are ordered: no run leads back. A measure of states that never falls tells silent runs, which
leave it as it is, from the others. Two computations in a row are silent only when both are, so what
is known of silent runs is put together along the computation.
-/

namespace Stateful

variable {σ ε α β γ : Type}

/-- Every run leads to a later state. -/
class Ascends [Preorder σ] (m : StateT σ (Except ε) α) : Prop where
  le : ∀ s a s', m s = .ok (a, s') → s ≤ s'

namespace Ascends

variable [Preorder σ] {m m' : StateT σ (Except ε) α} {f : α → StateT σ (Except ε) β}

instance pure (a : α) : Ascends (pure a : StateT σ (Except ε) α) where
  le := by
    rintro s _ _ ⟨⟩
    exact le_rfl

instance bind [hm : Ascends m] [hf : ∀ a, Ascends (f a)] : Ascends (m >>= f) where
  le s b s'' hb := by
    obtain ⟨a, s', ha, hb⟩ := of_bind_ok hb
    exact (hm.le s a s' ha).trans ((hf a).le s' b s'' hb)

instance ite {c : Prop} [Decidable c] [hm : Ascends m] [hm' : Ascends m'] :
    Ascends (if c then m else m') where
  le := by
    split_ifs
    · exact hm.le
    · exact hm'.le

instance iterate {exhausted : ε} {turn : β → StateT σ (Except ε) (Turn β γ)}
    [hturn : ∀ b, Ascends (turn b)] (n : ℕ) (b : β) : Ascends (iterate exhausted turn n b) where
  le := by
    induction n generalizing b with
    | zero => rintro s _ _ ⟨⟩
    | succ n ih =>
      intro s c s'' hc
      obtain ⟨r, s', hr, hc⟩ := of_bind_ok hc
      have hle := (hturn b).le s r s' hr
      cases r with
      | again b' => exact hle.trans (ih b' s' c s'' hc)
      | done c' =>
        cases hc
        exact hle

end Ascends

/-- Every run from `s` that leaves the measure as it is ends in `Q`. -/
def Silent (size : σ → ℕ) (m : StateT σ (Except ε) α) (Q : α → σ → Prop) (s : σ) : Prop :=
  ∀ a s', m s = .ok (a, s') → size s' = size s → Q a s'

namespace Silent

variable {size : σ → ℕ} {m m' : StateT σ (Except ε) α} {f : α → StateT σ (Except ε) β}
  {R Q : α → σ → Prop} {Q' : β → σ → Prop} {s s' : σ} {a : α}

theorem pure (h : Q a s) : Silent size (pure a : StateT σ (Except ε) α) Q s := by
  rintro _ _ ⟨⟩ _
  exact h

theorem throw {e : ε} : Silent size (throw e : StateT σ (Except ε) α) Q s := by
  rintro _ _ ⟨⟩

theorem mono (hm : Silent size m R s) (h : ∀ a s', R a s' → Q a s') : Silent size m Q s :=
  fun a s' ha hs => h a s' (hm a s' ha hs)

/-- A step of which the result is known. -/
theorem step (hm : m s = .ok (a, s')) (hs : size s' = size s) (hf : Silent size (f a) Q' s') :
    Silent size (m >>= f) Q' s := by
  intro b s'' hb hs'
  obtain ⟨a', t, ha', hb⟩ := of_bind_ok hb
  obtain ⟨rfl, rfl⟩ : a' = a ∧ t = s' := by
    rw [hm] at ha'
    cases ha'
    exact ⟨rfl, rfl⟩
  exact hf b s'' hb (hs'.trans hs.symm)

theorem read (hm : m s = .ok (a, s)) (hf : Silent size (f a) Q' s) : Silent size (m >>= f) Q' s :=
  step hm rfl hf

variable [Preorder σ]

theorem bind (hsize : Monotone size) [hm : Ascends m] [hf : ∀ a, Ascends (f a)]
    (h : Silent size m R s)
    (h' : ∀ a s', s ≤ s' → size s' = size s → R a s' → Silent size (f a) Q' s') :
    Silent size (m >>= f) Q' s := by
  intro b s'' hb hs
  obtain ⟨a, s', ha, hb⟩ := of_bind_ok hb
  have hle := hm.le s a s' ha
  have hsize₁ := hsize hle
  have hsize₂ := hsize ((hf a).le s' b s'' hb)
  exact h' a s' hle (by omega) (h a s' ha (by omega)) b s'' hb (by omega)

/-- Behind a step that raises the measure no run is silent. -/
theorem loud (hsize : Monotone size) [hf : ∀ a, Ascends (f a)]
    (hm : ∀ a s', m s = .ok (a, s') → size s < size s') : Silent size (m >>= f) Q' s := by
  intro b s'' hb hs
  obtain ⟨a, s', ha, hb⟩ := of_bind_ok hb
  have hlt := hm a s' ha
  have hle := hsize ((hf a).le s' b s'' hb)
  omega

/-- One turn of a loop, and the turns behind it. -/
theorem turn (hsize : Monotone size) {exhausted : ε} {turn : γ → StateT σ (Except ε) (Turn γ β)}
    [∀ b, Ascends (turn b)] {A : γ → σ → Prop} {n : ℕ} {b : γ}
    (h : Silent size (turn b) (fun r s' => r.Leads (fun b' => A b' s') (fun c => Q' c s')) s)
    (hagain : ∀ b' s', A b' s' → Silent size (Stateful.iterate exhausted turn n b') Q' s') :
    Silent size (Stateful.iterate exhausted turn (n + 1) b) Q' s := by
  intro c s'' hrun hs
  obtain ⟨r, t, hr, hc⟩ := of_bind_ok hrun
  have hle := hsize (Ascends.le s r t hr)
  cases r with
  | again b' =>
    have hle' := hsize (Ascends.le t c s'' hc)
    exact hagain b' t (h _ t hr (by omega)) c s'' hc (by omega)
  | done c' =>
    cases hc
    exact h _ s'' hr hs

end Silent

end Stateful
