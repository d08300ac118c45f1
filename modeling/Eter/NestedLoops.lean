import Eter.Stateful

/-!
# Loops whose turns begin with a loop

Such a loop makes the turns of both loops, one after the other. How many turns of either kind are
allowed does not matter as long as there are more than are made.
-/

namespace Stateful

variable {σ ε β γ : Type} {exhausted : ε} {inner : β → StateT σ (Except ε) (Turn β β)}
  {outer : β → StateT σ (Except ε) (Turn β γ)} {k l : ℕ} {b b' b'' : β} {s s' s'' : σ}

/-- A turn that begins with all turns of the inner loop. -/
def nestedTurn (exhausted : ε) (inner : β → StateT σ (Except ε) (Turn β β))
    (outer : β → StateT σ (Except ε) (Turn β γ)) (n : ℕ) (b : β) :
    StateT σ (Except ε) (Turn β γ) := do
  let b ← iterate exhausted inner n b
  outer b

/-- `k` turns lead from the one value and state to the other. -/
inductive Climbs (inner : β → StateT σ (Except ε) (Turn β β))
    (outer : β → StateT σ (Except ε) (Turn β γ)) : ℕ → β → σ → β → σ → Prop where
  | stay {b : β} {s : σ} : Climbs inner outer 0 b s b s
  | inner {k : ℕ} {b b' b'' : β} {s s' s'' : σ} (hi : inner b s = .ok (.again b', s'))
      (h : Climbs inner outer k b' s' b'' s'') : Climbs inner outer (k + 1) b s b'' s''
  | outer {k : ℕ} {b c b' b'' : β} {s t s' s'' : σ} (hi : inner b s = .ok (.done c, t))
      (ho : outer c t = .ok (.again b', s')) (h : Climbs inner outer k b' s' b'' s'') :
      Climbs inner outer (k + 1) b s b'' s''

theorem Climbs.trans (h : Climbs inner outer k b s b' s') (h' : Climbs inner outer l b' s' b'' s'') :
    Climbs inner outer (k + l) b s b'' s'' := by
  induction h with
  | stay => rwa [Nat.zero_add]
  | inner hi _ ih =>
    rw [Nat.add_right_comm]
    exact .inner hi (ih h')
  | outer hi ho _ ih =>
    rw [Nat.add_right_comm]
    exact .outer hi ho (ih h')

theorem Climbs.one_inner (hi : inner b s = .ok (.again b', s')) :
    Climbs inner outer 1 b s b' s' :=
  .inner hi .stay

theorem Climbs.one_outer {c : β} {t : σ} (hi : inner b s = .ok (.done c, t))
    (ho : outer c t = .ok (.again b', s')) : Climbs inner outer 1 b s b' s' :=
  .outer hi ho .stay

theorem bind_of_ok {α δ : Type} {m : StateT σ (Except ε) α} {f : α → StateT σ (Except ε) δ} {a : α}
    (h : m s = .ok (a, s')) : (m >>= f) s = f a s' := by
  show (m s >>= fun p => f p.1 p.2) = _
  rw [h]
  rfl

theorem bind_congr_ok {α δ : Type} {m m' : StateT σ (Except ε) α}
    {f : α → StateT σ (Except ε) δ} (h : m s = m' s') : (m >>= f) s = (m' >>= f) s' := by
  show (m s >>= fun p => f p.1 p.2) = (m' s' >>= fun p => f p.1 p.2)
  rw [h]

theorem iterate_done {turn : β → StateT σ (Except ε) (Turn β γ)} {c : γ}
    (h : turn b s = .ok (.done c, s')) (n : ℕ) :
    iterate exhausted turn (n + 1) b s = .ok (c, s') := by
  unfold iterate
  rw [bind_of_ok h]
  rfl

theorem iterate_again {turn : β → StateT σ (Except ε) (Turn β γ)}
    (h : turn b s = .ok (.again b', s')) (n : ℕ) :
    iterate exhausted turn (n + 1) b s = iterate exhausted turn n b' s' := by
  conv_lhs => unfold iterate
  rw [bind_of_ok h]

/-- What the loop does behind a turn. -/
def afterTurn (exhausted : ε) (turn : β → StateT σ (Except ε) (Turn β γ)) (N : ℕ) :
    Turn β γ → StateT σ (Except ε) γ
  | .again b => iterate exhausted turn N b
  | .done c => pure c

theorem iterate_succ (turn : β → StateT σ (Except ε) (Turn β γ)) (N : ℕ) (b : β) :
    iterate exhausted turn (N + 1) b = turn b >>= afterTurn exhausted turn N := by
  show turn b >>= _ = _
  congr 1

/-- The turns lead to where both loops end. -/
theorem Climbs.run (h : Climbs inner outer k b s b' s') {c : β} {t u : σ} {r : γ}
    (hi : inner b' s' = .ok (.done c, t)) (ho : outer c t = .ok (.done r, u)) {n N : ℕ} (hn : k < n)
    (hN : k < N) : iterate exhausted (nestedTurn exhausted inner outer n) N b s = .ok (r, u) := by
  -- Inside a turn, where `j` turns of the inner loop are left.
  have hturn : ∀ j N, k < j → k ≤ N → ((iterate exhausted inner j b >>= outer) >>=
      afterTurn exhausted (nestedTurn exhausted inner outer n) N) s = .ok (r, u) := by
    clear hN
    induction h with
    | stay =>
      intro j N hj _
      obtain ⟨j, rfl⟩ := Nat.exists_eq_add_of_le' hj
      rw [bind_of_ok ((bind_of_ok (iterate_done hi j)).trans ho)]
      rfl
    | inner hi' _ ih =>
      intro j N hj hN
      obtain ⟨j, rfl⟩ : ∃ j', j = j' + 1 := ⟨j - 1, by omega⟩
      rw [bind_congr_ok (bind_congr_ok (iterate_again hi' j))]
      exact ih hi (by omega) j N (by omega) (by omega)
    | outer hi' ho' _ ih =>
      intro j N hj hN
      obtain ⟨j, rfl⟩ : ∃ j', j = j' + 1 := ⟨j - 1, by omega⟩
      obtain ⟨N, rfl⟩ : ∃ N', N = N' + 1 := ⟨N - 1, by omega⟩
      rw [bind_of_ok ((bind_of_ok (iterate_done hi' j)).trans ho')]
      show iterate _ _ (N + 1) _ _ = _
      rw [iterate_succ]
      exact ih hi (by omega) n N (by omega) (by omega)
  obtain ⟨N, rfl⟩ : ∃ N', N = N' + 1 := ⟨N - 1, by omega⟩
  rw [iterate_succ]
  exact hturn n N hn (by omega)

end Stateful
