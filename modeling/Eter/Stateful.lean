import Mathlib.Tactic

/-!
# Stateful computations that may get stuck

Rules for computations over a state: `Yields` says that one computation succeeds with a result and
a final state of some kind, `Relates` that whatever one computation does, another one does in a
related way. Loops run for a bounded number of turns.
-/

namespace Stateful

variable {σ τ ε α β γ : Type}

/-! ### Bounded loops -/

inductive Turn (β γ : Type) where
  | again (b : β)
  | done (c : γ)

/-- What a turn leads to: another turn or the end. -/
def Turn.Leads (again : β → Prop) (done : γ → Prop) : Turn β γ → Prop
  | .again b => again b
  | .done c => done c

/-- A loop of at most `n` turns. -/
def iterate (exhausted : ε) (turn : β → StateT σ (Except ε) (Turn β γ)) :
    ℕ → β → StateT σ (Except ε) γ
  | 0, _ => throw exhausted
  | n + 1, b => do
    match ← turn b with
    | .again b' => iterate exhausted turn n b'
    | .done c => pure c

/-- What succeeds after `m` succeeds after what `m` does. -/
theorem of_bind_ok {m : StateT σ (Except ε) α} {f : α → StateT σ (Except ε) β} {s s'' : σ} {b : β}
    (h : (m >>= f) s = .ok (b, s'')) : ∃ a s', m s = .ok (a, s') ∧ f a s' = .ok (b, s'') := by
  change (m s >>= fun p => f p.1 p.2) = _ at h
  cases hms : m s with
  | error e =>
    rw [hms] at h
    cases h
  | ok p =>
    rw [hms] at h
    exact ⟨p.1, p.2, rfl, h⟩

/-! ### Total correctness -/

/-- From `s`, `m` succeeds with a result and a state in `Q`. -/
def Yields (m : StateT σ (Except ε) α) (Q : α → σ → Prop) (s : σ) : Prop :=
  ∃ a s', m s = .ok (a, s') ∧ Q a s'

theorem Yields.pure {Q : α → σ → Prop} {a : α} {s : σ} (h : Q a s) :
    Yields (pure a : StateT σ (Except ε) α) Q s :=
  ⟨a, s, rfl, h⟩

theorem Yields.bind {m : StateT σ (Except ε) α} {f : α → StateT σ (Except ε) β}
    {R : α → σ → Prop} {Q : β → σ → Prop} {s : σ} (hm : Yields m R s)
    (hf : ∀ a s', R a s' → Yields (f a) Q s') : Yields (m >>= f) Q s := by
  obtain ⟨a, s', ha, hR⟩ := hm
  obtain ⟨b, s'', hb, hQ⟩ := hf a s' hR
  refine ⟨b, s'', ?_, hQ⟩
  show (m s >>= fun p => f p.1 p.2) = _
  rw [ha]
  exact hb

theorem Yields.mono {m : StateT σ (Except ε) α} {R Q : α → σ → Prop} {s : σ} (hm : Yields m R s)
    (h : ∀ a s', R a s' → Q a s') : Yields m Q s := by
  obtain ⟨a, s', ha, hR⟩ := hm
  exact ⟨a, s', ha, h a s' hR⟩

/-- Two facts about one run are facts about the same result. -/
theorem Yields.and {m : StateT σ (Except ε) α} {P Q : α → σ → Prop} {s : σ}
    (hP : Yields m P s) (hQ : Yields m Q s) : Yields m (fun a s' => P a s' ∧ Q a s') s := by
  obtain ⟨a, s', ha, hP⟩ := hP
  obtain ⟨b, s'', hb, hQ⟩ := hQ
  rw [ha] at hb
  cases hb
  exact ⟨a, s', ha, hP, hQ⟩

theorem Yields.of_eq {m : StateT σ (Except ε) α} {Q : α → σ → Prop} {s : σ} {a : α} {s' : σ}
    (h : Yields m Q s) (heq : m s = .ok (a, s')) : Q a s' := by
  obtain ⟨b, s'', hb, hQ⟩ := h
  rw [heq] at hb
  cases hb
  exact hQ

/-- A computation that only reads the state goes on with the value it reads. -/
theorem Yields.read {m : StateT σ (Except ε) α} {f : α → StateT σ (Except ε) β}
    {Q : β → σ → Prop} {s : σ} {a : α} (hm : m s = .ok (a, s)) (hf : Yields (f a) Q s) :
    Yields (m >>= f) Q s :=
  Yields.bind (R := fun b s' => b = a ∧ s' = s) ⟨a, s, hm, rfl, rfl⟩
    (by rintro _ _ ⟨rfl, rfl⟩; exact hf)

/-- A loop whose every further turn lowers the variant, from below the number of turns. -/
theorem Yields.iterate {exhausted : ε} {turn : β → StateT σ (Except ε) (Turn β γ)}
    {I : ℕ → β → σ → Prop} {Q : γ → σ → Prop}
    (hturn : ∀ v b s, I v b s →
      Yields (turn b) (fun r s' => r.Leads (fun b' => ∃ v' < v, I v' b' s') (fun c => Q c s')) s)
    {n v : ℕ} (hv : v < n) {b : β} {s : σ} (h : I v b s) :
    Yields (iterate exhausted turn n b) Q s := by
  induction n generalizing v b s with
  | zero => omega
  | succ n ih =>
    refine (hturn v b s h).bind fun r s' hr => ?_
    cases r with
    | again b' =>
      obtain ⟨v', hlt, hI⟩ := hr
      exact ih (by omega) hI
    | done c => exact Yields.pure hr

/-! ### Growing states -/

/-- From `s`, whenever `m` succeeds the state has grown and the result is in `Q`. -/
def Grows (le : σ → σ → Prop) (m : StateT σ (Except ε) α) (Q : α → σ → Prop) (s : σ) : Prop :=
  ∀ a s', m s = .ok (a, s') → le s s' ∧ Q a s'

section Grows

variable {le : σ → σ → Prop} {m : StateT σ (Except ε) α} {R Q : α → σ → Prop} {s : σ}

theorem Grows.pure {a : α} (hrefl : le s s) (h : Q a s) :
    Grows le (pure a : StateT σ (Except ε) α) Q s := by
  intro a' s' ha
  cases ha
  exact ⟨hrefl, h⟩

theorem Grows.bind {f : α → StateT σ (Except ε) β} {Q : β → σ → Prop}
    (htrans : ∀ {s t u : σ}, le s t → le t u → le s u) (hm : Grows le m R s)
    (hf : ∀ a s', le s s' → R a s' → Grows le (f a) Q s') : Grows le (m >>= f) Q s := by
  intro b s'' hb
  obtain ⟨a, s', ha, hb⟩ := of_bind_ok hb
  obtain ⟨hle, hR⟩ := hm a s' ha
  obtain ⟨hle', hQ⟩ := hf a s' hle hR b s'' hb
  exact ⟨htrans hle hle', hQ⟩

theorem Grows.mono (hm : Grows le m R s) (h : ∀ a s', le s s' → R a s' → Q a s') :
    Grows le m Q s := by
  intro a s' ha
  obtain ⟨hle, hR⟩ := hm a s' ha
  exact ⟨hle, h a s' hle hR⟩

/-- What one turn keeps, all turns keep. -/
theorem Grows.iterate {exhausted : ε} {turn : β → StateT σ (Except ε) (Turn β γ)}
    {I : β → σ → Prop} {Q : γ → σ → Prop} (hrefl : ∀ s, le s s)
    (htrans : ∀ {s t u : σ}, le s t → le t u → le s u)
    (hturn : ∀ b s, I b s → Grows le (turn b) (fun r s' => r.Leads (fun b' => I b' s')
      (fun c => Q c s')) s) (n : ℕ) {b : β} {s : σ} (h : I b s) :
    Grows le (iterate exhausted turn n b) Q s := by
  induction n generalizing b s with
  | zero =>
    intro a s' ha
    cases ha
  | succ n ih =>
    refine Grows.bind htrans (hturn b s h) fun r s' hle hr => ?_
    cases r with
    | again b' => exact ih hr
    | done c => exact Grows.pure (hrefl s') hr

end Grows

/-! ### Two runs -/

/-- From states related by `I`, whatever `m` does, `m'` does in a way related by `J`. -/
def Relates (I : σ → τ → Prop) (m : StateT σ (Except ε) α) (m' : StateT τ (Except ε) β)
    (J : α → σ → β → τ → Prop) : Prop :=
  ∀ s t, I s t → ∀ a s', m s = .ok (a, s') → ∃ b t', m' t = .ok (b, t') ∧ J a s' b t'

variable {I I' : σ → τ → Prop} {α' γ' : Type}

theorem Relates.pure {J : α → σ → β → τ → Prop} {a : α} {b : β}
    (h : ∀ s t, I s t → J a s b t) :
    Relates I (pure a : StateT σ (Except ε) α) (pure b : StateT τ (Except ε) β) J := by
  intro s t hI a' s' ha
  cases ha
  exact ⟨b, t, rfl, h s t hI⟩

theorem Relates.bind {m : StateT σ (Except ε) α} {m' : StateT τ (Except ε) α'}
    {f : α → StateT σ (Except ε) β} {f' : α' → StateT τ (Except ε) γ'}
    {R : α → σ → α' → τ → Prop} {J : β → σ → γ' → τ → Prop} (hm : Relates I m m' R)
    (hf : ∀ a a', Relates (fun s t => R a s a' t) (f a) (f' a') J) :
    Relates I (m >>= f) (m' >>= f') J := by
  intro s t hI b s'' hb
  obtain ⟨a, s', ha, hb⟩ := of_bind_ok hb
  obtain ⟨a', t', ha', hR⟩ := hm s t hI a s' ha
  obtain ⟨c, t'', hc, hJ⟩ := hf a a' s' t' hR b s'' hb
  refine ⟨c, t'', ?_, hJ⟩
  change (m' t >>= fun p => f' p.1 p.2) = _
  rw [ha']
  exact hc

theorem Relates.mono {m : StateT σ (Except ε) α} {m' : StateT τ (Except ε) β}
    {R J : α → σ → β → τ → Prop} (hm : Relates I m m' R) (hI : ∀ s t, I' s t → I s t)
    (h : ∀ a s b t, R a s b t → J a s b t) : Relates I' m m' J := by
  intro s t hI' a s' ha
  obtain ⟨b, t', hb, hR⟩ := hm s t (hI s t hI') a s' ha
  exact ⟨b, t', hb, h a s' b t' hR⟩

/-- Two loops with related turns. -/
theorem Relates.iterate {exhausted exhausted' : ε} {turn : β → StateT σ (Except ε) (Turn β γ)}
    {turn' : α' → StateT τ (Except ε) (Turn α' γ')} {K : β → σ → α' → τ → Prop}
    {J : γ → σ → γ' → τ → Prop}
    (hturn : ∀ b b', Relates (fun s t => K b s b' t) (turn b) (turn' b') fun r s r' t =>
      match r, r' with
      | .again c, .again c' => K c s c' t
      | .done c, .done c' => J c s c' t
      | _, _ => False)
    (n : ℕ) (b : β) (b' : α') :
    Relates (fun s t => K b s b' t) (iterate exhausted turn n b) (iterate exhausted' turn' n b')
      J := by
  induction n generalizing b b' with
  | zero =>
    intro s t _ a s' ha
    cases ha
  | succ n ih =>
    unfold Stateful.iterate
    refine (hturn b b').bind fun r r' => ?_
    cases r with
    | again c =>
      cases r' with
      | again c' => exact ih c c'
      | done c' => exact fun s t hI => hI.elim
    | done c =>
      cases r' with
      | again c' => exact fun s t hI => hI.elim
      | done c' => exact Relates.pure fun s t hJ => hJ

end Stateful
