import Eter.TwinDecls

/-!
# Two whole runs

Runs over streams that agree build the same up to spans and identifiers, whatever their interners.
A run is its own twin, which says what every run builds.
-/

namespace Eter.Parser
open Stateful Diag

/-- A run from the beginning. -/
def Side.start (tokens : List Token) (source : Bytes) : Side := ⟨tokens, source, [sentinel], [], []⟩

def Frame.start : Frame := ⟨true, 0, []⟩

variable {w : Twin} {n : ℕ} {tokens tokens' : List Token} {source source' : Bytes}
  {lexErrors lexErrors' : List LexerError} {interner interner' : StringInterner}

theorem Alike.initial (hl : w.left = .start tokens source) (hr : w.right = .start tokens' source')
    (hshift : w.shift = 0) :
    Alike w .start (initialState (.fresh tokens lexErrors source) interner)
      (initialState (.fresh tokens' lexErrors' source') interner') where
  leftTokens := by rw [hl]; rfl
  leftSource := by rw [hl]; rfl
  rightTokens := by rw [hr]; rfl
  rightSource := by rw [hr]; rfl
  cursor := by rw [hshift]; rfl
  past := Nat.zero_le _
  leftLit := rfl
  rightLit := rfl
  pools := ⟨[], [], by rw [hl]; rfl, by rw [hr]; rfl, .nil⟩
  errors := ⟨[], [], by rw [hl]; rfl, by rw [hr]; rfl, .nil, by rw [hl]; rfl⟩
  names := fun _ hp => nomatch hp

/-- What the one run gives, so does the other. -/
theorem parse_twins (hl : w.left = .start tokens source) (hr : w.right = .start tokens' source')
    (hshift : w.shift = 0) (lexErrors' : List LexerError) (interner' : StringInterner)
    {r : ParseResult} {s : PState}
    (hp : parse n (.fresh tokens lexErrors source) interner = .ok (r, s)) :
    ∃ r' s', parse n (.fresh tokens' lexErrors' source') interner' = .ok (r', s') ∧
      NodeAlike w r.root r'.root ∧ Alike w .start s s' ∧ r.pool = s.pool ∧ r'.pool = s'.pool ∧
      r.errors = s.errors ∧ r'.errors = s'.errors := by
  have hI : Alike w .start (initialState (.fresh tokens lexErrors source) interner)
      (initialState (.fresh tokens' lexErrors' source') interner') := Alike.initial hl hr hshift
  unfold parse at hp ⊢
  cases hrun : parseSourceFile n (initialState (.fresh tokens lexErrors source) interner) with
  | error e =>
    rw [hrun] at hp
    cases hp
  | ok p =>
    obtain ⟨root, s₁⟩ := p
    rw [hrun] at hp
    cases hp
    obtain ⟨root', s', hrun', hroot, halike⟩ := parseSourceFile_matches .start _ _ hI root s hrun
    rw [hrun']
    exact ⟨_, _, rfl, hroot, halike, rfl, rfl, rfl, rfl⟩

/-- The twin of a run is the run itself. -/
def Twin.refl (x : Side) : Twin := ⟨x, x, 0, by simp, by simp, by simp⟩

theorem parse_alike {r : ParseResult} {s : PState}
    (hp : parse n (.fresh tokens lexErrors source) interner = .ok (r, s)) :
    Alike (.refl (.start tokens source)) .start s s ∧ r.pool = s.pool ∧ r.errors = s.errors := by
  obtain ⟨r', s', hp', -, halike, hpool, -, herrors, -⟩ :=
    parse_twins (w := .refl (.start tokens source)) rfl rfl rfl lexErrors interner hp
  rw [hp] at hp'
  cases hp'
  exact ⟨halike, hpool, herrors⟩

end Eter.Parser
