import Eter.TwinRuns
import Eter.Acceptance

/-!
# Contracts of what a run records

Which diagnostics have all the arguments their templates name.
-/

namespace Eter.Parser
open Stateful Diag

variable {n : ℕ} {tokens : List Token} {source : Bytes} {lexErrors : List LexerError}
  {interner : StringInterner} {r : ParseResult} {s : PState}

/-! ### Diagnostics -/

theorem lacking_eq_zero_iff (errs : List PhaseDiagnostic) :
    lacking errs = 0 ↔ ∀ d ∈ errs, d.Instantiated := by
  simp [lacking, List.countP_eq_zero, PhaseDiagnostic.instantiated_iff]

/-- Exactly the diagnostics of a bare `unsafe` lack an argument. -/
theorem instantiated_iff_no_bareUnsafe (tokens : List Token) (lexErrors : List LexerError)
    (source : Bytes) (interner : StringInterner) :
    ∃ r s, parse (enough tokens) (.fresh tokens lexErrors source) interner = .ok (r, s) ∧
      ((∀ d ∈ r.errors, d.Instantiated) ↔ Slip.bareUnsafe ∉ s.slips) := by
  obtain ⟨r, s, hp, -⟩ := parse_spec .acceptance lexErrors source interner le_rfl
  refine ⟨r, s, hp, ?_⟩
  obtain ⟨halike, -, herrors⟩ := parse_alike hp
  obtain ⟨es, -, hes, -, -, hcount⟩ := halike.errors
  have hall : r.errors = es := herrors.trans hes
  have hslips : s.slips.count .bareUnsafe = lacking es := hcount.trans (Nat.zero_add _)
  rw [hall, ← lacking_eq_zero_iff, ← hslips]
  exact List.count_eq_zero

/-- `fn f(){unsafe x}`, one byte a token. -/
def bareUnsafeFn : List Token :=
  [byteToken .kw_fn 0, byteToken .identifier 1, byteToken .l_paren 2, byteToken .r_paren 3,
    byteToken .l_brace 4, byteToken .kw_unsafe_ 5, byteToken .identifier 6, byteToken .r_brace 7]

theorem bareUnsafe_not_instantiated :
    ∃ r s, parse (enough bareUnsafeFn) (.fresh bareUnsafeFn [] []) .new = .ok (r, s) ∧
      ∃ d ∈ r.errors, ¬ d.Instantiated := by
  have hrun : (parse (enough bareUnsafeFn) (.fresh bareUnsafeFn [] []) .new).toOption.map
      (fun p => lacking p.1.errors) = some 1 := by decide +kernel
  cases hp : parse (enough bareUnsafeFn) (.fresh bareUnsafeFn [] []) .new with
  | ok rs =>
    rw [hp] at hrun
    have hone : lacking rs.1.errors = 1 := Option.some.inj hrun
    refine ⟨rs.1, rs.2, rfl, ?_⟩
    by_contra hall
    push Not at hall
    have hzero := (lacking_eq_zero_iff rs.1.errors).mpr hall
    omega
  | error e =>
    rw [hp] at hrun
    cases hrun

end Eter.Parser
