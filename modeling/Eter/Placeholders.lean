import Eter.ParserDiagnostics

/-!
# Placeholders of message templates

The names that rendering looks up in a template, and the diagnostics that have an argument for each
of them.
-/

namespace Eter.Diag

/-- The names between braces, in the order in which the loop over the template meets them. -/
def placeholders : ℕ → List Char → List (List Char)
  | 0, _ => []
  | _ + 1, [] => []
  | fuel + 1, c :: cs =>
    if c ≠ '{' then placeholders fuel cs
    else
      match splitClose cs with
      | none => []
      | some (name, rest) => name :: placeholders fuel rest

def templatePlaceholders (template : String) : List (List Char) :=
  placeholders template.length template.toList

/-- Every placeholder of the diagnostic's template has an argument of its name, and it is replaced
by the value of one. -/
def PhaseDiagnostic.Instantiated (d : PhaseDiagnostic) : Prop :=
  ∀ p ∈ templatePlaceholders (Parser.messageFor d.localID), ∃ a ∈ d.args,
    a.1.toList = p ∧ expandPlaceholder d.args p = a.2.toList

/-- Arguments of these names fill the template. -/
def fills (names : List String) (id : Parser.DiagID) : Bool :=
  (templatePlaceholders (Parser.messageFor id)).all fun p => names.any fun name => name.toList = p

/-- With an argument of its name a placeholder is replaced by an argument's value. -/
theorem expandPlaceholder_of_arg {args : List (String × String)} {name : List Char}
    (h : ∃ a ∈ args, a.1.toList = name) :
    ∃ a ∈ args, a.1.toList = name ∧ expandPlaceholder args name = a.2.toList := by
  obtain ⟨a, ha, hname⟩ := h
  unfold expandPlaceholder
  cases hf : args.find? fun a => a.1.toList = name with
  | none =>
    have hnone := List.find?_eq_none.mp hf a ha
    simp [hname] at hnone
  | some b =>
    have hb : b.1.toList = name := by simpa using List.find?_some hf
    exact ⟨b, List.mem_of_find?_eq_some hf, hb, rfl⟩

theorem PhaseDiagnostic.instantiated_iff (d : PhaseDiagnostic) :
    d.Instantiated ↔ fills (d.args.map Prod.fst) d.localID = true := by
  have hfills : fills (d.args.map Prod.fst) d.localID = true ↔
      ∀ p ∈ templatePlaceholders (Parser.messageFor d.localID), ∃ a ∈ d.args, a.1.toList = p := by
    simp [fills]
  rw [hfills]
  constructor
  · intro h p hp
    obtain ⟨a, ha, hname, -⟩ := h p hp
    exact ⟨a, ha, hname⟩
  · exact fun h p hp => expandPlaceholder_of_arg (h p hp)

end Eter.Diag
