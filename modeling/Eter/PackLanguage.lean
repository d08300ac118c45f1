import Eter.PackNames
import Eter.QuietDecls

/-!
# The language of a pack

Whatever files a run of the driver comes by and in whatever order, each result that it keeps has no
diagnostics exactly if the text of its file is a program of the grammar.
-/

namespace Eter.Driver
open Eter.Parser Stateful

variable {fs : FileMap} {n : ℕ} {source : Bytes}
  {strings : StringInterner} {report : FileReport}

/-- The tree that the grammar has for the tokens of a text. -/
def IsProgram (source : Bytes) (tr : SyntaxTree) : Prop :=
  ∃ j, Derives (.ofItems (Lexer.lexAll source) source) true .file 0 j [tr]

theorem reportSource_decides (h : reportSource source strings = .ok report) :
    (report.result.errors = [] ↔ ∃ tr, IsProgram source tr) ∧
    ∀ tr, IsProgram source tr → ∀ later, Knows report.interner later →
      Stands report.result.pool later report.result.root tr.stored := by
  obtain ⟨_, t, hreport, hp, hinterner⟩ := reportSource_parse source strings
  rw [h] at hreport
  cases hreport
  refine ⟨⟨fun hquiet => ?_, ?_⟩, fun tr htr later hknows => ?_⟩
  · obtain ⟨j, tr, htr⟩ := derives_of_parse hp hquiet
    exact ⟨tr, j, htr⟩
  · rintro ⟨tr, j, htr⟩
    exact (quiet_of_derives le_rfl hp htr).1
  · obtain ⟨j, htr⟩ := htr
    rw [pool_of_parse hp]
    exact stands_of_denotes (quiet_of_derives le_rfl hp htr).2 (hinterner ▸ hknows)

/-- Each result of the pack is that of a file: it has no diagnostics exactly if the file is a program,
and then it is the tree of the program, with the names of the pack. -/
def Understood (fs : FileMap) (s : DriverState) : Prop :=
  ∀ q result, (q, result) ∈ s.session.results → ∃ source, fs.read q = some source ∧
    (result.errors = [] ↔ ∃ tr, IsProgram source tr) ∧
    ∀ tr, IsProgram source tr → Stands result.pool s.strings result.root tr.stored

theorem pack_understood (hn : fs.length < n) (root : Path) :
    ∃ rc s, compilePack fs n root = .ok (rc, s) ∧ Understood fs s := by
  obtain ⟨rc, s, hrun, hs⟩ := parseFile_spec fs n root .start (ready_start fs) hn
  refine ⟨rc, s, hrun, fun q result hmem => ?_⟩
  obtain ⟨source, old, report, hread, -, hreport, rfl, hknows⟩ :=
    (hs.kept.results _ hmem).resolve_left List.not_mem_nil
  obtain ⟨hquiet, hstands⟩ := reportSource_decides hreport
  exact ⟨source, hread, hquiet, fun tr htr => hstands tr htr _ hknows⟩

theorem pack_understood_two : ∃ s, compilePack twoFiles 3 (ascii "r.et") = .ok (0, s) ∧
    s.keys = [ascii "a.et", ascii "r.et"] ∧ Understood twoFiles s := by
  obtain ⟨s, hrun, hkeys⟩ := twoFiles_compiled
  obtain ⟨rc, s', hrun', hs⟩ : ∃ rc s, compilePack twoFiles 3 (ascii "r.et") = .ok (rc, s) ∧
    Understood twoFiles s := pack_understood (by decide) _
  rw [hrun] at hrun'
  cases hrun'
  exact ⟨s, hrun, hkeys, hs⟩

end Eter.Driver
