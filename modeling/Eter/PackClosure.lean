import Eter.DiscoveryRuns

/-!
# File modules inside inline modules

The parser admits `mod foo;` at any depth of inline modules, but the driver follows the declarations
of a file alone. A pack has all its modules exactly if the others are in it for another reason.
-/

namespace Eter.Driver
open Eter.Parser Stateful Dependencies

variable {fs : FileMap} {n rc : ℕ} {p q root : Path} {s : DriverState} {source name : Bytes}

/-- A node of the tree below a root, as `childrenOf` shows the tree: the children that a 16-bit count
leaves out are not below their node. Without nodes of more than 65535 children these are all
descendants. -/
def Below (pool : NodePool) (root i : NodeIndex) : Prop :=
  Relation.ReflTransGen (fun a b => b ∈ pool.childrenOf a) root i

/-- Wherever a file of the pack declares a file module, the module is in the pack too. -/
def ModulesStored (fs : FileMap) (s : DriverState) : Prop :=
  ∀ p result, (p, result) ∈ s.session.results → ∀ i d, Below result.pool result.root i →
    result.pool.get? i = some d → d.kind = .ModDeclFile →
    ∃ name q, s.session.interner.get? (NodePool.payloadStr d.payload) = some name ∧
      fs.resolve (parentPath p) name = some q ∧ q ∈ s.keys

/-- A source declares a file module of the name inside an inline module. -/
def DeclaresInside (source name : Bytes) : Prop :=
  ∃ report i d, reportSource source .new = .ok report ∧
    Below report.result.pool report.result.root i ∧
    i ∉ report.result.pool.childrenOf report.result.root ∧
    report.result.pool.get? i = some d ∧ d.kind = .ModDeclFile ∧
    report.interner.get? d.payload = some name

/-- What a file that is reached declares inside inline modules is reached as well. -/
def InsideReached (fs : FileMap) (root : Path) : Prop :=
  ∀ p source name, Reaches (dependencies fs) root p → fs.read p = some source →
    DeclaresInside source name →
    ∃ q, fs.resolve (parentPath p) name = some q ∧ Reaches (dependencies fs) root q

/-! ### One file of a pack -/

theorem SameModules.below {report report' : FileReport} (h : SameModules report report')
    (i : NodeIndex) : Below report'.result.pool report'.result.root i ↔
      Below report.result.pool report.result.root i := by
  unfold Below
  simp only [h.root, h.children]

/-- A file module of a stored tree is one of the declarations of the file, or is inside one. -/
theorem ParsedFrom.module {result : ParseResult} {strings : StringInterner}
    (h : ParsedFrom fs strings (p, result)) (hroom : Room strings) {i : NodeIndex} {d : NodeData}
    (hi : Below result.pool result.root i) (hd : result.pool.get? i = some d)
    (hkind : d.kind = .ModDeclFile) :
    ∃ source name, fs.read p = some source ∧
      strings.get? (NodePool.payloadStr d.payload) = some name ∧
      (name ∈ declaredModules source ∨ DeclaresInside source name) := by
  obtain ⟨source, old, report, hread, hnull, hreport, rfl, hknows⟩ := h
  obtain ⟨report', hreport', hsame⟩ := reportSource_sameModules hnull hreport hasNull_new
  obtain ⟨d', hd', hkind', hnames⟩ := hsame.nodes i d hd
  obtain ⟨name, hname, hname'⟩ := hnames hkind
  refine ⟨source, name, hread, get?_payloadStr hname hknows hroom, ?_⟩
  by_cases hchild : i ∈ report.result.pool.childrenOf report.result.root
  · refine Or.inl ?_
    rw [declaredModules_eq hnull hreport]
    exact List.mem_filterMap.mpr ⟨i, hchild, by simp [hd, hkind, hname]⟩
  · refine Or.inr ⟨report', i, d', hreport', (hsame.below i).mpr hi, ?_, hd',
      hkind'.trans hkind, hname'⟩
    rw [hsame.root, hsame.children]
    exact hchild

/-- What a source declares inside an inline module is a node of the tree that is stored. -/
theorem ParsedFrom.inside {result : ParseResult} {strings : StringInterner}
    (h : ParsedFrom fs strings (p, result)) (hroom : Room strings)
    (hread : fs.read p = some source) (hdecl : DeclaresInside source name) :
    ∃ i d, Below result.pool result.root i ∧ result.pool.get? i = some d ∧
      d.kind = .ModDeclFile ∧ strings.get? (NodePool.payloadStr d.payload) = some name := by
  obtain ⟨source', old, report, hread', hnull, hreport, rfl, hknows⟩ := h
  obtain rfl : source' = source := Option.some.inj (hread'.symm.trans hread)
  obtain ⟨report', i, d', hreport', hi, -, hd', hkind, hname⟩ := hdecl
  obtain ⟨report'', hreport'', hsame⟩ := reportSource_sameModules hasNull_new hreport' hnull
  obtain rfl : report = report'' := Except.ok.inj (hreport.symm.trans hreport'')
  obtain ⟨d, hd, hkind', hnames⟩ := hsame.nodes i d' hd'
  obtain ⟨name', hname', hname''⟩ := hnames hkind
  obtain rfl : name' = name := Option.some.inj (hname'.symm.trans hname)
  exact ⟨i, d, (hsame.below i).mpr hi, hd, hkind'.trans hkind, get?_payloadStr hname'' hknows hroom⟩

theorem mem_dependencies (hread : fs.read p = some source) (hname : name ∈ declaredModules source)
    {ds : List (Option Path)} (hds : dependencies fs p = some ds) :
    fs.resolve (parentPath p) name ∈ ds := by
  unfold dependencies at hds
  rw [hread] at hds
  cases hds
  exact List.mem_map_of_mem hname

/-! ### The pack -/

/-- What is known of a pack when the driver returns 0. -/
structure Packed (fs : FileMap) (root : Path) (s : DriverState) : Prop where
  room : Room s.strings
  complete : Complete (dependencies fs) s.keys
  keys : ∀ p, p ∈ s.keys ↔ Reaches (dependencies fs) root p
  results : ∀ e ∈ s.session.results, ParsedFrom fs s.strings e

theorem Came.packed (h : Came fs [some root] .start 0 s)
    (hlen : s.session.interner.strings.length ≤ 2 ^ 30) : Packed fs root s := by
  have hroom : Room s.strings := room_of_length hlen
  have hout := h.outcome hroom (searched_start fs) fun b hb => absurd hb List.not_mem_nil
  exact ⟨hroom, hout.closed.complete hout.sound, hout.reached,
    fun e he => (h.kept.results e he).resolve_left List.not_mem_nil⟩

theorem Packed.modules_iff (h : Packed fs root s) :
    ModulesStored fs s ↔ InsideReached fs root := by
  refine ⟨fun hstored => ?_, fun hinside => ?_⟩
  · intro p source name hreach hread hdecl
    obtain ⟨⟨p', result⟩, hmem, rfl⟩ := List.mem_map.mp ((h.keys p).mpr hreach)
    obtain ⟨i, d, hi, hd, hkind, hname⟩ := (h.results _ hmem).inside h.room hread hdecl
    obtain ⟨name', q, hname', hres, hq⟩ := hstored p' result hmem i d hi hd hkind
    obtain rfl : name' = name := Option.some.inj (hname'.symm.trans hname)
    exact ⟨q, hres, (h.keys q).mp hq⟩
  · intro p result hmem i d hi hd hkind
    obtain ⟨source, name, hread, hname, hdecl⟩ := (h.results _ hmem).module h.room hi hd hkind
    have hp : p ∈ s.keys := List.mem_map_of_mem (f := Prod.fst) hmem
    rcases hdecl with hdecl | hdecl
    · obtain ⟨ds, hds, hall⟩ := h.complete p hp
      obtain ⟨q, hq, hres⟩ := hall _ (mem_dependencies hread hdecl hds)
      exact ⟨name, q, hname, hres, hq⟩
    · obtain ⟨q, hres, hreach⟩ := hinside p source name ((h.keys p).mp hp) hread hdecl
      exact ⟨name, q, hname, hres, (h.keys q).mpr hreach⟩

/-- The pack has all its modules exactly if what its files declare inside inline modules is reached
by other declarations. -/
theorem modules_stored_iff (hn : fs.length < n) (hrun : compilePack fs n root = .ok (rc, s))
    (hlen : s.session.interner.strings.length ≤ 2 ^ 30) :
    (rc = 0 → ModulesStored fs s) ↔ (Sound (dependencies fs) root → InsideReached fs root) := by
  have hcame := (parseFile_spec fs n root .start (ready_start fs) hn).of_eq hrun
  have hout := hcame.outcome (room_of_length hlen) (searched_start fs)
    fun b hb => absurd hb List.not_mem_nil
  refine ⟨fun h hsound => ?_, fun h hrc => ?_⟩
  · have hrc := hout.sound_iff.mpr hsound
    subst hrc
    exact (hcame.packed hlen).modules_iff.mp (h rfl)
  · subst hrc
    exact (hcame.packed hlen).modules_iff.mpr (h (hout.sound_iff.mp rfl))

/-- Its module is in no file. -/
def insideOnly : FileMap := [(ascii "r.et", ascii "mod a { mod b; }")]

theorem insideOnly_run : ∃ s, compilePack insideOnly 2 (ascii "r.et") = .ok (0, s) ∧
    s.session.interner.strings.length ≤ 2 ^ 30 ∧
    ∃ result d, (ascii "r.et", result) ∈ s.session.results ∧
      Below result.pool result.root (some 1) ∧ result.pool.get? (some 1) = some d ∧
      d.kind = .ModDeclFile ∧
      s.session.interner.get? (NodePool.payloadStr d.payload) = some (ascii "b") := by
  have hfacts : (compilePack insideOnly 2 (ascii "r.et")).toOption.any (fun r =>
      decide (r.1 = 0 ∧ r.2.session.interner.strings.length ≤ 2 ^ 30) &&
      r.2.session.results.any fun e => decide (e.1 = ascii "r.et" ∧ e.2.root = some 3 ∧
        some 2 ∈ e.2.pool.childrenOf (some 3) ∧ some 1 ∈ e.2.pool.childrenOf (some 2)) &&
      (e.2.pool.get? (some 1)).any fun d => decide (d.kind = .ModDeclFile ∧
        r.2.session.interner.get? (NodePool.payloadStr d.payload) = some (ascii "b"))) = true := by
    decide +kernel
  obtain ⟨⟨rc, s⟩, hrun, hfacts⟩ := (Option.any_eq_true _ _).mp hfacts
  have hrun : compilePack insideOnly 2 (ascii "r.et") = .ok (rc, s) := by
    cases h : compilePack insideOnly 2 (ascii "r.et") with
    | error e =>
      rw [h] at hrun
      cases hrun
    | ok r =>
      rw [h] at hrun
      cases hrun
      rfl
  obtain ⟨hrc, htree⟩ := Bool.and_eq_true_iff.mp hfacts
  obtain ⟨rfl, hlen⟩ := of_decide_eq_true hrc
  obtain ⟨⟨p, result⟩, hmem, htree⟩ := List.any_eq_true.mp htree
  obtain ⟨hplace, hnode⟩ := Bool.and_eq_true_iff.mp htree
  obtain ⟨rfl, hroot, hmod, hinner⟩ := of_decide_eq_true hplace
  obtain ⟨d, hd, hnode⟩ := (Option.any_eq_true _ _).mp hnode
  obtain ⟨hkind, hname⟩ := of_decide_eq_true hnode
  refine ⟨s, hrun, hlen, result, d, hmem, ?_, hd, hkind, hname⟩
  have hroot : result.root = some 3 := hroot
  rw [hroot]
  exact .tail (.single hmod) hinner

theorem insideOnly_not_stored : ¬ ∀ (fs : FileMap) (root : Path) (n rc : ℕ) (s : DriverState),
    fs.length < n → compilePack fs n root = .ok (rc, s) → rc = 0 → ModulesStored fs s := by
  intro h
  obtain ⟨s, hrun, -, result, d, hmem, hbelow, hd, hkind, hname⟩ := insideOnly_run
  obtain ⟨name, q, hname', hres, -⟩ := h insideOnly (ascii "r.et") 2 0 s (by decide) hrun rfl
    (ascii "r.et") result hmem (some 1) d hbelow hd hkind
  obtain rfl : ascii "b" = name := Option.some.inj (hname.symm.trans hname')
  have hnone : insideOnly.resolve (parentPath (ascii "r.et")) (ascii "b") = none := by decide
  rw [hnone] at hres
  cases hres

theorem modules_stored_iff_insideOnly :
    ¬ (Sound (dependencies insideOnly) (ascii "r.et") →
      InsideReached insideOnly (ascii "r.et")) := by
  intro hcond
  obtain ⟨s, hrun, hlen, result, d, hmem, hbelow, hd, hkind, hname⟩ := insideOnly_run
  have hstored := (modules_stored_iff (by decide) hrun hlen).mpr hcond rfl
  obtain ⟨name, q, hname', hres, -⟩ := hstored _ result hmem (some 1) d hbelow hd hkind
  obtain rfl : ascii "b" = name := Option.some.inj (hname.symm.trans hname')
  have hnone : insideOnly.resolve (parentPath (ascii "r.et")) (ascii "b") = none := by decide
  rw [hnone] at hres
  cases hres

end Eter.Driver
