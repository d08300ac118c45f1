import Eter.DiscoveryRuns
import Eter.Interning
import Eter.SyntaxTrees

/-!
# Names and trees across a pack

All files of a pack are parsed with one interner. What is in it when a file is parsed makes no
difference to the tree of the file, and afterwards identifiers are equal as their texts are.
-/

namespace Eter.Driver
open Eter.Parser Stateful Layout

variable {fs : FileMap} {n rc : ℕ} {p q root : Path} {s s' : DriverState} {source : Bytes}
  {strings : StringInterner} {report : FileReport} {α β : Type}

/-! ### The interner stays canonical -/

theorem canonical_grow :
    StepsGrow fun s t : PState => s.interner.Canonical → t.interner.Canonical where
  refl _ h := h
  trans h h' hs := h' (h hs)
  advance _ h := h
  intern _ text h := h.intern text
  alloc _ _ _ _ _ _ h := h
  report _ _ h := h
  countStray _ _ h := h
  slip _ _ h := h
  lit _ _ _ h := h

theorem reportSource_canonical (h : reportSource source strings = .ok report)
    (hc : strings.Canonical) : report.interner.Canonical := by
  obtain ⟨report', s, hreport, hp, hs⟩ := reportSource_parse source strings
  rw [h] at hreport
  cases hreport
  rw [hs]
  unfold parse at hp
  split at hp
  · next root s' hrun =>
    obtain ⟨-, rfl⟩ := Prod.mk.inj (Except.ok.inj hp)
    exact canonical_grow.declWalk.parseSourceFile _ _ _ _ hrun hc
  · cases hp

/-- The computation leaves a canonical interner where it found one. -/
def Tidies (m : DriverM α) : Prop :=
  ∀ s a s', m s = .ok (a, s') → s.strings.Canonical → s'.strings.Canonical

theorem Tidies.of_strings {m : DriverM α} (h : ∀ s a s', m s = .ok (a, s') → s'.strings = s.strings) :
    Tidies m := fun s a s' hm hs => by rwa [h s a s' hm]

theorem Tidies.pure (a : α) : Tidies (pure a : DriverM α) :=
  .of_strings fun s a' s' hm => by cases hm; rfl

theorem Tidies.bind {m : DriverM α} {f : α → DriverM β} (hm : Tidies m) (hf : ∀ a, Tidies (f a)) :
    Tidies (m >>= f) := by
  intro s b s'' hb hs
  obtain ⟨a, s', ha, hb⟩ := of_bind_ok hb
  exact hf a s' b s'' hb (hm s a s' ha hs)

theorem tidies_parseSource (q : Path) (source : Bytes) : Tidies (parseSource q source) := by
  intro s a s' hm hs
  unfold parseSource at hm
  cases hreport : reportSource source s.session.interner with
  | error stuck =>
    rw [hreport] at hm
    cases hm
  | ok report =>
    rw [hreport] at hm
    cases hm
    exact reportSource_canonical hreport hs

theorem tidies_getName (id : InternedStr) : Tidies (getName id) := by
  refine .of_strings fun s a s' hm => ?_
  unfold getName at hm
  split at hm
  · cases hm
    rfl
  · cases hm

theorem tidies_storeIf (rc : ℕ) (q : Path) (result : ParseResult) : Tidies (storeIf rc q result) := by
  refine .of_strings fun s a s' hm => ?_
  unfold storeIf storeResult at hm
  split at hm
  · cases hm
    dsimp only
    split <;> rfl
  · cases hm
    rfl

theorem tidies_visitChildren {rec : Path → DriverM ℕ} (hrec : ∀ q, Tidies (rec q)) (dir : Path)
    (pool : NodePool) (nodes : List NodeIndex) : Tidies (visitChildren fs rec dir pool nodes) := by
  induction nodes with
  | nil => exact .pure 0
  | cons child rest ih =>
    unfold visitChildren
    split
    · exact fun s a s' hm => nomatch hm
    · split_ifs
      · exact ih
      · refine (tidies_getName _).bind fun name => ?_
        split
        · exact .pure 1
        · refine (hrec _).bind fun rc => ?_
          split_ifs
          · exact .pure rc
          · exact ih

theorem Tidies.returning {m : DriverM ℕ} (hm : Tidies m) : Tidies (returning m) := by
  intro s rc s' hrc hs
  unfold Driver.returning at hrc
  cases hms : m s with
  | error stuck =>
    rw [hms] at hrc
    cases hrc
  | ok r =>
    rw [hms] at hrc
    obtain ⟨rc', t⟩ := r
    obtain ⟨-, rfl⟩ := Prod.mk.inj (Except.ok.inj hrc)
    exact hm s rc' t hms hs

theorem tidies_parseOpened {rec : Path → DriverM ℕ} (hrec : ∀ q, Tidies (rec q)) (q : Path)
    (source : Bytes) : Tidies (parseOpened fs rec q source) := by
  unfold parseOpened
  refine (tidies_parseSource q source).bind fun result => ?_
  refine (Tidies.of_strings fun s a s' hm => by cases hm; rfl : Tidies (enter q)).bind fun _ => ?_
  refine (tidies_visitChildren hrec _ _ _).bind fun rc => ?_
  refine (tidies_storeIf rc q result).bind fun _ => ?_
  exact (Tidies.of_strings fun s a s' hm => by cases hm; rfl : Tidies (leave q)).bind fun _ => .pure rc

theorem tidies_parseFile (fs : FileMap) (n : ℕ) (q : Path) : Tidies (parseFile fs n q) := by
  induction n generalizing q with
  | zero => exact fun s a s' hm => nomatch hm
  | succ n ih =>
    unfold parseFile
    refine Tidies.returning ?_
    refine (Tidies.of_strings fun s a s' hm => by cases hm; rfl : Tidies (hasResult q)).bind
      fun known => ?_
    split_ifs
    · exact .pure 0
    refine (Tidies.of_strings fun s a s' hm => by cases hm; rfl : Tidies (isInProgress q)).bind
      fun busy => ?_
    split_ifs
    · exact .pure 1
    split
    · exact .pure 1
    · exact tidies_parseOpened ih q _

/-! ### Trees -/

/-- A node of the pool stands for the tree. -/
def Stands (pool : NodePool) (strings : StringInterner) (i : NodeIndex) (tr : SyntaxTree) : Prop :=
  PState.Denotes { initialState (.fresh [] [] []) strings with pool := pool } i tr

theorem stands_of_denotes {t : PState} {i : NodeIndex} {tr : SyntaxTree} (h : t.Denotes i tr)
    (hknows : Knows t.interner strings) : Stands t.pool strings i tr :=
  h.later (t := { initialState (.fresh [] [] []) strings with pool := t.pool })
    (fun _ _ hd => ⟨hd, rfl⟩) fun id text hid => hknows id text hid

/-- Whatever is interned at first, the tree of a source is the same. -/
theorem reportSource_sameTree (h : reportSource source strings = .ok report)
    (strings' : StringInterner) :
    ∃ report' tr, reportSource source strings' = .ok report' ∧
      report'.result.errors.map (·.localID) = report.result.errors.map (·.localID) ∧
      (∀ later, Knows report.interner later → Stands report.result.pool later report.result.root tr) ∧
      Stands report'.result.pool report'.interner report'.result.root tr := by
  obtain ⟨_, s, hreport, hp, hs⟩ := reportSource_parse source strings
  rw [h] at hreport
  cases hreport
  obtain ⟨report', s', hreport', hp', hs'⟩ := reportSource_parse source strings'
  obtain ⟨r', t', hpt, hroot, halike, hpool, hpool', herrors, herrors'⟩ :=
    parse_twins (w := (sameSource source).twin) rfl rfl rfl
      (TokenStream.errorsOf (Lexer.lexAll source)) strings' hp
  rw [hp'] at hpt
  cases hpt
  have hsame := sameResult_of_alike (w := (sameSource source).twin) rfl rfl hroot halike hpool
    hpool' herrors herrors'
  obtain ⟨r, t, hpr, -, -, -, -, hholds⟩ := parse_spec .acceptance
    (TokenStream.errorsOf (Lexer.lexAll source)) source strings
    (le_refl (enough (TokenStream.tokensOf (Lexer.lexAll source))))
  rw [hp] at hpr
  cases hpr
  obtain ⟨rs, hrs, hgrown⟩ := hholds.tree
  have hvalid : s.Valid := ⟨by rw [hholds.tokens]; exact hholds.inside, rs, _, hrs, hgrown⟩
  have hhas : s.Has report.result.root := by
    have hheld := hgrown.held _ (List.mem_singleton_self _)
    cases hr : report.result.root with
    | none =>
      rw [hr] at hheld
      cases hheld
    | some k =>
      rw [hr] at hheld
      obtain ⟨rec, hrec, -⟩ := hheld
      exact ⟨_, by rw [hrs, spanOf?_of_record hrec]⟩
  have hexact : (sameSource source).twin.Exact := fun _ _ _ => rfl
  obtain ⟨tr, htr, htr'⟩ := halike.denotes hexact hvalid hhas hroot
  refine ⟨report', tr, hreport', hsame.errors, fun later hknows => ?_, ?_⟩
  · rw [hpool]
    exact stands_of_denotes htr (hs ▸ hknows)
  · rw [hpool', hs']
    exact stands_of_denotes htr' (Knows.refl _)

/-! ### The pack -/

/-- The text of a node's name, read as the driver reads it. -/
def nameOf (strings : StringInterner) (d : NodeData) : Option Bytes :=
  strings.get? (NodePool.payloadStr d.payload)

/-- Each file of the pack has the tree, and the kinds of diagnostics, that it has alone, and names
are the same exactly if their identifiers are. -/
structure Shared (fs : FileMap) (s : DriverState) : Prop where
  alone : ∀ q result, (q, result) ∈ s.session.results → ∃ source report tr,
    fs.read q = some source ∧ reportSource source .new = .ok report ∧
    report.result.errors.map (·.localID) = result.errors.map (·.localID) ∧
    Stands report.result.pool report.interner report.result.root tr ∧
    Stands result.pool s.strings result.root tr
  names : ∀ e ∈ s.session.results, ∀ e' ∈ s.session.results, ∀ i i' d d' name name',
    e.2.pool.get? i = some d → e'.2.pool.get? i' = some d' → nameOf s.strings d = some name →
    nameOf s.strings d' = some name' → name ≠ [] →
    (NodePool.payloadStr d.payload = NodePool.payloadStr d'.payload ↔ name = name')

theorem id_pos {id : InternedStr} {name : Bytes} (hnull : HasNull strings)
    (hid : strings.get? id = some name) (hne : name ≠ []) : 1 ≤ id := by
  rcases Nat.eq_zero_or_pos id with rfl | hpos
  · rw [hnull] at hid
    exact absurd (Option.some.inj hid).symm hne
  · exact hpos

theorem pack_shared (hn : fs.length < n) (hrun : compilePack fs n root = .ok (rc, s)) :
    Shared fs s := by
  have hkept := ((parseFile_spec fs n root .start (ready_start fs) hn).of_eq hrun).kept
  have hcanonical : s.strings.Canonical :=
    tidies_parseFile fs n root .start rc s hrun StringInterner.Canonical.new
  have hnull : HasNull s.strings := hkept.knows _ _ rfl
  refine ⟨fun q result hmem => ?_, fun e _ e' _ i i' d d' name name' _ _ hname hname' hne => ?_⟩
  · obtain ⟨source, old, report, hread, -, hreport, rfl, hknows⟩ :=
      (hkept.results _ hmem).resolve_left List.not_mem_nil
    obtain ⟨report', tr, hreport', herrors, htr, htr'⟩ := reportSource_sameTree hreport .new
    exact ⟨source, report', tr, hread, hreport', herrors, htr', htr _ hknows⟩
  · constructor
    · intro hid
      have hsame : nameOf s.strings d = nameOf s.strings d' := congrArg s.strings.get? hid
      rw [hname, hname'] at hsame
      exact Option.some.inj hsame
    · rintro rfl
      exact hcanonical.id_unique (id_pos hnull hname hne) (id_pos hnull hname' hne) hname hname'

/-- Both files are found. -/
theorem twoFiles_compiled : ∃ s, compilePack twoFiles 3 (ascii "r.et") = .ok (0, s) ∧
    s.keys = [ascii "a.et", ascii "r.et"] := by
  have hfacts : (compilePack twoFiles 3 (ascii "r.et")).toOption.any (fun r =>
      decide (r.1 = 0 ∧ r.2.keys = [ascii "a.et", ascii "r.et"])) = true := by
    decide +kernel
  obtain ⟨⟨rc, s⟩, hrun, hfacts⟩ := (Option.any_eq_true _ _).mp hfacts
  have hrun : compilePack twoFiles 3 (ascii "r.et") = .ok (rc, s) := by
    cases h : compilePack twoFiles 3 (ascii "r.et") with
    | error e =>
      rw [h] at hrun
      cases hrun
    | ok r =>
      rw [h] at hrun
      cases hrun
      rfl
  obtain ⟨rfl, hkeys⟩ := of_decide_eq_true hfacts
  exact ⟨s, hrun, hkeys⟩

theorem pack_shared_two : ∃ s, compilePack twoFiles 3 (ascii "r.et") = .ok (0, s) ∧
    s.keys = [ascii "a.et", ascii "r.et"] ∧ Shared twoFiles s := by
  obtain ⟨s, hrun, hkeys⟩ := twoFiles_compiled
  exact ⟨s, hrun, hkeys, pack_shared (n := 3) (by decide) hrun⟩

end Eter.Driver
