import Eter.Discovery
import Eter.DeclarationWalks
import Eter.LayoutIndependence
import Eter.TreeShape

/-!
# Which modules a file declares

The names of the modules that a file declares do not depend on what is interned when it is parsed,
as long as identifiers fit the 30 bits that the driver reads.
-/

namespace Eter.Driver
open Eter.Parser Stateful Layout

variable {source : Bytes} {strings : StringInterner} {report : FileReport}

/-- The session's empty name. -/
def HasNull (strings : StringInterner) : Prop := strings.get? 0 = some []

/-- All identifiers fit the bits for a name. -/
def Room (strings : StringInterner) : Prop := ∀ id text, strings.get? id = some text → id < 2 ^ 30

theorem room_of_length (h : strings.strings.length ≤ 2 ^ 30) : Room strings := by
  intro id text hid
  exact (List.getElem?_eq_some_iff.mp hid).1.trans_le h

/-- What the one interner knows the other one knows. -/
def Knows (strings strings' : StringInterner) : Prop :=
  ∀ id text, strings.get? id = some text → strings'.get? id = some text

theorem Knows.refl (strings : StringInterner) : Knows strings strings := fun _ _ hid => hid

theorem Knows.trans {strings strings' strings'' : StringInterner} (h : Knows strings strings')
    (h' : Knows strings' strings'') : Knows strings strings'' :=
  fun id text hid => h' id text (h id text hid)

theorem Knows.room {strings' : StringInterner} (h : Knows strings strings') (hroom : Room strings') :
    Room strings := fun id text hid => hroom id text (h id text hid)

/-- What the driver reads as the name of a module is its name. -/
theorem get?_payloadStr {strings' : StringInterner} {id : InternedStr} {name : Bytes}
    (hid : strings.get? id = some name) (hknows : Knows strings strings') (hroom : Room strings') :
    strings'.get? (NodePool.payloadStr id) = some name := by
  have hid' := hknows _ _ hid
  have hsmall : NodePool.payloadStr id = id := Nat.mod_eq_of_lt (hroom _ _ hid')
  rw [hsmall, hid']

/-- The report is that of a run of the parser. -/
theorem reportSource_parse (source : Bytes) (strings : StringInterner) :
    ∃ report s, reportSource source strings = .ok report ∧
      parse (enough (TokenStream.tokensOf (Lexer.lexAll source)))
        (.fresh (TokenStream.tokensOf (Lexer.lexAll source))
          (TokenStream.errorsOf (Lexer.lexAll source)) source) strings =
          .ok (report.result, s) ∧ report.interner = s.interner := by
  obtain ⟨r, s, hp, -⟩ := parse_spec .acceptance
    (TokenStream.errorsOf (Lexer.lexAll source)) source strings
    (le_refl (enough (TokenStream.tokensOf (Lexer.lexAll source))))
  have hp' : parse (enough (TokenStream.ofItems (Lexer.lexAll source) source).tokens)
      (.ofItems (Lexer.lexAll source) source) strings = .ok (r, s) := hp
  refine ⟨⟨r, s.interner, emitParserErrors r.errors (emitLexErrors (movedFrom
    (.ofItems (Lexer.lexAll source) source)) .new)⟩, s, ?_, hp, rfl⟩
  simp only [reportSource, hp']

theorem reportSource_knows (h : reportSource source strings = .ok report) :
    Knows strings report.interner := by
  obtain ⟨report', s, hreport, hp, hs⟩ := reportSource_parse source strings
  rw [h] at hreport
  cases hreport
  intro id text hid
  rw [hs]
  exact parse_names hp hid

/-- A declaration of a source file is a node. -/
theorem reportSource_children (h : reportSource source strings = .ok report) :
    ∀ c ∈ report.result.pool.childrenOf report.result.root,
      ∃ d, report.result.pool.get? c = some d := by
  obtain ⟨report', s', hreport, hp', hs'⟩ := reportSource_parse source strings
  rw [h] at hreport
  cases hreport
  obtain ⟨r, s, hp, -, hpool, -, -, hholds⟩ := parse_spec .acceptance
    (TokenStream.errorsOf (Lexer.lexAll source)) source strings
    (le_refl (enough (TokenStream.tokensOf (Lexer.lexAll source))))
  rw [hp'] at hp
  cases hp
  obtain ⟨rs, hrs, hgrown⟩ := hholds.tree
  have hroot := hgrown.held _ (List.mem_singleton_self _)
  intro c hc
  cases hr : report.result.root with
  | none =>
    rw [hr] at hroot
    cases hroot
  | some i =>
    rw [hr] at hroot hc
    obtain ⟨rec, hrec, hadmits⟩ := hroot
    have hkind : rec.kind = .SourceFile := by
      simp only [Cat.admits, Bool.and_eq_true] at hadmits
      simpa [Cat.kinds] using hadmits.1
    rw [hpool, hrs] at hc ⊢
    rw [childrenOf_of_record hrec] at hc
    have hfits := hgrown.layouts rec (List.mem_of_getElem? hrec)
    rw [hkind] at hfits
    obtain ⟨cat, hcat, hpiece⟩ := hfits.exists_of_mem (List.mem_of_mem_take hc)
    cases c with
    | none =>
      have hnull : cat.nullable = true := hcat
      have hcat : cat = .fileDoc ∨ cat = .decl := by simpa [layoutOf] using hpiece
      rcases hcat with rfl | rfl <;> cases hnull
    | some j =>
      obtain ⟨child, hchild, -⟩ := hcat
      exact ⟨_, get?_of_record hchild⟩

/-- Two runs over one source, whatever is interned at first. -/
theorem sameSource (source : Bytes) : SameTokens (TokenStream.tokensOf (Lexer.lexAll source))
    (TokenStream.tokensOf (Lexer.lexAll source)) source source :=
  List.forall₂_same.mpr fun _ _ => ⟨rfl, rfl⟩

/-- A source gives the same tree with the same names of modules whatever is interned at first. -/
structure SameModules (report report' : FileReport) : Prop where
  root : report'.result.root = report.result.root
  children : ∀ i, report'.result.pool.childrenOf i = report.result.pool.childrenOf i
  nodes : ∀ i d, report.result.pool.get? i = some d →
    ∃ d', report'.result.pool.get? i = some d' ∧ d'.kind = d.kind ∧ (d.kind = .ModDeclFile →
      ∃ name, report.interner.get? d.payload = some name ∧
        report'.interner.get? d'.payload = some name)

theorem reportSource_sameModules (hnull : HasNull strings)
    (h : reportSource source strings = .ok report) {strings' : StringInterner}
    (hnull' : HasNull strings') :
    ∃ report', reportSource source strings' = .ok report' ∧ SameModules report report' := by
  obtain ⟨_, s, hreport, hp, hs⟩ := reportSource_parse source strings
  rw [h] at hreport
  cases hreport
  obtain ⟨report', s', hreport', hp', hs'⟩ := reportSource_parse source strings'
  obtain ⟨r', t', hpt, hroot, halike, hpool, hpool', herrors, herrors'⟩ :=
    parse_twins (w := (sameSource source).twin) rfl rfl rfl
      (TokenStream.errorsOf (Lexer.lexAll source)) strings' hp
  rw [hp'] at hpt
  cases hpt
  have hsame := sameResult_of_alike (w := (sameSource source).twin) rfl rfl hroot halike hpool
    hpool' herrors herrors'
  refine ⟨report', hreport', hsame.root, hsame.children, fun i d hd => ?_⟩
  obtain ⟨d', hd', hnode⟩ := hsame.nodes i d hd
  refine ⟨d', hd', hnode.kind, fun hkind => ?_⟩
  have hpayload := hnode.payload
  unfold PayloadAlike at hpayload
  rw [hkind] at hpayload
  rw [hs, hs']
  rcases hpayload with ⟨hz, hz'⟩ | ⟨x, y, hx, hy, htext⟩
  · exact ⟨[], by rw [hz]; exact parse_names hp hnull, by rw [hz']; exact parse_names hp' hnull'⟩
  · obtain rfl : x = y := TextAlike.eq htext
    exact ⟨x, hx, hy⟩

theorem moduleNames_eq {report' : FileReport} (h : SameModules report report')
    {nodes : List NodeIndex}
    (hnodes : ∀ c ∈ nodes, ∃ d, report.result.pool.get? c = some d) :
    moduleNames report'.result.pool report'.interner nodes =
      moduleNames report.result.pool report.interner nodes := by
  unfold moduleNames
  refine List.filterMap_congr fun c hc => ?_
  obtain ⟨d, hd⟩ := hnodes c hc
  obtain ⟨d', hd', hkind, hname⟩ := h.nodes c d hd
  simp only [hd, hd', Option.bind_some, hkind]
  split
  · next hmod =>
    obtain ⟨name, hn, hn'⟩ := hname hmod
    rw [hn, hn']
  · rfl

theorem hasNull_new : HasNull .new := rfl

/-- The modules that a run finds are those that the file declares. -/
theorem declaredModules_eq (hnull : HasNull strings)
    (h : reportSource source strings = .ok report) :
    declaredModules source = moduleNames report.result.pool report.interner
      (report.result.pool.childrenOf report.result.root) := by
  obtain ⟨report', h', hsame⟩ := reportSource_sameModules hnull h hasNull_new
  unfold declaredModules
  rw [h']
  simp only [hsame.root, hsame.children]
  exact moduleNames_eq hsame (reportSource_children h)

/-- A file module has a name. -/
theorem module_named (hnull : HasNull strings) (h : reportSource source strings = .ok report)
    {c : NodeIndex} {d : NodeData} (hd : report.result.pool.get? c = some d)
    (hkind : d.kind = .ModDeclFile) : ∃ name, report.interner.get? d.payload = some name := by
  obtain ⟨report', h', hsame⟩ := reportSource_sameModules hnull h hasNull_new
  obtain ⟨d', -, -, hname⟩ := hsame.nodes c d hd
  obtain ⟨name, hn, -⟩ := hname hkind
  exact ⟨name, hn⟩

end Eter.Driver
