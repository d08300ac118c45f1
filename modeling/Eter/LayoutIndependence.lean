import Eter.TwinRuns
import Eter.Acceptance

/-!
# Layout does not matter to the parser

Two sources with the same token kinds and token texts give the same tree and the same diagnostics.
Only a name that is written over several tokens is a slice of its source, with the layout in it.
-/

namespace Eter.Parser
open Stateful Diag

variable {tokens tokens' : List Token} {source source' : Bytes}

/-- The same kinds and texts, token by token. -/
def SameTokens (tokens tokens' : List Token) (source source' : Bytes) : Prop :=
  List.Forall₂ (fun t t' => t'.tokenKind = t.tokenKind ∧
    Eter.textOf source' t'.tokenSpan = Eter.textOf source t.tokenSpan) tokens tokens'

theorem SameTokens.tokenAt (h : SameTokens tokens tokens' source source') (i : ℕ) :
    ((Side.start tokens' source').tokenAt i).tokenKind =
        ((Side.start tokens source).tokenAt i).tokenKind ∧
      Eter.textOf source' ((Side.start tokens' source').tokenAt i).tokenSpan =
        Eter.textOf source ((Side.start tokens source).tokenAt i).tokenSpan := by
  cases ht : tokens[i]? with
  | some t =>
    obtain ⟨t', ht', hsame⟩ := forall₂_getElem? h ht
    rw [Side.tokenAt_of_getElem? (x := .start tokens source) ht,
      Side.tokenAt_of_getElem? (x := .start tokens' source') ht']
    exact hsame
  | none =>
    have hlen := List.getElem?_eq_none_iff.mp ht
    have hlen' : tokens'.length ≤ i := h.length_eq ▸ hlen
    rw [Side.tokenAt_of_length_le (x := .start tokens source) hlen,
      Side.tokenAt_of_length_le (x := .start tokens' source') hlen', textOf_empty, textOf_empty]
    exact ⟨rfl, rfl⟩

/-- The two runs, side by side from the beginning. -/
def SameTokens.twin (h : SameTokens tokens tokens' source source') : Twin where
  left := .start tokens source
  right := .start tokens' source'
  shift := 0
  length := h.length_eq.symm
  kind i := (h.tokenAt i).1
  text i := (h.tokenAt i).2

/-- Nodes of one kind with the same flags; payloads hold equal counts, operators, and regimes, and
identifiers of equal texts, or of slices over the same tokens where the kind may have a path. -/
structure SameNode (w : Twin) (a b : StringInterner) (d d' : NodeData) : Prop where
  kind : d'.kind = d.kind
  flags : d'.flags = d.flags
  payload : PayloadAlike w a b d.kind d.payload d'.payload

/-- The same tree, node by node, and the same diagnostics in order. -/
structure SameResult (w : Twin) (a b : StringInterner) (r r' : ParseResult) : Prop where
  root : r'.root = r.root
  count : r'.pool.nodes.length = r.pool.nodes.length
  nodes : ∀ i d, r.pool.get? i = some d → ∃ d', r'.pool.get? i = some d' ∧ SameNode w a b d d'
  children : ∀ i, r'.pool.childrenOf i = r.pool.childrenOf i
  errors : r'.errors.map (·.localID) = r.errors.map (·.localID)

/-- With as many nodes to begin with, nodes that are alike have the same index. -/
theorem NodeAlike.eq {w : Twin} (hbase : w.right.records.length = w.left.records.length)
    {x y : NodeIndex} (h : NodeAlike w x y) : y = x := by
  rcases h with ⟨rfl, rfl⟩ | ⟨k, rfl, rfl⟩
  · rfl
  · rw [hbase]

theorem KidsAlike.eq {w : Twin} (hbase : w.right.records.length = w.left.records.length)
    {cs cs' : List NodeIndex} (h : KidsAlike w cs cs') : cs' = cs := by
  induction h with
  | nil => rfl
  | cons hx _ ih => rw [hx.eq hbase, ih]

theorem sameResult_of_alike {w : Twin} (hl : w.left = .start tokens source)
    (hr : w.right = .start tokens' source') {r r' : ParseResult} {s s' : PState}
    (hroot : NodeAlike w r.root r'.root) (h : Alike w .start s s') (hpool : r.pool = s.pool)
    (hpool' : r'.pool = s'.pool) (herrors : r.errors = s.errors) (herrors' : r'.errors = s'.errors) :
    SameResult w s.interner s'.interner r r' := by
  have hbase : w.right.records.length = w.left.records.length := by rw [hl, hr]; rfl
  obtain ⟨rs, rs', hrs, hrs', hrecords⟩ := h.pools
  rw [hl] at hrs
  rw [hr] at hrs'
  have hp : r.pool = poolOf (sentinel :: rs) := hpool.trans hrs
  have hp' : r'.pool = poolOf (sentinel :: rs') := hpool'.trans hrs'
  obtain ⟨es, es', hes, hes', hids, -⟩ := h.errors
  rw [hl] at hes
  rw [hr] at hes'
  -- every record has a counterpart, the sentinel among them
  have hsent : RecordAlike w s.interner s'.interner sentinel sentinel := ⟨rfl, rfl, .nil, rfl⟩
  have hall : List.Forall₂ (RecordAlike w s.interner s'.interner) (sentinel :: rs)
      (sentinel :: rs') := .cons hsent hrecords
  have hkids : ∀ i : NodeIndex, (poolOf (sentinel :: rs')).childrenOf i =
      (poolOf (sentinel :: rs)).childrenOf i := by
    intro i
    cases i with
    | none => rfl
    | some i =>
      cases hx : (sentinel :: rs)[i]? with
      | some x =>
        obtain ⟨x', hx', hxx⟩ := forall₂_getElem? hall hx
        rw [childrenOf_of_record hx, childrenOf_of_record hx', KidsAlike.eq hbase hxx.kids]
      | none =>
        have hx' : (sentinel :: rs')[i]? = none := by
          rw [List.getElem?_eq_none_iff] at hx ⊢
          rwa [← hall.length_eq]
        unfold NodePool.childrenOf
        rw [poolOf_get?, poolOf_get?, hx, hx']
        rfl
  refine ⟨hroot.eq hbase, ?_, ?_, ?_, ?_⟩
  · rw [hp, hp', poolOf_nodes_length, poolOf_nodes_length, hall.length_eq]
  · intro i d hd
    cases i with
    | none => cases hd
    | some i =>
      rw [hp, poolOf_get?] at hd
      obtain ⟨x, hx, rfl⟩ := Option.map_eq_some_iff.mp hd
      obtain ⟨x', hx', hxx⟩ := forall₂_getElem? hall hx
      refine ⟨nodeAt (sentinel :: rs') i x', ?_, ⟨hxx.kind, hxx.flags, hxx.payload⟩⟩
      rw [hp', poolOf_get?, hx']
      rfl
  · rw [hp, hp']
    exact hkids
  · have hids : es'.map (·.localID) = es.map (·.localID) := by
      clear hes hes'
      induction hids with
      | nil => rfl
      | cons hd _ ih =>
        rw [List.map_cons, List.map_cons, ih, hd]
    rw [herrors, herrors', hes, hes']
    exact hids

theorem enough_of_sameTokens (h : SameTokens tokens tokens' source source') :
    enough tokens' = enough tokens := by
  unfold enough
  rw [h.length_eq]

/-- Runs over the same kinds and texts give the same result up to spans and the layout in names. -/
theorem parse_layout (h : SameTokens tokens tokens' source source')
    (lexErrors lexErrors' : List LexerError) :
    ∃ r s r' s', parse (enough tokens) (.fresh tokens lexErrors source) .new = .ok (r, s) ∧
      parse (enough tokens') (.fresh tokens' lexErrors' source') .new = .ok (r', s') ∧
      SameResult h.twin s.interner s'.interner r r' := by
  obtain ⟨r, s, hp, -⟩ := parse_spec .acceptance lexErrors source .new (le_refl (enough tokens))
  obtain ⟨r', s', hp', hroot, halike, hpool, hpool', herrors, herrors'⟩ :=
    parse_twins (w := h.twin) rfl rfl rfl lexErrors' .new hp
  rw [enough_of_sameTokens h]
  exact ⟨r, s, r', s', hp, hp',
    sameResult_of_alike rfl rfl hroot halike hpool hpool' herrors herrors'⟩

/-- `use a::b;` -/
def tightUse : List Token :=
  [⟨.kw_use, ⟨0, 3⟩⟩, ⟨.identifier, ⟨4, 5⟩⟩, ⟨.colon_colon, ⟨5, 7⟩⟩, ⟨.identifier, ⟨7, 8⟩⟩,
    ⟨.semi, ⟨8, 9⟩⟩]

/-- `use a :: b;` -/
def looseUse : List Token :=
  [⟨.kw_use, ⟨0, 3⟩⟩, ⟨.identifier, ⟨4, 5⟩⟩, ⟨.colon_colon, ⟨6, 8⟩⟩, ⟨.identifier, ⟨9, 10⟩⟩,
    ⟨.semi, ⟨10, 11⟩⟩]

theorem sameTokens_use :
    SameTokens tightUse looseUse (ascii "use a::b;") (ascii "use a :: b;") := by
  unfold SameTokens tightUse looseUse
  refine .cons ?_ (.cons ?_ (.cons ?_ (.cons ?_ (.cons ?_ .nil)))) <;>
    exact ⟨rfl, by decide +kernel⟩

theorem parse_layout_use : ∃ r s r' s',
    parse (enough tightUse) (.fresh tightUse [] (ascii "use a::b;")) .new = .ok (r, s) ∧
      parse (enough looseUse) (.fresh looseUse [] (ascii "use a :: b;")) .new = .ok (r', s') ∧
      SameResult sameTokens_use.twin s.interner s'.interner r r' :=
  parse_layout sameTokens_use [] []

/-- The text of the name of the first node. -/
def firstName (p : ParseResult × PState) : Option Bytes :=
  (p.1.pool.get? (some 1)).bind fun d => p.2.interner.get? d.payload

theorem firstName_of_run {m : Except Stuck (ParseResult × PState)} {x : Bytes}
    (h : m.toOption.bind firstName = some x) : ∃ p, m = .ok p ∧ firstName p = some x := by
  cases m with
  | ok p => exact ⟨p, rfl, h⟩
  | error e => cases h

/-- The path keeps the blanks between its tokens. -/
theorem use_name_depends_on_layout :
    SameTokens tightUse looseUse (ascii "use a::b;") (ascii "use a :: b;") ∧
      ∃ p p', parse (enough tightUse) (.fresh tightUse [] (ascii "use a::b;")) .new = .ok p ∧
        parse (enough looseUse) (.fresh looseUse [] (ascii "use a :: b;")) .new = .ok p' ∧
        firstName p = some (ascii "a::b") ∧ firstName p' = some (ascii "a :: b") := by
  have htight : (parse (enough tightUse) (.fresh tightUse [] (ascii "use a::b;"))
      .new).toOption.bind firstName = some (ascii "a::b") := by decide +kernel
  have hloose : (parse (enough looseUse) (.fresh looseUse [] (ascii "use a :: b;"))
      .new).toOption.bind firstName = some (ascii "a :: b") := by decide +kernel
  obtain ⟨p, hp, hname⟩ := firstName_of_run htight
  obtain ⟨p', hp', hname'⟩ := firstName_of_run hloose
  exact ⟨sameTokens_use, p, p', hp, hp', hname, hname'⟩

end Eter.Parser
