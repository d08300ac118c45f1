import Eter.WordingDecls
import Eter.Contracts

/-!
# The payload contract

Every payload is the one that the node's tokens call for, in the encoding that the allocations
follow. The documented encoding differs from it for literals and field expressions, and for five
kinds of nodes of which no payload is documented.
-/

namespace Eter.Parser
open Stateful

variable {n i : ℕ} {tokens : List Token} {source : Bytes} {lexErrors : List LexerError}
  {interner : StringInterner} {r : ParseResult} {s : PState} {d : NodeData} {x : Span}

/-- The payload of a node, the sentinel apart, holds the name, the regime, and the operator of its
tokens. -/
theorem payload_worded (hp : parse n (.fresh tokens lexErrors source) interner = .ok (r, s))
    (hd : r.pool.get? (some i) = some d) : d.kind = .Error ∧ d.payload = 0 ∨
    ∃ x name word, r.pool.spanOf? (some i) = some x ∧
      Spelling (.fresh tokens lexErrors source) r.pool d.kind x (r.pool.givenTo (some i)) name
        word ∧
      (d.kind ≠ .TensorLitExpr → Follows s.interner d.payload name word (encodingOf d.kind)) := by
  obtain ⟨hstands, hpool⟩ := parse_faithful hp
  obtain ⟨rs, hrs, hworded⟩ := hstands.records
  rw [← hpool] at hrs hworded
  have hget := hd
  rw [hrs, poolOf_get?] at hget
  obtain ⟨y, hy, rfl⟩ := Option.map_eq_some_iff.mp hget
  cases i with
  | zero =>
    cases hy
    exact .inl ⟨rfl, rfl⟩
  | succ i =>
    have hspan := spanOf?_of_record hy
    have hgiven := givenTo_of_record hy
    rw [← hrs] at hspan hgiven
    have hy : rs[i]? = some y := hy
    obtain ⟨name, word, hspell, hfollows⟩ := hworded y (List.mem_of_getElem? hy)
    exact .inr ⟨y.span, name, word, hspan, hgiven ▸ hspell, hfollows⟩

/-- The payload is the one that the encoding calls for. -/
def Conforms (st : TokenStream) (pool : NodePool) (strings : StringInterner) (i : ℕ) (d : NodeData)
    (e : Encoding) : Prop :=
  ∃ x name word, pool.spanOf? (some i) = some x ∧
    Spelling st pool d.kind x (pool.givenTo (some i)) name word ∧
    Follows strings d.payload name word e

/-- What the readers of a payload get out of it. -/
theorem Follows.reads {strings : StringInterner} {payload word : ℕ} {name : Option Bytes}
    (hsize : strings.size < 2 ^ 30) (h : Follows strings payload name word .packed) :
    Identifies strings (NodePool.payloadStr payload) name ∧
      NodePool.payloadRegime payload = word := by
  obtain ⟨id, r, hid, rfl, rfl⟩ := h
  rw [NodePool.payloadStr_makePayload, NodePool.payloadRegime_makePayload,
    Nat.mod_eq_of_lt (hid.lt hsize)]
  exact ⟨hid, rfl⟩

/-- Kinds of nodes of which no payload is documented, but which have one. -/
def Undocumented (kind : NodeKind) : Prop :=
  kind = .ModDeclFile ∨ kind = .GenericParam ∨ kind = .DocComment ∨ kind = .FileDocComment ∨
    kind = .TensorLitExpr

/-- Literals and field expressions pack a regime where only a name is documented. -/
theorem conforms_documented_iff {st : TokenStream} {pool : NodePool} {strings : StringInterner}
    (hsize : strings.size < 2 ^ 30) (hdoc : documentedEncoding d.kind ≠ .plain)
    (h : Conforms st pool strings i d (encodingOf d.kind)) :
    Conforms st pool strings i d (documentedEncoding d.kind) ↔
      d.kind ≠ .LitExpr ∧ d.kind ≠ .FieldExpr := by
  by_cases hkind : d.kind = .LitExpr ∨ d.kind = .FieldExpr
  · have hused : encodingOf d.kind = .packedNone := by rcases hkind with hk | hk <;> rw [hk] <;> rfl
    have hname : documentedEncoding d.kind = .name := by
      rcases hkind with hk | hk <;> rw [hk] <;> rfl
    obtain ⟨x, name, word, -, -, hfollows⟩ := h
    rw [hused] at hfollows
    obtain ⟨id, -, hpayload⟩ := hfollows
    constructor
    · rintro ⟨x', name', word', -, -, hfollows'⟩
      rw [hname, hpayload] at hfollows'
      exact (not_identifies_makePayload hsize id hfollows').elim
    · exact fun hne => (hkind.elim hne.1 hne.2).elim
  · push Not at hkind
    have hsame : encodingOf d.kind = documentedEncoding d.kind := by
      revert hdoc hkind
      cases d.kind <;> simp [encodingOf, documentedEncoding]
    exact iff_of_true (hsame ▸ h) hkind

theorem encodingOf_plain {kind : NodeKind} (hdoc : documentedEncoding kind = .plain)
    (hnot : ¬ Undocumented kind) : encodingOf kind = .plain := by
  revert hdoc hnot
  unfold Undocumented
  cases kind <;> simp [encodingOf, documentedEncoding]

/-- Literals and field expressions have a regime where only a name is documented; the other payloads
with a documented encoding are those that the tokens call for. Payloads that are not documented are
0, unless the kind of the node is one of five. -/
theorem payload_documented_iff
    (hp : parse n (.fresh tokens lexErrors source) interner = .ok (r, s))
    (hsize : s.interner.size < 2 ^ 30) (hd : r.pool.get? (some i) = some d) :
    (documentedEncoding d.kind ≠ .plain →
      (Conforms (.fresh tokens lexErrors source) r.pool s.interner i d (documentedEncoding d.kind) ↔
        d.kind ≠ .LitExpr ∧ d.kind ≠ .FieldExpr)) ∧
    (documentedEncoding d.kind = .plain → ¬ Undocumented d.kind → d.payload = 0) := by
  rcases payload_worded hp hd with ⟨hkind, hzero⟩ | ⟨x, name, word, hx, hspell, hfollows⟩
  · rw [hkind]
    exact ⟨fun hdoc => (hdoc rfl).elim, fun _ _ => hzero⟩
  · refine ⟨fun hdoc => conforms_documented_iff hsize hdoc ?_, fun hdoc hnot => ?_⟩
    · refine ⟨x, name, word, hx, hspell, hfollows fun htensor => ?_⟩
      rw [htensor] at hdoc
      exact hdoc rfl
    · have hplain := hfollows fun htensor => hnot (by simp [Undocumented, htensor])
      rw [encodingOf_plain hdoc hnot] at hplain
      exact hplain

/-- `const c:T=1;`, one byte a token. -/
def constOne : List Token :=
  [byteToken .kw_const 0, byteToken .identifier 1, byteToken .colon 2, byteToken .identifier 3,
    byteToken .eq 4, byteToken .integer_literal 5, byteToken .semi 6]

theorem constOne_parses : ∃ r s d,
    parse (enough constOne) (.fresh constOne [] (ascii "cxaTe1;")) .new = .ok (r, s) ∧
      s.interner.size < 2 ^ 30 ∧ r.pool.get? (some 2) = some d ∧ d.kind = .LitExpr := by
  have hrun : (parse (enough constOne) (.fresh constOne [] (ascii "cxaTe1;")) .new).toOption.map
      (fun p => (decide (p.2.interner.size < 2 ^ 30), (p.1.pool.get? (some 2)).map (·.kind))) =
        some (true, some .LitExpr) := by decide +kernel
  cases hp : parse (enough constOne) (.fresh constOne [] (ascii "cxaTe1;")) .new with
  | ok rs =>
    rw [hp] at hrun
    have hpair := Option.some.inj hrun
    obtain ⟨d, hd, hkind⟩ := Option.map_eq_some_iff.mp (congrArg Prod.snd hpair)
    exact ⟨rs.1, rs.2, d, rfl, of_decide_eq_true (congrArg Prod.fst hpair), hd, hkind⟩
  | error e =>
    rw [hp] at hrun
    cases hrun

theorem constOne_payload_documented_iff : ∃ r s d,
    parse (enough constOne) (.fresh constOne [] (ascii "cxaTe1;")) .new = .ok (r, s) ∧
      r.pool.get? (some 2) = some d ∧
      (Conforms (.fresh constOne [] (ascii "cxaTe1;")) r.pool s.interner 2 d
        (documentedEncoding d.kind) ↔ d.kind ≠ .LitExpr ∧ d.kind ≠ .FieldExpr) := by
  obtain ⟨r, s, d, hp, hsize, hd, hkind⟩ := constOne_parses
  refine ⟨r, s, d, hp, hd, (payload_documented_iff hp hsize hd).1 ?_⟩
  rw [hkind]
  decide

/-- The payload of the literal in `const c:T=1;` is not its text's identifier in all bits. -/
theorem literal_payload_not_documented : ∃ r s d,
    parse (enough constOne) (.fresh constOne [] (ascii "cxaTe1;")) .new = .ok (r, s) ∧
      s.interner.size < 2 ^ 30 ∧ r.pool.get? (some 2) = some d ∧ d.kind = .LitExpr ∧
      ¬ Conforms (.fresh constOne [] (ascii "cxaTe1;")) r.pool s.interner 2 d
        (documentedEncoding d.kind) := by
  obtain ⟨r, s, d, hp, hsize, hd, hkind⟩ := constOne_parses
  refine ⟨r, s, d, hp, hsize, hd, hkind, ?_⟩
  rcases payload_worded hp hd with ⟨hk, -⟩ | ⟨x, name, word, -, -, hfollows⟩
  · rw [hkind] at hk
    cases hk
  · have hpacked := hfollows (by rw [hkind]; decide)
    rw [hkind] at hpacked ⊢
    obtain ⟨id, -, hpayload⟩ := hpacked
    rintro ⟨x', name', word', -, -, hname⟩
    rw [hpayload] at hname
    exact not_identifies_makePayload hsize id hname

end Eter.Parser
