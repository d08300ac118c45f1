import Eter.CleanCalls
import Eter.Walks

/-!
# Trees behind nodes

What a node stands for, without the indices, spans, and identifiers of the run that built it. Runs
over copies of the same tokens build nodes that stand for the same trees.
-/

namespace Eter.Parser
open Stateful NodePool

/-- A tree of kinds and flags; a payload is a name and a rest. -/
inductive SyntaxTree where
  | missing
  | node (kind : NodeKind) (flags : ℕ) (name : Option Bytes) (rest : ℕ)
      (children : List SyntaxTree)

/-- What a payload holds: the text of its name, and a regime, an operator, or a count. -/
inductive Carries (strings : StringInterner) : Encoding → ℕ → Option Bytes → ℕ → Prop where
  | packed {id : InternedStr} {r : Regime} {text : Bytes} (h : strings.get? id = some text) :
      Carries strings .packed (makePayload id r) (some text) r.value
  | noName : Carries strings .name NullStr none 0
  | name {id : InternedStr} {text : Bytes} (h : strings.get? id = some text) :
      Carries strings .name id (some text) 0
  | packedNone {id : InternedStr} {text : Bytes} (h : strings.get? id = some text) :
      Carries strings .packedNone (makePayload id .None) (some text) 0
  | operator (payload : ℕ) : Carries strings .operator payload none payload
  | plain (payload : ℕ) : Carries strings .plain payload none payload

/-- Node `i` stands for the tree. -/
inductive PState.Denotes (s : PState) : NodeIndex → SyntaxTree → Prop where
  | missing : s.Denotes NullNode .missing
  | node {i : NodeIndex} {d : NodeData} {name : Option Bytes} {rest : ℕ} {ts : List SyntaxTree}
      (hd : s.pool.get? i = some d)
      (hc : Carries s.interner (encodingOf d.kind) d.payload name rest)
      (hlen : ts.length = (s.pool.childrenOf i).length)
      (hk : ∀ (k : ℕ) (j : NodeIndex) (t : SyntaxTree), (s.pool.childrenOf i)[k]? = some j →
        ts[k]? = some t → s.Denotes j t) :
      s.Denotes i (.node d.kind d.flags name rest ts)

variable {s t u : PState} {i j x y : NodeIndex} {tr : SyntaxTree} {ts : List SyntaxTree} {n : ℕ}
  {call : Call} {w : Twin} {f : Frame}

/-! ### Later states -/

/-- Names keep their texts. -/
def PState.Remembers (s t : PState) : Prop :=
  ∀ id text, s.interner.get? id = some text → t.interner.get? id = some text

theorem remembers_grow : StepsGrow PState.Remembers where
  refl _ _ _ h := h
  trans h h' _ _ hid := h' _ _ (h _ _ hid)
  advance _ _ _ h := h
  intern _ text _ _ h := StringInterner.get?_intern_of_get? h text
  alloc _ _ _ _ _ _ _ _ h := h
  report _ _ _ _ h := h
  countStray _ _ _ _ h := h
  slip _ _ _ _ h := h
  lit _ _ _ h := h

theorem Carries.later (h : s.Remembers t) {e : Encoding} {payload rest : ℕ} {name : Option Bytes}
    (hc : Carries s.interner e payload name rest) : Carries t.interner e payload name rest := by
  cases hc with
  | packed hid => exact .packed (h _ _ hid)
  | noName => exact .noName
  | name hid => exact .name (h _ _ hid)
  | packedNone hid => exact .packedNone (h _ _ hid)
  | operator => exact .operator _
  | plain => exact .plain _

/-- The nodes of the pool stay as they are. -/
def PState.Keeps (s t : PState) : Prop :=
  ∀ i d, s.pool.get? i = some d →
    t.pool.get? i = some d ∧ t.pool.childrenOf i = s.pool.childrenOf i

theorem PState.Precedes.keeps (h : s.Precedes t) (hs : s.Valid) : s.Keeps t := by
  rintro (_ | i) d hd
  · cases hd
  obtain ⟨rs, -, hp, -⟩ := hs.tree
  obtain ⟨nodes, hnodes⟩ := h.nodes
  obtain ⟨kids, hkids⟩ := h.children
  have hi : i < s.pool.nodes.length := (List.getElem?_eq_some_iff.mp hd).1
  have hget : t.pool.get? (some i) = some d := by
    show t.pool.nodes[i]? = _
    rw [← hnodes, List.getElem?_append_left hi]
    exact hd
  refine ⟨hget, ?_⟩
  have hir : i < rs.length := by rwa [hp, poolOf_nodes_length] at hi
  have hr : rs[i]? = some rs[i] := List.getElem?_eq_getElem hir
  have hnode := get?_of_record hr
  rw [← hp, hd] at hnode
  obtain rfl := Option.some.inj hnode
  obtain ⟨rest, hrest⟩ := drop_kidsBegin hr
  rw [← hp] at hrest
  have hbegin : kidsBegin rs i ≤ s.pool.children.length := by
    rw [hp, poolOf_children, kidsBegin]
    exact ((List.take_sublist i rs).flatMap _).length_le
  have hcount : rs[i].kids.length % 2 ^ 16 ≤ (rs[i].kids ++ rest).length := by
    have hmod := Nat.mod_le rs[i].kids.length (2 ^ 16)
    simp only [List.length_append]
    omega
  unfold childrenOf
  rw [hget, hd]
  simp only [nodeAt]
  rw [← hkids, List.drop_append_of_le_length hbegin, hrest, List.take_append_of_le_length hcount]

theorem PState.Denotes.later (h : s.Denotes i tr) (hkeeps : s.Keeps t) (hnames : s.Remembers t) :
    t.Denotes i tr := by
  induction h with
  | missing => exact .missing
  | node hd hc hlen hk ih =>
    obtain ⟨hget, hkids⟩ := hkeeps _ _ hd
    refine .node hget (hc.later hnames) (by rw [hlen, hkids]) fun k j t hj ht => ?_
    rw [hkids] at hj
    exact ih k j t hj ht

/-! ### Two runs -/

/-- The texts over the same tokens are the same, however many tokens there are. -/
def Twin.Exact (w : Twin) : Prop :=
  ∀ i j, i ≤ j → Eter.textOf w.right.source (w.right.hull (i + w.shift) (j + w.shift)) =
    Eter.textOf w.left.source (w.left.hull i j)

theorem TextAlike.eq_of_exact (hw : w.Exact) {sliced : Bool} {a b : Bytes}
    (h : TextAlike w sliced a b) : b = a := by
  rcases h with rfl | ⟨-, i, j, hij, rfl, rfl⟩
  · rfl
  · exact hw i j hij

theorem NameAlike.same (hw : w.Exact) {a b : StringInterner} {p : NamePair}
    (h : NameAlike w a b p) : ∃ text, a.get? p.left = some text ∧ b.get? p.right = some text := by
  obtain ⟨text, text', ha, hb, htext⟩ := h
  rw [htext.eq_of_exact hw] at hb
  exact ⟨text, ha, hb⟩

theorem PayloadAlike.carries (hw : w.Exact) {a b : StringInterner} {kind : NodeKind} {p p' : ℕ}
    (h : PayloadAlike w a b kind p p') : ∃ name rest,
      Carries a (encodingOf kind) p name rest ∧ Carries b (encodingOf kind) p' name rest := by
  unfold PayloadAlike at h
  cases henc : encodingOf kind with
  | packed =>
    rw [henc] at h
    obtain ⟨n, n', r, rfl, rfl, hname⟩ := h
    obtain ⟨text, ha, hb⟩ := hname.same hw
    exact ⟨_, _, .packed ha, .packed hb⟩
  | name =>
    rw [henc] at h
    rcases h with ⟨rfl, rfl⟩ | hname
    · exact ⟨_, _, .noName, .noName⟩
    · obtain ⟨text, ha, hb⟩ := hname.same hw
      exact ⟨_, _, .name ha, .name hb⟩
  | packedNone =>
    rw [henc] at h
    obtain ⟨n, n', rfl, rfl, hname⟩ := h
    obtain ⟨text, ha, hb⟩ := hname.same hw
    exact ⟨_, _, .packedNone ha, .packedNone hb⟩
  | operator =>
    rw [henc] at h
    obtain ⟨rfl, -⟩ := h
    exact ⟨_, _, .operator _, .operator _⟩
  | plain =>
    rw [henc] at h
    obtain rfl : p' = p := h
    exact ⟨_, _, .plain _, .plain _⟩

/-- The children stand for the trees, in order. -/
theorem PState.Denotes.of_kids {d : NodeData} {name : Option Bytes} {rest : ℕ}
    (hd : s.pool.get? i = some d) (hc : Carries s.interner (encodingOf d.kind) d.payload name rest)
    (hk : List.Forall₂ s.Denotes (s.pool.childrenOf i) ts) :
    s.Denotes i (.node d.kind d.flags name rest ts) := by
  refine .node hd hc hk.length_eq.symm fun k j t hj ht => ?_
  obtain ⟨t', ht', hden⟩ := forall₂_getElem? hk hj
  rw [ht] at ht'
  cases ht'
  exact hden

theorem exists_trees {xs ys : List NodeIndex}
    (h : List.Forall₂ (fun x y => ∃ tr, s.Denotes x tr ∧ t.Denotes y tr) xs ys) :
    ∃ ts, List.Forall₂ s.Denotes xs ts ∧ List.Forall₂ t.Denotes ys ts := by
  induction h with
  | nil => exact ⟨[], .nil, .nil⟩
  | cons hxy _ ih =>
    obtain ⟨tr, hx, hy⟩ := hxy
    obtain ⟨ts, hxs, hys⟩ := ih
    exact ⟨tr :: ts, .cons hx hxs, .cons hy hys⟩

/-- The children of a record are older. -/
theorem Grown.older {all rs : List NodeRecord} {errs : List Diag.PhaseDiagnostic} {hs : Held}
    (h : Grown all errs hs) (hp : poolOf rs = poolOf all) {k j : ℕ} {r : NodeRecord}
    (hr : rs[k]? = some r) (hj : some j ∈ r.kids) : j < k := by
  have hlt : k < all.length := by
    have hlen := congrArg (fun p => p.nodes.length) hp
    simp only [poolOf_nodes_length] at hlen
    exact hlen ▸ (List.getElem?_eq_some_iff.mp hr).1
  have hr' : all[k]? = some all[k] := List.getElem?_eq_getElem hlt
  have hkids : all[k].kids = r.kids := by
    rw [← givenTo_of_record hr', ← hp, givenTo_of_record hr]
  have hrefs : (all.map fun r => refs r.kids)[k]? = some (refs r.kids) := by
    rw [List.getElem?_map, hr', ← hkids]
    rfl
  exact (h.forest.older k _ hrefs j (List.mem_filterMap.mpr ⟨some j, hj, rfl⟩)).2

/-- Nodes that are alike stand for one tree. -/
theorem Alike.denotes (h : Alike w f s t) (hw : w.Exact) (hs : s.Valid) (hx : s.Has x)
    (hxy : NodeAlike w x y) : ∃ tr, s.Denotes x tr ∧ t.Denotes y tr := by
  obtain ⟨rs, rs', hp, hp', hrs⟩ := h.pools
  obtain ⟨all, _, hall, hgrown⟩ := hs.tree
  -- The children are older, so the induction is on the index.
  have hnodes : ∀ k < rs.length, ∃ tr, s.Denotes (some (w.left.records.length + k)) tr ∧
      t.Denotes (some (w.right.records.length + k)) tr := by
    intro k
    induction k using Nat.strong_induction_on with
    | _ k ih =>
      intro hk
      have hr : rs[k]? = some rs[k] := List.getElem?_eq_getElem hk
      obtain ⟨r', hr', hrr⟩ := forall₂_getElem? hrs hr
      have hrec : (w.left.records ++ rs)[w.left.records.length + k]? = some rs[k] := by
        rw [List.getElem?_append_right (Nat.le_add_right _ _), Nat.add_sub_cancel_left, hr]
      have hrec' : (w.right.records ++ rs')[w.right.records.length + k]? = some r' := by
        rw [List.getElem?_append_right (Nat.le_add_right _ _), Nat.add_sub_cancel_left, hr']
      have hkids : List.Forall₂ (fun x y => ∃ tr, s.Denotes x tr ∧ t.Denotes y tr)
          rs[k].kids r'.kids := by
        have hmem := (List.forall₂_and_left (p := (· ∈ rs[k].kids)) _ _).mpr ⟨fun _ hx => hx, hrr.kids⟩
        refine hmem.imp ?_
        rintro x y ⟨hmem, ⟨rfl, rfl⟩ | ⟨k', rfl, rfl⟩⟩
        · exact ⟨_, .missing, .missing⟩
        · have hlt := hgrown.older (hp.symm.trans hall) hrec hmem
          exact ih k' (by omega) (by omega)
      obtain ⟨name, rest, hc, hc'⟩ := hrr.payload.carries hw
      obtain ⟨ts, hts, hts'⟩ := exists_trees hkids
      have hget := get?_of_record hrec
      have hget' := get?_of_record hrec'
      have hch := childrenOf_of_record hrec
      have hch' := childrenOf_of_record hrec'
      rw [← hp] at hget hch
      rw [← hp'] at hget' hch'
      rw [← hrr.kids.length_eq] at hch'
      have hkind : (nodeAt (w.right.records ++ rs') (w.right.records.length + k) r').kind =
        rs[k].kind := hrr.kind
      have hflags : (nodeAt (w.right.records ++ rs') (w.right.records.length + k) r').flags =
        rs[k].flags := hrr.flags
      have hden : s.Denotes _ (.node rs[k].kind rs[k].flags name rest _) :=
        .of_kids hget hc (by rw [hch]; exact List.forall₂_take _ hts)
      have hden' := PState.Denotes.of_kids hget' (by rw [hkind]; exact hc')
        (by rw [hch']; exact List.forall₂_take _ hts')
      rw [hkind, hflags] at hden'
      exact ⟨_, hden, hden'⟩
  rcases hxy with ⟨rfl, rfl⟩ | ⟨k, rfl, rfl⟩
  · exact ⟨_, .missing, .missing⟩
  · obtain ⟨span, hspan⟩ := hx
    rw [hp, poolOf_append_spanOf?] at hspan
    obtain ⟨r, hr, -⟩ := Option.map_eq_some_iff.mp hspan
    exact hnodes k (List.getElem?_eq_some_iff.mp hr).1

end Eter.Parser
