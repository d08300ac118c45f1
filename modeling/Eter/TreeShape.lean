import Eter.Acceptance

/-!
# The tree the parser leaves behind

A forest in allocation order, connected when there are no errors, whose nodes follow the schema.
-/

namespace Eter.Parser
open Layout Forests

variable {tokens : List Token} {lexErrors : List LexerError} {source : Bytes}
  {interner : StringInterner} {n : ℕ}

/-! ### The forest -/

/-- Node `j` is a child of node `i`. -/
def NodePool.IsChild (p : NodePool) (i j : ℕ) : Prop := some j ∈ p.childrenOf (some i)

/-- Children are older than their parents, and no node has two places in the forest. -/
structure NodePool.IsForest (p : NodePool) : Prop where
  older : ∀ i, ∀ c ∈ p.childrenOf (some i), c = NullNode ∨ ∃ j, c = some j ∧ 1 ≤ j ∧ j < i
  once : ∀ i i' a a' j : ℕ, (p.childrenOf (some i))[a]? = some (some j) →
    (p.childrenOf (some i'))[a']? = some (some j) → i = i' ∧ a = a'

/-- The root is the last node and a source file. -/
def NodePool.HasRoot (p : NodePool) (root : NodeIndex) : Prop :=
  root = some (p.nodes.length - 1) ∧ ∃ d, p.get? root = some d ∧ d.kind = .SourceFile

/-- Every node is reached from the root. -/
def NodePool.Connected (p : NodePool) (root : NodeIndex) : Prop :=
  ∀ i, 1 ≤ i → i < p.nodes.length →
    ∃ j, root = some j ∧ Relation.ReflTransGen p.IsChild j i

variable {rs : List NodeRecord} {errs : List Diag.PhaseDiagnostic} {hs : Held}

theorem childrenOf_of_none {i : ℕ} (h : rs[i]? = none) : (poolOf rs).childrenOf (some i) = [] := by
  unfold NodePool.childrenOf
  rw [poolOf_get?, h]
  rfl

/-- Two children of a list that are the same node, as places among its nodes. -/
theorem refs_place {kids : List NodeIndex} {a j : ℕ} (h : kids[a]? = some (some j)) :
    (refs kids)[(refs (kids.take a)).length]? = some j := by
  obtain ⟨ha, hj⟩ := List.getElem?_eq_some_iff.mp h
  have hsplit : kids = kids.take a ++ some j :: kids.drop (a + 1) := by
    rw [← hj, ← List.drop_eq_getElem_cons ha, List.take_append_drop]
  have hrefs : refs kids = refs (kids.take a) ++ j :: refs (kids.drop (a + 1)) := by
    conv_lhs => rw [hsplit]
    rw [refs_append]
    rfl
  rw [hrefs]
  simp

theorem refs_take_lt {kids : List NodeIndex} {a a' j : ℕ} (h : kids[a]? = some (some j))
    (hlt : a < a') : (refs (kids.take a)).length < (refs (kids.take a')).length := by
  obtain ⟨ha, hj⟩ := List.getElem?_eq_some_iff.mp h
  obtain ⟨k, rfl⟩ : ∃ k, a' = a + 1 + k := ⟨a' - (a + 1), by omega⟩
  rw [List.take_add, List.take_add_one, h, refs_append, refs_append]
  simp [refs]

theorem Grown.isForest (h : Grown rs errs hs) (hfew : (poolOf rs).FewChildren) :
    (poolOf rs).IsForest where
  older := by
    intro i c hc
    cases hr : rs[i]? with
    | none =>
      rw [childrenOf_of_none hr] at hc
      simp at hc
    | some r =>
      rw [childrenOf_eq_kids hfew hr] at hc
      cases c with
      | none => exact Or.inl rfl
      | some j =>
        refine Or.inr ⟨j, rfl, h.forest.older i (refs r.kids) ?_ j ?_⟩
        · rw [List.getElem?_map, hr]
          rfl
        · exact List.mem_filterMap.mpr ⟨some j, hc, rfl⟩
  once := by
    intro i i' a a' j ha ha'
    cases hr : rs[i]? with
    | none =>
      rw [childrenOf_of_none hr] at ha
      simp at ha
    | some r =>
      cases hr' : rs[i']? with
      | none =>
        rw [childrenOf_of_none hr'] at ha'
        simp at ha'
      | some r' =>
        rw [childrenOf_eq_kids hfew hr] at ha
        rw [childrenOf_eq_kids hfew hr'] at ha'
        have hk : (rs.map fun r => refs r.kids)[i]? = some (refs r.kids) := by
          rw [List.getElem?_map, hr]
          rfl
        have hk' : (rs.map fun r => refs r.kids)[i']? = some (refs r'.kids) := by
          rw [List.getElem?_map, hr']
          rfl
        obtain ⟨rfl, hplace⟩ := h.forest.unique_parent hk hk' (refs_place ha) (refs_place ha')
        obtain rfl : r = r' := Option.some.inj (hr.symm.trans hr')
        refine ⟨rfl, ?_⟩
        rcases Nat.lt_trichotomy a a' with hlt | heq | hlt
        · have := refs_take_lt ha hlt
          omega
        · exact heq
        · have := refs_take_lt ha' hlt
          omega

theorem Grown.connected {root : ℕ} {c : Cat} (h : Grown rs errs [(some root, c)])
    (herr : errs = []) (hroot : root + 1 = rs.length) (hfew : (poolOf rs).FewChildren) :
    (poolOf rs).Connected (some root) := by
  intro i hi hlt
  rw [poolOf_nodes_length] at hlt
  have hreach := h.forest.reaches (h.complete herr) (by simpa using hroot) hi (by simpa using hlt)
  refine ⟨root, rfl, Relation.ReflTransGen.mono ?_ root i hreach⟩
  intro p j hpj
  obtain ⟨k, hk, hj⟩ := hpj
  rw [List.getElem?_map] at hk
  obtain ⟨r, hr, rfl⟩ := Option.map_eq_some_iff.mp hk
  unfold NodePool.IsChild
  rw [childrenOf_eq_kids hfew hr]
  obtain ⟨x, hx, rfl⟩ := List.mem_filterMap.mp hj
  exact hx

theorem Grown.hasRoot {root : ℕ} (h : Grown rs errs [(some root, .sourceFile)])
    (hroot : root + 1 = rs.length) : (poolOf rs).HasRoot (some root) := by
  refine ⟨by rw [poolOf_nodes_length, ← hroot, Nat.add_sub_cancel], ?_⟩
  obtain ⟨r, hr, hadmits⟩ := h.held _ (List.mem_singleton_self _)
  refine ⟨nodeAt rs root r, get?_of_record hr, ?_⟩
  have hmem : Cat.sourceFile.kinds.contains r.kind = true := by
    simp only [Cat.admits, Bool.and_eq_true] at hadmits
    exact hadmits.1
  simpa [Cat.kinds, nodeAt] using hmem

/-! ### The schema -/

theorem IsRecord.isA (hfew : (poolOf rs).FewChildren) {c : Cat} {i : NodeIndex}
    (h : IsRecord rs c i) : (poolOf rs).IsA c i := by
  cases i with
  | none => exact h
  | some j =>
    obtain ⟨r, hr, hc⟩ := h
    refine ⟨nodeAt rs j r, get?_of_record hr, ?_⟩
    rw [childrenOf_eq_kids hfew hr]
    exact hc

theorem Grown.conforms (h : Grown rs errs hs) (hfew : (poolOf rs).FewChildren) :
    (poolOf rs).Conforms := by
  intro i d hd
  rw [poolOf_get?] at hd
  obtain ⟨r, hr, rfl⟩ := Option.map_eq_some_iff.mp hd
  have hmem := List.mem_of_getElem? hr
  have hlen := hfew (some i)
  rw [givenTo_of_record hr] at hlen
  rw [childrenOf_eq_kids hfew hr]
  refine ⟨(h.layouts r hmem).mono fun c i _ hi => hi.isA hfew, fun hkind => ?_⟩
  obtain ⟨v, hv, hone, hle⟩ := h.counts r hmem hkind
  show 1 ≤ r.payload % 2 ^ 16 ∧ r.payload % 2 ^ 16 ≤ r.kids.length
  rw [hv, Nat.mod_mod, Nat.mod_eq_of_lt (by omega)]
  exact ⟨hone, hle⟩

theorem Grown.errorFree (h : Grown rs errs hs) (herr : errs = [])
    (hfew : (poolOf rs).FewChildren) : (poolOf rs).ErrorFree := by
  intro i d hi hd
  rw [poolOf_get?] at hd
  obtain ⟨r, hr, rfl⟩ := Option.map_eq_some_iff.mp hd
  obtain ⟨hkind, htype, hlit⟩ := h.clean herr i r hi hr
  have hmem := List.mem_of_getElem? hr
  have hlen := hfew (some i)
  rw [givenTo_of_record hr] at hlen
  rw [childrenOf_eq_kids hfew hr]
  refine ⟨hkind, fun hk => ?_, fun hk => ?_⟩
  · -- the layout has a type, and the check on dimensions excludes that it is all
    have hfit := h.layouts r hmem
    have hk : r.kind = .TensorType := hk
    rw [hk] at hfit
    cases hkids : r.kids with
    | nil =>
      rw [hkids] at hfit
      cases hfit
    | cons a as =>
      have hne := htype hk
      rw [hkids] at hne
      simp at hne ⊢
      exact List.length_pos_iff.mpr hne
  · obtain ⟨v, hv, hone, hle⟩ := h.counts r hmem hk
    have hne := hlit hk
    show r.payload % 2 ^ 16 < r.kids.length
    rw [hv] at hne ⊢
    rw [Nat.mod_eq_of_lt (show v < 2 ^ 16 by omega),
      Nat.mod_eq_of_lt (show r.kids.length < 2 ^ 16 by omega)] at hne
    rw [Nat.mod_mod, Nat.mod_eq_of_lt (show v < 2 ^ 16 by omega)]
    omega

/-! ### Runs -/

/-- The pool a run leaves behind, as records. -/
theorem parse_grown (hn : enough tokens ≤ n) {r : ParseResult} {s : PState}
    (hp : parse n (.fresh tokens lexErrors source) interner = .ok (r, s)) :
    ∃ rs root, r.pool = poolOf rs ∧ r.root = some root ∧ root + 1 = rs.length ∧
      Grown rs r.errors [(r.root, .sourceFile)] := by
  obtain ⟨r', s', hp', -, hpool, herrors, hroot, h⟩ :=
    parse_spec .acceptance lexErrors source interner hn
  rw [hp] at hp'
  cases hp'
  obtain ⟨rs, hrs, hg⟩ := h.tree
  have hsent := hg.sentinel
  refine ⟨rs, rs.length - 1, hpool.trans hrs, ?_, by omega, herrors ▸ hg⟩
  rw [hroot, hrs, poolOf_nodes_length]

/-- No step of a run asks for the kind or the span of `NullNode`, and it leaves a forest. -/
theorem parse_forest (hn : enough tokens ≤ n) :
    ∃ r s, parse n (.fresh tokens lexErrors source) interner = .ok (r, s) ∧
      (r.pool.FewChildren → r.pool.IsForest ∧ r.pool.HasRoot r.root ∧
        (r.errors = [] → r.pool.Connected r.root)) := by
  obtain ⟨r, s, hp, -⟩ := parse_spec .acceptance lexErrors source interner hn
  obtain ⟨rs, root, hpool, hr, hroot, hg⟩ := parse_grown hn hp
  refine ⟨r, s, hp, fun hfew => ?_⟩
  rw [hpool] at hfew ⊢
  rw [hr] at hg ⊢
  exact ⟨hg.isForest hfew, hg.hasRoot hroot, fun herr => hg.connected herr hroot hfew⟩

theorem parse_forest_fn : ∃ r s, parse 29 (.fresh emptyFn [] []) .new = .ok (r, s) ∧
    r.pool.IsForest ∧ r.pool.HasRoot r.root ∧ r.pool.Connected r.root := by
  obtain ⟨r, s, hp, herr, hlen⟩ := emptyFn_parses
  obtain ⟨r', s', hp', h⟩ := @parse_forest emptyFn [] [] .new 29 (by decide)
  rw [hp] at hp'
  cases hp'
  have h := h (NodePool.few_of_children_length (by omega))
  exact ⟨r, s, hp, h.1, h.2.1, h.2.2 herr⟩

/-- The tree follows the schema, and without errors it has no error node and all dimensions. -/
theorem parse_conforms (hn : enough tokens ≤ n) {r : ParseResult} {s : PState}
    (hp : parse n (.fresh tokens lexErrors source) interner = .ok (r, s))
    (hfew : r.pool.FewChildren) :
    r.pool.Conforms ∧ (r.errors = [] → r.pool.ErrorFree) := by
  obtain ⟨rs, root, hpool, -, -, hg⟩ := parse_grown hn hp
  rw [hpool] at hfew ⊢
  exact ⟨hg.conforms hfew, fun herr => hg.errorFree herr hfew⟩

theorem parse_conforms_fn : ∃ r s, parse 29 (.fresh emptyFn [] []) .new = .ok (r, s) ∧
    r.pool.Conforms ∧ r.pool.ErrorFree := by
  obtain ⟨r, s, hp, herr, hlen⟩ := emptyFn_parses
  have h := parse_conforms (by decide) hp (NodePool.few_of_children_length (by omega))
  exact ⟨r, s, hp, h.1, h.2 herr⟩

end Eter.Parser
