import Eter.NodePool

/-!
# Pools as lists of records

Every pool is built by `alloc`, so it is the fold of what its calls were given. The records make
the children that each node was given explicit.
-/

namespace Eter.Parser

/-- What one call of `alloc` is given. -/
structure NodeRecord where
  kind : NodeKind
  span : Span
  kids : List NodeIndex
  payload : ℕ
  flags : ℕ
  deriving DecidableEq, Repr

def NodePool.allocRecord (p : NodePool) (r : NodeRecord) : NodePool :=
  (p.alloc r.kind r.span r.kids r.payload r.flags).2

def poolOf (rs : List NodeRecord) : NodePool := rs.foldl NodePool.allocRecord ⟨[], [], []⟩

/-- The record of the sentinel. -/
def sentinel : NodeRecord := ⟨.Error, ⟨0, 0⟩, [], 0, 0⟩

theorem poolOf_sentinel : poolOf [sentinel] = NodePool.new := rfl

theorem poolOf_concat (rs : List NodeRecord) (r : NodeRecord) :
    poolOf (rs ++ [r]) = (poolOf rs).allocRecord r := by
  simp [poolOf]

/-- Where the children of record `i` begin. -/
def kidsBegin (rs : List NodeRecord) (i : ℕ) : ℕ := ((rs.take i).flatMap (·.kids)).length

theorem poolOf_children (rs : List NodeRecord) : (poolOf rs).children = rs.flatMap (·.kids) := by
  induction rs using List.reverseRecOn with
  | nil => rfl
  | append_singleton rs r ih =>
    rw [poolOf_concat]
    simp [NodePool.allocRecord, NodePool.alloc, ih]

theorem poolOf_spans (rs : List NodeRecord) : (poolOf rs).spans = rs.map (·.span) := by
  induction rs using List.reverseRecOn with
  | nil => rfl
  | append_singleton rs r ih =>
    rw [poolOf_concat]
    simp [NodePool.allocRecord, NodePool.alloc, ih]

@[simp] theorem poolOf_nodes_length (rs : List NodeRecord) :
    (poolOf rs).nodes.length = rs.length := by
  induction rs using List.reverseRecOn with
  | nil => rfl
  | append_singleton rs r ih =>
    rw [poolOf_concat]
    simp [NodePool.allocRecord, NodePool.alloc, ih]

/-- The node of record `i`. -/
def nodeAt (rs : List NodeRecord) (i : ℕ) (r : NodeRecord) : NodeData :=
  ⟨r.kind, r.kids.length % 2 ^ 16, kidsBegin rs i, r.payload, r.flags⟩

theorem poolOf_get? (rs : List NodeRecord) (i : ℕ) :
    (poolOf rs).get? (some i) = rs[i]?.map (nodeAt rs i) := by
  show (poolOf rs).nodes[i]? = _
  induction rs using List.reverseRecOn with
  | nil => rfl
  | append_singleton rs r ih =>
    have hnodes : (poolOf (rs ++ [r])).nodes =
        (poolOf rs).nodes ++ [nodeAt rs rs.length r] := by
      rw [poolOf_concat]
      simp [NodePool.allocRecord, NodePool.alloc, nodeAt, kidsBegin, poolOf_children]
    rw [hnodes]
    rcases Nat.lt_trichotomy i rs.length with hi | rfl | hi
    · have hbegin : kidsBegin (rs ++ [r]) i = kidsBegin rs i := by
        unfold kidsBegin
        rw [List.take_append_of_le_length hi.le]
      have hnode : nodeAt (rs ++ [r]) i = nodeAt rs i := by
        funext r'
        rw [nodeAt, nodeAt, hbegin]
      rw [List.getElem?_append_left (by simpa using hi), List.getElem?_append_left hi, ih, hnode]
    · have hlast : (poolOf rs).nodes.length = rs.length := poolOf_nodes_length rs
      rw [← hlast, List.getElem?_concat_length, hlast, List.getElem?_concat_length]
      simp [nodeAt, kidsBegin]
    · rw [List.getElem?_eq_none (by simpa using hi), List.getElem?_eq_none (by simpa using hi)]
      rfl

theorem get?_of_record {rs : List NodeRecord} {i : ℕ} {r : NodeRecord} (h : rs[i]? = some r) :
    (poolOf rs).get? (some i) = some (nodeAt rs i r) := by
  rw [poolOf_get?, h]
  rfl

theorem spanOf?_of_record {rs : List NodeRecord} {i : ℕ} {r : NodeRecord}
    (h : rs[i]? = some r) : (poolOf rs).spanOf? (some i) = some r.span := by
  show (poolOf rs).spans[i]? = _
  rw [poolOf_spans, List.getElem?_map, h]
  rfl

theorem kidsBegin_succ {rs : List NodeRecord} {i : ℕ} {r : NodeRecord} (h : rs[i]? = some r) :
    kidsBegin rs (i + 1) = kidsBegin rs i + r.kids.length := by
  unfold kidsBegin
  rw [List.take_add_one, h]
  simp

/-- The children array from where those of record `i` begin. -/
theorem drop_kidsBegin {rs : List NodeRecord} {i : ℕ} {r : NodeRecord} (h : rs[i]? = some r) :
    ∃ rest, (poolOf rs).children.drop (kidsBegin rs i) = r.kids ++ rest := by
  obtain ⟨hi, rfl⟩ := List.getElem?_eq_some_iff.mp h
  refine ⟨(rs.drop (i + 1)).flatMap (·.kids), ?_⟩
  have hsplit : rs.flatMap (·.kids) =
      (rs.take i).flatMap (·.kids) ++ (rs[i].kids ++ (rs.drop (i + 1)).flatMap (·.kids)) := by
    calc rs.flatMap (·.kids) = (rs.take i ++ rs.drop i).flatMap (·.kids) := by
          rw [List.take_append_drop]
      _ = _ := by rw [List.drop_eq_getElem_cons hi, List.flatMap_append, List.flatMap_cons]
  rw [poolOf_children, hsplit, kidsBegin, List.drop_left]

theorem childrenEnd_of_record {rs : List NodeRecord} {i : ℕ} {r : NodeRecord}
    (h : rs[i]? = some r) : (poolOf rs).childrenEnd i = kidsBegin rs i + r.kids.length := by
  unfold NodePool.childrenEnd
  rw [← kidsBegin_succ h, poolOf_get?]
  cases hn : rs[i + 1]? with
  | some r' => rfl
  | none =>
    have hlen : rs.length ≤ i + 1 := List.getElem?_eq_none_iff.mp hn
    simp [poolOf_children, kidsBegin, List.take_of_length_le hlen]

theorem givenTo_of_record {rs : List NodeRecord} {i : ℕ} {r : NodeRecord} (h : rs[i]? = some r) :
    (poolOf rs).givenTo (some i) = r.kids := by
  obtain ⟨rest, hrest⟩ := drop_kidsBegin h
  unfold NodePool.givenTo
  rw [get?_of_record h]
  dsimp only
  rw [childrenEnd_of_record h]
  simp [nodeAt, hrest]

theorem childrenOf_of_record {rs : List NodeRecord} {i : ℕ} {r : NodeRecord}
    (h : rs[i]? = some r) :
    (poolOf rs).childrenOf (some i) = r.kids.take (r.kids.length % 2 ^ 16) := by
  obtain ⟨rest, hrest⟩ := drop_kidsBegin h
  unfold NodePool.childrenOf
  rw [get?_of_record h]
  have hle : r.kids.length % 2 ^ 16 ≤ r.kids.length := Nat.mod_le _ _
  simp only [nodeAt, hrest]
  rw [List.take_append_of_le_length hle]

/-- A node that was not given too many children has them all. -/
theorem childrenOf_eq_kids {rs : List NodeRecord} (hfew : (poolOf rs).FewChildren) {i : ℕ}
    {r : NodeRecord} (h : rs[i]? = some r) : (poolOf rs).childrenOf (some i) = r.kids := by
  have hlen := hfew (some i)
  rw [givenTo_of_record h] at hlen
  rw [childrenOf_of_record h, Nat.mod_eq_of_lt (by omega), List.take_length]

end Eter.Parser
