import Eter.PoolRecords

/-!
# Runs of the node store

Any sequence of allocations returns indices that are new, and each node keeps what it was given,
up to the number of children that 16 bits count.
-/

namespace Eter.Parser

inductive StoreCall where
  | alloc (kind : NodeKind) (span : Span) (childNodes : List NodeIndex) (payload flags : ℕ)
  | allocLeaf (kind : NodeKind) (span : Span) (payload : ℕ)
  deriving DecidableEq, Repr

namespace StoreCall

def perform (p : NodePool) : StoreCall → NodeIndex × NodePool
  | alloc kind span childNodes payload flags => p.alloc kind span childNodes payload flags
  | allocLeaf kind span payload => p.allocLeaf kind span payload

/-- What the node is given. -/
def record : StoreCall → NodeRecord
  | alloc kind span childNodes payload flags => ⟨kind, span, childNodes, payload, flags⟩
  | allocLeaf kind span payload => ⟨kind, span, [], payload, 0⟩

theorem perform_poolOf (rs : List NodeRecord) (c : StoreCall) :
    c.perform (poolOf rs) = (some rs.length, poolOf (rs ++ [c.record])) := by
  have hfst : (c.perform (poolOf rs)).1 = some (poolOf rs).nodes.length := by cases c <;> rfl
  have hsnd : (c.perform (poolOf rs)).2 = (poolOf rs).allocRecord c.record := by cases c <;> rfl
  rw [poolOf_nodes_length] at hfst
  rw [← poolOf_concat] at hsnd
  exact Prod.ext hfst hsnd

end StoreCall

/-- The indices that the calls return in order, and the pool they leave behind. -/
def performAll (p : NodePool) : List StoreCall → List NodeIndex × NodePool
  | [] => ([], p)
  | c :: cs =>
    let r := performAll (c.perform p).2 cs
    ((c.perform p).1 :: r.1, r.2)

theorem performAll_poolOf (rs : List NodeRecord) (cs : List StoreCall) :
    performAll (poolOf rs) cs =
      ((List.range' rs.length cs.length).map some, poolOf (rs ++ cs.map (·.record))) := by
  induction cs generalizing rs with
  | nil => simp [performAll]
  | cons c cs ih =>
    have hrest := ih (rs ++ [c.record])
    unfold performAll
    rw [StoreCall.perform_poolOf, hrest]
    simp [List.range'_succ]

theorem performAll_new (cs : List StoreCall) :
    performAll .new cs =
      ((List.range' 1 cs.length).map some, poolOf (sentinel :: cs.map (·.record))) := by
  rw [← poolOf_sentinel]
  exact performAll_poolOf [sentinel] cs

/-- The node has everything its call was given. -/
structure NodePool.Keeps (p : NodePool) (i : NodeIndex) (r : NodeRecord) : Prop where
  kind : (p.get? i).map (·.kind) = some r.kind
  span : p.spanOf? i = some r.span
  payload : (p.get? i).map (·.payload) = some r.payload
  flags : (p.get? i).map (·.flags) = some r.flags
  children : p.childrenOf i = r.kids

/-- New indices throughout, and at every later point each node has what its call was given. -/
structure StoreFaithful (cs : List StoreCall) : Prop where
  distinct : (performAll .new cs).1.Nodup
  positive : ∀ x ∈ (performAll .new cs).1, ∃ j, x = some j ∧ 1 ≤ j
  kept : ∀ m i c x, i < m → cs[i]? = some c → (performAll .new cs).1[i]? = some x →
    (performAll .new (cs.take m)).2.Keeps x c.record

/-- More children than 16 bits count are not all found again. -/
theorem childrenOf_eq_kids_iff {rs : List NodeRecord} {i : ℕ} {r : NodeRecord}
    (h : rs[i]? = some r) : (poolOf rs).childrenOf (some i) = r.kids ↔ r.kids.length ≤ 65535 := by
  rw [childrenOf_of_record h]
  constructor
  · intro heq
    have hlen := congrArg List.length heq
    rw [List.length_take] at hlen
    have hlt : r.kids.length % 2 ^ 16 < 2 ^ 16 := Nat.mod_lt _ (by norm_num)
    omega
  · intro hle
    rw [Nat.mod_eq_of_lt (by omega), List.take_length]

theorem keeps_iff {rs : List NodeRecord} {i : ℕ} {r : NodeRecord} (h : rs[i]? = some r) :
    (poolOf rs).Keeps (some i) r ↔ r.kids.length ≤ 65535 := by
  rw [← childrenOf_eq_kids_iff h]
  constructor
  · exact fun hk => hk.children
  · intro hc
    exact ⟨by rw [get?_of_record h]; rfl, spanOf?_of_record h, by rw [get?_of_record h]; rfl,
      by rw [get?_of_record h]; rfl, hc⟩

/-- The `i`-th call of a run, as a record of the pool at a later point. -/
theorem record_of_call {cs : List StoreCall} {m i : ℕ} {c : StoreCall} (hi : i < m)
    (hc : cs[i]? = some c) :
    (sentinel :: (cs.take m).map (·.record))[1 + i]? = some c.record := by
  rw [Nat.add_comm, List.getElem?_cons_succ, List.getElem?_map, List.getElem?_take_of_lt hi, hc]
  rfl

theorem index_of_call {cs : List StoreCall} {i : ℕ} {c : StoreCall} (hc : cs[i]? = some c) :
    (performAll .new cs).1[i]? = some (some (1 + i)) := by
  obtain ⟨hi, -⟩ := List.getElem?_eq_some_iff.mp hc
  rw [performAll_new, List.getElem?_map, List.getElem?_range' (by simpa using hi)]
  simp

theorem keeps_call_iff {cs : List StoreCall} {m i : ℕ} {c : StoreCall} (hi : i < m)
    (hc : cs[i]? = some c) : (performAll .new (cs.take m)).2.Keeps (some (1 + i)) c.record ↔
      c.record.kids.length ≤ 65535 := by
  rw [performAll_new]
  exact keeps_iff (record_of_call hi hc)

theorem store_faithful_iff (cs : List StoreCall) :
    StoreFaithful cs ↔ ∀ c ∈ cs, c.record.kids.length ≤ 65535 := by
  constructor
  · intro h c hmem
    obtain ⟨i, hi, rfl⟩ := List.getElem_of_mem hmem
    have hc : cs[i]? = some cs[i] := List.getElem?_eq_getElem hi
    exact (keeps_call_iff (Nat.lt_succ_self i) hc).mp
      (h.kept (i + 1) i _ _ (Nat.lt_succ_self i) hc (index_of_call hc))
  · intro hfew
    refine ⟨?_, ?_, ?_⟩
    · rw [performAll_new]
      exact List.Nodup.map (Option.some_injective ℕ) List.nodup_range'
    · intro x hx
      rw [performAll_new] at hx
      obtain ⟨j, hj, rfl⟩ := List.mem_map.mp hx
      exact ⟨j, rfl, (List.mem_range'_1.mp hj).1⟩
    · intro m i c x hi hc hx
      rw [index_of_call hc] at hx
      cases hx
      exact (keeps_call_iff hi hc).mpr (hfew c (List.mem_of_getElem? hc))

/-- A node with one child more than 16 bits count. -/
def wideCall : StoreCall := .alloc .ArrayLitExpr ⟨0, 0⟩ (List.replicate 65536 NullNode) 0 0

theorem wide_node_not_kept : ¬ StoreFaithful [wideCall] := by
  intro h
  have hc : [wideCall][0]? = some wideCall := rfl
  have hkept := h.kept 1 0 _ _ Nat.one_pos hc (index_of_call hc)
  have hlen : (List.replicate 65536 NullNode).length ≤ 65535 :=
    (keeps_call_iff Nat.one_pos hc).mp hkept
  rw [List.length_replicate] at hlen
  omega

end Eter.Parser
