import Eter.Forests
import Eter.Schema
import Eter.ParserDiagnostics

/-!
# How the tree grows

The invariant of the pool while the parser runs. The held nodes are those without a parent yet, in
the order they were allocated and with their categories; a new node adopts the last ones.
-/

namespace Eter.Parser
open Layout Forests Diag

/-- The nodes among a list of children. -/
def refs (kids : List NodeIndex) : List ℕ := kids.filterMap id

/-- Held nodes with their categories. -/
abbrev Held := List (NodeIndex × Cat)

def Held.indices (held : Held) : List NodeIndex := held.map Prod.fst

@[simp] theorem Held.indices_append (hs cs : Held) :
    Held.indices (hs ++ cs) = hs.indices ++ cs.indices := List.map_append

theorem refs_append (as bs : List NodeIndex) : refs (as ++ bs) = refs as ++ refs bs :=
  List.filterMap_append

/-- `IsA` over records. -/
def IsRecord (rs : List NodeRecord) (c : Cat) : NodeIndex → Prop
  | none => c.nullable = true
  | some i => ∃ r, rs[i]? = some r ∧ c.admits r.kind (bodyless r.kids) = true

theorem IsRecord.concat {rs : List NodeRecord} {c : Cat} {i : NodeIndex} (h : IsRecord rs c i)
    (r : NodeRecord) : IsRecord (rs ++ [r]) c i := by
  cases i with
  | none => exact h
  | some i =>
    obtain ⟨r', hr', hc⟩ := h
    exact ⟨r', by rwa [List.getElem?_append_left (List.getElem?_eq_some_iff.mp hr').1], hc⟩

/-- The payload of a tensor literal is the number of its values, in 16 bits. -/
def TensorCounts (kind : NodeKind) (payload kids : ℕ) : Prop :=
  kind = .TensorLitExpr → ∃ v, payload = v % 2 ^ 16 ∧ 1 ≤ v ∧ v ≤ kids

/-- The check on dimensions compares numbers in 16 bits. -/
def TensorDims (kind : NodeKind) (payload kids : ℕ) : Prop :=
  (kind = .TensorType → kids ≠ 1) ∧ (kind = .TensorLitExpr → kids % 2 ^ 16 ≠ payload)

structure Grown (rs : List NodeRecord) (errs : List PhaseDiagnostic) (held : Held) : Prop where
  sentinel : 1 ≤ rs.length
  forest : Forest 1 (rs.map fun r => refs r.kids) (refs held.indices)
  complete : errs = [] → Complete 1 (rs.map fun r => refs r.kids) (refs held.indices)
  held : ∀ p ∈ held, IsRecord rs p.2 p.1
  layouts : ∀ r ∈ rs, Fits (IsRecord rs) (layoutOf r.kind) r.kids
  counts : ∀ r ∈ rs, TensorCounts r.kind r.payload r.kids.length
  clean : errs = [] → ∀ i r, 1 ≤ i → rs[i]? = some r →
    r.kind ≠ .Error ∧ TensorDims r.kind r.payload r.kids.length

variable {rs : List NodeRecord} {errs : List PhaseDiagnostic} {hs cs : Held}

/-- The pool with nothing but the sentinel. -/
theorem Grown.new : Grown [Parser.sentinel] [] [] where
  sentinel := le_rfl
  forest := Forest.nil_loose (by simp [Parser.sentinel, refs])
  complete := by
    intro _ i hi hlt
    simp at hlt
    omega
  held := by simp
  layouts r hr := by
    rw [List.mem_singleton.mp hr]
    exact .nil
  counts r hr := by
    rw [List.mem_singleton.mp hr]
    rintro ⟨⟩
  clean := by
    intro _ i r hi hr
    rw [List.getElem?_eq_none (by simpa using hi)] at hr
    cases hr

theorem Grown.report (h : Grown rs errs hs) (d : PhaseDiagnostic) : Grown rs (errs ++ [d]) hs where
  sentinel := h.sentinel
  forest := h.forest
  complete := by simp
  held := h.held
  layouts := h.layouts
  counts := h.counts
  clean := by simp

/-- Once an error is reported, held nodes may be dropped. -/
theorem Grown.drop (h : Grown rs errs hs) (herrs : errs ≠ []) (hsub : cs.Sublist hs) :
    Grown rs errs cs where
  sentinel := h.sentinel
  forest := h.forest.forget ((hsub.map Prod.fst).filterMap id)
  complete := fun h' => (herrs h').elim
  held p hp := h.held p (hsub.subset hp)
  layouts := h.layouts
  counts := h.counts
  clean := h.clean

/-- The categories of the held nodes may be widened. -/
theorem Grown.recast (h : Grown rs errs hs) (hidx : cs.indices = hs.indices)
    (hcs : ∀ p ∈ cs, IsRecord rs p.2 p.1) : Grown rs errs cs where
  sentinel := h.sentinel
  forest := hidx ▸ h.forest
  complete := hidx ▸ h.complete
  held := hcs
  layouts := h.layouts
  counts := h.counts
  clean := h.clean

/-- A new node adopts the last held ones, which follow the layout of its kind. -/
theorem Grown.alloc (h : Grown rs errs (hs ++ cs)) {r : NodeRecord} {c : Cat}
    (hkids : r.kids = cs.indices) (hfit : Fits (fun c p => p.2 = c) (layoutOf r.kind) cs)
    (hcounts : TensorCounts r.kind r.payload r.kids.length)
    (hclean : errs = [] → r.kind ≠ .Error ∧ TensorDims r.kind r.payload r.kids.length)
    (hadmits : c.admits r.kind (bodyless r.kids) = true) :
    Grown (rs ++ [r]) errs (hs ++ [(some rs.length, c)]) := by
  have hrefs : refs (Held.indices (hs ++ [(some rs.length, c)])) =
      refs hs.indices ++ [rs.length] := by
    rw [Held.indices_append, refs_append]
    rfl
  have hold : refs (Held.indices (hs ++ cs)) = refs hs.indices ++ refs r.kids := by
    rw [Held.indices_append, refs_append, hkids]
  have hmap : (rs ++ [r]).map (fun r => refs r.kids) =
      rs.map (fun r => refs r.kids) ++ [refs r.kids] := by simp
  have hlen : (rs.map fun r => refs r.kids).length = rs.length := List.length_map _
  refine ⟨by simp, ?_, ?_, ?_, ?_, ?_, ?_⟩
  · have hf := h.forest
    rw [hold] at hf
    rw [hmap, hrefs, ← hlen]
    exact hf.adopt (by rw [hlen]; exact h.sentinel)
  · intro he
    have hc := h.complete he
    rw [hold] at hc
    rw [hmap, hrefs, ← hlen]
    exact hc.adopt
  · intro p hp
    rcases List.mem_append.mp hp with hp | hp
    · exact (h.held p (List.mem_append_left _ hp)).concat r
    · rw [List.mem_singleton.mp hp]
      exact ⟨r, List.getElem?_concat_length, hadmits⟩
  · intro r' hr'
    rcases List.mem_append.mp hr' with hr' | hr'
    · exact (h.layouts r' hr').mono fun c i _ hi => hi.concat r
    · rw [List.mem_singleton.mp hr', hkids]
      refine hfit.map fun c p hp hc => ?_
      rw [← hc]
      exact (h.held p (List.mem_append_right _ hp)).concat r
  · intro r' hr'
    rcases List.mem_append.mp hr' with hr' | hr'
    · exact h.counts r' hr'
    · rw [List.mem_singleton.mp hr']
      exact hcounts
  · intro he i r' hi hr'
    rcases Nat.lt_trichotomy i rs.length with hlt | rfl | hlt
    · rw [List.getElem?_append_left hlt] at hr'
      exact h.clean he i r' hi hr'
    · rw [List.getElem?_concat_length] at hr'
      cases hr'
      exact hclean he
    · rw [List.getElem?_eq_none (by simpa using hlt)] at hr'
      cases hr'

/-- A held node is in the pool. -/
theorem Grown.record_of_held (h : Grown rs errs hs) {i : NodeIndex} {c : Cat}
    (hmem : (i, c) ∈ hs) (hnull : c.nullable = false) :
    ∃ j r, i = some j ∧ 1 ≤ j ∧ rs[j]? = some r := by
  have hi := h.held _ hmem
  cases i with
  | none => simp [IsRecord, hnull] at hi
  | some j =>
    obtain ⟨r, hr, -⟩ := hi
    have hin : j ∈ refs hs.indices := by
      rw [refs, List.mem_filterMap]
      exact ⟨some j, List.mem_map_of_mem hmem, rfl⟩
    exact ⟨j, r, rfl, (h.forest.inside j hin).1, hr⟩

end Eter.Parser
