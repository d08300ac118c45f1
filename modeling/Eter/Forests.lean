import Mathlib.Tactic

/-!
# Forests in allocation order

Nodes are numbered in the order they are allocated, each with the list of its children. A node may
only adopt nodes that have no parent yet; the loose nodes are those that may still be adopted. The
numbers below `first` are not nodes of the forest.
-/

namespace Forests

structure Forest (first : ℕ) (kids : List (List ℕ)) (loose : List ℕ) : Prop where
  older : ∀ i k, kids[i]? = some k → ∀ j ∈ k, first ≤ j ∧ j < i
  inside : ∀ j ∈ loose, first ≤ j ∧ j < kids.length
  once : (kids.flatten ++ loose).Nodup

/-- Every node has a parent or is loose. -/
def Complete (first : ℕ) (kids : List (List ℕ)) (loose : List ℕ) : Prop :=
  ∀ i, first ≤ i → i < kids.length → i ∈ kids.flatten ++ loose

variable {first : ℕ} {kids : List (List ℕ)} {loose loose' k : List ℕ}

theorem Forest.nil_loose (hkids : ∀ k ∈ kids, k = []) : Forest first kids [] where
  older i k hk j hj := by
    rw [hkids k (List.mem_of_getElem? hk)] at hj
    simp at hj
  inside j hj := by simp at hj
  once := by
    have hflat : kids.flatten = [] := List.flatten_eq_nil_iff.mpr hkids
    simp [hflat]

theorem Forest.lt_length (h : Forest first kids loose) {j : ℕ} (hj : j ∈ kids.flatten ++ loose) :
    j < kids.length := by
  rcases List.mem_append.mp hj with hj | hj
  · obtain ⟨k, hk, hjk⟩ := List.mem_flatten.mp hj
    obtain ⟨i, hi⟩ := List.getElem?_of_mem hk
    have hlt := (h.older i k hi j hjk).2
    have hlen := (List.getElem?_eq_some_iff.mp hi).1
    omega
  · exact (h.inside j hj).2

/-- Loose nodes may be forgotten. -/
theorem Forest.forget (h : Forest first kids loose) (hsub : loose'.Sublist loose) :
    Forest first kids loose' where
  older := h.older
  inside j hj := h.inside j (hsub.subset hj)
  once := h.once.sublist ((List.Sublist.refl _).append hsub)

/-- A new node adopts the last loose nodes. -/
theorem Forest.adopt (h : Forest first kids (loose ++ k)) (hfirst : first ≤ kids.length) :
    Forest first (kids ++ [k]) (loose ++ [kids.length]) where
  older i k' hk' j hj := by
    rcases Nat.lt_trichotomy i kids.length with hi | rfl | hi
    · rw [List.getElem?_append_left hi] at hk'
      exact h.older i k' hk' j hj
    · rw [List.getElem?_concat_length] at hk'
      cases hk'
      exact h.inside j (List.mem_append_right _ hj)
    · rw [List.getElem?_eq_none (by simpa using hi)] at hk'
      cases hk'
  inside j hj := by
    rw [List.length_append, List.length_singleton]
    rcases List.mem_append.mp hj with hj | hj
    · have hin := h.inside j (List.mem_append_left _ hj)
      omega
    · rw [List.mem_singleton.mp hj]
      omega
  once := by
    have hperm : ((kids ++ [k]).flatten ++ (loose ++ [kids.length])).Perm
        (kids.length :: (kids.flatten ++ (loose ++ k))) := by
      have hflat : (kids ++ [k]).flatten = kids.flatten ++ k := by simp
      rw [hflat, ← List.append_assoc]
      refine (List.perm_append_singleton _ _).trans (List.Perm.cons _ ?_)
      rw [List.append_assoc]
      exact List.Perm.append_left _ List.perm_append_comm
    rw [hperm.nodup_iff, List.nodup_cons]
    refine ⟨fun hmem => ?_, h.once⟩
    have hlt := h.lt_length hmem
    omega

theorem Complete.adopt (h : Complete first kids (loose ++ k)) :
    Complete first (kids ++ [k]) (loose ++ [kids.length]) := by
  intro i hi hlt
  rw [List.length_append, List.length_singleton] at hlt
  by_cases hlast : i = kids.length
  · simp [hlast]
  · have hmem := h i hi (by omega)
    simp only [List.mem_append] at hmem
    simp only [List.flatten_append, List.mem_append, List.flatten_cons, List.flatten_nil,
      List.append_nil]
    tauto

/-- No node is a child twice, of one parent or of two. -/
theorem Forest.unique_parent (h : Forest first kids loose) {i i' a a' j : ℕ} {k k' : List ℕ}
    (hk : kids[i]? = some k) (hk' : kids[i']? = some k') (ha : k[a]? = some j)
    (ha' : k'[a']? = some j) : i = i' ∧ a = a' := by
  have hnodup := (List.nodup_append.mp h.once).1
  rw [List.nodup_flatten] at hnodup
  obtain ⟨hone, hpair⟩ := hnodup
  obtain ⟨hi, rfl⟩ := List.getElem?_eq_some_iff.mp hk
  obtain ⟨hi', rfl⟩ := List.getElem?_eq_some_iff.mp hk'
  have hii : i = i' := by
    rcases Nat.lt_trichotomy i i' with hlt | heq | hlt
    · have hdisj := List.pairwise_iff_getElem.mp hpair i i' hi hi' hlt
      exact (hdisj (List.mem_of_getElem? ha) (List.mem_of_getElem? ha')).elim
    · exact heq
    · have hdisj := List.pairwise_iff_getElem.mp hpair i' i hi' hi hlt
      exact (hdisj (List.mem_of_getElem? ha') (List.mem_of_getElem? ha)).elim
  subst hii
  have hnd : kids[i].Nodup := hone _ (List.getElem_mem hi)
  have hlt := (List.getElem?_eq_some_iff.mp ha).1
  exact ⟨rfl, (List.getElem?_inj hlt hnd).mp (ha.trans ha'.symm)⟩

/-- When only the last node is loose, every node is reached from it. -/
theorem Forest.reaches (h : Forest first kids loose) {root : ℕ}
    (hc : Complete first kids [root]) (hroot : root + 1 = kids.length) {i : ℕ} (hi : first ≤ i)
    (hlt : i < kids.length) :
    Relation.ReflTransGen (fun p c => ∃ k, kids[p]? = some k ∧ c ∈ k) root i := by
  induction hd : root - i using Nat.strong_induction_on generalizing i with
  | _ d ih =>
    rcases List.mem_append.mp (hc i hi hlt) with hmem | hmem
    · obtain ⟨k, hk, hik⟩ := List.mem_flatten.mp hmem
      obtain ⟨p, hp⟩ := List.getElem?_of_mem hk
      have hip := h.older p k hp i hik
      have hplt := (List.getElem?_eq_some_iff.mp hp).1
      exact (ih (root - p) (by omega) (by omega) hplt rfl).tail ⟨k, hp, hik⟩
    · rw [List.mem_singleton.mp hmem]

end Forests
