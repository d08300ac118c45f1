import Eter.StringInterner

/-!
# Runs of the interner

Along any sequence of calls the table and the vector of strings stay inverse to each other, so
identifiers and strings correspond one to one.
-/

namespace Eter.Parser
namespace StringInterner

theorem find_eq_none_iff (s : StringInterner) (text : Bytes) :
    s.find text = none ↔ text ∉ s.table.map (·.1) := by
  unfold find
  rw [Option.map_eq_none_iff, List.find?_eq_none, List.mem_map]
  constructor
  · rintro h ⟨e, he, rfl⟩
    exact h e he (beq_self_eq_true _)
  · intro h e he htext
    exact h ⟨e, he, by simpa using htext⟩

/-! ### The two steps of an insertion -/

/-- `Table.insert({S, 0})`: the entries afterwards, and whether one was inserted. -/
def insertProvisional (table : List (Bytes × InternedStr)) (text : Bytes) :
    List (Bytes × InternedStr) × Bool :=
  if text ∈ table.map (·.1) then (table, false) else (table ++ [(text, NullStr)], true)

/-- `It->second = Id` at the entry of the text. -/
def patch (table : List (Bytes × InternedStr)) (text : Bytes) (id : InternedStr) :
    List (Bytes × InternedStr) :=
  table.map fun e => if e.1 = text then (e.1, id) else e

/-! ### Runs -/

/-- The table has every string but the sentinel, once, in the order of the vector. -/
structure Canonical (s : StringInterner) : Prop where
  strings : s.strings = [] :: s.table.map (·.1)
  ids : s.table.map (·.2) = List.range' 1 s.table.length
  distinct : (s.table.map (·.1)).Nodup

theorem Canonical.new : Canonical StringInterner.new := ⟨rfl, rfl, List.nodup_nil⟩

theorem Canonical.length {s : StringInterner} (h : s.Canonical) :
    s.strings.length = s.table.length + 1 := by
  rw [h.strings]
  simp

theorem Canonical.intern {s : StringInterner} (h : s.Canonical) (text : Bytes) :
    (s.intern text).2.Canonical := by
  cases hf : s.find text with
  | some id =>
    have hsame : (s.intern text).2 = s := by
      unfold StringInterner.intern
      rw [hf]
    rwa [hsame]
  | none =>
    have hfresh := (s.find_eq_none_iff text).mp hf
    have htable : (s.intern text).2.table = s.table ++ [(text, s.strings.length)] := by
      unfold StringInterner.intern
      rw [hf]
    have hstrings : (s.intern text).2.strings = s.strings ++ [text] := by
      unfold StringInterner.intern
      rw [hf]
    refine ⟨?_, ?_, ?_⟩
    · rw [hstrings, htable, h.strings]
      simp
    · rw [htable, List.map_append, h.ids, h.length, List.length_append]
      show _ = List.range' 1 (s.table.length + 1)
      rw [List.range'_concat]
      simp [Nat.add_comm]
    · rw [htable, List.map_append]
      exact h.distinct.append (List.nodup_singleton _) (by simpa using hfresh)

/-- The identifiers that the calls return in order, and the interner they leave behind. -/
def internAll (s : StringInterner) : List Bytes → List InternedStr × StringInterner
  | [] => ([], s)
  | text :: texts =>
    let r := internAll (s.intern text).2 texts
    ((s.intern text).1 :: r.1, r.2)

theorem Canonical.internAll {s : StringInterner} (h : s.Canonical) (texts : List Bytes) :
    (s.internAll texts).2.Canonical := by
  induction texts generalizing s with
  | nil => exact h
  | cons text texts ih => exact ih (h.intern text)

theorem get?_internAll_of_get? {s : StringInterner} {id : InternedStr} {t : Bytes}
    (h : s.get? id = some t) (texts : List Bytes) : (s.internAll texts).2.get? id = some t := by
  induction texts generalizing s with
  | nil => exact h
  | cons text texts ih => exact ih (get?_intern_of_get? h text)

theorem internAll_length (s : StringInterner) (texts : List Bytes) :
    (s.internAll texts).1.length = texts.length := by
  induction texts generalizing s with
  | nil => rfl
  | cons text texts ih => simp [internAll, ih]

/-- What a call returned stands for its text at every later point. -/
theorem get?_internAll {s : StringInterner} {texts : List Bytes} {m i : ℕ} {id : InternedStr}
    {t : Bytes} (hi : i < m) (hid : (s.internAll texts).1[i]? = some id)
    (ht : texts[i]? = some t) : (s.internAll (texts.take m)).2.get? id = some t := by
  induction texts generalizing s m i with
  | nil => simp at ht
  | cons text texts ih =>
    obtain ⟨m, rfl⟩ : ∃ m', m = m' + 1 := ⟨m - 1, by omega⟩
    cases i with
    | zero =>
      cases hid
      cases ht
      exact get?_internAll_of_get? (get?_intern s t) (texts.take m)
    | succ i => exact ih (Nat.lt_of_succ_lt_succ hi) hid ht

theorem Canonical.fst_intern_mem {s : StringInterner} (h : s.Canonical) (text : Bytes) :
    1 ≤ (s.intern text).1 ∧ (s.intern text).1 ≤ (s.intern text).2.size := by
  have hget := get?_intern s text
  have hlt : (s.intern text).1 < (s.intern text).2.strings.length :=
    (List.getElem?_eq_some_iff.mp hget).1
  refine ⟨?_, Nat.le_sub_one_of_lt hlt⟩
  unfold StringInterner.intern
  cases hf : s.find text with
  | none =>
    have hlen := h.length
    show 1 ≤ s.strings.length
    omega
  | some id =>
    obtain ⟨e, he, rfl⟩ := Option.map_eq_some_iff.mp hf
    have hid : e.2 ∈ s.table.map (·.2) := List.mem_map_of_mem (List.mem_of_find?_eq_some he)
    rw [h.ids] at hid
    exact (List.mem_range'_1.mp hid).1

theorem size_intern_le (s : StringInterner) (text : Bytes) : s.size ≤ (s.intern text).2.size := by
  unfold size intern
  cases s.find text with
  | none => simp
  | some id => exact le_rfl

theorem size_internAll_le (s : StringInterner) (texts : List Bytes) :
    s.size ≤ (s.internAll texts).2.size := by
  induction texts generalizing s with
  | nil => exact le_rfl
  | cons text texts ih => exact (s.size_intern_le text).trans (ih _)

/-- A run issues the identifiers behind those it found. -/
theorem Canonical.issues {s : StringInterner} (h : s.Canonical) (texts : List Bytes) {x : ℕ}
    (hlo : s.size < x) (hhi : x ≤ (s.internAll texts).2.size) : x ∈ (s.internAll texts).1 := by
  induction texts generalizing s with
  | nil => exact absurd hhi (Nat.not_le.mpr hlo)
  | cons text texts ih =>
    by_cases hx : (s.intern text).2.size < x
    · exact List.mem_cons_of_mem _ (ih (h.intern text) hx hhi)
    · -- the call itself issued it
      have hfst : (s.intern text).1 = x := by
        have hlen := h.length
        unfold size at hlo hx
        unfold StringInterner.intern at hx ⊢
        cases hf : s.find text with
        | none =>
          rw [hf] at hx
          simp only [List.length_append, List.length_singleton] at hx
          show s.strings.length = x
          omega
        | some id =>
          rw [hf] at hx
          exact absurd hlo hx
      exact hfst ▸ List.mem_cons_self

theorem Canonical.mem_internAll {s : StringInterner} (h : s.Canonical) {texts : List Bytes}
    {x : ℕ} (hx : x ∈ (s.internAll texts).1) : 1 ≤ x ∧ x ≤ (s.internAll texts).2.size := by
  induction texts generalizing s with
  | nil => cases hx
  | cons text texts ih =>
    rcases List.mem_cons.mp hx with rfl | hx
    · have hmem := h.fst_intern_mem text
      exact ⟨hmem.1, hmem.2.trans (size_internAll_le _ texts)⟩
    · exact ih (h.intern text) hx

/-- Behind the sentinel no string stands twice. -/
theorem Canonical.id_unique {s : StringInterner} (h : s.Canonical) {x y : ℕ} {t : Bytes}
    (hx : 1 ≤ x) (hy : 1 ≤ y) (hxt : s.get? x = some t) (hyt : s.get? y = some t) : x = y := by
  obtain ⟨x, rfl⟩ : ∃ k, x = k + 1 := ⟨x - 1, by omega⟩
  obtain ⟨y, rfl⟩ : ∃ k, y = k + 1 := ⟨y - 1, by omega⟩
  unfold get? at hxt hyt
  rw [h.strings, List.getElem?_cons_succ] at hxt hyt
  obtain ⟨hxlt, hxt⟩ := List.getElem?_eq_some_iff.mp hxt
  obtain ⟨hylt, hyt⟩ := List.getElem?_eq_some_iff.mp hyt
  exact congrArg (· + 1) ((h.distinct.getElem_inj_iff).mp (hxt.trans hyt.symm))

theorem Canonical.intern_known {s : StringInterner} (h : s.Canonical) {id : ℕ}
    {text : Bytes} (hid : 1 ≤ id) (hget : s.get? id = some text) : (s.intern text).2 = s := by
  have hmem : text ∈ s.table.map (·.1) := by
    unfold get? at hget
    obtain ⟨id, rfl⟩ : ∃ k, id = k + 1 := ⟨id - 1, by omega⟩
    rw [h.strings, List.getElem?_cons_succ] at hget
    exact List.mem_of_getElem? hget
  unfold StringInterner.intern
  cases hf : s.find text with
  | none => exact absurd hmem ((s.find_eq_none_iff text).mp hf)
  | some id' => rfl

/-- The identifiers of a run that starts with an empty table, and the interner it leaves behind. -/
def interned (texts : List Bytes) : List InternedStr × StringInterner :=
  StringInterner.new.internAll texts

/-- Identifiers and strings correspond one to one along a run. -/
structure StableBijection (texts : List Bytes) : Prop where
  injective : ∀ (i j x y : ℕ) (t u : Bytes), (interned texts).1[i]? = some x →
    (interned texts).1[j]? = some y → texts[i]? = some t → texts[j]? = some u → (x = y ↔ t = u)
  notNull : ∀ x ∈ (interned texts).1, x ≠ NullStr
  stable : ∀ (m i x : ℕ) (t : Bytes), i < m → (interned texts).1[i]? = some x →
    texts[i]? = some t → (interned (texts.take m)).2.get? x = some t
  exactly : ∀ x, x ∈ (interned texts).1 ↔ 1 ≤ x ∧ x ≤ (interned texts).2.size
  known : ∀ t ∈ texts, ((interned texts).2.intern t).2 = (interned texts).2

theorem interned_stable_bijection (texts : List Bytes) : StableBijection texts := by
  have hcan : (interned texts).2.Canonical := Canonical.new.internAll texts
  have hget : ∀ (i x : ℕ) (t : Bytes), (interned texts).1[i]? = some x → texts[i]? = some t →
      (interned texts).2.get? x = some t := by
    intro i x t hx ht
    have hlt : i < texts.length := (List.getElem?_eq_some_iff.mp ht).1
    have h := get?_internAll hlt hx ht
    rwa [List.take_length] at h
  have hpos : ∀ x ∈ (interned texts).1, 1 ≤ x := fun x hx => (Canonical.new.mem_internAll hx).1
  refine ⟨?_, ?_, ?_, ?_, ?_⟩
  · intro i j x y t u hx hy ht hu
    have hxt := hget i x t hx ht
    have hyu := hget j y u hy hu
    constructor
    · rintro rfl
      exact Option.some.inj (hxt.symm.trans hyu)
    · rintro rfl
      exact hcan.id_unique (hpos x (List.mem_of_getElem? hx)) (hpos y (List.mem_of_getElem? hy))
        hxt hyu
  · intro x hx hnull
    exact absurd (hpos x hx) (hnull ▸ Nat.not_succ_le_zero 0)
  · intro m i x t hi hx ht
    exact get?_internAll hi hx ht
  · intro x
    constructor
    · exact Canonical.new.mem_internAll
    · intro hx
      exact Canonical.new.issues texts hx.1 hx.2
  · intro t ht
    obtain ⟨i, hi, rfl⟩ := List.getElem_of_mem ht
    have hlt : i < (interned texts).1.length := by
      unfold interned
      rwa [internAll_length]
    have hx := hget i _ _ (List.getElem?_eq_getElem hlt) (List.getElem?_eq_getElem hi)
    exact hcan.intern_known (hpos _ (List.getElem_mem hlt)) hx

end StringInterner
end Eter.Parser
