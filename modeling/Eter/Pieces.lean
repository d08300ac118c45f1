import Mathlib.Data.List.Basic
import Mathlib.Data.List.TakeWhile
import Mathlib.Tactic

/-!
# Pieces between separators

A list is cut at every separator. A piece starts at the beginning of the list or behind a separator
and goes on to the next one; the number of separators before its start is its index.
-/

namespace Pieces

variable {α : Type*} {sep : α} {xs : List α} {s t o : ℕ}

/-- A piece starts at `s`. -/
def IsStart (sep : α) (xs : List α) (s : ℕ) : Prop := s = 0 ∨ ∃ t, s = t + 1 ∧ xs[t]? = some sep

theorem IsStart.le (h : IsStart sep xs s) : s ≤ xs.length := by
  rcases h with rfl | ⟨t, rfl, ht⟩
  · exact Nat.zero_le _
  · exact (List.getElem?_eq_some_iff.mp ht).1

variable [DecidableEq α]

/-- The separators before position `s`. -/
def index (sep : α) (xs : List α) (s : ℕ) : ℕ := (xs.take s).count sep

/-- Where the piece starts that position `o` belongs to. -/
def start (sep : α) (xs : List α) : ℕ → ℕ
  | 0 => 0
  | o + 1 => if xs[o]? = some sep then o + 1 else start sep xs o

/-- Where the piece ends that is read from `s` on. -/
def stop (sep : α) (xs : List α) (s : ℕ) : ℕ := s + ((xs.drop s).takeWhile (· ≠ sep)).length

theorem index_le (h : s ≤ t) : index sep xs s ≤ index sep xs t :=
  (List.take_sublist_take_left h).count_le sep

theorem index_zero : index sep xs 0 = 0 := rfl

theorem index_cons (x : α) :
    index sep (x :: xs) (s + 1) = index sep xs s + if x = sep then 1 else 0 := by
  unfold index
  rw [List.take_succ_cons, List.count_cons]
  simp only [beq_iff_eq]

theorem index_succ (h : xs[t]? = some sep) : index sep xs (t + 1) = index sep xs t + 1 := by
  unfold index
  rw [List.take_add_one, h, List.count_append]
  simp

theorem index_length_le : index sep xs s ≤ xs.count sep := (List.take_sublist s xs).count_le sep

/-- Different pieces have different indices. -/
theorem IsStart.index_lt (ht : IsStart sep xs t) (h : s < t) : index sep xs s < index sep xs t := by
  rcases ht with rfl | ⟨u, rfl, hu⟩
  · omega
  · rw [index_succ hu]
    exact Nat.lt_succ_of_le (index_le (by omega))

theorem IsStart.eq_of_index (hs : IsStart sep xs s) (ht : IsStart sep xs t)
    (h : index sep xs s = index sep xs t) : s = t := by
  rcases lt_trichotomy s t with hlt | heq | hgt
  · exact absurd h (ht.index_lt hlt).ne
  · exact heq
  · exact absurd h (hs.index_lt hgt).ne'

/-- No separator stands between the two positions. -/
def Free (sep : α) (xs : List α) (s o : ℕ) : Prop := ∀ i, s ≤ i → i < o → xs[i]? ≠ some sep

theorem Free.index_eq (h : Free sep xs s o) (hle : s ≤ o) : index sep xs o = index sep xs s := by
  induction o with
  | zero =>
    obtain rfl : s = 0 := by omega
    rfl
  | succ o ih =>
    rcases Nat.eq_or_lt_of_le hle with rfl | hlt
    · rfl
    · rw [← ih (fun i hi ho => h i hi (by omega)) (by omega)]
      unfold index
      rw [List.take_add_one, List.count_append]
      have hne := h o (by omega) (Nat.lt_succ_self o)
      cases hx : xs[o]? with
      | none => simp
      | some x =>
        rw [hx] at hne
        have hx' : x ≠ sep := fun heq => hne (by rw [heq])
        simp [hx']

theorem start_le : start sep xs o ≤ o := by
  induction o with
  | zero => exact le_rfl
  | succ o ih =>
    unfold start
    split
    · exact le_rfl
    · exact ih.trans (Nat.le_succ o)

theorem start_isStart : IsStart sep xs (start sep xs o) := by
  induction o with
  | zero => exact Or.inl rfl
  | succ o ih =>
    unfold start
    split
    · exact Or.inr ⟨o, rfl, ‹_›⟩
    · exact ih

theorem start_free : Free sep xs (start sep xs o) o := by
  induction o with
  | zero => exact fun i _ hi => absurd hi (Nat.not_lt_zero i)
  | succ o ih =>
    intro i hi hlt
    unfold start at hi
    split at hi
    · omega
    · rcases Nat.lt_succ_iff_lt_or_eq.mp hlt with hlt | rfl
      · exact ih i hi hlt
      · assumption

theorem index_start : index sep xs (start sep xs o) = index sep xs o :=
  (start_free.index_eq start_le).symm

theorem stop_le : s ≤ stop sep xs s := Nat.le_add_right _ _

theorem stop_le_length (h : s ≤ xs.length) : stop sep xs s ≤ xs.length := by
  have hlen := (List.takeWhile_sublist (l := xs.drop s) (· ≠ sep)).length_le
  rw [List.length_drop] at hlen
  unfold stop
  omega

theorem getElem?_of_lt_stop {k : ℕ} (h : k < ((xs.drop s).takeWhile (· ≠ sep)).length) :
    xs[s + k]? = ((xs.drop s).takeWhile (· ≠ sep))[k]? := by
  rw [← List.getElem?_drop]
  conv_lhs => rw [← List.takeWhile_append_dropWhile (p := (· ≠ sep)) (l := xs.drop s)]
  exact List.getElem?_append_left h

theorem stop_free : Free sep xs s (stop sep xs s) := by
  intro i hi hlt hsep
  obtain ⟨k, rfl⟩ : ∃ k, i = s + k := ⟨i - s, by omega⟩
  rw [getElem?_of_lt_stop (Nat.lt_of_add_lt_add_left hlt)] at hsep
  have hne := List.mem_takeWhile_imp (List.mem_of_getElem? hsep)
  simp at hne

/-- Behind a piece that is not the last one stands a separator. -/
theorem stop_sep (hs : s ≤ xs.length) (h : stop sep xs s < xs.length) :
    xs[stop sep xs s]? = some sep := by
  have hsplit := List.takeWhile_append_dropWhile (p := (· ≠ sep)) (l := xs.drop s)
  have hhead := List.head?_dropWhile_not (· ≠ sep) (xs.drop s)
  have hlen := congrArg List.length hsplit
  rw [List.length_append, List.length_drop] at hlen
  unfold stop at h ⊢
  have hnext : (xs.drop s)[((xs.drop s).takeWhile (· ≠ sep)).length]? =
      ((xs.drop s).dropWhile (· ≠ sep))[0]? := by
    conv_lhs => enter [1]; rw [← hsplit]
    rw [List.getElem?_append_right le_rfl, Nat.sub_self]
  rw [← List.getElem?_drop, hnext]
  cases hrest : (xs.drop s).dropWhile (· ≠ sep) with
  | nil =>
    rw [hrest, List.length_nil] at hlen
    omega
  | cons x rest =>
    rw [hrest] at hhead
    simpa using hhead

theorem IsStart.next (hs : IsStart sep xs s) (h : stop sep xs s < xs.length) :
    IsStart sep xs (stop sep xs s + 1) ∧
      index sep xs (stop sep xs s + 1) = index sep xs s + 1 := by
  have hsep := stop_sep hs.le h
  exact ⟨Or.inr ⟨_, rfl, hsep⟩, by rw [index_succ hsep, stop_free.index_eq stop_le]⟩

/-- The start before a start is that of the separator between them. -/
theorem IsStart.prev (hs : IsStart sep xs s) (h : s ≠ 0) :
    index sep xs (start sep xs (s - 1)) + 1 = index sep xs s := by
  obtain rfl | ⟨t, rfl, ht⟩ := hs
  · exact absurd rfl h
  · rw [Nat.add_sub_cancel, index_start, index_succ ht]

/-- The last piece has the greatest index. -/
theorem IsStart.last (hs : IsStart sep xs s) (h : xs.length ≤ stop sep xs s) :
    index sep xs s = xs.count sep := by
  have hstop : stop sep xs s = xs.length := le_antisymm (stop_le_length hs.le) h
  rw [← stop_free.index_eq stop_le, hstop]
  unfold index
  rw [List.take_length]

/-- The piece that is read from a start on is the one with its index. -/
theorem IsStart.piece (h : IsStart sep xs s) :
    (xs.splitOn sep)[index sep xs s]? = some ((xs.drop s).takeWhile (· ≠ sep)) := by
  induction xs generalizing s with
  | nil =>
    obtain rfl : s = 0 := Nat.le_zero.mp h.le
    simp [index]
  | cons x xs ih =>
    rw [List.splitOn_cons_eq_if_modifyHead]
    rcases h with rfl | ⟨t, rfl, ht⟩
    · -- The first piece grows at its front.
      have hfirst := ih (Or.inl rfl)
      by_cases hx : x = sep
      · simp [index, hx]
      · have hx' : (x == sep) = false := by simpa using hx
        cases hsplit : xs.splitOn sep with
        | nil => exact absurd hsplit (List.splitOn_ne_nil sep xs)
        | cons p ps =>
          simp only [index, List.take_zero, List.count_nil, hsplit, List.getElem?_cons_zero,
            List.drop_zero, Option.some.injEq] at hfirst
          simp [index, hx', hx, hfirst]
    · -- The other pieces are those of the tail.
      cases t with
      | zero =>
        obtain rfl : x = sep := by simpa using ht
        have hfirst := ih (Or.inl rfl)
        simpa [index] using hfirst
      | succ t =>
        have ht : xs[t]? = some sep := by simpa using ht
        have hrest := ih (s := t + 1) (Or.inr ⟨t, rfl, ht⟩)
        have hpos : index sep xs (t + 1) = index sep xs t + 1 := index_succ ht
        by_cases hx : x = sep
        · simpa [index, hx] using hrest
        · have hx' : (x == sep) = false := by simpa using hx
          have hindex : index sep (x :: xs) (t + 1 + 1) = index sep xs (t + 1) := by
            simp [index, hx]
          rw [hindex, hx', hpos]
          rw [hpos] at hrest
          cases hsplit : xs.splitOn sep with
          | nil => exact absurd hsplit (List.splitOn_ne_nil sep xs)
          | cons p ps =>
            rw [hsplit] at hrest
            simpa using hrest

theorem length_splitOn (xs : List α) : (xs.splitOn sep).length = xs.count sep + 1 := by
  induction xs with
  | nil => simp
  | cons x xs ih =>
    rw [List.splitOn_cons_eq_if_modifyHead, List.count_cons]
    split <;> simp [*]

end Pieces
